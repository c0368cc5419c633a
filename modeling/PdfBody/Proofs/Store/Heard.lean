import Mathlib.Data.List.Basic
import PdfBody.Proofs.Runs
import PdfBody.Proofs.Store.Handles

/-! What an observer hears of the transactions on one stream. It hears their beginnings and ends in turn,
until a transaction is over whose content could not be flushed or stored: the end of that one is not
told. -/
namespace PdfBody

inductive Mark where
  | opened
  | closed
  deriving DecidableEq, Repr

def Event.mark? (owner : ObjId) : Event → Option Mark
  | .streamOpened id _ => if id = owner then some .opened else none
  | .streamClosed id _ => if id = owner then some .closed else none
  | _ => none

def Notice.mark? (token : Nat) (owner : ObjId) : Notice → Option Mark
  | .heard t event => if t = token then event.mark? owner else none
  | .streamMade _ => none

inductive Alternating : Bool → List Mark → Prop where
  | none : Alternating false []
  | opened {marks} (before : Alternating false marks) : Alternating true (marks ++ [.opened])
  | closed {marks} (before : Alternating true marks) : Alternating false (marks ++ [.closed])

structure Paired (appending : Bool) (marks : List Mark) : Prop where
  inTurn : ∃ pending, Alternating pending marks
  ended : appending = false → Alternating false marks

theorem Alternating.paired {appending : Bool} {marks : List Mark}
    (alternating : Alternating appending marks) : Paired appending marks :=
  ⟨⟨appending, alternating⟩, fun idle => idle ▸ alternating⟩

theorem Alternating.unpaired {marks : List Mark} (pending : Alternating true marks) :
    ¬ Paired false marks := by
  intro paired
  have closed := paired.ended rfl
  generalize same : marks = others at closed
  cases pending with
  | opened before =>
    cases closed with
    | none => exact List.concat_ne_nil _ _ same
    | closed before => exact absurd (List.append_inj_right' same rfl) nofun

namespace Handle

def marks (owner : ObjId) (h : Handle) : List Mark := h.events.filterMap (Event.mark? owner)

structure Told (heard : List Mark) (owner : ObjId) (h : Handle) : Prop where
  own : h.owner = owner
  alternating : Alternating h.content.stream.isAppending (heard ++ h.marks owner)

def TellsPaired (heard : List Mark) (owner : ObjId) (h : Handle) : Prop :=
  Paired h.content.stream.isAppending (heard ++ h.marks owner)

structure Silent (owner : ObjId) (h : Handle) : Prop where
  other : h.owner ≠ owner
  silent : h.marks owner = []

def LosesEnd (h : Handle) : Prop := h.content.stream.isAppending = true ∧ h.close.1 ≠ .ok ()

section

variable {heard : List Mark} {owner : ObjId} {h : Handle}

theorem marksTold (event : Event) (h : Handle) :
    (h.tell event).marks owner = h.marks owner ++ (event.mark? owner).toList := by
  unfold marks tell
  rw [List.filterMap_append]
  cases noted : event.mark? owner <;> simp [noted]

theorem marksMarked (markDirty : Bool) : (h.marked markDirty).marks owner = h.marks owner := by
  rw [marks, markedEvents, marks]

theorem marksOpened (own : h.owner = owner) : h.tellOpened.marks owner = h.marks owner ++ [.opened] := by
  rw [tellOpened, marksTold, Event.mark?, if_pos own]
  rfl

theorem marksClosed (own : h.owner = owner) : h.tellClosed.marks owner = h.marks owner ++ [.closed] := by
  rw [tellClosed, marksTold, Event.mark?, if_pos own]
  rfl

theorem marksOpenedOther (other : h.owner ≠ owner) : h.tellOpened.marks owner = h.marks owner := by
  rw [tellOpened, marksTold, Event.mark?, if_neg other]
  exact List.append_nil _

theorem marksClosedOther (other : h.owner ≠ owner) : h.tellClosed.marks owner = h.marks owner := by
  rw [tellClosed, marksTold, Event.mark?, if_neg other]
  exact List.append_nil _

theorem toldKept : Kept (Told heard owner) where
  begin := by
    intro h filters discard markDirty told
    have own : (h.marked markDirty).owner = owner := (markedOwner markDirty h).trans told.own
    have step := h.began filters discard markDirty
    generalize (h.begin filters discard markDirty).1 = result,
      (h.begin filters discard markDirty).2 = after at step
    have begins (ready : h.content.stream.open? = none) :
        Alternating true (heard ++ (h.marked markDirty).tellOpened.marks owner) := by
      have before := told.alternating
      rw [DataStream.idleAppending ready] at before
      rw [marksOpened own, marksMarked, ← List.append_assoc]
      exact .opened before
    cases step with
    | unready failed => exact told
    | refused ready refused =>
      have begun := begins (Content.prepareIdle ready)
      refine ⟨own, ?_⟩
      rw [marksClosed (by exact own), ← List.append_assoc]
      exact .closed begun
    | opened ready written => exact ⟨own, begins (Content.prepareIdle ready)⟩
  append := by
    intro h data told
    rw [appendSteps]
    have step := h.content.appended data
    generalize (h.content.append data).1 = result, (h.content.append data).2 = after at step
    have before := told.alternating
    cases step with
    | idle idle => exact told
    | unfed opened failed | written opened fed =>
      rw [DataStream.openAppending opened] at before
      exact ⟨told.own, before⟩
  setRaw := by
    intro h source limit markDirty told
    have own : (h.marked markDirty).owner = owner := (markedOwner markDirty h).trans told.own
    have before := told.alternating
    rcases h.rawSet source limit markDirty with ⟨-, same⟩ | ⟨content, step, same⟩
    · rw [same]
      exact told
    · rw [same]
      generalize (h.setRaw source limit markDirty).1 = result at step
      refine ⟨own, ?_⟩
      rw [← marksMarked markDirty] at before
      cases step with
      | untouched => exact before
      | refused idle refused | done idle written =>
        rw [DataStream.idleAppending idle] at before
        exact before

theorem silentKept : Kept (Silent owner) where
  begin := by
    intro h filters discard markDirty apart
    have other : (h.marked markDirty).owner ≠ owner := by
      rw [markedOwner]
      exact apart.other
    have step := h.began filters discard markDirty
    generalize (h.begin filters discard markDirty).1 = result,
      (h.begin filters discard markDirty).2 = after at step
    have begun : (h.marked markDirty).tellOpened.marks owner = [] := by
      rw [marksOpenedOther other, marksMarked]
      exact apart.silent
    cases step with
    | unready failed => exact apart
    | refused ready refused => exact ⟨other, (marksClosedOther (by exact other)).trans begun⟩
    | opened ready written => exact ⟨other, begun⟩
  append := fun _ apart => ⟨apart.other, apart.silent⟩
  setRaw := by
    intro h source limit markDirty apart
    rcases h.rawSet source limit markDirty with ⟨-, same⟩ | ⟨content, -, same⟩
    · rw [same]
      exact apart
    · rw [same]
      exact ⟨(markedOwner markDirty h).trans_ne apart.other, (marksMarked markDirty).trans apart.silent⟩

theorem closeSilent (apart : h.Silent owner) : h.close.2.Silent owner := by
  have step := h.closed
  generalize h.close.1 = result, h.close.2 = after at step
  cases step with
  | failed closed => exact ⟨apart.other, apart.silent⟩
  | done closed => exact ⟨apart.other, (marksClosedOther (by exact apart.other)).trans apart.silent⟩

theorem closeTold (told : h.Told heard owner) :
    ¬ h.LosesEnd ∧ h.close.2.Told heard owner ∨
      h.LosesEnd ∧ ¬ h.close.2.TellsPaired heard owner := by
  unfold LosesEnd TellsPaired
  have before := told.alternating
  have step := h.closed
  generalize h.close.1 = result, h.close.2 = after at step ⊢
  cases step with
  | failed closed =>
    cases closed with
    | idle idle =>
      rw [DataStream.idleAppending idle]
      exact .inl ⟨fun lost => Bool.false_ne_true lost.1, told⟩
    | unflushed opened failed | refused opened flushed refused =>
      rw [DataStream.openAppending opened] at before ⊢
      -- the same marks, but no transaction is open any more
      exact .inr ⟨⟨rfl, nofun⟩, before.unpaired⟩
  | done closed =>
    cases closed with
    | done opened flushed written =>
      rw [DataStream.openAppending opened] at before
      refine .inl ⟨fun lost => lost.2 rfl, told.own, ?_⟩
      rw [marksClosed (by exact told.own), ← List.append_assoc]
      exact .closed before

end

end Handle

theorem marksNotified {observers : Observers} {token : Nat} {owner : ObjId}
    (attached : observers.tokens.count token = 1) (event : Event) :
    (observers.notify event).filterMap (Notice.mark? token owner) = (event.mark? owner).toList := by
  have here : observers.tokens.filter (· == token) = [token] := by
    rw [List.filter_beq, attached]
    rfl
  calc (observers.notify event).filterMap (Notice.mark? token owner)
      = observers.tokens.filterMap fun t => if t == token then event.mark? owner else none := by
        rw [Observers.notify, List.filterMap_map]
        refine List.filterMap_congr fun t _ => ?_
        simp only [Function.comp_apply, Notice.mark?, beq_iff_eq]
    _ = (observers.tokens.filter (· == token)).filterMap fun _ => event.mark? owner :=
        List.filterMap_filter.symm
    _ = (event.mark? owner).toList := by
        rw [here]
        cases event.mark? owner <;> rfl

namespace Store

structure Visit where
  id : ObjId
  turn : Handle.Turn

def visit (s : Store) (v : Visit) : Store :=
  ((s.withRegistry v.turn.registry).onStream v.id fun h => v.turn.call.perform h).2

def visited (s : Store) (visits : List Visit) : Store := visits.foldl visit s

def appending (owner : ObjId) (s : Store) : Bool :=
  (s.handle? owner).any fun h => h.content.stream.isAppending

def heard (token : Nat) (owner : ObjId) (s : Store) : List Mark :=
  s.outbox.filterMap (Notice.mark? token owner)

def TellsPaired (token : Nat) (owner : ObjId) (s : Store) : Prop :=
  Paired (s.appending owner) (s.heard token owner)

def Visit.LosesEnd (owner : ObjId) (s : Store) (v : Visit) : Prop :=
  v.id = owner ∧ ∃ h, s.handle? owner = some h ∧ v.turn.Closes Handle.LosesEnd h

structure Hears (token : Nat) (owner : ObjId) (s : Store) : Prop where
  attached : s.observers.tokens.count token = 1
  alternating : Alternating (s.appending owner) (s.heard token owner)

section

variable {s : Store} {token : Nat} {owner : ObjId}

theorem heardSettled {h : Handle} {made : List Notice} {id : ObjId}
    (attached : s.observers.tokens.count token = 1) (news : ∀ notice ∈ made, notice = .streamMade id) :
    (s.settle h made).heard token owner = s.heard token owner ++ h.marks owner := by
  have quiet : made.filterMap (Notice.mark? token owner) = [] := by
    refine List.filterMap_eq_nil_iff.mpr fun notice told => ?_
    rw [news notice told]
    rfl
  have told : (h.events.flatMap s.observers.notify).filterMap (Notice.mark? token owner) =
      h.marks owner := by
    rw [List.filterMap_flatMap, Handle.marks, List.filterMap_eq_flatMap_toList]
    exact List.flatMap_congr fun event _ => marksNotified attached event
  change (s.outbox ++ (made ++ _)).filterMap _ = _
  rw [List.filterMap_append, List.filterMap_append, quiet, told]
  rfl

theorem appendingSettled {before h : Handle} {made : List Notice}
    (found : s.handle? h.owner = some before) :
    (s.settle h made).appending h.owner = h.content.stream.isAppending := by
  rw [appending, handleSettled found]
  rfl

theorem hearsRegistry (registry : Registry) (hears : s.Hears token owner) :
    (s.withRegistry registry).Hears token owner := by
  refine ⟨hears.attached, ?_⟩
  rw [appending, handleRegistry, Option.any_map]
  exact hears.alternating

theorem Hears.told {h : Handle} (hears : s.Hears token owner) (found : s.handle? owner = some h) :
    h.Told (s.heard token owner) owner := by
  have before := hears.alternating
  rw [appending, found, Option.any_some] at before
  refine ⟨(handleFresh found).1, ?_⟩
  rw [Handle.marks, (handleFresh found).2, List.filterMap_nil, List.append_nil]
  exact before

theorem visitOwn {v : Visit} {h : Handle} {made : List Notice} (hears : s.Hears token owner)
    (found : s.handle? owner = some h) (here : v.id = owner)
    (news : ∀ notice ∈ made, notice = .streamMade v.id) :
    ¬ v.LosesEnd owner s ∧
        ((s.withRegistry v.turn.registry).settle (v.turn.take h) made).Hears token owner ∨
      v.LosesEnd owner s ∧
        ¬ ((s.withRegistry v.turn.registry).settle (v.turn.take h) made).TellsPaired token owner := by
  subst here
  have told := hears.told found
  have own : (v.turn.take h).owner = v.id := (Handle.performOwner ..).trans told.own
  have ready : (s.withRegistry v.turn.registry).handle? (v.turn.take h).owner =
      some (h.supplied v.turn.registry) := by
    rw [own, handleRegistry, found]
    rfl
  generalize left : (s.withRegistry v.turn.registry).settle (v.turn.take h) made = after
  have state : after.appending (v.turn.take h).owner = (v.turn.take h).content.stream.isAppending :=
    left ▸ appendingSettled ready
  have marks : after.heard token v.id = s.heard token v.id ++ (v.turn.take h).marks v.id :=
    left ▸ heardSettled hears.attached news
  have watched : after.observers.tokens.count token = 1 := left ▸ hears.attached
  rw [own] at state
  rcases Handle.turnKeeps Handle.toldKept Handle.closeTold v.turn ⟨told.own, told.alternating⟩ with
    ⟨calm, now⟩ | ⟨lost, unpaired⟩
  · refine .inl ⟨fun ⟨_, g, stored, lost⟩ => ?_, watched, ?_⟩
    · rw [found] at stored
      cases stored
      exact calm lost
    · rw [marks, state]
      exact now.alternating
  · refine .inr ⟨⟨rfl, h, found, lost⟩, ?_⟩
    rw [TellsPaired, marks, state]
    exact unpaired

theorem visitOther {h : Handle} {made : List Notice} {id : ObjId} (hears : s.Hears token owner)
    (other : h.Silent owner) (news : ∀ notice ∈ made, notice = .streamMade id) :
    (s.settle h made).Hears token owner := by
  refine ⟨hears.attached, ?_⟩
  rw [heardSettled hears.attached news, other.silent, List.append_nil, appending,
    handleOther other.other.symm]
  exact hears.alternating

theorem visitHears (v : Visit) (hears : s.Hears token owner) :
    ¬ v.LosesEnd owner s ∧ (s.visit v).Hears token owner ∨
      v.LosesEnd owner s ∧ ¬ (s.visit v).TellsPaired token owner := by
  obtain ⟨result, used⟩ : ∃ result, Used _ _ _ result (s.visit v) :=
    ⟨_, onStreamUsed (s.withRegistry v.turn.registry) v.id (Handle.performOwner v.turn.call)⟩
  have ready := hearsRegistry v.turn.registry hears
  generalize s.visit v = after at used ⊢
  cases used with
  | failed none =>
    rw [handleRegistry, Option.map_eq_none_iff] at none
    refine .inl ⟨fun ⟨here, h, found, _⟩ => ?_, ready⟩
    rw [← here, none] at found
    cases found
  | used found own news =>
    obtain ⟨h, stored, rfl⟩ := Option.map_eq_some_iff.mp ((handleRegistry ..).symm.trans found)
    by_cases here : v.id = owner
    · exact visitOwn hears (here ▸ stored) here news
    · have other : (h.supplied v.turn.registry).Silent owner := by
        refine ⟨(handleFresh found).1.trans_ne here, ?_⟩
        rw [Handle.marks, (handleFresh found).2, List.filterMap_nil]
      have silent := Handle.performStays Handle.silentKept Handle.closeSilent v.turn.call other
      exact .inl ⟨fun lost => here lost.1, visitOther ready silent news⟩

theorem visitedNext (s : Store) (earlier : List Visit) (v : Visit) :
    s.visited (earlier ++ [v]) = (s.visited earlier).visit v := by
  rw [visited, List.foldl_append]
  rfl

end

theorem pairedUnlessEndLost {s : Store} {token : Nat} {owner : ObjId}
    (attached : s.observers.tokens.count token = 1) (unheard : s.heard token owner = [])
    (idle : s.appending owner = false) (visits : List Visit) :
    (∀ earlier, earlier <+: visits → (s.visited earlier).TellsPaired token owner) ↔
      ∀ earlier v, earlier ++ [v] <+: visits → ¬ v.LosesEnd owner (s.visited earlier) := by
  have start : s.Hears token owner := by
    refine ⟨attached, ?_⟩
    rw [unheard, idle]
    exact .none
  refine everyPrefix (fun earlier => (s.visited earlier).Hears token owner) start ?_
    (fun _ hears => hears.alternating.paired) visits
  intro earlier v hears
  rw [visitedNext]
  exact visitHears v hears

def watched : Store := ((make .storing .standard).push ⟨1, 0⟩ (.dict [])).2.attach.2

def written (codec : Codec) : Visit := ⟨⟨1, 0⟩, ⟨[codec]⟩, .setWith (Bytes.ascii "BT") [codec.filter]⟩

theorem hexVisitPaired :
    watched.observers.tokens.count 0 = 1 ∧ watched.heard 0 ⟨1, 0⟩ = [] ∧
      watched.appending ⟨1, 0⟩ = false ∧
      ∀ earlier, earlier <+: [written Hex.codec] →
        (watched.visited earlier).TellsPaired 0 ⟨1, 0⟩ := by
  refine ⟨rfl, rfl, rfl, (pairedUnlessEndLost rfl rfl rfl _).mpr ?_⟩
  rintro earlier v ⟨later, whole⟩ ⟨-, h, found, g, closing, -, failed⟩
  cases earlier with
  | nil =>
    cases whole
    cases found
    cases closing
    exact failed rfl
  | cons first earlier => simp at whole

theorem unflushedEndUntold :
    ¬ ∀ (s : Store) (token : Nat) (owner : ObjId) (visits : List Visit),
      s.observers.tokens.count token = 1 → s.heard token owner = [] → s.appending owner = false →
        (s.visited visits).TellsPaired token owner := by
  intro always
  have told := always watched 0 ⟨1, 0⟩ [written .unflushed] rfl rfl rfl
  exact Alternating.unpaired (.opened .none) told

end Store
end PdfBody
