import PdfBody.Stream.Handle
import PdfBody.Proofs.Stream.Steps

/-! The calls of a handle. Each of them is made of a few steps: a transaction is begun, content is
appended, the transaction is closed, or encoded content is put in place of the old. Where a call closes
a transaction, that is the last thing it does. -/
namespace PdfBody
namespace Handle

inductive Call where
  | begin (filters : List FilterName) (discard markDirty : Bool)
  | beginDefault (discard : Bool)
  | append (data : Bytes)
  | close
  | set (data : Bytes)
  | setWith (data : Bytes) (filters : List FilterName)
  | setFrom (source : Source)
  | setFromWith (source : Source) (filters : List FilterName)
  | setRaw (source : Source) (limit : Option Nat) (markDirty : Bool)
  | copyFrom (other : DataStream)

def Call.perform (h : Handle) : Call → Except Fault Unit × Handle
  | begin filters discard markDirty => h.begin filters discard markDirty
  | beginDefault discard => h.beginDefault discard
  | append data => h.append data
  | close => h.close
  | set data => h.set data
  | setWith data filters => h.setWith data filters
  | setFrom source => ((h.setFrom source).1, (h.setFrom source).2.1)
  | setFromWith source filters =>
    ((h.setFromWith source filters).1, (h.setFromWith source filters).2.1)
  | setRaw source limit markDirty =>
    ((h.setRaw source limit markDirty).1, (h.setRaw source limit markDirty).2.1)
  | copyFrom other => h.copyFrom other

variable {h : Handle}

def marked (markDirty : Bool) (h : Handle) : Handle := if markDirty then h.mark else h

theorem markedContent (markDirty : Bool) (h : Handle) : (h.marked markDirty).content = h.content := by
  cases markDirty <;> rfl

theorem markedEvents (markDirty : Bool) (h : Handle) : (h.marked markDirty).events = h.events := by
  cases markDirty <;> rfl

theorem markedOwner (markDirty : Bool) (h : Handle) : (h.marked markDirty).owner = h.owner := by
  cases markDirty <;> rfl

inductive Began (h : Handle) (filters : List FilterName) (discard markDirty : Bool) :
    Except Fault Unit → Handle → Prop where
  | unready {fault} (failed : h.content.prepare h.registry filters discard = .error fault) :
      Began h filters discard markDirty (.error fault) h
  | refused {prepared fault buffer}
      (ready : h.content.prepare h.registry filters discard = .ok prepared)
      (refused : h.content.stream.buffer.clear.write prepared.carried = (.error fault, buffer)) :
      Began h filters discard markDirty (.error fault)
        (((h.marked markDirty).tellOpened.withContent
          ⟨⟨buffer, h.content.stream.filters, none⟩, h.content.entries⟩).tellClosed)
  | opened {prepared buffer}
      (ready : h.content.prepare h.registry filters discard = .ok prepared)
      (written : h.content.stream.buffer.clear.write prepared.carried = (.ok (), buffer)) :
      Began h filters discard markDirty (.ok ())
        ((h.marked markDirty).tellOpened.withContent
          ⟨⟨buffer, prepared.filters, some prepared.pipeline⟩,
            h.content.entries.setFilters prepared.filters⟩)

theorem began (h : Handle) (filters : List FilterName) (discard markDirty : Bool) :
    Began h filters discard markDirty (h.begin filters discard markDirty).1
      (h.begin filters discard markDirty).2 := by
  unfold Handle.begin
  cases ready : h.content.prepare h.registry filters discard with
  | error fault => exact .unready ready
  | ok prepared =>
    have same : (if markDirty then h.mark else h).tellOpened.content = h.content :=
      markedContent markDirty h
    dsimp only
    rw [same, Content.commit]
    cases written : h.content.stream.buffer.clear.write prepared.carried with
    | mk result buffer =>
      cases result with
      | error fault =>
        rw [Content.prepareIdle ready]
        exact .refused ready written
      | ok _ => exact .opened ready written

theorem appendSteps (h : Handle) (data : Bytes) :
    h.append data = ((h.content.append data).1, h.withContent (h.content.append data).2) := rfl

inductive Closed (h : Handle) : Except Fault Unit → Handle → Prop where
  | failed {fault content} (closed : h.content.Closed (.error fault) content) :
      Closed h (.error fault) (h.withContent content)
  | done {content} (closed : h.content.Closed (.ok ()) content) :
      Closed h (.ok ()) (h.withContent content).tellClosed

theorem closed (h : Handle) : Closed h h.close.1 h.close.2 := by
  have step := h.content.closed
  unfold Handle.close
  cases outcome : h.content.close with
  | mk result content =>
    rw [outcome] at step
    cases result with
    | error fault => exact .failed step
    | ok _ => exact .done step

theorem rawSet (h : Handle) (source : Source) (limit : Option Nat) (markDirty : Bool) :
    ((h.setRaw source limit markDirty).1 ≠ .ok () ∧ (h.setRaw source limit markDirty).2.1 = h) ∨
      ∃ content, h.content.RawSet (h.setRaw source limit markDirty).1 content ∧
        (h.setRaw source limit markDirty).2.1 = (h.marked markDirty).withContent content := by
  unfold Handle.setRaw
  cases free : h.content.stream.ensureIdle with
  | error fault => exact .inl ⟨nofun, rfl⟩
  | ok _ =>
    have same : (if markDirty then h.mark else h).content = h.content := markedContent markDirty h
    have step := h.content.rawSet source limit
    dsimp only
    rw [same]
    exact .inr ⟨_, step, rfl⟩

structure Kept (holds : Handle → Prop) : Prop where
  begin : ∀ {h} filters discard markDirty, holds h → holds (h.begin filters discard markDirty).2
  append : ∀ {h} data, holds h → holds (h.append data).2
  setRaw : ∀ {h} source limit markDirty, holds h → holds (h.setRaw source limit markDirty).2.1

def written (data : Bytes) (filters : List FilterName) (h : Handle) : Option Handle :=
  if data = [] then none
  else
    match h.begin filters true true with
    | (.error _, _) => none
    | (.ok (), h) => some (h.append data).2

def copied (source : Source) (filters : List FilterName) (h : Handle) : Option Handle :=
  match h.begin filters true true with
  | (.error _, _) => none
  | (.ok (), h) => some (h.appendSource source).2.1

def Call.closing (h : Handle) : Call → Option Handle
  | close => some h
  | set data => h.written data h.defaultFilters
  | setWith data filters => h.written data filters
  | setFrom source => h.copied source h.defaultFilters
  | setFromWith source filters => h.copied source filters
  | _ => none

theorem closeAfterHandle (first : Except Fault Unit) (h : Handle) :
    (h.closeAfter first).2 = h.close.2 := by
  unfold closeAfter
  cases first <;> rfl

section

variable {holds : Handle → Prop} (kept : Kept holds)
include kept

theorem appendPiecesKept (data : Bytes) (now : holds h) : holds (h.appendPieces data).2.1 := by
  fun_induction appendPieces data h with
  | case1 h => exact now
  | case2 h b rest fault after appended =>
    have step := kept.append ((b :: rest).take pieceSize) now
    rwa [appended] at step
  | case3 h b rest after appended ih =>
    have step := kept.append ((b :: rest).take pieceSize) now
    rw [appended] at step
    exact ih step

theorem appendSourceKept (source : Source) (now : holds h) : holds (h.appendSource source).2.1 := by
  fun_induction appendSource source h with
  | case1 h => exact now
  | case2 rest h ih => exact ih now
  | case3 text rest h => exact now
  | case4 data rest h fault after left appended =>
    have step := appendPiecesKept kept data now
    rwa [appended] at step
  | case5 data rest h after left appended ih =>
    have step := appendPiecesKept kept data now
    rw [appended] at step
    exact ih step

theorem setWithKept (data : Bytes) (filters : List FilterName) (now : holds h) :
    (∃ g, h.written data filters = some g ∧ holds g ∧ (h.setWith data filters).2 = g.close.2) ∨
      h.written data filters = none ∧ holds (h.setWith data filters).2 := by
  unfold written Handle.setWith
  split
  · exact .inr ⟨rfl, now⟩
  · have step := kept.begin filters true true now
    cases begun : h.begin filters true true with
    | mk result after =>
      rw [begun] at step
      cases result with
      | error fault => exact .inr ⟨rfl, step⟩
      | ok _ => exact .inl ⟨_, rfl, kept.append data step, closeAfterHandle ..⟩

theorem setFromKept (source : Source) (filters : List FilterName) (now : holds h) :
    (∃ g, h.copied source filters = some g ∧ holds g ∧
        (h.setFromWith source filters).2.1 = g.close.2) ∨
      h.copied source filters = none ∧ holds (h.setFromWith source filters).2.1 := by
  unfold copied Handle.setFromWith
  have step := kept.begin filters true true now
  cases begun : h.begin filters true true with
  | mk result after =>
    rw [begun] at step
    cases result with
    | error fault => exact .inr ⟨rfl, step⟩
    | ok _ => exact .inl ⟨_, rfl, appendSourceKept kept source step, closeAfterHandle ..⟩

theorem performKept (call : Call) (now : holds h) :
    (∃ g, call.closing h = some g ∧ holds g ∧ (call.perform h).2 = g.close.2) ∨
      call.closing h = none ∧ holds (call.perform h).2 := by
  cases call with
  | begin filters discard markDirty => exact .inr ⟨rfl, kept.begin filters discard markDirty now⟩
  | beginDefault discard => exact .inr ⟨rfl, kept.begin h.defaultFilters discard true now⟩
  | append data => exact .inr ⟨rfl, kept.append data now⟩
  | close => exact .inl ⟨h, rfl, now, rfl⟩
  | set data => exact setWithKept kept data h.defaultFilters now
  | setWith data filters => exact setWithKept kept data filters now
  | setFrom source => exact setFromKept kept source h.defaultFilters now
  | setFromWith source filters => exact setFromKept kept source filters now
  | setRaw source limit markDirty => exact .inr ⟨rfl, kept.setRaw source limit markDirty now⟩
  | copyFrom other => exact .inr ⟨rfl, kept.setRaw [.bytes other.raw] none true now⟩

end

theorem performStays {holds : Handle → Prop} (kept : Kept holds)
    (closes : ∀ {h}, holds h → holds h.close.2) (call : Call) (now : holds h) :
    holds (call.perform h).2 := by
  rcases performKept kept call now with ⟨g, -, before, same⟩ | ⟨-, after⟩
  · rw [same]
    exact closes before
  · exact after

theorem ownerKept (id : ObjId) : Kept fun h => h.owner = id where
  begin := by
    intro h filters discard markDirty own
    have same : (h.marked markDirty).owner = id := (markedOwner markDirty h).trans own
    have step := h.began filters discard markDirty
    generalize (h.begin filters discard markDirty).1 = result,
      (h.begin filters discard markDirty).2 = after at step
    cases step with
    | unready failed => exact own
    | refused ready refused => exact same
    | opened ready written => exact same
  append := fun _ own => own
  setRaw := by
    intro h source limit markDirty own
    rcases h.rawSet source limit markDirty with ⟨-, same⟩ | ⟨content, -, same⟩
    · rw [same]
      exact own
    · rw [same]
      exact (markedOwner markDirty h).trans own

theorem closeOwner (h : Handle) : h.close.2.owner = h.owner := by
  have step := h.closed
  generalize h.close.1 = result, h.close.2 = after at step
  cases step <;> rfl

theorem performOwner (call : Call) (h : Handle) : (call.perform h).2.owner = h.owner :=
  performStays (ownerKept h.owner) (fun own => (closeOwner _).trans own) call rfl

def supplied (registry : Registry) (h : Handle) : Handle :=
  ⟨h.owner, h.content, h.dirty, h.events, registry, h.defaultFilter⟩

structure Turn where
  registry : Registry
  call : Call

def Turn.take (h : Handle) (turn : Turn) : Handle := (turn.call.perform (h.supplied turn.registry)).2

def Turn.Closes (fails : Handle → Prop) (h : Handle) (turn : Turn) : Prop :=
  ∃ g, turn.call.closing (h.supplied turn.registry) = some g ∧ fails g

theorem turnKeeps {holds shows fails : Handle → Prop} (kept : Kept holds)
    (closes : ∀ {h}, holds h → ¬ fails h ∧ holds h.close.2 ∨ fails h ∧ ¬ shows h.close.2)
    (turn : Turn) (now : holds (h.supplied turn.registry)) :
    ¬ turn.Closes fails h ∧ holds (turn.take h) ∨ turn.Closes fails h ∧ ¬ shows (turn.take h) := by
  unfold Turn.take Turn.Closes
  rcases performKept kept turn.call now with ⟨g, closing, before, same⟩ | ⟨none, after⟩
  · rw [same, closing]
    rcases closes before with ⟨calm, stays⟩ | ⟨failed, lost⟩
    · refine .inl ⟨fun ⟨_, found, failed⟩ => ?_, stays⟩
      cases found
      exact calm failed
    · exact .inr ⟨⟨g, rfl, failed⟩, lost⟩
  · rw [none]
    exact .inl ⟨nofun, after⟩

def after (h : Handle) (turns : List Turn) : Handle := turns.foldl Turn.take h

theorem afterNext (h : Handle) (earlier : List Turn) (turn : Turn) :
    h.after (earlier ++ [turn]) = turn.take (h.after earlier) := by
  unfold after
  rw [List.foldl_append]
  rfl

end Handle

def Codec.unflushed : Codec :=
  ⟨.lzw, fun _ => .ok ⟨[], fun held input => (.ok input, held), fun _ => .error (.filter "finish failure")⟩,
    fun _ _ => .error (.filter "decode failure")⟩

end PdfBody
