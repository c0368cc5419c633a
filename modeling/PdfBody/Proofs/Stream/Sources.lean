import PdfBody.Proofs.Filter.Cuts
import PdfBody.Proofs.Stream.Transactions
import PdfBody.Proofs.Stream.Whole

/-! Content that is read from a source. What becomes of it depends on the octets that the source delivers
before it ends or breaks, and not on the parts that they come in or on interruptions between these. -/
namespace PdfBody

namespace Source

def delivered : Source → Bytes
  | [] => []
  | .interrupted :: rest => delivered rest
  | .broken _ :: _ => []
  | .bytes data :: rest => data ++ delivered rest

theorem endingIo {source : Source} {fault : Fault} (broken : source.ending = .error fault) :
    ∃ text, fault = .io text := by
  fun_induction ending source with
  | case1 => cases broken
  | case2 text rest => exact ⟨text, (Except.error.inj broken).symm⟩
  | case3 rest ih => exact ih broken
  | case4 data rest ih => exact ih broken

theorem cutFlatten (data : Bytes) : (cut data).flatten = data := by
  fun_induction cut data with
  | case1 => rfl
  | case2 b rest ih => rw [List.flatten_cons, ih, List.take_append_drop]

theorem piecesFlatten (source : Source) : source.pieces.flatten = source.delivered := by
  fun_induction pieces source with
  | case1 => rfl
  | case2 rest ih => exact ih
  | case3 text rest => rfl
  | case4 data rest ih => rw [List.flatten_append, cutFlatten, ih, delivered]

def Fills (limit : Option Nat) (source : Source) : Prop :=
  ∃ n, limit = some n ∧ n ≤ source.delivered.length

def share (limit : Option Nat) (length : Nat) : Nat :=
  match limit with
  | none => length
  | some n => min n length

theorem readAll (source : Source) (done : Bytes) :
    (readFrom done none source).1 = source.ending.map fun _ => done ++ source.delivered := by
  induction source generalizing done with
  | nil => simp [readFrom, ending, delivered, Except.map]
  | cons delivery rest ih =>
    cases delivery with
    | interrupted => exact ih done
    | broken text => rfl
    | bytes data =>
      rw [readFrom, ih, ending, delivered, List.append_assoc]

theorem readUpTo (source : Source) (done : Bytes) (n : Nat) :
    (readFrom done (some n) source).1 =
      if n ≤ source.delivered.length then .ok (done ++ source.delivered.take n)
      else source.ending.map fun _ => done ++ source.delivered := by
  induction source generalizing done n with
  | nil =>
    cases n with
    | zero => simp [readFrom]
    | succ n => simp [readFrom, ending, delivered, Except.map]
  | cons delivery rest ih =>
    cases n with
    | zero => simp [readFrom]
    | succ n =>
      cases delivery with
      | interrupted => exact ih done (n + 1)
      | broken text => rfl
      | bytes data =>
        simp only [readFrom, ending, delivered, List.length_append]
        -- only the delivery that reaches the limit is cut
        by_cases inside : data.length ≤ n + 1
        · have front : (data ++ delivered rest).take (n + 1) =
              data ++ (delivered rest).take (n + 1 - data.length) := by
            rw [List.take_append, List.take_of_length_le inside]
          have enough : n + 1 - data.length ≤ (delivered rest).length ↔
              n + 1 ≤ data.length + (delivered rest).length := by omega
          simp only [if_pos inside, ih, front, enough, List.append_assoc]
        · have enough : n + 1 ≤ data.length + (delivered rest).length := by omega
          rw [if_neg inside, if_pos enough, List.take_append_of_le_length (by omega)]

section

variable {limit : Option Nat} {source : Source}

theorem readShare (enough : source.ending = .ok () ∨ source.Fills limit) :
    (source.read limit).1 = .ok (source.delivered.take (share limit source.delivered.length)) := by
  unfold read
  cases limit with
  | none =>
    obtain ended | ⟨n, limited, -⟩ := enough
    · simp only [readAll, ended, share, List.take_length, Except.map, List.nil_append]
    · cases limited
  | some n =>
    rw [readUpTo, share]
    by_cases filled : n ≤ source.delivered.length
    · rw [if_pos filled, Nat.min_eq_left filled, List.nil_append]
    · obtain ended | ⟨n, limited, within⟩ := enough
      · rw [if_neg filled, ended, Nat.min_eq_right (Nat.le_of_not_le filled), List.take_length]
        rfl
      · cases limited
        exact absurd within filled

theorem readFault {fault : Fault} (broken : source.ending = .error fault)
    (unfilled : ¬ source.Fills limit) : (source.read limit).1 = .error fault := by
  unfold read
  cases limit with
  | none =>
    rw [readAll, broken]
    rfl
  | some n =>
    have short : ¬ n ≤ source.delivered.length := fun filled => unfilled ⟨n, rfl, filled⟩
    rw [readUpTo, if_neg short, broken]
    rfl

end

end Source

namespace Content

variable {c : Content}

structure Replaced (c : Content) (source : Source) (limit : Option Nat) (after : Content) :
    Prop where
  raw : after.stream.raw = source.delivered.take (Source.share limit source.delivered.length)
  idle : after.stream.open? = none
  named : c.entries.filters = .ok after.stream.filters ∨
    (∃ fault, c.entries.filters = .error fault) ∧ after.stream.filters = []
  measured : after.entries.lookup Entries.lengthKey =
    some (.int (Int64.ofNat (Source.share limit source.delivered.length)))
  others : after.entries.filter (fun entry => entry.1 != Entries.lengthKey) =
    c.entries.filter fun entry => entry.1 != Entries.lengthKey

theorem shareTaken (limit : Option Nat) (data : Bytes) :
    (data.take (Source.share limit data.length)).length = Source.share limit data.length := by
  refine List.length_take_of_le ?_
  cases limit with
  | none => exact Nat.le_refl _
  | some n => exact Nat.min_le_right ..

theorem setRawReplaces (idle : c.stream.open? = none) (memory : c.stream.buffer.Memory)
    {source : Source} {limit : Option Nat}
    (enough : source.ending = .ok () ∨ source.Fills limit) :
    ∃ after rest, c.setRaw source limit = (.ok (), after, rest) ∧ c.Replaced source limit after := by
  have cleared : c.stream.buffer.clear.Memory := memory
  have free : c.stream.ensureIdle = .ok () := DataStream.idleEnsured idle
  cases read : source.read limit with
  | mk result rest =>
    have given : result = .ok (source.delivered.take (Source.share limit source.delivered.length)) := by
      rw [← Source.readShare enough, read]
    subst given
    simp only [setRaw, free, read, Buffer.memoryWrite cleared, idle]
    refine ⟨_, _, rfl, ⟨rfl, rfl, ?_, ?_, ?_⟩⟩
    · dsimp only [refreshLength]
      cases c.entries.filters with
      | ok filters => exact .inl rfl
      | error fault => exact .inr ⟨⟨fault, rfl⟩, rfl⟩
    · rw [refreshLength, Entries.lookupPut]
      exact congrArg (fun n => some (Value.int (Int64.ofNat n))) (shareTaken limit source.delivered)
    · exact Entries.filterPut fun _ => bne_self_eq_false _

theorem setRawFails (idle : c.stream.open? = none) {source : Source} {limit : Option Nat}
    {fault : Fault} (broken : source.ending = .error fault) (unfilled : ¬ source.Fills limit) :
    ∃ rest, c.setRaw source limit = (.error fault, c, rest) := by
  have failed := Source.readFault broken unfilled
  rw [setRaw, DataStream.idleEnsured idle]
  cases read : source.read limit with
  | mk result rest =>
    rw [read] at failed
    dsimp only at failed ⊢
    subst failed
    exact ⟨rest, rfl⟩

theorem rawPrefixOrNothing (idle : c.stream.open? = none) (memory : c.stream.buffer.Memory)
    (source : Source) (limit : Option Nat) :
    (∀ fault, source.ending = .error fault → ¬ source.Fills limit →
        (∃ text, fault = .io text) ∧ ∃ rest, c.setRaw source limit = (.error fault, c, rest)) ∧
      (source.ending = .ok () ∨ source.Fills limit →
        ∃ after rest, c.setRaw source limit = (.ok (), after, rest) ∧
          c.Replaced source limit after) :=
  ⟨fun _ broken unfilled => ⟨Source.endingIo broken, setRawFails idle broken unfilled⟩,
    setRawReplaces idle memory⟩

def unreadable : Content :=
  ⟨⟨⟨Bytes.ascii "old", 1, fun _ _ => none⟩, [.asciiHex], none⟩,
    [(Entries.lengthKey, .int 3), (Entries.filterKey, .int 42), (Entries.typeKey, .name "XObject")]⟩

def severed : Source :=
  [.interrupted, .bytes (Bytes.ascii "BT "), .interrupted, .bytes (Bytes.ascii "ET\n"),
    .broken "source closed"]

theorem severedPrefixOrNothing :
    unreadable.stream.open? = none ∧ unreadable.stream.buffer.Memory ∧
      (∃ rest, unreadable.setRaw severed none = (.error (.io "source closed"), unreadable, rest)) ∧
      ∃ after rest, unreadable.setRaw severed (some 5) = (.ok (), after, rest) ∧
        after.stream.raw = Bytes.ascii "BT ET" ∧ after.stream.filters = [] ∧
        after.entries.lookup Entries.lengthKey = some (.int 5) := by
  have memory : unreadable.stream.buffer.Memory := fun _ _ => rfl
  have stored := rawPrefixOrNothing (c := unreadable) rfl memory severed (some 5)
  have failed := rawPrefixOrNothing (c := unreadable) rfl memory severed none
  obtain ⟨after, rest, done, replaced⟩ := stored.2 (.inr ⟨5, rfl, by decide⟩)
  refine ⟨rfl, memory, (failed.1 _ rfl nofun).2, after, rest, done, replaced.raw, ?_, replaced.measured⟩
  obtain named | ⟨-, none⟩ := replaced.named
  · cases named
  · exact none

end Content

def Event.bare : Event → Event
  | .streamOpened owner _ => .streamOpened owner .empty
  | .streamClosed owner _ => .streamClosed owner .empty
  | event => event

namespace Handle

variable {h : Handle}

structure Alike (g h : Handle) : Prop where
  raw : g.content.stream.raw = h.content.stream.raw
  filters : g.content.stream.filters = h.content.stream.filters
  open? : g.content.stream.open? = h.content.stream.open?
  entries : g.content.entries = h.content.entries
  dirty : g.dirty = h.dirty
  events : g.events.map Event.bare = h.events.map Event.bare

structure Filled (h : Handle) (filters : List FilterName) (out : Bytes) (after : Handle) : Prop where
  raw : after.content.stream.raw = out
  encoded : after.content.stream.filters = filters
  idle : after.content.stream.open? = none
  entries : after.content.entries =
    Entries.put Entries.lengthKey (.int (Int64.ofNat out.length)) (h.content.entries.setFilters filters)
  dirty : after.dirty = true
  events : after.events.map Event.bare =
    h.events.map Event.bare ++ [.streamOpened h.owner .empty, .streamClosed h.owner .empty]

theorem Filled.alike {filters : List FilterName} {out : Bytes} {f g : Handle}
    (one : h.Filled filters out f) (other : h.Filled filters out g) : f.Alike g where
  raw := one.raw.trans other.raw.symm
  filters := one.encoded.trans other.encoded.symm
  open? := one.idle.trans other.idle.symm
  entries := one.entries.trans other.entries.symm
  dirty := one.dirty.trans other.dirty.symm
  events := one.events.trans other.events.symm

theorem beginFresh {filters : List FilterName} {p : Pipeline} (idle : h.content.stream.open? = none)
    (memory : h.content.stream.buffer.Memory)
    (made : Pipeline.make h.registry filters h.content.entries = .ok p) :
    ∃ buffer, h.begin filters true true = (.ok (), h.mark.tellOpened.withContent
        ⟨⟨buffer, filters, some p⟩, h.content.entries.setFilters filters⟩) ∧
      buffer.Memory ∧ buffer.content = [] := by
  have cleared : h.content.stream.buffer.clear.Memory := memory
  have ready : h.content.prepare h.registry filters true = .ok ⟨filters, p, []⟩ := by
    rw [Content.prepare, DataStream.idleEnsured idle, made]
    rfl
  refine ⟨⟨[], h.content.stream.buffer.writes + 1, h.content.stream.buffer.refuse⟩, ?_, memory, rfl⟩
  have same : h.mark.tellOpened.content = h.content := rfl
  rw [Handle.begin, ready]
  dsimp only
  rw [if_pos rfl, same, Content.commit, Buffer.memoryWrite cleared]
  rfl

theorem appendAllCloses {pieces : List Bytes} {c : Content}
    (completed : h.content.complete pieces = .ok c) :
    ∃ g, h.appendAll pieces = (.ok (), g) ∧ g.close = (.ok (), (h.withContent c).tellClosed) := by
  induction pieces generalizing h with
  | nil =>
    refine ⟨h, rfl, ?_⟩
    rw [Content.complete] at completed
    rw [Handle.close]
    cases closed : h.content.close with
    | mk result content =>
      rw [closed] at completed
      cases result with
      | error fault => cases completed
      | ok _ =>
        cases completed
        rfl
  | cons piece pieces ih =>
    rw [Content.complete] at completed
    rw [appendAllNext, appendSteps]
    cases appended : h.content.append piece with
    | mk result content =>
      rw [appended] at completed
      cases result with
      | error fault => cases completed
      | ok _ => exact ih (h := h.withContent content) completed

theorem writtenFilled {w : Writing} {p : Pipeline} {out : Bytes} {result : Except Fault Unit}
    {after : Handle} (idle : h.content.stream.open? = none)
    (memory : h.content.stream.buffer.Memory)
    (made : Pipeline.make h.registry w.filters h.content.entries = .ok p)
    (output : p.run w.pieces = .ok out) (whole : w.ending = .ok ())
    (written : Written h w result after) : result = .ok () ∧ h.Filled w.filters out after := by
  obtain ⟨started, begins, stored, first⟩ := beginFresh idle memory made
  obtain ⟨buffer, completed, -, last⟩ := Content.completeRun
    (c := ⟨⟨started, w.filters, some p⟩, h.content.entries.setFilters w.filters⟩) rfl stored output
  obtain ⟨g, takes, closes⟩ := appendAllCloses
    (h := h.mark.tellOpened.withContent _) completed
  have content : buffer.content = out := by rw [last, DataStream.raw, first, List.nil_append]
  cases written with
  | unbegun failed => cases begins.symm.trans failed
  | unappended opened failed =>
    cases begins.symm.trans opened
    cases takes.symm.trans failed
  | unread opened took broken => cases whole.symm.trans broken
  | closed opened took ended =>
    cases begins.symm.trans opened
    cases takes.symm.trans took
    rw [closes]
    subst content
    refine ⟨rfl, rfl, rfl, rfl, rfl, rfl, ?_⟩
    simp [tellClosed, tellOpened, tell, withContent, mark, Event.bare]

theorem sourceSetsSame {zlib : Zlib} {filters : List FilterName} {source : Source}
    (idle : h.content.stream.open? = none) (memory : h.content.stream.buffer.Memory)
    (standard : h.registry = .standard zlib)
    (built : ∀ f ∈ filters, f ∈ [FilterName.asciiHex, .ascii85, .runLength])
    (whole : source.ending = .ok ()) (filled : source.delivered ≠ []) :
    (h.setFromWith source filters).1 = .ok () ∧ (h.setWith source.delivered filters).1 = .ok () ∧
      Alike (h.setFromWith source filters).2.1 (h.setWith source.delivered filters).2 := by
  have each : ∀ place f, filters[place]? = some f → ∃ codec, h.registry.get f = .ok codec ∧
      codec.EncodesBy (h.content.entries.params place filters.length) f.encodeWhole := by
    intro place f found
    rw [standard]
    exact FilterName.wholeEncodes zlib (built f (List.mem_of_getElem? found)) _
  obtain ⟨p, made, encodes⟩ := h.registry.madeEncodes h.content.entries FilterName.encodeWhole each
  -- both ways the pieces are a cut of the same octets
  have read := encodes source.pieces
  have given := encodes [source.delivered]
  rw [Source.piecesFlatten] at read
  rw [List.flatten_singleton] at given
  obtain ⟨copied, fromSource⟩ := writtenFilled idle memory made read whole
    (setFromWritten source filters h)
  obtain ⟨set, fromOctets⟩ := writtenFilled idle memory made given rfl
    (setWithWritten filled filters h)
  exact ⟨copied, set, fromSource.alike fromOctets⟩

theorem interruptedSetsSame :
    let h := (bare.setWith (Bytes.ascii "old") [.asciiHex]).2
    let source : Source := [.bytes (Bytes.ascii "BT"), .interrupted, .bytes (Bytes.ascii " /F1 ET")]
    h.content.stream.open? = none ∧ h.content.stream.buffer.Memory ∧ source.ending = .ok () ∧
      source.delivered = Bytes.ascii "BT /F1 ET" ∧
      (h.setFromWith source [.ascii85, .runLength]).1 = .ok () ∧
      (h.setWith (Bytes.ascii "BT /F1 ET") [.ascii85, .runLength]).1 = .ok () ∧
      Alike (h.setFromWith source [.ascii85, .runLength]).2.1
        (h.setWith (Bytes.ascii "BT /F1 ET") [.ascii85, .runLength]).2 := by
  intro h source
  have memory : h.content.stream.buffer.Memory := fun _ _ => rfl
  have whole : source.delivered = Bytes.ascii "BT /F1 ET" := rfl
  refine ⟨rfl, memory, rfl, whole, ?_⟩
  rw [← whole]
  exact sourceSetsSame rfl memory rfl (by simp) rfl (whole ▸ nofun)

end Handle
end PdfBody
