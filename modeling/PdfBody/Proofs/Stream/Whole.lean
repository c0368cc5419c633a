import PdfBody.Filter.Zlib
import PdfBody.Filter.Standard
import PdfBody.Proofs.Stream.Calls

/-! Calls that write a stream in one go. They close what they opened whatever fails in between, and leave
a transaction of someone else alone. Of several failures the first one is reported. -/
namespace PdfBody

namespace Source

def cut : Bytes → List Bytes
  | [] => []
  | b :: rest => (b :: rest).take Handle.pieceSize :: cut ((b :: rest).drop Handle.pieceSize)
termination_by data => data.length
decreasing_by simp only [Handle.pieceSize, List.length_drop, List.length_cons]; omega

def pieces : Source → List Bytes
  | [] => []
  | .interrupted :: rest => pieces rest
  | .broken _ :: _ => []
  | .bytes data :: rest => cut data ++ pieces rest

def ending : Source → Except Fault Unit
  | [] => .ok ()
  | .broken text :: _ => .error (.io text)
  | .interrupted :: rest => ending rest
  | .bytes _ :: rest => ending rest

end Source

namespace Handle

variable {h : Handle}

def appendAll : List Bytes → Handle → Except Fault Unit × Handle
  | [], h => (.ok (), h)
  | piece :: pieces, h =>
    match h.append piece with
    | (.error fault, h) => (.error fault, h)
    | (.ok (), h) => appendAll pieces h

def andThen (next : Handle → Except Fault Unit × Handle) :
    Except Fault Unit × Handle → Except Fault Unit × Handle
  | (.error fault, h) => (.error fault, h)
  | (.ok (), h) => next h

theorem appendAllNext (piece : Bytes) (pieces : List Bytes) (h : Handle) :
    h.appendAll (piece :: pieces) = andThen (appendAll pieces) (h.append piece) := by
  rw [appendAll]
  split
  · next failed => rw [failed, andThen]
  · next appended => rw [appended, andThen]

theorem appendAllJoin (front back : List Bytes) (h : Handle) :
    h.appendAll (front ++ back) = andThen (appendAll back) (h.appendAll front) := by
  induction front generalizing h with
  | nil => rfl
  | cons piece front ih =>
    rw [List.cons_append, appendAllNext, appendAllNext]
    cases h.append piece with
    | mk result after =>
      cases result with
      | error fault => rfl
      | ok _ => exact ih after

theorem appendPiecesAll (data : Bytes) (h : Handle) :
    ((h.appendPieces data).1, (h.appendPieces data).2.1) = h.appendAll (Source.cut data) := by
  fun_induction appendPieces data h with
  | case1 h =>
    rw [Source.cut]
    rfl
  | case2 h b rest fault after failed => rw [Source.cut, appendAllNext, failed, andThen]
  | case3 h b rest after appended ih => rw [Source.cut, appendAllNext, appended, andThen, ih]

theorem appendSourceAll (source : Source) (h : Handle) :
    ((h.appendSource source).1, (h.appendSource source).2.1) =
      andThen (fun h => (source.ending, h)) (h.appendAll source.pieces) := by
  fun_induction appendSource source h with
  | case1 h => rfl
  | case2 rest h ih => exact ih
  | case3 text rest h => rfl
  -- octets that were not taken are left in the source, and nothing behind them is read
  | case4 data rest h fault after left failed =>
    have cut := appendPiecesAll data h
    rw [failed] at cut
    rw [Source.pieces, appendAllJoin, ← cut]
    rfl
  | case5 data rest h after left appended ih =>
    have cut := appendPiecesAll data h
    rw [appended] at cut
    rw [Source.pieces, appendAllJoin, ← cut]
    exact ih

def Call.Whole : Call → Prop
  | begin .. | beginDefault _ | append _ | close => False
  | _ => True

def Call.Vacant : Call → Prop
  | set data | setWith data _ => data = []
  | _ => False

def Call.source? : Call → Option Source
  | setFrom source | setFromWith source _ | setRaw source _ _ => some source
  | _ => none

def Call.left (h : Handle) : Call → Option Source
  | setFrom source => some (h.setFrom source).2.2
  | setFromWith source filters => some (h.setFromWith source filters).2.2
  | setRaw source limit markDirty => some (h.setRaw source limit markDirty).2.2
  | _ => none

structure Writing where
  filters : List FilterName
  pieces : List Bytes
  ending : Except Fault Unit

def Call.writing (h : Handle) : Call → Option Writing
  | set data => if data = [] then none else some ⟨h.defaultFilters, [data], .ok ()⟩
  | setWith data filters => if data = [] then none else some ⟨filters, [data], .ok ()⟩
  | setFrom source => some ⟨h.defaultFilters, source.pieces, source.ending⟩
  | setFromWith source filters => some ⟨filters, source.pieces, source.ending⟩
  | _ => none

inductive Written (h : Handle) (w : Writing) : Except Fault Unit → Handle → Prop where
  | unbegun {fault after} (failed : h.begin w.filters true true = (.error fault, after)) :
      Written h w (.error fault) after
  | unappended {begun fault appended} (opened : h.begin w.filters true true = (.ok (), begun))
      (failed : begun.appendAll w.pieces = (.error fault, appended)) :
      Written h w (.error fault) appended.close.2
  | unread {begun fault appended} (opened : h.begin w.filters true true = (.ok (), begun))
      (took : begun.appendAll w.pieces = (.ok (), appended)) (broken : w.ending = .error fault) :
      Written h w (.error fault) appended.close.2
  | closed {begun appended} (opened : h.begin w.filters true true = (.ok (), begun))
      (took : begun.appendAll w.pieces = (.ok (), appended)) (ended : w.ending = .ok ()) :
      Written h w appended.close.1 appended.close.2

theorem closedWritten {w : Writing} {begun : Handle} {outcome : Except Fault Unit × Handle}
    (opened : h.begin w.filters true true = (.ok (), begun))
    (copied : outcome = andThen (fun h => (w.ending, h)) (begun.appendAll w.pieces)) :
    Written h w (outcome.2.closeAfter outcome.1).1 (outcome.2.closeAfter outcome.1).2 := by
  subst copied
  cases took : begun.appendAll w.pieces with
  | mk result appended =>
    cases result with
    | error fault => exact .unappended opened took
    | ok _ =>
      cases ended : w.ending with
      | error fault => exact .unread opened took ended
      | ok _ => exact .closed opened took ended

theorem setWithWritten {data : Bytes} (some : data ≠ []) (filters : List FilterName) (h : Handle) :
    Written h ⟨filters, [data], .ok ()⟩ (h.setWith data filters).1 (h.setWith data filters).2 := by
  rw [Handle.setWith, if_neg some]
  cases begun : h.begin filters true true with
  | mk result opened =>
    cases result with
    | error fault => exact .unbegun begun
    | ok _ =>
      have taken : opened.append data = andThen (fun h => (.ok (), h)) (opened.appendAll [data]) := by
        rw [appendAllNext]
        cases opened.append data with
        | mk result appended => cases result <;> rfl
      exact closedWritten (w := ⟨filters, [data], .ok ()⟩) begun taken

theorem setFromWritten (source : Source) (filters : List FilterName) (h : Handle) :
    Written h ⟨filters, source.pieces, source.ending⟩ (h.setFromWith source filters).1
      (h.setFromWith source filters).2.1 := by
  rw [Handle.setFromWith]
  cases begun : h.begin filters true true with
  | mk result opened =>
    cases result with
    | error fault => exact .unbegun begun
    | ok _ =>
      exact closedWritten (w := ⟨filters, source.pieces, source.ending⟩) begun
        (appendSourceAll source opened)

theorem performWritten {call : Call} {w : Writing} (writing : call.writing h = some w) :
    Written h w (call.perform h).1 (call.perform h).2 := by
  cases call with
  | set data | setWith data filters =>
    rw [Call.writing] at writing
    split at writing
    · cases writing
    · next given =>
      cases writing
      exact setWithWritten given _ h
  | setFrom source | setFromWith source filters =>
    cases writing
    exact setFromWritten source _ h
  | _ => cases writing

theorem closeIdle (h : Handle) : h.close.2.content.stream.isAppending = false := by
  have step := h.closed
  generalize h.close.1 = result, h.close.2 = after at step
  cases step with
  | failed closed =>
    cases closed with
    | idle idle => exact DataStream.idleAppending idle
    | unflushed | refused => rfl
  | done closed =>
    cases closed
    rfl

theorem writtenIdle {w : Writing} {result : Except Fault Unit} {after : Handle}
    (idle : h.content.stream.isAppending = false) (written : Written h w result after) :
    after.content.stream.isAppending = false := by
  cases written with
  | unbegun failed =>
    have begun := h.began w.filters true true
    rw [failed] at begun
    cases begun with
    | unready => exact idle
    | refused => rfl
  | unappended | unread | closed => exact closeIdle _

theorem setRawIdle (idle : h.content.stream.isAppending = false) (source : Source) (limit : Option Nat)
    (markDirty : Bool) :
    (h.setRaw source limit markDirty).2.1.content.stream.isAppending = false := by
  rcases h.rawSet source limit markDirty with ⟨-, same⟩ | ⟨content, set, same⟩
  · rw [same]
    exact idle
  · rw [same]
    generalize (h.setRaw source limit markDirty).1 = result at set
    cases set with
    | untouched => exact idle
    | refused | done => rfl

theorem performIdle {call : Call} (whole : call.Whole) (idle : h.content.stream.isAppending = false) :
    (call.perform h).2.content.stream.isAppending = false := by
  cases writing : call.writing h with
  | some w => exact writtenIdle idle (performWritten writing)
  | none =>
    cases call with
    | begin | beginDefault | append | close => exact whole.elim
    | set data | setWith data filters =>
      rw [Call.writing] at writing
      split at writing
      · next empty =>
        subst empty
        exact idle
      · cases writing
    | setFrom source | setFromWith source filters => cases writing
    | setRaw source limit markDirty => exact setRawIdle idle source limit markDirty
    | copyFrom other => exact setRawIdle idle [.bytes other.raw] none true

section

variable (appending : h.content.stream.isAppending = true)

include appending

theorem beginOpen (filters : List FilterName) (discard markDirty : Bool) :
    h.begin filters discard markDirty =
      (.error (.state "BeginAppend() failed because EndAppend() was not yet called"), h) := by
  rw [Handle.begin, Content.prepare, DataStream.ensureIdle, if_pos appending]

theorem setRawOpen (source : Source) (limit : Option Nat) (markDirty : Bool) :
    h.setRaw source limit markDirty =
      (.error (.state "BeginAppend() failed because EndAppend() was not yet called"), h, source) := by
  rw [Handle.setRaw, DataStream.ensureIdle, if_pos appending]

theorem setFromOpen (source : Source) (filters : List FilterName) :
    h.setFromWith source filters =
      (.error (.state "BeginAppend() failed because EndAppend() was not yet called"), h, source) := by
  rw [Handle.setFromWith, beginOpen appending]

theorem performOpen {call : Call} (whole : call.Whole) (given : ¬ call.Vacant) :
    call.perform h =
        (.error (.state "BeginAppend() failed because EndAppend() was not yet called"), h) ∧
      call.left h = call.source? := by
  cases call with
  | begin | beginDefault | append | close => exact whole.elim
  | set data | setWith data filters =>
    have some : data ≠ [] := given
    refine ⟨?_, rfl⟩
    simp only [Call.perform, Handle.set]
    rw [Handle.setWith, if_neg some, beginOpen appending]
  | setFrom source =>
    rw [Call.perform, Call.left, Handle.setFrom, setFromOpen appending]
    exact ⟨rfl, rfl⟩
  | setFromWith source filters =>
    rw [Call.perform, Call.left, setFromOpen appending]
    exact ⟨rfl, rfl⟩
  | setRaw source limit markDirty =>
    rw [Call.perform, Call.left, setRawOpen appending]
    exact ⟨rfl, rfl⟩
  | copyFrom other =>
    rw [Call.perform, Handle.copyFrom, setRawOpen appending]
    exact ⟨rfl, rfl⟩

end

theorem wholeCallsClose {call : Call} (whole : call.Whole) (h : Handle) :
    (h.content.stream.isAppending = false →
        (call.perform h).2.content.stream.isAppending = false) ∧
      (h.content.stream.isAppending = true → ¬ call.Vacant →
        call.perform h =
            (.error (.state "BeginAppend() failed because EndAppend() was not yet called"), h) ∧
          call.left h = call.source?) ∧
      ∀ w, call.writing h = some w → Written h w (call.perform h).1 (call.perform h).2 :=
  ⟨performIdle whole, fun appending => performOpen appending whole, fun _ => performWritten⟩

def bare : Handle := ⟨⟨1, 0⟩, ⟨.empty, []⟩, false, [], .standard .storing, none⟩

theorem brokenReaderCloses :
    let call : Call := .setFromWith [.broken "source closed"] [.asciiHex]
    let h := (bare.begin [] true true).2
    call.Whole ∧ (call.perform bare).1 = .error (.io "source closed") ∧
      (call.perform bare).2.content.stream.isAppending = false ∧
      h.content.stream.isAppending = true ∧ (call.perform h).2 = h ∧
      call.left h = some [.broken "source closed"] := by
  intro call h
  have whole : call.Whole := trivial
  obtain ⟨idle, -, -⟩ := wholeCallsClose whole bare
  obtain ⟨-, opened, -⟩ := wholeCallsClose whole h
  obtain ⟨refused, unread⟩ := opened rfl id
  exact ⟨whole, rfl, idle rfl, rfl, by rw [refused], unread⟩

end Handle
end PdfBody
