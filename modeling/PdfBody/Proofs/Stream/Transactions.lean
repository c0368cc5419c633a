import Mathlib.Data.List.Induction
import PdfBody.Proofs.Filter.Cuts
import PdfBody.Proofs.Filter.Named
import PdfBody.Proofs.Stream.Steps

/-! Runs of whole transactions on a stream in memory. What can be read behind each of them is all that
was written since content was last discarded, whatever the filters were in between. -/
namespace PdfBody

structure Transaction where
  filters : List FilterName
  discard : Bool
  pieces : List Bytes

def Transaction.written (ts : List Transaction) : Bytes :=
  ts.foldl (fun kept t => (if t.discard then [] else kept) ++ t.pieces.flatten) []

/-- Only no data at all is written as no octets. -/
def Codec.Writes (codec : Codec) : Prop :=
  ∀ params e chunks, codec.encoder params = .ok e → e.run chunks = .ok [] → chunks.flatten = []

def Registry.Writes (registry : Registry) (f : FilterName) : Prop :=
  ∀ codec, registry.get f = .ok codec → codec.Writes

def Registry.Lawful (registry : Registry) (f : FilterName) : Prop :=
  ∃ codec, registry.get f = .ok codec ∧ ∀ params, codec.Lawful params

theorem FilterName.wholeWritten {f : FilterName} (listed : f ∈ [asciiHex, ascii85, runLength])
    (data : Bytes) : f.encodeWhole data ≠ [] := by
  simp only [List.mem_cons, List.not_mem_nil, or_false] at listed
  rcases listed with rfl | rfl | rfl
  · exact List.append_ne_nil_of_right_ne_nil _ (List.cons_ne_nil _ _)
  · exact List.append_ne_nil_of_right_ne_nil _ (List.cons_ne_nil _ _)
  · change RunLength.encode data ≠ []
    rw [RunLength.encode.eq_def]
    repeat' split
    all_goals exact List.cons_ne_nil _ _

theorem Registry.builtWrites (zlib : Zlib) {f : FilterName}
    (listed : f ∈ [FilterName.asciiHex, .ascii85, .runLength]) : (Registry.standard zlib).Writes f := by
  intro codec registered params e chunks makes output
  obtain ⟨_, same, _, made, encodes⟩ := FilterName.wholeEncodes zlib listed params
  cases registered.symm.trans same
  cases makes.symm.trans made
  obtain ⟨out, whole, rfl⟩ := encodes chunks
  exact absurd (Except.ok.inj (whole.symm.trans output)) (FilterName.wholeWritten listed _)

theorem relayedBare {place : Nat} {filters : List FilterName} {data out : Bytes}
    (relayed : Relayed (fun _ _ data out => out = [] → data = []) place filters data out)
    (bare : out = []) : data = [] := by
  induction relayed with
  | none => exact bare
  | through later first ih => exact ih (first bare)

theorem Registry.madeWrites {registry : Registry} {entries : Entries} {filters : List FilterName}
    (lawful : ∀ place f, filters[place]? = some f →
      ∃ codec, registry.get f = .ok codec ∧ codec.Lawful (entries.params place filters.length))
    (writes : ∀ f ∈ filters, registry.Writes f) {p : Pipeline} {chunks : List Bytes}
    (made : Pipeline.make registry filters entries = .ok p) (output : p.run chunks = .ok []) :
    chunks.flatten = [] := by
  obtain ⟨q, same, relayed⟩ := registry.madeRelays entries (fun _ _ data out => out = [] → data = [])
    fun place f found => by
      obtain ⟨codec, registered, e, makes, undoes⟩ := lawful place f found
      refine ⟨codec, registered, e, makes, fun chunks => ?_⟩
      obtain ⟨out, output, -⟩ := undoes chunks
      refine ⟨out, output, ?_⟩
      rintro rfl
      exact writes f (List.mem_of_getElem? found) codec registered _ e chunks makes output
  cases made.symm.trans same
  obtain ⟨out, whole, through⟩ := relayed chunks
  exact relayedBare through (Except.ok.inj (whole.symm.trans output))

namespace Content

def complete : List Bytes → Content → Except Fault Content
  | [], c =>
    match c.close with
    | (.error fault, _) => .error fault
    | (.ok (), c) => .ok c
  | piece :: pieces, c =>
    match c.append piece with
    | (.error fault, _) => .error fault
    | (.ok (), c) => complete pieces c

def transact (registry : Registry) (t : Transaction) (c : Content) : Except Fault Content :=
  match c.begin registry t.filters t.discard with
  | (.error fault, _) => .error fault
  | (.ok (), c) => c.complete t.pieces

def transactAll (registry : Registry) (ts : List Transaction) (c : Content) : Except Fault Content :=
  ts.foldlM (fun c t => c.transact registry t) c

theorem decodedThrough {registry : Registry} {c : Content} {filters : List FilterName}
    (named : c.entries.filters = .ok filters) :
    c.decoded registry = registry.decode filters c.entries c.stream.raw := by
  rw [decoded, named]
  cases filters <;> rfl

def keptChunks (discard : Bool) (content : Bytes) (c : Content) : List Bytes :=
  if discard || c.stream.raw.isEmpty then [] else [content]

theorem prepareRun {registry : Registry} {c : Content} {t : Transaction} {content out : Bytes}
    {p : Pipeline} (idle : c.stream.open? = none)
    (decodes : c.stream.raw ≠ [] → c.decoded registry = .ok content)
    (made : Pipeline.make registry t.filters c.entries = .ok p)
    (output : p.run (c.keptChunks t.discard content ++ t.pieces) = .ok out) :
    ∃ p' carried rest, c.prepare registry t.filters t.discard = .ok ⟨t.filters, p', carried⟩ ∧
      p'.run t.pieces = .ok rest ∧ out = carried ++ rest := by
  unfold keptChunks at output
  by_cases fresh : (t.discard || c.stream.raw.isEmpty) = true
  · rw [if_pos fresh] at output
    refine ⟨p, [], out, ?_, output, rfl⟩
    rw [prepare, DataStream.idleEnsured idle, made]
    dsimp only
    rw [if_pos fresh]
  · rw [if_neg fresh] at output
    have filled : c.stream.raw ≠ [] := by
      intro empty
      rw [empty, List.isEmpty_nil, Bool.or_true] at fresh
      exact fresh rfl
    obtain ⟨carried, p', rest, fed, later, rfl⟩ := Pipeline.runFed output
    refine ⟨p', carried, rest, ?_, later, rfl⟩
    rw [prepare, DataStream.idleEnsured idle, made]
    dsimp only
    rw [if_neg fresh, decodes filled]
    dsimp only
    rw [fed]

theorem beginReady {registry : Registry} {c : Content} {filters : List FilterName} {discard : Bool}
    {p : Pipeline} {carried : Bytes} (memory : c.stream.buffer.Memory)
    (ready : c.prepare registry filters discard = .ok ⟨filters, p, carried⟩) :
    ∃ buffer, c.begin registry filters discard =
        (.ok (), ⟨⟨buffer, filters, some p⟩, c.entries.setFilters filters⟩) ∧
      buffer.Memory ∧ buffer.content = carried := by
  have cleared : c.stream.buffer.clear.Memory := memory
  refine ⟨⟨carried, c.stream.buffer.writes + 1, c.stream.buffer.refuse⟩, ?_, memory, rfl⟩
  rw [begin, ready]
  dsimp only
  rw [commit, Buffer.memoryWrite cleared]
  rfl

theorem completeRun {pieces : List Bytes} {c : Content} {p : Pipeline} {out : Bytes}
    (opened : c.stream.open? = some p) (memory : c.stream.buffer.Memory)
    (output : p.run pieces = .ok out) :
    ∃ buffer, c.complete pieces =
        .ok (refreshLength ⟨⟨buffer, c.stream.filters, none⟩, c.entries⟩) ∧
      buffer.Memory ∧ buffer.content = c.stream.raw ++ out := by
  induction pieces generalizing c p out with
  | nil =>
    have flushed : p.finish = .ok out := output
    refine ⟨⟨c.stream.raw ++ out, c.stream.buffer.writes + 1, c.stream.buffer.refuse⟩, ?_, memory, rfl⟩
    rw [complete, close, opened]
    dsimp only
    rw [flushed]
    dsimp only
    rw [Buffer.memoryWrite memory]
    rfl
  | cons piece pieces ih =>
    obtain ⟨encoded, after, rest, fed, later, rfl⟩ := Pipeline.runFed output
    obtain ⟨buffer, done, stored, same⟩ := ih (c := ⟨⟨⟨c.stream.raw ++ encoded,
      c.stream.buffer.writes + 1, c.stream.buffer.refuse⟩, c.stream.filters, some after⟩, c.entries⟩)
      rfl memory later
    refine ⟨buffer, ?_, stored, same.trans (List.append_assoc ..)⟩
    rw [complete, append, opened]
    dsimp only
    rw [fed]
    dsimp only
    rw [Buffer.memoryWrite memory]
    exact done

end Content

def Entries.besides (entry : String × Value) : Bool :=
  entry.1 != filterKey && entry.1 != lengthKey

theorem Entries.besidesFilter (v : Value) : besides (filterKey, v) = false := by
  rw [besides, bne_self_eq_false, Bool.false_and]

theorem Entries.besidesLength (v : Value) : besides (lengthKey, v) = false := by
  rw [besides, bne_self_eq_false, Bool.and_false]

namespace Content

structure Settled (registry : Registry) (entries : Entries) (content : Bytes) (c : Content) :
    Prop where
  idle : c.stream.open? = none
  memory : c.stream.buffer.Memory
  once : (c.entries.map Prod.fst).Nodup
  others : c.entries.filter Entries.besides = entries.filter Entries.besides
  decodes : c.stream.raw ≠ [] → c.decoded registry = .ok content

structure Described (filters : List FilterName) (c : Content) : Prop where
  encoded : c.stream.filters = filters
  named : c.entries.filters = .ok filters
  measured : c.entries.lookup Entries.lengthKey = some (.int (Int64.ofNat c.stream.length))

section

variable {registry : Registry} {entries : Entries} {content : Bytes} {c : Content}

theorem placedLawful {filters : List FilterName} (lawful : ∀ f ∈ filters, registry.Lawful f)
    (entries : Entries) : ∀ place f, filters[place]? = some f → ∃ codec, registry.get f = .ok codec ∧
      codec.Lawful (entries.params place filters.length) := by
  intro place f found
  obtain ⟨codec, registered, reads⟩ := lawful f (List.mem_of_getElem? found)
  exact ⟨codec, registered, reads _⟩

theorem transactSettled (settled : Settled registry entries content c) {t : Transaction}
    (lawful : ∀ f ∈ t.filters, registry.Lawful f) :
    ∃ after, c.transact registry t = .ok after ∧ after.Described t.filters ∧
      after.decoded registry = .ok (c.keptChunks t.discard content ++ t.pieces).flatten ∧
      Settled registry entries (c.keptChunks t.discard content ++ t.pieces).flatten after ∧
      ∃ p, Pipeline.make registry t.filters c.entries = .ok p ∧
        p.run (c.keptChunks t.discard content ++ t.pieces) = .ok after.stream.raw := by
  obtain ⟨p, made, undoes⟩ := Registry.madeUndoes (placedLawful lawful c.entries)
  obtain ⟨out, output, undone⟩ := undoes (c.keptChunks t.discard content ++ t.pieces)
  obtain ⟨p', carried, rest, ready, fed, whole⟩ :=
    prepareRun settled.idle settled.decodes made output
  obtain ⟨started, begun, memory, first⟩ := beginReady settled.memory ready
  obtain ⟨buffer, completed, stored, last⟩ := completeRun
    (c := ⟨⟨started, t.filters, some p'⟩, c.entries.setFilters t.filters⟩) rfl memory fed
  have raw : buffer.content = out := by
    rw [whole, last, DataStream.raw, first]
  have wrote : p.run (c.keptChunks t.discard content ++ t.pieces) = .ok buffer.content :=
    output.trans (congrArg Except.ok raw.symm)
  generalize (c.keptChunks t.discard content ++ t.pieces).flatten = kept at undone ⊢
  have once := Entries.onceSetFilters settled.once t.filters
  -- the length is not among the entries that name filters or their parameters
  have named : (refreshLength ⟨⟨buffer, t.filters, none⟩,
      c.entries.setFilters t.filters⟩).entries.filters = .ok t.filters := by
    rw [refreshLength, Entries.filtersSame (Entries.lookupPutOther (by decide))]
    exact Entries.filtersSet settled.once t.filters
  have reads : decoded registry (refreshLength ⟨⟨buffer, t.filters, none⟩,
      c.entries.setFilters t.filters⟩) = .ok kept := by
    rw [decodedThrough named, ← undone, ← raw]
    refine Registry.decodeSame ?_ t.filters buffer.content
    exact (Entries.lookupPutOther (by decide)).trans (Entries.lookupSetFilters (by decide) ..)
  refine ⟨_, ?_, ⟨rfl, named, Entries.lookupPut⟩, reads,
    ⟨rfl, stored, Entries.keysNodupPut once, ?_, fun _ => reads⟩, p, made, wrote⟩
  · rw [transact, begun]
    exact completed
  · rw [← settled.others, refreshLength, Entries.filterPut Entries.besidesLength,
      Entries.filterSetFilters Entries.besidesFilter]

theorem keptContent (discard : Bool) (bare : c.stream.raw = [] → content = []) :
    (c.keptChunks discard content).flatten = if discard then [] else content := by
  unfold keptChunks
  cases discard with
  | true => rfl
  | false =>
    cases empty : c.stream.raw with
    | nil => exact (bare empty).symm
    | cons b rest => exact List.flatten_singleton

end

/-- Behind the transactions. A buffer without octets is taken for no content, so content that a codec
writes as nothing would not be kept. -/
structure Behind (registry : Registry) (entries : Entries) (ts : List Transaction) (content : Bytes)
    (c : Content) : Prop where
  ran : transactAll registry ts ⟨.empty, entries⟩ = .ok c
  settled : Settled registry entries content c
  whole : (∀ u ∈ ts, ∀ f ∈ u.filters, registry.Writes f) →
    content = Transaction.written ts ∧ (c.stream.raw = [] → content = [])

section

variable {registry : Registry} {entries : Entries} {ts : List Transaction} {content : Bytes}
  {c : Content}

theorem behindStart (registry : Registry) (once : (entries.map Prod.fst).Nodup) :
    Behind registry entries [] [] ⟨.empty, entries⟩ where
  ran := rfl
  settled := ⟨rfl, fun _ _ => rfl, once, rfl, fun filled => absurd rfl filled⟩
  whole _ := ⟨rfl, fun _ => rfl⟩

theorem behindNext (behind : Behind registry entries ts content c) {t : Transaction}
    (lawful : ∀ f ∈ t.filters, registry.Lawful f) :
    ∃ content' after, Behind registry entries (ts ++ [t]) content' after ∧
      after.Described t.filters ∧ after.decoded registry = .ok content' := by
  obtain ⟨after, transacted, described, decoded, settled, p, made, output⟩ :=
    transactSettled behind.settled lawful
  refine ⟨_, after, ⟨?_, settled, fun writes => ?_⟩, described, decoded⟩
  · have earlier := behind.ran
    unfold transactAll at earlier ⊢
    rw [List.foldlM_append, earlier]
    change transact registry t c >>= pure = .ok after
    rw [transacted]
    rfl
  · obtain ⟨written, bare⟩ := behind.whole fun u listed => writes u (List.mem_append_left [t] listed)
    constructor
    · rw [List.flatten_append, keptContent t.discard bare, written, Transaction.written,
        Transaction.written, List.foldl_append]
      rfl
    · intro empty
      rw [empty] at output
      exact Registry.madeWrites (placedLawful lawful c.entries)
        (writes t (List.mem_append_right ts List.mem_cons_self)) made output

theorem behindRun (once : (entries.map Prod.fst).Nodup) (ts : List Transaction)
    (lawful : ∀ u ∈ ts, ∀ f ∈ u.filters, registry.Lawful f) :
    ∃ content c, Behind registry entries ts content c := by
  induction ts using List.reverseRecOn with
  | nil => exact ⟨[], _, behindStart registry once⟩
  | append_singleton earlier t ih =>
    obtain ⟨content, c, behind⟩ := ih fun u listed => lawful u (List.mem_append_left [t] listed)
    obtain ⟨content', after, next, -, -⟩ :=
      behindNext behind (lawful t (List.mem_append_right earlier List.mem_cons_self))
    exact ⟨content', after, next⟩

end

theorem transactionsReadBack {registry : Registry} {entries : Entries}
    (once : (entries.map Prod.fst).Nodup) (earlier : List Transaction) (last : Transaction)
    (lawful : ∀ t ∈ earlier ++ [last], ∀ f ∈ t.filters, registry.Lawful f) :
    ∃ c, transactAll registry (earlier ++ [last]) ⟨.empty, entries⟩ = .ok c ∧
      c.stream.open? = none ∧ c.stream.filters = last.filters ∧
      c.entries.filters = .ok last.filters ∧
      c.entries.lookup Entries.lengthKey = some (.int (Int64.ofNat c.stream.length)) ∧
      c.entries.filter Entries.besides = entries.filter Entries.besides ∧
      ((∀ t ∈ earlier ++ [last], ∀ f ∈ t.filters, registry.Writes f) →
        c.decoded registry = .ok (Transaction.written (earlier ++ [last]))) := by
  obtain ⟨content, before, behind⟩ := behindRun once earlier
    fun t listed => lawful t (List.mem_append_left [last] listed)
  obtain ⟨content', c, next, described, decoded⟩ := behindNext behind
    (lawful last (List.mem_append_right earlier List.mem_cons_self))
  refine ⟨c, next.ran, next.settled.idle, described.encoded, described.named, described.measured,
    next.settled.others, fun writes => ?_⟩
  rw [decoded, (next.whole writes).1]

theorem hexRunReadsBack :
    ∃ c, transactAll (.standard .storing)
        [⟨[.asciiHex], true, [Bytes.ascii "BT", [], Bytes.ascii " /F1"]⟩,
          ⟨[.asciiHex, .asciiHex], false, [Bytes.ascii " ET"]⟩]
        ⟨.empty, [(Entries.filterKey, .int 3), (Entries.typeKey, .name "XObject")]⟩ = .ok c ∧
      c.stream.filters = [.asciiHex, .asciiHex] ∧
      c.entries.filter Entries.besides = [(Entries.typeKey, .name "XObject")] ∧
      c.decoded (.standard .storing) = .ok (Bytes.ascii "BT /F1 ET") := by
  have once : (([(Entries.filterKey, .int 3), (Entries.typeKey, .name "XObject")] : Entries).map
      Prod.fst).Nodup := by decide
  have named : ∀ t ∈ [Transaction.mk [.asciiHex] true [Bytes.ascii "BT", [], Bytes.ascii " /F1"]] ++
      [⟨[.asciiHex, .asciiHex], false, [Bytes.ascii " ET"]⟩], ∀ f ∈ t.filters, f = .asciiHex := by
    intro t listed f named
    rcases List.mem_cons.mp listed with rfl | listed
    · exact List.mem_singleton.mp named
    · cases List.mem_singleton.mp listed
      simpa using named
  have lawful : (Registry.standard .storing).Lawful .asciiHex := ⟨Hex.codec, rfl, Hex.codecLawful⟩
  obtain ⟨c, ran, -, encoded, -, -, others, reads⟩ :=
    transactionsReadBack once _ _ fun t listed f among => named t listed f among ▸ lawful
  refine ⟨c, ran, encoded, others, ?_⟩
  rw [reads fun t listed f among => Registry.builtWrites .storing (by rw [named t listed f among]; simp)]
  rfl

theorem paramsGiven (params : Option Entries) :
    ∃ entries : Entries, (entries.map Prod.fst).Nodup ∧ entries.params 0 1 = params := by
  cases params with
  | none => exact ⟨[], List.nodup_nil, rfl⟩
  | some given =>
    exact ⟨[(Entries.paramsKey, .dict given)],
      List.nodup_cons.mpr ⟨List.not_mem_nil, List.nodup_nil⟩, rfl⟩

/-- Content that a lawful codec writes as no octets is lost at the next transaction. -/
theorem unwrittenLost {registry : Registry} {f : FilterName} (lawful : registry.Lawful f)
    (silent : ¬ registry.Writes f) :
    ∃ entries pieces c, (entries.map Prod.fst).Nodup ∧
      transactAll registry [⟨[f], true, pieces⟩, ⟨[], false, []⟩] ⟨.empty, entries⟩ = .ok c ∧
      c.decoded registry = .ok [] ∧
      Transaction.written [⟨[f], true, pieces⟩, ⟨[], false, []⟩] ≠ [] := by
  simp only [Registry.Writes, Codec.Writes, not_forall] at silent
  obtain ⟨codec, registered, params, e, pieces, makes, output, filled⟩ := silent
  obtain ⟨entries, once, given⟩ := paramsGiven params
  have made : Pipeline.make registry [f] entries = .ok ⟨[e]⟩ := by
    simp only [Pipeline.make, Pipeline.stagesFrom, registered, List.length_singleton, given, makes]
    rfl
  have nothing : (Pipeline.mk [e]).run pieces = .ok [] := by
    have fed : e.run (pieces ++ Pipeline.lastChunk []) = .ok [] := by
      rw [Pipeline.lastChunk, if_pos rfl, List.append_nil, output]
    obtain ⟨outs, tail, passes, none⟩ := Pipeline.passesOne fed
    rw [Pipeline.passesRun passes, ← none]
  obtain ⟨first, began, -, -, settled, p, same, wrote⟩ :=
    transactSettled (behindStart registry once).settled (t := ⟨[f], true, pieces⟩)
      fun g listed => List.mem_singleton.mp listed ▸ lawful
  cases made.symm.trans same
  have raw : first.stream.raw = [] := Except.ok.inj (wrote.symm.trans nothing)
  obtain ⟨second, ended, -, decoded, -⟩ :=
    transactSettled settled (t := ⟨[], false, []⟩) fun _ listed => absurd listed List.not_mem_nil
  have kept (content : Bytes) : first.keptChunks false content = [] := by
    rw [keptChunks, raw]
    rfl
  have written : Transaction.written [⟨[f], true, pieces⟩, ⟨[], false, []⟩] = pieces.flatten :=
    List.append_nil _
  refine ⟨entries, pieces, second, once, ?_, ?_, ?_⟩
  · change (transact registry ⟨[f], true, pieces⟩ ⟨.empty, entries⟩ >>= fun c =>
      transact registry ⟨[], false, []⟩ c >>= pure) = .ok second
    rw [began]
    exact congrArg (· >>= pure) ended
  · rw [decoded, kept]
    rfl
  · rw [written]
    exact filled

def exchanging : Codec :=
  ⟨.crypt, fun _ => .ok (.whole exchange), fun _ data => .ok (exchange data)⟩
where
  exchange (data : Bytes) : Bytes := if data = [] then [0] else if data = [0] then [] else data

theorem exchangingLawful (params : Option Entries) : exchanging.Lawful params := by
  refine Codec.lawfulUncut rfl rfl (Encoder.wholeUncut exchanging.exchange) fun data => ?_
  have twice : exchanging.exchange (exchanging.exchange data) = data := by
    by_cases empty : data = []
    · subst empty
      rfl
    · by_cases zero : data = [0]
      · subst zero
        rfl
      · simp [exchanging.exchange, empty, zero]
  exact congrArg Except.ok twice

theorem unwrittenContentLost :
    (∀ f ∈ [FilterName.crypt], Registry.Lawful ⟨[exchanging]⟩ f) ∧
      ∃ c, transactAll ⟨[exchanging]⟩ [⟨[.crypt], true, [[0]]⟩, ⟨[.crypt], false, [[1]]⟩]
          ⟨.empty, []⟩ = .ok c ∧ c.decoded ⟨[exchanging]⟩ = .ok [1] ∧
        Transaction.written [⟨[.crypt], true, [[0]]⟩, ⟨[.crypt], false, [[1]]⟩] = [0, 1] ∧
        c.decoded ⟨[exchanging]⟩ ≠
          .ok (Transaction.written [⟨[.crypt], true, [[0]]⟩, ⟨[.crypt], false, [[1]]⟩]) := by
  constructor
  · intro f listed
    cases List.mem_singleton.mp listed
    exact ⟨exchanging, rfl, exchangingLawful⟩
  · obtain ⟨c, ran, reads⟩ : ∃ c, transactAll ⟨[exchanging]⟩
        [⟨[.crypt], true, [[0]]⟩, ⟨[.crypt], false, [[1]]⟩] ⟨.empty, []⟩ = .ok c ∧
          c.decoded ⟨[exchanging]⟩ = .ok [1] := ⟨_, rfl, rfl⟩
    refine ⟨c, ran, reads, rfl, fun same => ?_⟩
    exact absurd (congrArg List.length (Except.ok.inj (reads.symm.trans same))) (by decide)

end Content
end PdfBody
