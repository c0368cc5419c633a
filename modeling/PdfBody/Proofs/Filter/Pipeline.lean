import PdfBody.Filter.Standard
import PdfBody.Filter.Zlib
import PdfBody.Proofs.Filter.Hex

/-! Filters in a row read back what they have encoded, if each of them does. What an encoder holds back
until it is finished goes through the encoders behind it before these are finished themselves, so for
each of them it is one chunk more. -/
namespace PdfBody

namespace Pipeline

def run (p : Pipeline) : List Bytes → Except Fault Bytes
  | [] => p.finish
  | chunk :: chunks =>
    match p.feed chunk with
    | (.error fault, _) => .error fault
    | (.ok out, p) => (run p chunks).map fun rest => out ++ rest

theorem runFed {p : Pipeline} {chunk : Bytes} {chunks : List Bytes} {text : Bytes}
    (output : p.run (chunk :: chunks) = .ok text) :
    ∃ out after rest, p.feed chunk = (.ok out, after) ∧ after.run chunks = .ok rest ∧
      text = out ++ rest := by
  rw [run] at output
  cases fed : p.feed chunk with
  | mk result after =>
    rw [fed] at output
    cases result with
    | error fault => cases output
    | ok out =>
      obtain ⟨rest, later, whole⟩ := mapOk output
      exact ⟨out, after, rest, rfl, later, whole⟩

inductive Passes : List Encoder → List Bytes → Bytes → List Bytes → Bytes → Prop where
  | finished {stages carry tail} (flushed : finishAll stages carry = .ok tail) :
      Passes stages [] carry [] tail
  | fed {stages after chunk out chunks outs carry tail}
      (taken : feedAll stages chunk = (.ok out, after))
      (later : Passes after chunks carry outs tail) :
      Passes stages (chunk :: chunks) carry (out :: outs) tail

theorem feedAppend {front after back later : List Encoder} {input between out : Bytes}
    (first : feedAll front input = (.ok between, after))
    (second : feedAll back between = (.ok out, later)) :
    feedAll (front ++ back) input = (.ok out, after ++ later) := by
  induction front generalizing input after with
  | nil =>
    cases first
    exact second
  | cons e front ih =>
    rw [feedAll] at first
    rw [List.cons_append, feedAll]
    cases fed : e.feed input with
    | mk result e' =>
      rw [fed] at first
      cases result with
      | error fault => cases first
      | ok passed =>
        dsimp only at first ⊢
        cases rest : feedAll front passed with
        | mk result front' =>
          rw [rest] at first
          cases first
          rw [ih rest, List.cons_append]

theorem finishAppend {front : List Encoder} {carry between : Bytes} (back : List Encoder)
    (first : finishAll front carry = .ok between) :
    finishAll (front ++ back) carry = finishAll back between := by
  induction front generalizing carry with
  | nil =>
    cases first
    rfl
  | cons e front ih =>
    rw [finishAll] at first
    rw [List.cons_append, finishAll]
    generalize (if carry = [] then (Except.ok [], e) else e.feed carry) = fed at first ⊢
    obtain ⟨result, e⟩ := fed
    cases result with
    | error fault => cases first
    | ok head =>
      dsimp only at first ⊢
      cases flushed : e.finish with
      | error fault =>
        rw [flushed] at first
        cases first
      | ok tail =>
        rw [flushed] at first
        exact ih first

theorem passesAppend {front back : List Encoder} {chunks between outs : List Bytes}
    {carry held tail : Bytes} (first : Passes front chunks carry between held)
    (second : Passes back between held outs tail) :
    Passes (front ++ back) chunks carry outs tail := by
  induction first generalizing back outs with
  | finished flushed =>
    cases second with
    | finished last => exact .finished ((finishAppend back flushed).trans last)
  | fed taken later ih =>
    cases second with
    | fed next rest => exact .fed (feedAppend taken next) (ih rest)

theorem passesNone (chunks : List Bytes) (carry : Bytes) : Passes [] chunks carry chunks carry := by
  induction chunks with
  | nil => exact .finished rfl
  | cons chunk chunks ih => exact .fed rfl ih

def lastChunk (carry : Bytes) : List Bytes := if carry = [] then [] else [carry]

theorem lastChunkFlatten (carry : Bytes) : (lastChunk carry).flatten = carry := by
  unfold lastChunk
  split
  · next empty => rw [empty, List.flatten_nil]
  · exact List.flatten_singleton

theorem passesOne {e : Encoder} {chunks : List Bytes} {carry text : Bytes}
    (output : e.run (chunks ++ lastChunk carry) = .ok text) :
    ∃ outs tail, Passes [e] chunks carry outs tail ∧ text = outs.flatten ++ tail := by
  induction chunks generalizing e text with
  | nil =>
    refine ⟨[], text, .finished ?_, rfl⟩
    rw [List.nil_append] at output
    rw [finishAll]
    unfold lastChunk at output
    split at output
    · next empty =>
      have flushed : e.finish = .ok text := output
      simp [empty, flushed, finishAll]
    · next filled =>
      obtain ⟨out, after, tail, fed, flushed, rfl⟩ := Encoder.runFed output
      have flushed : after.finish = .ok tail := flushed
      simp [filled, fed, flushed, finishAll]
  | cons chunk chunks ih =>
    rw [List.cons_append] at output
    obtain ⟨out, after, rest, fed, later, rfl⟩ := Encoder.runFed output
    obtain ⟨outs, tail, passes, rfl⟩ := ih later
    refine ⟨out :: outs, tail, .fed ?_ passes, ?_⟩
    · rw [feedAll, fed]
      rfl
    · rw [List.flatten_cons, List.append_assoc]

theorem passesRun {p : Pipeline} {chunks outs : List Bytes} {tail : Bytes}
    (passes : Passes p.stages chunks [] outs tail) : p.run chunks = .ok (outs.flatten ++ tail) := by
  obtain ⟨stages⟩ := p
  dsimp only at passes
  generalize finished : ([] : Bytes) = carry at passes
  induction passes with
  | finished flushed =>
    subst finished
    exact flushed
  | fed taken later ih =>
    rw [run, feed, taken]
    dsimp only
    rw [ih finished, Except.map, List.flatten_cons, List.append_assoc]

end Pipeline

def Codec.Relates (codec : Codec) (params : Option Entries) (rel : Bytes → Bytes → Prop) : Prop :=
  ∃ e, codec.encoder params = .ok e ∧
    ∀ chunks, ∃ out, e.run chunks = .ok out ∧ rel chunks.flatten out

inductive Relayed (rel : Nat → FilterName → Bytes → Bytes → Prop) :
    Nat → List FilterName → Bytes → Bytes → Prop where
  | none {place data} : Relayed rel place [] data data
  | through {place f filters data between out} (later : Relayed rel (place + 1) filters data between)
      (first : rel place f between out) : Relayed rel place (f :: filters) data out

open Pipeline in
theorem Registry.stagesRelay (registry : Registry) (entries : Entries)
    (rel : Nat → FilterName → Bytes → Bytes → Prop) {count : Nat} {filters : List FilterName}
    (place : Nat)
    (each : ∀ i f, filters[i]? = some f → ∃ codec, registry.get f = .ok codec ∧
      codec.Relates (entries.params (place + i) count) (rel (place + i) f)) :
    ∃ stages, stagesFrom registry entries count place filters = .ok stages ∧
      ∀ chunks carry, ∃ outs tail, Passes stages chunks carry outs tail ∧
        Relayed rel place filters (chunks.flatten ++ carry) (outs.flatten ++ tail) := by
  induction filters generalizing place with
  | nil => exact ⟨[], rfl, fun chunks carry => ⟨chunks, carry, passesNone chunks carry, .none⟩⟩
  | cons f filters ih =>
    have eachLater : ∀ i g, filters[i]? = some g → ∃ codec, registry.get g = .ok codec ∧
        codec.Relates (entries.params (place + 1 + i) count) (rel (place + 1 + i) g) := by
      intro i g found
      rw [Nat.add_assoc, Nat.add_comm 1 i]
      exact each (i + 1) g found
    obtain ⟨later, madeLater, relayedLater⟩ := ih (place + 1) eachLater
    obtain ⟨codec, registered, e, madeFirst, relates⟩ := each 0 f rfl
    rw [Nat.add_zero] at madeFirst relates
    refine ⟨later ++ [e], ?_, fun chunks carry => ?_⟩
    · rw [stagesFrom, madeLater]
      dsimp only
      rw [registered]
      dsimp only
      rw [madeFirst]
    · obtain ⟨between, held, passesLater, through⟩ := relayedLater chunks carry
      obtain ⟨text, output, first⟩ := relates (between ++ lastChunk held)
      obtain ⟨outs, tail, passesFirst, rfl⟩ := passesOne output
      rw [List.flatten_append, lastChunkFlatten] at first
      exact ⟨outs, tail, passesAppend passesLater passesFirst, .through through first⟩

theorem Registry.madeRelays (registry : Registry) (entries : Entries)
    (rel : Nat → FilterName → Bytes → Bytes → Prop) {filters : List FilterName}
    (each : ∀ place f, filters[place]? = some f → ∃ codec, registry.get f = .ok codec ∧
      codec.Relates (entries.params place filters.length) (rel place f)) :
    ∃ p, Pipeline.make registry filters entries = .ok p ∧
      ∀ chunks, ∃ out, p.run chunks = .ok out ∧ Relayed rel 0 filters chunks.flatten out := by
  obtain ⟨stages, made, relayed⟩ := registry.stagesRelay entries rel 0 fun i f found => by
    rw [Nat.zero_add]
    exact each i f found
  refine ⟨⟨stages⟩, ?_, fun chunks => ?_⟩
  · rw [Pipeline.make, made]
    rfl
  · obtain ⟨outs, tail, passes, through⟩ := relayed chunks []
    rw [List.append_nil] at through
    exact ⟨_, Pipeline.passesRun passes, through⟩

theorem Registry.decodeRelayed {registry : Registry} {entries : Entries} {count place : Nat}
    {filters : List FilterName} {data out : Bytes}
    (relayed : Relayed (fun place f data out => ∃ codec, registry.get f = .ok codec ∧
      codec.decode (entries.params place count) out = .ok data) place filters data out) :
    registry.decodeFrom entries count place filters out = .ok data := by
  induction relayed with
  | none => rfl
  | through later first ih =>
    obtain ⟨codec, registered, decoded⟩ := first
    rw [decodeFrom, registered]
    dsimp only
    rw [decoded]
    exact ih

def Pipeline.Undoes (p : Pipeline) (registry : Registry) (filters : List FilterName)
    (entries : Entries) : Prop :=
  ∀ chunks, ∃ out, p.run chunks = .ok out ∧ registry.decode filters entries out = .ok chunks.flatten

theorem Registry.madeUndoes {registry : Registry} {entries : Entries} {filters : List FilterName}
    (lawful : ∀ place f, filters[place]? = some f →
      ∃ codec, registry.get f = .ok codec ∧ codec.Lawful (entries.params place filters.length)) :
    ∃ p, Pipeline.make registry filters entries = .ok p ∧ p.Undoes registry filters entries := by
  obtain ⟨p, made, relayed⟩ := registry.madeRelays entries
    (fun place f data out => ∃ codec, registry.get f = .ok codec ∧
      codec.decode (entries.params place filters.length) out = .ok data) fun place f found => by
    obtain ⟨codec, registered, e, makes, undoes⟩ := lawful place f found
    refine ⟨codec, registered, e, makes, fun chunks => ?_⟩
    obtain ⟨out, output, decoded⟩ := undoes chunks
    exact ⟨out, output, codec, registered, decoded⟩
  refine ⟨p, made, fun chunks => ?_⟩
  obtain ⟨out, output, through⟩ := relayed chunks
  exact ⟨out, output, decodeRelayed through⟩

theorem Pipeline.filtersReadBack {registry : Registry} {entries : Entries}
    {filters : List FilterName}
    (lawful : ∀ place f, filters[place]? = some f →
      ∃ codec, registry.get f = .ok codec ∧ codec.Lawful (entries.params place filters.length))
    (chunks : List Bytes) :
    ∃ p out, Pipeline.make registry filters entries = .ok p ∧ p.run chunks = .ok out ∧
      registry.decode filters entries out = .ok chunks.flatten := by
  obtain ⟨p, made, undoes⟩ := registry.madeUndoes lawful
  obtain ⟨out, output, decoded⟩ := undoes chunks
  exact ⟨p, out, made, output, decoded⟩

theorem Pipeline.hexTwiceReadsBack :
    ∃ p out, Pipeline.make (.standard .storing) [.asciiHex, .asciiHex]
        [(Entries.paramsKey, .arr [.null, .dict [("Key", .int 7)]])] = .ok p ∧
      p.run [Bytes.ascii "BT", [], Bytes.ascii " ET"] = .ok out ∧
      (Registry.standard .storing).decode [.asciiHex, .asciiHex]
        [(Entries.paramsKey, .arr [.null, .dict [("Key", .int 7)]])] out =
          .ok [Bytes.ascii "BT", [], Bytes.ascii " ET"].flatten := by
  refine Pipeline.filtersReadBack (fun place f found => ?_) _
  have listed := List.mem_of_getElem? found
  simp only [List.mem_cons, List.not_mem_nil, or_false, or_self] at listed
  subst listed
  exact ⟨Hex.codec, rfl, Hex.codecLawful _⟩

end PdfBody
