import PdfBody.Proofs.Filter.Hex

/-! Hexadecimal strings and hexadecimal data. Both are pairs of digits between octets that are passed
over, and a digit left alone has a zero behind it. A string passes over all white space, and data over
all of it but the zero octet. -/
namespace PdfBody.Hex

def digits? (passes : UInt8 → Bool) : Bytes → Option (List Nat)
  | [] => some []
  | b :: rest =>
    if passes b then digits? passes rest
    else
      match Bytes.hexValue? b with
      | none => none
      | some value => (digits? passes rest).map (value :: ·)

def octets : List Nat → Bytes
  | [] => []
  | [high] => [Bytes.ofNibbles high 0]
  | high :: low :: more => Bytes.ofNibbles high low :: octets more

section

variable {passes other : UInt8 → Bool} {text : Bytes}

theorem digitsNone :
    digits? passes text = none ↔ ∃ b ∈ text, passes b = false ∧ Bytes.hexValue? b = none := by
  induction text with
  | nil => simp [digits?]
  | cons b rest ih =>
    cases passed : passes b with
    | true => simpa [digits?, passed] using ih
    | false =>
      cases digit : Bytes.hexValue? b with
      | none => simp [digits?, passed, digit]
      | some value => simpa [digits?, passed, digit] using ih

theorem digitsSame (same : ∀ b ∈ text, passes b = other b) :
    digits? passes text = digits? other text := by
  induction text with
  | nil => rfl
  | cons b rest ih =>
    obtain ⟨here, later⟩ := List.forall_mem_cons.mp same
    rw [digits?, digits?, here, ih later]

end

def spelled (passes : UInt8 → Bool) (high : Option Nat) (text : Bytes) : Option Bytes :=
  (digits? passes text).map fun ds => octets (high.toList ++ ds)

theorem stringRead {d : Bytes} (unclosed : 0x3E ∉ d) (high : Option Nat) (done : Bytes)
    (position : Nat) : (Lexer.hexBody high done position (d ++ [0x3E])).1.toOption =
      (spelled Bytes.isSpace high d).map fun bytes => .hexStr (done.reverse ++ bytes) := by
  -- `high` is the digit that waits for the other of its pair
  induction d generalizing high done position with
  | nil =>
    cases high <;>
      simp [Lexer.hexBody, Lexer.closeHex, spelled, digits?, octets, Except.toOption]
  | cons b d ih =>
    obtain ⟨first, later⟩ := not_or.mp (mt List.mem_cons.mpr unclosed)
    rw [List.cons_append, Lexer.hexBody, if_neg (Ne.symm first), spelled, digits?]
    split
    · exact ih later high done _
    cases Bytes.hexValue? b with
    | none => rfl
    | some value =>
      cases high with
      | none => simp [ih later, spelled, Function.comp_def]
      | some h => simp [ih later, spelled, octets, Function.comp_def]

theorem dataRead {d : Bytes} (unclosed : 0x3E ∉ d) (high : Option Nat) (done : Bytes) :
    (decodeFrom high done d).toOption =
      (spelled Bytes.isBlank high d).map fun bytes => done.reverse ++ bytes := by
  induction d generalizing high done with
  | nil =>
    cases high <;> simp [decodeFrom, decodeFrom.close, spelled, digits?, octets, Except.toOption]
  | cons b d ih =>
    obtain ⟨first, later⟩ := not_or.mp (mt List.mem_cons.mpr unclosed)
    cases digit : Bytes.hexValue? b with
    | none =>
      simp only [decodeFrom, if_neg (Ne.symm first), spelled, digits?, digit]
      split
      · exact ih later high done
      · rfl
    | some value =>
      simp only [decodeFrom, if_neg (Ne.symm first), spelled, digits?, digit]
      split
      · exact ih later high done
      cases high with
      | none => simp [ih later, spelled, Function.comp_def]
      | some h => simp [ih later, spelled, octets, Function.comp_def]

theorem stringOpened {d : Bytes} (unopened : 0x3C ∉ d) :
    Lexer.next (.start (0x3C :: (d ++ [0x3E]))) = Lexer.hexBody none [] 1 (d ++ [0x3E]) := by
  rw [Cursor.start, Lexer.nextSolid (by decide)]
  cases d with
  | nil => rfl
  | cons b d =>
    have first : b ≠ 0x3C := fun same => unopened (same ▸ List.mem_cons_self)
    simp [Lexer.token, first]

def ReadAlike (d : Bytes) : Prop :=
  (∀ bytes, (Lexer.next (.start (0x3C :: (d ++ [0x3E])))).1 = .ok (.hexStr bytes) ↔
    decode d = .ok bytes) ∧
  ((∃ fault, (Lexer.next (.start (0x3C :: (d ++ [0x3E])))).1 = .error fault) ↔
    ∃ fault, decode d = .error fault)

theorem readAlikeSpelled {d : Bytes} (unopened : 0x3C ∉ d) (unclosed : 0x3E ∉ d) :
    ReadAlike d ↔ spelled Bytes.isSpace none d = spelled Bytes.isBlank none d := by
  have asString := stringRead unclosed none [] 1
  have asData := dataRead unclosed none []
  rw [ReadAlike, stringOpened unopened, decode]
  generalize (Lexer.hexBody none [] 1 (d ++ [0x3E])).1 = string at asString ⊢
  generalize decodeFrom none [] d = data at asData ⊢
  generalize spelled Bytes.isSpace none d = first at asString ⊢
  generalize spelled Bytes.isBlank none d = second at asData ⊢
  cases first with
  | none =>
    cases string with
    | ok t => cases asString
    | error fault => cases second <;> cases data <;> cases asData <;> simp
  | some bytes =>
    cases string with
    | error fault => cases asString
    | ok t =>
      cases asString
      cases second <;> cases data <;> cases asData
      · simp
      · simp only [Except.ok.injEq, Token.hexStr.injEq, reduceCtorEq, exists_false, and_true,
          Option.some.injEq]
        exact ⟨fun same => (same _).mpr rfl, fun same _ => by rw [same]⟩

theorem readAlikeUnlessZeroPassed (d : Bytes) (unopened : 0x3C ∉ d) (unclosed : 0x3E ∉ d) :
    ReadAlike d ↔
      (0x00 ∈ d → ∃ b ∈ d, Bytes.isSpace b = false ∧ Bytes.hexValue? b = none) := by
  rw [readAlikeSpelled unopened unclosed, ← digitsNone]
  by_cases zero : 0x00 ∈ d
  · have refused : digits? Bytes.isBlank d = none := digitsNone.mpr ⟨0x00, zero, rfl, rfl⟩
    simp [spelled, refused, zero]
  · have same : digits? Bytes.isSpace d = digits? Bytes.isBlank d := digitsSame fun b among => by
      have other : b ≠ 0x00 := fun same => zero (same ▸ among)
      simp [Bytes.isSpace, other]
    simp [spelled, same, zero]

def scattered : Bytes := Bytes.ascii "4a 4\nC5 "

theorem scatteredReadAlike :
    ReadAlike scattered ∧ decode scattered = .ok [0x4A, 0x4C, 0x50] :=
  ⟨(readAlikeUnlessZeroPassed scattered (by decide) (by decide)).mpr fun zero => absurd zero (by decide),
    rfl⟩

theorem zeroPassedInString :
    ¬ ∀ d : Bytes, 0x3C ∉ d → 0x3E ∉ d → ReadAlike d := by
  intro always
  have alike := always [0x34, 0x00, 0x31] (by decide) (by decide)
  have string : (Lexer.next (.start (0x3C :: ([0x34, 0x00, 0x31] ++ [0x3E])))).1 =
    .ok (.hexStr [0x41]) := rfl
  cases (alike.1 [0x41]).mp string

end PdfBody.Hex
