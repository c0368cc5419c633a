import PdfBody.Proofs.Text.Lexing

/-! Decimal numerals. The digits of a number have its value, so an integer that fits is read back
as it was; of a real the clean layout keeps six places, and reading them back depends on nothing
that follows. -/
namespace PdfBody

def Bytes.decimal (n : Nat) : Bytes := Bytes.ascii (toString n)

namespace Bytes

theorem digitOctet {c : Char} (digit : c.isDigit = true) :
    isDigit c.toNat.toUInt8 = true ∧ c.toNat.toUInt8.toNat = c.toNat := by
  simp only [Char.isDigit, Bool.and_eq_true, decide_eq_true_eq, ge_iff_le,
    UInt32.le_iff_toNat_le] at digit
  have low : 48 ≤ c.toNat := digit.1
  have high : c.toNat ≤ 57 := digit.2
  have octet : c.toNat.toUInt8.toNat = c.toNat :=
    UInt8.toNat_ofNat_of_lt' (Nat.lt_of_le_of_lt high (by decide))
  refine ⟨?_, octet⟩
  simp only [isDigit, Bool.and_eq_true, decide_eq_true_eq, UInt8.le_iff_toNat_le, octet]
  exact digit

theorem digitsOctets {chars : List Char} (digits : ∀ c ∈ chars, c.isDigit = true) :
    ∀ b ∈ chars.map (fun c => c.toNat.toUInt8), isDigit b = true := by
  intro b found
  obtain ⟨c, member, rfl⟩ := List.mem_map.mp found
  exact (digitOctet (digits c member)).1

theorem digitsValue {chars : List Char} (digits : ∀ c ∈ chars, c.isDigit = true) (start : Nat) :
    (chars.map fun c => c.toNat.toUInt8).foldl (fun n b => 10 * n + (b.toNat - 0x30)) start =
      Nat.ofDigitChars 10 chars start := by
  induction chars generalizing start with
  | nil => rfl
  | cons c chars ih =>
    have octet := (digitOctet (digits c (by simp))).2
    rw [List.map_cons, List.foldl_cons, Nat.ofDigitChars_cons, octet]
    exact ih (fun d found => digits d (by simp [found])) _

theorem decimalChars (n : Nat) : decimal n = (Nat.toDigits 10 n).map fun c => c.toNat.toUInt8 := by
  simp [decimal, ascii]

theorem charsDigits (n : Nat) : ∀ c ∈ Nat.toDigits 10 n, c.isDigit = true :=
  fun _ found => Nat.isDigit_of_mem_toDigits (by decide) (by decide) found

theorem decimalDigits (n : Nat) : ∀ b ∈ decimal n, isDigit b = true := by
  rw [decimalChars]
  exact digitsOctets (charsDigits n)

theorem decimalNonempty (n : Nat) : decimal n ≠ [] := by
  simp [decimalChars]

theorem decimalValueDecimal (n : Nat) : decimalValue (decimal n) = n := by
  rw [decimalValue, decimalChars, digitsValue (charsDigits n), Nat.ofDigitChars_ten_toDigits]

theorem digitRegular {b : UInt8} (digit : isDigit b = true) :
    isRegular b = true ∧ b ≠ 0x2B ∧ b ≠ 0x2D ∧ b ≠ 0x2E := by
  simp only [isDigit, Bool.and_eq_true, decide_eq_true_eq, UInt8.le_iff_toNat_le] at digit
  have different (c : UInt8) (outside : c.toNat < 0x30 ∨ 0x39 < c.toNat) : b ≠ c := by
    rintro rfl
    have low : 0x30 ≤ b.toNat := digit.1
    have high : b.toNat ≤ 0x39 := digit.2
    omega
  refine ⟨?_, different _ (by decide), different _ (by decide), different _ (by decide)⟩
  simp [isRegular, isSpace, isBlank, isDelimiter, different]

end Bytes

namespace Lexer.Numeral

inductive Signed : Bytes → Bool → Prop where
  | none : Signed [] false
  | plus : Signed [0x2B] false
  | minus : Signed [0x2D] true

def isSign (b : UInt8) : Bool := b = 0x2D || b = 0x2B

theorem signWritten {mark : Bytes} {negative : Bool} (signed : Signed mark negative)
    {text : Bytes} (free : mark = [] → Stops isSign text) (position : Nat) :
    sign ⟨position, mark ++ text⟩ = (negative, ⟨position + mark.length, text⟩) := by
  cases signed with
  | none =>
    cases text with
    | nil => rfl
    | cons b rest =>
      have other : isSign b = false := free rfl
      simp only [isSign, Bool.or_eq_false_iff, decide_eq_false_iff_not] at other
      simp [sign, other.1, other.2]
  | plus => rfl
  | minus => rfl

theorem placesNone {text : Bytes} (free : Stops (· == 0x2E) text) (position : Nat) :
    places ⟨position, text⟩ = (none, ⟨position, text⟩) := by
  cases text with
  | nil => rfl
  | cons b rest =>
    have other : b ≠ 0x2E := by simpa [Stops] using free
    simp only [places, if_neg other]

theorem placesWritten {digits rest : Bytes} (all : ∀ b ∈ digits, Bytes.isDigit b = true)
    (stops : Stops Bytes.isDigit rest) (position : Nat) :
    places ⟨position, 0x2E :: (digits ++ rest)⟩ =
      (some digits, ⟨position + 1 + digits.length, rest⟩) := by
  simp only [places, if_true, Cursor.runStops all stops]

theorem digitsUnsigned {digits text : Bytes} (all : ∀ b ∈ digits, Bytes.isDigit b = true)
    (free : digits = [] → Stops isSign text) : Stops isSign (digits ++ text) := by
  cases digits with
  | nil => exact free rfl
  | cons b digits =>
    obtain ⟨_, plus, minus, _⟩ := Bytes.digitRegular (all b (by simp))
    simp [Stops, isSign, plus, minus]

def carriesOn (b : UInt8) : Bool := Bytes.isDigit b || b == 0x2E

theorem readWhole {mark : Bytes} {negative : Bool} (signed : Signed mark negative)
    {digits rest : Bytes} (all : ∀ b ∈ digits, Bytes.isDigit b = true)
    (some : mark = [] → digits ≠ []) (ends : Stops carriesOn rest) (position : Nat) :
    read ⟨position, mark ++ (digits ++ rest)⟩ =
      (⟨negative, digits, none⟩, ⟨position + mark.length + digits.length, rest⟩) := by
  have free (unmarked : mark = []) : Stops isSign (digits ++ rest) :=
    digitsUnsigned all fun empty => absurd empty (some unmarked)
  have stops : Stops Bytes.isDigit rest := ends.of fun b digit => by simp [carriesOn, digit]
  have dotless : Stops (· == 0x2E) rest := ends.of fun b dot => by simp [carriesOn, dot]
  simp only [read, signWritten signed free, Cursor.runStops all stops, placesNone dotless]

theorem readPlaces {mark : Bytes} {negative : Bool} (signed : Signed mark negative)
    {digits fraction rest : Bytes} (all : ∀ b ∈ digits, Bytes.isDigit b = true)
    (allBehind : ∀ b ∈ fraction, Bytes.isDigit b = true) (stops : Stops Bytes.isDigit rest)
    (position : Nat) :
    read ⟨position, mark ++ (digits ++ 0x2E :: (fraction ++ rest))⟩ =
      (⟨negative, digits, some fraction⟩,
        ⟨position + mark.length + digits.length + 1 + fraction.length, rest⟩) := by
  have dot : Stops isSign (0x2E :: (fraction ++ rest)) :=
    (by decide : isSign 0x2E = false)
  have free : Stops isSign (digits ++ 0x2E :: (fraction ++ rest)) :=
    digitsUnsigned all fun _ => dot
  have digitless : Stops Bytes.isDigit (0x2E :: (fraction ++ rest)) :=
    (by decide : Bytes.isDigit 0x2E = false)
  simp only [read, signWritten signed (fun _ => free), Cursor.runStops all digitless,
    placesWritten allBehind stops]

end Lexer.Numeral

namespace Lexer
open Numeral

theorem beginsRegular {b : UInt8} (begins : beginsNumeral b = true) :
    Bytes.isRegular b = true := by
  simp only [beginsNumeral, Bool.or_eq_true, decide_eq_true_eq] at begins
  rcases begins with ((rfl | rfl) | rfl) | digit
  · decide
  · decide
  · decide
  · exact (Bytes.digitRegular digit).1

theorem nextNumeral {mark : Bytes} {negative : Bool} (signed : Signed mark negative)
    {text : Bytes} (begins : mark = [] → ∃ b rest, text = b :: rest ∧ beginsNumeral b = true)
    (position : Nat) : next ⟨position, mark ++ text⟩ = number ⟨position, mark ++ text⟩ := by
  cases signed with
  | none =>
    obtain ⟨b, rest, rfl, first⟩ := begins rfl
    rw [List.nil_append, nextRegular (beginsRegular first), if_pos first]
  | plus => rw [List.singleton_append, nextRegular (by decide)]; rfl
  | minus => rw [List.singleton_append, nextRegular (by decide)]; rfl

theorem numberToken {c stop : Cursor} {numeral : Numeral} {t : Token}
    (read : Numeral.read c = (numeral, stop)) (token : numeral.token = .ok t) :
    number c = (.ok t, stop) := by
  simp only [number, read, token]

theorem numberRefused {c stop : Cursor} {numeral : Numeral} {text : String}
    (read : Numeral.read c = (numeral, stop)) (refused : numeral.token = .error text) :
    number c = fail text stop := by
  simp only [number, read, refused]

def signedValue (negative : Bool) (size : Nat) : Int := if negative then -(size : Int) else size

theorem beginsDigits {digits : Bytes} (all : ∀ b ∈ digits, Bytes.isDigit b = true)
    (some : digits ≠ []) (text : Bytes) :
    ∃ b rest, digits ++ text = b :: rest ∧ beginsNumeral b = true := by
  cases digits with
  | nil => exact absurd rfl some
  | cons b digits => exact ⟨b, digits ++ text, rfl, by simp [beginsNumeral, all b (by simp)]⟩

def FitsInt (n : Int) : Prop := Int64.minValue.toInt ≤ n ∧ n ≤ Int64.maxValue.toInt

theorem outsideInt {n : Int} :
    ¬ FitsInt n ↔ n < Int64.minValue.toInt ∨ Int64.maxValue.toInt < n := by
  unfold FitsInt
  omega

theorem fittingInt {n : Int} (fits : FitsInt n) : (Int64.ofInt n).toInt = n := by
  have top : Int64.maxValue.toInt = 9223372036854775807 := by decide
  obtain ⟨low, high⟩ := fits
  exact Int64.toInt_ofInt_of_le low (by omega)

section

variable {mark digits rest : Bytes} {negative : Bool}

theorem wholeToken (some : digits ≠ [])
    (fits : FitsInt (signedValue negative (Bytes.decimalValue digits))) :
    Numeral.token ⟨negative, digits, none⟩ =
      .ok (.int (Int64.ofInt (signedValue negative (Bytes.decimalValue digits)))) := by
  simp only [Numeral.token, some, false_or]
  exact if_neg fun outside => outsideInt.mpr outside fits

theorem wholeRefused (bad : digits = [] ∨
      ¬ FitsInt (signedValue negative (Bytes.decimalValue digits))) :
    Numeral.token ⟨negative, digits, none⟩ =
      .error s!"Invalid integer: '{Numeral.text ⟨negative, digits, none⟩}'" :=
  if_pos (bad.imp_right outsideInt.mp)

theorem nextWhole (signed : Signed mark negative) (all : ∀ b ∈ digits, Bytes.isDigit b = true)
    (some : digits ≠ []) (fits : FitsInt (signedValue negative (Bytes.decimalValue digits)))
    (ends : Stops carriesOn rest) (position : Nat) :
    next ⟨position, mark ++ (digits ++ rest)⟩ =
      (.ok (.int (Int64.ofInt (signedValue negative (Bytes.decimalValue digits)))),
        ⟨position + mark.length + digits.length, rest⟩) := by
  rw [nextNumeral signed fun _ => beginsDigits all some rest,
    numberToken (readWhole signed all (fun _ => some) ends position) (wholeToken some fits)]

theorem nextWholeRefused (signed : Signed mark negative)
    (all : ∀ b ∈ digits, Bytes.isDigit b = true) (some : mark = [] → digits ≠ [])
    (bad : digits = [] ∨ ¬ FitsInt (signedValue negative (Bytes.decimalValue digits)))
    (ends : Stops carriesOn rest) (position : Nat) :
    next ⟨position, mark ++ (digits ++ rest)⟩ =
      fail s!"Invalid integer: '{Numeral.text ⟨negative, digits, none⟩}'"
        ⟨position + mark.length + digits.length, rest⟩ := by
  rw [nextNumeral signed fun unmarked => beginsDigits all (some unmarked) rest,
    numberRefused (readWhole signed all some ends position) (wholeRefused bad)]

theorem regularEnds (stops : Stops Bytes.isRegular rest) : Stops carriesOn rest := by
  refine stops.of fun b carries => ?_
  rcases Bool.or_eq_true_iff.mp carries with digit | dot
  · exact (Bytes.digitRegular digit).1
  · rw [beq_iff_eq.mp dot]
    decide

theorem nextDecimal (signed : Signed mark negative) {n : Nat}
    (fits : FitsInt (signedValue negative n)) (stops : Stops Bytes.isRegular rest)
    (position : Nat) :
    next ⟨position, mark ++ (Bytes.decimal n ++ rest)⟩ =
      (.ok (.int (Int64.ofInt (signedValue negative n))),
        ⟨position + mark.length + (Bytes.decimal n).length, rest⟩) := by
  rw [← Bytes.decimalValueDecimal n] at fits
  rw [nextWhole signed (Bytes.decimalDigits n) (Bytes.decimalNonempty n) fits (regularEnds stops),
    Bytes.decimalValueDecimal]

theorem nextTooLarge (signed : Signed mark negative) {n : Nat}
    (large : ¬ FitsInt (signedValue negative n)) (stops : Stops Bytes.isRegular rest)
    (position : Nat) :
    ∃ fault stop, next ⟨position, mark ++ (Bytes.decimal n ++ rest)⟩ = (.error fault, stop) := by
  rw [← Bytes.decimalValueDecimal n] at large
  rw [nextWholeRefused signed (Bytes.decimalDigits n) (fun _ => Bytes.decimalNonempty n)
    (.inr large) (regularEnds stops)]
  exact ⟨_, _, rfl⟩

end

theorem nextPlaces {mark : Bytes} {negative : Bool} (signed : Signed mark negative)
    {digits fraction text rest : Bytes} (all : ∀ b ∈ digits, Bytes.isDigit b = true)
    (some : digits ≠ []) (allBehind : ∀ b ∈ fraction, Bytes.isDigit b = true)
    (spelled : text = mark ++ (digits ++ 0x2E :: fraction))
    (stops : Stops Bytes.isDigit rest) (position : Nat) :
    next ⟨position, text ++ rest⟩ =
      (.ok (.real (.ofRatio negative (Bytes.decimalValue (digits ++ fraction))
        (Binary64.tenTo fraction.length))), ⟨position + text.length, rest⟩) := by
  have token : Numeral.token ⟨negative, digits, Option.some fraction⟩ =
      .ok (.real (.ofRatio negative (Bytes.decimalValue (digits ++ fraction))
        (Binary64.tenTo fraction.length))) := by
    simp only [Numeral.token, some, false_and, if_false]
  subst spelled
  simp only [List.append_assoc, List.cons_append, List.length_append, List.length_cons]
  rw [nextNumeral signed fun _ => beginsDigits all some _,
    numberToken (readPlaces signed all allBehind stops position) token]
  simp only [Nat.add_assoc, Nat.add_comm 1]

theorem nextNatural {n : Nat} (small : n ≤ 0xFFFFFFFF) {rest : Bytes}
    (stops : Stops Bytes.isRegular rest) (position : Nat) :
    next ⟨position, Bytes.decimal n ++ rest⟩ =
      (.ok (.int (Int64.ofNat n)), ⟨position + (Bytes.decimal n).length, rest⟩) := by
  have low : Int64.minValue.toInt = -9223372036854775808 := by decide
  have high : Int64.maxValue.toInt = 9223372036854775807 := by decide
  have value : signedValue false n = n := rfl
  exact nextDecimal .none ⟨by omega, by omega⟩ stops position

theorem signedAbs (i : Int) : signedValue (i < 0) i.natAbs = i := by
  by_cases negative : i < 0
  · rw [signedValue, if_pos (by simpa using negative)]
    omega
  · rw [signedValue, if_neg (by simpa using negative)]
    omega

theorem asciiInt (i : Int) :
    ∃ mark, Signed mark (i < 0) ∧ Bytes.ascii (toString i) = mark ++ Bytes.decimal i.natAbs := by
  cases i with
  | ofNat n => exact ⟨[], .none, rfl⟩
  | negSucc n =>
    rw [decide_eq_true (Int.negSucc_lt_zero n)]
    refine ⟨[0x2D], .minus, ?_⟩
    have spelled : toString (Int.negSucc n) = "-" ++ toString (n + 1) := rfl
    rw [spelled, Bytes.asciiAppend]
    rfl

theorem nextInt (n : Int64) {rest : Bytes} (stops : Stops Bytes.isRegular rest)
    (position : Nat) :
    next ⟨position, Bytes.ascii (toString n.toInt) ++ rest⟩ =
      (.ok (.int n), ⟨position + (Bytes.ascii (toString n.toInt)).length, rest⟩) := by
  obtain ⟨mark, signed, spelled⟩ := asciiInt n.toInt
  have value := signedAbs n.toInt
  have fits : FitsInt (signedValue (n.toInt < 0) n.toInt.natAbs) := by
    rw [value]
    exact ⟨n.minValue_le_toInt, n.toInt_le⟩
  have read := nextDecimal signed fits stops position
  rw [value, Int64.ofInt_toInt] at read
  rw [spelled, List.append_assoc, read, List.length_append, Nat.add_assoc]

end Lexer
end PdfBody
