import PdfBody.Utf8

/-! Encoded text reads back. Nothing is said about octets that no text encodes to. -/
namespace PdfBody.Utf8

theorem leadWhole {n : Nat} (small : n < 0x80) :
    lead (UInt8.ofNat n) = .whole (Char.ofNat n) := by
  have octet : (UInt8.ofNat n).toNat = n := UInt8.toNat_ofNat_of_lt' (Nat.lt_trans small (by decide))
  simp only [lead, octet, if_pos small]

theorem leadOfTwo {n : Nat} (low : 0xC2 ≤ n) (high : n < 0xE0) :
    lead (UInt8.ofNat n) = .opens ⟨1, 0x80, 0xBF, n - 0xC0⟩ := by
  have octet : (UInt8.ofNat n).toNat = n := UInt8.toNat_ofNat_of_lt' (Nat.lt_trans high (by decide))
  simp only [lead, octet]
  rw [if_neg (by omega), if_neg (by omega), if_pos high]

theorem leadOfThree {n : Nat} (low : 0xE0 ≤ n) (high : n < 0xF0) :
    lead (UInt8.ofNat n) = .opens ⟨2, if n = 0xE0 then 0xA0 else 0x80,
      if n = 0xED then 0x9F else 0xBF, n - 0xE0⟩ := by
  have octet : (UInt8.ofNat n).toNat = n := UInt8.toNat_ofNat_of_lt' (Nat.lt_trans high (by decide))
  simp only [lead, octet]
  rw [if_neg (by omega), if_neg (by omega), if_neg (by omega)]
  by_cases first : n = 0xE0
  · subst first; rfl
  · by_cases surrogates : n = 0xED
    · subst surrogates; rfl
    · simp only [if_neg first, if_neg surrogates, if_pos high]

theorem leadOfFour {n : Nat} (low : 0xF0 ≤ n) (high : n < 0xF5) :
    lead (UInt8.ofNat n) = .opens ⟨3, if n = 0xF0 then 0x90 else 0x80,
      if n = 0xF4 then 0x8F else 0xBF, n - 0xF0⟩ := by
  have octet : (UInt8.ofNat n).toNat = n := UInt8.toNat_ofNat_of_lt' (Nat.lt_trans high (by decide))
  simp only [lead, octet]
  rw [if_neg (by omega), if_neg (by omega), if_neg (by omega), if_neg (by omega),
    if_neg (by omega), if_neg (by omega)]
  by_cases first : n = 0xF0
  · subst first; rfl
  · by_cases last : n = 0xF4
    · subst last; rfl
    · simp only [if_neg first, if_neg last, if_pos (show n < 0xF4 by omega)]

theorem continued {p : Partial} {n : Nat} (owed : p.owed ≠ 1) (low : p.low ≤ n) (high : n ≤ p.high)
    (octet : n < 256) (rest : Bytes) :
    charsFrom (some p) (UInt8.ofNat n :: rest) =
      charsFrom (some ⟨p.owed - 1, 0x80, 0xBF, 64 * p.code + (n - 0x80)⟩) rest := by
  have same : (UInt8.ofNat n).toNat = n := UInt8.toNat_ofNat_of_lt' octet
  simp only [charsFrom, same, if_pos (And.intro low high), if_neg owed]

theorem completed {p : Partial} {n : Nat} (owed : p.owed = 1) (low : p.low ≤ n) (high : n ≤ p.high)
    (octet : n < 256) (rest : Bytes) :
    charsFrom (some p) (UInt8.ofNat n :: rest) =
      Char.ofNat (64 * p.code + (n - 0x80)) :: charsFrom none rest := by
  have same : (UInt8.ofNat n).toNat = n := UInt8.toNat_ofNat_of_lt' octet
  simp only [charsFrom, same, if_pos (And.intro low high), if_pos owed]

theorem charsOpened {b : UInt8} {p : Partial} (opened : lead b = .opens p) (rest : Bytes) :
    charsFrom none (b :: rest) = charsFrom (some p) rest := by
  simp only [charsFrom, opened]

theorem encodedChar (c : Char) (rest : Bytes) :
    charsFrom none (String.utf8EncodeChar c ++ rest) = c :: charsFrom none rest := by
  have back : Char.ofNat c.val.toNat = c := Char.ofNat_toNat c
  have valid : c.val.toNat < 0xD800 ∨ 0xDFFF < c.val.toNat ∧ c.val.toNat < 0x110000 := c.valid
  rw [String.utf8EncodeChar]
  generalize c.val.toNat = v at back valid
  split
  · next small =>
    rw [List.cons_append, List.nil_append, charsFrom, leadWhole (by omega), back]
  · split
    · next big small =>
      simp only [List.cons_append, List.nil_append]
      rw [charsOpened (leadOfTwo (by omega) (by omega)),
        completed rfl (by dsimp only; omega) (by dsimp only; omega) (by omega)]
      rw [show 64 * (v / 64 % 0x20 + 0xC0 - 0xC0) + (v % 0x40 + 0x80 - 0x80) = v by omega, back]
    · split
      · next big small =>
        simp only [List.cons_append, List.nil_append]
        rw [charsOpened (leadOfThree (by omega) (by omega)),
          continued (by simp) (by dsimp only; split <;> omega) (by dsimp only; split <;> omega)
            (by omega),
          completed rfl (by dsimp only; omega) (by dsimp only; omega) (by omega)]
        rw [show 64 * (64 * (v / 4096 % 0x10 + 0xE0 - 0xE0) + (v / 64 % 0x40 + 0x80 - 0x80)) +
          (v % 0x40 + 0x80 - 0x80) = v by omega, back]
      · next big =>
        simp only [List.cons_append, List.nil_append]
        rw [charsOpened (leadOfFour (by omega) (by omega)),
          continued (by simp) (by dsimp only; split <;> omega) (by dsimp only; split <;> omega)
            (by omega),
          continued (by simp) (by dsimp only; omega) (by dsimp only; omega) (by omega),
          completed rfl (by dsimp only; omega) (by dsimp only; omega) (by omega)]
        rw [show 64 * (64 * (64 * (v / 262144 % 8 + 0xF0 - 0xF0) + (v / 4096 % 0x40 + 0x80 - 0x80)) +
          (v / 64 % 0x40 + 0x80 - 0x80)) + (v % 0x40 + 0x80 - 0x80) = v by omega, back]

theorem encodedChars (chars : List Char) :
    charsFrom none (chars.flatMap String.utf8EncodeChar) = chars := by
  induction chars with
  | nil => rfl
  | cons c chars ih => rw [List.flatMap_cons, encodedChar, ih]

theorem decodeEncoded (text : String) : decodeLossy (encode text) = text := by
  rw [decodeLossy, encode, encodedChars, String.ofList_toList]

end PdfBody.Utf8
