import PdfBody.Filter.Base85
import PdfBody.Proofs.Filter.Feeding

/-! Data in base 85 reads back however it is cut into chunks, unless its text begins with the digit that is
taken for a start marker. -/
namespace PdfBody.Base85

def digit (q : Nat) : UInt8 := (q % 85 + 0x21).toUInt8

theorem digitToNat (q : Nat) : (digit q).toNat = q % 85 + 0x21 := by
  have := Nat.mod_lt q (show 85 > 0 by decide)
  unfold digit
  rw [Nat.toUInt8_eq, UInt8.toNat_ofNat_of_lt' (by simp only [UInt8.size]; omega)]

theorem digitRange (q : Nat) : 0x21 ≤ digit q ∧ digit q ≤ 0x75 := by
  have := Nat.mod_lt q (show 85 > 0 by decide)
  simp only [UInt8.le_iff_toNat_le, digitToNat, UInt8.toNat_ofNat]
  omega

def valueOf (p q r s t : Nat) : Nat :=
  85 * (85 * (85 * (85 * (p % 85) + q % 85) + r % 85) + s % 85) + t % 85

theorem groupWordDigits {p q r s t : Nat} (fits : valueOf p q r s t < 0x100000000) :
    groupWord [digit p, digit q, digit r, digit s, digit t] = .ok (valueOf p q r s t) := by
  have word : [digit p, digit q, digit r, digit s, digit t].foldl
      (fun n b => 85 * n + (b.toNat - 0x21)) 0 = valueOf p q r s t := by
    simp only [List.foldl_cons, List.foldl_nil, digitToNat, valueOf]
    omega
  unfold groupWord
  rw [word]
  exact if_pos fits

theorem wordFits (a b c d : UInt8) : wordOf a b c d < 0x100000000 := by
  have := a.toNat_lt
  have := b.toNat_lt
  have := c.toNat_lt
  have := d.toNat_lt
  unfold wordOf
  omega

theorem valueCharacters {n : Nat} (fits : n < 0x100000000) :
    valueOf (n / 52200625) (n / 614125) (n / 7225) (n / 85) n = n := by
  unfold valueOf
  omega

theorem octetOf {n : Nat} {b : UInt8} (same : n % 256 = b.toNat) : n.toUInt8 = b := by
  rw [Nat.toUInt8_eq, ← UInt8.toNat_inj, UInt8.toNat_ofNat']
  exact same

theorem wordOctetsOf (a b c d : UInt8) : wordOctets (wordOf a b c d) = [a, b, c, d] := by
  have := a.toNat_lt
  have := b.toNat_lt
  have := c.toNat_lt
  have := d.toNat_lt
  unfold wordOctets wordOf
  simp only [List.map_cons, List.map_nil]
  rw [octetOf (b := a), octetOf (b := b), octetOf (b := c), octetOf (b := d)] <;> omega

theorem digitPlain {b : UInt8} {group : Bytes} (range : 0x21 ≤ b ∧ b ≤ 0x75) :
    b ≠ 0x7E ∧ ¬ (b = 0x7A ∧ group = []) := by
  constructor
  · rintro rfl
    exact absurd range.2 (by decide)
  · rintro ⟨rfl, -⟩
    exact absurd range.2 (by decide)

theorem bodyDigit {b : UInt8} {group : Bytes} (range : 0x21 ≤ b ∧ b ≤ 0x75)
    (room : group.length < 4) (done text : Bytes) :
    body group done (b :: text) = body (group ++ [b]) done text := by
  obtain ⟨notEnd, notZeros⟩ := digitPlain range
  rw [body.eq_def]
  dsimp only
  rw [if_neg notEnd, if_neg notZeros, if_pos range, if_neg (Nat.ne_of_lt room)]

theorem bodyFifth {b : UInt8} {group : Bytes} {n : Nat} (range : 0x21 ≤ b ∧ b ≤ 0x75)
    (four : group.length = 4) (word : groupWord (group ++ [b]) = .ok n) (done text : Bytes) :
    body group done (b :: text) = body [] ((wordOctets n).reverse ++ done) text := by
  obtain ⟨notEnd, notZeros⟩ := digitPlain range
  rw [body.eq_def]
  dsimp only
  rw [if_neg notEnd, if_neg notZeros, if_pos range, if_pos four, word]

theorem bodyDigits {digits group : Bytes} (range : ∀ b ∈ digits, 0x21 ≤ b ∧ b ≤ 0x75)
    (room : group.length + digits.length ≤ 4) (done text : Bytes) :
    body group done (digits ++ text) = body (group ++ digits) done text := by
  induction digits generalizing group with
  | nil => rw [List.nil_append, List.append_nil]
  | cons b digits ih =>
    rw [List.length_cons] at room
    have longer : (group ++ [b]).length = group.length + 1 := List.length_append
    rw [List.cons_append, bodyDigit (range b List.mem_cons_self) (by omega),
      ih (fun c found => range c (List.mem_cons_of_mem b found)) (by omega), List.append_assoc]
    rfl

theorem bodyEnd (group done behind : Bytes) :
    body group done (0x7E :: 0x3E :: behind) = close group done := by
  rw [body.eq_def]
  rfl

theorem paddedOne {n : Nat} (fits : n < 0x100000000) :
    n ≤ valueOf (n / 52200625) (n / 614125) 84 84 84 ∧
      valueOf (n / 52200625) (n / 614125) 84 84 84 < n + 614125 := by
  have value : valueOf (n / 52200625) (n / 614125) 84 84 84 = 614125 * (n / 614125) + 614124 := by
    unfold valueOf
    omega
  omega

theorem paddedTwo {n : Nat} (fits : n < 0x100000000) :
    n ≤ valueOf (n / 52200625) (n / 614125) (n / 7225) 84 84 ∧
      valueOf (n / 52200625) (n / 614125) (n / 7225) 84 84 < n + 7225 := by
  have value : valueOf (n / 52200625) (n / 614125) (n / 7225) 84 84 = 7225 * (n / 7225) + 7224 := by
    unfold valueOf
    omega
  omega

theorem paddedThree {n : Nat} (fits : n < 0x100000000) :
    n ≤ valueOf (n / 52200625) (n / 614125) (n / 7225) (n / 85) 84 ∧
      valueOf (n / 52200625) (n / 614125) (n / 7225) (n / 85) 84 < n + 85 := by
  have value : valueOf (n / 52200625) (n / 614125) (n / 7225) (n / 85) 84 = 85 * (n / 85) + 84 := by
    unfold valueOf
    omega
  omega

theorem closePadded {group kept : Bytes} {p q r s t : Nat} (nonempty : kept ≠ [])
    (long : group.length = kept.length + 1)
    (padded : group ++ List.replicate (4 - kept.length) (digit 84) =
      [digit p, digit q, digit r, digit s, digit t])
    (fits : valueOf p q r s t < 0x100000000)
    (octets : (wordOctets (valueOf p q r s t)).take kept.length = kept) (done : Bytes) :
    close group done = .ok (done.reverse ++ kept) := by
  have positive := List.length_pos_iff.mpr nonempty
  have highest : digit 84 = 0x75 := by decide
  have word := groupWordDigits fits
  rw [← padded, highest] at word
  unfold close
  split
  · omega
  · omega
  · next count _ same =>
    have count : count = kept.length := by omega
    subst count
    rw [word]
    dsimp only
    rw [octets]

theorem closeLast {short : Bytes} (few : short.length < 4) (done : Bytes) :
    close (encodeLast short) done = .ok (done.reverse ++ short) := by
  match short with
  | [] => exact congrArg Except.ok (List.append_nil _).symm
  | [a] =>
    have word : wordOf a 0 0 0 = a.toNat * 0x1000000 := by
      rw [wordOf, UInt8.toNat_zero]
      omega
    have small := a.toNat_lt
    obtain ⟨low, high⟩ := paddedOne (wordFits a 0 0 0)
    refine closePadded (List.cons_ne_nil a []) rfl rfl (by omega) ?_ done
    generalize valueOf .. = n at low high ⊢
    have first : (n / 0x1000000).toUInt8 = a := octetOf (by omega)
    change [(n / 0x1000000).toUInt8] = [a]
    rw [first]
  | [a, b] =>
    have word : wordOf a b 0 0 = (a.toNat * 256 + b.toNat) * 0x10000 := by
      rw [wordOf, UInt8.toNat_zero]
      omega
    have small := And.intro a.toNat_lt b.toNat_lt
    obtain ⟨low, high⟩ := paddedTwo (wordFits a b 0 0)
    refine closePadded (List.cons_ne_nil a [b]) rfl rfl (by omega) ?_ done
    generalize valueOf .. = n at low high ⊢
    have first : (n / 0x1000000).toUInt8 = a := octetOf (by omega)
    have second : (n / 0x10000).toUInt8 = b := octetOf (by omega)
    change [(n / 0x1000000).toUInt8, (n / 0x10000).toUInt8] = [a, b]
    rw [first, second]
  | [a, b, c] =>
    have word : wordOf a b c 0 = ((a.toNat * 256 + b.toNat) * 256 + c.toNat) * 0x100 := by
      rw [wordOf, UInt8.toNat_zero]
      omega
    have small := And.intro a.toNat_lt (And.intro b.toNat_lt c.toNat_lt)
    obtain ⟨low, high⟩ := paddedThree (wordFits a b c 0)
    refine closePadded (List.cons_ne_nil a [b, c]) rfl rfl (by omega) ?_ done
    generalize valueOf .. = n at low high ⊢
    have first : (n / 0x1000000).toUInt8 = a := octetOf (by omega)
    have second : (n / 0x10000).toUInt8 = b := octetOf (by omega)
    have third : (n / 0x100).toUInt8 = c := octetOf (by omega)
    change [(n / 0x1000000).toUInt8, (n / 0x10000).toUInt8, (n / 0x100).toUInt8] = [a, b, c]
    rw [first, second, third]
  | _ :: _ :: _ :: _ :: _ =>
    simp only [List.length_cons] at few
    omega

def encode (data : Bytes) : Bytes :=
  (encodeGroups data).1 ++ encodeLast (encodeGroups data).2 ++ [0x7E, 0x3E]

theorem byGroups {motive : Bytes → Prop} (short : ∀ data, data.length < 4 → motive data)
    (group : ∀ a b c d rest, motive rest → motive (a :: b :: c :: d :: rest)) : ∀ data, motive data
  | [] => short [] (by decide)
  | [a] => short [a] (Nat.succ_lt_succ (by decide))
  | [a, b] => short [a, b] (Nat.succ_lt_succ (Nat.succ_lt_succ (by decide)))
  | [a, b, c] => short [a, b, c] (Nat.lt_succ_self 3)
  | a :: b :: c :: d :: rest => group a b c d rest (byGroups short group rest)

theorem groupsShort {data : Bytes} (few : data.length < 4) : encodeGroups data = ([], data) := by
  refine encodeGroups.eq_2 data ?_
  rintro a b c d rest rfl
  simp only [List.length_cons] at few
  omega

theorem groupsAppend (front rest : Bytes) :
    encodeGroups (front ++ rest) =
      ((encodeGroups front).1 ++ (encodeGroups ((encodeGroups front).2 ++ rest)).1,
        (encodeGroups ((encodeGroups front).2 ++ rest)).2) := by
  induction front using byGroups with
  | short front few => rw [groupsShort few, List.nil_append]
  | group a b c d front ih => simp only [List.cons_append, encodeGroups, ih, List.append_assoc]

theorem groupsLeft (data : Bytes) : (encodeGroups data).2.length < 4 := by
  induction data using byGroups with
  | short data few => rwa [groupsShort few]
  | group a b c d rest ih => exact ih

theorem encodeGroup (a b c d : UInt8) (rest : Bytes) :
    encode (a :: b :: c :: d :: rest) =
      (if wordOf a b c d = 0 then [0x7A] else characters (wordOf a b c d)) ++ encode rest := by
  simp only [encode, encodeGroups, List.append_assoc]

theorem encodeShort {data : Bytes} (few : data.length < 4) :
    encode data = encodeLast data ++ [0x7E, 0x3E] := by
  rw [encode, groupsShort few, List.nil_append]

theorem encodeAppend (front rest : Bytes) :
    encode (front ++ rest) = (encodeGroups front).1 ++ encode ((encodeGroups front).2 ++ rest) := by
  unfold encode
  rw [groupsAppend]
  simp only [List.append_assoc]

theorem encoderUncut : encoder.Uncut (fun held => held.length < 4) encode where
  start := by decide
  push {held} _ input :=
    ⟨_, _, rfl, groupsLeft (held ++ input), encodeAppend (held ++ input)⟩
  flush few := congrArg Except.ok (encodeShort few).symm

theorem charactersRange (n : Nat) : ∀ b ∈ characters n, 0x21 ≤ b ∧ b ≤ 0x75 := by
  intro b found
  obtain ⟨q, -, rfl⟩ := List.mem_map.mp found
  exact digitRange q

theorem encodeLastRange (short : Bytes) : ∀ b ∈ encodeLast short, 0x21 ≤ b ∧ b ≤ 0x75 := by
  unfold encodeLast
  split
  · exact fun b found => charactersRange _ b (List.mem_of_mem_take found)
  · exact fun b found => charactersRange _ b (List.mem_of_mem_take found)
  · exact fun b found => charactersRange _ b (List.mem_of_mem_take found)
  · exact nofun

theorem encodeLastLength (short : Bytes) : (encodeLast short).length ≤ 4 := by
  unfold encodeLast
  split
  · exact Nat.le_trans (List.length_take_le ..) (by decide)
  · exact Nat.le_trans (List.length_take_le ..) (by decide)
  · exact List.length_take_le ..
  · exact Nat.zero_le 4

theorem bodyGroup (a b c d : UInt8) (done text : Bytes) :
    body [] done ((if wordOf a b c d = 0 then [0x7A] else characters (wordOf a b c d)) ++ text) =
      body [] (d :: c :: b :: a :: done) text := by
  have octets := wordOctetsOf a b c d
  have fits := wordFits a b c d
  generalize wordOf a b c d = n at octets fits
  split
  · next zero =>
    subst zero
    cases octets
    rfl
  · have value := valueCharacters fits
    have word := groupWordDigits (value ▸ fits)
    rw [value] at word
    let four := [digit (n / 52200625), digit (n / 614125), digit (n / 7225), digit (n / 85)]
    have range : ∀ b ∈ four, 0x21 ≤ b ∧ b ≤ 0x75 := fun b found =>
      charactersRange n b (List.mem_append_left [digit n] found)
    have room : ([] : Bytes).length + four.length ≤ 4 := Nat.le_refl 4
    change body [] done (four ++ digit n :: text) = _
    rw [bodyDigits range room, List.nil_append, bodyFifth (digitRange n) rfl word, octets]
    rfl

theorem bodyEncode (data done behind : Bytes) :
    body [] done (encode data ++ behind) = .ok (done.reverse ++ data) := by
  induction data using byGroups generalizing done with
  | short data few =>
    have room : ([] : Bytes).length + (encodeLast data).length ≤ 4 := by
      rw [List.length_nil, Nat.zero_add]
      exact encodeLastLength data
    rw [encodeShort few, List.append_assoc, bodyDigits (encodeLastRange data) room]
    exact (bodyEnd ..).trans (closeLast few done)
  | group a b c d rest ih =>
    rw [encodeGroup, List.append_assoc, bodyGroup, ih]
    simp

def firstDigit (data : Bytes) : Nat :=
  wordOf (data.getD 0 0) (data.getD 1 0) (data.getD 2 0) (data.getD 3 0) / 52200625

theorem firstDigitSmall (data : Bytes) : firstDigit data < 85 := by
  have := wordFits (data.getD 0 0) (data.getD 1 0) (data.getD 2 0) (data.getD 3 0)
  unfold firstDigit
  omega

theorem encodeVisible (data : Bytes) : ∀ b ∈ encode data, 0x21 ≤ b := by
  induction data using byGroups with
  | short data few =>
    rw [encodeShort few]
    intro b found
    rcases List.mem_append.mp found with inside | closing
    · exact (encodeLastRange data b inside).1
    · simp only [List.mem_cons, List.not_mem_nil, or_false] at closing
      rcases closing with rfl | rfl <;> decide
  | group a b c d rest ih =>
    rw [encodeGroup]
    intro octet found
    rcases List.mem_append.mp found with inside | behind
    · split at inside
      · cases List.mem_singleton.mp inside
        decide
      · exact (charactersRange _ octet inside).1
    · exact ih octet behind

theorem encodeBegins (data : Bytes) :
    (∃ q text, encode data = digit (firstDigit data) :: digit q :: text) ∨
      firstDigit data ≠ 27 ∧ ∃ b text, encode data = b :: text ∧ b ≠ 0x3C := by
  match data with
  | [] => exact .inr ⟨by decide, _, _, rfl, by decide⟩
  | [a] => exact .inl ⟨_, _, rfl⟩
  | [a, b] => exact .inl ⟨_, _, rfl⟩
  | [a, b, c] => exact .inl ⟨_, _, rfl⟩
  | a :: b :: c :: d :: rest =>
    rw [encodeGroup]
    have first : firstDigit (a :: b :: c :: d :: rest) = wordOf a b c d / 52200625 := rfl
    split
    · next zero =>
      rw [first, zero]
      exact .inr ⟨by decide, _, _, rfl, by decide⟩
    · exact .inl ⟨_, _, rfl⟩

theorem solidVisible {text : Bytes} (visible : ∀ b ∈ text, 0x21 ≤ b) :
    text.filter (fun b => !Bytes.isBlank b) = text := by
  refine List.filter_eq_self.mpr fun b found => ?_
  have low := visible b found
  simp only [Bytes.isBlank, Bool.not_eq_true', Bool.or_eq_false_iff, beq_eq_false_iff_ne]
  refine ⟨⟨⟨⟨?_, ?_⟩, ?_⟩, ?_⟩, ?_⟩ <;>
  · rintro rfl
    exact absurd low (by decide)

theorem decodeMarked {b : UInt8} {text : Bytes} (visible : ∀ c ∈ 0x3C :: b :: text, 0x21 ≤ c)
    (other : b ≠ 0x7E) :
    decode (0x3C :: b :: text) = .error (.filter "Invalid ASCII85 start marker") := by
  unfold decode
  rw [solidVisible visible]
  split
  · next same =>
    cases same
    exact absurd rfl other
  · rfl
  · next unmarked => exact absurd rfl (unmarked _)

theorem decodeUnmarked {b : UInt8} {text : Bytes} (visible : ∀ c ∈ b :: text, 0x21 ≤ c)
    (other : b ≠ 0x3C) : decode (b :: text) = body [] [] (b :: text) := by
  unfold decode
  rw [solidVisible visible]
  split
  · next same =>
    cases same
    exact absurd rfl other
  · next same =>
    cases same
    exact absurd rfl other
  · rfl

theorem decodeEncode (data : Bytes) : decode (encode data) =
    if firstDigit data = 27 then .error (.filter "Invalid ASCII85 start marker") else .ok data := by
  have visible := encodeVisible data
  have whole := bodyEncode data [] []
  rw [List.append_nil, List.reverse_nil, List.nil_append] at whole
  rcases encodeBegins data with ⟨q, text, begins⟩ | ⟨unmarked, b, text, begins, other⟩
  · rw [begins] at visible whole ⊢
    split
    · next marked =>
      rw [marked] at visible ⊢
      refine decodeMarked visible fun same => ?_
      exact absurd (same ▸ (digitRange q).2) (by decide)
    · next unmarked =>
      rw [← whole]
      refine decodeUnmarked visible fun same => unmarked ?_
      have value := (digitToNat (firstDigit data)).symm.trans (congrArg UInt8.toNat same)
      have small := firstDigitSmall data
      simp only [UInt8.toNat_ofNat] at value
      omega
  · rw [begins] at visible whole ⊢
    rw [if_neg unmarked, ← whole]
    exact decodeUnmarked visible other

/-- The digit 27 is `<`. -/
theorem chunksReadBack (params : Option Entries) (chunks : List Bytes) :
    ∃ e text, codec.encoder params = .ok e ∧ e.run chunks = .ok text ∧
      (codec.decode params text = .ok chunks.flatten ↔ firstDigit chunks.flatten ≠ 27) ∧
      (firstDigit chunks.flatten = 27 →
        codec.decode params text = .error (.filter "Invalid ASCII85 start marker")) := by
  refine ⟨encoder, encode chunks.flatten, rfl, Encoder.runUncut encoderUncut chunks, ?_, ?_⟩
  · change decode _ = _ ↔ _
    rw [decodeEncode]
    split
    · next marked => exact iff_of_false nofun fun unmarked => unmarked marked
    · next unmarked => exact iff_of_true rfl unmarked
  · intro marked
    change decode _ = _
    rw [decodeEncode, if_pos marked]

theorem leadingDigitTaken : ¬ ∀ chunks : List Bytes,
    ∃ text, encoder.run chunks = .ok text ∧ decode text = .ok chunks.flatten := by
  intro always
  obtain ⟨text, output, decoded⟩ := always [Bytes.ascii "TEST"]
  rw [Encoder.runUncut encoderUncut] at output
  cases output
  have marked : firstDigit (encoder.held ++ [Bytes.ascii "TEST"].flatten) = 27 := by decide
  rw [decodeEncode, if_pos marked] at decoded
  cases decoded

inductive Spaced : Bytes → Bytes → Prop where
  | nil : Spaced [] []
  | keep (b : UInt8) {text spaced : Bytes} (rest : Spaced text spaced) :
      Spaced (b :: text) (b :: spaced)
  | blank {b : UInt8} {text spaced : Bytes} (blank : Bytes.isBlank b = true)
      (rest : Spaced text spaced) : Spaced text (b :: spaced)

theorem spacedSolid {text spaced : Bytes} (put : Spaced text spaced) :
    spaced.filter (fun b => !Bytes.isBlank b) = text.filter (fun b => !Bytes.isBlank b) := by
  induction put with
  | nil => rfl
  | keep b rest ih => rw [List.filter_cons, List.filter_cons, ih]
  | blank blank rest ih => rw [List.filter_cons_of_neg (by simp [blank]), ih]

theorem decodeSpaced {text spaced : Bytes} (visible : ∀ b ∈ text, 0x21 ≤ b)
    (put : Spaced (0x3C :: 0x7E :: text) spaced) (behind : Bytes) :
    decode (spaced ++ behind) =
      body [] [] (text ++ behind.filter fun b => !Bytes.isBlank b) := by
  have marked : (0x3C :: 0x7E :: text).filter (fun b => !Bytes.isBlank b) = 0x3C :: 0x7E :: text :=
    congrArg ([0x3C, 0x7E] ++ ·) (solidVisible visible)
  unfold decode
  rw [List.filter_append, spacedSolid put, marked]
  rfl

theorem markedReadsBack (params : Option Entries) (chunks : List Bytes) :
    ∃ e text, codec.encoder params = .ok e ∧ e.run chunks = .ok text ∧
      ∀ spaced behind, Spaced (0x3C :: 0x7E :: text) spaced →
        codec.decode params (spaced ++ behind) = .ok chunks.flatten := by
  refine ⟨encoder, encode chunks.flatten, rfl, Encoder.runUncut encoderUncut chunks, ?_⟩
  intro spaced behind put
  exact (decodeSpaced (encodeVisible chunks.flatten) put behind).trans (bodyEncode chunks.flatten [] _)

theorem leadingDigitMarked :
    let spaced := Bytes.ascii "< ~<(0\n_b~ >"
    Spaced (Bytes.ascii "<~<(0_b~>") spaced ∧
      decode (spaced ++ Bytes.ascii "z~>") = .ok (Bytes.ascii "TEST") := by
  have put : Spaced (Bytes.ascii "<~<(0_b~>") (Bytes.ascii "< ~<(0\n_b~ >") :=
    .keep 0x3C (.blank rfl (.keep 0x7E (.keep 0x3C (.keep 0x28 (.keep 0x30 (.blank rfl
      (.keep 0x5F (.keep 0x62 (.keep 0x7E (.blank rfl (.keep 0x3E .nil)))))))))))
  obtain ⟨e, text, made, output, reads⟩ :=
    markedReadsBack none [Bytes.ascii "TE", [], Bytes.ascii "ST"]
  cases made
  have same : encoder.run [Bytes.ascii "TE", [], Bytes.ascii "ST"] =
      .ok (Bytes.ascii "<(0_b~>") := rfl
  cases same.symm.trans output
  exact ⟨put, reads _ (Bytes.ascii "z~>") put⟩

end PdfBody.Base85
