import PdfBody.Filter.RunLength
import PdfBody.Proofs.Filter.Feeding

/-! Data as blocks reads back, however it is cut into chunks and whatever stands behind its end marker. No
block is empty or longer than a length octet can say, and none begins with the end marker. -/
namespace PdfBody.RunLength

def announced (length : UInt8) : Nat :=
  if length.toNat < 128 then length.toNat + 1 else 257 - length.toNat

inductive Block where
  | copied (octets : Bytes) (filled : octets ≠ []) (few : octets.length ≤ blockLimit)
  | repeated (times : Nat) (b : UInt8) (several : 2 ≤ times) (few : times ≤ blockLimit)

namespace Block

def data : Block → Bytes
  | copied octets _ _ => octets
  | repeated times b _ _ => List.replicate times b

def length : Block → UInt8
  | copied octets _ _ => (octets.length - 1).toUInt8
  | repeated times _ _ _ => (257 - times).toUInt8

def text : Block → Bytes
  | copied octets filled few => (copied octets filled few).length :: octets
  | repeated times b several few => [(repeated times b several few).length, b]

theorem copiedLength {octets : Bytes} (filled : octets ≠ []) (few : octets.length ≤ blockLimit) :
    (copied octets filled few).length.toNat = octets.length - 1 := by
  unfold blockLimit at few
  simp only [length, Nat.toUInt8_eq]
  exact UInt8.toNat_ofNat_of_lt' (by simp only [UInt8.size]; omega)

theorem repeatedLength {times : Nat} (b : UInt8) (several : 2 ≤ times) (few : times ≤ blockLimit) :
    (repeated times b several few).length.toNat = 257 - times := by
  simp only [length, Nat.toUInt8_eq]
  exact UInt8.toNat_ofNat_of_lt' (by simp only [UInt8.size]; omega)

theorem lengthOpen (block : Block) : block.length ≠ 128 := by
  intro same
  have value : block.length.toNat = 128 := congrArg UInt8.toNat same
  cases block with
  | copied octets filled few =>
    simp only [copiedLength, blockLimit] at value few
    omega
  | repeated times b several few =>
    simp only [repeatedLength, blockLimit] at value few
    omega

theorem announcedData (block : Block) : announced block.length = block.data.length := by
  unfold announced
  cases block with
  | copied octets filled few =>
    have positive := List.length_pos_iff.mpr filled
    rw [copiedLength, data]
    unfold blockLimit at few
    split <;> omega
  | repeated times b several few =>
    rw [repeatedLength, data, List.length_replicate]
    unfold blockLimit at few
    split <;> omega

theorem dataFew (block : Block) : 1 ≤ block.data.length ∧ block.data.length ≤ blockLimit := by
  cases block with
  | copied octets filled few => exact ⟨List.length_pos_iff.mpr filled, few⟩
  | repeated times b several few =>
    simp only [data, List.length_replicate]
    exact ⟨Nat.le_of_succ_le several, few⟩

end Block

theorem decodeCopies {octets : Bytes} {more : Nat} (count : octets.length = more + 1)
    (done rest : Bytes) :
    decodeFrom done (.copies more) (octets ++ rest) =
      decodeFrom (octets.reverse ++ done) .length rest := by
  induction octets generalizing more done with
  | nil => simp at count
  | cons b octets ih =>
    cases more with
    | zero =>
      have alone : octets = [] := List.length_eq_zero_iff.mp (Nat.succ.inj count)
      subst alone
      rfl
    | succ more =>
      simp only [List.cons_append, decodeFrom, ih (Nat.succ.inj count), List.reverse_cons,
        List.append_assoc, List.nil_append]

theorem decodeBlock (block : Block) (done rest : Bytes) :
    decodeFrom done .length (block.text ++ rest) =
      decodeFrom (block.data.reverse ++ done) .length rest := by
  cases block with
  | copied octets filled few =>
    have positive := List.length_pos_iff.mpr filled
    have value := Block.copiedLength filled few
    unfold blockLimit at few
    have low : (Block.copied octets filled few).length.toNat < 128 := by omega
    simp only [Block.text, List.cons_append, decodeFrom, if_pos low]
    exact decodeCopies (by omega) done rest
  | repeated times b several few =>
    have limit : times ≤ 128 := few
    have high : ¬ 257 - times < 128 := by omega
    have other : ¬ 257 - times = 128 := by omega
    have count : 257 - (257 - times) = times := by omega
    simp only [Block.text, List.cons_append, List.nil_append, decodeFrom, Block.repeatedLength,
      if_neg high, if_neg other, count, Block.data, List.reverse_replicate]

theorem decodeBlocks (blocks : List Block) (done behind : Bytes) :
    decodeFrom done .length (blocks.flatMap Block.text ++ [128] ++ behind) =
      .ok (done.reverse ++ blocks.flatMap Block.data) := by
  induction blocks generalizing done with
  | nil => simp [decodeFrom]
  | cons block blocks ih =>
    simp only [List.flatMap_cons, List.append_assoc] at ih ⊢
    rw [decodeBlock, ih]
    simp

theorem runFew (data : Bytes) : runLength data ≤ blockLimit := by
  cases data with
  | nil => exact Nat.zero_le _
  | cons b rest =>
    have within := (List.takeWhile_prefix (l := (b :: rest).take blockLimit) (· == b)).length_le
    exact Nat.le_trans within (List.length_take_le _ _)

theorem runTaken (b : UInt8) (rest : Bytes) :
    (b :: rest).take (runLength (b :: rest)) = List.replicate (runLength (b :: rest)) b := by
  have front := (List.takeWhile_prefix (l := (b :: rest).take blockLimit) (· == b)).trans
    (List.take_prefix _ _)
  have run : ((b :: rest).take blockLimit).takeWhile (· == b) =
      (b :: rest).take (runLength (b :: rest)) := List.prefix_iff_eq_take.mp front
  rw [← run]
  refine List.eq_replicate_iff.mpr ⟨rfl, fun c found => ?_⟩
  exact eq_of_beq (List.all_eq_true.mp List.all_takeWhile c found)

theorem literalFew (limit : Nat) (data : Bytes) :
    literalLength limit data ≤ limit ∧ literalLength limit data ≤ data.length := by
  fun_induction literalLength limit data with
  | case1 limit a rest => exact ⟨Nat.zero_le _, Nat.zero_le _⟩
  | case2 limit a b rest other ih =>
    simp only [List.length_cons] at ih ⊢
    omega
  | case3 limit a => simp
  | case4 limit data => exact ⟨Nat.zero_le _, Nat.zero_le _⟩

theorem encodeBlocks (data : Bytes) : ∃ blocks : List Block,
    encode data = blocks.flatMap Block.text ++ [128] ∧ blocks.flatMap Block.data = data := by
  fun_induction encode data with
  | case1 => exact ⟨[], rfl, rfl⟩
  | case2 b rest several ih =>
    obtain ⟨blocks, text, whole⟩ := ih
    refine ⟨.repeated _ b several (runFew _) :: blocks, ?_, ?_⟩
    · rw [text]
      rfl
    · rw [List.flatMap_cons, whole, Block.data, ← runTaken, List.take_append_drop]
  | case3 b rest single count ih =>
    obtain ⟨blocks, text, whole⟩ := ih
    have positive := literalLengthPos b rest (Nat.lt_of_not_le single)
    obtain ⟨few, within⟩ := literalFew blockLimit (b :: rest)
    have taken : ((b :: rest).take count).length = count := List.length_take_of_le within
    have filled : (b :: rest).take count ≠ [] :=
      List.length_pos_iff.mp (Nat.lt_of_lt_of_eq positive taken.symm)
    refine ⟨.copied _ filled (Nat.le_trans (Nat.le_of_eq taken) few) :: blocks, ?_, ?_⟩
    · rw [text, List.flatMap_cons, Block.text, Block.length, taken]
      simp
    · rw [List.flatMap_cons, whole, Block.data, List.take_append_drop]

theorem blocksReadBack (params : Option Entries) (chunks : List Bytes) :
    ∃ e text, codec.encoder params = .ok e ∧ e.run chunks = .ok text ∧
      (∀ behind, codec.decode params (text ++ behind) = .ok chunks.flatten) ∧
      ∃ blocks : List Block, text = blocks.flatMap Block.text ++ [128] ∧
        blocks.flatMap Block.data = chunks.flatten ∧
        ∀ block ∈ blocks, block.length ≠ 128 ∧ announced block.length = block.data.length ∧
          1 ≤ block.data.length ∧ block.data.length ≤ 128 := by
  obtain ⟨blocks, text, whole⟩ := encodeBlocks chunks.flatten
  refine ⟨.whole encode, encode chunks.flatten, rfl, Encoder.runUncut (Encoder.wholeUncut encode) chunks,
    fun behind => ?_, blocks, text, whole, fun block _ => ?_⟩
  · have reads := decodeBlocks blocks [] behind
    rw [← text, whole] at reads
    exact reads
  · exact ⟨block.lengthOpen, block.announcedData, block.dataFew⟩

end PdfBody.RunLength
