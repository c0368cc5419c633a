import PdfBody.Proofs.Value.Entries
import PdfBody.Proofs.Text.Canonical

/-! What texts are read as. A text that is a value comes to its end without a fault. Its reals are
numbers, finite or not; its dictionaries bind each key once; and it is no deeper than a reader goes. -/
namespace PdfBody
open PdfBody.Parser

namespace Binary64

def IsNumber (x : Binary64) : Prop := x.isNaN = false

theorem ofRatioNumber (negative : Bool) (num den : Nat) : (ofRatio negative num den).IsNumber := by
  rcases Nat.lt_or_eq_of_le (nearestMost num den) with less | top
  · obtain ⟨exponent, -⟩ := madeFields negative less
    refine (finiteIff.mpr ?_).1
    rw [ofRatio, exponent]
    exact Nat.div_lt_of_lt_mul (by rwa [Nat.mul_comm])
  · rw [ofRatio, top, IsNumber]
    cases negative <;> decide

end Binary64

namespace Lexer

def RealsNumbers (scan : Scan Token) : Prop := ∀ x, scan.1 = .ok (.real x) → x.IsNumber

theorem nameBodyReals (done : Bytes) (position : Nat) (bytes : Bytes) :
    RealsNumbers (nameBody done position bytes) := by
  fun_induction nameBody done position bytes with
  | case1 | case2 | case4 | case5 => rintro x ⟨⟩
  | case3 done position regular high low more h l hh hl ih => exact ih
  | case6 done position b rest regular plain ih => exact ih

theorem literalBodyReals (s : Literal) (position : Nat) (bytes : Bytes) :
    RealsNumbers (literalBody s position bytes) := by
  fun_induction literalBody s position bytes with
  | case1 | case2 => rintro x ⟨⟩
  | case3 s position b rest next opened ih => exact ih

theorem hexBodyReals (high : Option Nat) (done : Bytes) (position : Nat) (bytes : Bytes) :
    RealsNumbers (hexBody high done position bytes) := by
  induction bytes generalizing high done position with
  | nil => rintro x ⟨⟩
  | cons b rest ih =>
    unfold hexBody
    split
    · rintro x ⟨⟩
    split
    · exact ih _ _ _
    split
    · rintro x ⟨⟩
    split
    · exact ih _ _ _
    · exact ih _ _ _

theorem numberReals (c : Cursor) : RealsNumbers (number c) := by
  simp only [number]
  split
  · next t made =>
    intro x same
    cases same
    simp only [Numeral.token] at made
    split at made
    · split at made <;> cases made
    · split at made
      · cases made
      · cases made
        exact Binary64.ofRatioNumber _ _ _
  · rintro x ⟨⟩

theorem wordReals (c : Cursor) : RealsNumbers (word c) := by
  intro x made
  simp only [word, Except.ok.injEq] at made
  split at made
  · cases made
  split at made
  · cases made
  split at made
  · cases made
  · cases made

theorem tokenReals (b : UInt8) (inside c : Cursor) : RealsNumbers (token b inside c) := by
  unfold token
  split
  · exact nofun
  split
  · exact nameBodyReals _ _ _
  split
  · exact literalBodyReals _ _ _
  split
  · split
    · exact nofun
    · exact hexBodyReals _ _ _ _
  split
  · split
    · exact nofun
    · exact nofun
    · exact nofun
  split
  · exact nofun
  split
  · exact nofun
  split
  · exact numberReals c
  split
  · exact nofun
  · exact wordReals c

theorem nextReals (c : Cursor) : RealsNumbers (next c) := by
  simp only [next]
  split
  · exact nofun
  · exact tokenReals _ _ _

end Lexer

namespace Value

structure Made (levels : Nat) (v : Value) : Prop where
  numbers : v.Every (Cooked Binary64.IsNumber)
  keyed : v.Keyed
  shallow : v.nesting ≤ levels

theorem madeReference (levels : Nat) (id : ObjId) : (ref id).Made levels :=
  ⟨trivial, trivial, Nat.zero_le _⟩

theorem madeArray {levels : Nat} {items : List Value} (made : ∀ v ∈ items, v.Made levels) :
    (arr items).Made (levels + 1) := by
  have parts : EveryItems (Cooked Binary64.IsNumber) items ∧ KeyedItems items ∧
      nestingItems items ≤ levels := by
    induction items with
    | nil => exact ⟨trivial, trivial, Nat.zero_le _⟩
    | cons v rest ih =>
      obtain ⟨numbers, keyed, shallow⟩ := made v (by simp)
      obtain ⟨others, keyedToo, shallowToo⟩ := ih fun w found => made w (by simp [found])
      exact ⟨⟨numbers, others⟩, ⟨keyed, keyedToo⟩, Nat.max_le.mpr ⟨shallow, shallowToo⟩⟩
  exact ⟨⟨trivial, parts.1⟩, parts.2.1, Nat.succ_le_succ parts.2.2⟩

theorem madeDict {levels : Nat} {entries : Entries} (once : (entries.map Prod.fst).Nodup)
    (made : ∀ entry ∈ entries, entry.2.Made levels) : (dict entries).Made (levels + 1) := by
  have parts : EveryEntries (Cooked Binary64.IsNumber) entries ∧ KeyedEntries entries ∧
      nestingEntries entries ≤ levels := by
    clear once
    induction entries with
    | nil => exact ⟨trivial, trivial, Nat.zero_le _⟩
    | cons entry rest ih =>
      obtain ⟨numbers, keyed, shallow⟩ := made entry (by simp)
      obtain ⟨others, keyedToo, shallowToo⟩ := ih fun e found => made e (by simp [found])
      exact ⟨⟨numbers, others⟩, ⟨keyed, keyedToo⟩, Nat.max_le.mpr ⟨shallow, shallowToo⟩⟩
  exact ⟨⟨trivial, parts.1⟩, ⟨once, parts.2.1⟩, Nat.succ_le_succ parts.2.2⟩

end Value

namespace Parser
open Value

def Frame.Made (levels : Nat) : Frame → Prop
  | array items => ∀ v ∈ items, v.Made levels
  | dict entries | entry _ entries =>
    (entries.map Prod.fst).Nodup ∧ ∀ entry ∈ entries, entry.2.Made levels

inductive Open : Nat → List Frame → Prop where
  | none : Open depthLimit []
  | inside {levels : Nat} {frame : Frame} {outer : List Frame} (made : frame.Made levels)
      (behind : Open (levels + 1) outer) : Open levels (frame :: outer)

theorem openLevels {levels : Nat} {stack : List Frame} (opened : Open levels stack) :
    levels + stack.length = depthLimit := by
  induction opened with
  | none => rfl
  | inside _ _ ih => rw [← ih, List.length_cons]; omega

inductive Turn.Made : Turn → Prop where
  | value {v : Value} (made : v.Made depthLimit) : Made (.stop (.ok v))
  | refused (fault : Fault) : Made (.stop (.error fault))
  | on {levels : Nat} {stack : List Frame} (opened : Open levels stack) : Made (.go stack)

theorem Turn.Made.stopped {outcome : Except Fault Value} (made : (Turn.stop outcome).Made)
    {left behind : List Token} {v : Value}
    (read : outcome.toOption.map (fun w => (w, left)) = some (v, behind)) : v.Made depthLimit := by
  cases made with
  | value made =>
    cases read
    exact made
  | refused fault => cases read

theorem Turn.Made.went {stack : List Frame} (made : (Turn.go stack).Made) :
    ∃ levels, Open levels stack := by
  cases made with
  | on opened => exact ⟨_, opened⟩

section

variable {levels : Nat} {stack : List Frame}

theorem deliverMade (opened : Open levels stack) {v : Value} (made : v.Made levels) :
    (deliver v stack).Made := by
  cases opened with
  | none => exact .value made
  | @inside _ frame outer held behind =>
    -- what is delivered was made with the levels that are left inside this frame
    cases frame with
    | array items => exact .on (.inside (List.forall_mem_cons.mpr ⟨made, held⟩) behind)
    | dict entries => exact .on (.inside held behind)
    | entry key entries =>
      refine .on (.inside ⟨Entries.keysNodupPut held.1, fun entry found => ?_⟩ behind)
      rcases Entries.memPut found with same | old
      · rw [same]
        exact made
      · exact held.2 entry old

theorem enterMade (opened : Open levels stack) (position : Nat) {frame : Frame}
    (empty : ∀ levels, frame.Made levels) : (enter position stack frame).Made := by
  unfold enter
  split
  · exact .refused _
  · next room =>
    have total := openLevels opened
    cases levels with
    | zero => omega
    | succ levels => exact .on (.inside (empty levels) opened)

theorem beginMade (opened : Open levels stack) (position : Nat) {t : Token}
    (number : ∀ x, t = .real x → x.IsNumber) : (beginValue position stack t).Made := by
  have flat {v : Value} (numbers : v.Every (Cooked Binary64.IsNumber)) (keyed : v.Keyed)
      (single : v.nesting = 0) : (deliver v stack).Made :=
    deliverMade opened ⟨numbers, keyed, by omega⟩
  cases t with
  | arrOpen => exact enterMade opened position fun _ _ found => absurd found List.not_mem_nil
  | dictOpen =>
    exact enterMade opened position fun _ =>
      ⟨List.nodup_nil, fun _ found => absurd found List.not_mem_nil⟩
  | real x => exact flat (number x rfl) trivial rfl
  | arrClose | dictClose | word | comment | done => exact .refused _
  | _ => exact flat trivial trivial rfl

theorem takeMade (opened : Open levels stack) (position : Nat) {t : Token}
    (number : ∀ x, t = .real x → x.IsNumber) : (take position stack t).Made := by
  unfold take
  split
  · exact .on opened
  · next items outer =>
    cases opened with
    | inside held behind =>
      exact deliverMade behind (madeArray fun v found => held v (List.mem_reverse.mp found))
  · exact .refused _
  · next entries outer =>
    cases opened with
    | inside held behind => exact deliverMade behind (madeDict held.1 held.2)
  · cases opened with
    | inside held behind => exact .on (.inside held behind)
  · exact .refused _
  · exact .refused _
  · exact beginMade opened position number

end

theorem readTokensMade {levels : Nat} {stack : List Frame} {ts left : List Token} {v : Value}
    (opened : Open levels stack) (numbers : ∀ x, .real x ∈ ts → x.IsNumber)
    (read : readTokens stack ts = some (v, left)) : v.Made depthLimit := by
  fun_induction readTokens stack ts generalizing levels with
  | case1 => cases read
  | case2 stack t more id found outcome delivered =>
    have made := deliverMade opened (madeReference _ id)
    rw [delivered] at made
    exact made.stopped read
  | case3 stack t more id found next delivered ih =>
    have made := deliverMade opened (madeReference _ id)
    rw [delivered] at made
    obtain ⟨levels, opened⟩ := made.went
    exact ih opened (fun x among => numbers x (.tail _ (List.mem_of_mem_drop among))) read
  | case4 stack t more alone outcome taken =>
    have made := takeMade opened 0 fun x same => numbers x (same ▸ .head _)
    rw [taken] at made
    exact made.stopped read
  | case5 stack t more alone next taken ih =>
    have made := takeMade opened 0 fun x same => numbers x (same ▸ .head _)
    rw [taken] at made
    obtain ⟨levels, opened⟩ := made.went
    exact ih opened (fun x among => numbers x (.tail _ among)) read

theorem lexedNumbers {c : Cursor} {ts : List Token} (lexed : Lexed c ts) (x : Binary64)
    (found : .real x ∈ ts) : x.IsNumber := by
  induction ts generalizing c with
  | nil => cases found
  | cons t more ih =>
    obtain ⟨-, stop, read, behind⟩ := lexedToken lexed
    rcases List.mem_cons.mp found with rfl | later
    · exact Lexer.nextReals c x (by rw [read])
    · exact ih behind later

theorem lexedOrFaults (c : Cursor) : (∃ ts, Lexed c ts) ∨ Faults c := by
  induction c using Lexer.throughTokens with
  | fault c stop fault read => exact .inr (.now read)
  | done c stop read => exact .inl ⟨[], by rw [Lexed, lexemesDone read]; rfl⟩
  | token c stop t read last ih =>
    rcases ih with ⟨ts, lexed⟩ | faults
    · refine .inl ⟨t :: ts, ?_⟩
      rw [Lexed, lexemesToken read last, tokensOfToken last, lexed]
      rfl
    · exact .inr (.later read last faults)

theorem parsedTokens {text : Bytes} {v : Value} (parsed : parse text = .ok v) :
    ∃ ts, tokens text = .ok ts := by
  rcases lexedOrFaults (.start text) with lexed | faults
  · exact lexed
  · exact absurd parsed (parseFaulty faults v)

theorem parsedMade {text : Bytes} {v : Value} (parsed : parse text = .ok v) : v.Made depthLimit := by
  obtain ⟨ts, lexed⟩ := parsedTokens parsed
  obtain ⟨left, read, -⟩ := (parseTokens lexed v).mp parsed
  exact readTokensMade .none (lexedNumbers lexed) read

end Parser
end PdfBody
