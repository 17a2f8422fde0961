import Mathlib.Algebra.BigOperators.Group.List.Basic
import Mathlib.Tactic.Ring

/-! Ones' complement sums of words of any width, by residues modulo the largest word. -/
namespace SonicPins.Lib

/-- A carry out of the word is added at its end. -/
def onesAdd (n a b : Nat) : Nat := if a + b < 2 ^ n then a + b else a + b + 1 - 2 ^ n

def onesSum (n : Nat) (words : List Nat) : Nat := words.foldl (onesAdd n) 0

/-- The residue from one on that stands for a number; only zero stands for itself. -/
def onesResidue (n s : Nat) : Nat := if s = 0 then 0 else (s - 1) % (2 ^ n - 1) + 1

variable {n : Nat}

theorem onesResidue_eq {s q r : Nat} (hr : 0 < r) (hle : r ≤ 2 ^ n - 1) (h : s = (2 ^ n - 1) * q + r) : onesResidue n s = r := by
  have hpred : s - 1 = r - 1 + (2 ^ n - 1) * q := by omega
  rw [onesResidue,if_neg (by omega),hpred,Nat.add_mul_mod_self_left,Nat.mod_eq_of_lt (by omega)]
  omega

theorem exists_onesResidue (hn : 0 < n) {s : Nat} (hs : 0 < s) :
    ∃ q,s = (2 ^ n - 1) * q + onesResidue n s ∧ 0 < onesResidue n s ∧ onesResidue n s ≤ 2 ^ n - 1 := by
  have hpow : 2 ≤ 2 ^ n := Nat.le_self_pow hn.ne' 2
  have hmod := Nat.mod_lt (s - 1) (show 0 < 2 ^ n - 1 by omega)
  have hdiv := Nat.div_add_mod (s - 1) (2 ^ n - 1)
  rw [onesResidue,if_neg (by omega)]
  exact ⟨(s - 1) / (2 ^ n - 1),by omega,by omega,by omega⟩

theorem onesResidue_le (hn : 0 < n) (s : Nat) : onesResidue n s ≤ 2 ^ n - 1 := by
  rcases Nat.eq_zero_or_pos s with rfl | hs
  · exact Nat.zero_le _
  · obtain ⟨-,-,-,hle⟩ := exists_onesResidue hn hs
    exact hle

theorem onesResidue_of_lt {w : Nat} (h : w < 2 ^ n) : onesResidue n w = w := by
  rcases Nat.eq_zero_or_pos w with rfl | hw
  · rfl
  · exact onesResidue_eq (q := 0) hw (by omega) (by omega)

theorem onesResidue_mod (s : Nat) : onesResidue n s % (2 ^ n - 1) = s % (2 ^ n - 1) := by
  unfold onesResidue
  split
  · rename_i hs
    rw [hs]
  · rw [Nat.mod_add_mod]
    congr 1
    omega

theorem onesResidue_eq_iff (hn : 0 < n) {a b : Nat} :
    onesResidue n a = onesResidue n b ↔ a % (2 ^ n - 1) = b % (2 ^ n - 1) ∧ (a = 0 ↔ b = 0) := by
  have hzero : ∀ s,onesResidue n s = 0 ↔ s = 0 := by
    intro s
    unfold onesResidue
    split <;> omega
  constructor
  · intro h
    exact ⟨by rw [← onesResidue_mod a,h,onesResidue_mod],by rw [← hzero a,h,hzero]⟩
  · rintro ⟨hmod,hiff⟩
    rcases Nat.eq_zero_or_pos a with rfl | ha
    · rw [hiff.mp rfl]
    · have hb : 0 < b := Nat.pos_of_ne_zero fun hb => ha.ne' (hiff.mpr hb)
      obtain ⟨-,-,hposa,hlea⟩ := exists_onesResidue hn ha
      obtain ⟨-,-,hposb,hleb⟩ := exists_onesResidue hn hb
      rw [← onesResidue_mod a,← onesResidue_mod b] at hmod
      rcases hlea.lt_or_eq with hlta | heqa
      · rcases hleb.lt_or_eq with hltb | heqb
        · rwa [Nat.mod_eq_of_lt hlta,Nat.mod_eq_of_lt hltb] at hmod
        · rw [heqb,Nat.mod_self,Nat.mod_eq_of_lt hlta] at hmod
          omega
      · rcases hleb.lt_or_eq with hltb | heqb
        · rw [heqa,Nat.mod_self,Nat.mod_eq_of_lt hltb] at hmod
          omega
        · rw [heqa,heqb]

theorem onesAdd_onesResidue (hn : 0 < n) (s : Nat) {w : Nat} (hw : w < 2 ^ n) :
    onesAdd n (onesResidue n s) w = onesResidue n (s + w) := by
  rcases Nat.eq_zero_or_pos s with rfl | hs
  · have hzero : onesResidue n 0 = 0 := rfl
    rw [hzero,onesAdd,if_pos (by omega),Nat.zero_add,onesResidue_of_lt hw]
  · obtain ⟨q,hq,hpos,hle⟩ := exists_onesResidue hn hs
    generalize onesResidue n s = r at hq hpos hle
    rw [onesAdd]
    by_cases hsmall : r + w < 2 ^ n
    · rw [if_pos hsmall,onesResidue_eq (q := q) (r := r + w) (by omega) (by omega) (by omega)]
    · rw [if_neg hsmall,onesResidue_eq (q := q + 1) (r := r + w + 1 - 2 ^ n) (by omega) (by omega) (by rw [Nat.mul_succ]; omega)]

theorem onesSum_eq (hn : 0 < n) {words : List Nat} (h : ∀ w ∈ words,w < 2 ^ n) : onesSum n words = onesResidue n words.sum := by
  have hfold : ∀ (words : List Nat) (s : Nat),(∀ w ∈ words,w < 2 ^ n) →
      words.foldl (onesAdd n) (onesResidue n s) = onesResidue n (s + words.sum) := by
    intro words
    induction words with
    | nil =>
      intro s _
      rw [List.foldl_nil,List.sum_nil,Nat.add_zero]
    | cons w words ih =>
      intro s hwords
      rw [List.foldl_cons,onesAdd_onesResidue hn s (hwords w List.mem_cons_self),
        ih _ fun v hv => hwords v (List.mem_cons_of_mem _ hv),List.sum_cons,Nat.add_assoc]
  have hsum := hfold words 0 h
  rwa [Nat.zero_add] at hsum

theorem onesResidue_complement (hn : 0 < n) (s : Nat) : onesResidue n (s + (2 ^ n - 1 - onesResidue n s)) = 2 ^ n - 1 := by
  have hpow : 2 ≤ 2 ^ n := Nat.le_self_pow hn.ne' 2
  rcases Nat.eq_zero_or_pos s with rfl | hs
  · have hzero : onesResidue n 0 = 0 := rfl
    rw [hzero]
    exact onesResidue_eq (q := 0) (by omega) le_rfl (by omega)
  · obtain ⟨q,hq,hpos,hle⟩ := exists_onesResidue hn hs
    exact onesResidue_eq (q := q) (by omega) le_rfl (by omega)

theorem onesSum_complement (hn : 0 < n) {before after : List Nat} (hbefore : ∀ w ∈ before,w < 2 ^ n)
    (hafter : ∀ w ∈ after,w < 2 ^ n) :
    onesSum n (before ++ (2 ^ n - 1 - onesSum n (before ++ 0 :: after)) :: after) = 2 ^ n - 1 := by
  have hpos : 0 < 2 ^ n := Nat.two_pow_pos n
  have hwords : ∀ c < 2 ^ n,∀ w ∈ before ++ c :: after,w < 2 ^ n := by
    intro c hc w hw
    rcases List.mem_append.mp hw with hw | hw
    · exact hbefore w hw
    · rcases List.mem_cons.mp hw with rfl | hw
      · exact hc
      · exact hafter w hw
  rw [onesSum_eq hn (hwords 0 hpos),onesSum_eq hn (hwords _ (by omega)),List.sum_append,List.sum_append,List.sum_cons,List.sum_cons]
  have hcomplement := onesResidue_complement hn (before.sum + (0 + after.sum))
  rw [show before.sum + (2 ^ n - 1 - onesResidue n (before.sum + (0 + after.sum)) + after.sum) =
    before.sum + (0 + after.sum) + (2 ^ n - 1 - onesResidue n (before.sum + (0 + after.sum))) by omega]
  exact hcomplement

end SonicPins.Lib
