import Neuropil.Dhkey.Order

namespace Neuropil.Dhkey.Ring

open List

lemma between_exclusive_iff (test left right : Dhkey) :
    between test left right false = true ↔ value left ≠ value test ∧ value test ≠ value right ∧
      (value left < value right → value left < value test ∧ value test < value right) ∧
      (value right ≤ value left → value left < value test ∨ value test < value right) := by
  simp only [between, cmp_zero_iff, cmp_neg_iff]
  split_ifs <;> simp <;> omega

/-- Exclusive `between` is a strict cyclic order of different keys. -/
theorem between_cyclic (a b c d : Dhkey) :
    (a ≠ b → b ≠ c → a ≠ c → (between b a c false = true ↔ ¬ between b c a false = true)) ∧
    (a ≠ c → between b a c false = true → between c b a false = true) ∧
    (between b a c false = true → between c a d false = true → between b a d false = true) := by
  simp only [between_exclusive_iff, ne_eq, eq_iff_value]
  omega

/-- From a key to itself, the ring is between, but not in the other direction. -/
theorem between_not_cyclic : between (ofWord 1) zero zero false = true ∧
    between zero (ofWord 1) zero false = false := by
  decide

/-- The difference of two keys, word by word and without a borrow. -/
def wordDiff (a b : Dhkey) : Dhkey := if value a > value b then sub a b else sub b a

def folded (n : ℕ) : ℕ := if value half < n then 2 ^ 256 - 1 - n else n

lemma value_lt (k : Dhkey) : value k < 2 ^ 256 := by
  have h := wordsVal_lt (words k)
  rwa [words, length_ofFn] at h

lemma value_max_sub (k : Dhkey) : value (sub max k) = 2 ^ 256 - 1 - value k := by
  have hwords : ∀ ws : List UInt32,
      wordsVal (ws.map (0xffffffff - ·)) + wordsVal ws + 1 = 2 ^ (32 * ws.length) := by
    intro ws
    induction ws with
    | nil => rfl
    | cons w ws ih =>
      have hw : (0xffffffff - w).toNat + w.toNat + 1 = 2 ^ 32 := by
        have hlt := w.toNat_lt
        rw [UInt32.toNat_sub_of_le _ _ (UInt32.le_iff_toNat_le.2 (Nat.le_of_lt_succ hlt))]
        exact congrArg Nat.succ (Nat.sub_add_cancel (Nat.le_of_lt_succ hlt))
      calc
        _ = ((0xffffffff - w).toNat + w.toNat) * 2 ^ (32 * ws.length) +
            (wordsVal (ws.map (0xffffffff - ·)) + wordsVal ws + 1) := by
          rw [map_cons, wordsVal, wordsVal, length_map]
          ring
        _ = ((0xffffffff - w).toNat + w.toNat + 1) * 2 ^ (32 * ws.length) := by
          rw [ih]
          ring
        _ = _ := by
          rw [hw, length_cons, ← Nat.pow_add]
          congr 1
          omega
  have hmap : words (sub max k) = (words k).map (0xffffffff - ·) := by
    rw [words, words, map_ofFn]
    rfl
  have hlen : (words k).length = 8 := length_ofFn
  have hsum := hwords (words k)
  rw [← hmap, hlen] at hsum
  change value (sub max k) + value k + 1 = 2 ^ 256 at hsum
  omega

lemma value_distance (a b : Dhkey) : value (distance a b) = folded (value (wordDiff a b)) := by
  have hd : (if cmp a b > 0 then sub a b else sub b a) = wordDiff a b := by
    have hle := cmp_le_iff a b
    rw [wordDiff]
    congr 1
    apply propext
    omega
  rw [distance, hd, folded]
  simp only [cmp_neg_iff]
  split_ifs
  · exact value_max_sub _
  · rfl

lemma wordDiff_comm (a b : Dhkey) : wordDiff a b = wordDiff b a := by
  obtain h | h | h := Nat.lt_trichotomy (value a) (value b)
  · rw [wordDiff, wordDiff, if_neg h.not_gt, if_pos h]
  · rw [value_injective h]
  · rw [wordDiff, wordDiff, if_pos h, if_neg h.not_gt]

lemma sub_eq_zero_iff (a b : Dhkey) : sub a b = zero ↔ a = b := by
  obtain ⟨s⟩ := a
  obtain ⟨t⟩ := b
  simp only [sub, zero, mk.injEq, funext_iff]
  refine forall_congr' fun i => ?_
  rw [UInt32.sub_eq_iff_eq_add, UInt32.zero_add]

lemma distance_eq_zero_iff (a b : Dhkey) : distance a b = zero ↔ a = b ∨ wordDiff a b = max := by
  have hsame : wordDiff a b = zero ↔ a = b := by
    rw [wordDiff]
    split_ifs
    · exact sub_eq_zero_iff a b
    · rw [sub_eq_zero_iff, eq_comm]
  have hzero : value zero = 0 := rfl
  have hmax : value max = 2 ^ 256 - 1 := by decide +kernel
  have hh : value half < 2 ^ 256 - 1 := by decide +kernel
  have hlt := value_lt (wordDiff a b)
  rw [← hsame, eq_iff_value, eq_iff_value, eq_iff_value, value_distance, hzero, hmax, folded]
  split_ifs <;> omega

lemma wordsVal_lt_iff {n : ℕ} (f g : Fin n → UInt32) :
    wordsVal (ofFn f) < wordsVal (ofFn g) ↔ ∃ k, (∀ i < k, f i = g i) ∧ f k < g k := by
  induction n with
  | zero => simp
  | succ n ih =>
    rw [ofFn_succ, ofFn_succ, Fin.exists_fin_succ]
    obtain h | h | h := words_trichotomy (f 0) (g 0)
    · exact iff_of_true (wordsVal_lt_of_head (by simp) h) (.inl ⟨by simp, h⟩)
    · simp only [wordsVal, h, length_ofFn, Nat.add_lt_add_iff_left, ih, Fin.forall_fin_succ,
        Fin.succ_lt_succ_iff, Fin.succ_pos, true_imp_iff, true_and, UInt32.lt_irrefl, and_false,
        false_or]
    · refine iff_of_false (wordsVal_lt_of_head (by simp) h).not_gt ?_
      rintro (hlt | ⟨k, hsame, -⟩)
      · exact UInt32.lt_asymm h hlt.2
      · rw [hsame 0 (Fin.succ_pos k)] at h
        exact UInt32.lt_irrefl _ h

lemma value_lt_iff (a b : Dhkey) :
    value a < value b ↔ ∃ k, (∀ i < k, a.t i = b.t i) ∧ a.t k < b.t k :=
  wordsVal_lt_iff a.t b.t

/-- In the first word in which `b` and `c` differ, `b - a` takes a borrow and `c - a` does not. -/
def BorrowsFirst (a b c : Dhkey) : Prop :=
  ∃ k, (∀ i < k, b.t i = c.t i) ∧ b.t k < a.t k ∧ a.t k ≤ c.t k

/-- The first word of `b - a` that is not half of the range is above it. -/
def Beyond (a b : Dhkey) : Prop :=
  ∃ k, (∀ i < k, b.t i - a.t i = 0x80000000) ∧ 0x80000000 < b.t k - a.t k

/-- The first words of `b - a` and `c - a` that do not add up to the largest word exceed it. -/
def Exceeds (a b c : Dhkey) : Prop :=
  ∃ k, (∀ i < k, 0xffffffff - (c.t i - a.t i) = b.t i - a.t i) ∧
    0xffffffff - (c.t k - a.t k) < b.t k - a.t k

lemma sub_lt_sub_iff {a b c : UInt32} (h : b < c) : c - a < b - a ↔ b < a ∧ a ≤ c := by
  have ha := a.toNat_lt
  have hb := b.toNat_lt
  have hc := c.toNat_lt
  rw [UInt32.lt_iff_toNat_lt] at h
  simp only [UInt32.lt_iff_toNat_lt, UInt32.le_iff_toNat_le, UInt32.toNat_sub]
  omega

section

variable {a b c : Dhkey}

lemma borrowsFirst_iff (h : value b < value c) :
    BorrowsFirst a b c ↔ value (sub c a) < value (sub b a) := by
  obtain ⟨k0, hsame0, hlt0⟩ := (value_lt_iff b c).1 h
  simp only [value_lt_iff, sub]
  constructor
  · rintro ⟨k, hsame, hlt, hle⟩
    refine ⟨k, fun i hi => by rw [hsame i hi], (sub_lt_sub_iff ?_).2 ⟨hlt, hle⟩⟩
    exact UInt32.lt_of_lt_of_le hlt hle
  · rintro ⟨k, hsame, hlt⟩
    have hsame' : ∀ i < k, b.t i = c.t i := fun i hi => (UInt32.sub_left_inj _).1 (hsame i hi).symm
    -- the differences first differ where the keys do
    obtain rfl : k = k0 := by
      obtain hk | hk | hk := lt_trichotomy k k0
      · rw [hsame0 k hk] at hlt
        exact absurd hlt (UInt32.lt_irrefl _)
      · exact hk
      · rw [hsame' k0 hk] at hlt0
        exact absurd hlt0 (UInt32.lt_irrefl _)
    exact ⟨k, hsame', (sub_lt_sub_iff hlt0).1 hlt⟩

lemma beyond_iff : Beyond a b ↔ value half < value (sub b a) := by
  simp only [Beyond, value_lt_iff, half, sub, eq_comm]

lemma exceeds_iff : Exceeds a b c ↔ 2 ^ 256 - 1 - value (sub c a) < value (sub b a) := by
  rw [← value_max_sub, value_lt_iff]
  rfl

lemma le_of_value_lt (h : value a < value b) : (a.t 0).toNat ≤ (b.t 0).toNat := by
  obtain ⟨k, hsame, hlt⟩ := (value_lt_iff a b).1 h
  obtain rfl | hk := eq_or_ne k 0
  · exact (UInt32.lt_iff_toNat_lt.1 hlt).le
  · rw [hsame 0 (Fin.pos_of_ne_zero hk)]

lemma exceeds_of_beyond (hab : value a < value b) (hbc : value b < value c)
    (h : Beyond a b) : Exceeds a b c := by
  have ha := le_of_value_lt hab
  have hb := le_of_value_lt hbc
  have hword : 0x80000000 ≤ b.t 0 - a.t 0 := by
    obtain ⟨k, hsame, hlt⟩ := h
    obtain rfl | hk := eq_or_ne k 0
    · exact UInt32.le_of_lt hlt
    · rw [hsame 0 (Fin.pos_of_ne_zero hk)]
      exact UInt32.le_refl _
  refine ⟨0, fun i hi => absurd hi (Fin.not_lt_zero i), ?_⟩
  have hlt := (b.t 0).toNat_lt
  have hlt' := (c.t 0).toNat_lt
  simp only [UInt32.le_iff_toNat_le, UInt32.lt_iff_toNat_lt, UInt32.toNat_sub,
    UInt32.reduceToNat] at hword ⊢
  omega

end

/-- The laws of a distance hold of three keys exactly if the first two do not differ by the largest
key in every word, and neither a borrow nor the fold at the half turns the order of the others. -/
theorem distance_laws_iff (a b c : Dhkey) :
    (distance a b = distance b a ∧ (distance a b = zero ↔ a = b) ∧
      (value a < value b → value b < value c → value c < value a + 2 ^ 255 →
        value (distance a b) ≤ value (distance a c))) ↔
    wordDiff a b ≠ max ∧
      (value a < value b → value b < value c → value c < value a + 2 ^ 255 →
        (¬ Beyond a c → BorrowsFirst a b c → Beyond a b) ∧
        (Beyond a c → Beyond a b → BorrowsFirst a b c) ∧
        (Beyond a c → Exceeds a b c → Beyond a b)) := by
  have hcomm : distance a b = distance b a := by
    apply value_injective
    rw [value_distance, value_distance, wordDiff_comm]
  have hzero : (distance a b = zero ↔ a = b) ↔ wordDiff a b ≠ max := by
    rw [distance_eq_zero_iff]
    constructor
    · rintro h hmax
      obtain rfl := h.1 (.inr hmax)
      have hsame : wordDiff a a = zero := by
        rw [wordDiff, if_neg (Nat.lt_irrefl _), sub_eq_zero_iff]
      exact absurd (hsame.symm.trans hmax) (by decide)
    · exact or_iff_left
  rw [and_iff_right hcomm, hzero]
  refine and_congr_right fun _ => forall₃_congr fun hab hbc _ => ?_
  have hne : value (sub b a) ≠ value (sub c a) := by
    intro heq
    have hkeys : b = c := by
      have hwords := congrArg t (value_injective heq)
      exact congrArg mk (funext fun i => (UInt32.sub_left_inj _).1 (congrFun hwords i))
    exact hbc.ne (congrArg value hkeys)
  have hexc := exceeds_of_beyond (c := c) hab hbc
  have hlt := value_lt (sub b a)
  have hlt' := value_lt (sub c a)
  rw [value_distance, value_distance, wordDiff, wordDiff, if_neg hab.not_gt,
    if_neg (hab.trans hbc).not_gt, borrowsFirst_iff hbc]
  rw [beyond_iff, exceeds_iff] at hexc
  rw [beyond_iff, beyond_iff, exceeds_iff]
  simp only [folded]
  split_ifs <;> omega

theorem distance_laws_fail : distance max zero = zero ∧ max ≠ zero ∧
    let a := sub max (ofWord 0xffffffff)
    let b := ofWord 1
    let c := sub max (ofWord 0xfffffffe)
    value a < value b ∧ value b < value c ∧ value c < value a + 2 ^ 255 ∧
      value (distance a c) < value (distance a b) := by
  decide +kernel

end Neuropil.Dhkey.Ring
