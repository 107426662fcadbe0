import Mathlib.Algebra.BigOperators.Fin
import Mathlib.InformationTheory.Hamming
import Neuropil.Search.Tables

namespace Neuropil.Search.Hamming

open Finset Search.Tables

def bit (x : Dhkey) (p : Fin 8 × Fin 32) : Bool := (x.t p.1).toBitVec.getLsbD p.2

/-- The number of bits in which two keys differ, of which `hammingDistance` keeps eight bits. -/
def bitsApart (x y : Dhkey) : ℕ := hammingDist (bit x) (bit y)

lemma bit_injective : Function.Injective bit := by
  intro x y h
  apply congrArg Dhkey.mk
  funext i
  apply UInt32.toBitVec_inj.1
  apply BitVec.eq_of_getLsbD_eq
  intro j hj
  exact congrFun h (i, ⟨j, hj⟩)

lemma popcount_xor (a b : UInt32) : popcount (a ^^^ b) =
    ∑ j : Fin 32, if a.toBitVec.getLsbD j ≠ b.toBitVec.getLsbD j then 1 else 0 := by
  have hcount : ∀ p : Fin 32 → Bool, #{j | p j = true} = (List.finRange 32).countP p := by
    intro p
    change (Multiset.filter (p · = true) (List.finRange 32)).card = _
    rw [Multiset.filter_coe, Multiset.coe_card, List.countP_eq_length_filter]
    simp only [Bool.decide_eq_true]
  rw [popcount, ← List.map_coe_finRange_eq_range, List.countP_map, ← card_filter, ← hcount]
  simp

lemma bitsApart_eq_sum (x y : Dhkey) : bitsApart x y = ∑ k, popcount (x.t k ^^^ y.t k) := by
  simp only [popcount_xor]
  rw [bitsApart, hammingDist, card_filter, Fintype.sum_prod_type]
  rfl

lemma hammingDistance_toNat (x y : Dhkey) :
    (hammingDistance x y).toNat = bitsApart x y % 256 := by
  have hfold : ∀ (l : List (Fin 8)) (diff : UInt8),
      l.foldl (fun diff k => diff + UInt8.ofNat (popcount (x.t k ^^^ y.t k))) diff =
        diff + UInt8.ofNat (l.map fun k => popcount (x.t k ^^^ y.t k)).sum := by
    intro l
    induction l with
    | nil => simp
    | cons k l ih =>
      intro diff
      rw [List.foldl_cons, ih, List.map_cons, List.sum_cons, UInt8.ofNat_add, UInt8.add_assoc]
  rw [hammingDistance, hfold, bitsApart_eq_sum, UInt8.zero_add, ← List.ofFn_eq_map, List.sum_ofFn]
  exact UInt8.toNat_ofNat'

lemma card_bits : Fintype.card (Fin 8 × Fin 32) = 256 := by simp

lemma bitsApart_le (x y : Dhkey) : bitsApart x y ≤ 256 :=
  hammingDist_le_card_fintype.trans_eq card_bits

lemma bitsApart_eq_zero_iff (x y : Dhkey) : bitsApart x y = 0 ↔ x = y := by
  rw [bitsApart, hammingDist_eq_zero, bit_injective.eq_iff]

lemma bitsApart_add_of_opposite (x : Dhkey) {y z : Dhkey} (h : bitsApart y z = 256) :
    bitsApart x y + bitsApart x z = 256 := by
  have hall : ∀ p, bit y p ≠ bit z p := by
    have hcard : #{p | bit y p ≠ bit z p} = Fintype.card _ := h.trans card_bits.symm
    intro p
    have hp := mem_univ p
    rw [← (card_eq_iff_eq_univ _).1 hcard] at hp
    exact (mem_filter.1 hp).2
  have ho : ∀ p, bit x p ≠ bit z p ↔ ¬ bit x p ≠ bit y p := by
    intro p
    have hp := hall p
    revert hp
    cases bit x p <;> cases bit y p <;> cases bit z p <;> decide
  simp only [bitsApart, hammingDist, ho]
  exact (card_filter_add_card_filter_not _).trans card_bits

/-- The laws of a metric hold of the distances of three keys exactly if the first two do not differ
in all bits, and the last two do so only if the first two are equal or differ in half of the
bits. -/
theorem metric_laws_iff (x y z : Dhkey) :
    ((hammingDistance x y = 0 ↔ x = y) ∧ hammingDistance x y = hammingDistance y x ∧
      (hammingDistance x z).toNat ≤ (hammingDistance x y).toNat + (hammingDistance y z).toNat) ↔
    bitsApart x y ≠ 256 ∧ (bitsApart y z = 256 → bitsApart x y = 0 ∨ 128 ≤ bitsApart x y) := by
  have hxy := bitsApart_le x y
  have hyz := bitsApart_le y z
  have hzero := bitsApart_eq_zero_iff x y
  have htri : bitsApart x z ≤ bitsApart x y + bitsApart y z := hammingDist_triangle _ _ _
  have hcomm : bitsApart x y = bitsApart y x := hammingDist_comm _ _
  have ho := @bitsApart_add_of_opposite x y z
  rw [← UInt8.toNat_inj, ← UInt8.toNat_inj, hammingDistance_toNat, hammingDistance_toNat,
    hammingDistance_toNat, hammingDistance_toNat, UInt8.toNat_zero, ← hcomm, ← hzero]
  omega

theorem opposite_keys_not_apart : hammingDistance .zero .max = 0 ∧ Dhkey.zero ≠ .max := by
  decide +kernel

end Neuropil.Search.Hamming
