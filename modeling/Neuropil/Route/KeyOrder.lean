import Mathlib.Data.Prod.Lex
import Neuropil.Route.Lookup

namespace Neuropil.Route.KeyOrder

open List Lib Route.Leafset Route.Lookup
open Dhkey (index)

/-- The order of `_np_keycache_sort_keys_cpm`. -/
def cpmRank (key k : Dhkey) : ℕᵒᵈ ×ₗ Dhkey :=
  toLex (OrderDual.toDual (index key k), Dhkey.distance k key)

lemma cpmSwap_iff (key a b : Dhkey) : cpmSwap key a b = true ↔ cpmRank key b < cpmRank key a := by
  rw [cpmRank, cpmRank, Prod.Lex.toLex_lt_toLex, OrderDual.toDual_lt_toDual, OrderDual.toDual_inj,
    @eq_comm _ (index key b)]
  simp only [cpmSwap, Bool.or_eq_true, Bool.and_eq_true, decide_eq_true_eq]
  rfl

lemma cpmRank_le_iff {key a b : Dhkey} : cpmRank key a ≤ cpmRank key b ↔
    index key b < index key a ∨ index key a = index key b ∧
      Dhkey.distance a key ≤ Dhkey.distance b key := by
  rw [cpmRank, cpmRank, Prod.Lex.toLex_le_toLex, OrderDual.toDual_lt_toDual, OrderDual.toDual_inj]

lemma exchangeFirst_le (key a : Dhkey) (ks : List Dhkey) :
    ∀ b ∈ a :: ks, cpmRank key (exchangeFirst key a ks).1 ≤ cpmRank key b := by
  induction ks generalizing a with
  | nil => simp [exchangeFirst]
  | cons c ks ih =>
    simp only [exchangeFirst, forall_mem_cons]
    split_ifs with hswap
    · obtain ⟨hc, hks⟩ := forall_mem_cons.mp (ih c)
      exact ⟨hc.trans ((cpmSwap_iff key a c).mp hswap).le, hc, hks⟩
    · obtain ⟨ha, hks⟩ := forall_mem_cons.mp (ih a)
      exact ⟨ha, ha.trans (not_lt.mp (mt (cpmSwap_iff key a c).mpr hswap)), hks⟩

lemma sortKeysCpm_pairwise (key : Dhkey) (ks : List Dhkey) :
    (sortKeysCpm key ks).Pairwise fun a b => cpmRank key a ≤ cpmRank key b := by
  induction ks using sortKeysCpm.induct key with
  | case1 => simp [sortKeysCpm]
  | case2 a ks ih =>
    rw [sortKeysCpm]
    refine pairwise_cons.mpr ⟨fun b hb => ?_, ih⟩
    have hmem : b ∈ (exchangeFirst key a ks).1 :: (exchangeFirst key a ks).2 :=
      mem_cons_of_mem _ ((sortKeysCpm_perm key _).mem_iff.mp hb)
    exact exchangeFirst_le key a ks b ((exchangeFirst_perm key a ks).mem_iff.mp hmem)

/-- Both functions end with the same keys, the first ordered by distance, the second by common
prefix, and by distance where this is equally long. -/
theorem keys_sorted (key : Dhkey) (keys : List Dhkey) :
    ((sortKeysKd key keys).Perm keys ∧
      (sortKeysKd key keys).Pairwise fun a b => Dhkey.distance a key ≤ Dhkey.distance b key) ∧
    (sortKeysCpm key keys).Perm keys ∧
      (sortKeysCpm key keys).Pairwise fun a b =>
        index key b < index key a ∨ index key a = index key b ∧
          Dhkey.distance a key ≤ Dhkey.distance b key := by
  refine ⟨⟨SwapSort.sort_perm _ keys, SwapSort.pairwise_sort _ keys⟩, sortKeysCpm_perm key keys, ?_⟩
  exact (sortKeysCpm_pairwise key keys).imp cpmRank_le_iff.mp

end Neuropil.Route.KeyOrder
