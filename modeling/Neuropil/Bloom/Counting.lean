import Neuropil.Bloom.Filter

namespace Neuropil.Bloom.Counting

open Function List Bloom.Filter

/-- A counting filter with one byte per position, and one bit less per count when it is cleared
(`_d` is 8, `_p` is 1). -/
structure CountingBloom where
  free_items : UInt16
  bitset : ℕ → UInt8

variable (size : ℕ)

def capacity : UInt16 := UInt16.ofNat ((size * 8) >>> 4)

def create : CountingBloom := ⟨capacity size, fun _ => 0⟩

def localPos (bitArrayPos : ℕ) : ℕ := (bitArrayPos * 8 % 2 ^ 32) >>> 3

def position (id : Dhkey) (k : Fin 8) : ℕ := localPos ((id.t k).toNat % size)

def positions (id : Dhkey) : List ℕ := (finRange 8).map (position size id)

def bump (bitset : ℕ → UInt8) (pos : ℕ) : ℕ → UInt8 := update bitset pos (bitset pos + 1)

def add (bloom : CountingBloom) (id : Dhkey) : Except FilterFault CountingBloom :=
  if bloom.free_items = 0 then .error .abort
  else .ok ⟨bloom.free_items - 1, (positions size id).foldl bump bloom.bitset⟩

def check (bloom : CountingBloom) (id : Dhkey) : Bool :=
  (finRange 8).all fun k =>
    let current := bloom.bitset (position size id k)
    !(current == 0 || current == 255)

/-- The positions of `_np_counting_bloom_check_r`, which takes the last bits of a word. -/
def maskedPosition (id : Dhkey) (k : Fin 8) : ℕ := localPos ((id.t k).toNat &&& (size - 1))

def checkFrom (bitset : ℕ → UInt8) (id : Dhkey) : (count : ℕ) → List (Fin 8) → ℕ
  | count, [] => count
  | count, k :: ks =>
    let current := bitset (maskedPosition size id k)
    if current = 0 ∨ current = 255 then count
    else checkFrom bitset id (if count < current.toNat then current.toNat else count) ks

def checkR (bloom : CountingBloom) (id : Dhkey) : ℕ := checkFrom size bloom.bitset id 0 (finRange 8)

def zeroedBlocks (bloom : CountingBloom) : ℕ := 1 + (range size).countP fun k => bloom.bitset k = 1

def itemCount (bloom : CountingBloom) : ℕ :=
  (range size).foldl (fun count k => max (bloom.bitset k >>> 1).toNat count) 0

def clearR (bloom : CountingBloom) : CountingBloom :=
  let free := bloom.free_items +
    UInt16.ofNat ((itemCount size bloom * zeroedBlocks size bloom) <<< 1)
  ⟨if free.toNat > (size * 8) >>> 4 then capacity size else free, fun k => bloom.bitset k >>> 1⟩

def share (id : Dhkey) (pos : ℕ) : ℕ := (positions size id).count pos

variable {size} {bloom : CountingBloom} {bitset : ℕ → UInt8} {id : Dhkey} {pos : ℕ}

lemma localPos_eq {n : ℕ} (h : n < 2 ^ 29) : localPos n = n := by
  rw [localPos, Nat.shiftRight_eq_div_pow]
  omega

lemma maskedPosition_eq (m : ℕ) (id : Dhkey) (k : Fin 8) :
    maskedPosition (2 ^ m) id k = position (2 ^ m) id k := by
  rw [maskedPosition, position, Nat.and_two_pow_sub_one_eq_mod]

lemma share_le (size : ℕ) (id : Dhkey) (pos : ℕ) : share size id pos ≤ 8 := by
  refine count_le_length.trans_eq ?_
  rw [positions, length_map, length_finRange]

lemma share_pos (size : ℕ) (id : Dhkey) (k : Fin 8) : 0 < share size id (position size id k) :=
  count_pos_iff.2 (mem_map.2 ⟨k, mem_finRange k, rfl⟩)

lemma share_eq_zero (h : ∀ k, position size id k ≠ pos) : share size id pos = 0 := by
  refine count_eq_zero.2 fun hmem => ?_
  obtain ⟨k, -, hk⟩ := mem_map.1 hmem
  exact h k hk

lemma toNat_foldl_bump (positions : List ℕ) (bitset : ℕ → UInt8) (pos : ℕ) :
    (positions.foldl bump bitset pos).toNat = ((bitset pos).toNat + positions.count pos) % 256 := by
  induction positions generalizing bitset with
  | nil =>
    have hlt := (bitset pos).toNat_lt
    simp only [foldl_nil, count_nil]
    omega
  | cons p positions ih =>
    rw [foldl_cons, ih, bump]
    by_cases hp : p = pos
    · subst hp
      rw [update_self, UInt8.toNat_add, count_cons_self, UInt8.toNat_one]
      omega
    · rw [update_of_ne (Ne.symm hp), count_cons_of_ne hp]

lemma add_of_free (size : ℕ) (h : bloom.free_items ≠ 0) (id : Dhkey) :
    ∃ bloom', add size bloom id = .ok bloom' ∧ bloom'.free_items = bloom.free_items - 1 ∧
      ∀ pos, (bloom'.bitset pos).toNat = ((bloom.bitset pos).toNat + share size id pos) % 256 :=
  ⟨_, if_neg h, rfl, fun pos => toNat_foldl_bump (positions size id) bloom.bitset pos⟩

lemma toNat_clearR (size : ℕ) (pos : ℕ) :
    ((clearR size bloom).bitset pos).toNat = (bloom.bitset pos).toNat / 2 :=
  Nat.shiftRight_eq_div_pow (bloom.bitset pos).toNat 1

lemma foldl_max_le_iff {f : ℕ → ℕ} {ks : List ℕ} {count most : ℕ} :
    ks.foldl (fun count k => max (f k) count) count ≤ most ↔
      count ≤ most ∧ ∀ k ∈ ks, f k ≤ most := by
  induction ks generalizing count with
  | nil => simp
  | cons k ks ih =>
    rw [foldl_cons, ih, max_le_iff, forall_mem_cons, and_comm (a := f k ≤ most), and_assoc]

lemma itemCount_le_iff {most : ℕ} :
    itemCount size bloom ≤ most ↔ ∀ k < size, (bloom.bitset k).toNat / 2 ≤ most := by
  have hhalf (k : ℕ) : (bloom.bitset k >>> 1).toNat = (bloom.bitset k).toNat / 2 :=
    toNat_clearR size k
  rw [itemCount, foldl_max_le_iff]
  simp only [hhalf, Nat.zero_le, true_and, mem_range]

lemma zeroedBlocks_le {used : List ℕ} (h : ∀ pos, pos ∉ used → bloom.bitset pos = 0) :
    zeroedBlocks size bloom ≤ 1 + used.length := by
  rw [zeroedBlocks, countP_eq_length_filter]
  have hsub : ((range size).filter fun k => decide (bloom.bitset k = 1)) ⊆ used := by
    intro pos hpos
    by_contra hout
    have hone := of_decide_eq_true (mem_filter.1 hpos).2
    rw [h pos hout] at hone
    exact absurd hone (by decide)
  exact Nat.add_le_add_left ((nodup_range.filter _).subperm hsub).length_le 1

lemma toNat_free_clearR (size : ℕ) (hcap : (size * 8) >>> 4 < 2 ^ 16)
    (h : bloom.free_items.toNat + itemCount size bloom * zeroedBlocks size bloom * 2 < 2 ^ 16) :
    (clearR size bloom).free_items.toNat = min ((size * 8) >>> 4)
      (bloom.free_items.toNat + itemCount size bloom * zeroedBlocks size bloom * 2) := by
  have hgiven : (UInt16.ofNat ((itemCount size bloom * zeroedBlocks size bloom) <<< 1)).toNat =
      itemCount size bloom * zeroedBlocks size bloom * 2 := by
    rw [Nat.shiftLeft_eq, pow_one, UInt16.toNat_ofNat_of_lt' (by rw [UInt16.size]; omega)]
  have hsum := UInt16.toNat_add bloom.free_items
    (UInt16.ofNat ((itemCount size bloom * zeroedBlocks size bloom) <<< 1))
  rw [hgiven, Nat.mod_eq_of_lt h] at hsum
  have hfull : (capacity size).toNat = (size * 8) >>> 4 :=
    UInt16.toNat_ofNat_of_lt' hcap
  simp only [clearR]
  split_ifs with hover
  · rw [hfull, min_eq_left (hsum ▸ hover).le]
  · rw [hsum, min_eq_right (hsum ▸ not_lt.1 hover)]

lemma checkFrom_le (size : ℕ) (bitset : ℕ → UInt8) (id : Dhkey) {count : ℕ} (hcount : count ≤ 254)
    (ks : List (Fin 8)) : checkFrom size bitset id count ks ≤ 254 := by
  induction ks generalizing count with
  | nil => exact hcount
  | cons k ks ih =>
    rw [checkFrom]
    split
    · exact hcount
    · next hne =>
      have hlt := (bitset (maskedPosition size id k)).toNat_lt
      have h255 : (bitset (maskedPosition size id k)).toNat ≠ 255 :=
        fun h => hne (.inr (UInt8.toNat_inj.1 h))
      refine ih ?_
      split_ifs <;> omega

lemma le_checkFrom_iff (m : ℕ) {ks : List (Fin 8)}
    (h : ∀ k ∈ ks, ¬ (bitset (position (2 ^ m) id k) = 0 ∨ bitset (position (2 ^ m) id k) = 255))
    (n count : ℕ) : n ≤ checkFrom (2 ^ m) bitset id count ks ↔
      n ≤ count ∨ ∃ k ∈ ks, n ≤ (bitset (position (2 ^ m) id k)).toNat := by
  induction ks generalizing count with
  | nil => simp [checkFrom]
  | cons k ks ih =>
    obtain ⟨hk, hks⟩ := forall_mem_cons.1 h
    rw [checkFrom]
    simp only [maskedPosition_eq]
    rw [if_neg hk, ih hks, exists_mem_cons_iff, ← or_assoc]
    apply or_congr_left
    split_ifs <;> omega

end Neuropil.Bloom.Counting
