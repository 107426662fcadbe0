import Neuropil.Lib.Buffer

namespace Neuropil.Util.Minhash

open Function List Lib.Buffer

/-- The values `_minimums` of a minhash, minima in the lower half and maxima in the upper. -/
abbrev Signature := ℕ → ℕ

def keepAt (better : ℕ → ℕ → Prop) [DecidableRel better] (m : Signature) (i value : ℕ) :
    Signature :=
  if better value (m i) then update m i value else m

variable (siphash : Bool → Bytes → UInt64) (half : ℕ)

def init : Signature := fun i => if i < half then 0xffffffff else 0

/-- The hash of a byte string for one position, from its hashes with both halves of the seed. The
length is a uint16_t. -/
def hashAt (bytes : Bytes) (i : ℕ) : ℕ :=
  let pushed := bytes.take (bytes.length % 2 ^ 16)
  ((siphash false pushed + i.toUInt64 * siphash true pushed) &&& 0xffffffff).toNat

def pushMulti (m : Signature) (bytes : Bytes) : Signature :=
  (range half).foldl (fun m i =>
    let hash := hashAt siphash bytes i
    keepAt (· > ·) (keepAt (· < ·) m i hash) (i + half) hash) m

def merge (m m' : Signature) : Signature :=
  let lower := (range half).foldl (fun m i => keepAt (· < ·) m i (m' i)) m
  (range' (half + 1) (2 * half - (half + 1))).foldl (fun m i => keepAt (· > ·) m i (m' i)) lower

def signature (pushes : List Bytes) : Signature := pushes.foldl (pushMulti siphash half) (init half)

section

variable {siphash half} {m m' : Signature} {i k value c : ℕ} {bytes : Bytes}
  {pushes : List Bytes}

lemma keepAt_eq {better : ℕ → ℕ → Prop} [DecidableRel better] :
    keepAt better m i value k = if k = i ∧ better value (m k) then value else m k := by
  rw [keepAt]
  by_cases hk : k = i
  · subst hk
    by_cases hb : better value (m k)
    · rw [if_pos hb, if_pos ⟨rfl, hb⟩, update_self]
    · rw [if_neg hb, if_neg fun h => hb h.2]
  · rw [if_neg (fun h => hk h.1 : ¬ (k = i ∧ _))]
    split_ifs
    · exact update_of_ne hk _ _
    · rfl

lemma pushed_eq (hash : ℕ → ℕ) (hk : k < half) (l : List ℕ) (hl : ∀ i ∈ l, i < half)
    (m : Signature) :
    let pushed := l.foldl (fun m i =>
      keepAt (· > ·) (keepAt (· < ·) m i (hash i)) (i + half) (hash i)) m
    pushed k = (if k ∈ l then min (m k) (hash k) else m k) ∧
      pushed (k + half) = if k ∈ l then max (m (k + half)) (hash k) else m (k + half) := by
  induction l generalizing m with
  | nil => exact ⟨rfl, rfl⟩
  | cons i l ih =>
    obtain ⟨hi, hl⟩ := forall_mem_cons.1 hl
    have hlow : keepAt (· > ·) (keepAt (· < ·) m i (hash i)) (i + half) (hash i) k =
        if k = i then min (m k) (hash k) else m k := by
      rw [keepAt_eq, keepAt_eq, if_neg (by omega)]
      split_ifs <;> subst_vars <;> omega
    have hh : keepAt (· > ·) (keepAt (· < ·) m i (hash i)) (i + half) (hash i) (k + half) =
        if k = i then max (m (k + half)) (hash k) else m (k + half) := by
      rw [keepAt_eq, keepAt_eq, if_neg (by omega : ¬ (k + half = i ∧ hash i < m (k + half)))]
      split_ifs <;> subst_vars <;> omega
    obtain ⟨ihlow, ihhigh⟩ :=
      ih hl (keepAt (· > ·) (keepAt (· < ·) m i (hash i)) (i + half) (hash i))
    rw [foldl_cons]
    dsimp only
    rw [ihlow, ihhigh, hlow, hh]
    by_cases hki : k = i <;> by_cases hkl : k ∈ l <;> simp [hki, hkl]

lemma pushMulti_low (hk : k < half) : pushMulti siphash half m bytes k =
    min (m k) (hashAt siphash bytes k) := by
  have h := (pushed_eq (hashAt siphash bytes) hk _ (fun i => mem_range.1) m).1
  rwa [if_pos (mem_range.2 hk)] at h

lemma pushMulti_high (hk : k < half) : pushMulti siphash half m bytes (k + half) =
    max (m (k + half)) (hashAt siphash bytes k) := by
  have h := (pushed_eq (hashAt siphash bytes) hk _ (fun i => mem_range.1) m).2
  rwa [if_pos (mem_range.2 hk)] at h

lemma le_signature (hk : k < half) : c ≤ signature siphash half pushes k ↔
      c ≤ 0xffffffff ∧ ∀ bytes ∈ pushes, c ≤ hashAt siphash bytes k := by
  have hall : ∀ m : Signature, c ≤ pushes.foldl (pushMulti siphash half) m k ↔
      c ≤ m k ∧ ∀ bytes ∈ pushes, c ≤ hashAt siphash bytes k := by
    induction pushes with
    | nil => simp
    | cons bytes pushes ih =>
      intro m
      rw [foldl_cons, ih, pushMulti_low hk, le_min_iff, forall_mem_cons, and_assoc]
  rw [signature, hall, init, if_pos hk]

lemma signature_le (hk : k < half) : signature siphash half pushes (k + half) ≤ c ↔
      ∀ bytes ∈ pushes, hashAt siphash bytes k ≤ c := by
  have hall : ∀ m : Signature, pushes.foldl (pushMulti siphash half) m (k + half) ≤ c ↔
      m (k + half) ≤ c ∧ ∀ bytes ∈ pushes, hashAt siphash bytes k ≤ c := by
    induction pushes with
    | nil => simp
    | cons bytes pushes ih =>
      intro m
      rw [foldl_cons, ih, pushMulti_high hk, max_le_iff, forall_mem_cons, and_assoc]
  rw [signature, hall, init, if_neg (by omega)]
  simp

lemma foldl_keepAt (better : ℕ → ℕ → Prop) [DecidableRel better] (hirr : ∀ a, ¬ better a a)
    (l : List ℕ) (m : Signature) : l.foldl (fun m i => keepAt better m i (m' i)) m k =
      if k ∈ l ∧ better (m' k) (m k) then m' k else m k := by
  induction l generalizing m with
  | nil => simp
  | cons i l ih =>
    rw [foldl_cons, ih, keepAt_eq]
    by_cases hi : k = i
    · subst hi
      by_cases hb : better (m' k) (m k) <;> simp [hb, hirr]
    · simp [hi]

lemma merge_eq (m m' : Signature) (hk : k < 2 * half) : merge half m m' k =
    if k < half then min (m k) (m' k) else if k = half then m k else max (m k) (m' k) := by
  rw [merge, foldl_keepAt (· > ·) lt_irrefl, foldl_keepAt (· < ·) lt_irrefl]
  simp only [mem_range'_1, mem_range]
  split_ifs <;> omega

variable {xs ys : List Bytes}

lemma signature_congr (h : ∀ x, x ∈ xs ↔ x ∈ ys) {k : ℕ} (hk : k < 2 * half) :
    signature siphash half xs k = signature siphash half ys k := by
  by_cases hlow : k < half
  · refine eq_of_forall_le_iff fun c => ?_
    rw [le_signature hlow, le_signature hlow]
    simp only [h]
  · obtain ⟨j, rfl⟩ := Nat.exists_eq_add_of_le' (not_lt.1 hlow)
    have hj : j < half := by omega
    refine eq_of_forall_ge_iff fun c => ?_
    rw [signature_le hj, signature_le hj]
    simp only [h]

lemma signature_append {k : ℕ} (hk : k < 2 * half) : signature siphash half (xs ++ ys) k =
      if k < half then min (signature siphash half xs k) (signature siphash half ys k)
      else max (signature siphash half xs k) (signature siphash half ys k) := by
  split_ifs with hlow
  · refine eq_of_forall_le_iff fun c => ?_
    rw [le_min_iff, le_signature hlow, le_signature hlow, le_signature hlow, forall_mem_append]
    tauto
  · obtain ⟨j, rfl⟩ := Nat.exists_eq_add_of_le' (not_lt.1 hlow)
    have hj : j < half := by omega
    refine eq_of_forall_ge_iff fun c => ?_
    rw [max_le_iff, signature_le hj, signature_le hj, signature_le hj, forall_mem_append]

end

/-- The signature of a set does not depend on the order and repetition of its pushes. The merge is
the signature of the union exactly if the middle value, which it leaves out, need not change. -/
theorem signature_laws (xs ys : List Bytes) :
    ((∀ x, x ∈ xs ↔ x ∈ ys) → ∀ k < 2 * half,
      signature siphash half xs k = signature siphash half ys k) ∧
    ((∀ k < 2 * half, merge half (signature siphash half xs)
        (signature siphash half ys) k = signature siphash half (xs ++ ys) k) ↔
      half = 0 ∨ signature siphash half ys half ≤ signature siphash half xs half) := by
  refine ⟨fun h k hk => signature_congr h hk, fun h => ?_, fun h k hk => ?_⟩
  · by_cases hh : half = 0
    · exact .inl hh
    · have hmid := h half (by omega)
      rw [merge_eq _ _ (by omega), signature_append (by omega), if_neg (lt_irrefl _), if_pos rfl,
        if_neg (lt_irrefl _)] at hmid
      exact .inr (max_eq_left_iff.1 hmid.symm)
  · rw [merge_eq _ _ hk, signature_append hk]
    split_ifs with hlow hmid
    · rfl
    · subst hmid
      obtain rfl | hle := h
      · omega
      · rw [max_eq_left hle]
    · rfl

/-- A string of the hash 1 is merged into the empty set, at the size 2. -/
theorem middle_not_merged :
    ¬ ∀ k < 2 * 1, merge 1 (signature (fun second _ => if second then 0 else 1) 1 [])
      (signature (fun second _ => if second then 0 else 1) 1 [[97]]) k =
        signature (fun second _ => if second then 0 else 1) 1 ([] ++ [[97]]) k := by
  decide

end Neuropil.Util.Minhash
