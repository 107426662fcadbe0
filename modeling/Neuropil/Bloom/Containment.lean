import Mathlib.Algebra.Order.BigOperators.Group.List
import Neuropil.Bloom.Filter
import Neuropil.Lib.Fault

namespace Neuropil.Bloom.Containment

open List Bloom.Filter Lib.Fault

def bothCounted (a b : Cell) : Cell :=
  ⟨a.age, if a.count > 0 ∧ b.count > 0 then a.count + b.count else 0⟩

def intersectIgnoreAge (result to_intersect : NeuropilBloom) : Except FilterFault NeuropilBloom :=
  if to_intersect.free_items + result.free_items ≥ 64 then
    .ok ⟨0, fun c => bothCounted (result.bitset c) (to_intersect.bitset c)⟩
  else .error .abort

def cmp (a b : NeuropilBloom) : Int :=
  if (finRange 1020).any (fun c =>
      decide ((a.bitset c).count = 0 ∧ (b.bitset c).count > 0) ||
        decide ((b.bitset c).count = 0 ∧ (a.bitset c).count > 0)) then -1
  else 0

def addAll (bloom : NeuropilBloom) (ids : List Dhkey) : Except FilterFault NeuropilBloom :=
  ids.foldlM add bloom

def hits (ids : List Dhkey) (c : Fin 1020) : ℕ :=
  (ids.map fun id => (finRange 8).countP (fun k => cellOf id k = c)).sum

structure Holds (bloom : NeuropilBloom) (ids : List Dhkey) : Prop where
  free_eq : bloom.free_items + ids.length = 64
  count_eq : ∀ c, (bloom.bitset c).count.toNat = hits ids c

/-- Every position of the key is a position of one of the keys in the list. -/
def Covered (ids : List Dhkey) (id : Dhkey) : Prop :=
  ∀ k, ∃ other ∈ ids, ∃ j, cellOf other j = cellOf id k

variable {bloom policy attributes : NeuropilBloom} {ids : List Dhkey} {id : Dhkey} {c : Fin 1020}

lemma countP_cellOf_le (id : Dhkey) (c : Fin 1020) :
    (finRange 8).countP (fun k => cellOf id k = c) ≤ 2 := by
  have hb : ∀ k : Fin 8, cellOf id k = c → k.val / 2 = c.val / 255 := by
    rintro k rfl
    simp only [cellOf]
    have h3 : (id.t k).toNat % 3 + 1 ≤ 3 := by omega
    have h5 : (id.t k).toNat % 5 + 1 ≤ 5 := by omega
    have h17 : (id.t k).toNat % 17 + 1 ≤ 17 := by omega
    have hle := Nat.mul_le_mul (Nat.mul_le_mul h3 h5) h17
    omega
  have htwo : ∀ q < 4, (finRange 8).countP (fun k => k.val / 2 = q) ≤ 2 := by decide
  refine (countP_mono_left fun k _ hk => ?_).trans (htwo (c.val / 255) (by omega))
  simpa using hb k (by simpa using hk)

lemma hits_cons (id : Dhkey) (ids : List Dhkey) (c : Fin 1020) :
    hits (id :: ids) c = (finRange 8).countP (fun k => cellOf id k = c) + hits ids c := by
  simp [hits]

lemma hits_le (ids : List Dhkey) (c : Fin 1020) : hits ids c ≤ 2 * ids.length := by
  induction ids with
  | nil => simp [hits]
  | cons id ids ih =>
    have hle := countP_cellOf_le id c
    rw [hits_cons, length_cons]
    omega

lemma hits_append (ids others : List Dhkey) (c : Fin 1020) :
    hits (ids ++ others) c = hits ids c + hits others c := by
  simp [hits]

lemma hits_singleton (id : Dhkey) (c : Fin 1020) :
    hits [id] c = (finRange 8).countP (fun k => cellOf id k = c) := by
  simp [hits]

lemma hits_pos_iff : 0 < hits ids c ↔ ∃ id ∈ ids, ∃ k, cellOf id k = c := by
  induction ids with
  | nil => simp [hits]
  | cons id ids ih =>
    rw [hits_cons, Nat.add_pos_iff_pos_or_pos, ih, countP_pos_iff]
    simp

lemma holds_create : Holds create [] := ⟨rfl, fun _ => rfl⟩

lemma Holds.add_one (h : Holds bloom ids) (hlen : ids.length < 64) (id : Dhkey) :
    ∃ bloom', add bloom id = .ok bloom' ∧ Holds bloom' (ids ++ [id]) := by
  have hfree := h.free_eq
  refine ⟨_, if_neg (by omega), ?_, fun c => ?_⟩
  · rw [length_append, length_singleton]
    simp only
    omega
  · have hle := hits_le ids c
    have htwo := countP_cellOf_le id c
    rw [addCells_count, h.count_eq, hits_append, hits_singleton, Nat.mod_eq_of_lt (by omega)]

lemma Holds.add_full (h : Holds bloom ids) (hlen : ids.length = 64) (id : Dhkey) :
    add bloom id = .error .abort := by
  have hfree := h.free_eq
  exact if_pos (by omega)

lemma Holds.add_all (h : Holds bloom ids) (others : List Dhkey)
    (hlen : (ids ++ others).length ≤ 64) :
    ∃ bloom', addAll bloom others = .ok bloom' ∧ Holds bloom' (ids ++ others) := by
  induction others generalizing bloom ids with
  | nil => exact ⟨bloom, rfl, by rwa [append_nil]⟩
  | cons id others ih =>
    simp only [length_append, length_cons] at hlen
    obtain ⟨bloom1, hadd, h1⟩ := h.add_one (by omega) id
    obtain ⟨bloom2, hall, h2⟩ := ih h1 (by simp; omega)
    refine ⟨bloom2, ?_, by simpa using h2⟩
    rw [addAll, foldlM_cons, hadd, ok_bind]
    exact hall

lemma addAll_append (bloom : NeuropilBloom) (ids others : List Dhkey) :
    addAll bloom (ids ++ others) = addAll bloom ids >>= fun bloom => addAll bloom others :=
  foldlM_append

lemma foldlM_addAll {α : Type} (keys : α → List Dhkey) (items : List α) (bloom : NeuropilBloom) :
    items.foldlM (fun bloom a => addAll bloom (keys a)) bloom =
      addAll bloom (items.flatMap keys) := by
  induction items generalizing bloom with
  | nil => rfl
  | cons a items ih =>
    rw [foldlM_cons, flatMap_cons, addAll_append]
    exact bind_congr fun bloom => ih bloom

lemma Holds.length_le (h : Holds bloom ids) : ids.length ≤ 64 := by
  have hfree := h.free_eq
  omega

lemma Holds.add_all_full (h : Holds bloom ids) (others : List Dhkey)
    (hlen : 64 < (ids ++ others).length) : addAll bloom others = .error .abort := by
  induction others generalizing bloom ids with
  | nil =>
    have hle := h.length_le
    rw [append_nil] at hlen
    omega
  | cons id others ih =>
    rw [addAll, foldlM_cons]
    obtain hlt | heq := h.length_le.lt_or_eq
    · obtain ⟨bloom1, hadd, h1⟩ := h.add_one hlt id
      rw [hadd, ok_bind]
      exact ih h1 (by simpa using hlen)
    · rw [h.add_full heq]
      rfl

lemma Holds.count_eq_zero_iff (h : Holds bloom ids) (c : Fin 1020) :
    (bloom.bitset c).count = 0 ↔ ¬ ∃ id ∈ ids, ∃ k, cellOf id k = c := by
  rw [← hits_pos_iff, ← h.count_eq, ← UInt8.toNat_inj, UInt8.toNat_zero]
  omega

lemma cmp_eq_zero_iff (a b : NeuropilBloom) :
    cmp a b = 0 ↔ ∀ c, (a.bitset c).count = 0 ↔ (b.bitset c).count = 0 := by
  have hcell : ∀ x y : UInt8, (x = 0 ∧ y > 0 ∨ y = 0 ∧ x > 0) ↔ ¬ (x = 0 ↔ y = 0) := by
    simp only [gt_iff_lt, UInt8.pos_iff_ne_zero]
    tauto
  rw [cmp]
  split
  · next h =>
    simp only [any_eq_true, mem_finRange, true_and, Bool.or_eq_true, decide_eq_true_eq, hcell] at h
    simpa using h
  · next h =>
    simp only [any_eq_true, mem_finRange, true_and, Bool.or_eq_true, decide_eq_true_eq, hcell] at h
    simpa using h

lemma cmp_create_iff (h : Holds bloom ids) : cmp create bloom = 0 ↔ ids = [] := by
  rw [cmp_eq_zero_iff]
  constructor
  · intro hzero
    cases ids with
    | nil => rfl
    | cons id ids =>
      have hcount := (hzero (cellOf id 0)).1 rfl
      rw [h.count_eq_zero_iff] at hcount
      exact absurd ⟨id, mem_cons_self, 0, rfl⟩ hcount
  · rintro rfl c
    rw [h.count_eq_zero_iff]
    simp [create]

lemma bothCounted_count {a b : Cell} (h : a.count.toNat + b.count.toNat < 256) :
    (bothCounted a b).count = 0 ↔ a.count = 0 ∨ b.count = 0 := by
  simp only [bothCounted, gt_iff_lt, UInt8.pos_iff_ne_zero]
  split_ifs with hb
  · have hsum : (a.count + b.count).toNat = a.count.toNat + b.count.toNat := by
      rw [UInt8.toNat_add, Nat.mod_eq_of_lt h]
    have hpos : a.count.toNat ≠ 0 := fun h0 => hb.1 (UInt8.toNat_inj.1 h0)
    have hsum0 : a.count.toNat + b.count.toNat ≠ 0 := by omega
    rw [← UInt8.toNat_inj, hsum, UInt8.toNat_zero]
    tauto
  · tauto

lemma cmp_intersect_iff {required provided : List Dhkey} (hpol : Holds policy required)
    (ha : Holds attributes provided) (hlen : required.length + provided.length ≤ 64) :
    ∃ result, intersectIgnoreAge policy attributes = .ok result ∧
      (cmp policy result = 0 ↔ ∀ id ∈ required, Covered provided id) := by
  have hfree := hpol.free_eq
  have hf' := ha.free_eq
  refine ⟨_, if_pos (by omega), ?_⟩
  have hcount : ∀ c, (bothCounted (policy.bitset c) (attributes.bitset c)).count = 0 ↔
      (policy.bitset c).count = 0 ∨ (attributes.bitset c).count = 0 := by
    intro c
    have hle := hits_le required c
    have hle' := hits_le provided c
    refine bothCounted_count ?_
    rw [hpol.count_eq, ha.count_eq]
    omega
  simp only [cmp_eq_zero_iff, hcount, hpol.count_eq_zero_iff, ha.count_eq_zero_iff]
  constructor
  · intro hzero id hid k
    by_contra hnone
    exact (hzero (cellOf id k)).2 (.inr hnone) ⟨id, hid, k, rfl⟩
  · intro hcov c
    refine ⟨.inl, ?_⟩
    rintro (hnone | hnone)
    · exact hnone
    · rintro ⟨id, hid, k, rfl⟩
      exact hnone (hcov id hid k)

lemma intersect_full {required provided : List Dhkey} (hpol : Holds policy required)
    (ha : Holds attributes provided) (hlen : 64 < required.length + provided.length) :
    intersectIgnoreAge policy attributes = .error .abort := by
  have hfree := hpol.free_eq
  have hf' := ha.free_eq
  exact if_neg (by omega)

end Neuropil.Bloom.Containment
