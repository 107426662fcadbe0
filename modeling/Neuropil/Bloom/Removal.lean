import Neuropil.Bloom.Bytes

namespace Neuropil.Bloom.Removal

open Function List Bloom.Filter Bloom.Containment Bloom.Bytes Lib.Fault
open Dhkey (ofWord)

def removeAt (bitset : List UInt8) (pos : ℕ) : Except FilterFault (List UInt8) := do
  let age ← loadByte bitset pos
  let bitset ← storeByte bitset pos (age >>> 1)
  let count ← loadByte bitset (pos + 1)
  storeByte bitset (pos + 1) (count - 1)

/-- `_np_neuropil_bloom_remove`. Like an addition it refuses a filter without free items. -/
def remove (bloom : ByteBloom) (id : Dhkey) : Except FilterFault ByteBloom :=
  if bloom.free_items = 0 then .error .abort
  else do
    let bitset ← (positions id).foldlM removeAt bloom.bitset
    return ⟨bloom.free_items + 1, bitset⟩

def addAll (bloom : ByteBloom) (ids : List Dhkey) : Except FilterFault ByteBloom :=
  ids.foldlM Bytes.add bloom

def unmark (c : Cell) : Cell := ⟨c.age >>> 1, c.count - 1⟩

def removeCells (id : Dhkey) (bitset : Fin 1020 → Cell) (ks : List (Fin 8)) : Fin 1020 → Cell :=
  ks.foldl (fun bitset k => update bitset (cellOf id k) (unmark (bitset (cellOf id k)))) bitset

def removed (bloom : NeuropilBloom) (id : Dhkey) : NeuropilBloom :=
  ⟨bloom.free_items + 1, removeCells id bloom.bitset (finRange 8)⟩

lemma removeAt_cell (bitset : Fin 1020 → Cell) (c : Fin 1020) :
    removeAt (bytesOf bitset) (2 * c.val) =
      .ok (bytesOf (update bitset c (unmark (bitset c)))) := by
  rw [removeAt, loadByte_age, ok_bind, storeByte_age, ok_bind, loadByte_count, ok_bind,
    storeByte_count, update_self, update_idem]
  rfl

variable {bloom : NeuropilBloom}

lemma remove_eq (h : bloom.free_items ≠ 0) (id : Dhkey) :
    remove (toBytes bloom) id = .ok (toBytes (removed bloom id)) := by
  have hfold := foldlM_map_eq bytesOf (fun k => 2 * (cellOf id k).val)
    (fun bitset k => removeAt_cell bitset (cellOf id k)) (finRange 8) bloom.bitset
  rw [← positions_eq] at hfold
  rw [remove, toBytes_free_items, if_neg h, toBytes_bitset, hfold]
  rfl

lemma remove_full (h : bloom.free_items = 0) (id : Dhkey) :
    remove (toBytes bloom) id = .error .abort := by
  rw [remove, toBytes_free_items, if_pos h]

section

variable (id : Dhkey) (c : Fin 1020)

lemma removeCells_apply (bitset : Fin 1020 → Cell) (ks : List (Fin 8)) :
    ((removeCells id bitset ks c).age.toNat =
      (bitset c).age.toNat / 2 ^ ks.countP (fun k => cellOf id k = c)) ∧
    (ks.countP (fun k => cellOf id k = c) ≤ (bitset c).count.toNat →
      (removeCells id bitset ks c).count.toNat =
        (bitset c).count.toNat - ks.countP (fun k => cellOf id k = c)) := by
  induction ks generalizing bitset with
  | nil => simp [removeCells]
  | cons k ks ih =>
    obtain ⟨hage, hcount⟩ := ih (update bitset (cellOf id k) (unmark (bitset (cellOf id k))))
    by_cases hk : cellOf id k = c
    · subst hk
      rw [update_self] at hage hcount
      rw [countP_cons_of_pos (by simp)]
      refine ⟨?_, fun hle => ?_⟩
      · refine hage.trans ?_
        have hh : (unmark (bitset (cellOf id k))).age.toNat =
            (bitset (cellOf id k)).age.toNat / 2 :=
          Nat.shiftRight_eq_div_pow _ 1
        rw [hh, Nat.div_div_eq_div_mul, Nat.pow_succ, Nat.mul_comm]
      · have hone : (unmark (bitset (cellOf id k))).count.toNat =
            (bitset (cellOf id k)).count.toNat - 1 :=
          UInt8.toNat_sub_of_le _ _ (UInt8.le_iff_toNat_le.2 (by simpa using by omega))
        refine (hcount (by omega)).trans ?_
        omega
    · rw [update_of_ne (Ne.symm hk)] at hage hcount
      rw [countP_cons_of_neg (by simpa using hk)]
      exact ⟨hage, hcount⟩

end

variable {ids : List Dhkey}

lemma hits_erase {b : Dhkey} (h : b ∈ ids) (c : Fin 1020) :
    hits ids c = (finRange 8).countP (fun k => cellOf b k = c) + hits (ids.erase b) c := by
  have hperm := (perm_cons_erase h).map fun id => (finRange 8).countP fun k => cellOf id k = c
  exact hperm.sum_eq

lemma check_removed {b id : Dhkey} (h : Remembers bloom ids) (hb : b ∈ ids)
    (hid : id ∈ ids.erase b) : Filter.check (removed bloom b) id = true := by
  rw [check_iff]
  intro k
  have hpos : 0 < hits (ids.erase b) (cellOf id k) := hits_pos_iff.2 ⟨id, hid, k, rfl⟩
  have hspl := hits_erase hb (cellOf id k)
  have htwo := countP_cellOf_le b (cellOf id k)
  have hy := h.young (cellOf id k) (by omega)
  have hcount := h.count_eq (cellOf id k)
  obtain ⟨hage, hleft⟩ := removeCells_apply b (cellOf id k) bloom.bitset (finRange 8)
  constructor
  · intro hzero
    have hpow : 2 ^ (finRange 8).countP (fun j => cellOf b j = cellOf id k) ≤ 2 ^ 2 :=
      Nat.pow_le_pow_right (by omega) htwo
    have hq : (bloom.bitset (cellOf id k)).age.toNat / 2 ^ 2 ≤ _ :=
      Nat.div_le_div_left hpow (Nat.two_pow_pos _)
    have hz' : (removeCells b bloom.bitset (finRange 8) (cellOf id k)).age.toNat = 0 :=
      congrArg UInt8.toNat hzero
    omega
  · intro hzero
    have hz' : (removeCells b bloom.bitset (finRange 8) (cellOf id k)).count.toNat = 0 :=
      congrArg UInt8.toNat hzero
    omega

lemma built_addAll {bloom : ByteBloom} (h : addAll create ids = .ok bloom) : Built bloom ids :=
  foldlM_kept (fun before bloom => Built bloom before) Built.create
    (fun _ _ _ _ hb hadd => hb.add hadd) h

/-- After one key of a list is removed, the others are still found exactly if the list has not used
up the filter. -/
theorem others_found_iff {ids : List Dhkey} {bloom : ByteBloom} (h : addAll create ids = .ok bloom)
    {b : Dhkey} (hb : b ∈ ids) :
    (∃ bloom', remove bloom b = .ok bloom' ∧ ∀ id ∈ ids.erase b, check bloom' id = .ok true) ↔
      ids.length < 64 := by
  obtain ⟨cells, rfl, hcells⟩ := (built_addAll h).remembers
  have hfree := hcells.free_eq
  constructor
  · rintro ⟨bloom', hrem, -⟩
    by_contra hfull
    rw [remove_full (by omega)] at hrem
    cases hrem
  · intro hlen
    refine ⟨_, remove_eq (by omega) b, fun id hid => ?_⟩
    rw [check_eq, check_removed hcells hb hid]

lemma exists_addAll (ids : List Dhkey) (h : ids.length ≤ 64) :
    ∃ bloom, addAll create ids = .ok (toBytes bloom) ∧ bloom.free_items + ids.length = 64 := by
  obtain ⟨bloom, hall, hh⟩ := holds_create.add_all ids (by simpa using h)
  refine ⟨bloom, ?_, hh.free_eq⟩
  rw [create_eq, addAll]
  have hmap : ∀ (ids : List Dhkey) (cells : NeuropilBloom),
      ids.foldlM Bytes.add (toBytes cells) = (Containment.addAll cells ids).map toBytes := by
    intro ids
    induction ids with
    | nil => exact fun cells => rfl
    | cons id ids ih =>
      intro cells
      rw [foldlM_cons, add_eq, Containment.addAll, foldlM_cons]
      cases Filter.add cells id with
      | error e => rfl
      | ok cells' => exact ih cells'
  rw [hmap, hall]
  rfl

theorem others_found_pair : ∃ bloom bloom',
    addAll create [ofWord 5, ofWord 6] = .ok bloom ∧
      remove bloom (ofWord 5) = .ok bloom' ∧ check bloom' (ofWord 6) = .ok true := by
  obtain ⟨bloom, hall, -⟩ := exists_addAll [ofWord 5, ofWord 6] (by decide)
  obtain ⟨bloom', hrem, hfnd⟩ := (others_found_iff hall (b := ofWord 5) (by simp)).2 (by decide)
  exact ⟨_, bloom', hall, hrem, hfnd _ (by simp)⟩

/-- With all items in use the removal ends the process. -/
theorem full_filter_not_removed : ∃ bloom,
    addAll create (replicate 64 (ofWord 5)) = .ok bloom ∧
      remove bloom (ofWord 5) = .error .abort := by
  obtain ⟨bloom, hall, hfree⟩ := exists_addAll (replicate 64 (ofWord 5)) (by simp)
  rw [length_replicate] at hfree
  exact ⟨_, hall, remove_full (by omega) _⟩

end Neuropil.Bloom.Removal
