import Neuropil.Bloom.Counting
import Neuropil.Lib.Fault

namespace Neuropil.Bloom.Tally

open List Lib.Fault Bloom.Counting
open Bloom.Filter (FilterFault)

variable (size : ℕ)

def fill (ids : List Dhkey) : Except FilterFault CountingBloom :=
  ids.foldlM (add size) (create size)

def total (ids : List Dhkey) (pos : ℕ) : ℕ := (ids.map fun id => (positions size id).count pos).sum

/-- The counts of an id, which have eight bits, are neither the first nor the last. -/
def Readable (ids : List Dhkey) (id : Dhkey) : Prop :=
  ∀ k, total size ids (position size id k) % 256 ≠ 0 ∧
    total size ids (position size id k) % 256 ≠ 255

section

variable {size} {bloom : CountingBloom} {ids : List Dhkey}

lemma fill_ok (hcap : ids.length ≤ (capacity size).toNat) : ∃ bloom, fill size ids = .ok bloom ∧
      ∀ pos, (bloom.bitset pos).toNat = total size ids pos % 256 := by
  have hruns : ∃ bloom, fill size ids = .ok bloom ∧
      bloom.free_items.toNat = (capacity size).toNat - ids.length ∧
        ∀ pos, (bloom.bitset pos).toNat = total size ids pos % 256 := by
    refine foldlM_inv (fun before (b : CountingBloom) =>
      b.free_items.toNat = (capacity size).toNat - before.length ∧
        ∀ pos, (b.bitset pos).toNat = total size before pos % 256) ⟨rfl, fun _ => rfl⟩ ?_
    intro before b id hb ⟨hfree, hcells⟩
    have hlen := hb.length_le
    rw [length_append, length_singleton] at hlen
    have hne : b.free_items ≠ 0 := by
      intro hzero
      rw [hzero, UInt16.toNat_zero] at hfree
      omega
    refine ⟨_, if_neg hne, ?_, fun pos => ?_⟩
    · have hone : 1 ≤ b.free_items := by
        rw [UInt16.le_iff_toNat_le, UInt16.toNat_one]
        omega
      rw [UInt16.toNat_sub_of_le _ _ hone, hfree, UInt16.toNat_one, length_append, length_singleton]
      omega
    · have htot : total size (before ++ [id]) pos =
          total size before pos + (positions size id).count pos := by
        simp [total]
      rw [toNat_foldl_bump, hcells, htot]
      omega
  obtain ⟨bloom, hfill, -, hcells⟩ := hruns
  exact ⟨bloom, hfill, hcells⟩

lemma current_zero_or_last_iff {x : UInt8} {n : ℕ} (hx : x.toNat = n % 256) :
    x = 0 ∨ x = 255 ↔ n % 256 = 0 ∨ n % 256 = 255 := by
  rw [← hx, ← UInt8.toNat_inj, ← UInt8.toNat_inj]
  rfl

lemma check_iff (hcells : ∀ pos, (bloom.bitset pos).toNat = total size ids pos % 256)
    (id : Dhkey) : check size bloom id = true ↔ Readable size ids id := by
  rw [check, all_eq_true]
  constructor
  · intro h k
    have hk := h k (mem_finRange k)
    simp only [Bool.not_eq_true', Bool.or_eq_false_iff, beq_eq_false_iff_ne] at hk
    have hnot := (current_zero_or_last_iff (hcells (position size id k))).not.1 (not_or.2 hk)
    exact not_or.1 hnot
  · intro h k _
    have hnot := (current_zero_or_last_iff (hcells (position size id k))).not.2 (not_or.2 (h k))
    simpa [not_or] using hnot

/-- All added ids are found, as often as they were added, exactly if at the positions of each no
count wrapped to an unreadable one, and one is, modulo 256, at least the number of its additions. -/
theorem counts_right_iff (m : ℕ) (ids : List Dhkey)
    (hcap : ids.length ≤ (capacity (2 ^ m)).toNat) :
    (∃ bloom, fill (2 ^ m) ids = .ok bloom ∧ ∀ id ∈ ids, check (2 ^ m) bloom id = true ∧
        ids.count id ≤ checkR (2 ^ m) bloom id) ↔
      ∀ id ∈ ids, Readable (2 ^ m) ids id ∧
        ∃ k, ids.count id ≤ total (2 ^ m) ids (position (2 ^ m) id k) % 256 := by
  obtain ⟨bloom, hfill, hcells⟩ := fill_ok hcap
  have hread (id : Dhkey) (hid : id ∈ ids) (h : Readable (2 ^ m) ids id) :
      ids.count id ≤ checkR (2 ^ m) bloom id ↔
        ∃ k, ids.count id ≤ total (2 ^ m) ids (position (2 ^ m) id k) % 256 := by
    have hcount : ¬ ids.count id ≤ 0 := by
      have := count_pos_iff.2 hid
      omega
    have hcell (k : Fin 8) (_ : k ∈ finRange 8) :=
      (current_zero_or_last_iff (hcells (position (2 ^ m) id k))).not.2 (not_or.2 (h k))
    rw [checkR, le_checkFrom_iff m hcell]
    simp only [hcount, hcells, mem_finRange, true_and, false_or]
  constructor
  · rintro ⟨bloom', hf', h⟩ id hid
    obtain rfl : bloom = bloom' := Except.ok.inj (hfill.symm.trans hf')
    have hrd := (check_iff hcells id).1 (h id hid).1
    exact ⟨hrd, (hread id hid hrd).1 (h id hid).2⟩
  · intro h
    refine ⟨bloom, hfill, fun id hid => ?_⟩
    obtain ⟨hrd, hk⟩ := h id hid
    exact ⟨(check_iff hcells id).2 hrd, (hread id hid hrd).2 hk⟩

end

def spreadKey : Dhkey := ⟨fun k => UInt32.ofNat k.val⟩

theorem last_count_not_found :
    (replicate 255 spreadKey).length ≤ (capacity 512).toNat ∧
      ∃ bloom, fill 512 (replicate 255 spreadKey) = .ok bloom ∧
        check 512 bloom spreadKey = false := by
  have hcap : (replicate 255 spreadKey).length ≤ (capacity 512).toNat := by
    rw [length_replicate]
    decide
  obtain ⟨bloom, hfill, hcells⟩ := fill_ok hcap
  have htot : total 512 (replicate 255 spreadKey) (position 512 spreadKey 0) = 255 := by
    rw [total, map_replicate, sum_replicate]
    decide
  refine ⟨hcap, bloom, hfill, Bool.eq_false_iff.2 fun hchk => ?_⟩
  apply ((check_iff hcells spreadKey).1 hchk 0).2
  rw [htot]

theorem counts_right_twice :
    [spreadKey, spreadKey].length ≤ (capacity (2 ^ 4)).toNat ∧
      ∃ bloom, fill (2 ^ 4) [spreadKey, spreadKey] = .ok bloom ∧
        ∀ id ∈ [spreadKey, spreadKey], check (2 ^ 4) bloom id = true ∧
          [spreadKey, spreadKey].count id ≤ checkR (2 ^ 4) bloom id := by
  refine ⟨by decide, (counts_right_iff 4 [spreadKey, spreadKey] (by decide)).2 ?_⟩
  unfold Readable
  decide

end Neuropil.Bloom.Tally
