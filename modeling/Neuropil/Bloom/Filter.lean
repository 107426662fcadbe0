import Mathlib.Algebra.Order.Ring.Rat
import Mathlib.Data.Nat.Cast.Order.Ring
import Neuropil.Dhkey.Order

namespace Neuropil.Bloom.Filter

open Function List

inductive FilterFault
  | abort
  | unionCapacity
  | outOfBounds
deriving DecidableEq, Repr

structure Cell where
  age : UInt8
  count : UInt8
deriving DecidableEq

structure NeuropilBloom where
  free_items : ℕ
  bitset : Fin 1020 → Cell

def create : NeuropilBloom := ⟨64, fun _ => ⟨0, 0⟩⟩

def cellOf (id : Dhkey) (k : Fin 8) : Fin 1020 :=
  let x := (id.t k).toNat
  ⟨k.val / 2 * 255 + ((x % 3 + 1) * (x % 5 + 1) * (x % 17 + 1) - 1), by
    have h3 : x % 3 + 1 ≤ 3 := by omega
    have h5 : x % 5 + 1 ≤ 5 := by omega
    have h17 : x % 17 + 1 ≤ 17 := by omega
    have h := Nat.mul_le_mul (Nat.mul_le_mul h3 h5) h17
    have hk := k.isLt
    omega⟩

def mark (c : Cell) : Cell := ⟨c.age ||| 128, c.count + 1⟩

def addCells (id : Dhkey) (bitset : Fin 1020 → Cell) : List (Fin 8) → Fin 1020 → Cell
  | [] => bitset
  | k :: ks => addCells id (update bitset (cellOf id k) (mark (bitset (cellOf id k)))) ks

variable (bloom : NeuropilBloom) (id : Dhkey)

def add : Except FilterFault NeuropilBloom :=
  if bloom.free_items = 0 then .error .abort
  else .ok ⟨bloom.free_items - 1, addCells id bloom.bitset (finRange 8)⟩

def check : Bool :=
  (finRange 8).all fun k =>
    (bloom.bitset (cellOf id k)).age != 0 && (bloom.bitset (cellOf id k)).count != 0

def ageDecrement : NeuropilBloom :=
  { bloom with bitset := fun c =>
      let cell := bloom.bitset c
      { cell with age := if cell.age > 8 then cell.age - 8 else 0 } }

def countDecrement : NeuropilBloom :=
  if bloom.free_items < 64 then
    ⟨bloom.free_items + 1, fun c =>
      let cell := bloom.bitset c
      ⟨cell.age, if cell.count > 0 then cell.count - 1 else cell.count⟩⟩
  else bloom

def heuristicFrom (bloom : NeuropilBloom) (id : Dhkey) (ret : ℚ) : List (Fin 8) → ℚ
  | [] => ret
  | k :: ks =>
    let cell := bloom.bitset (cellOf id k)
    if cell.count = 0 then 0
    else heuristicFrom bloom id
      (if ret < (cell.age.toNat : ℚ) / 256 then ret else (cell.age.toNat : ℚ) / 256) ks

def getHeuristic : ℚ := heuristicFrom bloom id 1 (finRange 8)

def common (result to_intersect : NeuropilBloom) (c : Fin 1020) : Bool :=
  decide ((result.bitset c).age > 0) && decide ((to_intersect.bitset c).age > 0)

/-- `_np_neuropil_bloom_intersect_test`: the same positions are in use, and the
first filter counts at least what the second one does. -/
def intersectTest (result to_intersect : NeuropilBloom) : Bool :=
  let weight (p : Fin 1020 → Bool) : UInt16 :=
    ((finRange 1020).map fun c =>
      if p c then (to_intersect.bitset c).count.toUInt16 else 0).foldl (· + ·) 0
  (finRange 1020).all (fun c =>
    decide ((result.bitset c).age > 0) == decide ((to_intersect.bitset c).age > 0)) &&
  decide (weight (common result to_intersect) =
    weight (fun c => common result to_intersect c &&
      decide ((result.bitset c).count ≥ (to_intersect.bitset c).count)))

/-- `_np_neuropil_bloom_intersect_age`: the smallest age at the positions the second filter uses,
and nothing if its counters sum up to a multiple of 256. -/
def intersectAge (result to_intersect : NeuropilBloom) : ℚ :=
  let used := (finRange 1020).filter fun c => decide ((to_intersect.bitset c).age > 0)
  if (used.map fun c => (to_intersect.bitset c).count).foldl (· + ·) 0 = 0 then 0
  else used.foldl (fun ret c =>
    if (result.bitset c).age > 0 then
      if ret < ((result.bitset c).age.toNat : ℚ) / 256 then ret
      else ((result.bitset c).age.toNat : ℚ) / 256
    else 0) 1

def unionCell (a b : Cell) : Cell :=
  ⟨if a.age.toNat + b.age.toNat ≥ 255 then 255 else a.age + b.age, a.count + b.count⟩

def union (result to_add : NeuropilBloom) : Except FilterFault NeuropilBloom :=
  if (64 - result.free_items) + (64 - to_add.free_items) ≤ 64 then
    .ok ⟨result.free_items + to_add.free_items - 64,
      fun c => unionCell (result.bitset c) (to_add.bitset c)⟩
  else .error .unionCapacity

lemma check_iff : check bloom id = true ↔ ∀ k, (bloom.bitset (cellOf id k)).age ≠ 0 ∧
      (bloom.bitset (cellOf id k)).count ≠ 0 := by
  simp [check]

variable {bloom}

lemma check_iff_count {id : Dhkey} (hage : ∀ k, (bloom.bitset (cellOf id k)).age ≠ 0) :
    check bloom id = true ↔ ∀ k, (bloom.bitset (cellOf id k)).count.toNat ≠ 0 := by
  rw [check_iff]
  apply forall_congr'
  intro k
  rw [and_iff_right (hage k), ne_eq, ← UInt8.toNat_inj, UInt8.toNat_zero]

lemma union_ok {a b : NeuropilBloom} (h : (64 - a.free_items) + (64 - b.free_items) ≤ 64) :
    union a b = .ok ⟨a.free_items + b.free_items - 64,
      fun c => unionCell (a.bitset c) (b.bitset c)⟩ :=
  if_pos h

lemma unionCell_zero (c : Cell) : unionCell ⟨0, 0⟩ c = c := by
  have hlt := c.age.toNat_lt
  simp only [unionCell, UInt8.zero_add]
  split_ifs with h
  · have hage : c.age = 255 := by
      apply UInt8.toNat.inj
      change c.age.toNat = 255
      simp only [UInt8.toNat_zero] at h
      omega
    rw [← hage]
  · rfl

lemma union_create (h : bloom.free_items ≤ 64) : union create bloom = .ok bloom := by
  have hfree : create.free_items = 64 := rfl
  rw [union_ok (by omega)]
  simp only [create, unionCell_zero, Nat.add_sub_cancel_left]

lemma unionCell_age_ne_zero {a b : Cell} (h : a.age ≠ 0 ∨ b.age ≠ 0) :
    (unionCell a b).age ≠ 0 := by
  simp only [unionCell]
  split_ifs with hs
  · decide
  · intro h0
    have hv := congrArg UInt8.toNat h0
    rw [UInt8.toNat_add, UInt8.toNat_zero, Nat.mod_eq_of_lt (by omega)] at hv
    simp only [ne_eq, ← UInt8.toNat_inj, UInt8.toNat_zero] at h
    omega

lemma unionCell_count (a b : Cell) :
    (unionCell a b).count.toNat = (a.count.toNat + b.count.toNat) % 256 := by
  rw [unionCell, UInt8.toNat_add]

lemma countDecrement_of_lt (h : bloom.free_items < 64) :
    (countDecrement bloom).free_items = bloom.free_items + 1 := by
  rw [countDecrement, if_pos h]

lemma countDecrement_count (h : bloom.free_items < 64) (c : Fin 1020) :
    ((countDecrement bloom).bitset c).count.toNat = (bloom.bitset c).count.toNat - 1 := by
  rw [countDecrement, if_pos h]
  simp only
  split_ifs with hc
  · rw [UInt8.toNat_sub_of_le _ _ hc]
    rfl
  · have h0 : (bloom.bitset c).count.toNat = 0 := by
      simpa [UInt8.lt_iff_toNat_lt] using hc
    omega

lemma mark_age_ne_zero (c : Cell) : (mark c).age ≠ 0 := by
  intro h
  have hle : 128 ≤ c.age.toNat ||| 128 := Nat.right_le_or
  have hv : c.age.toNat ||| 128 = 0 := (UInt8.toNat_or _ _).symm.trans (congrArg UInt8.toNat h)
  omega

lemma addCells_marked {P : Cell → Prop} (hmark : ∀ c, P (mark c)) {id : Dhkey} {c : Fin 1020}
    (ks : List (Fin 8)) (bitset : Fin 1020 → Cell)
    (h : P (bitset c) ∨ ∃ k ∈ ks, cellOf id k = c) : P (addCells id bitset ks c) := by
  induction ks generalizing bitset with
  | nil => simpa [addCells] using h
  | cons k ks ih =>
    apply ih
    by_cases hk : cellOf id k = c
    · subst hk
      refine .inl ?_
      rw [update_self]
      exact hmark _
    · obtain h | ⟨j, hj, hc⟩ := h
      · exact .inl (by rwa [update_of_ne (Ne.symm hk)])
      · obtain rfl | hj := mem_cons.mp hj
        · exact absurd hc hk
        · exact .inr ⟨j, hj, hc⟩

lemma addCells_count (id : Dhkey) (c : Fin 1020) (ks : List (Fin 8)) (bitset : Fin 1020 → Cell) :
    (addCells id bitset ks c).count.toNat =
      ((bitset c).count.toNat + ks.countP (fun k => cellOf id k = c)) % 256 := by
  induction ks generalizing bitset with
  | nil =>
    have hlt := (bitset c).count.toNat_lt
    simp only [addCells, countP_nil]
    omega
  | cons k ks ih =>
    rw [addCells, ih]
    by_cases hk : cellOf id k = c
    · subst hk
      rw [update_self, mark, UInt8.toNat_add, countP_cons_of_pos (by simp), UInt8.toNat_one]
      omega
    · rw [update_of_ne (Ne.symm hk), countP_cons_of_neg (by simpa using hk)]

def scent (id : Dhkey) : NeuropilBloom := ⟨63, addCells id create.bitset (finRange 8)⟩

section

variable (id : Dhkey)

lemma add_create : add create id = .ok (scent id) := rfl

lemma scent_age (k : Fin 8) : ((scent id).bitset (cellOf id k)).age ≠ 0 :=
  addCells_marked (P := fun c => c.age ≠ 0) mark_age_ne_zero _ _ (.inr ⟨k, mem_finRange k, rfl⟩)

lemma scent_count (k : Fin 8) : 0 < ((scent id).bitset (cellOf id k)).count.toNat := by
  have hpos : 0 < (finRange 8).countP (fun j => cellOf id j = cellOf id k) :=
    countP_pos_iff.mpr ⟨k, mem_finRange k, by simp⟩
  have hle : (finRange 8).countP (fun j => cellOf id j = cellOf id k) ≤ 8 :=
    countP_le_length.trans (length_finRange).le
  rw [scent, addCells_count]
  simp only [create, UInt8.toNat_zero]
  omega

lemma check_scent : check (scent id) id = true := by
  rw [check_iff_count (scent_age id)]
  intro k
  exact (scent_count id k).ne'

lemma check_create : check create id = false := rfl

end

lemma heuristicFrom_nonneg (bloom : NeuropilBloom) (id : Dhkey) {ret : ℚ} (h : 0 ≤ ret)
    (ks : List (Fin 8)) : 0 ≤ heuristicFrom bloom id ret ks := by
  induction ks generalizing ret with
  | nil => exact h
  | cons k ks ih =>
    simp only [heuristicFrom]
    split_ifs with hc hr
    · exact le_refl 0
    · exact ih h
    · exact ih (div_nonneg (Nat.cast_nonneg _) (by decide))

lemma getHeuristic_nonneg (bloom : NeuropilBloom) (id : Dhkey) : 0 ≤ getHeuristic bloom id :=
  heuristicFrom_nonneg bloom id zero_le_one _

lemma intersectTest_of_eq {a b : NeuropilBloom} (h : a.bitset = b.bitset) :
    intersectTest a b = true := by
  have hle : ∀ x : UInt8, decide (x ≥ x) = true := fun x => decide_eq_true (UInt8.le_refl x)
  simp only [intersectTest, common, h, hle, Bool.and_true, beq_self_eq_true, decide_true,
    all_eq_true, implies_true]

end Neuropil.Bloom.Filter
