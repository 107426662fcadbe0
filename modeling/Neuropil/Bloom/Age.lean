import Neuropil.Bloom.Containment

namespace Neuropil.Bloom.Age

open List Bloom.Filter Bloom.Containment

section

variable (bloom : NeuropilBloom)

def Live (c : Fin 1020) : Prop := (bloom.bitset c).age ≠ 0 ∧ (bloom.bitset c).count ≠ 0

inductive Reached : NeuropilBloom → Prop
  | create : Reached create
  | add {bloom bloom' : NeuropilBloom} {id : Dhkey} (h : Reached bloom)
      (hadd : add bloom id = .ok bloom') : Reached bloom'
  | union {result to_add u : NeuropilBloom} (h : Reached result) (h' : Reached to_add)
      (hunion : union result to_add = .ok u) : Reached u
  | ageDecrement {bloom : NeuropilBloom} (h : Reached bloom) : Reached (ageDecrement bloom)

def aged : List (Fin 1020) := (finRange 1020).filter fun c => decide ((bloom.bitset c).age > 0)

def total : ℕ := ((aged bloom).map fun c => (bloom.bitset c).count.toNat).sum

def Wraps : Prop := 0 < total bloom ∧ total bloom % 256 = 0

end

/-- The counters say no more than the items taken, and are set where there is an age. -/
structure Sound (bloom : NeuropilBloom) : Prop where
  free_le : bloom.free_items ≤ 64
  count_le : ∀ c, (bloom.bitset c).count.toNat ≤ 2 * (64 - bloom.free_items)
  counted : ∀ c, (bloom.bitset c).age ≠ 0 → 0 < (bloom.bitset c).count.toNat

section

lemma sound_create : Sound create := ⟨le_rfl, fun _ => Nat.zero_le _, fun _ h => absurd rfl h⟩

lemma addCells_other {id : Dhkey} {c : Fin 1020} {ks : List (Fin 8)}
    (h : ∀ k ∈ ks, cellOf id k ≠ c) (bitset : Fin 1020 → Cell) :
    addCells id bitset ks c = bitset c := by
  induction ks generalizing bitset with
  | nil => rfl
  | cons k ks ih =>
    obtain ⟨hk, hks⟩ := forall_mem_cons.1 h
    rw [addCells, ih hks, Function.update_of_ne (Ne.symm hk)]

variable {bloom : NeuropilBloom}

lemma Sound.add {bloom' : NeuropilBloom} {id : Dhkey} (h : Sound bloom)
    (hadd : add bloom id = .ok bloom') : Sound bloom' := by
  have hfree := h.free_le
  rw [Filter.add] at hadd
  split_ifs at hadd with hfull
  cases hadd
  have hcount : ∀ c, (addCells id bloom.bitset (finRange 8) c).count.toNat =
      (bloom.bitset c).count.toNat + (finRange 8).countP (fun k => cellOf id k = c) := by
    intro c
    have hle := h.count_le c
    have htwo := countP_cellOf_le id c
    rw [addCells_count, Nat.mod_eq_of_lt (by omega)]
  refine ⟨?_, fun c => ?_, fun c hage => ?_⟩
  · simp only
    omega
  · have hle := h.count_le c
    have htwo := countP_cellOf_le id c
    simp only [hcount]
    omega
  · simp only [hcount]
    by_cases hhit : 0 < (finRange 8).countP fun k => cellOf id k = c
    · omega
    · have hnone : ∀ k ∈ finRange 8, cellOf id k ≠ c := by
        intro k hk heq
        exact hhit (countP_pos_iff.2 ⟨k, hk, decide_eq_true heq⟩)
      simp only [addCells_other hnone] at hage
      have hpos := h.counted c hage
      omega

lemma Sound.union {result to_add u : NeuropilBloom} (h : Sound result) (h' : Sound to_add)
    (hunion : union result to_add = .ok u) : Sound u := by
  have hfree := h.free_le
  have hf' := h'.free_le
  rw [Filter.union] at hunion
  split_ifs at hunion with hroom
  cases hunion
  have hcount : ∀ c, (unionCell (result.bitset c) (to_add.bitset c)).count.toNat =
      (result.bitset c).count.toNat + (to_add.bitset c).count.toNat := by
    intro c
    have hle := h.count_le c
    have hle' := h'.count_le c
    rw [unionCell_count, Nat.mod_eq_of_lt (by omega)]
  refine ⟨?_, fun c => ?_, fun c hage => ?_⟩
  · simp only
    omega
  · have hle := h.count_le c
    have hle' := h'.count_le c
    simp only [hcount]
    omega
  · simp only [hcount]
    by_cases hold : (result.bitset c).age = 0
    · by_cases hnew : (to_add.bitset c).age = 0
      · simp only [unionCell, hold, hnew] at hage
        exact absurd rfl hage
      · have hpos := h'.counted c hnew
        omega
    · have hpos := h.counted c hold
      omega

lemma Sound.ageDecrement (h : Sound bloom) : Sound (ageDecrement bloom) := by
  refine ⟨h.free_le, h.count_le, fun c hage => h.counted c ?_⟩
  intro hzero
  simp only [Filter.ageDecrement, hzero] at hage
  exact absurd rfl hage

lemma Reached.sound (h : Reached bloom) : Sound bloom := by
  induction h with
  | create => exact sound_create
  | add _ hadd ih => exact ih.add hadd
  | union _ _ hunion ih ih' => exact ih.union ih' hunion
  | ageDecrement _ ih => exact ih.ageDecrement

lemma Sound.live_iff (h : Sound bloom) (c : Fin 1020) :
    Live bloom c ↔ (bloom.bitset c).age ≠ 0 := by
  refine ⟨fun hlive => hlive.1, fun hage => ⟨hage, fun hzero => ?_⟩⟩
  have hpos := h.counted c hage
  rw [hzero] at hpos
  exact absurd hpos (by decide)

end

lemma mem_aged {bloom : NeuropilBloom} {c : Fin 1020} :
    c ∈ aged bloom ↔ (bloom.bitset c).age ≠ 0 := by
  simp [aged, UInt8.pos_iff_ne_zero]

lemma toNat_foldl_add (bytes : List UInt8) (start : UInt8) :
    (bytes.foldl (· + ·) start).toNat = (start.toNat + (bytes.map UInt8.toNat).sum) % 256 := by
  induction bytes generalizing start with
  | nil =>
    have hlt := start.toNat_lt
    simp only [foldl_nil, map_nil, sum_nil]
    omega
  | cons b bytes ih =>
    rw [foldl_cons, ih, UInt8.toNat_add, map_cons, sum_cons]
    omega

lemma foldl_age_eq_zero_iff (result : NeuropilBloom) (cs : List (Fin 1020)) {ret : ℚ}
    (hret : 0 ≤ ret) :
    cs.foldl (fun ret c =>
      if (result.bitset c).age > 0 then
        if ret < ((result.bitset c).age.toNat : ℚ) / 256 then ret
        else ((result.bitset c).age.toNat : ℚ) / 256
      else 0) ret = 0 ↔ ret = 0 ∨ ∃ c ∈ cs, (result.bitset c).age = 0 := by
  induction cs generalizing ret with
  | nil => simp
  | cons c cs ih =>
    rw [foldl_cons, exists_mem_cons_iff]
    by_cases hage : (result.bitset c).age = 0
    · rw [if_neg (by simp [hage]), ih le_rfl]
      simp [hage]
    · have hpos : (result.bitset c).age > 0 := UInt8.pos_iff_ne_zero.2 hage
      have hnum : 0 < ((result.bitset c).age.toNat : ℚ) / 256 := by
        have hnat : 0 < (result.bitset c).age.toNat := UInt8.lt_iff_toNat_lt.1 hpos
        exact div_pos (Nat.cast_pos.2 hnat) (by decide)
      split_ifs with hlt
      · rw [ih hret]
        simp [hage]
      · rw [ih hnum.le]
        have hne : ret ≠ 0 := by
          rintro rfl
          exact hlt hnum
        simp [hage, hne, hnum.ne']

lemma intersectAge_eq_zero_iff (result to_intersect : NeuropilBloom) :
    intersectAge result to_intersect = 0 ↔ total to_intersect % 256 = 0 ∨
      ∃ c, (to_intersect.bitset c).age ≠ 0 ∧ (result.bitset c).age = 0 := by
  have hsum : ((aged to_intersect).map fun c => (to_intersect.bitset c).count).foldl (· + ·) 0 = 0 ↔
      total to_intersect % 256 = 0 := by
    rw [← UInt8.toNat_inj, toNat_foldl_add, map_map, UInt8.toNat_zero, Nat.zero_add]
    rfl
  have ha := foldl_age_eq_zero_iff result (aged to_intersect) zero_le_one
  simp only [one_ne_zero, false_or, mem_aged] at ha
  rw [aged] at hsum ha
  simp only [intersectAge]
  by_cases hzero : total to_intersect % 256 = 0
  · rw [if_pos (hsum.2 hzero)]
    simp [hzero]
  · rw [if_neg (fun h => hzero (hsum.1 h)), ha]
    simp [hzero]

lemma total_eq_zero_iff {bloom : NeuropilBloom} : total bloom = 0 ↔ ¬ ∃ c, Live bloom c := by
  simp only [total, sum_eq_zero_iff, mem_map, forall_exists_index, and_imp,
    forall_apply_eq_imp_iff₂, mem_aged, not_exists, Live, not_and, not_not]
  exact forall₂_congr fun c _ => UInt8.toNat_inj (b := 0)

lemma Sound.intersectAge_iff {result to_intersect : NeuropilBloom} (h : Sound to_intersect) :
    (intersectAge result to_intersect = 0 ↔ (¬ ∃ c, Live to_intersect c) ∨
      ∃ c, Live to_intersect c ∧ (result.bitset c).age = 0) ↔
    (Wraps to_intersect → ∃ c, Live to_intersect c ∧ (result.bitset c).age = 0) := by
  have hcells : (∃ c, (to_intersect.bitset c).age ≠ 0 ∧ (result.bitset c).age = 0) ↔
      ∃ c, Live to_intersect c ∧ (result.bitset c).age = 0 := by
    simp only [h.live_iff]
  rw [intersectAge_eq_zero_iff, hcells, ← total_eq_zero_iff, Wraps]
  constructor
  · rintro hiff ⟨hpos, hmod⟩
    exact (hiff.1 (.inl hmod)).resolve_left (by omega)
  · intro hw
    constructor
    · rintro (hmod | hcell)
      · by_cases hzero : total to_intersect = 0
        · exact .inl hzero
        · exact .inr (hw ⟨by omega, hmod⟩)
      · exact .inr hcell
    · rintro (hzero | hcell)
      · exact .inl (by rw [hzero])
      · exact .inr hcell

end Neuropil.Bloom.Age
