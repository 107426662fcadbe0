import Neuropil.Bloom.Age
import Neuropil.Bloom.Bytes
import Neuropil.Pheromone.Exhale

namespace Neuropil.Pheromone.Ageing

open List Bloom.Filter Bloom.Containment Bloom.Bytes Bloom.Age Pheromone.Table Pheromone.Exhale

def StillAged (result to_intersect : NeuropilBloom) : Prop :=
  (∃ c, Live to_intersect c) ∧ ∀ c, Live to_intersect c → (result.bitset c).age ≠ 0

def Stays (top : NeuropilBloom) (done : List PheromoneSlot) (p : PheromoneSlot)
    (rest : List PheromoneSlot) (zeros : ℕ) : Prop :=
  ∃ q, exhaleRound (done.length + 1) (layout top (done ++ p :: rest) zeros) =
    .ok (done.length + 2, layout top (done ++ q :: rest) zeros)

lemma stays_iff (top : NeuropilBloom) (done : List PheromoneSlot) (p : PheromoneSlot)
    (rest : List PheromoneSlot) (zeros : ℕ) : Stays top done p rest zeros ↔ ageIn top p ≠ 0 := by
  rw [Stays, exhaleRound_eq]
  constructor
  · rintro ⟨q, hround⟩ hage
    rw [if_pos hage] at hround
    cases hrem : removeSlot (done.length + 1) (layout top (done ++ p :: rest) zeros) with
    | error f =>
      rw [hrem] at hround
      cases hround
    | ok entry =>
      rw [hrem] at hround
      have hidx := congrArg Prod.fst (Except.ok.inj hround)
      simp at hidx
  · intro hage
    exact ⟨_, if_neg hage⟩

/-- The smallest age of a filter in another one is computed rightly exactly if the sum of its
counters does not wrap around, or if it is zero anyway; and with it an exhalation keeps a pheromone
that still has an age. -/
theorem ages_right_iff (result : NeuropilBloom) {to_intersect : NeuropilBloom}
    (h : Reached to_intersect) :
    ((intersectAge result to_intersect = 0 ↔ (¬ ∃ c, Live to_intersect c) ∨
        ∃ c, Live to_intersect c ∧ (result.bitset c).age = 0) ↔
      (Wraps to_intersect → ∃ c, Live to_intersect c ∧ (result.bitset c).age = 0)) ∧
    ∀ p, ageDecrement p.subj_bloom = to_intersect → ∀ done rest zeros,
      StillAged result to_intersect → (Stays result done p rest zeros ↔ ¬ Wraps to_intersect) := by
  constructor
  · exact h.sound.intersectAge_iff
  · rintro p rfl done rest zeros ⟨hlive, ha⟩
    have hpos : 0 < total (ageDecrement p.subj_bloom) := by
      rw [Nat.pos_iff_ne_zero, ne_eq, total_eq_zero_iff, not_not]
      exact hlive
    have hnone : ¬ ∃ c, ((ageDecrement p.subj_bloom).bitset c).age ≠ 0 ∧
        (result.bitset c).age = 0 := by
      rintro ⟨c, hc, hzero⟩
      exact ha c ((h.sound.live_iff c).2 hc) hzero
    rw [stays_iff, ageIn, ne_eq, intersectAge_eq_zero_iff, or_iff_left hnone, Wraps,
      and_iff_right hpos]

variable {bloom : NeuropilBloom} {ids : List Dhkey}

section

lemma sum_indicator {cs : List (Fin 1020)} (hcs : cs.Nodup) {d : Fin 1020} (hd : d ∈ cs) :
    (cs.map fun c => if d = c then 1 else 0).sum = 1 := by
  induction cs with
  | nil => cases hd
  | cons c cs ih =>
    obtain ⟨hc, hcs⟩ := nodup_cons.1 hcs
    rw [map_cons, sum_cons]
    obtain rfl | hd := mem_cons.1 hd
    · have hzero : (cs.map fun c => if d = c then 1 else 0).sum = 0 := by
        rw [sum_eq_zero_iff]
        intro n hn
        obtain ⟨e, he, rfl⟩ := mem_map.1 hn
        have hne : d ≠ e := fun h => hc (h ▸ he)
        exact if_neg hne
      rw [if_pos rfl, hzero]
    · have hne : d ≠ c := fun h => hc (h ▸ hd)
      rw [if_neg hne, ih hcs hd]

variable {cs : List (Fin 1020)} (hcs : cs.Nodup) (hall : ∀ c, c ∈ cs)

include hcs hall

lemma sum_countP (id : Dhkey) (ks : List (Fin 8)) :
    (cs.map fun c => ks.countP fun k => cellOf id k = c).sum = ks.length := by
  induction ks with
  | nil => simp
  | cons k ks ih =>
    simp only [countP_cons, decide_eq_true_eq, sum_map_add, ih,
      sum_indicator hcs (hall (cellOf id k)), length_cons]

lemma sum_hits (ids : List Dhkey) : (cs.map fun c => hits ids c).sum = 8 * ids.length := by
  induction ids with
  | nil => simp [hits]
  | cons id ids ih =>
    simp only [hits_cons, sum_map_add, sum_countP hcs hall, ih, length_cons, length_finRange]
    omega

omit hcs hall

lemma total_eq (h : Remembers bloom ids) : total bloom = 8 * ids.length := by
  have hfil : ∀ cs : List (Fin 1020),
      ((cs.filter fun c => decide ((bloom.bitset c).age > 0)).map
        fun c => (bloom.bitset c).count.toNat).sum = (cs.map fun c => hits ids c).sum := by
    intro cs
    induction cs with
    | nil => rfl
    | cons c cs ih =>
      by_cases hage : (bloom.bitset c).age > 0
      · rw [filter_cons_of_pos (by simpa using hage), map_cons, sum_cons, ih,
          map_cons, sum_cons, h.count_eq]
      · have hzero : hits ids c = 0 := by
          by_contra hne
          have hy := h.young c (by omega)
          exact hage (UInt8.lt_iff_toNat_lt.2 (by simp; omega))
        rw [filter_cons_of_neg (by simpa using hage), ih, map_cons, sum_cons, hzero, Nat.zero_add]
  rw [total, aged, hfil, sum_hits (nodup_finRange 1020) mem_finRange]

end

lemma exists_repeated (id : Dhkey) {n : ℕ} (h : n ≤ 64) :
    ∃ bloom, Reached bloom ∧ Remembers bloom (replicate n id) := by
  induction n with
  | zero => exact ⟨create, .create, remembers_create⟩
  | succ n ih =>
    obtain ⟨bloom, hrch, hb⟩ := ih (by omega)
    obtain ⟨bloom', hadd, -⟩ := hb.add_one (by rw [length_replicate]; omega) id
    refine ⟨bloom', hrch.add hadd, ?_⟩
    rw [replicate_succ']
    exact hb.add hadd

lemma live_of_mem (h : Remembers bloom ids)
    {id : Dhkey} (hid : id ∈ ids) (k : Fin 8) : Live bloom (cellOf id k) :=
  (check_iff bloom id).1 (h.check hid) k

theorem ages_right_once : ∃ bloom, Reached bloom ∧
    (intersectAge bloom bloom = 0 ↔ (¬ ∃ c, Live bloom c) ∨
      ∃ c, Live bloom c ∧ (bloom.bitset c).age = 0) := by
  obtain ⟨bloom, hrch, hb⟩ := @exists_repeated (Dhkey.ofWord 5) 1 (by decide)
  refine ⟨bloom, hrch, (ages_right_iff bloom hrch).1.2 ?_⟩
  rintro ⟨-, hmod⟩
  rw [total_eq hb, length_replicate] at hmod
  omega

/-- After 32 additions the counters sum up to 256, and the filter seems to be empty. -/
theorem full_age_lost : ∃ bloom, Reached bloom ∧ (∃ c, Live bloom c) ∧
    (∀ c, Live bloom c → (bloom.bitset c).age ≠ 0) ∧ intersectAge bloom bloom = 0 := by
  obtain ⟨bloom, hrch, hb⟩ := @exists_repeated (Dhkey.ofWord 5) 32 (by decide)
  have hmem : Dhkey.ofWord 5 ∈ replicate 32 (Dhkey.ofWord 5) := by simp
  refine ⟨bloom, hrch, ⟨_, live_of_mem hb hmem 0⟩, fun c hc => hc.1, ?_⟩
  rw [intersectAge_eq_zero_iff, total_eq hb, length_replicate]
  exact .inl rfl

end Neuropil.Pheromone.Ageing
