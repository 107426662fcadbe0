import Neuropil.Bloom.Age
import Neuropil.Pheromone.Exhale
import Neuropil.Pheromone.Filling
import Neuropil.Pheromone.Scans

namespace Neuropil.Pheromone.Survival

open Function Bloom.Age Bloom.Filter Pheromone.Peers Pheromone.Table Pheromone.Exhale
open Pheromone.Filling Pheromone.Scans

def Shortened (list list' : List Details) : Prop :=
  if list.length > 1 then OldestDropped list list' else list' = list

structure Weakened (p p' : PheromoneSlot) : Prop where
  recv : Shortened p.recv_list p'.recv_list
  send : Shortened p.send_list p'.send_list
  ages : ∀ c, (p'.subj_bloom.bitset c).age = ((ageDecrement p.subj_bloom).bitset c).age

/-- The age of a pheromone is zero after a decrement: nothing with an age is counted in its filter,
or a cell with an age has none in the union. -/
def Faded (top : NeuropilBloom) (p : PheromoneSlot) : Prop :=
  (¬ ∃ c, Live (ageDecrement p.subj_bloom) c) ∨
    ∃ c, ((ageDecrement p.subj_bloom).bitset c).age ≠ 0 ∧ (top.bitset c).age = 0

instance (top : NeuropilBloom) : DecidablePred (Faded top) := fun p => by
  unfold Faded Live
  infer_instance

def tableArray (table : PheromoneTable) : Fin 257 → Option SlotArray :=
  fun i => (table i).map toArray

/-- An exhalation ends, stays in the array, and leaves the pheromones with an age, in order. -/
def ExhalesRight (table : PheromoneTable) (index : Fin 257) (entry : Entry) : Prop :=
  ∃ result, (∀ fuel, entry.pheromones.length ≤ fuel →
      exhale fuel (tableArray table) index = .ok (tableArray (update table index (some result)))) ∧
    List.Forall₂ Weakened
      (entry.pheromones.filter fun p => decide (¬ Faded (ageDecrement entry.union) p))
      result.pheromones

lemma shortened_iff (list : List Details) :
    Shortened list (if list.length > 1 then removeOldestDhkey list else list) ↔
      (list.length > 1 → OldestLast list) := by
  rw [Shortened]
  split_ifs with hlen
  · cases list with
    | nil => cases hlen
    | cons first rest => rw [oldestDropped_iff, forall_prop_of_true hlen]
  · exact iff_of_true rfl fun h => absurd h hlen

/-- In each list of more than one peer, the walk for the oldest one comes to it. -/
def DropsOldest (p : PheromoneSlot) : Prop :=
  (p.recv_list.length > 1 → OldestLast p.recv_list) ∧
    (p.send_list.length > 1 → OldestLast p.send_list)

variable (p : PheromoneSlot)

lemma dropOldest_recv : (dropOldest p).recv_list =
    if p.recv_list.length > 1 then removeOldestDhkey p.recv_list else p.recv_list := by
  simp only [dropOldest]
  split_ifs <;> rfl

lemma dropOldest_send : (dropOldest p).send_list =
    if p.send_list.length > 1 then removeOldestDhkey p.send_list else p.send_list := by
  simp only [dropOldest]
  split_ifs <;> rfl

lemma countDecrement_age (bloom : NeuropilBloom) (c : Fin 1020) :
    ((countDecrement bloom).bitset c).age = (bloom.bitset c).age := by
  rw [countDecrement]
  split_ifs <;> rfl

lemma dropOldest_age (c : Fin 1020) :
    ((dropOldest p).subj_bloom.bitset c).age = (p.subj_bloom.bitset c).age := by
  simp only [dropOldest]
  split_ifs <;> simp only [countDecrement_age]

lemma weakened_iff :
    Weakened p (dropOldest (decrementAge p)) ↔ DropsOldest p := by
  rw [DropsOldest, ← shortened_iff, ← shortened_iff]
  constructor
  · rintro ⟨hrecv, hsend, -⟩
    rw [dropOldest_recv] at hrecv
    rw [dropOldest_send] at hsend
    exact ⟨hrecv, hsend⟩
  · rintro ⟨hrecv, hsend⟩
    refine ⟨?_, ?_, fun c => dropOldest_age _ c⟩
    · rwa [dropOldest_recv]
    · rwa [dropOldest_send]

lemma update_tableArray (table : PheromoneTable) (index : Fin 257) (entry : Entry) :
    update (tableArray table) index (some (toArray entry)) =
      tableArray (update table index (some entry)) :=
  (comp_update (Option.map toArray) table index (some entry)).symm

variable {table : PheromoneTable} {index : Fin 257} {entry : Entry}

lemma exhale_eq (h : table index = some entry) (fuel : ℕ) :
    exhale fuel (tableArray table) index = (exhaleEntry fuel (toArray entry)).map fun entry' =>
      update (tableArray table) index (some entry') := by
  have he : tableArray table index = some (toArray entry) := congrArg (Option.map toArray) h
  simp only [exhale, he]
  cases exhaleEntry fuel (toArray entry) <;> rfl

lemma ageIn_eq_zero_iff (top : NeuropilBloom) (p : PheromoneSlot) :
    ageIn top p = 0 ↔ Faded top p ∨ Wraps (ageDecrement p.subj_bloom) := by
  rw [ageIn, intersectAge_eq_zero_iff, Faded, ← total_eq_zero_iff, Wraps]
  constructor
  · rintro (hmod | hcell)
    · by_cases hzero : total (ageDecrement p.subj_bloom) = 0
      · exact .inl (.inl hzero)
      · exact .inr ⟨Nat.pos_of_ne_zero hzero, hmod⟩
    · exact .inl (.inr hcell)
  · rintro ((hzero | hcell) | ⟨-, hmod⟩)
    · exact .inl (by rw [hzero])
    · exact .inr hcell
    · exact .inl hmod

lemma exhale_ok (he : table index = some entry) (hlen : entry.pheromones.length + 1 ≤ 32)
    (hroom : entry.pheromones.length < 31 ∨
      ∀ p ∈ entry.pheromones, ageIn (ageDecrement entry.union) p ≠ 0) {fuel : ℕ}
    (hfuel : entry.pheromones.length ≤ fuel) : exhale fuel (tableArray table) index =
      .ok (tableArray (update table index (some (exhaled entry)))) := by
  rw [exhale_eq he, exhaleEntry_ok (by omega) hfuel hroom, ← update_tableArray]
  rfl

lemma filter_survivors {top : NeuropilBloom} {ps : List PheromoneSlot}
    (h : ∀ p ∈ ps, Wraps (ageDecrement p.subj_bloom) → Faded top p) :
    (ps.filter fun p => decide (¬ Faded top p)) = ps.filter fun p => decide (ageIn top p ≠ 0) := by
  refine List.filter_congr fun p hp => ?_
  rw [decide_eq_decide, ne_eq, ageIn_eq_zero_iff, or_iff_left_of_imp (h p hp)]

lemma length_survivors_lt {top : NeuropilBloom} {ps : List PheromoneSlot} {p : PheromoneSlot}
    (hp : p ∈ ps) (hwraps : Wraps (ageDecrement p.subj_bloom)) (hkept : ¬ Faded top p) :
    (survivors top ps).length < (ps.filter fun p => decide (¬ Faded top p)).length := by
  have hsub : (ps.filter fun p => decide (ageIn top p ≠ 0)) =
      (ps.filter fun p => decide (¬ Faded top p)).filter fun p => decide (ageIn top p ≠ 0) := by
    rw [List.filter_filter]
    refine List.filter_congr fun q _ => ?_
    rw [← Bool.decide_and, decide_eq_decide, iff_self_and, ne_eq, ageIn_eq_zero_iff, not_or]
    exact And.left
  rw [survivors, List.length_map, hsub, List.length_filter_lt_length_iff_exists]
  refine ⟨p, List.mem_filter.2 ⟨hp, decide_eq_true hkept⟩, ?_⟩
  simp [(ageIn_eq_zero_iff top p).2 (.inr hwraps)]

/-- An entry with up to 32 places in use is exhaled rightly exactly if the counters of no pheromone
that has an age wrap around, it does not lose a pheromone while it is full, and the walk through a
list comes to the oldest peer. -/
theorem exhalesRight_iff {table : PheromoneTable} {index : Fin 257} {entry : Entry}
    (hentry : table index = some entry) (hlen : entry.pheromones.length + 1 ≤ 32) :
    ExhalesRight table index entry ↔
      (∀ p ∈ entry.pheromones, Wraps (ageDecrement p.subj_bloom) →
        Faded (ageDecrement entry.union) p) ∧
      (entry.pheromones.length + 1 < 32 ∨
        ∀ p ∈ entry.pheromones, ¬ Faded (ageDecrement entry.union) p) ∧
      ∀ p ∈ entry.pheromones, ¬ Faded (ageDecrement entry.union) p → DropsOldest p := by
  have hresult : ∀ result, (entry.pheromones.length < 31 ∨
        ∀ p ∈ entry.pheromones, ageIn (ageDecrement entry.union) p ≠ 0) →
      exhale entry.pheromones.length (tableArray table) index =
        .ok (tableArray (update table index (some result))) →
      result.pheromones = survivors (ageDecrement entry.union) entry.pheromones := by
    intro result hroom hres
    have heq := Except.ok.inj (hres.symm.trans (exhale_ok hentry hlen hroom le_rfl))
    have hat := congrFun heq index
    simp only [tableArray, update_self, Option.map_some, Option.some.injEq] at hat
    exact toArray_injective hat
  by_cases hroom : entry.pheromones.length < 31 ∨
      ∀ p ∈ entry.pheromones, ageIn (ageDecrement entry.union) p ≠ 0
  · by_cases hwraps : ∀ p ∈ entry.pheromones, Wraps (ageDecrement p.subj_bloom) →
        Faded (ageDecrement entry.union) p
    · have hcond : entry.pheromones.length + 1 < 32 ∨
          ∀ p ∈ entry.pheromones, ¬ Faded (ageDecrement entry.union) p := by
        refine hroom.imp (fun h => by omega) fun h p hp hfaded => h p hp ?_
        exact (ageIn_eq_zero_iff _ _).2 (.inl hfaded)
      have hkept : List.Forall₂ Weakened
          (entry.pheromones.filter fun p => decide (¬ Faded (ageDecrement entry.union) p))
          (survivors (ageDecrement entry.union) entry.pheromones) ↔
          ∀ p ∈ entry.pheromones, ¬ Faded (ageDecrement entry.union) p → DropsOldest p := by
        rw [survivors, ← filter_survivors hwraps, List.forall₂_map_right_iff, List.forall₂_same]
        simp only [weakened_iff, List.mem_filter, decide_eq_true_eq, and_imp]
      rw [← hkept, and_iff_right hwraps, and_iff_right hcond]
      constructor
      · rintro ⟨result, hres, hfor⟩
        rwa [← hresult result hroom (hres _ le_rfl)]
      · exact fun hfor => ⟨exhaled entry, fun _ => exhale_ok hentry hlen hroom, hfor⟩
    · refine iff_of_false ?_ fun h => hwraps h.1
      rintro ⟨result, hres, hfor⟩
      simp only [not_forall, exists_prop] at hwraps
      obtain ⟨p, hp, hwrap, hfaded⟩ := hwraps
      have hlt := length_survivors_lt hp hwrap hfaded
      rw [hfor.length_eq, hresult result hroom (hres _ le_rfl)] at hlt
      exact lt_irrefl _ hlt
  · simp only [not_or, not_lt, not_forall, not_not] at hroom
    obtain ⟨hfull, p, hp, hzero⟩ := hroom
    refine iff_of_false ?_ ?_
    · rintro ⟨result, hres, -⟩
      have hrun := hres _ le_rfl
      rw [exhale_eq hentry, exhaleEntry_full (by omega) le_rfl ⟨p, hp, hzero⟩] at hrun
      cases hrun
    · rintro ⟨hwraps, hlt | hall, -⟩
      · omega
      · exact hall p hp (((ageIn_eq_zero_iff _ p).1 hzero).elim id (hwraps p hp))

lemma ageDecrement_speck (c d : Fin 1020) : ((ageDecrement (speck c)).bitset d).age = 0 := by
  by_cases h : d = c
  · subst h
    simp [ageDecrement, speck]
  · simp [ageDecrement, speck, h, create]

def speckTable : PheromoneTable :=
  update (fun _ => none) firstIndex (some ⟨create, [speckSlot ⟨0, by decide⟩]⟩)

lemma faded_speck (top : NeuropilBloom) (c : Fin 1020) : Faded top (speckSlot c) := by
  refine .inl fun ⟨d, hd⟩ => hd.1 ?_
  exact ageDecrement_speck c d

theorem speckTable_exhalesRight :
    ExhalesRight speckTable firstIndex ⟨create, [speckSlot ⟨0, by decide⟩]⟩ := by
  refine (exhalesRight_iff (update_self _ _ _) (by decide)).2 ⟨?_, .inl (by decide), ?_⟩
  · simpa using fun _ => faded_speck _ _
  · simpa using fun h => absurd (faded_speck _ _) h

/-- Calls fill all 32 places. The next exhalation reads the place behind the last one. -/
theorem full_entry_overrun : ∃ table entry,
    specks.foldlM (fillStep peer) (fun _ => none) = .ok table ∧
    table firstIndex = some entry ∧ entry.pheromones.length + 1 = 32 ∧
    exhale 31 (tableArray table) firstIndex = .error .outOfBounds ∧
    ¬ ExhalesRight table firstIndex entry := by
  obtain ⟨table, htable, hfst⟩ := filled peer
  have hcount : (pheromonesIn table firstIndex).length = 31 := by
    rw [hfst, List.length_map, length_specks]
  cases he : table firstIndex with
  | none =>
    rw [pheromonesIn, he] at hcount
    cases hcount
  | some entry =>
    have hps : entry.pheromones = specks.map speckSlot := by
      rw [← hfst, pheromonesIn, he]
      rfl
    have hfull : entry.pheromones.length = 31 := by
      rw [hps, List.length_map, length_specks]
    have hg : ∃ p ∈ entry.pheromones, ageIn (ageDecrement entry.union) p = 0 := by
      obtain ⟨p, hp⟩ := List.exists_mem_of_length_pos (by rw [hfull]; decide)
      refine ⟨p, hp, ?_⟩
      rw [hps] at hp
      obtain ⟨c, -, rfl⟩ := List.mem_map.1 hp
      exact (ageIn_eq_zero_iff _ _).2 (.inl (faded_speck _ c))
    have hrun : exhale 31 (tableArray table) firstIndex = .error .outOfBounds := by
      rw [exhale_eq he, exhaleEntry_full hfull hfull.le hg]
      rfl
    refine ⟨table, entry, htable, he, by omega, hrun, ?_⟩
    rintro ⟨result, hres, -⟩
    rw [hres 31 hfull.le] at hrun
    cases hrun

end Neuropil.Pheromone.Survival
