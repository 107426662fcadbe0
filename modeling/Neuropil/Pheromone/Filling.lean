import Neuropil.Pheromone.Accounting
import Neuropil.Lib.Fault

namespace Neuropil.Pheromone.Filling

open List Lib.Fault Bloom.Filter Pheromone.Table Pheromone.Accounting

section

variable (me : Dhkey) (now : ℕ → ℚ) (intent : Intent) {scent : NeuropilBloom}
  {ps : List PheromoneSlot} (hother : ∀ p ∈ ps, intersectTest p.subj_bloom scent = false)
  (hfree : ∀ p ∈ ps, p.subj_bloom.free_items ≤ 64)

include hother hfree

lemma inhaleLoop_other (i : ℕ) {top : NeuropilBloom} (htop : top.free_items = 64) :
    ∃ top', inhaleLoop me now intent scent i top false ps = .ok (ps, top', false) ∧
      top'.free_items = 64 := by
  induction ps generalizing i top with
  | nil => exact ⟨top, rfl, htop⟩
  | cons p ps ih =>
    obtain ⟨hp, hps⟩ := forall_mem_cons.1 hother
    obtain ⟨hpfree, hpsf⟩ := forall_mem_cons.1 hfree
    obtain ⟨u, hu, -, -⟩ := unionChecked_full htop hpfree
    have htop' : ({ u with free_items := 64 } : NeuropilBloom).free_items = 64 := rfl
    obtain ⟨top', hloop, hfull⟩ := ih hps hpsf (i + 1) htop'
    have hone : inhaleOne me (now i) intent scent p = .ok (p, false) :=
      inhaleOne_keep fun h => by simp [hp] at h
    refine ⟨top', ?_, hfull⟩
    simp only [inhaleLoop, hone, ok_bind, hu, Bool.or_false, hloop]
    rfl

lemma inhaleEntry_new (debug : Bool) (hscent : scent.free_items ≤ 64) (hlen : ps.length < 31) :
    ∃ top, inhaleEntry debug me now intent scent ps =
      .ok (⟨top, ps ++ [newPheromone me (now (ps.length + 1)) intent scent]⟩, true) := by
  have hcr : create.free_items = 64 := rfl
  obtain ⟨top, hloop, htop⟩ := inhaleLoop_other me now intent hother hfree 1 hcr
  obtain ⟨t, ht, -, -⟩ := unionChecked_full htop hscent
  have hb : unionChecked create scent = .ok scent := by
    rw [unionChecked, if_pos (by omega), union_create hscent]
    rfl
  refine ⟨t, ?_⟩
  simp only [inhaleEntry, hloop, ok_bind, ht, hb, if_pos (show ps.length + 1 < 32 by omega),
    Bool.false_eq_true, ↓reduceIte]
  rfl

end

def firstIndex : Fin 257 := ⟨0, by decide⟩

def speck (c : Fin 1020) : NeuropilBloom := ⟨63, Function.update create.bitset c ⟨1, 1⟩⟩

def peer : Dhkey := Dhkey.ofWord 7

def speckIntent (c : Fin 1020) : Intent := ⟨none, some (speck c), 1, Dhkey.zero, peer⟩

def speckSlot (c : Fin 1020) : PheromoneSlot := ⟨speck c, [], [⟨peer, 0⟩]⟩

lemma speck_age (c d : Fin 1020) : ((speck c).bitset d).age > 0 ↔ d = c := by
  by_cases h : d = c
  · subst h
    simp [speck]
  · simp [speck, h, create]

lemma intersectTest_speck {c d : Fin 1020} (h : c ≠ d) :
    intersectTest (speck c) (speck d) = false := by
  have hd : ¬ ∀ e ∈ finRange 1020, (decide (((speck c).bitset e).age > 0) ==
      decide (((speck d).bitset e).age > 0)) = true := by
    intro hall
    have hc := hall c (mem_finRange c)
    simp only [speck_age, beq_iff_eq, decide_eq_decide, true_iff] at hc
    exact h hc
  rw [← all_eq_true, Bool.not_eq_true] at hd
  simp only [intersectTest, hd, Bool.false_and]

def fillStep (me : Dhkey) (table : PheromoneTable) (c : Fin 1020) : Except Fault PheromoneTable :=
  (inhale false me (fun _ => 0) table (speckIntent c)).map Prod.fst

lemma fill (me : Dhkey) {cells : List (Fin 1020)} (hnd : cells.Nodup)
    (hlen : cells.length ≤ 31) (table : PheromoneTable)
    (htable : pheromonesIn table firstIndex = []) :
    ∃ table', cells.foldlM (fillStep me) table = .ok table' ∧
      pheromonesIn table' firstIndex = cells.map speckSlot := by
  have hfst : firstIndex.val + 1 = (1 : ℤ).natAbs := rfl
  apply foldlM_inv (fun before table => pheromonesIn table firstIndex = before.map speckSlot)
  · exact htable
  · intro before table c hpre htable
    have hpart := hnd.sublist hpre.sublist
    rw [nodup_append] at hpart
    have hsho := hpre.length_le
    rw [length_append, length_singleton] at hsho
    have hother : ∀ p ∈ pheromonesIn table firstIndex,
        intersectTest p.subj_bloom (speck c) = false := by
      rw [htable]
      intro p hp
      obtain ⟨d, hd, rfl⟩ := mem_map.1 hp
      exact intersectTest_speck (hpart.2.2 d hd c (by simp))
    have hfree : ∀ p ∈ pheromonesIn table firstIndex, p.subj_bloom.free_items ≤ 64 := by
      rw [htable]
      intro p hp
      obtain ⟨d, -, rfl⟩ := mem_map.1 hp
      exact Nat.le_succ 63
    have hroom : (pheromonesIn table firstIndex).length < 31 := by
      rw [htable, length_map]
      omega
    obtain ⟨top, hnew⟩ := inhaleEntry_new me (fun _ => 0) (speckIntent c) hother hfree false
      (Nat.le_succ 63) hroom
    have hstep : fillStep me table c = .ok (Function.update table firstIndex
        (some ⟨top, pheromonesIn table firstIndex ++ [speckSlot c]⟩)) := by
      have hat : inhale false me (fun _ => 0) table (speckIntent c) = _ := inhaleAt_eq hfst
      rw [fillStep, hat, hnew]
      rfl
    refine ⟨_, hstep, ?_⟩
    rw [pheromonesIn, Function.update_self, Option.getD_some, htable, map_append]
    rfl

def specks : List (Fin 1020) := (finRange 1020).take 31

lemma length_specks : specks.length = 31 := by
  rw [specks, length_take, length_finRange]
  rfl

lemma filled (me : Dhkey) : ∃ table, specks.foldlM (fillStep me) (fun _ => none) = .ok table ∧
    pheromonesIn table firstIndex = specks.map speckSlot :=
  fill me ((nodup_finRange 1020).sublist (take_sublist 31 _)) length_specks.le _ rfl

end Neuropil.Pheromone.Filling
