import Neuropil.Lib.Run
import Neuropil.Pheromone.Accounting

namespace Neuropil.Pheromone.AccountingRuns

open Function List Lib.Run Bloom.Filter Pheromone.Table Pheromone.Accounting

structure Event where
  target : Dhkey
  pheromone_source : Dhkey
  find_sender : Bool
  find_receiver : Bool
  now : ℕ → ℚ

def empty : PheromoneTable := fun _ => none

variable (debug : Bool) (me : Dhkey)

def step (s : Except Fault PheromoneTable) (e : Event) : Except Fault PheromoneTable := do
  let r ← inhaleTarget debug me e.now (← s) e.target e.pheromone_source e.find_sender
    e.find_receiver
  return r.1

def after (events : List Event) : Except Fault PheromoneTable :=
  run (step debug me) (.ok empty) events

/-- The account of every pheromone is right. No call aborted for lack of capacity. -/
inductive Good : Except Fault PheromoneTable → Prop
  | running {table : PheromoneTable}
      (h : ∀ i entry, table i = some entry → ∀ p ∈ entry.pheromones, Accounted p) : Good (.ok table)
  | aborted {fault : Fault} (h : fault ≠ .filter .unionCapacity) : Good (.error fault)

lemma good_ok_iff (table : PheromoneTable) :
    Good (.ok table) ↔ ∀ i entry, table i = some entry → ∀ p ∈ entry.pheromones, Accounted p := by
  constructor
  · rintro ⟨h⟩
    exact h
  · exact Good.running

def Event.intent (e : Event) : Intent :=
  targetIntent e.target e.pheromone_source (scent e.target) e.find_sender e.find_receiver

/-- The call meets a peer at the distance of its source, in a pheromone that it
refreshes. A debug build would stop at a full entry in any case. -/
def MeetsTie (table : PheromoneTable) (e : Event) : Prop :=
  ∃ entry, table (indexOf e.target) = some entry ∧
    (entry.pheromones.length < 31 ∨ debug = false) ∧
    ∃ p ∈ entry.pheromones, SlotTied me e.intent (scent e.target) p

def Admissible (s : Except Fault PheromoneTable) (e : Event) : Prop :=
  ∀ table, s = .ok table → ¬ MeetsTie debug me table e

lemma inhaleEntry_accounted (now : ℕ → ℚ) (intent : Intent)
    {scent : NeuropilBloom} (hs : scent.free_items = 63) {pheromones : List PheromoneSlot}
    (h : ∀ p ∈ pheromones, Accounted p) :
    (inhaleEntry debug me now intent scent pheromones = .error .insertionIndex ∧
      ¬ (pheromones.length < 31 ∨ debug = false)) ∨
    ∃ entry, inhaleEntry debug me now intent scent pheromones =
        .ok (entry, decide (pheromones.length < 31)) ∧ (pheromones.length < 31 ∨ debug = false) ∧
      ((∀ p ∈ entry.pheromones, Accounted p) ↔ ∀ p ∈ pheromones, ¬ SlotTied me intent scent p) := by
  have hcr : create.free_items = 64 := rfl
  obtain ⟨ps, top, updated, hloop, hlen, htop, hiff⟩ :=
    inhaleLoop_accounted me intent now hs h 1 hcr false
  have hroomy : scent.free_items ≤ 64 := by omega
  obtain ⟨u, hu, _, _⟩ := unionChecked_full htop hroomy
  obtain ⟨v, hv, hfree, _⟩ := unionChecked_full hcr hroomy
  simp only [inhaleEntry, hloop, hu, hv, bind, Except.bind, pure, Except.pure]
  by_cases hroom : ps.length + 1 < 32
  · refine .inr ?_
    rw [if_pos hroom, decide_eq_true (by omega)]
    cases updated with
    | true => exact ⟨_, rfl, .inl (by omega), hiff⟩
    | false =>
      refine ⟨_, rfl, .inl (by omega), ?_⟩
      have hnew := newPheromone_accounted me (now (ps.length + 1)) intent (hfree.trans hs)
      simp only [forall_mem_append, forall_mem_singleton, hnew, and_true]
      exact hiff
  · rw [if_neg hroom]
    cases debug with
    | true => exact .inl ⟨rfl, by simp only [Bool.true_eq_false, or_false]; omega⟩
    | false =>
      rw [decide_eq_false (by omega)]
      exact .inr ⟨_, rfl, .inr rfl, hiff⟩

variable {table : PheromoneTable}

lemma step_position {debug : Bool} {me : Dhkey} {e : Event}
    (h : e.intent.pos = 0) : step debug me (.ok table) e = .error .position := by
  simp only [step, bind, Except.bind, inhaleTarget_position h]

lemma step_eq (table : PheromoneTable) (e : Event) (h : e.intent.pos ≠ 0) :
    step debug me (.ok table) e = (inhaleEntry debug me e.now e.intent (scent e.target)
      (pheromonesAt table e.target)).map (fun r => update table (indexOf e.target) (some r.1)) := by
  simp only [step, bind, Except.bind, inhaleTarget_eq h, Event.intent]
  cases inhaleEntry debug me e.now _ (scent e.target) (pheromonesAt table e.target) <;> rfl

lemma step_good {debug : Bool} {me : Dhkey} (hgood : Good (.ok table))
    (e : Event) : Good (step debug me (.ok table) e) ↔ ¬ MeetsTie debug me table e := by
  have h := (good_ok_iff table).mp hgood
  by_cases hpos : e.intent.pos = 0
  · rw [step_position hpos]
    refine iff_of_true (.aborted (by simp)) ?_
    rintro ⟨entry, _, _, p, _, _, htied⟩
    obtain htied | htied := htied <;> omega
  have hacc := forall_pheromonesAt h e.target
  have htie : MeetsTie debug me table e ↔
      ((pheromonesAt table e.target).length < 31 ∨ debug = false) ∧
        ∃ p ∈ pheromonesAt table e.target, SlotTied me e.intent (scent e.target) p := by
    cases he : table (indexOf e.target) <;> simp [MeetsTie, pheromonesAt, he]
  have hs : (scent e.target).free_items = 63 := rfl
  rw [step_eq debug me table e hpos, htie]
  obtain ⟨herr, hfull⟩ | ⟨entry, hok, hroom, hiff⟩ :=
    inhaleEntry_accounted debug me e.now e.intent hs hacc
  · rw [herr]
    exact iff_of_true (.aborted (by simp)) (fun ht => hfull ht.1)
  · have he : Good (.ok (update table (indexOf e.target) (some entry))) ↔
        ∀ p ∈ entry.pheromones, Accounted p := by
      rw [good_ok_iff]
      exact ⟨fun hg => hg (indexOf e.target) entry (update_self _ _ _), forall_update h⟩
    rw [hok, Except.map, he, hiff]
    simp [hroom]

/-- Along a sequence of calls, the filters stay in step with the peer lists and no union lacks
capacity, exactly if no call meets a tie. -/
theorem accounted_iff (events : List Event) :
    (∀ before, before <+: events → Good (after debug me before)) ↔
      Admitted (step debug me) (.ok empty) (Admissible debug me) events := by
  apply good_iff_admitted (fun _ s => Good s)
  · exact .running (fun i entry hi => by simp [empty] at hi)
  · intro before s e h hok
    cases s with
    | error f => exact h
    | ok table => exact (step_good h e).mpr (hok table rfl)
  · exact fun before s h => h
  · intro before s e h hbad
    cases s with
    | error f => exact absurd (fun table ht => by cases ht) hbad
    | ok table =>
      intro hg
      apply hbad
      intro t ht
      cases ht
      exact (step_good h e).mp hg

def firstPheromone (me : Dhkey) (e : Event) : PheromoneSlot :=
  newPheromone me (e.now 1) e.intent (scent e.target)

def firstTable (me : Dhkey) (e : Event) : PheromoneTable :=
  update empty (indexOf e.target) (some ⟨scent e.target, [firstPheromone me e]⟩)

lemma pheromonesAt_firstTable (me : Dhkey) (e : Event) :
    pheromonesAt (firstTable me e) e.target = [firstPheromone me e] := by
  rw [pheromonesAt, firstTable, update_self]
  rfl

lemma first_inhale (e : Event) (hpos : e.intent.pos ≠ 0) :
    inhaleTarget debug me e.now empty e.target e.pheromone_source e.find_sender e.find_receiver =
      .ok (firstTable me e, e.find_sender || e.find_receiver) := by
  have hfree : (scent e.target).free_items = 63 := rfl
  have hcr : create.free_items = 64 := rfl
  have hunion : unionChecked create (scent e.target) = .ok (scent e.target) := by
    rw [unionChecked, if_pos (by omega), union_create (by omega)]
    rfl
  rw [inhaleTarget_eq hpos, ← Event.intent]
  simp only [pheromonesAt, empty, Option.getD_none, inhaleEntry, inhaleLoop, bind, Except.bind,
    hunion]
  simp [Except.map, pure, Except.pure, firstTable, firstPheromone]

lemma first_step (e : Event) (hpos : e.intent.pos ≠ 0) :
    after debug me [e] = .ok (firstTable me e) := by
  have hstep : after debug me [e] = step debug me (.ok empty) e := rfl
  rw [hstep]
  simp only [step, bind, Except.bind, first_inhale debug me e hpos, pure, Except.pure]

def inhaleFrom (source : UInt32) : Event :=
  ⟨Dhkey.ofWord 1, Dhkey.ofWord source, true, false, fun _ => 0⟩

theorem twins_drift :
    ¬ ∀ before, before <+: [inhaleFrom 9, inhaleFrom 7] →
      Good (after false (Dhkey.ofWord 8) before) := by
  intro h
  have hpos : (inhaleFrom 9).intent.pos > 0 := by decide
  have hst := first_step false (Dhkey.ofWord 8) (inhaleFrom 9) (by omega)
  have hone := h [inhaleFrom 9] (prefix_append _ _)
  have htwo := h ([inhaleFrom 9] ++ [inhaleFrom 7]) (prefix_refl _)
  rw [after, run_concat, ← after] at htwo
  rw [hst] at hone htwo
  rw [step_good hone] at htwo
  apply htwo
  refine ⟨_, update_self _ _ _, .inr rfl, _, mem_singleton_self _, ?_, .inr ?_⟩
  · apply intersectTest_of_eq
    rw [firstPheromone, newPheromone_bloom]
    rfl
  · rw [firstPheromone, newPheromone_recv hpos]
    exact ⟨by decide, by decide, ⟨Dhkey.ofWord 9, 0⟩, rfl,
      (Dhkey.cmp_eq_zero_iff _ _).mp (by decide)⟩

end Neuropil.Pheromone.AccountingRuns
