import Neuropil.Lib.Fault
import Neuropil.Pheromone.AccountingRuns

namespace Neuropil.Pheromone.Backing

open Lib.Fault Lib.Run Bloom.Filter Pheromone.Peers Pheromone.Table Pheromone.Accounting
  Pheromone.AccountingRuns

/-- A pheromone has taken at least one item from its filter for each peer.
Other than the account this holds of every reachable pheromone. -/
structure Backed (p : PheromoneSlot) : Prop where
  capacity : p.subj_bloom.free_items + (p.send_list.length + p.recv_list.length) ≤ 64
  send : Bounded p.send_list
  recv : Bounded p.recv_list

variable {p : PheromoneSlot}

lemma backed_iff_hops (d : Bool) :
    Backed p ↔ p.subj_bloom.free_items + ((hops d p).length + (hops (!d) p).length) ≤ 64 ∧
      Bounded (hops d p) ∧ Bounded (hops (!d) p) := by
  cases d
  · exact ⟨fun h => ⟨h.capacity, h.send, h.recv⟩, fun ⟨hc, hs, hr⟩ => ⟨hc, hs, hr⟩⟩
  · rw [Nat.add_comm (hops true p).length]
    exact ⟨fun h => ⟨h.capacity, h.recv, h.send⟩, fun ⟨hc, hr, hs⟩ => ⟨hc, hs, hr⟩⟩

lemma union_inv {a b u : NeuropilBloom} (h : union a b = .ok u) (hb : b.free_items = 63) :
    u.free_items + 1 = a.free_items ∧ u.bitset = fun c => unionCell (a.bitset c) (b.bitset c) := by
  by_cases hcap : (64 - a.free_items) + (64 - b.free_items) ≤ 64
  · rw [union_ok hcap] at h
    cases h
    refine ⟨?_, rfl⟩
    simp only
    omega
  · rw [union, if_neg hcap] at h
    cases h

lemma ofFilter_inv {α : Type} {x : Except FilterFault α} {a : α} (h : ofFilter x = .ok a) :
    x = .ok a := by
  cases x with
  | error f => cases h
  | ok b =>
    cases h
    rfl

variable {me : Dhkey} {intent : Intent} {scent : NeuropilBloom}

lemma inhaleOne_inv {now : ℚ} {r : PheromoneSlot × Bool}
    (h : inhaleOne me now intent scent p = .ok r) :
    (intersectTest p.subj_bloom scent = true ∧ ∃ d u, side intent = some d ∧
      union (refreshed me now intent d p).1 scent = .ok u ∧
        r = (setHops d p u (refreshed me now intent d p).2, true)) ∨
    ((intersectTest p.subj_bloom scent = true → side intent = none) ∧ r = (p, false)) := by
  by_cases hkeep : intersectTest p.subj_bloom scent = true → side intent = none
  · rw [inhaleOne_keep hkeep] at h
    cases h
    exact .inr ⟨hkeep, rfl⟩
  · obtain ⟨hmatch, hside⟩ := Classical.not_imp.1 hkeep
    obtain ⟨d, hd⟩ := Option.ne_none_iff_exists'.1 hside
    rw [inhaleOne_side hmatch hd] at h
    obtain ⟨u, hu, rfl⟩ := map_eq_ok h
    exact .inl ⟨hmatch, d, u, hd, ofFilter_inv hu, rfl⟩

variable {now : ℕ → ℚ} {r : List PheromoneSlot × NeuropilBloom × Bool} {update_filter : Bool}
  {top : NeuropilBloom}

lemma inhaleLoop_inv {i : ℕ} {rest : List PheromoneSlot}
    (h : inhaleLoop me now intent scent i top update_filter (p :: rest) = .ok r) :
    ∃ p' updated u ps, inhaleOne me (now i) intent scent p = .ok (p', updated) ∧
      unionChecked top p'.subj_bloom = .ok u ∧
      inhaleLoop me now intent scent (i + 1) { u with free_items := 64 }
        (update_filter || updated) rest = .ok (ps, r.2) ∧ r.1 = p' :: ps := by
  obtain ⟨⟨p', updated⟩, hone, h⟩ := bind_eq_ok h
  obtain ⟨u, hu, h⟩ := bind_eq_ok h
  obtain ⟨⟨ps, tail⟩, hrest, h⟩ := bind_eq_ok h
  cases h
  exact ⟨p', updated, u, ps, hone, hu, hrest, rfl⟩

lemma inhaleLoop_length {i : ℕ} {ps : List PheromoneSlot}
    (h : inhaleLoop me now intent scent i top update_filter ps = .ok r) :
    r.1.length = ps.length := by
  induction ps generalizing i top update_filter r with
  | nil =>
    cases h
    rfl
  | cons p ps ih =>
    obtain ⟨p', updated, u, ps', -, -, hrest, hr⟩ := inhaleLoop_inv h
    rw [hr, List.length_cons, List.length_cons, ← ih hrest]

variable {pheromones : List PheromoneSlot} {debug : Bool}

lemma inhaleEntry_inv {r : Entry × Bool}
    (h : inhaleEntry debug me now intent scent pheromones = .ok r) :
    ∃ ps top updated,
      inhaleLoop me now intent scent 1 create false pheromones = .ok (ps, top, updated) ∧
      (r = (⟨top, ps⟩, updated && decide (ps.length < 31)) ∨
        (updated = false ∧ ∃ t b, unionChecked top scent = .ok t ∧
          unionChecked create scent = .ok b ∧
          r = (⟨t, ps ++ [newPheromone me (now (ps.length + 1)) intent b]⟩, true))) := by
  obtain ⟨⟨ps, top, updated⟩, hloop, h⟩ := bind_eq_ok h
  refine ⟨ps, top, updated, hloop, ?_⟩
  simp only at h
  split_ifs at h with hroom hupd hd
  · cases h
    refine .inl ?_
    rw [hupd, decide_eq_true (by omega)]
    rfl
  · obtain ⟨t, ht, h⟩ := bind_eq_ok h
    obtain ⟨b, hb, h⟩ := bind_eq_ok h
    cases h
    exact .inr ⟨by simpa using hupd, t, b, ht, hb, rfl⟩
  · cases h
    refine .inl ?_
    rw [decide_eq_false (by omega), Bool.and_false]

section

variable (hs : scent.free_items = 63)
include hs

lemma refresh_backed {peer : Dhkey} {now : ℚ} {bloom u : NeuropilBloom} {list : List Details}
    {other : ℕ} (h : bloom.free_items + (list.length + other) ≤ 64)
    (hu : union (refresh me now peer bloom list).1 scent = .ok u) :
    u.free_items + ((refresh me now peer bloom list).2.length + other) ≤ 64 := by
  have hcap := refresh_capacity me peer now h
  have hfree := (union_inv hu hs).1
  split_ifs at hcap <;> omega

lemma inhaleOne_backed {now : ℚ} {r : PheromoneSlot × Bool}
    (h : Backed p) (hr : inhaleOne me now intent scent p = .ok r) : Backed r.1 := by
  obtain ⟨_, d, u, _, hu, rfl⟩ | ⟨_, rfl⟩ := inhaleOne_inv hr
  · obtain ⟨hcap, hb, ho⟩ := (backed_iff_hops d).1 h
    rw [backed_iff_hops d, setHops_bloom, hops_setHops, hops_not_setHops]
    exact ⟨refresh_backed hs hcap hu, bounded_refresh _ me _ now hb, ho⟩
  · exact h

lemma inhaleLoop_backed (h : ∀ p ∈ pheromones, Backed p) {i : ℕ}
    (hr : inhaleLoop me now intent scent i top update_filter pheromones = .ok r) :
    ∀ p ∈ r.1, Backed p := by
  induction pheromones generalizing i top update_filter r with
  | nil =>
    cases hr
    simp
  | cons p rest ih =>
    obtain ⟨hp, hrest⟩ := List.forall_mem_cons.mp h
    obtain ⟨p', updated, u, ps, hone, _, hloop, heq⟩ := inhaleLoop_inv hr
    rw [heq, List.forall_mem_cons]
    exact ⟨inhaleOne_backed hs hp hone, ih hrest hloop⟩

lemma inhaleEntry_backed (h : ∀ p ∈ pheromones, Backed p) {r : Entry × Bool}
    (hr : inhaleEntry debug me now intent scent pheromones = .ok r) :
    ∀ p ∈ r.1.pheromones, Backed p := by
  obtain ⟨ps, top, updated, hloop, rfl | ⟨_, t, b, _, hb, rfl⟩⟩ := inhaleEntry_inv hr
  · exact inhaleLoop_backed hs h hloop
  · have hcr : create.free_items = 64 := rfl
    have hroomy : scent.free_items ≤ 64 := by omega
    obtain ⟨v, hv, hfree, _⟩ := unionChecked_full hcr hroomy
    rw [hb] at hv
    cases hv
    have hnew := newPheromone_accounted me (now (ps.length + 1)) intent (hfree.trans hs)
    rw [List.forall_mem_append, List.forall_mem_singleton]
    exact ⟨inhaleLoop_backed hs h hloop, hnew.capacity.le, hnew.send, hnew.recv⟩

end

def TableBacked (table : PheromoneTable) : Prop :=
  ∀ i entry, table i = some entry → ∀ p ∈ entry.pheromones, Backed p

lemma step_backed {table table' : PheromoneTable} {e : Event}
    (h : TableBacked table) (hstep : step debug me (.ok table) e = .ok table') :
    TableBacked table' := by
  by_cases hpos : e.intent.pos = 0
  · rw [step_position hpos] at hstep
    cases hstep
  rw [step_eq debug me table e hpos] at hstep
  obtain ⟨r, hr, rfl⟩ := map_eq_ok hstep
  have hs : (scent e.target).free_items = 63 := rfl
  exact forall_update h (inhaleEntry_backed hs (forall_pheromonesAt h e.target) hr)

lemma after_backed {events : List Event} {table : PheromoneTable}
    (h : after debug me events = .ok table) : TableBacked table := by
  let inv (_ : List Event) (s : Except Fault PheromoneTable) := ∀ t, s = .ok t → TableBacked t
  have hrun : inv events (after debug me events) := by
    apply run_inv_always inv
    · intro t ht
      cases ht
      intro i entry hi
      simp [empty] at hi
    · intro before s e hs t ht
      cases s with
      | error f => cases ht
      | ok table => exact step_backed (hs table rfl) ht
  exact hrun table h

end Neuropil.Pheromone.Backing
