import Neuropil.Pheromone.Snuffle

namespace Neuropil.Pheromone.SnuffleRuns

open Bool List Lib.Fault Bloom.Filter Pheromone.Peers Pheromone.Table Pheromone.Accounting
  Pheromone.AccountingRuns Pheromone.Backing Pheromone.Snuffle
open Dhkey (ofWord)

def Shown (find_sender : Bool) (target peer : Dhkey) (entry : Entry) : Prop :=
  check entry.union target = true ∧
    ∃ p ∈ entry.pheromones, peer ∈ peers (hops find_sender p) ∧ check p.subj_bloom target = true

/-- The search that belongs to a direction: for the receivers that a search for
senders came from, and the other way round. -/
def snuffleBack (find_sender : Bool) (table : PheromoneTable) (target : Dhkey) : List Dhkey :=
  if find_sender then (snuffleReceiver table target 0).1 else (snuffleSender table target 0).1

variable {table : PheromoneTable} {entry : Entry}

lemma mem_snuffleBack {find_sender : Bool} {target peer : Dhkey}
    (h : table (indexOf target) = some entry) :
    peer ∈ snuffleBack find_sender table target ↔ Shown find_sender target peer entry := by
  have hle := getHeuristic_nonneg entry.union target
  have hmem : ∀ f : PheromoneSlot → List Dhkey,
      peer ∈ ((entry.pheromones.filter fun p => check p.subj_bloom target).flatMap f) ↔
        ∃ p ∈ entry.pheromones, peer ∈ f p ∧ check p.subj_bloom target = true := by
    intro f
    simp only [mem_flatMap, mem_filter]
    exact exists_congr (fun p => by tauto)
  rw [indexOf] at h
  cases find_sender with
  | true =>
    simp only [snuffleBack, snuffleReceiver, snuffle, h, Shown, hops, ↓reduceIte]
    split_ifs with hc
    · rw [hmem]
      exact (and_iff_right hc).symm
    · simp [hc]
  | false =>
    simp only [snuffleBack, snuffleSender, snuffle, h, Shown, hops, false_eq_true, ↓reduceIte]
    split_ifs with hc
    · rw [hmem]
      exact (and_iff_right hc).symm
    · simp [hc]

section

variable {debug : Bool} {me target source : Dhkey} {find_sender : Bool} {now : ℕ → ℚ}
  {pheromones : List PheromoneSlot}

lemma hops_new {now : ℚ} {bloom : NeuropilBloom} (hsrc : source ≠ .zero) :
    hops find_sender (newPheromone me now (oneWay target source find_sender) bloom) =
      [⟨source, now⟩] := by
  have hside := side_oneWay target hsrc find_sender
  cases find_sender with
  | true =>
    obtain ⟨hneg, -, ⟨⟩⟩ | ⟨hpos, -⟩ := (exists_side _ (· = true)).1 ⟨true, hside, rfl⟩
    rw [hops, if_pos rfl, newPheromone_recv hpos]
    rfl
  | false =>
    obtain ⟨hneg, -⟩ | ⟨-, -, ⟨⟩⟩ := (exists_side _ (· = false)).1 ⟨false, hside, rfl⟩
    rw [hops, if_neg (by decide), newPheromone_send hneg]
    rfl

variable {ps : List PheromoneSlot}

lemma shown_refreshed {top : NeuropilBloom}
    (h : Looped me now target source find_sender 1 create false pheromones (ps, top, true)) :
    Shown find_sender target source ⟨top, ps⟩ ↔
      Recorded me now target source find_sender pheromones := by
  have hany : pheromones.any (carries target) = true := by simpa using h.updated.symm
  have hchk : check top target = true ↔ ∀ k,
      (pheromones.map (countAfter me target source find_sender (cellOf target k))).sum % 256 ≠
        0 := by
    rw [check_iff_count (fun k => h.age k (.inr hany))]
    simp only [h.count, create, UInt8.toNat_zero, Nat.zero_add]
  rw [Shown, hchk, h.found]
  constructor
  · rintro ⟨hunion, hfnd⟩
    refine ⟨fun k => ?_, .inr hfnd⟩
    rw [if_pos hany]
    exact hunion k
  · rintro ⟨hunion, hfnd⟩
    refine ⟨fun k => ?_, hfnd.resolve_left (by simp [hany])⟩
    have hk := hunion k
    rwa [if_pos hany] at hk

lemma check_union_scent {top t : NeuropilBloom} (h : unionChecked top (scent target) = .ok t) :
    check t target = true ↔ ∀ k, ((top.bitset (cellOf target k)).count.toNat +
      ((scent target).bitset (cellOf target k)).count.toNat) % 256 ≠ 0 := by
  rw [check_iff_count]
  · simp only [unionChecked_inv h, unionCell_count]
  · intro k
    rw [unionChecked_inv h]
    exact unionCell_age_ne_zero (.inr (scent_age target k))

lemma shown_new {top t b : NeuropilBloom} {ts : ℚ} (hsrc : source ≠ .zero)
    (h : Looped me now target source find_sender 1 create false pheromones (ps, top, false))
    (ht : unionChecked top (scent target) = .ok t)
    (hb : unionChecked create (scent target) = .ok b) :
    Shown find_sender target source
        ⟨t, ps ++ [newPheromone me ts (oneWay target source find_sender) b]⟩ ↔
      Recorded me now target source find_sender pheromones := by
  have hany : pheromones.any (carries target) = false := by simpa using h.updated.symm
  have hchk : check t target = true ↔ ∀ k,
      ((pheromones.map (countAfter me target source find_sender (cellOf target k))).sum +
        ((scent target).bitset (cellOf target k)).count.toNat) % 256 ≠ 0 := by
    simp only [check_union_scent ht, h.count, create, UInt8.toNat_zero, Nat.zero_add,
      Nat.mod_add_mod]
  have hnew : check b target = true := by
    rw [check_union_scent hb]
    intro k
    simp only [create, UInt8.toNat_zero, Nat.zero_add]
    rw [Nat.mod_eq_of_lt (UInt8.toNat_lt _)]
    exact (scent_count target k).ne'
  rw [Shown, hchk]
  constructor
  · rintro ⟨hunion, _⟩
    refine ⟨fun k => ?_, .inl hany⟩
    rw [if_neg (by simp [hany])]
    exact hunion k
  · rintro ⟨hunion, _⟩
    refine ⟨fun k => ?_, _, mem_append_right _ (mem_singleton_self _), ?_, ?_⟩
    · have hk := hunion k
      rwa [if_neg (by simp [hany])] at hk
    · rw [hops_new hsrc]
      simp [peers]
    · rw [newPheromone_bloom]
      exact hnew

lemma inhaleEntry_shown (hsrc : source ≠ .zero) (hp : ∀ p ∈ pheromones, Backed p)
    (h : inhaleEntry debug me now (oneWay target source find_sender) (scent target) pheromones =
      .ok (entry, true)) :
    Shown find_sender target source entry ↔
      Recorded me now target source find_sender pheromones := by
  obtain ⟨ps, top, updated, hloop, hr | ⟨rfl, t, b, ht, hb, hr⟩⟩ := inhaleEntry_inv h
  · obtain ⟨rfl, hret⟩ := Prod.mk.inj hr
    obtain ⟨rfl, _⟩ := and_eq_true_iff.mp hret.symm
    exact shown_refreshed (inhaleLoop_looped hsrc hp hloop)
  · cases hr
    exact shown_new hsrc (inhaleLoop_looped hsrc hp hloop) ht hb

end

lemma oneWay_pos (target : Dhkey) {source : Dhkey} (hsrc : source ≠ .zero)
    (find_sender : Bool) : (oneWay target source find_sender).pos ≠ 0 := by
  intro h
  have hside := side_oneWay target hsrc find_sender
  simp [side, h] at hside

/-- In every reachable table, a source whose call was successful is found by
the search that follows exactly if the call records it. -/
theorem snuffled_iff {debug : Bool} {me : Dhkey} {events : List Event}
    {table table' : PheromoneTable} (hreach : after debug me events = .ok table)
    {target source : Dhkey} (hsource : source ≠ Dhkey.zero) {find_sender : Bool} {now : ℕ → ℚ}
    (h : inhaleTarget debug me now table target source find_sender (!find_sender) =
      .ok (table', true)) :
    source ∈ snuffleBack find_sender table' target ↔
      Recorded me now target source find_sender (pheromonesAt table target) := by
  rw [inhaleTarget_eq (oneWay_pos target hsource find_sender), ← oneWay] at h
  obtain ⟨⟨entry, ret⟩, he, heq⟩ := map_eq_ok h
  obtain ⟨rfl, hret⟩ := Prod.mk.inj heq
  obtain ⟨_, rfl⟩ := and_eq_true_iff.mp hret
  rw [mem_snuffleBack (Function.update_self _ _ _)]
  exact inhaleEntry_shown hsource (forall_pheromonesAt (after_backed hreach) target) he

lemma recorded_first (me : Dhkey) (now : ℕ → ℚ) (target source : Dhkey) (find_sender : Bool) :
    Recorded me now target source find_sender [] := by
  refine ⟨fun k => ?_, .inl rfl⟩
  have hpos := scent_count target k
  have hlt := ((scent target).bitset (cellOf target k)).count.toNat_lt
  simp only [map_nil, sum_nil, any_nil, false_eq_true, ↓reduceIte]
  omega

theorem snuffled_first : ∃ table', inhaleTarget false (ofWord 8) (fun _ => 0) empty
      (ofWord 1) (ofWord 9) true false = .ok (table', true) ∧
    ofWord 9 ∈ snuffleBack true table' (ofWord 1) := by
  have hinh := first_inhale false (ofWord 8) (inhaleFrom 9) (by decide)
  refine ⟨_, hinh, ?_⟩
  have hreach : after false (ofWord 8) [] = .ok empty := rfl
  have hsrc : ofWord 9 ≠ Dhkey.zero := by decide
  exact (snuffled_iff hreach hsrc hinh).mpr (recorded_first _ _ _ _ _)

variable {p : PheromoneSlot}

lemma not_recorded_of_tied {me target source : Dhkey} {find_sender : Bool} {now : ℕ → ℚ}
    (hm : carries target p = true) (htie : Tied me source (rest source (hops find_sender p))) :
    ¬ Recorded me now target source find_sender [p] := by
  rintro ⟨_, hnone | ⟨i, q, hq, hf⟩⟩
  · simp [hm] at hnone
  · obtain rfl : p = q := by
      cases i with
      | zero => simpa using hq
      | succ i => simp at hq
    exact (hf.refreshed hm).1.notTied htie

lemma tied_not_snuffled {debug : Bool} {me : Dhkey} {target source : Dhkey} {find_sender : Bool}
    (now : ℕ → ℚ)
    (hsrc : source ≠ .zero) (hp : pheromonesAt table target = [p]) (hacc : Accounted p)
    (hm : carries target p = true) (htie : Tied me source (rest source (hops find_sender p))) :
    ∃ table', inhaleTarget debug me now table target source find_sender (!find_sender) =
      .ok (table', true) ∧ source ∉ snuffleBack find_sender table' target := by
  have hs : (scent target).free_items = 63 := rfl
  have hall : ∀ q ∈ [p], Accounted q := by simpa using hacc
  have hb : ∀ q ∈ [p], Backed q := by simpa using ⟨hacc.capacity.le, hacc.send, hacc.recv⟩
  obtain ⟨_, hfull⟩ | ⟨entry, he, _⟩ :=
    inhaleEntry_accounted debug me now (oneWay target source find_sender) hs hall
  · exact absurd (.inl (by simp)) hfull
  · refine ⟨Function.update table (indexOf target) (some entry), ?_, ?_⟩
    · rw [inhaleTarget_eq (oneWay_pos target hsrc find_sender), ← oneWay, hp, he]
      cases find_sender <;> rfl
    · rw [mem_snuffleBack (Function.update_self _ _ _), inhaleEntry_shown hsrc hb he]
      exact not_recorded_of_tied hm htie

/-- The second of two sources at the same distance from the own key. -/
theorem twin_not_snuffled :
    ¬ ∀ (events : List Event) (table table' : PheromoneTable) (target source : Dhkey)
      (find_sender : Bool) (now : ℕ → ℚ), after false (ofWord 8) events = .ok table →
      source ≠ Dhkey.zero →
      inhaleTarget false (ofWord 8) now table target source find_sender (!find_sender) =
        .ok (table', true) → source ∈ snuffleBack find_sender table' target := by
  intro h
  have hpos : (inhaleFrom 9).intent.pos > 0 := by decide
  have hsrc : ofWord 7 ≠ Dhkey.zero := by decide
  have hst := first_step false (ofWord 8) (inhaleFrom 9) (by omega)
  have hacc : Accounted (firstPheromone (ofWord 8) (inhaleFrom 9)) :=
    newPheromone_accounted _ _ _ rfl
  have hm : carries (inhaleFrom 9).target (firstPheromone (ofWord 8) (inhaleFrom 9)) = true := by
    apply intersectTest_of_eq
    rw [firstPheromone, newPheromone_bloom]
  have htie : Tied (ofWord 8) (ofWord 7) (rest (ofWord 7)
      (hops true (firstPheromone (ofWord 8) (inhaleFrom 9)))) := by
    rw [hops, if_pos rfl, firstPheromone, newPheromone_recv hpos]
    exact ⟨⟨ofWord 9, 0⟩, rfl, (Dhkey.cmp_eq_zero_iff _ _).mp (by decide)⟩
  obtain ⟨table', hinh, hlost⟩ := tied_not_snuffled (fun _ => 0) hsrc
    (pheromonesAt_firstTable _ _) hacc hm htie
  exact hlost (h _ _ table' _ _ true _ hst hsrc hinh)

end Neuropil.Pheromone.SnuffleRuns
