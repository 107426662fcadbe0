import Neuropil.Pheromone.Backing

namespace Neuropil.Pheromone.Snuffle

open List Bloom.Filter Pheromone.Accounting Pheromone.Backing Pheromone.Peers Pheromone.Table

def rest (peer : Dhkey) (list : List Details) : List Details := (removeDhkey peer list).2

/-- A refreshed peer stays in its list: it is not tied, and if the list is full
then another peer counts as the oldest one. -/
structure Kept (me : Dhkey) (now : ℚ) (peer : Dhkey) (list : List Details) : Prop where
  notTied : ¬ Tied me peer (rest peer list)
  notOldest : maxNexthopKeys ≤ (rest peer list).length →
    (stopAt me peer (rest peer list) = [] →
      ∀ d, (rest peer list).head? = some d → d.insert_ts ≤ now) ∧
    (stopAt me peer (rest peer list) ≠ [] → ∃ d ∈ rest peer list, d.insert_ts < now)

def lowered (me peer : Dhkey) (list : List Details) : ℕ :=
  (if peer ∈ peers list then 1 else 0) +
    if ¬ Tied me peer (rest peer list) ∧ maxNexthopKeys ≤ (rest peer list).length then 1 else 0

lemma removeLast_concat (p : Details → Bool) (list : List Details) (d : Details) :
    removeLast p (list ++ [d]) = if p d then list else removeLast p list ++ [d] := by
  rw [removeLast, reverse_append, reverse_singleton, singleton_append]
  split_ifs with hp
  · rw [eraseP_cons_of_pos hp, reverse_reverse]
  · rw [eraseP_cons_of_neg hp, reverse_cons, removeLast]

lemma mem_removeOldest_append {list : List Details} {new first : Details}
    (hnew : new.peer_id ∉ peers list) (hfst : list.head? = some first) :
    new.peer_id ∈ peers (removeOldestDhkey (list ++ [new])) ↔ first.insert_ts ≤ new.insert_ts := by
  obtain ⟨tail, rfl⟩ := head?_eq_some_iff.mp hfst
  have hmem : ∀ l : List Details, new.peer_id ∈ peers (l ++ [new]) := fun l => by simp [peers]
  rw [cons_append, removeOldestDhkey]
  by_cases hold : new.insert_ts < first.insert_ts
  · have hp : olderThan first.insert_ts new = true := by simpa [olderThan] using hold
    have hany : (tail ++ [new]).any (olderThan first.insert_ts) = true := by simp [hp]
    rw [if_pos hany, removeLast_concat, if_pos hp]
    exact iff_of_false hnew (not_le.mpr hold)
  · have hp : ¬ olderThan first.insert_ts new = true := by simpa [olderThan] using hold
    refine iff_of_true ?_ (not_lt.mp hold)
    split_ifs with hany
    · rw [removeLast_concat, if_neg hp]
      exact mem_cons_of_mem _ (hmem _)
    · exact hmem tail

lemma mem_removeOldest_cons {list : List Details} {new : Details}
    (hnew : new.peer_id ∉ peers list) : new.peer_id ∈ peers (removeOldestDhkey (new :: list)) ↔
      ∃ d ∈ list, d.insert_ts < new.insert_ts := by
  have hany : list.any (olderThan new.insert_ts) = true ↔
      ∃ d ∈ list, d.insert_ts < new.insert_ts := by
    simp [olderThan]
  rw [removeOldestDhkey]
  split_ifs with h
  · exact iff_of_true (by simp [peers]) (hany.mp h)
  · exact iff_of_false hnew (fun hd => h (hany.mpr hd))

section

variable {me peer : Dhkey} {now : ℚ} {bloom : NeuropilBloom} {list : List Details} {other : ℕ}

lemma trim_full (h : maxNexthopKeys < list.length) :
    trim bloom list = (countDecrement bloom, removeOldestDhkey list) :=
  if_pos h

lemma trim_short (h : list.length ≤ maxNexthopKeys) : trim bloom list = (bloom, list) :=
  if_neg (not_lt.mpr h)

lemma length_rest (hb : Bounded list) : (rest peer list).length ≤ maxNexthopKeys :=
  (bounded_removeDhkey hb peer).2

lemma kept_iff (hb : Bounded list) :
    peer ∈ peers (refresh me now peer bloom list).2 ↔ Kept me now peer list := by
  have hrest : peer ∉ peers (rest peer list) := not_mem_removeDhkey hb.1
  have hlen : (rest peer list).length ≤ maxNexthopKeys := length_rest hb
  rw [refresh, ← rest]
  by_cases htie : Tied me peer (rest peer list)
  · rw [insert_tied now htie, trim_short hlen]
    exact iff_of_false hrest (fun h => h.notTied htie)
  have hins := (insert_perm now htie).length_eq
  rw [length_cons] at hins
  by_cases hfull : maxNexthopKeys ≤ (rest peer list).length
  · rw [trim_full (by omega)]
    obtain ⟨hstop, heq⟩ | ⟨hstop, heq⟩ := insert_not_tied now htie
    · obtain ⟨first, hfst⟩ : ∃ d, (rest peer list).head? = some d := by
        cases hl : rest peer list with
        | nil => simp [hl, maxNexthopKeys] at hfull
        | cons d tail => exact ⟨d, rfl⟩
      have hiff : peer ∈ peers (removeOldestDhkey (rest peer list ++ [⟨peer, now⟩])) ↔
          first.insert_ts ≤ now := mem_removeOldest_append hrest hfst
      rw [heq, hiff]
      constructor
      · intro hle
        refine ⟨htie, fun _ => ⟨fun _ d hd => ?_, fun h => absurd hstop h⟩⟩
        rw [hfst, Option.some.injEq] at hd
        exact hd ▸ hle
      · intro h
        exact (h.notOldest hfull).1 hstop first hfst
    · have hiff : peer ∈ peers (removeOldestDhkey (⟨peer, now⟩ :: rest peer list)) ↔
          ∃ d ∈ rest peer list, d.insert_ts < now := mem_removeOldest_cons hrest
      rw [heq, hiff]
      constructor
      · intro hd
        exact ⟨htie, fun _ => ⟨fun h => absurd h hstop, fun _ => hd⟩⟩
      · intro h
        exact (h.notOldest hfull).2 hstop
  · rw [trim_short (by omega)]
    refine iff_of_true ?_ ⟨htie, fun h => absurd h hfull⟩
    have hmem := ((insert_perm now htie).map Details.peer_id).mem_iff (a := peer)
    exact hmem.mpr (by simp)

lemma refresh_count (h : bloom.free_items + (list.length + other) ≤ 64) (hb : Bounded list)
    (c : Fin 1020) : ((refresh me now peer bloom list).1.bitset c).count.toNat =
      (bloom.bitset c).count.toNat - lowered me peer list := by
  have hcap := removed_capacity h peer
  have hlen : (rest peer list).length ≤ maxNexthopKeys := length_rest hb
  have hrem : ((if (removeDhkey peer list).1 then countDecrement bloom else bloom).bitset
      c).count.toNat = (bloom.bitset c).count.toNat - if peer ∈ peers list then 1 else 0 := by
    by_cases hany : (removeDhkey peer list).1 = true
    · have hlt : (removeDhkey peer list).2.length + 1 = list.length := length_removeLast hany
      rw [if_pos hany, if_pos ((any_isPeer_iff peer list).mp hany), countDecrement_count (by omega)]
    · rw [if_neg hany, if_neg (fun hm => hany ((any_isPeer_iff peer list).mpr hm)), Nat.sub_zero]
  rw [lowered, ← Nat.sub_sub, ← hrem, refresh, ← rest]
  rw [← rest] at hcap
  generalize (if (removeDhkey peer list).1 then countDecrement bloom else bloom) = b at *
  by_cases htie : Tied me peer (rest peer list)
  · rw [insert_tied now htie, trim_short hlen, if_neg (fun hn => hn.1 htie), Nat.sub_zero]
  have hins := (insert_perm now htie).length_eq
  rw [length_cons] at hins
  by_cases hfull : maxNexthopKeys ≤ (rest peer list).length
  · rw [trim_full (by omega), if_pos ⟨htie, hfull⟩]
    rw [maxNexthopKeys] at hfull
    exact countDecrement_count (by omega) c
  · rw [trim_short (by omega), if_neg (fun hn => hfull hn.2), Nat.sub_zero]

end

def carries (target : Dhkey) (p : PheromoneSlot) : Bool := intersectTest p.subj_bloom (scent target)

def oneWay (target source : Dhkey) (find_sender : Bool) : Intent :=
  targetIntent target source (scent target) find_sender (!find_sender)

def countAfter (me target source : Dhkey) (find_sender : Bool) (c : Fin 1020) (p : PheromoneSlot) :
    ℕ :=
  if carries target p then
    (p.subj_bloom.bitset c).count.toNat - lowered me source (hops find_sender p) +
      ((scent target).bitset c).count.toNat
  else (p.subj_bloom.bitset c).count.toNat

structure Findable (me : Dhkey) (now : ℚ) (target source : Dhkey) (find_sender : Bool)
    (p : PheromoneSlot) : Prop where
  refreshed : carries target p = true → Kept me now source (hops find_sender p) ∧
    ∀ k, countAfter me target source find_sender (cellOf target k) p % 256 ≠ 0
  untouched : carries target p = false → source ∈ peers (hops find_sender p) ∧
    check p.subj_bloom target = true

/-- The call leaves the source where a search for its target finds it. -/
structure Recorded (me : Dhkey) (now : ℕ → ℚ) (target source : Dhkey) (find_sender : Bool)
    (pheromones : List PheromoneSlot) : Prop where
  union : ∀ k, ((pheromones.map (countAfter me target source find_sender (cellOf target k))).sum +
    if pheromones.any (carries target) then 0
    else ((scent target).bitset (cellOf target k)).count.toNat) % 256 ≠ 0
  found : pheromones.any (carries target) = false ∨
    ∃ i p, pheromones[i]? = some p ∧ Findable me (now (1 + i)) target source find_sender p

variable {me target source : Dhkey} {find_sender : Bool}

lemma side_oneWay (target : Dhkey) (hsource : source ≠ .zero) (find_sender : Bool) :
    side (oneWay target source find_sender) = some find_sender := by
  have hpos : ¬ ((target.word 0).toNat % 257 : ℤ) + 1 < 0 := by omega
  cases find_sender <;> simp [side, oneWay, targetIntent, calcTablePosition, hsource] <;> omega

lemma peerOf_oneWay (target source : Dhkey) (find_sender : Bool) :
    peerOf find_sender (oneWay target source find_sender) = source := by
  cases find_sender <;> rfl

lemma inhaleOne_oneWay {now : ℚ} {p : PheromoneSlot} {r : PheromoneSlot × Bool}
    (hsource : source ≠ .zero) (h : inhaleOne me now (oneWay target source find_sender)
      (scent target) p = .ok r) :
    (carries target p = true ∧ ∃ u,
      union (refresh me now source p.subj_bloom (hops find_sender p)).1 (scent target) = .ok u ∧
        r = (setHops find_sender p u
          (refresh me now source p.subj_bloom (hops find_sender p)).2, true)) ∨
    (carries target p = false ∧ r = (p, false)) := by
  obtain ⟨hm, d, u, hd, hu, rfl⟩ | ⟨hkeep, rfl⟩ := inhaleOne_inv h
  · rw [side_oneWay target hsource find_sender] at hd
    cases hd
    rw [refreshed, peerOf_oneWay] at hu ⊢
    exact .inl ⟨hm, u, hu, rfl⟩
  · refine .inr ⟨Bool.eq_false_iff.mpr fun hm => ?_, rfl⟩
    rw [side_oneWay target hsource find_sender] at hkeep
    cases hkeep hm

section

variable {now : ℚ} {p : PheromoneSlot} {r : PheromoneSlot × Bool}

lemma round_count (hsource : source ≠ .zero) (hp : Backed p)
    (h : inhaleOne me now (oneWay target source find_sender) (scent target) p = .ok r)
    (c : Fin 1020) :
    (r.1.subj_bloom.bitset c).count.toNat = countAfter me target source find_sender c p % 256 := by
  obtain ⟨hcap, hb, _⟩ := (backed_iff_hops find_sender).1 hp
  obtain ⟨hm, u, hu, rfl⟩ | ⟨hm, rfl⟩ := inhaleOne_oneWay hsource h
  · rw [setHops_bloom, (union_inv hu rfl).2, unionCell_count, countAfter, if_pos hm,
      refresh_count hcap hb]
  · rw [countAfter, if_neg (by simp [hm])]
    exact (Nat.mod_eq_of_lt (UInt8.toNat_lt _)).symm

section

variable (hsource : source ≠ Dhkey.zero)
  (h : inhaleOne me now (oneWay target source find_sender) (scent target) p = .ok r)
include hsource h

lemma round_age (hm : carries target p = true) (k : Fin 8) :
    (r.1.subj_bloom.bitset (cellOf target k)).age ≠ 0 := by
  obtain ⟨_, u, hu, rfl⟩ | ⟨hn, _⟩ := inhaleOne_oneWay hsource h
  · rw [setHops_bloom, (union_inv hu rfl).2]
    exact unionCell_age_ne_zero (.inr (scent_age target k))
  · rw [hm] at hn
    cases hn

lemma round_updated : r.2 = carries target p := by
  obtain ⟨hm, u, _, rfl⟩ | ⟨hm, rfl⟩ := inhaleOne_oneWay hsource h
  · exact hm.symm
  · exact hm.symm

end

lemma round_found (hsource : source ≠ .zero) (hp : Backed p)
    (h : inhaleOne me now (oneWay target source find_sender) (scent target) p = .ok r) :
    (source ∈ peers (hops find_sender r.1) ∧ check r.1.subj_bloom target = true) ↔
      Findable me now target source find_sender p := by
  have hcount := round_count hsource hp h
  have hage := round_age hsource h
  obtain ⟨hm, u, _, rfl⟩ | ⟨hm, rfl⟩ := inhaleOne_oneWay hsource h
  · rw [hops_setHops, kept_iff ((backed_iff_hops find_sender).1 hp).2.1, check_iff_count (hage hm)]
    simp only [hcount]
    exact ⟨fun hf => ⟨fun _ => hf, fun hn => absurd (hm.symm.trans hn) (by decide)⟩,
      fun hf => hf.refreshed hm⟩
  · exact ⟨fun hf => ⟨fun hy => absurd (hm.symm.trans hy) (by decide), fun _ => hf⟩,
      fun hf => hf.untouched hm⟩

end

structure Looped (me : Dhkey) (now : ℕ → ℚ) (target source : Dhkey) (find_sender : Bool) (i : ℕ)
    (top : NeuropilBloom) (update_filter : Bool) (pheromones : List PheromoneSlot)
    (r : List PheromoneSlot × NeuropilBloom × Bool) : Prop where
  updated : r.2.2 = (update_filter || pheromones.any (carries target))
  count : ∀ c, (r.2.1.bitset c).count.toNat = ((top.bitset c).count.toNat +
    (pheromones.map (countAfter me target source find_sender c)).sum) % 256
  age : ∀ k, (top.bitset (cellOf target k)).age ≠ 0 ∨ pheromones.any (carries target) = true →
    (r.2.1.bitset (cellOf target k)).age ≠ 0
  found : (∃ p ∈ r.1, source ∈ peers (hops find_sender p) ∧ check p.subj_bloom target = true) ↔
    ∃ j p, pheromones[j]? = some p ∧ Findable me (now (i + j)) target source find_sender p

lemma unionChecked_inv {top bloom u : NeuropilBloom} (h : unionChecked top bloom = .ok u) :
    u.bitset = fun c => unionCell (top.bitset c) (bloom.bitset c) := by
  rw [unionChecked] at h
  split_ifs at h
  have hu := ofFilter_inv h
  rw [union] at hu
  split_ifs at hu
  cases hu
  rfl

lemma findable_cons {now : ℕ → ℚ} (p : PheromoneSlot) (rest : List PheromoneSlot) (i : ℕ) :
    (∃ j q, (p :: rest)[j]? = some q ∧ Findable me (now (i + j)) target source find_sender q) ↔
      Findable me (now i) target source find_sender p ∨
        ∃ j q, rest[j]? = some q ∧ Findable me (now (i + 1 + j)) target source find_sender q := by
  constructor
  · rintro ⟨j, q, hj, hf⟩
    cases j with
    | zero =>
      cases hj
      exact .inl hf
    | succ j =>
      refine .inr ⟨j, q, hj, ?_⟩
      rwa [Nat.add_right_comm]
  · rintro (hf | ⟨j, q, hj, hf⟩)
    · exact ⟨0, p, rfl, hf⟩
    · refine ⟨j + 1, q, hj, ?_⟩
      rwa [Nat.add_right_comm] at hf

lemma inhaleLoop_looped {now : ℕ → ℚ} (hsource : source ≠ .zero)
    {pheromones : List PheromoneSlot} (hp : ∀ p ∈ pheromones, Backed p) {i : ℕ}
    {top : NeuropilBloom} {update_filter : Bool} {r : List PheromoneSlot × NeuropilBloom × Bool}
    (h : inhaleLoop me now (oneWay target source find_sender) (scent target) i top update_filter
      pheromones = .ok r) :
    Looped me now target source find_sender i top update_filter pheromones r := by
  induction pheromones generalizing i top update_filter r with
  | nil =>
    cases h
    refine ⟨by simp, fun c => ?_, fun k hk => by simpa using hk, by simp⟩
    simp only [map_nil, sum_nil, Nat.add_zero]
    exact (Nat.mod_eq_of_lt (UInt8.toNat_lt _)).symm
  | cons p rest ih =>
    obtain ⟨hp, hrest⟩ := forall_mem_cons.mp hp
    obtain ⟨p', updated, u, ps, hone, hu, hloop, heq⟩ := inhaleLoop_inv h
    have hih := ih hrest hloop
    have hcount := round_count hsource hp hone
    have hfnd := round_found hsource hp hone
    have hupd : updated = carries target p := round_updated hsource hone
    have hb := unionChecked_inv hu
    constructor
    · rw [hih.updated, hupd, any_cons, Bool.or_assoc]
    · intro c
      rw [hih.count]
      simp only [hb, unionCell_count, hcount, map_cons, sum_cons]
      omega
    · intro k hk
      apply hih.age
      simp only [hb]
      by_cases hm : carries target p = true
      · exact .inl (unionCell_age_ne_zero (.inr (round_age hsource hone hm k)))
      · obtain hk | hk := hk
        · exact .inl (unionCell_age_ne_zero (.inl hk))
        · exact .inr (by simpa [hm] using hk)
    · rw [heq, exists_mem_cons_iff, hfnd, hih.found, findable_cons]

end Neuropil.Pheromone.Snuffle
