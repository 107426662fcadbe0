import Mathlib.Data.List.TakeWhile
import Neuropil.Lib.Run
import Neuropil.Pheromone.Peers

namespace Neuropil.Pheromone.Scans

open List Lib.Run Pheromone.Peers

/-- One peer that no other one is older than has left the list. -/
def OldestDropped (list list' : List Details) : Prop :=
  ∃ before d after, list = before ++ d :: after ∧ list' = before ++ after ∧
    ∀ x ∈ list, d.insert_ts ≤ x.insert_ts

/-- Behind one of the oldest peers there is none that is older than the first one. -/
def OldestLast (list : List Details) : Prop :=
  ∃ before d after, list = before ++ d :: after ∧ (∀ x ∈ list, d.insert_ts ≤ x.insert_ts) ∧
    ∀ first ∈ list.head?, ∀ x ∈ after, first.insert_ts ≤ x.insert_ts

lemma removeLast_split {p : Details → Bool} {list : List Details} (h : list.any p = true) :
    ∃ before d after, list = before ++ d :: after ∧ removeLast p list = before ++ after ∧
      p d = true ∧ ∀ x ∈ after, ¬ p x = true := by
  obtain ⟨e, he, hp⟩ := any_eq_true.1 h
  obtain ⟨d, after, before, haft, hd, hspl, herase⟩ := exists_of_eraseP (mem_reverse.2 he) hp
  refine ⟨before.reverse, d, after.reverse, ?_, ?_, hd, fun x hx => haft x (mem_reverse.1 hx)⟩
  · rw [← reverse_reverse list, hspl]
    simp
  · rw [removeLast, herase, reverse_append]

lemma removeOldest_split (first : Details) (rest : List Details) :
    ∃ before d after, first :: rest = before ++ d :: after ∧
      removeOldestDhkey (first :: rest) = before ++ after ∧
      (∀ x ∈ after, first.insert_ts ≤ x.insert_ts) ∧
      (d.insert_ts < first.insert_ts ∨ ∀ x ∈ first :: rest, d.insert_ts ≤ x.insert_ts) := by
  have hyoung : ∀ x, ¬ olderThan first.insert_ts x = true → first.insert_ts ≤ x.insert_ts := by
    intro x hx
    exact not_lt.1 (of_decide_eq_false (Bool.eq_false_iff.2 hx))
  rw [removeOldestDhkey]
  split_ifs with h
  · obtain ⟨before, d, after, hspl, hremoved, hd, haft⟩ := removeLast_split h
    exact ⟨first :: before, d, after, by rw [hspl, cons_append], by rw [hremoved, cons_append],
      fun x hx => hyoung x (haft x hx), .inl (of_decide_eq_true hd)⟩
  · have hall : ∀ x ∈ rest, first.insert_ts ≤ x.insert_ts := by
      intro x hx
      exact hyoung x fun hold => h (any_eq_true.2 ⟨x, hx, hold⟩)
    exact ⟨[], first, rest, rfl, rfl, hall, .inr (forall_mem_cons.2 ⟨le_rfl, hall⟩)⟩

lemma oldestDropped_iff (first : Details) (rest : List Details) :
    OldestDropped (first :: rest) (removeOldestDhkey (first :: rest)) ↔
      OldestLast (first :: rest) := by
  obtain ⟨before, d, after, hspl, hremoved, hyoung, hold⟩ := removeOldest_split first rest
  constructor
  · rintro ⟨before', d', after', hspl', hremoved', hmin⟩
    -- the same list remains, so that the removed elements are the same
    have hperm : [d] ++ (before ++ after) ~ [d'] ++ (before' ++ after') := by
      have h := (perm_middle.symm.trans (.of_eq hspl.symm)).trans (.of_eq hspl')
      exact h.trans perm_middle
    rw [← hremoved', ← hremoved, perm_append_right_iff, singleton_perm_singleton] at hperm
    refine ⟨before, d, after, hspl, by rwa [hperm], ?_⟩
    rintro _ ⟨rfl⟩
    exact hyoung
  · rintro ⟨before', d', after', hspl', hmin, hyoung'⟩
    replace hyoung' := hyoung' first rfl
    refine ⟨before, d, after, hspl, hremoved, ?_⟩
    obtain hold | hall := hold
    swap
    · exact hall
    have hle : d'.insert_ts ≤ d.insert_ts := hmin d (by rw [hspl]; simp)
    -- neither of the two older elements stands behind the other
    obtain ⟨between, -, heq⟩ | ⟨between, -, heq⟩ := append_eq_append_iff.1 (hspl.symm.trans hspl')
    · cases between with
      | nil =>
        cases heq
        exact hmin
      | cons x between =>
        have hmem := hyoung d' (by rw [(cons.inj heq).2]; simp)
        exact absurd (hle.trans_lt hold) hmem.not_gt
    · cases between with
      | nil =>
        cases heq
        exact hmin
      | cons x between =>
        have hmem := hyoung' d (by rw [(cons.inj heq).2]; simp)
        exact absurd hold hmem.not_gt

/-- Just one of the oldest elements of a list is removed exactly if behind one of them there is no
element that is older than the first one. -/
theorem removes_oldest_iff (first : Details) (rest : List Details) :
    OldestDropped (first :: rest) (removeOldestDhkey (first :: rest)) ↔
      OldestLast (first :: rest) :=
  oldestDropped_iff first rest

def aged (i : UInt32) (ts : ℚ) : Details := ⟨.ofWord i, ts⟩

/-- Of the times 3, 1 and 2 the last one goes. -/
theorem oldest_stays : removeOldestDhkey [aged 1 3, aged 2 1, aged 3 2] = [aged 1 3, aged 2 1] := by
  rfl

def away (me peer : Dhkey) : ℕ := (Dhkey.distance me peer).value

/-- The peers that are further away come first. -/
def Ordered (me : Dhkey) (list : List Details) : Prop :=
  list.Pairwise fun d e => away me e.peer_id ≤ away me d.peer_id

structure Inserted (me peer : Dhkey) (list list' : List Details) : Prop where
  once : (peers list').count peer = 1
  kept : ∀ q ∈ peers list, q ∈ peers list'
  ordered : Ordered me list'

/-- The peer is further away than all the others, or nearer than all. -/
def Outermost (me peer : Dhkey) (others : List Dhkey) : Prop :=
  (∀ q ∈ others, away me q < away me peer) ∨ ∀ q ∈ others, away me peer < away me q

/-- The list that insertions of peers make of an empty one. -/
def built (me : Dhkey) (calls : List Details) : List Details :=
  run (fun list d => insertDhkey me d.insert_ts d.peer_id list) [] calls

def nearer (me peer : Dhkey) (d : Details) : Bool :=
  decide (Dhkey.cmp (Dhkey.distance me peer) (Dhkey.distance me d.peer_id) < 0)

section

variable {me peer : Dhkey} {list : List Details}

lemma nearer_iff (d : Details) : nearer me peer d = true ↔ away me peer < away me d.peer_id := by
  rw [nearer, decide_eq_true_eq, Dhkey.cmp_neg_iff]
  rfl

lemma stopAt_eq (me peer : Dhkey) (list : List Details) :
    stopAt me peer list = list.dropWhile (nearer me peer) := rfl

lemma away_le_of_stop {d : Details} (h : (stopAt me peer list).head? = some d) :
    d ∈ list ∧ away me d.peer_id ≤ away me peer := by
  obtain ⟨rest, hstop⟩ := head?_eq_some_iff.1 h
  refine ⟨(dropWhile_sublist _).subset (hstop ▸ mem_cons_self), not_lt.1 fun hlt => ?_⟩
  have hnot := head?_dropWhile_not (nearer me peer) list
  rw [← stopAt_eq, h] at hnot
  exact absurd ((nearer_iff d).2 hlt) (Bool.eq_false_iff.1 hnot)

lemma insert_right_iff (now : ℚ) (hord : Ordered me list) (hnew : peer ∉ peers list) :
    Inserted me peer list (insertDhkey me now peer list) ↔ Outermost me peer (peers list) := by
  by_cases htied : Tied me peer list
  · refine iff_of_false (fun h => ?_) (fun h => ?_)
    · have honce := h.once
      rw [insert_tied now htied, count_eq_zero.2 hnew] at honce
      cases honce
    · obtain ⟨d, hd, hdist⟩ := htied
      have hmem : d.peer_id ∈ peers list := mem_map_of_mem (away_le_of_stop hd).1
      have heq : away me peer = away me d.peer_id := congrArg Dhkey.value hdist
      obtain h | h := h
      · exact absurd heq (h _ hmem).ne'
      · exact absurd heq (h _ hmem).ne
  have hperm := (insert_perm now htied).map Details.peer_id
  have honce : (peers (insertDhkey me now peer list)).count peer = 1 := by
    rw [peers, hperm.count_eq, map_cons, count_cons_self, ← peers, count_eq_zero.2 hnew]
  have hkept : ∀ q ∈ peers list, q ∈ peers (insertDhkey me now peer list) := by
    intro q hq
    exact hperm.mem_iff.2 (mem_cons_of_mem _ hq)
  obtain ⟨hstop, heq⟩ | ⟨hstop, heq⟩ := insert_not_tied now htied
  · have hall : ∀ d ∈ list, away me peer < away me d.peer_id := by
      intro d hd
      exact (nearer_iff d).1 (dropWhile_eq_nil_iff.1 hstop d hd)
    refine iff_of_true ⟨honce, hkept, ?_⟩ (.inr (forall_mem_map.2 hall))
    rw [heq, Ordered, pairwise_append]
    refine ⟨hord, pairwise_singleton _ _, fun d hd e he => ?_⟩
    rw [mem_singleton.1 he]
    exact (hall d hd).le
  · obtain ⟨d, hd⟩ := Option.ne_none_iff_exists'.1 (mt head?_eq_none_iff.1 hstop)
    obtain ⟨hmem, hle⟩ := away_le_of_stop hd
    constructor
    · intro h
      have hord' := h.ordered
      rw [heq, Ordered, pairwise_cons] at hord'
      have hfurther : ∀ e ∈ list, away me e.peer_id ≤ away me peer := hord'.1
      refine .inl (forall_mem_map.2 fun e he => (hfurther e he).lt_of_ne fun hsame => htied ?_)
      -- a peer of the same distance is as far as the first one, where the walk stops
      cases list with
      | nil => cases hmem
      | cons first rest =>
        have hge : away me e.peer_id ≤ away me first.peer_id := by
          obtain rfl | he := mem_cons.1 he
          · exact le_rfl
          · exact rel_of_pairwise_cons hord he
        have hfst := hfurther first mem_cons_self
        have hpass : ¬ away me peer < away me first.peer_id := by omega
        refine ⟨first, ?_, Dhkey.value_injective (by rw [← away, ← away]; omega)⟩
        rw [stopAt_eq, dropWhile_cons_of_neg (mt (nearer_iff first).1 hpass), head?_cons]
    · rintro (hall | hall)
      · refine ⟨honce, hkept, ?_⟩
        rw [heq, Ordered, pairwise_cons]
        exact ⟨fun e he => (forall_mem_map.1 hall e he).le, hord⟩
      · exact absurd hle (not_le.2 (hall _ (mem_map_of_mem hmem)))

lemma insert_again (now : ℚ) (hord : Ordered me list) (hmem : peer ∈ peers list) :
    insertDhkey me now peer list = list := by
  obtain ⟨e, he, rfl⟩ := mem_map.1 hmem
  have hstays : e ∈ stopAt me e.peer_id list := by
    rw [← takeWhile_append_dropWhile (l := list) (p := nearer me e.peer_id), mem_append] at he
    refine he.resolve_left fun htake => ?_
    exact lt_irrefl _ ((nearer_iff e).1 (mem_takeWhile_imp htake))
  obtain ⟨d, rest, hstop⟩ := exists_cons_of_ne_nil (ne_nil_of_mem hstays)
  have hd : (stopAt me e.peer_id list).head? = some d := by rw [hstop, head?_cons]
  have hrest : Ordered me (d :: rest) := hstop ▸ hord.sublist (dropWhile_sublist _)
  have hge : away me e.peer_id ≤ away me d.peer_id := by
    obtain rfl | hmem := mem_cons.1 (hstop ▸ hstays)
    · exact le_rfl
    · exact rel_of_pairwise_cons hrest hmem
  exact insert_tied now ⟨d, hd, Dhkey.value_injective (hge.antisymm (away_le_of_stop hd).2)⟩

lemma built_ordered {calls : List Details}
    (h : ∀ before d, before ++ [d] <+: calls → d.peer_id ∉ peers before →
      Outermost me d.peer_id (peers before)) :
    Ordered me (built me calls) ∧ ∀ q, q ∈ peers (built me calls) ↔ q ∈ peers calls := by
  induction calls using reverseRecOn with
  | nil => exact ⟨.nil, fun _ => Iff.rfl⟩
  | append_singleton before d ih =>
    obtain ⟨hord, hmem⟩ := ih fun pre e hpre => h pre e (hpre.trans (prefix_append _ _))
    have hlast := h before d (prefix_refl _)
    have hpeers : ∀ q, q ∈ peers (before ++ [d]) ↔ q ∈ peers before ∨ q = d.peer_id := by
      simp [peers]
    rw [built, run_concat, ← built]
    by_cases hold : d.peer_id ∈ peers before
    · rw [insert_again d.insert_ts hord ((hmem _).2 hold)]
      refine ⟨hord, fun q => ?_⟩
      rw [hpeers, hmem, or_iff_left_of_imp]
      rintro rfl
      exact hold
    · have hnew : d.peer_id ∉ peers (built me before) := mt (hmem _).1 hold
      have hins := (insert_right_iff d.insert_ts hord hnew).2
        ((hlast hold).imp (fun hall q hq => hall q ((hmem q).1 hq))
          fun hall q hq => hall q ((hmem q).1 hq))
      refine ⟨hins.ordered, fun q => ?_⟩
      have htied : ¬ Tied me d.peer_id (built me before) := by
        intro htied
        have honce := hins.once
        rw [insert_tied _ htied, count_eq_zero.2 hnew] at honce
        cases honce
      have hperm := (insert_perm d.insert_ts htied).map Details.peer_id
      rw [hpeers, ← hmem, peers, hperm.mem_iff, map_cons, mem_cons, or_comm]
      rfl

end

/-- In a list made by insertions every new peer is inserted once, in its place and without a loss
exactly if every new peer is further away than all the peers before it, or nearer than all. -/
theorem inserted_iff (me : Dhkey) (calls : List Details) :
    (∀ before d, before ++ [d] <+: calls → d.peer_id ∉ peers (built me before) →
      Inserted me d.peer_id (built me before) (built me (before ++ [d]))) ↔
    ∀ before d, before ++ [d] <+: calls → d.peer_id ∉ peers before →
      Outermost me d.peer_id (peers before) := by
  have hstep : ∀ before d, (∀ pre e, pre ++ [e] <+: before → e.peer_id ∉ peers pre →
      Outermost me e.peer_id (peers pre)) →
      ((d.peer_id ∉ peers (built me before) →
        Inserted me d.peer_id (built me before) (built me (before ++ [d]))) ↔
        (d.peer_id ∉ peers before → Outermost me d.peer_id (peers before))) := by
    intro before d h
    obtain ⟨hord, hmem⟩ := built_ordered h
    have hsame : Outermost me d.peer_id (peers (built me before)) ↔
        Outermost me d.peer_id (peers before) := by
      simp only [Outermost, hmem]
    rw [← hsame, ← hmem]
    refine forall_congr' fun hnew => ?_
    rw [← insert_right_iff d.insert_ts hord hnew, built, built, run_concat]
  constructor
  · intro h
    induction calls using reverseRecOn with
    | nil => exact fun before d hp => by simp at hp
    | append_singleton calls last ih =>
      have hbefore := ih fun pre e hpre => h pre e (hpre.trans (prefix_append _ _))
      intro before d hp
      obtain heq | hp := prefix_concat_iff.1 hp
      · obtain ⟨rfl, hd⟩ := append_inj' heq rfl
        cases hd
        exact (hstep before last hbefore).1 (h before last (prefix_refl _))
      · exact hbefore before d hp
  · intro h before d hp
    refine (hstep before d fun pre e hpre => h pre e ?_).2 (h before d hp)
    exact (hpre.trans (prefix_append _ _)).trans hp

/-- A peer between two others comes before both. -/
theorem inserted_before_further :
    ¬ Ordered .zero (built .zero [⟨.ofWord 1, 0⟩, ⟨.ofWord 3, 0⟩, ⟨.ofWord 2, 0⟩]) := by
  unfold Ordered
  decide +kernel

end Neuropil.Pheromone.Scans
