import Neuropil.Pheromone.Table

namespace Neuropil.Pheromone.Accounting

open List Bloom.Filter Pheromone.Peers Pheromone.Table

/-- A list of next hops holds each peer once and has a bounded length. -/
def Bounded (list : List Details) : Prop := (peers list).Nodup ∧ list.length ≤ maxNexthopKeys

/-- The items a pheromone has taken from its filter are its peers. -/
structure Accounted (p : PheromoneSlot) : Prop where
  capacity : p.subj_bloom.free_items + (p.send_list.length + p.recv_list.length) = 64
  send : Bounded p.send_list
  recv : Bounded p.recv_list

section

variable {bloom : NeuropilBloom} {list : List Details} {other : ℕ}

lemma bounded_removeDhkey (h : Bounded list) (peer : Dhkey) :
    Bounded (removeDhkey peer list).2 := by
  have hsub := removeLast_sublist (isPeer peer) list
  exact ⟨(hsub.map _).nodup h.1, hsub.length_le.trans h.2⟩

lemma removed_capacity (h : bloom.free_items + (list.length + other) ≤ 64) (peer : Dhkey) :
    (if (removeDhkey peer list).1 then countDecrement bloom else bloom).free_items +
      ((removeDhkey peer list).2.length + other) = bloom.free_items + (list.length + other) := by
  by_cases hany : (removeDhkey peer list).1 = true
  · have hlen : (removeDhkey peer list).2.length + 1 = list.length := length_removeLast hany
    rw [if_pos hany, countDecrement_of_lt (by omega)]
    omega
  · have hkeep : (removeDhkey peer list).2 = list := removeLast_of_not_any hany
    rw [if_neg hany, hkeep]

lemma trim_capacity (h : bloom.free_items + (list.length + other) ≤ 65) :
    (trim bloom list).1.free_items + ((trim bloom list).2.length + other) =
      bloom.free_items + (list.length + other) := by
  by_cases hfull : list.length > maxNexthopKeys
  · rw [trim, if_pos hfull]
    rw [maxNexthopKeys] at hfull
    have hpos : 0 < list.length := by omega
    have hlen := length_removeOldest hpos
    rw [countDecrement_of_lt (by omega)]
    simp only
    omega
  · rw [trim, if_neg hfull]

lemma bounded_trim (hnd : (peers list).Nodup) (hlen : list.length ≤ maxNexthopKeys + 1) :
    Bounded (trim bloom list).2 := by
  by_cases hfull : list.length > maxNexthopKeys
  · rw [trim, if_pos hfull]
    have hpos : 0 < list.length := by omega
    have hlen' := length_removeOldest hpos
    exact ⟨((removeOldest_sublist list).map _).nodup hnd, by simp only; omega⟩
  · rw [trim, if_neg hfull]
    exact ⟨hnd, not_lt.mp hfull⟩

lemma nodup_insert {me peer : Dhkey} (now : ℚ) (hb : Bounded list)
    (htie : ¬ Tied me peer (removeDhkey peer list).2) :
    (peers (insertDhkey me now peer (removeDhkey peer list).2)).Nodup := by
  apply ((insert_perm now htie).map Details.peer_id).nodup_iff.mpr
  exact nodup_cons.mpr ⟨not_mem_removeDhkey hb.1, (bounded_removeDhkey hb peer).1⟩

lemma bounded_refresh (bloom : NeuropilBloom) (me peer : Dhkey) (now : ℚ) (hb : Bounded list) :
    Bounded (refresh me now peer bloom list).2 := by
  have hrest := bounded_removeDhkey hb peer
  have hlen := hrest.2
  rw [refresh]
  by_cases htie : Tied me peer (removeDhkey peer list).2
  · rw [insert_tied now htie]
    exact bounded_trim hrest.1 (by omega)
  · apply bounded_trim (nodup_insert now hb htie)
    rw [(insert_perm now htie).length_eq, length_cons]
    omega

lemma refresh_capacity (me peer : Dhkey) (now : ℚ)
    (h : bloom.free_items + (list.length + other) ≤ 64) :
    (refresh me now peer bloom list).1.free_items +
        ((refresh me now peer bloom list).2.length + other) =
      bloom.free_items + (list.length + other) +
        if Tied me peer (removeDhkey peer list).2 then 0 else 1 := by
  have hcap := removed_capacity h peer
  rw [refresh]
  by_cases htie : Tied me peer (removeDhkey peer list).2
  · rw [if_pos htie, insert_tied now htie, trim_capacity (by omega)]
    exact hcap
  · rw [if_neg htie]
    have hlen := (insert_perm now htie).length_eq
    rw [length_cons] at hlen
    rw [trim_capacity (by omega)]
    omega

end

variable (me : Dhkey)

def SlotTied (intent : Intent) (scent : NeuropilBloom) (p : PheromoneSlot) : Prop :=
  intersectTest p.subj_bloom scent = true ∧
    ((intent.pos < 0 ∧ intent.sender ≠ Dhkey.zero ∧
      Tied me intent.sender (removeDhkey intent.sender p.send_list).2) ∨
    (intent.pos > 0 ∧ intent.receiver ≠ Dhkey.zero ∧
      Tied me intent.receiver (removeDhkey intent.receiver p.recv_list).2))

def hops (find_sender : Bool) (p : PheromoneSlot) : List Details :=
  if find_sender then p.recv_list else p.send_list

def setHops (find_sender : Bool) (p : PheromoneSlot) (bloom : NeuropilBloom)
    (list : List Details) : PheromoneSlot :=
  if find_sender then { p with subj_bloom := bloom, recv_list := list }
  else { p with subj_bloom := bloom, send_list := list }

def side (intent : Intent) : Option Bool :=
  if intent.pos < 0 ∧ intent.sender ≠ Dhkey.zero then some false
  else if intent.pos > 0 ∧ intent.receiver ≠ Dhkey.zero then some true
  else none

def peerOf (find_sender : Bool) (intent : Intent) : Dhkey :=
  if find_sender then intent.receiver else intent.sender

def refreshed (now : ℚ) (intent : Intent) (find_sender : Bool) (p : PheromoneSlot) :
    NeuropilBloom × List Details :=
  refresh me now (peerOf find_sender intent) p.subj_bloom (hops find_sender p)

variable {bloom scent : NeuropilBloom}

section

variable (d : Bool) (p : PheromoneSlot) (list : List Details)

lemma setHops_bloom : (setHops d p bloom list).subj_bloom = bloom := by cases d <;> rfl

lemma hops_setHops : hops d (setHops d p bloom list) = list := by cases d <;> rfl

lemma hops_not_setHops : hops (!d) (setHops d p bloom list) = hops (!d) p := by cases d <;> rfl

lemma accounted_iff_hops {p : PheromoneSlot} :
    Accounted p ↔ p.subj_bloom.free_items + ((hops d p).length + (hops (!d) p).length) = 64 ∧
      Bounded (hops d p) ∧ Bounded (hops (!d) p) := by
  cases d
  · exact ⟨fun h => ⟨h.capacity, h.send, h.recv⟩, fun ⟨hc, hs, hr⟩ => ⟨hc, hs, hr⟩⟩
  · rw [Nat.add_comm (hops true p).length]
    exact ⟨fun h => ⟨h.capacity, h.recv, h.send⟩, fun ⟨hc, hr, hs⟩ => ⟨hc, hs, hr⟩⟩

end

lemma exists_side (intent : Intent) (P : Bool → Prop) :
    (∃ d ∈ side intent, P d) ↔ (intent.pos < 0 ∧ intent.sender ≠ .zero ∧ P false) ∨
      (intent.pos > 0 ∧ intent.receiver ≠ .zero ∧ P true) := by
  unfold side
  split_ifs with hs hr
  · have hneg : ¬ intent.pos > 0 := by omega
    simp [hs, hneg]
  · have hneg : ¬ intent.pos < 0 := by omega
    simp [hr, hneg]
  · refine iff_of_false (by simp) ?_
    rintro (⟨hpos, hne, _⟩ | ⟨hpos, hne, _⟩)
    · exact hs ⟨hpos, hne⟩
    · exact hr ⟨hpos, hne⟩

lemma slotTied_iff (intent : Intent) (scent : NeuropilBloom) (p : PheromoneSlot) :
    SlotTied me intent scent p ↔ intersectTest p.subj_bloom scent = true ∧ ∃ d ∈ side intent,
      Tied me (peerOf d intent) (removeDhkey (peerOf d intent) (hops d p)).2 := by
  rw [exists_side]
  rfl

lemma refresh_union {list : List Details} {other : ℕ} (me peer : Dhkey) (now : ℚ)
    (hs : scent.free_items = 63) (h : bloom.free_items + (list.length + other) = 64)
    (hb : Bounded list) (ho : other ≤ maxNexthopKeys) : Bounded (refresh me now peer bloom list).2 ∧
      ∃ u, union (refresh me now peer bloom list).1 scent = .ok u ∧ u.free_items ≤ 64 ∧
        (u.free_items + ((refresh me now peer bloom list).2.length + other) = 64 ↔
          ¬ Tied me peer (removeDhkey peer list).2) := by
  have hbd := bounded_refresh bloom me peer now hb
  have hcap := refresh_capacity me peer now h.le
  have hlen := hbd.2
  rw [maxNexthopKeys] at hlen ho
  refine ⟨hbd, _, union_ok (by split_ifs at hcap <;> omega), ?_, ?_⟩
  · simp only [hs]
    split_ifs at hcap <;> omega
  · simp only [hs]
    split_ifs at hcap with htie
    · exact iff_of_false (by omega) (not_not.mpr htie)
    · exact iff_of_true (by omega) htie

variable {p : PheromoneSlot} {intent : Intent}

lemma inhaleOne_side {me : Dhkey} {now : ℚ} {d : Bool}
    (hmatch : intersectTest p.subj_bloom scent = true) (hd : side intent = some d) :
    inhaleOne me now intent scent p =
      (ofFilter (union (refreshed me now intent d p).1 scent)).map fun u =>
        (setHops d p u (refreshed me now intent d p).2, true) := by
  rw [inhaleOne, if_pos hmatch]
  unfold side at hd
  split_ifs at hd with hs hr
  · cases hd
    have hlist : refreshed me now intent false p =
      refresh me now intent.sender p.subj_bloom p.send_list := rfl
    rw [if_pos hs, hlist]
    dsimp only
    cases ofFilter (union (refresh me now intent.sender _ _).1 scent) <;> rfl
  · cases hd
    have hlist : refreshed me now intent true p =
      refresh me now intent.receiver p.subj_bloom p.recv_list := rfl
    rw [if_neg hs, if_pos hr, hlist]
    dsimp only
    cases ofFilter (union (refresh me now intent.receiver _ _).1 scent) <;> rfl

lemma inhaleOne_keep {me : Dhkey} {now : ℚ}
    (h : intersectTest p.subj_bloom scent = true → side intent = none) :
    inhaleOne me now intent scent p = .ok (p, false) := by
  simp only [inhaleOne]
  split_ifs with hm hs hr
  · simp [side, hs] at h
    simp [h] at hm
  · simp [side, hs, hr] at h
    simp [h] at hm
  · rfl
  · rfl

lemma inhaleOne_accounted (intent : Intent) (now : ℚ) (hs : scent.free_items = 63)
    (h : Accounted p) : ∃ p' updated, inhaleOne me now intent scent p = .ok (p', updated) ∧
      p'.subj_bloom.free_items ≤ 64 ∧ (Accounted p' ↔ ¬ SlotTied me intent scent p) := by
  have hcap := h.capacity
  rw [slotTied_iff]
  by_cases hmatch : intersectTest p.subj_bloom scent = true
  · cases hside : side intent with
    | none =>
      refine ⟨p, false, inhaleOne_keep fun _ => hside, by omega, iff_of_true h ?_⟩
      simp
    | some d =>
      obtain ⟨hcap, hb, ho⟩ := (accounted_iff_hops d).1 h
      obtain ⟨hb', u, hu, hle, hiff⟩ := refresh_union me (peerOf d intent) now hs hcap hb ho.2
      rw [← refreshed] at hb' hu hiff
      refine ⟨_, _, by rw [inhaleOne_side hmatch hside, hu]; rfl, ?_, ?_⟩
      · rwa [setHops_bloom]
      · rw [accounted_iff_hops d, setHops_bloom, hops_setHops, hops_not_setHops, hiff]
        simp [hmatch, hb', ho]
  · exact ⟨p, false, inhaleOne_keep fun hk => absurd hk hmatch, by omega,
      iff_of_true h fun ht => hmatch ht.1⟩

variable {top : NeuropilBloom}

lemma unionChecked_full (htop : top.free_items = 64) (hle : bloom.free_items ≤ 64) :
    ∃ u, unionChecked top bloom = .ok u ∧ u.free_items = bloom.free_items ∧
      u.bitset = fun c => unionCell (top.bitset c) (bloom.bitset c) := by
  refine ⟨⟨top.free_items + bloom.free_items - 64, _⟩, ?_, by simp only; omega, rfl⟩
  rw [unionChecked, if_pos (by omega), union_ok (by omega)]
  rfl

lemma inhaleLoop_accounted (intent : Intent) (now : ℕ → ℚ)
    (hs : scent.free_items = 63) {pheromones : List PheromoneSlot}
    (h : ∀ p ∈ pheromones, Accounted p) (i : ℕ) (htop : top.free_items = 64)
    (update_filter : Bool) :
    ∃ ps top' updated,
      inhaleLoop me now intent scent i top update_filter pheromones = .ok (ps, top', updated) ∧
      ps.length = pheromones.length ∧ top'.free_items = 64 ∧
      ((∀ p ∈ ps, Accounted p) ↔ ∀ p ∈ pheromones, ¬ SlotTied me intent scent p) := by
  induction pheromones generalizing i top update_filter with
  | nil => exact ⟨[], top, update_filter, rfl, rfl, htop, by simp⟩
  | cons p rest ih =>
    obtain ⟨hp, hrest⟩ := forall_mem_cons.mp h
    obtain ⟨p', updated, hone, hle, hiff⟩ := inhaleOne_accounted me intent (now i) hs hp
    obtain ⟨u, hu, _, _⟩ := unionChecked_full htop hle
    have hreset : ({ u with free_items := 64 } : NeuropilBloom).free_items = 64 := rfl
    obtain ⟨ps, top', updated', hloop, hlen, htop', hiff'⟩ :=
      ih hrest (i + 1) hreset (update_filter || updated)
    refine ⟨p' :: ps, top', updated', ?_, by simp [hlen], htop', ?_⟩
    · simp only [inhaleLoop, hone, hu, hloop, bind, Except.bind, pure, Except.pure]
    · rw [forall_mem_cons, forall_mem_cons, hiff, hiff']

lemma newPheromone_accounted (now : ℚ) (intent : Intent)
    (h : bloom.free_items = 63) : Accounted (newPheromone me now intent bloom) := by
  have he : Bounded [] := ⟨nodup_nil, by simp⟩
  have hone : ∀ peer, Bounded (insertDhkey me now peer []) :=
    fun peer => ⟨by simp [insertDhkey, stopAt, peers],
      by simp [insertDhkey, stopAt, maxNexthopKeys]⟩
  simp only [newPheromone]
  split_ifs
  · exact ⟨by simp [h, insertDhkey, stopAt], he, hone _⟩
  · exact ⟨by simp [h, insertDhkey, stopAt], hone _, he⟩

end Neuropil.Pheromone.Accounting
