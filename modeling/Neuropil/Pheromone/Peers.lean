import Mathlib.Algebra.Order.Ring.Rat
import Neuropil.Dhkey.Order

namespace Neuropil.Pheromone.Peers

open List

structure Details where
  peer_id : Dhkey
  insert_ts : ℚ

def peers (list : List Details) : List Dhkey := list.map Details.peer_id

def removeLast (p : Details → Bool) (list : List Details) : List Details :=
  (list.reverse.eraseP p).reverse

def isPeer (peer : Dhkey) (d : Details) : Bool := decide (d.peer_id = peer)

def removeDhkey (peer : Dhkey) (list : List Details) : Bool × List Details :=
  (list.any (isPeer peer), removeLast (isPeer peer) list)

def olderThan (ts : ℚ) (d : Details) : Bool := decide (d.insert_ts < ts)

/-- `__np_remove_oldest_dhkey`: the last element older than the first one, or the first one. -/
def removeOldestDhkey : List Details → List Details
  | [] => []
  | first :: rest =>
    if rest.any (olderThan first.insert_ts) then
      first :: removeLast (olderThan first.insert_ts) rest
    else rest

def stopAt (me peer : Dhkey) (list : List Details) : List Details :=
  list.dropWhile fun d =>
    decide (Dhkey.cmp (Dhkey.distance me peer) (Dhkey.distance me d.peer_id) < 0)

def insertDhkey (me : Dhkey) (now : ℚ) (peer : Dhkey) (list : List Details) : List Details :=
  match stopAt me peer list with
  | [] => list ++ [⟨peer, now⟩]
  | d :: _ =>
    if Dhkey.cmp (Dhkey.distance me peer) (Dhkey.distance me d.peer_id) = 0 then list
    else ⟨peer, now⟩ :: list

/-- The walk of an insertion stops at a peer with the same distance. -/
def Tied (me peer : Dhkey) (list : List Details) : Prop :=
  ∃ d, (stopAt me peer list).head? = some d ∧ Dhkey.distance me peer = Dhkey.distance me d.peer_id

instance (me peer : Dhkey) (list : List Details) : Decidable (Tied me peer list) :=
  match h : (stopAt me peer list).head? with
  | none => isFalse (fun ⟨_, hd, _⟩ => by rw [h] at hd; cases hd)
  | some d => decidable_of_iff (Dhkey.distance me peer = Dhkey.distance me d.peer_id)
      ⟨fun he => ⟨d, h, he⟩, fun ⟨_, hd, he⟩ => by rw [h] at hd; cases hd; exact he⟩

lemma removeLast_sublist (p : Details → Bool) (list : List Details) :
    (removeLast p list).Sublist list := by
  have h := (eraseP_sublist (p := p) (l := list.reverse)).reverse
  rwa [reverse_reverse] at h

variable {list : List Details} {p : Details → Bool}

lemma length_removeLast (h : list.any p = true) :
    (removeLast p list).length + 1 = list.length := by
  obtain ⟨d, hd, hp⟩ := any_eq_true.mp h
  have hlen := length_eraseP_of_mem (mem_reverse.mpr hd) hp
  have hpos := length_pos_of_mem hd
  rw [removeLast, length_reverse, hlen, length_reverse]
  omega

lemma removeLast_of_not_any (h : ¬ list.any p = true) : removeLast p list = list := by
  rw [removeLast, eraseP_of_forall_not, reverse_reverse]
  intro d hd hp
  exact h (any_eq_true.mpr ⟨d, mem_reverse.mp hd, hp⟩)

lemma any_isPeer_iff (peer : Dhkey) (list : List Details) :
    list.any (isPeer peer) = true ↔ peer ∈ peers list := by
  simp [peers, isPeer]

lemma not_mem_removeDhkey {peer : Dhkey} (h : (peers list).Nodup) :
    peer ∉ peers (removeDhkey peer list).2 := by
  have hnd : (list.reverse.map Details.peer_id).Nodup := by
    rw [map_reverse]
    exact nodup_reverse.mpr h
  simp only [removeDhkey, removeLast, peers, map_reverse, mem_reverse]
  intro hmem
  generalize list.reverse = l at *
  induction l with
  | nil => simp at hmem
  | cons d l ih =>
    simp only [map_cons, nodup_cons] at hnd
    by_cases hd : d.peer_id = peer
    · rw [eraseP_cons_of_pos (by simpa [isPeer] using hd)] at hmem
      exact hnd.1 (hd ▸ hmem)
    · rw [eraseP_cons_of_neg (by simpa [isPeer] using hd), map_cons] at hmem
      obtain rfl | hmem := mem_cons.mp hmem
      · exact hd rfl
      · exact ih hnd.2 hmem

lemma removeOldest_sublist (list : List Details) : (removeOldestDhkey list).Sublist list := by
  cases list with
  | nil => exact List.Sublist.refl _
  | cons first rest =>
    simp only [removeOldestDhkey]
    split_ifs with h
    · exact (removeLast_sublist _ rest).cons_cons first
    · exact sublist_cons_self first rest

lemma length_removeOldest (h : 0 < list.length) :
    (removeOldestDhkey list).length + 1 = list.length := by
  cases list with
  | nil => simp at h
  | cons first rest =>
    simp only [removeOldestDhkey]
    split_ifs with hany
    · rw [length_cons, length_removeLast hany, length_cons]
    · rfl

variable {me peer : Dhkey} {list : List Details}

lemma insert_tied (now : ℚ) (h : Tied me peer list) : insertDhkey me now peer list = list := by
  obtain ⟨d, hd, hdist⟩ := h
  obtain ⟨rest, hstop⟩ := head?_eq_some_iff.mp hd
  have hcmp := (Dhkey.cmp_eq_zero_iff _ _).mpr hdist
  simp only [insertDhkey, hstop, hcmp, ↓reduceIte]

lemma insert_not_tied (now : ℚ) (h : ¬ Tied me peer list) :
    (stopAt me peer list = [] ∧ insertDhkey me now peer list = list ++ [⟨peer, now⟩]) ∨
    (stopAt me peer list ≠ [] ∧ insertDhkey me now peer list = ⟨peer, now⟩ :: list) := by
  cases hstop : stopAt me peer list with
  | nil => exact .inl ⟨rfl, by simp only [insertDhkey, hstop]⟩
  | cons d rest =>
    have hcmp : ¬ Dhkey.cmp (Dhkey.distance me peer) (Dhkey.distance me d.peer_id) = 0 := by
      intro hc
      exact h ⟨d, by rw [hstop]; rfl, (Dhkey.cmp_eq_zero_iff _ _).mp hc⟩
    exact .inr ⟨by simp, by simp only [insertDhkey, hstop, hcmp, ↓reduceIte]⟩

lemma insert_perm (now : ℚ) (h : ¬ Tied me peer list) :
    (insertDhkey me now peer list).Perm (⟨peer, now⟩ :: list) := by
  obtain ⟨_, heq⟩ | ⟨_, heq⟩ := insert_not_tied now h
  · rw [heq]
    exact perm_append_singleton _ _
  · rw [heq]

end Neuropil.Pheromone.Peers
