import Neuropil.Dhkey.Order
import Neuropil.Lib.SwapSort

namespace Neuropil.Route.Leafset

open List Lib

structure RouteLeafset where
  my_key : Dhkey
  left_leafset : List Dhkey
  right_leafset : List Dhkey
  leafset_size : ℕ
  Rrange : Dhkey
  Lrange : Dhkey
  leafset_left_count : ℕ
  leafset_right_count : ℕ

def init (me : Dhkey) (leafset_size : ℕ) : RouteLeafset := ⟨me, [], [], leafset_size, me, me, 0, 0⟩

def sortKeysKd (key : Dhkey) (keys : List Dhkey) : List Dhkey :=
  SwapSort.sort (fun k => Dhkey.distance k key) keys

def rangeUpdate (s : RouteLeafset) : RouteLeafset :=
  { s with Rrange := s.right_leafset.getLast?.getD s.my_key
           Lrange := s.left_leafset.getLast?.getD s.my_key }

structure Side where
  keys : List Dhkey
  add_to : Option Dhkey
  deleted_from : Option Dhkey

/-- Add a key to one side of the leafset if there is room or the key is closer
than the outer bound, then cut the side back to its size. -/
def insertSide (me : Dhkey) (size : ℕ) (closer : Bool) (side : List Dhkey) (node_key : Dhkey) :
    Side :=
  let s : Side :=
    if side.length < size ∨ closer = true then
      ⟨sortKeysKd me (node_key :: side), some node_key, none⟩
    else ⟨side, none, none⟩
  if s.keys.length > size then { s with keys := s.keys.dropLast, deleted_from := s.keys.getLast? }
  else s

def Side.settle (s : Side) : Side :=
  if s.deleted_from.isSome ∧ s.deleted_from = s.add_to then ⟨s.keys, none, none⟩ else s

structure Outcome where
  leafset : RouteLeafset
  added : Option Dhkey
  deleted : Option Dhkey

/-- Refresh the bounds if anything was added or deleted, and publish the sizes. -/
def finish (s : RouteLeafset) (add_to deleted_from : Option Dhkey) : Outcome :=
  let s := if deleted_from.isSome ∨ add_to.isSome then rangeUpdate s else s
  ⟨{ s with leafset_left_count := s.left_leafset.length
            leafset_right_count := s.right_leafset.length }, add_to, deleted_from⟩

def inverse (me : Dhkey) : Dhkey := Dhkey.add me Dhkey.half

def onRight (me k : Dhkey) : Bool := Dhkey.between k me (inverse me) true

def leafsetUpdate (s : RouteLeafset) (node_key : Dhkey) (joined : Bool) : Outcome :=
  if Dhkey.cmp node_key s.my_key = 0 then ⟨s, none, none⟩
  else if joined = false then
    if node_key ∈ s.right_leafset then
      finish { s with right_leafset := s.right_leafset.erase node_key } none (some node_key)
    else if node_key ∈ s.left_leafset then
      finish { s with left_leafset := s.left_leafset.erase node_key } none (some node_key)
    else finish s none none
  else if node_key ∈ s.right_leafset ∨ node_key ∈ s.left_leafset then finish s none none
  else if onRight s.my_key node_key then
    let side := (insertSide s.my_key s.leafset_size
      (Dhkey.between node_key s.my_key s.Rrange false) s.right_leafset node_key).settle
    finish { s with right_leafset := side.keys } side.add_to side.deleted_from
  else
    let side := (insertSide s.my_key s.leafset_size
      (Dhkey.between node_key s.Lrange s.my_key false) s.left_leafset node_key).settle
    finish { s with left_leafset := side.keys } side.add_to side.deleted_from

def byDistance (me a b : Dhkey) : Prop := Dhkey.distance a me ≤ Dhkey.distance b me

instance (me : Dhkey) : DecidableRel (byDistance me) :=
  fun a b => inferInstanceAs (Decidable (Dhkey.distance a me ≤ Dhkey.distance b me))

variable {side : List Dhkey} {me : Dhkey}

lemma sortKeysKd_cons (k : Dhkey) (h : side.Pairwise (byDistance me)) :
    sortKeysKd me (k :: side) = side.orderedInsert (byDistance me) k :=
  SwapSort.sort_cons _ k h

lemma pairwise_orderedInsert (k : Dhkey) (h : side.Pairwise (byDistance me)) :
    (side.orderedInsert (byDistance me) k).Pairwise (byDistance me) := by
  have : Std.Total (byDistance me) := ⟨fun a b => le_total _ _⟩
  have : IsTrans Dhkey (byDistance me) := ⟨fun a b c => le_trans⟩
  exact h.orderedInsert k side

lemma dropLast_orderedInsert {k : Dhkey} (hk : k ∉ side)
    (h : (side.orderedInsert (byDistance me) k).getLast? = some k) :
    (side.orderedInsert (byDistance me) k).dropLast = side := by
  induction side with
  | nil => rfl
  | cons y ys ih =>
    obtain ⟨hky, hkys⟩ : k ≠ y ∧ k ∉ ys := by simpa using hk
    by_cases hle : byDistance me k y
    · rw [orderedInsert, if_pos hle, getLast?_cons_cons] at h
      exact absurd (mem_of_getLast? h) hk
    · rw [orderedInsert, if_neg hle] at h ⊢
      obtain ⟨z, zs, hz⟩ : ∃ z zs, ys.orderedInsert (byDistance me) k = z :: zs := by
        cases hi : ys.orderedInsert (byDistance me) k with
        | nil =>
          have hm : k ∈ ys.orderedInsert (byDistance me) k := by simp
          simp [hi] at hm
        | cons z zs => exact ⟨z, zs, rfl⟩
      rw [hz, getLast?_cons_cons, ← hz] at h
      rw [hz, dropLast_cons_cons, ← hz, ih hkys h]

end Neuropil.Route.Leafset
