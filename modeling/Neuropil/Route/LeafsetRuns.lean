import Neuropil.Lib.Run
import Neuropil.Route.Leafset

namespace Neuropil.Route.LeafsetRuns

open List Lib.Run Route.Leafset

structure SideInv (me : Dhkey) (size : ℕ) (side : List Dhkey) : Prop where
  nodup : side.Nodup
  length : side.length ≤ size
  sorted : side.Pairwise (byDistance me)

lemma SideInv.erase {me k : Dhkey} {size : ℕ} {side : List Dhkey} (h : SideInv me size side) :
    SideInv me size (side.erase k) where
  nodup := h.nodup.erase k
  length := (length_erase_le).trans h.length
  sorted := h.sorted.sublist erase_sublist

structure Inserted (me : Dhkey) (size : ℕ) (side : List Dhkey) (k : Dhkey) (s : Side) : Prop where
  inv : SideInv me size s.keys
  mem : ∀ x ∈ s.keys, x = k ∨ x ∈ side
  same : s.deleted_from.isSome = false → s.add_to.isSome = false → s.keys = side

lemma length_orderedInsert (me k : Dhkey) (side : List Dhkey) :
    (side.orderedInsert (byDistance me) k).length = side.length + 1 :=
  (perm_orderedInsert _ k side).length_eq

section

variable {me k : Dhkey} {size : ℕ} {side : List Dhkey} {closer : Bool}

lemma nodup_orderedInsert (h : SideInv me size side) (hk : k ∉ side) :
    (side.orderedInsert (byDistance me) k).Nodup :=
  (perm_orderedInsert _ k side).nodup_iff.mpr (nodup_cons.mpr ⟨hk, h.nodup⟩)

variable (h : SideInv me size side)
include h

lemma insertSide_room (hroom : side.length < size) :
    insertSide me size closer side k = ⟨side.orderedInsert (byDistance me) k, some k, none⟩ := by
  have hlen := length_orderedInsert me k side
  have hnot : ¬ size < side.length + 1 := by omega
  simp [insertSide, hroom, sortKeysKd_cons k h.sorted, hlen, hnot]

lemma insertSide_full (hfull : ¬ side.length < size) (hcl : closer = true) :
    insertSide me size closer side k = ⟨(side.orderedInsert (byDistance me) k).dropLast, some k,
      (side.orderedInsert (byDistance me) k).getLast?⟩ := by
  have hlen := length_orderedInsert me k side
  have hcut : size < side.length + 1 := by omega
  simp [insertSide, hcl, sortKeysKd_cons k h.sorted, hlen, hcut]

lemma insertSide_keep (hadd : ¬ (side.length < size ∨ closer = true)) :
    insertSide me size closer side k = ⟨side, none, none⟩ := by
  have hnot : ¬ size < side.length := not_lt.mpr h.length
  rw [insertSide, if_neg hadd]
  simp [hnot]

lemma SideInv.dropLast (hk : k ∉ side) :
    SideInv me size (side.orderedInsert (byDistance me) k).dropLast := by
  have hsub := dropLast_sublist (side.orderedInsert (byDistance me) k)
  refine ⟨(nodup_orderedInsert h hk).sublist hsub, ?_,
    (pairwise_orderedInsert k h.sorted).sublist hsub⟩
  have hlen := h.length
  rw [length_dropLast, length_orderedInsert]
  omega

lemma insertSide_inserted (hk : k ∉ side) (closer : Bool) :
    Inserted me size side k (insertSide me size closer side k).settle := by
  by_cases hroom : side.length < size
  · rw [insertSide_room h hroom, Side.settle, if_neg (fun hc => by simp at hc)]
    have hlen := (length_orderedInsert me k side).trans_le hroom
    exact ⟨⟨nodup_orderedInsert h hk, hlen, pairwise_orderedInsert k h.sorted⟩,
      fun _ => (List.mem_orderedInsert _).1, nofun⟩
  by_cases hcl : closer = true
  · have hmem : ∀ x ∈ (side.orderedInsert (byDistance me) k).dropLast, x = k ∨ x ∈ side :=
      fun x hx => (List.mem_orderedInsert _).1 (dropLast_subset _ hx)
    rw [insertSide_full h hroom hcl, Side.settle]
    by_cases hlast : (side.orderedInsert (byDistance me) k).getLast? = some k
    · rw [if_pos ⟨by simp [hlast], hlast⟩]
      exact ⟨h.dropLast hk, hmem, fun _ _ => dropLast_orderedInsert hk hlast⟩
    · rw [if_neg (fun hc => hlast hc.2)]
      exact ⟨h.dropLast hk, hmem, nofun⟩
  · rw [insertSide_keep h (not_or.mpr ⟨hroom, hcl⟩), Side.settle, if_neg (fun hc => by simp at hc)]
    exact ⟨h, fun _ hx => .inr hx, fun _ _ => rfl⟩

end

structure Inv (s : RouteLeafset) : Prop where
  right : SideInv s.my_key s.leafset_size s.right_leafset
  left : SideInv s.my_key s.leafset_size s.left_leafset
  notMine : s.my_key ∉ s.right_leafset ∧ s.my_key ∉ s.left_leafset
  onRight : ∀ x ∈ s.right_leafset, onRight s.my_key x = true
  onLeft : ∀ x ∈ s.left_leafset, Leafset.onRight s.my_key x = false
  rrange : s.Rrange = s.right_leafset.getLast?.getD s.my_key
  lrange : s.Lrange = s.left_leafset.getLast?.getD s.my_key
  rightCount : s.leafset_right_count = s.right_leafset.length
  leftCount : s.leafset_left_count = s.left_leafset.length

lemma inv_init (me : Dhkey) (size : ℕ) : Inv (init me size) := by
  constructor <;> first
    | exact ⟨nodup_nil, Nat.zero_le _, List.Pairwise.nil⟩
    | simp [init]

lemma inv_finish {s : RouteLeafset} {add_to deleted_from : Option Dhkey}
    (right : SideInv s.my_key s.leafset_size s.right_leafset)
    (left : SideInv s.my_key s.leafset_size s.left_leafset)
    (notMine : s.my_key ∉ s.right_leafset ∧ s.my_key ∉ s.left_leafset)
    (hr : ∀ x ∈ s.right_leafset, onRight s.my_key x = true)
    (hl : ∀ x ∈ s.left_leafset, onRight s.my_key x = false)
    (hrange : deleted_from.isSome = false → add_to.isSome = false →
      s.Rrange = s.right_leafset.getLast?.getD s.my_key ∧
      s.Lrange = s.left_leafset.getLast?.getD s.my_key) :
    Inv (finish s add_to deleted_from).leafset := by
  by_cases hc : deleted_from.isSome ∨ add_to.isSome
  · rw [finish, if_pos hc]
    exact ⟨right, left, notMine, hr, hl, rfl, rfl, rfl, rfl⟩
  · rw [finish, if_neg hc]
    simp only [not_or, Bool.not_eq_true] at hc
    obtain ⟨hR, hL⟩ := hrange hc.1 hc.2
    exact ⟨right, left, notMine, hr, hl, hR, hL, rfl, rfl⟩

lemma inv_update {s : RouteLeafset} (h : Inv s) (k : Dhkey) (joined : Bool) :
    Inv (leafsetUpdate s k joined).leafset := by
  by_cases hm : Dhkey.cmp k s.my_key = 0
  · rw [leafsetUpdate, if_pos hm]
    exact h
  have hne : s.my_key ≠ k := fun he => hm (by rw [Dhkey.cmp_eq_zero_iff, he])
  rw [leafsetUpdate, if_neg hm]
  split_ifs with hj hkr hkl hin hside
  · exact inv_finish h.right.erase h.left
      ⟨fun hmem => h.notMine.1 (mem_of_mem_erase hmem), h.notMine.2⟩
      (fun x hx => h.onRight x (mem_of_mem_erase hx)) h.onLeft nofun
  · exact inv_finish h.right h.left.erase
      ⟨h.notMine.1, fun hmem => h.notMine.2 (mem_of_mem_erase hmem)⟩
      h.onRight (fun x hx => h.onLeft x (mem_of_mem_erase hx)) nofun
  · exact inv_finish h.right h.left h.notMine h.onRight h.onLeft fun _ _ => ⟨h.rrange, h.lrange⟩
  · exact inv_finish h.right h.left h.notMine h.onRight h.onLeft fun _ _ => ⟨h.rrange, h.lrange⟩
  · have hins := insertSide_inserted h.right (fun hmem => hin (.inl hmem))
      (Dhkey.between k s.my_key s.Rrange false)
    refine inv_finish hins.inv h.left ⟨fun hmem => ?_, h.notMine.2⟩ (fun x hx => ?_) h.onLeft
      (fun hd ha => ⟨?_, h.lrange⟩)
    · exact (hins.mem _ hmem).elim hne h.notMine.1
    · obtain rfl | hx := hins.mem x hx
      · exact hside
      · exact h.onRight x hx
    · rw [hins.same hd ha]
      exact h.rrange
  · have hins := insertSide_inserted h.left (fun hmem => hin (.inr hmem))
      (Dhkey.between k s.Lrange s.my_key false)
    refine inv_finish h.right hins.inv ⟨h.notMine.1, fun hmem => ?_⟩ h.onRight (fun x hx => ?_)
      (fun hd ha => ⟨h.rrange, ?_⟩)
    · exact (hins.mem _ hmem).elim hne h.notMine.2
    · obtain rfl | hx := hins.mem x hx
      · simpa using hside
      · exact h.onLeft x hx
    · rw [hins.same hd ha]
      exact h.lrange

structure Event where
  key : Dhkey
  joined : Bool

variable (s : RouteLeafset)

def step (e : Event) : RouteLeafset := (leafsetUpdate s e.key e.joined).leafset

def after (me : Dhkey) (size : ℕ) (events : List Event) : RouteLeafset :=
  run step (init me size) events

lemma inv_after (me : Dhkey) (size : ℕ) (events : List Event) : Inv (after me size events) :=
  run_inv_always (fun _ s => Inv s) (inv_init me size)
    (fun _ _ e h => inv_update h e.key e.joined) events

lemma finish_my_key (a d : Option Dhkey) : (finish s a d).leafset.my_key = s.my_key := by
  simp only [finish]
  split_ifs <;> rfl

lemma finish_size (a d : Option Dhkey) :
    (finish s a d).leafset.leafset_size = s.leafset_size := by
  simp only [finish]
  split_ifs <;> rfl

lemma step_my_key (e : Event) : (step s e).my_key = s.my_key := by
  simp only [step, leafsetUpdate]
  split_ifs <;> first | rfl | exact finish_my_key _ _ _

lemma step_size (e : Event) : (step s e).leafset_size = s.leafset_size := by
  simp only [step, leafsetUpdate]
  split_ifs <;> first | rfl | exact finish_size _ _ _

lemma after_fixed (me : Dhkey) (size : ℕ) (events : List Event) :
    (after me size events).my_key = me ∧ (after me size events).leafset_size = size :=
  run_inv_always (fun _ s => s.my_key = me ∧ s.leafset_size = size) ⟨rfl, rfl⟩
    (fun _ s e h => ⟨(step_my_key s e).trans h.1, (step_size s e).trans h.2⟩) events

lemma half_word (w : UInt32) : w + 0x80000000 ≠ w := by
  intro h
  have hh : (0x80000000 : UInt32).toNat = 2147483648 := rfl
  have hn := congrArg UInt32.toNat h
  rw [UInt32.toNat_add, hh] at hn
  have := w.toNat_lt
  omega

lemma inverse_ne (me : Dhkey) : inverse me ≠ me := by
  intro h
  exact half_word (me.t 0) (congrFun (congrArg Dhkey.t h) 0)

lemma left_half {me x : Dhkey} (h : onRight me x = false) :
    Dhkey.between x (inverse me) me true = true := by
  have hn : ¬ onRight me x = true := by simp [h]
  have hinv := Dhkey.value_injective.ne (inverse_ne me)
  rw [onRight, Dhkey.between_iff] at hn
  rw [Dhkey.between_iff]
  omega

/-- The leafset in the words of its purpose: two disjoint, bounded sets of the
closest peers on either half of the ring. -/
structure Ordered (me : Dhkey) (size : ℕ) (s : RouteLeafset) : Prop where
  disjoint : ∀ x ∈ s.right_leafset, x ∉ s.left_leafset
  nodup : s.right_leafset.Nodup ∧ s.left_leafset.Nodup
  notMine : me ∉ s.right_leafset ∧ me ∉ s.left_leafset
  size : s.right_leafset.length ≤ size ∧ s.left_leafset.length ≤ size
  sorted : s.right_leafset.Pairwise (byDistance me) ∧ s.left_leafset.Pairwise (byDistance me)
  counts : s.leafset_right_count = s.right_leafset.length ∧
    s.leafset_left_count = s.left_leafset.length
  rrange : s.Rrange = s.right_leafset.getLast?.getD me
  lrange : s.Lrange = s.left_leafset.getLast?.getD me
  right : ∀ x ∈ s.right_leafset, Dhkey.between x me (inverse me) true = true
  left : ∀ x ∈ s.left_leafset, Dhkey.between x me (inverse me) true = false ∧
    Dhkey.between x (inverse me) me true = true

lemma ordered_of_inv {me : Dhkey} {size : ℕ} {s : RouteLeafset} (h : Inv s)
    (hfixed : s.my_key = me ∧ s.leafset_size = size) : Ordered me size s := by
  obtain ⟨rfl, rfl⟩ := hfixed
  exact {
    disjoint := fun x hr hl => by simpa [h.onRight x hr] using h.onLeft x hl
    nodup := ⟨h.right.nodup, h.left.nodup⟩
    notMine := h.notMine
    size := ⟨h.right.length, h.left.length⟩
    sorted := ⟨h.right.sorted, h.left.sorted⟩
    counts := ⟨h.rightCount, h.leftCount⟩
    rrange := h.rrange
    lrange := h.lrange
    right := h.onRight
    left := fun x hx => ⟨h.onLeft x hx, left_half (h.onLeft x hx)⟩ }

/-- Every sequence of joins and leaves ends in an ordered leafset. -/
theorem leafset_ordered (me : Dhkey) (size : ℕ) (events : List Event) :
    Ordered me size (after me size events) :=
  ordered_of_inv (inv_after me size events) (after_fixed me size events)

end Neuropil.Route.LeafsetRuns
