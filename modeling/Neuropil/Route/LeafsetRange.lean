import Neuropil.Route.LeafsetRuns

namespace Neuropil.Route.LeafsetRange

open Lib.Run Route.Leafset Route.LeafsetRuns
open Dhkey (between)

/-- The outer bounds enclose the leafset on the ring, so that a lookup for one
of its keys is routed through the leafset. -/
structure Bounds (me : Dhkey) (s : RouteLeafset) : Prop where
  right : ∀ x ∈ s.right_leafset, between x me s.Rrange true = true
  left : ∀ x ∈ s.left_leafset, between x s.Lrange me true = true
  covered : ∀ x, x ∈ s.right_leafset ∨ x ∈ s.left_leafset → between x s.Lrange s.Rrange true = true

/-- On each side of the own key, the keys come in the same order by distance and along the ring. -/
def Agree (me : Dhkey) (keys : Set Dhkey) : Prop :=
  ∀ x ∈ keys, ∀ y ∈ keys, x ≠ me → y ≠ me →
    Dhkey.distance x me ≤ Dhkey.distance y me →
    (onRight me x = true → onRight me y = true → between x me y true = true) ∧
    (onRight me x = false → onRight me y = false → between x y me true = true)

lemma between_right_self (x l : Dhkey) : between x l x true = true := by
  rw [Dhkey.between_iff]
  omega

lemma between_left_self (x r : Dhkey) : between x x r true = true := by
  rw [Dhkey.between_iff]
  omega

variable {me x : Dhkey} {side : List Dhkey}

lemma le_last {y : Dhkey} (h : side.Pairwise (byDistance me))
    (hy : side.getLast? = some y) (hx : x ∈ side) : x = y ∨ byDistance me x y := by
  obtain ⟨init, rfl⟩ := List.getLast?_eq_some_iff.mp hy
  obtain hx | hx := List.mem_append.mp hx
  · exact .inr ((List.pairwise_append.mp h).2.2 x hx y (by simp))
  · exact .inl (by simpa using hx)

lemma last_mem (hx : x ∈ side) (d : Dhkey) : side.getLast?.getD d ∈ side := by
  have hne := List.ne_nil_of_mem hx
  rw [List.getLast?_eq_some_getLast hne]
  exact List.getLast_mem hne

variable {s : RouteLeafset}

lemma mem_step (h : Inv s) (e : Event)
    (hx : x ∈ (step s e).right_leafset ∨ x ∈ (step s e).left_leafset) :
    x = e.key ∨ x ∈ s.right_leafset ∨ x ∈ s.left_leafset := by
  have hfin : ∀ (t : RouteLeafset) (a d : Option Dhkey),
      (finish t a d).leafset.right_leafset = t.right_leafset ∧
      (finish t a d).leafset.left_leafset = t.left_leafset := by
    intro t a d
    simp only [finish]
    split_ifs <;> exact ⟨rfl, rfl⟩
  simp only [step, leafsetUpdate] at hx
  split_ifs at hx with hm hj hkr hkl hin hside
  · exact .inr hx
  all_goals rw [(hfin _ _ _).1, (hfin _ _ _).2] at hx
  · exact .inr (hx.imp_left List.mem_of_mem_erase)
  · exact .inr (hx.imp_right List.mem_of_mem_erase)
  · exact .inr hx
  · exact .inr hx
  · obtain hx | hx := hx
    · exact ((insertSide_inserted h.right (fun hmem => hin (.inl hmem)) _).mem x hx).imp_right .inl
    · exact .inr (.inr hx)
  · obtain hx | hx := hx
    · exact .inr (.inl hx)
    · exact ((insertSide_inserted h.left (fun hmem => hin (.inr hmem)) _).mem x hx).imp_right .inr

variable {size : ℕ} {keys : Set Dhkey}

lemma mem_after {events : List Event} (hkeys : ∀ e ∈ events, e.key ∈ keys) {x : Dhkey}
    (hx : x ∈ (after me size events).right_leafset ∨ x ∈ (after me size events).left_leafset) :
    x ∈ keys := by
  induction events using List.reverseRecOn generalizing x with
  | nil => simp [after, init] at hx
  | append_singleton before e ih =>
    simp only [after, run_concat] at hx
    obtain rfl | hx := mem_step (inv_after me size before) e hx
    · exact hkeys e (by simp)
    · exact ih (fun e he => hkeys e (by simp [he])) hx

lemma range_halves (h : Ordered me size s) :
    onRight me s.Rrange = true ∧ (s.Lrange = me ∨ onRight me s.Lrange = false) := by
  rw [h.rrange, h.lrange]
  constructor
  · cases hy : s.right_leafset.getLast? with
    | none => exact between_left_self _ _
    | some y => exact h.right y (List.mem_of_getLast? hy)
  · cases hy : s.left_leafset.getLast? with
    | none => exact .inl rfl
    | some y => exact .inr (h.left y (List.mem_of_getLast? hy)).1

lemma not_right_iff (me x : Dhkey) :
    onRight me x = false ↔ ¬ between x me (inverse me) true = true := by
  simp [onRight]

lemma covered_right {l r : Dhkey} (hr : onRight me r = true) (hne : r ≠ me)
    (hl : l = me ∨ onRight me l = false) (hx : between x me r true = true) :
    between x l r true = true := by
  rw [not_right_iff, Dhkey.eq_iff_value] at hl
  rw [onRight] at hr
  rw [ne_eq, Dhkey.eq_iff_value] at hne
  rw [Dhkey.between_iff] at hr hl hx ⊢
  omega

lemma covered_left {l r : Dhkey} (hr : onRight me r = true) (hl : onRight me l = false)
    (hx : between x l me true = true) : between x l r true = true := by
  rw [not_right_iff] at hl
  rw [onRight] at hr
  rw [Dhkey.between_iff] at hr hl hx ⊢
  omega

lemma bounds_of_last (h : Ordered me size s)
    (hr : ∀ x ∈ s.right_leafset, ∀ y, s.right_leafset.getLast? = some y →
      between x me y true = true)
    (hl : ∀ x ∈ s.left_leafset, ∀ y, s.left_leafset.getLast? = some y →
      between x y me true = true) : Bounds me s := by
  have hright : ∀ x ∈ s.right_leafset, between x me s.Rrange true = true := by
    intro x hx
    rw [h.rrange]
    cases hy : s.right_leafset.getLast? with
    | none => simp [List.getLast?_eq_none_iff.mp hy] at hx
    | some y => exact hr x hx y hy
  have hleft : ∀ x ∈ s.left_leafset, between x s.Lrange me true = true := by
    intro x hx
    rw [h.lrange]
    cases hy : s.left_leafset.getLast? with
    | none => simp [List.getLast?_eq_none_iff.mp hy] at hx
    | some y => exact hl x hx y hy
  obtain ⟨hR, hL⟩ := range_halves h
  refine ⟨hright, hleft, ?_⟩
  rintro x (hx | hx)
  · have hRx : s.Rrange ∈ s.right_leafset := h.rrange ▸ last_mem hx me
    exact covered_right hR (fun he => h.notMine.1 (he ▸ hRx)) hL (hright x hx)
  · have hLx : s.Lrange ∈ s.left_leafset := h.lrange ▸ last_mem hx me
    exact covered_left hR (h.left _ hLx).1 (hleft x hx)

lemma bounds_of_agree (h : Agree me keys) (events : List Event)
    (hkeys : ∀ e ∈ events, e.key ∈ keys) : Bounds me (after me size events) := by
  have hord := ordered_of_inv (inv_after me size events) (after_fixed me size events)
  have hmem : ∀ x, x ∈ (after me size events).right_leafset ∨
      x ∈ (after me size events).left_leafset → x ∈ keys := fun x => mem_after hkeys
  apply bounds_of_last hord
  · intro x hx y hy
    have hys := List.mem_of_getLast? hy
    obtain rfl | hle := le_last hord.sorted.1 hy hx
    · exact between_right_self _ _
    · exact (h x (hmem x (.inl hx)) y (hmem y (.inl hys)) (fun he => hord.notMine.1 (he ▸ hx))
        (fun he => hord.notMine.1 (he ▸ hys)) hle).1 (hord.right x hx) (hord.right y hys)
  · intro x hx y hy
    have hys := List.mem_of_getLast? hy
    obtain rfl | hle := le_last hord.sorted.2 hy hx
    · exact between_left_self _ _
    · exact (h x (hmem x (.inr hx)) y (hmem y (.inr hys)) (fun he => hord.notMine.2 (he ▸ hx))
        (fun he => hord.notMine.2 (he ▸ hys)) hle).2 (hord.left x hx).1 (hord.left y hys).1

lemma eq_last_of_short {y : Dhkey} (hlen : side.length < 2) (hx : x ∈ side)
    (hy : side.getLast? = some y) : x = y := by
  match side, hlen with
  | [], _ => simp at hx
  | [z], _ => simp_all

lemma bounds_of_short (hsize : size < 2) (events : List Event) :
    Bounds me (after me size events) := by
  have hord := ordered_of_inv (inv_after me size events) (after_fixed me size events)
  apply bounds_of_last hord
  · intro x hx y hy
    rw [eq_last_of_short (hord.size.1.trans_lt hsize) hx hy]
    exact between_right_self _ _
  · intro x hx y hy
    rw [eq_last_of_short (hord.size.2.trans_lt hsize) hx hy]
    exact between_left_self _ _

section

variable {me x y : Dhkey} {size : ℕ}

section

variable (h : Inv s) (hne : x ≠ s.my_key) (hnew : x ∉ s.right_leafset ∧ x ∉ s.left_leafset)
include h hne hnew

lemma join_right (hroom : s.right_leafset.length < s.leafset_size)
    (hside : onRight s.my_key x = true) :
    (step s ⟨x, true⟩).right_leafset = s.right_leafset.orderedInsert (byDistance s.my_key) x := by
  have hc : ¬ Dhkey.cmp x s.my_key = 0 := by rwa [Dhkey.cmp_eq_zero_iff]
  have hlen := length_orderedInsert s.my_key x s.right_leafset
  have hnot : ¬ s.leafset_size < s.right_leafset.length + 1 := by omega
  simp [step, leafsetUpdate, hc, hnew, hside, insertSide, hroom,
    sortKeysKd_cons x h.right.sorted, hlen, hnot, Side.settle, finish, rangeUpdate]

lemma join_left (hroom : s.left_leafset.length < s.leafset_size)
    (hside : onRight s.my_key x = false) :
    (step s ⟨x, true⟩).left_leafset = s.left_leafset.orderedInsert (byDistance s.my_key) x := by
  have hc : ¬ Dhkey.cmp x s.my_key = 0 := by rwa [Dhkey.cmp_eq_zero_iff]
  have hlen := length_orderedInsert s.my_key x s.left_leafset
  have hnot : ¬ s.leafset_size < s.left_leafset.length + 1 := by omega
  simp [step, leafsetUpdate, hc, hnew, hside, insertSide, hroom,
    sortKeysKd_cons x h.left.sorted, hlen, hnot, Side.settle, finish, rangeUpdate]

end

lemma after_one (hy : y ≠ me) (hsize : 2 ≤ size) :
    (onRight me y = true → (after me size [⟨y, true⟩]).right_leafset = [y]) ∧
    (onRight me y = false → (after me size [⟨y, true⟩]).left_leafset = [y]) := by
  have hroom : 0 < size := by omega
  exact ⟨join_right (inv_init me size) hy (by simp [init]) hroom,
    join_left (inv_init me size) hy (by simp [init]) hroom⟩

lemma after_two (hx : x ≠ me) (hy : y ≠ me) (hxy : x ≠ y) (hsize : 2 ≤ size)
    (hle : Dhkey.distance x me ≤ Dhkey.distance y me) :
    (onRight me x = true → onRight me y = true →
      (after me size [⟨y, true⟩, ⟨x, true⟩]).right_leafset = [x, y]) ∧
    (onRight me x = false → onRight me y = false →
      (after me size [⟨y, true⟩, ⟨x, true⟩]).left_leafset = [x, y]) := by
  have hone := after_one hy hsize
  have hinv := inv_after me size [⟨y, true⟩]
  obtain ⟨hme, hsz⟩ := after_fixed me size [⟨y, true⟩]
  have hnew : x ∉ (after me size [⟨y, true⟩]).right_leafset ∧
      x ∉ (after me size [⟨y, true⟩]).left_leafset := by
    have hkeys : ∀ e ∈ [Event.mk y true], e.key ∈ ({y} : Set Dhkey) := by simp
    exact ⟨fun h => hxy (mem_after hkeys (.inl h)), fun h => hxy (mem_after hkeys (.inr h))⟩
  have hstep : after me size [⟨y, true⟩, ⟨x, true⟩] =
      step (after me size [⟨y, true⟩]) ⟨x, true⟩ := rfl
  rw [hstep]
  generalize after me size [⟨y, true⟩] = s at *
  subst hme hsz
  have hins : [y].orderedInsert (byDistance s.my_key) x = [x, y] := by
    exact if_pos hle
  constructor
  · intro hrx hry
    rw [join_right hinv hx hnew (by rw [hone.1 hry]; exact hsize) hrx, hone.1 hry, hins]
  · intro hlx hly
    rw [join_left hinv hx hnew (by rw [hone.2 hly]; exact hsize) hlx, hone.2 hly, hins]

end

lemma agree_of_bounds (hsize : 2 ≤ size)
    (h : ∀ events : List Event, (∀ e ∈ events, e.key ∈ keys) → Bounds me (after me size events)) :
    Agree me keys := by
  intro x hxk y hyk hx hy hle
  by_cases hxy : x = y
  · subst hxy
    exact ⟨fun _ _ => between_right_self _ _, fun _ _ => between_left_self _ _⟩
  have hb := h [⟨y, true⟩, ⟨x, true⟩] (by simp [hxk, hyk])
  have hord := ordered_of_inv (inv_after me size [⟨y, true⟩, ⟨x, true⟩])
    (after_fixed me size [⟨y, true⟩, ⟨x, true⟩])
  obtain ⟨hr, hl⟩ := after_two hx hy hxy hsize hle
  constructor
  · intro hrx hry
    have hbd := hb.right x (by rw [hr hrx hry]; simp)
    rwa [hord.rrange, hr hrx hry] at hbd
  · intro hlx hly
    have hbd := hb.left x (by rw [hl hlx hly]; simp)
    rwa [hord.lrange, hl hlx hly] at hbd

/-- The bounds enclose the leafset after every sequence of joins and leaves of some peers exactly if
it cannot hold two keys on one side or the distance never contradicts the ring. -/
theorem bounds_iff (me : Dhkey) (size : ℕ) (keys : Set Dhkey) :
    (∀ events : List Event, (∀ e ∈ events, e.key ∈ keys) → Bounds me (after me size events)) ↔
      size < 2 ∨ Agree me keys := by
  constructor
  · intro h
    by_cases hsize : size < 2
    · exact .inl hsize
    · exact .inr (agree_of_bounds (not_lt.mp hsize) h)
  · rintro (hsize | hagree) events hkeys
    · exact bounds_of_short hsize events
    · exact bounds_of_agree hagree events hkeys

def twoWords (a b : UInt32) : Dhkey := ⟨fun i => [a, b].getD i.val 0⟩

/-- Two peers share the first word. The second word of the one nearer on the ring is below the own
one, so its difference borrows and it counts as the further one. -/
theorem bound_inside_leafset :
    ¬ ∀ events : List Event, Bounds (twoWords 0 5) (after (twoWords 0 5) 7 events) := by
  intro h
  have hr : (after (twoWords 0 5) 7 [⟨twoWords 1 4, true⟩, ⟨twoWords 1 6, true⟩]).right_leafset =
      [twoWords 1 6, twoWords 1 4] :=
    (after_two (by decide) (by decide) (by decide) (by decide) (by decide)).1
      (by decide) (by decide)
  have hord := ordered_of_inv (inv_after (twoWords 0 5) 7 _) (after_fixed (twoWords 0 5) 7
    [⟨twoWords 1 4, true⟩, ⟨twoWords 1 6, true⟩])
  have hb := (h [⟨twoWords 1 4, true⟩, ⟨twoWords 1 6, true⟩]).right (twoWords 1 6)
  rw [hord.rrange, hr] at hb
  exact absurd hb (by decide)

end Neuropil.Route.LeafsetRange
