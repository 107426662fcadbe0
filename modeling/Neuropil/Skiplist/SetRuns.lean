import Mathlib.Data.List.Perm.Basic
import Neuropil.Lib.Run
import Neuropil.Skiplist.Add

namespace Neuropil.Skiplist.SetRuns

open List Nat Option Lib.Run Lib.Chain Lib.Fault Skiplist.Search Skiplist.Remove Skiplist.Add

variable {α β : Type}

inductive Op (α : Type)
  | add (item : α) (z : BitVec 31)
  | remove (item : α)
  | find (item : α)

inductive Output (α : Type)
  | added (new : Bool)
  | removed (present : Bool)
  | found (item : Option α)
  deriving DecidableEq

def call (compare_func : α → α → Int) (s : NpSkiplist α) :
    Op α → Except Fault (NpSkiplist α × Output α)
  | .add item z => do
    let (s, new) ← skiplistAdd compare_func s item z
    return (s, .added new)
  | .remove item => do
    let (s, present) ← skiplistRemove compare_func s item
    return (s, .removed present)
  | .find item => do
    let (found, stored) ← skiplistFind compare_func s item
    return (s, .found (if found then stored else none))

def step (compare_func : α → α → Int) (r : Except Fault (NpSkiplist α × List (Output α)))
    (op : Op α) : Except Fault (NpSkiplist α × List (Output α)) := do
  let (s, outputs) ← r
  let (s, output) ← call compare_func s op
  return (s, outputs ++ [output])

def after (compare_func : α → α → Int) (ops : List (Op α)) :
    Except Fault (NpSkiplist α × List (Output α)) :=
  run (step compare_func) (.ok (skiplistInit, [])) ops

def levelItems (s : NpSkiplist α) (i : ℕ) : List α :=
  (walk (next s i) s.num_elements (next s i 0)).filterMap (fun p => (s.heap p).bind SkipNode.item)

variable [LinearOrder β] (key : α → β)

/-- A set of items with at most one for each key. -/
def setCall (m : List α) : Op α → List α × Output α
  | .add item _ =>
    if m.any (fun y => key y = key item) then (m, .added false) else (item :: m, .added true)
  | .remove item =>
    (m.filter (fun y => key y ≠ key item), .removed (m.any (fun y => key y = key item)))
  | .find item => (m, .found (m.find? (fun y => key y = key item)))

def setStep (r : List α × List (Output α)) (op : Op α) : List α × List (Output α) :=
  let (m, output) := setCall key r.1 op
  (m, r.2 ++ [output])

def setAfter (ops : List (Op α)) : List α × List (Output α) := run (setStep key) ([], []) ops

/-- The skiplist holds exactly the items of the set, in ascending order on level 0,
and each level is a part of the one below. -/
structure HoldsSet (s : NpSkiplist α) (m : List α) : Prop where
  size : s.num_elements = m.length
  items : (levelItems s 0).Perm m
  ascending : (levelItems s 0).Pairwise (fun a b => key a < key b)
  sublist : ∀ i, (levelItems s (i + 1)).Sublist (levelItems s i)

variable {key} {compare_func : α → α → Int} {s : NpSkiplist α} {H : ℕ} {es : List (Entry α)}
  {item : α}

lemma skiplistFind_present (hcmp : Compares compare_func key) (h : Stored key s H es)
    {x : Entry α} (hx : x ∈ es) (hkey : key x.item = key item) :
    skiplistFind compare_func s item = .ok (true, some x.item) := by
  obtain ⟨root, hroot, _, hst⟩ := h.root_height
  obtain ⟨r, rfl⟩ := exists_eq_succ_of_ne_zero (h.height_ne_zero hx)
  obtain ⟨u, comp, hfind, hdone⟩ := findFrom_done hcmp h.layout h.sorted
    (le_of_eq h.count.symm) r (lt_succ_self r) (ready_start _ item r)
  obtain ⟨rest, hpos, hend, hfr⟩ := hdone.pos
  have hx0 : x ∈ onLevel es Entry.height 0 := mem_onLevel.mpr ⟨hx, h.height_pos x hx⟩
  obtain ⟨rest', rfl⟩ := head_of_key_eq h.layout h.sorted hpos hend hx0 hkey
  obtain rfl : comp = 0 := hfr.trans ((hcmp.zero_iff _ _).mpr hkey)
  obtain ⟨node, hnode, hlen⟩ := h.layout.node_of_mem (succ_pos r) hpos.mem
  obtain ⟨nodes, ha, _⟩ := h.layout.alloc x hx
  have hne : ¬ node.nodes.isEmpty = true := by
    intro he
    rw [isEmpty_iff.mp he] at hlen
    simp at hlen
  simp only [skiplistFind, deref_eq hroot, hst, ok_bind, hfind, deref_eq hnode, Int.le_refl, hne,
    h.layout.nodeAt_of_mem (succ_pos r) hpos.mem, hpos.next_eq h.layout (succ_pos r),
    head?_cons, map_some, deref_eq ha]
  rfl

lemma skiplistFind_absent (hcmp : Compares compare_func key) (h : Stored key s H es)
    (ha : ∀ e ∈ es, key e.item ≠ key item) :
    ∃ stored, skiplistFind compare_func s item = .ok (false, stored) := by
  obtain ⟨root, hroot, _, hst⟩ := h.root_height
  cases H with
  | zero =>
    refine ⟨some item, ?_⟩
    simp only [skiplistFind, deref_eq hroot, hst, ok_bind, findFrom]
    rfl
  | succ r =>
    obtain ⟨u, comp, hfind, hdone⟩ := findFrom_done hcmp h.layout h.sorted
      (le_of_eq h.count.symm) r (lt_succ_self r) (ready_start _ item r)
    obtain ⟨rest, hpos, hend, hfr⟩ := hdone.pos
    obtain ⟨node, hnode, _⟩ := h.layout.node_of_mem (succ_pos r) hpos.mem
    simp only [skiplistFind, deref_eq hroot, hst, ok_bind, hfind, deref_eq hnode]
    by_cases hcond : 0 ≤ comp ∧ ¬ node.nodes.isEmpty = true
    · rw [if_pos hcond, h.layout.nodeAt_of_mem (succ_pos r) hpos.mem,
        hpos.next_eq h.layout (succ_pos r)]
      cases rest with
      | nil =>
        have : comp < 0 := hfr
        omega
      | cons e rest =>
        have he : e ∈ es := (h.layout.level_sub 0).subset (hpos.rest_mem mem_cons_self)
        obtain ⟨nodes, hal, _⟩ := h.layout.alloc e he
        have hne : (comp == 0) = false := by
          have hcomp : comp = compare_func e.item item := hfr
          rw [beq_eq_false_iff_ne, hcomp]
          exact mt (hcmp.zero_iff _ _).mp (ha e he)
        simp only [ok_bind, head?_cons, map_some, deref_eq hal, hne]
        exact ⟨_, rfl⟩
    · rw [if_neg hcond]
      exact ⟨_, rfl⟩

lemma levelItems_eq (h : Stored key s H es) (i : ℕ) :
    levelItems s i = (onLevel es Entry.height i).map Entry.item := by
  have hw : walk (next s i) s.num_elements (next s i 0) =
      (onLevel es Entry.height i).map Entry.addr := by
    by_cases hi : i < H
    · have hlk := h.layout.linked i hi
      rw [hlk.1]
      refine hlk.2.walk_eq ?_
      rw [length_map, h.count]
      exact filter_sublist.length_le
    · obtain ⟨nodes, hroot, hlen⟩ := h.layout.root
      have hnone : next s i 0 = none := by
        rw [Search.next, hroot, bind_some, getElem?_eq_none (by simp only [hlen]; omega)]
        rfl
      have hemp : onLevel es Entry.height i = [] := onLevel_nil h.layout (by omega)
      rw [hnone, hemp]
      cases s.num_elements <;> rfl
  rw [levelItems, hw, filterMap_map]
  apply filterMap_eq_map_iff_forall_eq_some.mpr
  intro e he
  obtain ⟨nodes, ha, _⟩ := h.layout.alloc e (mem_onLevel.mp he).1
  simp only [Function.comp_apply, ha, bind_some]

structure Represents (key : α → β) (s : NpSkiplist α) (m : List α) : Prop where
  stored : ∃ H es, Stored key s H es ∧ (es.map Entry.item).Perm m

variable {m : List α}

lemma Represents.holdsSet (h : Represents key s m) : HoldsSet key s m := by
  obtain ⟨H, es, hstd, hperm⟩ := h.stored
  have hzero : levelItems s 0 = es.map Entry.item := by
    rw [levelItems_eq hstd 0, onLevel, filter_eq_self.mpr]
    intro e he
    exact decide_eq_true (hstd.height_pos e he)
  refine ⟨?_, hzero ▸ hperm, ?_, fun i => ?_⟩
  · rw [hstd.count, ← hperm.length_eq, length_map]
  · rw [hzero]
    exact pairwise_map.mpr hstd.sorted
  · rw [levelItems_eq hstd, levelItems_eq hstd]
    exact (onLevel_mono es Entry.height i).map _

lemma represents_init : Represents key (skiplistInit : NpSkiplist α) [] := by
  refine ⟨0, [], ⟨⟨⟨[], rfl, rfl⟩, ?_, ?_, ?_, ?_, ?_, ?_, ?_, ?_, ?_⟩, ?_, ?_, ?_, ?_, rfl⟩, .nil⟩
  all_goals simp [onLevel, Sorted, skiplistInit]

lemma any_key_iff (hperm : (es.map Entry.item).Perm m) (item : α) :
    m.any (fun y => key y = key item) = true ↔ ∃ e ∈ es, key e.item = key item := by
  simp only [List.any_eq_true, decide_eq_true_eq]
  constructor
  · rintro ⟨y, hy, hkey⟩
    obtain ⟨e, he, rfl⟩ := mem_map.mp (hperm.mem_iff.mpr hy)
    exact ⟨e, he, hkey⟩
  · rintro ⟨e, he, hkey⟩
    exact ⟨e.item, hperm.mem_iff.mp (mem_map_of_mem he), hkey⟩

lemma absent_of_any (hperm : (es.map Entry.item).Perm m)
    (hany : ¬ m.any (fun y => key y = key item) = true) : ∀ e ∈ es, key e.item ≠ key item :=
  fun e he hkey => hany ((any_key_iff hperm item).mpr ⟨e, he, hkey⟩)

section

variable (hcmp : Compares compare_func key) (h : Represents key s m)
include hcmp h

lemma add_represents (item : α) (z : BitVec 31) :
    ∃ s', call compare_func s (.add item z) = .ok (s', (setCall key m (.add item z)).2) ∧
      Represents key s' (setCall key m (.add item z)).1 := by
  obtain ⟨H, es, hstd, hperm⟩ := h.stored
  by_cases hany : m.any (fun y => key y = key item) = true
  · obtain ⟨x, hx, hkey⟩ := (any_key_iff hperm item).mp hany
    refine ⟨s, ?_, ?_⟩
    · simp only [call, skiplistAdd_present hcmp hstd hx hkey z, ok_bind, setCall, if_pos hany]
      rfl
    · rw [setCall, if_pos hany]
      exact h
  · obtain ⟨s', H', lo, hi, new, hadd, rfl, rfl, hs'⟩ :=
      skiplistAdd_absent hcmp hstd (absent_of_any hperm hany) z
    refine ⟨s', ?_, ?_⟩
    · simp only [call, hadd, ok_bind, setCall, if_neg hany]
      rfl
    · rw [setCall, if_neg hany]
      refine ⟨H', _, hs', ?_⟩
      rw [map_append, map_cons]
      refine perm_middle.trans (List.Perm.cons _ ?_)
      rw [← map_append]
      exact hperm

lemma remove_represents (item : α) :
    ∃ s', call compare_func s (.remove item) = .ok (s', (setCall key m (.remove item)).2) ∧
      Represents key s' (setCall key m (.remove item)).1 := by
  obtain ⟨H, es, hstd, hperm⟩ := h.stored
  by_cases hany : m.any (fun y => key y = key item) = true
  · obtain ⟨x, hx, hkey⟩ := (any_key_iff hperm item).mp hany
    obtain ⟨front, rest, rfl⟩ := append_of_mem hx
    obtain ⟨s', hrem, hs'⟩ := skiplistRemove_present hcmp hstd hkey
    refine ⟨s', ?_, H, _, hs', ?_⟩
    · simp only [call, hrem, ok_bind, setCall, hany]
      rfl
    · have hne : ∀ e ∈ front ++ rest, key e.item ≠ key item := by
        intro e he heq
        have hmem : e ∈ front ++ x :: rest := by
          rw [mem_append, mem_cons]
          rw [mem_append] at he
          tauto
        refine addr_ne_of_mem hstd.layout.distinct he ?_
        rw [key_injOn hstd.sorted hmem hx (heq.trans hkey.symm)]
      have hfil := hperm.filter (fun y => key y ≠ key item)
      rw [map_append, map_cons, filter_append, filter_cons_of_neg (by simp [hkey]),
        ← filter_append, ← map_append, filter_eq_self.mpr] at hfil
      · exact hfil
      · intro y hy
        obtain ⟨e, he, rfl⟩ := mem_map.mp hy
        simpa using hne e he
  · have ha := absent_of_any hperm hany
    refine ⟨s, ?_, ?_⟩
    · simp only [call, skiplistRemove_absent hcmp hstd ha, ok_bind, setCall, hany]
      rfl
    · have hkeep : m.filter (fun y => key y ≠ key item) = m := by
        rw [filter_eq_self]
        intro y hy
        obtain ⟨e, he, rfl⟩ := mem_map.mp (hperm.mem_iff.mpr hy)
        simpa using ha e he
      rw [setCall, hkeep]
      exact h

lemma find_represents (item : α) :
    call compare_func s (.find item) = .ok (s, (setCall key m (.find item)).2) := by
  obtain ⟨H, es, hstd, hperm⟩ := h.stored
  cases hfind : m.find? (fun y => key y = key item) with
  | some y =>
    have hkey : key y = key item := by simpa using find?_some hfind
    obtain ⟨x, hx, rfl⟩ := mem_map.mp (hperm.mem_iff.mpr (mem_of_find?_eq_some hfind))
    simp only [call, skiplistFind_present hcmp hstd hx hkey, ok_bind, setCall, hfind]
    rfl
  | none =>
    have ha : ∀ e ∈ es, key e.item ≠ key item := by
      intro e he
      have := find?_eq_none.mp hfind e.item (hperm.mem_iff.mp (mem_map_of_mem he))
      simpa using this
    obtain ⟨stored, hcall⟩ := skiplistFind_absent hcmp hstd ha
    simp only [call, hcall, ok_bind, setCall, hfind]
    rfl

lemma call_represents (op : Op α) :
    ∃ s', call compare_func s op = .ok (s', (setCall key m op).2) ∧
      Represents key s' (setCall key m op).1 := by
  cases op with
  | add item z => exact add_represents hcmp h item z
  | remove item => exact remove_represents hcmp h item
  | find item => exact ⟨s, find_represents hcmp h item, h⟩

end

def Reached (key : α → β) (ops : List (Op α))
    (r : Except Fault (NpSkiplist α × List (Output α))) : Prop :=
  ∃ s, r = .ok (s, (setAfter key ops).2) ∧ Represents key s (setAfter key ops).1

lemma step_reached (hcmp : Compares compare_func key) (ops : List (Op α))
    (r : Except Fault (NpSkiplist α × List (Output α))) (op : Op α) (h : Reached key ops r) :
    Reached key (ops ++ [op]) (step compare_func r op) := by
  obtain ⟨s, rfl, hrep⟩ := h
  obtain ⟨s', hcall, hrep'⟩ := call_represents hcmp hrep op
  refine ⟨s', ?_, ?_⟩
  · simp only [step, ok_bind, hcall, setAfter, run_concat, setStep]
    rfl
  · simpa only [setAfter, run_concat, setStep] using hrep'

/-- For every sequence of calls and every choice of heights, the skiplist behaves as the set
does. -/
theorem skiplist_behaves_as_set (compare_func : α → α → Int) (key : α → β)
    (hcmp : Compares compare_func key) (ops : List (Op α)) :
    ∃ s, after compare_func ops = .ok (s, (setAfter key ops).2) ∧
      HoldsSet key s (setAfter key ops).1 := by
  obtain ⟨s, ha, hrep⟩ := run_inv_always (Reached key)
    ⟨skiplistInit, rfl, represents_init⟩ (step_reached hcmp) ops
  exact ⟨s, ha, hrep.holdsSet⟩

def compareInt (a b : Int) : Int := if a < b then -1 else if a = b then 0 else 1

lemma compareInt_compares : Compares compareInt (fun a : Int => a) := by
  constructor
  all_goals
    intro a b
    by_cases hlt : a < b
    · simp [compareInt, hlt, ne_of_lt hlt]
    · by_cases heq : a = b <;> simp [compareInt, hlt, heq]

theorem skiplist_behaves_as_set_ints :
    ∃ s, after compareInt [.add 5 3, .add 2 0, .add 5 1, .find 2, .remove 5, .find 5] =
        .ok (s, [.added true, .added true, .added false, .found (some 2), .removed true,
          .found none]) ∧ HoldsSet (fun a => a) s [2] :=
  skiplist_behaves_as_set compareInt (fun a => a) compareInt_compares
    [.add 5 3, .add 2 0, .add 5 1, .find 2, .remove 5, .find 5]

end Neuropil.Skiplist.SetRuns
