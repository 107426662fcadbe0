import Mathlib.Algebra.Group.Nat.Defs
import Mathlib.Data.List.Nodup
import Mathlib.Order.Lattice
import Neuropil.Lib.Chain
import Neuropil.Lib.Fault

namespace Neuropil.Skiplist.Search

open Function List Option Lib.Chain Lib.Fault

section

section

variable {α : Type}

structure SkipNode (α : Type) where
  item : Option α
  sentinel : Bool
  height : ℕ
  nodes : List (Option ℕ)

/-- The nodes of a `np_skiplist_t` in memory. Its root has address 0, and `fresh`
is the address of the next node. -/
structure NpSkiplist (α : Type) where
  heap : ℕ → Option (SkipNode α)
  fresh : ℕ
  num_elements : ℕ

inductive Fault
  | useAfterFree
  | outOfBounds
  | nullItem
  | endless
  deriving DecidableEq

def skiplistInit : NpSkiplist α := ⟨fun p => if p = 0 then some ⟨none, true, 0, []⟩ else none, 1, 0⟩

def countBits : ℕ → ℕ → ℕ
  | 0, _ => 0
  | fuel + 1, elements => if 0 < elements then countBits fuel (elements / 2) + 1 else 0

def countOnes (z : BitVec 31) : ℕ → ℕ → ℕ
  | 0, k => k
  | fuel + 1, k => if z.getLsbD k then countOnes z fuel (k + 1) else k

def pickHeight (elements : ℕ) (z : BitVec 31) : ℕ :=
  let max_height := 1 + countBits 32 (elements % 2 ^ 32)
  let k := countOnes z 32 0
  if k > max_height then max_height else k

-- A negative `int8_t r` does not enter the search loops.
def startLevel (height : ℕ) : ℕ := if height % 256 < 128 then height % 256 else 0

variable (s : NpSkiplist α)

def deref (p : ℕ) : Except Fault (SkipNode α) :=
  match s.heap p with
  | some node => .ok node
  | none => .error .useAfterFree

def itemAt (p : ℕ) : Except Fault α := do
  match (← deref s p).item with
  | some item => .ok item
  | none => .error .nullItem

def nodeAt (u i : ℕ) : Except Fault (Option ℕ) := do
  match (← deref s u).nodes[i]? with
  | some p => .ok p
  | none => .error .outOfBounds

def nextAt (u i : ℕ) : Except Fault (Option ℕ) := do
  if (← deref s u).nodes.isEmpty then .ok none else nodeAt s u i

def setNode (u i : ℕ) (p : Option ℕ) : Except Fault (NpSkiplist α) := do
  let node ← deref s u
  if i < node.nodes.length then
    .ok { s with heap := update s.heap u (some { node with nodes := node.nodes.set i p }) }
  else .error .outOfBounds

variable (compare_func : α → α → Int)

def advance (s : NpSkiplist α) (item : α) (i : ℕ) : ℕ → ℕ → Int → Except Fault (ℕ × Int)
  | 0, _, _ => .error .endless
  | fuel + 1, u, comp => do
    match ← nextAt s u i with
    | none => .ok (u, comp)
    | some p =>
      let comp := compare_func (← itemAt s p) item
      if comp < 0 then advance s item i fuel p comp else .ok (u, comp)

/-- The shortcut: the level below has the same next element, so it is not compared again. -/
def sameBelow (u : ℕ) : ℕ → Except Fault Bool
  | 0 => .ok false
  | r + 1 => do return (← nodeAt s u r) == (← nodeAt s u (r + 1))

def search (s : NpSkiplist α) (item : α) (r : ℕ) (skip : Bool) (u : ℕ) (comp : Int) :
    Except Fault (ℕ × Int) :=
  if skip then .ok (u, comp) else advance compare_func s item r (s.num_elements + 1) u comp

def findFrom (s : NpSkiplist α) (item : α) : ℕ → Bool → ℕ → Int → Except Fault (ℕ × Int)
  | 0, _, u, comp => .ok (u, comp)
  | r + 1, skip, u, comp => do
    let (u, comp) ← search compare_func s item r skip u comp
    findFrom s item r (← sameBelow s u r) u comp

def skiplistFind (s : NpSkiplist α) (item : α) : Except Fault (Bool × Option α) := do
  let (u, comp) ← findFrom compare_func s item (startLevel (← deref s 0).height) false 0 (-1)
  let node ← deref s u
  if 0 ≤ comp ∧ ¬ node.nodes.isEmpty then
    match ← nodeAt s u 0 with
    | some p => return (comp == 0, (← deref s p).item)
    | none => return (comp == 0, node.item)
  else return (false, some item)

def unlink (u r : ℕ) (comp : Int) (to_remove : Option ℕ) :
    Except Fault (NpSkiplist α × Option ℕ) := do
  match ← nextAt s u r with
  | some p =>
    if comp = 0 then
      let after ← nodeAt s p r
      let s ← setNode s u r after
      let s ← if (← deref s u).sentinel ∧ after.isNone then setNode s 0 r none else .ok s
      return (s, some p)
    else return (s, to_remove)
  | none => return (s, to_remove)

def removeFrom (item : α) :
    ℕ → Bool → NpSkiplist α → ℕ → Int → Option ℕ → Except Fault (NpSkiplist α × Option ℕ)
  | 0, _, s, _, _, to_remove => .ok (s, to_remove)
  | r + 1, skip, s, u, comp, to_remove => do
    let (u, comp) ← search compare_func s item r skip u comp
    let (s, to_remove) ← unlink s u r comp to_remove
    removeFrom item r (← sameBelow s u r) s u comp to_remove

def skiplistRemove (s : NpSkiplist α) (item : α) : Except Fault (NpSkiplist α × Bool) := do
  let (s, to_remove) ←
    removeFrom compare_func item (startLevel (← deref s 0).height) false s 0 (-1) none
  match to_remove with
  | some p =>
    let _ ← deref s p
    return (⟨update s.heap p none, s.fresh, s.num_elements - 1⟩, true)
  | none => return (s, false)

/-- The search of `np_skiplist_add`, which collects the predecessors of all levels.
The result is `none` if the item already exists. -/
def addFrom (s : NpSkiplist α) (item : α) : ℕ → Bool → ℕ → List ℕ → Except Fault (Option (List ℕ))
  | 0, _, _, stack => .ok (some stack)
  | r + 1, skip, u, stack => do
    let (u, comp) ← search compare_func s item r skip u 0
    if ¬ skip ∧ (← nextAt s u r).isSome ∧ comp = 0 then .ok none
    else addFrom s item r (← sameBelow s u r) u (u :: stack)

def linkFrom (new_skipnode : ℕ) : ℕ → List ℕ → NpSkiplist α → Except Fault (NpSkiplist α)
  | _, [], s => .ok s
  | i, u :: stack, s => do
    let s ← setNode s new_skipnode i (← nextAt s u i)
    linkFrom new_skipnode (i + 1) stack (← setNode s u i (some new_skipnode))

def raise (root : SkipNode α) (k : ℕ) : SkipNode α :=
  { root with
    height := root.height + (k - root.height)
    nodes := root.nodes ++ List.replicate (k - root.height) none }

def skiplistAdd (s : NpSkiplist α) (item : α) (z : BitVec 31) :
    Except Fault (NpSkiplist α × Bool) := do
  let k := pickHeight s.num_elements z + 1
  let root ← deref s 0
  match ← addFrom compare_func s item (startLevel root.height) false 0 [] with
  | none => return (s, false)
  | some stack =>
    let new_skipnode := s.fresh
    let heap := update s.heap new_skipnode
      (some ⟨some item, false, k, List.replicate k none⟩)
    let heap := update heap 0 (some (raise root k))
    let stack := stack ++ List.replicate (k - root.height) 0
    let s ← linkFrom new_skipnode 0 (stack.take k) ⟨heap, s.fresh + 1, s.num_elements + 1⟩
    return (s, true)

end

variable {α β : Type}

/-- A node of the list: where it is, what it stores and on how many levels it is linked. -/
structure Entry (α : Type) where
  addr : ℕ
  item : α
  height : ℕ

def next (s : NpSkiplist α) (i u : ℕ) : Option ℕ := ((s.heap u).bind (fun n => n.nodes[i]?)).join

/-- The nodes in memory are the root and the given entries, and on each level
the given entries are linked one after the other. -/
structure Layout (s : NpSkiplist α) (H : ℕ) (es : List (Entry α)) (level : ℕ → List (Entry α)) :
    Prop where
  root : ∃ nodes, s.heap 0 = some ⟨none, true, H, nodes⟩ ∧ nodes.length = H
  alloc : ∀ e ∈ es, ∃ nodes, s.heap e.addr = some ⟨some e.item, false, e.height, nodes⟩ ∧
    nodes.length = e.height
  addr_pos : ∀ e ∈ es, 0 < e.addr
  addr_fresh : ∀ e ∈ es, e.addr < s.fresh
  distinct : (es.map Entry.addr).Nodup
  level_sub : ∀ i, (level i).Sublist es
  level_mono : ∀ i, (level (i + 1)).Sublist (level i)
  level_height : ∀ i, ∀ e ∈ level i, i < e.height
  height_le : ∀ e ∈ es, e.height ≤ H
  linked : ∀ i < H, Linked (next s i) (0 :: (level i).map Entry.addr)

variable {s : NpSkiplist α} {H : ℕ} {es : List (Entry α)} {level : ℕ → List (Entry α)}
  {node : SkipNode α}

lemma deref_eq {u : ℕ} (h : s.heap u = some node) : deref s u = .ok node := by
  rw [deref, h]

lemma nodeAt_eq {u i : ℕ} (h : s.heap u = some node)
    (hi : i < node.nodes.length) : nodeAt s u i = .ok (next s i u) := by
  simp only [nodeAt, deref_eq h, ok_bind, next, h, bind_some, getElem?_eq_getElem hi, join_some]

lemma nextAt_eq {u i : ℕ} (h : s.heap u = some node)
    (hi : i < node.nodes.length) : nextAt s u i = .ok (next s i u) := by
  have hne : node.nodes.isEmpty = false := by
    rw [isEmpty_eq_false_iff, ← length_pos_iff]
    omega
  simp only [nextAt, deref_eq h, ok_bind, hne, Bool.false_eq_true, if_false, nodeAt_eq h hi]

section

variable {i u : ℕ} (h : Layout s H es level) (hi : i < H) (hu : u ∈ 0 :: (level i).map Entry.addr)
include h hi hu

lemma Layout.node_of_mem : ∃ node, s.heap u = some node ∧ i < node.nodes.length := by
  obtain rfl | hu := mem_cons.mp hu
  · obtain ⟨nodes, hroot, hlen⟩ := h.root
    exact ⟨_, hroot, by rw [hlen]; exact hi⟩
  · obtain ⟨e, he, rfl⟩ := mem_map.mp hu
    obtain ⟨nodes, ha, hlen⟩ := h.alloc e ((h.level_sub i).subset he)
    exact ⟨_, ha, by rw [hlen]; exact h.level_height i e he⟩

lemma Layout.nodeAt_of_mem : nodeAt s u i = .ok (next s i u) := by
  obtain ⟨node, hnode, hlen⟩ := h.node_of_mem hi hu
  exact nodeAt_eq hnode hlen

lemma Layout.nextAt_of_mem : nextAt s u i = .ok (next s i u) := by
  obtain ⟨node, hnode, hlen⟩ := h.node_of_mem hi hu
  exact nextAt_eq hnode hlen

end

variable {e : Entry α}

lemma Layout.itemAt_of_mem (h : Layout s H es level) (he : e ∈ es) :
    itemAt s e.addr = .ok e.item := by
  obtain ⟨nodes, ha, _⟩ := h.alloc e he
  simp only [itemAt, deref_eq ha, ok_bind]

lemma Layout.eq_of_addr_eq (h : Layout s H es level) {e' : Entry α} (he : e ∈ es) (he' : e' ∈ es)
    (heq : e.addr = e'.addr) : e = e' :=
  inj_on_of_nodup_map h.distinct he he' heq

lemma Layout.nodup_level (h : Layout s H es level) (i : ℕ) :
    (0 :: (level i).map Entry.addr).Nodup := by
  refine nodup_cons.mpr ⟨?_, h.distinct.sublist ((h.level_sub i).map Entry.addr)⟩
  intro hmem
  obtain ⟨e, he, hzero⟩ := mem_map.mp hmem
  have := h.addr_pos e ((h.level_sub i).subset he)
  omega

variable [LinearOrder β] (key : α → β)

def Sorted (l : List (Entry α)) : Prop := l.Pairwise (fun a b => key a.item < key b.item)

/-- The search for `k` on level `i` stands at `u`, behind smaller items only, and
`rest` is still before it. -/
structure Pos (level : ℕ → List (Entry α)) (k : β) (i u : ℕ) (rest : List (Entry α)) : Prop where
  split : ∃ front, level i = front ++ rest ∧ (∀ e ∈ front, key e.item < k) ∧
    u = (front.map Entry.addr).getLastD 0

variable {key} {k : β} {i u : ℕ} {rest : List (Entry α)}

lemma Pos.start (level : ℕ → List (Entry α)) (k : β) (i : ℕ) : Pos key level k i 0 (level i) :=
  ⟨⟨[], rfl, by simp, rfl⟩⟩

lemma Pos.rest_mem (hpos : Pos key level k i u rest) (he : e ∈ rest) : e ∈ level i := by
  obtain ⟨front, hlvl, _, _⟩ := hpos.split
  rw [hlvl]
  exact mem_append_right _ he

lemma Pos.rest_sorted (hpos : Pos key level k i u rest) (h : Layout s H es level)
    (hsrt : Sorted key es) : Sorted key rest := by
  obtain ⟨front, hlvl, _, _⟩ := hpos.split
  refine hsrt.sublist (List.Sublist.trans ?_ (h.level_sub i))
  rw [hlvl]
  exact sublist_append_right _ _

lemma exists_before {γ : Type} (d : γ) (l : List γ) :
    ∃ before, ∀ rest, d :: (l ++ rest) = before ++ l.getLastD d :: rest := by
  obtain rfl | ⟨init, a, rfl⟩ := eq_nil_or_concat' l
  · exact ⟨[], fun _ => rfl⟩
  · exact ⟨d :: init, by simp⟩

section

variable (hpos : Pos key level k i u rest)
include hpos

lemma Pos.chain :
    ∃ before, 0 :: (level i).map Entry.addr = before ++ u :: rest.map Entry.addr := by
  obtain ⟨front, hlvl, _, rfl⟩ := hpos.split
  obtain ⟨before, hb⟩ := exists_before 0 (front.map Entry.addr)
  exact ⟨before, by rw [hlvl, map_append, hb]⟩

lemma Pos.mem : u ∈ 0 :: (level i).map Entry.addr := by
  obtain ⟨before, hb⟩ := hpos.chain
  rw [hb]
  exact mem_append_right _ mem_cons_self

lemma Pos.linked (h : Layout s H es level) (hi : i < H) :
    Linked (next s i) (u :: rest.map Entry.addr) := by
  obtain ⟨before, hb⟩ := hpos.chain
  have hlk := h.linked i hi
  rw [hb] at hlk
  exact hlk.of_append

lemma Pos.next_eq (h : Layout s H es level) (hi : i < H) :
    next s i u = rest.head?.map Entry.addr := by
  rw [(hpos.linked h hi).1, head?_map]

end

lemma Pos.step (hpos : Pos key level k i u (e :: rest)) (he : key e.item < k) :
    Pos key level k i e.addr rest := by
  obtain ⟨front, hlvl, hfrt, _⟩ := hpos.split
  refine ⟨front ++ [e], by simp [hlvl], ?_, ?_⟩
  · intro e' he'
    obtain he' | he' := mem_append.mp he'
    · exact hfrt e' he'
    · obtain rfl := mem_singleton.mp he'
      exact he
  · rw [map_append, map_singleton, getLastD_concat]

lemma Pos.down (hpos : Pos key level k (i + 1) u rest) (h : Layout s H es level)
    (hsrt : Sorted key es) : ∃ rest', Pos key level k i u rest' := by
  obtain ⟨front, hlvl, hfrt, hu⟩ := hpos.split
  obtain rfl | ⟨init, e, rfl⟩ := eq_nil_or_concat' front
  · simp only [map_nil, getLastD_nil] at hu
    exact ⟨level i, hu ▸ Pos.start level k i⟩
  · rw [map_append, map_singleton, getLastD_concat] at hu
    have hmem : e ∈ level i := (h.level_mono i).subset (by simp [hlvl])
    obtain ⟨before, after, hspl⟩ := append_of_mem hmem
    refine ⟨after, ⟨before ++ [e], by simp [hspl], ?_, ?_⟩⟩
    · have hs : Sorted key (level i) := hsrt.sublist (h.level_sub i)
      rw [hspl, Sorted, pairwise_append] at hs
      have hek := hfrt e (by simp)
      intro e' he'
      obtain he' | he' := mem_append.mp he'
      · exact lt_trans (hs.2.2 e' he' e mem_cons_self) hek
      · obtain rfl := mem_singleton.mp he'
        exact hek
    · rw [map_append, map_singleton, getLastD_concat, hu]

def Ended (key : α → β) (k : β) (rest : List (Entry α)) : Prop := ∀ e ∈ rest.head?, ¬ key e.item < k

lemma Ended.le_key (hend : Ended key k rest) (hs : Sorted key rest) (he : e ∈ rest) :
    k ≤ key e.item := by
  cases rest with
  | nil => cases he
  | cons a rest =>
    have ha := not_lt.mp (hend a rfl)
    obtain rfl | he := mem_cons.mp he
    · exact ha
    · exact le_trans ha (le_of_lt (rel_of_pairwise_cons hs he))

variable {rest' : List (Entry α)}

lemma Pos.rest_subset (hpos : Pos key level k (i + 1) u rest)
    (hend : Ended key k rest) (hpos' : Pos key level k i u rest') (h : Layout s H es level)
    (hsrt : Sorted key es) : ∀ e ∈ rest, e ∈ rest' := by
  intro e he
  obtain ⟨front', hl', hf', _⟩ := hpos'.split
  have hs := hpos.rest_sorted h hsrt
  have hmem : e ∈ level i := (h.level_mono i).subset (hpos.rest_mem he)
  rw [hl'] at hmem
  obtain hf | hr := mem_append.mp hmem
  · exact absurd (hf' e hf) (not_lt.mpr (hend.le_key hs he))
  · exact hr

lemma Pos.head_eq (hpos : Pos key level k (i + 1) u rest)
    (hpos' : Pos key level k i u rest') (h : Layout s H es level) (hi : i + 1 < H)
    (hsame : next s i u = next s (i + 1) u) : rest'.head? = rest.head? := by
  rw [hpos.next_eq h hi, hpos'.next_eq h (by omega)] at hsame
  cases hr : rest.head? with
  | none => rw [hr] at hsame; simpa using hsame
  | some e =>
    rw [hr, map_some, map_eq_some_iff] at hsame
    obtain ⟨e', he', ha⟩ := hsame
    have hmem := (h.level_sub i).subset (hpos'.rest_mem (mem_of_head? he'))
    have hmem' := (h.level_sub (i + 1)).subset (hpos.rest_mem (mem_of_head? hr))
    rw [he', h.eq_of_addr_eq hmem hmem' ha]

end

variable {α β : Type} [LinearOrder β] {compare_func : α → α → Int} {key : α → β}

structure Compares (compare_func : α → α → Int) (key : α → β) : Prop where
  neg_iff : ∀ a b, compare_func a b < 0 ↔ key a < key b
  zero_iff : ∀ a b, compare_func a b = 0 ↔ key a = key b

variable {s : NpSkiplist α} {H : ℕ} {es : List (Entry α)} {level : ℕ → List (Entry α)}

def Fresh (compare_func : α → α → Int) (item : α) (comp : Int) : List (Entry α) → Prop
  | [] => comp < 0
  | e :: _ => comp = compare_func e.item item

variable {item : α} {rest : List (Entry α)} {comp : Int}

lemma fresh_congr {rest' : List (Entry α)} (h : Fresh compare_func item comp rest)
    (heq : rest'.head? = rest.head?) : Fresh compare_func item comp rest' := by
  cases rest with
  | nil =>
    rw [head?_nil, head?_eq_none_iff] at heq
    rw [heq]
    exact h
  | cons e rest =>
    obtain ⟨rest', rfl⟩ := head?_eq_some_iff.mp heq
    exact h

variable {i u : ℕ}

lemma advance_spec (hcmp : Compares compare_func key) (h : Layout s H es level) (hi : i < H)
    {fuel : ℕ} (comp : Int)
    (hpos : Pos key level (key item) i u rest) (hfuel : rest.length < fuel) :
    ∃ u' comp' rest', advance compare_func s item i fuel u comp = .ok (u', comp') ∧
      Pos key level (key item) i u' rest' ∧ Ended key (key item) rest' ∧
      (rest' ≠ [] → Fresh compare_func item comp' rest') ∧
      (rest' = [] → comp' < 0 ∨ comp' = comp ∧ rest = []) := by
  induction rest generalizing u fuel comp with
  | nil =>
    obtain ⟨fuel, rfl⟩ : ∃ n, fuel = n + 1 := ⟨fuel - 1, by simp at hfuel; omega⟩
    refine ⟨u, comp, [], ?_, hpos, by simp [Ended], by simp, by simp⟩
    simp only [advance, h.nextAt_of_mem hi hpos.mem, ok_bind, hpos.next_eq h hi, head?_nil,
      Option.map_none]
  | cons e rest ih =>
    obtain ⟨fuel, rfl⟩ : ∃ n, fuel = n + 1 := ⟨fuel - 1, by simp at hfuel; omega⟩
    have hmem : e ∈ es := (h.level_sub i).subset (hpos.rest_mem mem_cons_self)
    simp only [advance, h.nextAt_of_mem hi hpos.mem, ok_bind, hpos.next_eq h hi, head?_cons,
      Option.map_some, h.itemAt_of_mem hmem]
    by_cases hlt : compare_func e.item item < 0
    · rw [if_pos hlt]
      have hstep := hpos.step ((hcmp.neg_iff _ _).mp hlt)
      obtain ⟨u', comp', rest', hadv, hpos', hend, hfr, hnil⟩ :=
        ih (compare_func e.item item) hstep (by simpa using hfuel)
      refine ⟨u', comp', rest', hadv, hpos', hend, hfr, fun hr => ?_⟩
      obtain hneg | ⟨rfl, _⟩ := hnil hr
      · exact .inl hneg
      · exact .inl hlt
    · rw [if_neg hlt]
      refine ⟨u, _, e :: rest, rfl, hpos, ?_, fun _ => rfl, by simp⟩
      intro e' he'
      obtain rfl : e = e' := by simpa using he'
      exact fun hk => hlt ((hcmp.neg_iff _ _).mpr hk)

structure Ready (compare_func : α → α → Int) (key : α → β) (level : ℕ → List (Entry α)) (item : α)
    (i : ℕ) (skip : Bool) (u : ℕ) (comp : Int) : Prop where
  pos : ∃ rest, Pos key level (key item) i u rest ∧ (rest = [] → comp < 0) ∧
    (skip = true → Ended key (key item) rest ∧ Fresh compare_func item comp rest)

structure Done (compare_func : α → α → Int) (key : α → β) (level : ℕ → List (Entry α)) (item : α)
    (i u : ℕ) (comp : Int) : Prop where
  pos : ∃ rest, Pos key level (key item) i u rest ∧ Ended key (key item) rest ∧
    Fresh compare_func item comp rest

lemma Pos.length_lt {k : β} (hpos : Pos key level k i u rest) (h : Layout s H es level)
    (hcount : es.length ≤ s.num_elements) : rest.length < s.num_elements + 1 := by
  obtain ⟨front, hlvl, _, _⟩ := hpos.split
  have hle := (h.level_sub i).length_le
  rw [hlvl, length_append] at hle
  omega

lemma search_done (hcmp : Compares compare_func key) (h : Layout s H es level)
    (hcount : es.length ≤ s.num_elements) {skip : Bool} (hi : i < H)
    (hrdy : Ready compare_func key level item i skip u comp) :
    ∃ u' comp', search compare_func s item i skip u comp = .ok (u', comp') ∧
      Done compare_func key level item i u' comp' := by
  obtain ⟨rest, hpos, hnil, hskip⟩ := hrdy.pos
  cases skip with
  | true =>
    obtain ⟨hend, hfr⟩ := hskip rfl
    exact ⟨u, comp, rfl, ⟨rest, hpos, hend, hfr⟩⟩
  | false =>
    have hlen := hpos.length_lt h hcount
    obtain ⟨u', comp', rest', hadv, hpos', hend, hfr, hstale⟩ :=
      advance_spec hcmp h hi comp hpos hlen
    refine ⟨u', comp', hadv, ⟨rest', hpos', hend, ?_⟩⟩
    by_cases hr : rest' = []
    · subst hr
      obtain hneg | ⟨rfl, hrest⟩ := hstale rfl
      · exact hneg
      · exact hnil hrest
    · exact hfr hr

section

variable (h : Layout s H es level) (hsorted : Sorted key es) (hi : i + 1 < H)
include h hsorted hi

lemma sameBelow_spec {k : β} (hpos : Pos key level k (i + 1) u rest) (hend : Ended key k rest) :
    ∃ skip rest', sameBelow s u (i + 1) = .ok skip ∧ Pos key level k i u rest' ∧
      (∀ e ∈ rest, e ∈ rest') ∧ (skip = true → rest'.head? = rest.head? ∧ Ended key k rest') := by
  obtain ⟨rest', hpos'⟩ := hpos.down h hsorted
  refine ⟨next s i u == next s (i + 1) u, rest', ?_, hpos', hpos.rest_subset hend hpos' h hsorted,
    fun hsame => ?_⟩
  · simp only [sameBelow, h.nodeAt_of_mem (by omega) hpos'.mem, h.nodeAt_of_mem hi hpos.mem,
      ok_bind]
    rfl
  · have hh := hpos.head_eq hpos' h hi (by simpa using hsame)
    refine ⟨hh, ?_⟩
    rw [Ended, hh]
    exact hend

lemma done_ready (hdone : Done compare_func key level item (i + 1) u comp) :
    ∃ skip, sameBelow s u (i + 1) = .ok skip ∧ Ready compare_func key level item i skip u comp := by
  obtain ⟨rest, hpos, hend, hfr⟩ := hdone.pos
  obtain ⟨skip, rest', hsame, hpos', hsub, hskip⟩ := sameBelow_spec h hsorted hi hpos hend
  refine ⟨skip, hsame, ⟨rest', hpos', ?_, fun hs => ⟨(hskip hs).2, ?_⟩⟩⟩
  · rintro rfl
    obtain rfl := eq_nil_iff_forall_not_mem.mpr (fun e he => not_mem_nil (hsub e he))
    exact hfr
  · exact fresh_congr hfr (hskip hs).1

end

lemma findFrom_done (hcmp : Compares compare_func key) (h : Layout s H es level)
    (hsorted : Sorted key es) (hcount : es.length ≤ s.num_elements) (i : ℕ) {skip : Bool}
    (hi : i < H) (hrdy : Ready compare_func key level item i skip u comp) :
    ∃ u' comp', findFrom compare_func s item (i + 1) skip u comp = .ok (u', comp') ∧
      Done compare_func key level item 0 u' comp' := by
  induction i generalizing u skip comp with
  | zero =>
    obtain ⟨u', comp', hsr, hdone⟩ := search_done hcmp h hcount hi hrdy
    refine ⟨u', comp', ?_, hdone⟩
    simp only [findFrom, hsr, ok_bind, sameBelow]
  | succ i ih =>
    obtain ⟨u', comp', hsr, hdone⟩ := search_done hcmp h hcount hi hrdy
    obtain ⟨skip', hsame, hr'⟩ := done_ready h hsorted hi hdone
    obtain ⟨u'', comp'', hfind, hd'⟩ := ih (by omega) hr'
    refine ⟨u'', comp'', ?_, hd'⟩
    rw [findFrom, hsr, ok_bind]
    simp only [hsame, ok_bind, hfind]

lemma ready_start (level : ℕ → List (Entry α)) (item : α) (i : ℕ) :
    Ready compare_func key level item i false 0 (-1) :=
  ⟨⟨level i, Pos.start level _ i, fun _ => by omega, by simp⟩⟩

lemma mem_rest (hpos : Pos key level (key item) i u rest) {e : Entry α} (he : e ∈ level i)
    (hkey : key e.item = key item) : e ∈ rest := by
  obtain ⟨front, hlvl, hfrt, _⟩ := hpos.split
  rw [hlvl] at he
  obtain hf | hr := mem_append.mp he
  · exact absurd hkey (ne_of_lt (hfrt e hf))
  · exact hr

lemma head_of_key_eq (h : Layout s H es level) (hsorted : Sorted key es)
    (hpos : Pos key level (key item) i u rest) (hend : Ended key (key item) rest) {e : Entry α}
    (he : e ∈ level i) (hkey : key e.item = key item) : ∃ rest', rest = e :: rest' := by
  have hmem := mem_rest hpos he hkey
  cases rest with
  | nil => cases hmem
  | cons a rest =>
    obtain rfl | hr := mem_cons.mp hmem
    · exact ⟨rest, rfl⟩
    · have hlt := rel_of_pairwise_cons (hpos.rest_sorted h hsorted) hr
      rw [hkey] at hlt
      exact absurd hlt (hend a rfl)

end Neuropil.Skiplist.Search
