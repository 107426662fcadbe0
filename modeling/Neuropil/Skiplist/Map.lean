import Neuropil.Skiplist.Add

namespace Neuropil.Skiplist.Map

open Bool Function List Option Lib.Fault Skiplist.Search Skiplist.Remove

variable {α σ : Type}

section

variable (cmp : α → Int) (map : σ → Option α → σ × Bool)

def mapAdvance (s : NpSkiplist α) (i : ℕ) : ℕ → ℕ → Except Fault ℕ
  | 0, _ => .error .endless
  | fuel + 1, u => do
    match ← nextAt s u i with
    | none => .ok u
    | some p => if cmp (← itemAt s p) < 0 then mapAdvance s i fuel p else .ok u

def mapLevel (s : NpSkiplist α) (r : ℕ) (skip : Bool) (u : ℕ) : Except Fault ℕ :=
  if skip then .ok u else mapAdvance cmp s r (s.num_elements + 1) u

def mapFrom (s : NpSkiplist α) : ℕ → Bool → ℕ → Except Fault ℕ
  | 0, _, u => .ok u
  | r + 1, skip, u => do
    let u ← mapLevel cmp s r skip u
    mapFrom s r (← sameBelow s u r) u

def visitFrom (s : NpSkiplist α) : ℕ → ℕ → σ → Except Fault σ
  | 0, _, _ => .error .endless
  | fuel + 1, u, result => do
    match ← nextAt s u 0 with
    | none => .ok result
    | some p =>
      match (← deref s p).item with
      | none => .ok result
      | some item =>
        let (result, _continue) := map result (some item)
        if _continue then visitFrom s fuel p result else .ok result

def skiplistMap (s : NpSkiplist α) (result : σ) : Except Fault σ := do
  let u ← mapFrom cmp s (startLevel (← deref s 0).height) false 0
  let (result, _continue) := map result (← deref s u).item
  if _continue then visitFrom map s (s.num_elements + 1) u result else .ok result

end

variable {i fuel : ℕ}

section

variable {cmp : α → Int} {s : NpSkiplist α} {u u' : ℕ}

/-- A node is reached only if its item compares as smaller. -/
def Reached (cmp : α → Int) (s : NpSkiplist α) (u u' : ℕ) : Prop :=
  u' = u ∨ ∃ item, itemAt s u' = .ok item ∧ cmp item < 0

lemma Reached.trans {v : ℕ} (h : Reached cmp s u v) (h' : Reached cmp s v u') :
    Reached cmp s u u' := by
  obtain rfl | hitem := h'
  · exact h
  · exact .inr hitem

lemma mapAdvance_reached (h : mapAdvance cmp s i fuel u = .ok u') : Reached cmp s u u' := by
  induction fuel generalizing u with
  | zero => cases h
  | succ fuel ih =>
    obtain ⟨next, -, h⟩ := bind_eq_ok h
    cases next with
    | none =>
      cases h
      exact .inl rfl
    | some p =>
      obtain ⟨item, hitem, h⟩ := bind_eq_ok h
      split at h
      · next hneg => exact Reached.trans (.inr ⟨item, hitem, hneg⟩) (ih h)
      · cases h
        exact .inl rfl

lemma mapFrom_reached {r : ℕ} {skip : Bool} (h : mapFrom cmp s r skip u = .ok u') :
    Reached cmp s u u' := by
  induction r generalizing skip u with
  | zero =>
    cases h
    exact .inl rfl
  | succ r ih =>
    obtain ⟨v, hv, h⟩ := bind_eq_ok h
    obtain ⟨same, -, h⟩ := bind_eq_ok h
    refine Reached.trans ?_ (ih h)
    rw [mapLevel] at hv
    split at hv
    · cases hv
      exact .inl rfl
    · exact mapAdvance_reached hv

variable {H : ℕ} {es : List (Entry α)} {level : ℕ → List (Entry α)} (h : Layout s H es level)
include h

lemma mapAdvance_ok (hi : i < H) {before : List ℕ} {rest : List (Entry α)}
    (hchain : 0 :: (level i).map Entry.addr = before ++ u :: rest.map Entry.addr)
    (hrest : ∀ e ∈ rest, e ∈ es) (hfuel : rest.length < fuel) :
    ∃ u', mapAdvance cmp s i fuel u = .ok u' ∧ u' ∈ 0 :: (level i).map Entry.addr := by
  induction rest generalizing before u fuel with
  | nil =>
    obtain ⟨fuel, rfl⟩ : ∃ n, fuel = n + 1 := ⟨fuel - 1, by omega⟩
    have hmem : u ∈ 0 :: (level i).map Entry.addr := by simp [hchain]
    have hlk := h.linked i hi
    rw [hchain] at hlk
    refine ⟨u, ?_, hmem⟩
    rw [mapAdvance, h.nextAt_of_mem hi hmem, hlk.next_eq]
    rfl
  | cons e rest ih =>
    obtain ⟨fuel, rfl⟩ : ∃ n, fuel = n + 1 := ⟨fuel - 1, by omega⟩
    have hmem : u ∈ 0 :: (level i).map Entry.addr := by simp [hchain]
    have hlk := h.linked i hi
    rw [hchain] at hlk
    have hnext : nextAt s u i = .ok (some e.addr) := by
      rw [h.nextAt_of_mem hi hmem, hlk.next_eq]
      rfl
    have hitem := h.itemAt_of_mem (hrest e mem_cons_self)
    simp only [mapAdvance, hnext, ok_bind, hitem]
    split
    · have hc' : 0 :: (level i).map Entry.addr =
          (before ++ [u]) ++ e.addr :: rest.map Entry.addr := by simp [hchain]
      apply ih hc'
      · exact fun e' he' => hrest e' (mem_cons_of_mem e he')
      · rw [length_cons] at hfuel
        omega
    · exact ⟨u, rfl, hmem⟩

lemma mapLevel_ok (hcount : es.length ≤ s.num_elements)
    (hi : i < H) (skip : Bool) (hu : u ∈ 0 :: (level i).map Entry.addr) :
    ∃ u', mapLevel cmp s i skip u = .ok u' ∧ u' ∈ 0 :: (level i).map Entry.addr := by
  rw [mapLevel]
  split
  · exact ⟨u, rfl, hu⟩
  · obtain rfl | hu := mem_cons.mp hu
    · have hlen := (h.level_sub i).length_le
      exact mapAdvance_ok h hi (nil_append _).symm (fun e he => (h.level_sub i).subset he)
        (by omega)
    · obtain ⟨e, he, rfl⟩ := mem_map.mp hu
      obtain ⟨front, rest, hspl⟩ := append_of_mem he
      have hlen := (h.level_sub i).length_le
      have hchain : 0 :: (level i).map Entry.addr =
          (0 :: front.map Entry.addr) ++ e.addr :: rest.map Entry.addr := by simp [hspl]
      apply mapAdvance_ok h hi hchain
      · exact fun e' he' => (h.level_sub i).subset (by simp [hspl, he'])
      · rw [hspl, length_append, length_cons] at hlen
        omega

lemma mem_below (hu : u ∈ 0 :: (level (i + 1)).map Entry.addr) :
    u ∈ 0 :: (level i).map Entry.addr :=
  (((h.level_mono i).map Entry.addr).cons_cons 0).subset hu

lemma mapFrom_ok {r : ℕ} (hcount : es.length ≤ s.num_elements)
    (hr : r < H) (skip : Bool) (hu : u ∈ 0 :: (level r).map Entry.addr) :
    ∃ u', mapFrom cmp s (r + 1) skip u = .ok u' ∧ u' ∈ 0 :: (level 0).map Entry.addr := by
  induction r generalizing skip u with
  | zero =>
    obtain ⟨v, hv, hmem⟩ := mapLevel_ok h hcount hr skip hu
    refine ⟨v, ?_, hmem⟩
    rw [mapFrom, hv]
    rfl
  | succ r ih =>
    obtain ⟨v, hv, hmem⟩ := mapLevel_ok h hcount hr skip hu
    have hbelow := mem_below h hmem
    obtain ⟨u', hu', hlast⟩ := ih (by omega) (next s r v == next s (r + 1) v) hbelow
    refine ⟨u', ?_, hlast⟩
    have hr' : r < H := by omega
    rw [mapFrom, hv, ok_bind, sameBelow, h.nodeAt_of_mem hr' hbelow, h.nodeAt_of_mem hr hmem]
    exact hu'

end

variable {p : ℕ}

section

variable {cmp : α → Int} {map : σ → Option α → σ × Bool} {s : NpSkiplist α} {result : σ}

def itemIn (s : NpSkiplist α) (p : ℕ) : Option α := (s.heap p).bind SkipNode.item

variable {node : SkipNode α}

lemma heap_of_deref (h : deref s p = .ok node) : s.heap p = some node := by
  rw [deref] at h
  cases hnode : s.heap p with
  | none =>
    rw [hnode] at h
    cases h
  | some found =>
    rw [hnode] at h
    cases h
    rfl

lemma itemIn_of_deref (h : deref s p = .ok node) : itemIn s p = node.item := by
  rw [itemIn, heap_of_deref h, bind_some]

lemma itemIn_of_itemAt {item : α} (h : itemAt s p = .ok item) : itemIn s p = some item := by
  obtain ⟨node, hnode, h⟩ := bind_eq_ok h
  rw [itemIn_of_deref hnode]
  cases hitem : node.item with
  | none =>
    rw [hitem] at h
    cases h
  | some found =>
    rw [hitem] at h
    cases h
    rfl

lemma next_of_nextAt {u : ℕ} {p : Option ℕ} (h : nextAt s u i = .ok p) : next s i u = p := by
  obtain ⟨node, hnode, h⟩ := bind_eq_ok h
  rw [Search.next, heap_of_deref hnode, bind_some]
  split at h
  · next he =>
    cases h
    rw [isEmpty_iff.mp he]
    rfl
  · obtain ⟨found, hfnd, h⟩ := bind_eq_ok h
    obtain rfl : node = found := Except.ok.inj (hnode.symm.trans hfnd)
    cases hget : node.nodes[i]? with
    | none =>
      rw [hget] at h
      cases h
    | some q =>
      rw [hget] at h
      cases h
      rfl

def firstItem (s : NpSkiplist α) : Option α := (itemIn s 0).or ((next s 0 0).bind (itemIn s))

/-- `mr->map` passes over the root, and goes on behind no item. -/
structure Stops (map : σ → Option α → σ × Bool) (result : σ) : Prop where
  root : map result none = (result, true)
  item : ∀ item, (map result (some item)).2 = false

variable {result' : σ}

lemma skiplistMap_cases (hstops : Stops map result)
    (h : skiplistMap cmp map s result = .ok result') :
    (∃ p item, itemIn s p = some item ∧ cmp item < 0 ∧ result' = (map result (some item)).1) ∨
      result' = (firstItem s).elim result fun item => (map result (some item)).1 := by
  obtain ⟨root, hroot, h⟩ := bind_eq_ok h
  obtain ⟨u, hu, h⟩ := bind_eq_ok h
  obtain ⟨node, hnode, h⟩ := bind_eq_ok h
  have hin := itemIn_of_deref hnode
  obtain rfl | ⟨item, hitem, hneg⟩ := mapFrom_reached hu
  · right
    cases hitem : node.item with
    | some item =>
      rw [hitem] at h hin
      simp only [hstops.item, false_eq_true, if_false] at h
      cases h
      rw [firstItem, hin]
      rfl
    | none =>
      rw [hitem] at h hin
      simp only [hstops.root, if_true] at h
      rw [firstItem, hin, none_or]
      obtain ⟨p, hp, h⟩ := bind_eq_ok h
      rw [next_of_nextAt hp]
      cases p with
      | none =>
        cases h
        rfl
      | some p =>
        obtain ⟨node, hnode, h⟩ := bind_eq_ok h
        rw [bind_some, itemIn_of_deref hnode]
        cases hitem : node.item with
        | none =>
          rw [hitem] at h
          cases h
          rfl
        | some item =>
          rw [hitem] at h
          simp only [hstops.item, false_eq_true, if_false] at h
          cases h
          rfl
  · left
    have hitem := itemIn_of_itemAt hitem
    refine ⟨u, item, hitem, hneg, ?_⟩
    rw [← hin, hitem] at h
    simp only [hstops.item, false_eq_true, if_false] at h
    cases h
    rfl

lemma visitFrom_inv {P : σ → Prop} (hmap : ∀ result item, P result → P (map result item).1)
    {u : ℕ} (hres : P result) (h : visitFrom map s fuel u result = .ok result') : P result' := by
  induction fuel generalizing u result with
  | zero => cases h
  | succ fuel ih =>
    obtain ⟨next, -, h⟩ := bind_eq_ok h
    cases next with
    | none =>
      cases h
      exact hres
    | some p =>
      obtain ⟨node, -, h⟩ := bind_eq_ok h
      cases hitem : node.item with
      | none =>
        rw [hitem] at h
        cases h
        exact hres
      | some item =>
        simp only [hitem] at h
        split at h
        · exact ih (hmap result (some item) hres) h
        · cases h
          exact hmap result (some item) hres

lemma skiplistMap_inv {P : σ → Prop} (hmap : ∀ result item, P result → P (map result item).1)
    (hres : P result) (h : skiplistMap cmp map s result = .ok result') : P result' := by
  obtain ⟨root, -, h⟩ := bind_eq_ok h
  obtain ⟨u, -, h⟩ := bind_eq_ok h
  obtain ⟨node, -, h⟩ := bind_eq_ok h
  dsimp only at h
  split at h
  · exact visitFrom_inv hmap (hmap result node.item hres) h
  · cases h
    exact hmap result node.item hres

variable {β : Type} [LinearOrder β] {key : α → β} {H : ℕ} {es : List (Entry α)}
  (h : Stored key s H es)
include h

lemma onLevel_zero : onLevel es Entry.height 0 = es := by
  rw [onLevel, filter_eq_self]
  intro e he
  exact decide_eq_true (h.height_pos e he)

lemma nextAt_root : nextAt s 0 0 = .ok (es.head?.map Entry.addr) := by
  cases H with
  | zero =>
    obtain ⟨nodes, hroot, hlen⟩ := h.layout.root
    have hes : es = [] := by
      by_contra hne
      obtain ⟨e, he⟩ := exists_mem_of_ne_nil es hne
      exact h.height_ne_zero he rfl
    rw [nextAt, deref_eq hroot, ok_bind, length_eq_zero_iff.mp hlen, hes]
    rfl
  | succ r =>
    have hlk := h.layout.linked 0 (Nat.succ_pos r)
    rw [h.layout.nextAt_of_mem (Nat.succ_pos r) mem_cons_self, hlk.1, onLevel_zero h, head?_map]

lemma itemIn_root : itemIn s 0 = none := by
  obtain ⟨nodes, hroot, -⟩ := h.layout.root
  rw [itemIn, hroot]
  rfl

lemma itemIn_entry {e : Entry α} (he : e ∈ es) : itemIn s e.addr = some e.item := by
  obtain ⟨nodes, ha, -⟩ := h.layout.alloc e he
  rw [itemIn, ha]
  rfl

lemma firstItem_eq : firstItem s = es.head?.map Entry.item := by
  rw [firstItem, itemIn_root h, none_or, next_of_nextAt (nextAt_root h)]
  cases es with
  | nil => rfl
  | cons e es => exact itemIn_entry h mem_cons_self

lemma skiplistMap_ok (hstops : Stops map result) :
    ∃ result', skiplistMap cmp map s result = .ok result' := by
  obtain ⟨root, hroot, -, hst⟩ := h.root_height
  have hfrom : ∃ u, mapFrom cmp s H false 0 = .ok u ∧
      u ∈ 0 :: (onLevel es Entry.height 0).map Entry.addr := by
    cases H with
    | zero => exact ⟨0, rfl, mem_cons_self⟩
    | succ r =>
      exact mapFrom_ok h.layout (Nat.le_of_eq h.count.symm) (Nat.lt_succ_self r) false mem_cons_self
  obtain ⟨u, hu, hmem⟩ := hfrom
  rw [onLevel_zero h] at hmem
  rw [skiplistMap, deref_eq hroot, ok_bind, hst, hu, ok_bind]
  obtain rfl | hmem := mem_cons.mp hmem
  · have hitem : root.item = none := by
      rw [← itemIn_of_deref (deref_eq hroot)]
      exact itemIn_root h
    rw [deref_eq hroot, ok_bind, hitem]
    simp only [hstops.root, if_true, visitFrom, nextAt_root h, ok_bind]
    cases es with
    | nil => exact ⟨result, rfl⟩
    | cons e es =>
      obtain ⟨nodes, ha, -⟩ := h.layout.alloc e mem_cons_self
      simp only [head?_cons, map_some, deref_eq ha, ok_bind, hstops.item, false_eq_true, if_false]
      exact ⟨_, rfl⟩
  · obtain ⟨e, he, rfl⟩ := mem_map.mp hmem
    obtain ⟨nodes, ha, -⟩ := h.layout.alloc e he
    simp only [deref_eq ha, ok_bind, hstops.item, false_eq_true, if_false]
    exact ⟨_, rfl⟩

end

variable {compare_func : α → α → Int} {s s' : NpSkiplist α} {item x : α}

lemma setNode_itemIn {u : ℕ} {p : Option ℕ} (h : setNode s u i p = .ok s') (q : ℕ) :
    itemIn s' q = itemIn s q := by
  obtain ⟨node, hnode, h⟩ := bind_eq_ok h
  split at h
  · cases h
    dsimp only [itemIn]
    by_cases hq : q = u
    · rw [hq, update_self, heap_of_deref hnode]
      rfl
    · rw [update_of_ne hq]
  · cases h

variable {stack : List ℕ}

lemma linkFrom_itemIn {new_skipnode : ℕ} (h : linkFrom new_skipnode i stack s = .ok s') (q : ℕ) :
    itemIn s' q = itemIn s q := by
  induction stack generalizing i s with
  | nil =>
    cases h
    rfl
  | cons u stack ih =>
    obtain ⟨p, -, h⟩ := bind_eq_ok h
    obtain ⟨s1, hs1, h⟩ := bind_eq_ok h
    obtain ⟨s2, hs2, h⟩ := bind_eq_ok h
    rw [ih h, setNode_itemIn hs2, setNode_itemIn hs1]

variable {z : BitVec 31}

lemma skiplistAdd_itemIn (h : skiplistAdd compare_func s item z = .ok (s', true))
    {q : ℕ} (hx : itemIn s' q = some x) : itemIn s q = some x ∨ x = item := by
  obtain ⟨root, hroot, h⟩ := bind_eq_ok h
  obtain ⟨stack, -, h⟩ := bind_eq_ok h
  cases stack with
  | none => cases h
  | some stack =>
    obtain ⟨s1, hs1, h⟩ := bind_eq_ok h
    cases h
    rw [linkFrom_itemIn hs1, itemIn] at hx
    dsimp only at hx
    by_cases hzero : q = 0
    · subst hzero
      left
      rw [itemIn_of_deref hroot]
      exact hx
    · rw [update_of_ne hzero] at hx
      by_cases hnew : q = s.fresh
      · rw [hnew, update_self, bind_some] at hx
        exact .inr (some.inj hx).symm
      · rw [update_of_ne hnew] at hx
        exact .inl hx

lemma advance_comp {u u' : ℕ} {comp comp' : Int}
    (h : advance compare_func s item i fuel u comp = .ok (u', comp'))
    (hp : nextAt s u' i = .ok (some p)) :
    ∃ x, itemIn s p = some x ∧ comp' = compare_func x item := by
  induction fuel generalizing u comp with
  | zero => cases h
  | succ fuel ih =>
    obtain ⟨next, hnext, h⟩ := bind_eq_ok h
    cases next with
    | none =>
      cases h
      rw [hp] at hnext
      cases hnext
    | some q =>
      obtain ⟨x, hx, h⟩ := bind_eq_ok h
      dsimp only at h
      split at h
      · exact ih h
      · cases h
        rw [hp] at hnext
        cases hnext
        exact ⟨x, itemIn_of_itemAt hx, rfl⟩

lemma addFrom_none {r u : ℕ} {skip : Bool}
    (h : addFrom compare_func s item r skip u stack = .ok none) :
    ∃ p x, itemIn s p = some x ∧ compare_func x item = 0 := by
  induction r generalizing skip u stack with
  | zero => cases h
  | succ r ih =>
    obtain ⟨⟨v, comp⟩, hsr, h⟩ := bind_eq_ok h
    obtain ⟨next, hnext, h⟩ := bind_eq_ok h
    split at h
    · next hfnd =>
      obtain ⟨hskip, hsome, hcomp⟩ := hfnd
      obtain ⟨p, rfl⟩ := isSome_iff_exists.mp hsome
      rw [search, if_neg hskip] at hsr
      obtain ⟨x, hx, rfl⟩ := advance_comp hsr hnext
      exact ⟨p, x, hx, hcomp⟩
    · obtain ⟨same, -, h⟩ := bind_eq_ok h
      exact ih h

lemma skiplistAdd_false (h : skiplistAdd compare_func s item z = .ok (s', false)) :
    ∃ p x, itemIn s p = some x ∧ compare_func x item = 0 := by
  obtain ⟨root, -, h⟩ := bind_eq_ok h
  obtain ⟨stack, hstack, h⟩ := bind_eq_ok h
  cases stack with
  | none => exact addFrom_none hstack
  | some stack =>
    obtain ⟨s1, -, h⟩ := bind_eq_ok h
    cases h

end Neuropil.Skiplist.Map
