import Mathlib.Data.List.TakeWhile
import Neuropil.Skiplist.Remove

namespace Neuropil.Skiplist.Add

open Function List Nat Option Lib.Chain Lib.Fault Skiplist.Search Skiplist.Remove

variable {α β : Type} [LinearOrder β] {compare_func : α → α → Int} {key : α → β}
  {s s' : NpSkiplist α} {H : ℕ} {es : List (Entry α)} {level : ℕ → List (Entry α)}

structure AddReady (key : α → β) (level : ℕ → List (Entry α)) (item : α) (i : ℕ) (skip : Bool)
    (u : ℕ) : Prop where
  pos : ∃ rest, Pos key level (key item) i u rest ∧
    (skip = true → Ended key (key item) rest ∧ ∀ e ∈ rest.head?, key e.item ≠ key item)

lemma addReady_start (level : ℕ → List (Entry α)) (item : α) (i : ℕ) :
    AddReady key level item i false 0 :=
  ⟨_, Pos.start level _ i, by simp⟩

variable {item : α} {u : ℕ} {skip : Bool}

lemma addLevel_spec (hcmp : Compares compare_func key) (h : Layout s H es level)
    (hcount : es.length ≤ s.num_elements) {i : ℕ} (hi : i < H)
    (hrdy : AddReady key level item i skip u) :
    ∃ u' comp' rest, search compare_func s item i skip u 0 = .ok (u', comp') ∧
      Pos key level (key item) i u' rest ∧ Ended key (key item) rest ∧
      nextAt s u' i = .ok (rest.head?.map Entry.addr) ∧
      ((skip = false ∧ (rest.head?.map Entry.addr).isSome ∧ comp' = 0) ↔
        ∃ e ∈ rest.head?, key e.item = key item) := by
  obtain ⟨rest, hpos, hskip⟩ := hrdy.pos
  cases skip with
  | true =>
    obtain ⟨hend, hne⟩ := hskip rfl
    refine ⟨u, 0, rest, rfl, hpos, hend, ?_, ?_⟩
    · rw [h.nextAt_of_mem hi hpos.mem, hpos.next_eq h hi]
    · simp only [Bool.true_eq_false, false_and, false_iff, not_exists, not_and]
      exact hne
  | false =>
    have hlen := hpos.length_lt h hcount
    obtain ⟨u', comp', rest', hadv, hpos', hend, hfr, _⟩ := advance_spec hcmp h hi 0 hpos hlen
    refine ⟨u', comp', rest', hadv, hpos', hend, ?_, ?_⟩
    · rw [h.nextAt_of_mem hi hpos'.mem, hpos'.next_eq h hi]
    · cases rest' with
      | nil => simp
      | cons e rest' =>
        have hcomp : comp' = compare_func e.item item := hfr (cons_ne_nil e rest')
        simp [hcomp, hcmp.zero_iff]

variable {rest : List (Entry α)}

lemma addReady_below (h : Layout s H es level) (hsorted : Sorted key es) {i : ℕ} (hi : i + 1 < H)
    (hpos : Pos key level (key item) (i + 1) u rest) (hend : Ended key (key item) rest)
    (hne : ∀ e ∈ rest.head?, key e.item ≠ key item) :
    ∃ skip, sameBelow s u (i + 1) = .ok skip ∧ AddReady key level item i skip u := by
  obtain ⟨skip, rest', hsame, hpos', _, hskip⟩ := sameBelow_spec h hsorted hi hpos hend
  refine ⟨skip, hsame, ⟨rest', hpos', fun hs => ⟨(hskip hs).2, ?_⟩⟩⟩
  rw [(hskip hs).1]
  exact hne

variable {k : β}

lemma not_found {i : ℕ} (hpos : Pos key level k i u rest) (h : Layout s H es level)
    (ha : ∀ e ∈ es, key e.item ≠ key item) : ¬ ∃ e ∈ rest.head?, key e.item = key item := by
  rintro ⟨e, he, heq⟩
  exact ha e ((h.level_sub i).subset (hpos.rest_mem (mem_of_head? he))) heq

def Predecessors (key : α → β) (level : ℕ → List (Entry α)) (k : β) (i : ℕ) (stack : List ℕ) :
    Prop :=
  ∀ j u, stack[j]? = some u → ∃ rest, Pos key level k (i + j) u rest ∧ Ended key k rest

lemma predecessors_nil {i : ℕ} : Predecessors key level k i [] := by
  simp [Predecessors]

variable {stack : List ℕ}

lemma Predecessors.cons {i : ℕ} (h : Predecessors key level k (i + 1) stack)
    (hpos : Pos key level k i u rest)
    (hend : Ended key k rest) : Predecessors key level k i (u :: stack) := by
  intro j v hv
  cases j with
  | zero =>
    obtain rfl : u = v := by simpa using hv
    exact ⟨rest, hpos, hend⟩
  | succ j =>
    have hj : i + (j + 1) = i + 1 + j := by omega
    rw [hj]
    exact h j v (by simpa using hv)

lemma addFrom_succ {r u' : ℕ} {comp : Int} {next : Option ℕ}
    (hsr : search compare_func s item r skip u 0 = .ok (u', comp))
    (hnext : nextAt s u' r = .ok next) (stack : List ℕ) :
    addFrom compare_func s item (r + 1) skip u stack =
      if skip = false ∧ next.isSome ∧ comp = 0 then .ok none
      else sameBelow s u' r >>= (addFrom compare_func s item r · u' (u' :: stack)) := by
  rw [addFrom, hsr, ok_bind]
  simp only [hnext, ok_bind, Bool.not_eq_true]

section

variable (hcmp : Compares compare_func key) (h : Layout s H es level) (hsorted : Sorted key es)
  (hcount : es.length ≤ s.num_elements)
include hcmp h hsorted hcount

lemma addFrom_absent (habs : ∀ e ∈ es, key e.item ≠ key item) (i : ℕ) (hi : i < H)
    (hrdy : AddReady key level item i skip u)
    (hstack : Predecessors key level (key item) (i + 1) stack) :
    ∃ preds, addFrom compare_func s item (i + 1) skip u stack = .ok (some preds) ∧
      preds.length = i + 1 + stack.length ∧ Predecessors key level (key item) 0 preds := by
  induction i generalizing u skip stack with
  | zero =>
    obtain ⟨u', comp', rest, hsr, hpos, hend, hnext, hfnd⟩ := addLevel_spec hcmp h hcount hi hrdy
    have hnot := mt hfnd.mp (not_found hpos h habs)
    refine ⟨u' :: stack, ?_, by rw [length_cons]; omega, hstack.cons hpos hend⟩
    rw [addFrom_succ hsr hnext, if_neg hnot]
    rfl
  | succ i ih =>
    obtain ⟨u', comp', rest, hsr, hpos, hend, hnext, hfnd⟩ := addLevel_spec hcmp h hcount hi hrdy
    have hnone := not_found hpos h habs
    obtain ⟨skip', hsame, hrdy'⟩ := addReady_below h hsorted hi hpos hend
      (fun e he heq => hnone ⟨e, he, heq⟩)
    obtain ⟨preds, hadd, hlen, hpreds⟩ := ih (by omega) hrdy' (hstack.cons hpos hend)
    refine ⟨preds, ?_, by rw [hlen, length_cons]; omega, hpreds⟩
    rw [addFrom_succ hsr hnext, if_neg (mt hfnd.mp hnone), hsame, ok_bind, hadd]

lemma addFrom_present {x : Entry α} (hx : x ∈ level 0) (hkey : key x.item = key item) (i : ℕ)
    (hi : i < H) (hrdy : AddReady key level item i skip u) (stack : List ℕ) :
    addFrom compare_func s item (i + 1) skip u stack = .ok none := by
  induction i generalizing u skip stack with
  | zero =>
    obtain ⟨u', comp', rest, hsr, hpos, hend, hnext, hfnd⟩ := addLevel_spec hcmp h hcount hi hrdy
    obtain ⟨rest', rfl⟩ := head_of_key_eq h hsorted hpos hend hx hkey
    rw [addFrom_succ hsr hnext, if_pos (hfnd.mpr ⟨x, rfl, hkey⟩)]
  | succ i ih =>
    obtain ⟨u', comp', rest, hsr, hpos, hend, hnext, hfnd⟩ := addLevel_spec hcmp h hcount hi hrdy
    by_cases hh : ∃ e ∈ rest.head?, key e.item = key item
    · rw [addFrom_succ hsr hnext, if_pos (hfnd.mpr hh)]
    · obtain ⟨skip', hsame, hr'⟩ := addReady_below h hsorted hi hpos hend
        (fun e he heq => hh ⟨e, he, heq⟩)
      rw [addFrom_succ hsr hnext, if_neg (mt hfnd.mp hh), hsame, ok_bind, ih (by omega) hr']

end

lemma append_inj_of_pred {γ : Type} (p : γ → Bool) {a b c d : List γ} (h : a ++ b = c ++ d)
    (ha : ∀ x ∈ a, p x) (hb : ∀ x ∈ b, ¬ p x) (hc : ∀ x ∈ c, p x) (hd : ∀ x ∈ d, ¬ p x) :
    a = c ∧ b = d := by
  have hfil := congrArg (List.filter p) h
  rw [filter_append, filter_append, filter_eq_self.mpr ha,
    filter_eq_self.mpr hc, filter_eq_nil_iff.mpr hb, filter_eq_nil_iff.mpr hd,
    append_nil, append_nil] at hfil
  subst hfil
  exact ⟨rfl, append_cancel_left h⟩

variable {new : Entry α} {lo hi : List (Entry α)} {i : ℕ}

section

variable (hdistinct : ((lo ++ new :: hi).map Entry.addr).Nodup)
include hdistinct

lemma onLevel_cut_of_mem {l : List (Entry α)} (hl : ∀ e ∈ l, e ∈ lo ++ hi) (r : ℕ) :
    onLevel l (cut new r) i = onLevel l Entry.height i := by
  apply onLevel_congr
  intro e he
  rw [cut, if_neg (addr_ne_of_mem hdistinct (hl e he))]

lemma onLevel_before {r : ℕ} (hr : r ≤ i) : onLevel (lo ++ new :: hi) (cut new r) i =
      onLevel lo Entry.height i ++ onLevel hi Entry.height i := by
  have hnew : ¬ i < cut new r new := by
    rw [cut_self]
    omega
  rw [← onLevel_cut_of_mem hdistinct (fun e => mem_append_left hi) r,
    ← onLevel_cut_of_mem hdistinct (fun e => mem_append_right lo) r]
  simp only [onLevel, filter_append, filter_cons, hnew, decide_false, Bool.false_eq_true, if_false]

lemma onLevel_after (hheight : i < new.height) : onLevel (lo ++ new :: hi) (cut new (i + 1)) i =
      onLevel lo Entry.height i ++ new :: onLevel hi Entry.height i := by
  have hnew : i < cut new (i + 1) new := by
    rw [cut_self]
    omega
  rw [← onLevel_cut_of_mem hdistinct (fun e => mem_append_left hi) (i + 1),
    ← onLevel_cut_of_mem hdistinct (fun e => mem_append_right lo) (i + 1)]
  simp only [onLevel, filter_append, filter_cons, hnew, decide_true, if_true]

end

structure Around (key : α → β) (lo : List (Entry α)) (new : Entry α) (hi : List (Entry α)) :
    Prop where
  lt : ∀ e ∈ lo, key e.item < key new.item
  gt : ∀ e ∈ hi, key new.item < key e.item

lemma not_linked_yet (h : Layout s H (lo ++ new :: hi) (onLevel (lo ++ new :: hi) (cut new i))) :
    ∀ v ∈ 0 :: (onLevel (lo ++ new :: hi) (cut new i) i).map Entry.addr, v ≠ new.addr := by
  have hmem : new ∈ lo ++ new :: hi := mem_append_right _ mem_cons_self
  intro v hv
  obtain rfl | hv := mem_cons.mp hv
  · have := h.addr_pos new hmem
    omega
  · obtain ⟨e, he, rfl⟩ := mem_map.mp hv
    rw [onLevel_before h.distinct (le_refl i)] at he
    refine addr_ne_of_mem h.distinct ?_
    obtain he | he := mem_append.mp he
    · exact mem_append_left _ (mem_onLevel.mp he).1
    · exact mem_append_right _ (mem_onLevel.mp he).1

lemma Around.split_level (ha : Around key lo new hi) {front : List (Entry α)}
    (heq : front ++ rest = onLevel lo Entry.height i ++ onLevel hi Entry.height i)
    (hfrt : ∀ e ∈ front, key e.item < key new.item)
    (hrest : ∀ e ∈ rest, key new.item ≤ key e.item) :
    front = onLevel lo Entry.height i ∧ rest = onLevel hi Entry.height i := by
  refine append_inj_of_pred (fun e => key e.item < key new.item) heq ?_ ?_ ?_ ?_
  · simpa using hfrt
  · simpa using hrest
  · intro e he
    simpa using ha.lt e (mem_onLevel.mp he).1
  · intro e he
    simpa using le_of_lt (ha.gt e (mem_onLevel.mp he).1)

lemma link_step (haro : Around key lo new hi)
    (h : Layout s H (lo ++ new :: hi) (onLevel (lo ++ new :: hi) (cut new i)))
    (hsorted : Sorted key (lo ++ new :: hi)) (hht : i < new.height)
    (hpos : Pos key (onLevel (lo ++ new :: hi) (cut new i)) (key new.item) i u rest)
    (hend : Ended key (key new.item) rest) :
    ∃ s1 s2, nextAt s u i = .ok (next s i u) ∧ setNode s new.addr i (next s i u) = .ok s1 ∧
      setNode s1 u i (some new.addr) = .ok s2 ∧
      Layout s2 H (lo ++ new :: hi) (onLevel (lo ++ new :: hi) (cut new (i + 1))) ∧
      s2.num_elements = s.num_elements ∧ s2.fresh = s.fresh := by
  have hmem : new ∈ lo ++ new :: hi := mem_append_right _ mem_cons_self
  have hiH : i < H := lt_of_lt_of_le hht (h.height_le new hmem)
  obtain ⟨nodes, hal, hlen⟩ := h.alloc new hmem
  obtain ⟨s1, hset1, hr1⟩ := setNode_relinked hal (i := i) (by rw [hlen]; exact hht) (next s i u)
  have hnot := not_linked_yet h
  have h1 : Layout s1 H (lo ++ new :: hi) (onLevel (lo ++ new :: hi) (cut new i)) := by
    refine layout_relink h hr1 (fun _ _ => rfl) (h.level_sub i) h.level_mono (h.level_height i)
      (fun _ => (h.linked i hiH).congr (fun v hv => ?_))
    rw [hr1.next_eq, if_neg (fun hv' => hnot v hv hv'.1)]
  obtain ⟨node, hnode, hlen'⟩ := h1.node_of_mem hiH hpos.mem
  obtain ⟨s2, hset2, hr2⟩ := setNode_relinked hnode hlen' (some new.addr)
  refine ⟨s1, s2, h.nextAt_of_mem hiH hpos.mem, hset1, hset2, ?_, hr2.count.trans hr1.count,
    hr2.fresh.trans hr1.fresh⟩
  obtain ⟨front, hlvl, hfrt, hu⟩ := hpos.split
  have hspl := haro.split_level (hlvl.symm.trans (onLevel_before h.distinct (le_refl i)))
    hfrt (fun e he => hend.le_key (hpos.rest_sorted h hsorted) he)
  have haft := onLevel_after h.distinct hht
  rw [← hspl.1, ← hspl.2] at haft
  refine layout_relink h1 hr2 ?_ filter_sublist (onLevel_mono _ _) ?_ (fun _ => ?_)
  · intro j hj
    apply onLevel_congr
    intro e _
    unfold cut
    split <;> omega
  · intro e he
    exact lt_of_lt_of_le (mem_onLevel.mp he).2 (cut_le new _ e)
  · obtain ⟨before, hchain⟩ := exists_before 0 (front.map Entry.addr)
    rw [← hu] at hchain
    have hlk := h1.linked i hiH
    have hnd := h1.nodup_level i
    rw [hlvl, map_append, hchain] at hlk hnd hnot
    rw [haft, map_append, hchain, map_cons]
    have hune : u ≠ new.addr := hnot u (mem_append_right _ mem_cons_self)
    refine hlk.insert ?_ ?_ (fun b hb => ?_)
    · rw [hr2.next_eq, if_neg (fun hv => hune hv.1.symm), hr1.next_eq, if_pos ⟨rfl, rfl⟩,
        hpos.next_eq h hiH, head?_map]
    · rw [hr2.next_eq, if_pos ⟨rfl, rfl⟩]
    · rw [hr2.next_eq, if_neg]
      rintro ⟨rfl, _⟩
      rw [nodup_middle, nodup_cons] at hnd
      exact hnd.1 hb

lemma pos_congr {level' : ℕ → List (Entry α)} (hpos : Pos key level k i u rest)
    (heq : level' i = level i) : Pos key level' k i u rest :=
  ⟨heq ▸ hpos.split⟩

lemma linkFrom_spec (haro : Around key lo new hi) (hsorted : Sorted key (lo ++ new :: hi))
    (h : Layout s H (lo ++ new :: hi) (onLevel (lo ++ new :: hi) (cut new i)))
    (hstack : Predecessors key (onLevel (lo ++ hi) Entry.height) (key new.item) i stack)
    (hlen : i + stack.length = new.height) : ∃ s', linkFrom new.addr i stack s = .ok s' ∧
      Layout s' H (lo ++ new :: hi) (onLevel (lo ++ new :: hi) (cut new new.height)) ∧
      s'.num_elements = s.num_elements ∧ s'.fresh = s.fresh := by
  induction stack generalizing i s with
  | nil =>
    obtain rfl : i = new.height := hlen
    exact ⟨s, rfl, h, rfl, rfl⟩
  | cons u stack ih =>
    obtain ⟨rest, hpos, hend⟩ := hstack 0 u rfl
    have hlvl : onLevel (lo ++ new :: hi) (cut new i) i = onLevel (lo ++ hi) Entry.height i := by
      rw [onLevel_before h.distinct (le_refl i), onLevel, onLevel, onLevel, filter_append]
    rw [length_cons] at hlen
    obtain ⟨s1, s2, hnext, hset1, hset2, hlay, hcount, hfr⟩ := link_step haro h hsorted
      (by omega) (pos_congr hpos hlvl) hend
    have hrest :
        Predecessors key (onLevel (lo ++ hi) Entry.height) (key new.item) (i + 1) stack := by
      intro j v hv
      have hj : i + 1 + j = i + (j + 1) := by omega
      rw [hj]
      exact hstack (j + 1) v (by simpa using hv)
    obtain ⟨s', hlink, hlay', hcnt', hfr'⟩ := ih hlay hrest (by omega)
    refine ⟨s', ?_, hlay', hcnt'.trans hcount, hfr'.trans hfr⟩
    simp only [linkFrom, hnext, ok_bind, hset1, hset2, hlink]

lemma countBits_le (fuel elements : ℕ) : countBits fuel elements ≤ fuel := by
  induction fuel generalizing elements with
  | zero => simp [countBits]
  | succ fuel ih =>
    have := ih (elements / 2)
    unfold countBits
    split <;> omega

lemma pickHeight_le (elements : ℕ) (z : BitVec 31) : pickHeight elements z ≤ 33 := by
  have := countBits_le 32 (elements % 2 ^ 32)
  simp only [pickHeight]
  split <;> omega

def allocated (s : NpSkiplist α) (root : SkipNode α) (item : α) (k : ℕ) : NpSkiplist α :=
  ⟨update (update s.heap s.fresh
    (some ⟨some item, false, k, List.replicate k none⟩)) 0 (some (raise root k)),
    s.fresh + 1, s.num_elements + 1⟩

variable {root : SkipNode α}

lemma next_allocated (hroot : s.heap 0 = some root) (item : α) (k i : ℕ)
    {v : ℕ} (hv : v ≠ s.fresh) : next (allocated s root item k) i v = next s i v := by
  by_cases hv0 : v = 0
  · subst hv0
    simp only [Search.next, allocated, update_self, hroot, bind_some, raise, getElem?_append]
    split
    · rfl
    · rename_i hi
      rw [List.getElem?_eq_none (Nat.le_of_not_lt hi), List.getElem?_replicate]
      split <;> rfl
  · simp only [Search.next, allocated, update_of_ne hv0, update_of_ne hv]

lemma linked_allocated {es : List (Entry α)} (h : Stored key s H es)
    (hroot : s.heap 0 = some root) (item : α) (k i : ℕ) :
    Linked (next (allocated s root item k) i)
      (0 :: (onLevel es Entry.height i).map Entry.addr) := by
  have hfr := h.fresh_pos
  by_cases hold : i < H
  · refine (h.layout.linked i hold).congr (fun v hv => next_allocated hroot item k i ?_)
    obtain rfl | hv := mem_cons.mp hv
    · omega
    · obtain ⟨e, he, rfl⟩ := mem_map.mp hv
      have := h.layout.addr_fresh e (mem_onLevel.mp he).1
      omega
  · -- no entry is that high, and the root points nowhere
    have hemp : onLevel es Entry.height i = [] := onLevel_nil h.layout (by omega)
    obtain ⟨nodes, hr', hlen⟩ := h.layout.root
    obtain rfl := some.inj (hroot.symm.trans hr')
    rw [hemp]
    refine ⟨?_, trivial⟩
    rw [next_allocated hroot item k i (by omega), Search.next, hroot, bind_some,
      List.getElem?_eq_none (by simp only [hlen]; omega)]
    rfl

lemma layout_allocated (h : Stored key s H (lo ++ hi)) (hroot : s.heap 0 = some root) (item : α)
    (k : ℕ) :
    Layout (allocated s root item k) (H + (k - H)) (lo ++ ⟨s.fresh, item, k⟩ :: hi)
      (onLevel (lo ++ ⟨s.fresh, item, k⟩ :: hi) (cut ⟨s.fresh, item, k⟩ 0)) := by
  have hfr := h.fresh_pos
  have hmem : ∀ e, e ∈ lo ++ (⟨s.fresh, item, k⟩ : Entry α) :: hi →
      e = ⟨s.fresh, item, k⟩ ∨ e ∈ lo ++ hi := by
    intro e he
    simp only [mem_append, mem_cons] at he ⊢
    tauto
  have hdistinct : ((lo ++ (⟨s.fresh, item, k⟩ : Entry α) :: hi).map Entry.addr).Nodup := by
    rw [map_append, map_cons, nodup_middle, nodup_cons, ← map_append]
    refine ⟨fun hf => ?_, h.layout.distinct⟩
    obtain ⟨e, he, heq⟩ := mem_map.mp hf
    have := h.layout.addr_fresh e he
    simp only at heq
    omega
  obtain ⟨nodes, hr', hlen⟩ := h.layout.root
  obtain rfl := some.inj (hroot.symm.trans hr')
  refine ⟨?_, ?_, ?_, ?_, hdistinct, fun i => filter_sublist, onLevel_mono _ _, ?_, ?_, ?_⟩
  · refine ⟨nodes ++ List.replicate (k - H) none, ?_, by simp [hlen]⟩
    simp only [allocated, update_self, raise]
  · intro e he
    obtain rfl | he := hmem e he
    · refine ⟨List.replicate k none, ?_, length_replicate⟩
      simp only [allocated]
      rw [update_of_ne (by omega), update_self]
    · obtain ⟨nodes', ha, hlen'⟩ := h.layout.alloc e he
      have hpos := h.layout.addr_pos e he
      have hlt := h.layout.addr_fresh e he
      refine ⟨nodes', ?_, hlen'⟩
      simp only [allocated]
      rw [update_of_ne (by omega), update_of_ne (by omega), ha]
  · intro e he
    obtain rfl | he := hmem e he
    · exact hfr
    · exact h.layout.addr_pos e he
  · intro e he
    obtain rfl | he := hmem e he
    · exact lt_succ_self _
    · exact lt_succ_of_lt (h.layout.addr_fresh e he)
  · exact fun i e he => lt_of_lt_of_le (mem_onLevel.mp he).2 (cut_le _ 0 e)
  · intro e he
    obtain rfl | he := hmem e he
    · simp only
      omega
    · have := h.layout.height_le e he
      omega
  · intro i hi'
    have hlvl : onLevel lo Entry.height i ++ onLevel hi Entry.height i =
        onLevel (lo ++ hi) Entry.height i := by
      rw [onLevel, onLevel, onLevel, filter_append]
    rw [onLevel_before hdistinct (zero_le i), hlvl]
    exact linked_allocated h hroot item k i

variable (hcmp : Compares compare_func key) (h : Stored key s H es)
include hcmp h

lemma skiplistAdd_present {x : Entry α} (hx : x ∈ es) (hkey : key x.item = key item)
    (z : BitVec 31) : skiplistAdd compare_func s item z = .ok (s, false) := by
  obtain ⟨root, hroot, _, hst⟩ := h.root_height
  obtain ⟨r, rfl⟩ := exists_eq_succ_of_ne_zero (h.height_ne_zero hx)
  have hx0 : x ∈ onLevel es Entry.height 0 := mem_onLevel.mpr ⟨hx, h.height_pos x hx⟩
  have hadd := addFrom_present hcmp h.layout h.sorted (le_of_eq h.count.symm) hx0 hkey r
    (lt_succ_self r) (addReady_start _ item r) []
  simp only [skiplistAdd, deref_eq hroot, hst, ok_bind, hadd]
  rfl

lemma predecessors_found (ha : ∀ e ∈ es, key e.item ≠ key item) (k : ℕ) :
    ∃ stack, addFrom compare_func s item H false 0 [] = .ok (some stack) ∧ stack.length = H ∧
      Predecessors key (onLevel es Entry.height) (key item) 0
        ((stack ++ List.replicate (k - H) 0).take k) := by
  have hfnd : ∃ stack, addFrom compare_func s item H false 0 [] = .ok (some stack) ∧
      stack.length = H ∧ Predecessors key (onLevel es Entry.height) (key item) 0 stack := by
    cases H with
    | zero => exact ⟨[], rfl, rfl, by simp [Predecessors]⟩
    | succ r =>
      obtain ⟨stack, hadd, hlen, hpreds⟩ := addFrom_absent hcmp h.layout h.sorted
        (le_of_eq h.count.symm) ha r (lt_succ_self r) (addReady_start _ item r)
        predecessors_nil
      exact ⟨stack, hadd, hlen, hpreds⟩
  obtain ⟨stack, hadd, hlen, hpreds⟩ := hfnd
  refine ⟨stack, hadd, hlen, fun j v hv => ?_⟩
  rw [getElem?_take, getElem?_append] at hv
  split at hv
  · split at hv
    · exact hpreds j v hv
    · obtain ⟨_, rfl⟩ : _ ∧ 0 = v := by
        simpa only [List.getElem?_replicate, ite_none_right_eq_some, some.injEq] using hv
      have hemp : onLevel es Entry.height (0 + j) = [] := onLevel_nil h.layout (by omega)
      exact ⟨[], hemp ▸ Pos.start (onLevel es Entry.height) (key item) (0 + j), by simp [Ended]⟩
  · cases hv

lemma skiplistAdd_absent (habs : ∀ e ∈ es, key e.item ≠ key item) (z : BitVec 31) :
    ∃ s' H' lo hi new, skiplistAdd compare_func s item z = .ok (s', true) ∧ es = lo ++ hi ∧
      new.item = item ∧ Stored key s' H' (lo ++ new :: hi) := by
  obtain ⟨root, hroot, hht, hst⟩ := h.root_height
  rw [hht] at hst
  have hk := pickHeight_le s.num_elements z
  obtain ⟨stack, hadd, hlen, hpreds⟩ :=
    predecessors_found hcmp h habs (pickHeight s.num_elements z + 1)
  obtain ⟨lo, hi, hes, hlo, hhi⟩ : ∃ lo hi, es = lo ++ hi ∧ (∀ e ∈ lo, key e.item < key item) ∧
      Ended key (key item) hi := by
    refine ⟨es.takeWhile (fun e => key e.item < key item),
      es.dropWhile (fun e => key e.item < key item), (takeWhile_append_dropWhile).symm, ?_, ?_⟩
    · intro e he
      simpa using mem_takeWhile_imp he
    · intro e he
      have := head?_dropWhile_not (fun e => decide (key e.item < key item)) es
      simp_all
  subst hes
  have hsrt' := h.sorted
  rw [Sorted, pairwise_append] at hsrt'
  have hgt : ∀ e ∈ hi, key item < key e.item := by
    intro e he
    refine lt_of_le_of_ne (hhi.le_key hsrt'.2.1 he) ?_
    exact (habs e (mem_append_right _ he)).symm
  have haro : Around key lo ⟨s.fresh, item, pickHeight s.num_elements z + 1⟩ hi := ⟨hlo, hgt⟩
  have hsorted : Sorted key (lo ++ ⟨s.fresh, item, pickHeight s.num_elements z + 1⟩ :: hi) := by
    rw [Sorted, pairwise_append, pairwise_cons]
    refine ⟨hsrt'.1, ⟨hgt, hsrt'.2.1⟩, fun a ha b hb => ?_⟩
    obtain rfl | hb := mem_cons.mp hb
    · exact hlo a ha
    · exact hsrt'.2.2 a ha b hb
  obtain ⟨s', hlink, hlay, hcount, hfr⟩ := linkFrom_spec haro hsorted
    (layout_allocated h hroot item _) hpreds (by
      simp only [length_take, length_append, length_replicate, hlen]
      omega)
  rw [onLevel_cut_full] at hlay
  · refine ⟨s', _, lo, hi, _, ?_, rfl, rfl, hlay, hsorted, ?_, ?_, ?_, ?_⟩
    · simp only [skiplistAdd, deref_eq hroot, hht, hst, ok_bind, hadd]
      exact congrArg (· >>= fun s => pure (s, true)) hlink
    · intro e he
      rw [mem_append, mem_cons] at he
      obtain he | rfl | he := he
      · exact h.height_pos e (mem_append_left _ he)
      · exact le_add_left 1 _
      · exact h.height_pos e (mem_append_right _ he)
    · have := h.height_bound
      omega
    · rw [hfr]
      exact succ_pos _
    · have hes := h.count
      rw [hcount, length_append, length_cons]
      rw [length_append] at hes
      simp only [allocated]
      omega
  · intro e he heq
    have hmem : (⟨s.fresh, item, pickHeight s.num_elements z + 1⟩ : Entry α) ∈
        lo ++ ⟨s.fresh, item, pickHeight s.num_elements z + 1⟩ :: hi :=
      mem_append_right _ mem_cons_self
    rw [hlay.eq_of_addr_eq he hmem heq]

end Neuropil.Skiplist.Add
