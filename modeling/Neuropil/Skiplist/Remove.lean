import Neuropil.Skiplist.Search

namespace Neuropil.Skiplist.Remove

open Function List Option Lib.Chain Lib.Fault Skiplist.Search

variable {α β : Type} {s s' : NpSkiplist α} {H : ℕ} {es : List (Entry α)}

/-- The entries on a level; `reach` tells on how many levels an entry is linked. -/
def onLevel (es : List (Entry α)) (reach : Entry α → ℕ) (i : ℕ) : List (Entry α) :=
  es.filter (fun e => i < reach e)

variable {i : ℕ} {e : Entry α}

lemma mem_onLevel {reach : Entry α → ℕ} : e ∈ onLevel es reach i ↔ e ∈ es ∧ i < reach e := by
  simp [onLevel]

lemma onLevel_mono (es : List (Entry α)) (reach : Entry α → ℕ) (i : ℕ) :
    (onLevel es reach (i + 1)).Sublist (onLevel es reach i) := by
  apply monotone_filter_right
  intro e he
  simp only [decide_eq_true_eq] at he ⊢
  omega

lemma onLevel_congr {reach reach' : Entry α → ℕ} (h : ∀ e ∈ es, (i < reach e ↔ i < reach' e)) :
    onLevel es reach i = onLevel es reach' i := by
  apply filter_congr
  intro e he
  simp [h e he]

lemma onLevel_nil {level : ℕ → List (Entry α)} (h : Layout s H es level) (hi : H ≤ i) :
    onLevel es Entry.height i = [] := by
  rw [onLevel, filter_eq_nil_iff]
  intro e he
  have := h.height_le e he
  simp only [decide_eq_true_eq]
  omega

structure Relinked (s s' : NpSkiplist α) (u i : ℕ) (p : Option ℕ) : Prop where
  fresh : s'.fresh = s.fresh
  count : s'.num_elements = s.num_elements
  next_eq : ∀ j v, next s' j v = if v = u ∧ j = i then p else next s j v
  node : ∀ v node, s.heap v = some node →
    ∃ nodes, s'.heap v = some { node with nodes := nodes } ∧ nodes.length = node.nodes.length

variable {u : ℕ} {node : SkipNode α}

lemma setNode_relinked (h : s.heap u = some node) (hi : i < node.nodes.length) (p : Option ℕ) :
    ∃ s', setNode s u i p = .ok s' ∧ Relinked s s' u i p := by
  refine ⟨{ s with heap := update s.heap u (some { node with nodes := node.nodes.set i p }) },
    by simp only [setNode, deref_eq h, ok_bind, if_pos hi], rfl, rfl, ?_, ?_⟩
  · intro j v
    by_cases hv : v = u
    · subst hv
      simp only [Search.next, update_self, bind_some, true_and, h, getElem?_set]
      by_cases hj : j = i
      · subst hj
        simp [hi]
      · simp [hj, Ne.symm hj]
    · simp only [Search.next, update_of_ne hv, hv, false_and, if_false]
  · intro v n hn
    by_cases hv : v = u
    · subst hv
      obtain rfl : node = n := some.inj (h.symm.trans hn)
      exact ⟨_, update_self _ _ _, length_set⟩
    · exact ⟨n.nodes, (update_of_ne hv _ _).trans hn, rfl⟩

variable {level : ℕ → List (Entry α)} {p : Option ℕ}

lemma layout_relink {level' : ℕ → List (Entry α)} (h : Layout s H es level)
    (hr : Relinked s s' u i p) (hsame : ∀ j ≠ i, level' j = level j) (hsub : (level' i).Sublist es)
    (hmono : ∀ j, (level' (j + 1)).Sublist (level' j)) (hh : ∀ e ∈ level' i, i < e.height)
    (hlk : i < H → Linked (next s' i) (0 :: (level' i).map Entry.addr)) :
    Layout s' H es level' where
  root := by
    obtain ⟨nodes, hroot, hlen⟩ := h.root
    obtain ⟨nodes', hr', hlen'⟩ := hr.node 0 _ hroot
    exact ⟨nodes', hr', hlen'.trans hlen⟩
  alloc := by
    intro e he
    obtain ⟨nodes, ha, hlen⟩ := h.alloc e he
    obtain ⟨nodes', ha', hlen'⟩ := hr.node e.addr _ ha
    exact ⟨nodes', ha', hlen'.trans hlen⟩
  addr_pos := h.addr_pos
  addr_fresh := fun e he => hr.fresh ▸ h.addr_fresh e he
  distinct := h.distinct
  level_sub := by
    intro j
    by_cases hj : j = i
    · exact hj ▸ hsub
    · exact hsame j hj ▸ h.level_sub j
  level_mono := hmono
  level_height := by
    intro j e he
    by_cases hj : j = i
    · subst hj
      exact hh e he
    · rw [hsame j hj] at he
      exact h.level_height j e he
  height_le := h.height_le
  linked := by
    intro j hj
    by_cases hji : j = i
    · subst hji
      exact hlk hj
    · rw [hsame j hji]
      refine (h.linked j hj).congr (fun v _ => ?_)
      rw [hr.next_eq, if_neg (fun hv => hji hv.2)]

variable [LinearOrder β] {compare_func : α → α → Int} {key : α → β}

lemma key_injOn (hsorted : Sorted key es) {a b : Entry α} (ha : a ∈ es) (hb : b ∈ es)
    (hkey : key a.item = key b.item) : a = b := by
  have hnd : (es.map (fun e => key e.item)).Nodup := List.pairwise_map.mpr (hsorted.imp ne_of_lt)
  exact List.inj_on_of_nodup_map hnd ha hb hkey

def cut (x : Entry α) (r : ℕ) (e : Entry α) : ℕ :=
  if e.addr = x.addr then min r e.height else e.height

lemma cut_le (x : Entry α) (r : ℕ) (e : Entry α) : cut x r e ≤ e.height := by
  unfold cut
  split <;> omega

lemma cut_self (x : Entry α) (r : ℕ) : cut x r x = min r x.height := if_pos rfl

variable {x : Entry α}

lemma onLevel_cut_full {r : ℕ} (h : ∀ e ∈ es, e.addr = x.addr → e.height ≤ r) :
    onLevel es (cut x r) = onLevel es Entry.height := by
  funext j
  apply onLevel_congr
  intro e he
  by_cases hex : e.addr = x.addr
  · have := h e he hex
    rw [cut, if_pos hex]
    omega
  · rw [cut, if_neg hex]

variable {front rest : List (Entry α)}

lemma addr_ne_of_mem (hnd : ((front ++ x :: rest).map Entry.addr).Nodup)
    (he : e ∈ front ++ rest) : e.addr ≠ x.addr := by
  rw [map_append, map_cons, nodup_middle, nodup_cons, ← map_append] at hnd
  exact fun heq => hnd.1 (heq ▸ mem_map_of_mem he)

lemma filter_addr_ne (hnd : ((front ++ x :: rest).map Entry.addr).Nodup) :
    (front ++ x :: rest).filter (fun e => e.addr ≠ x.addr) = front ++ rest := by
  rw [filter_append, filter_cons_of_neg (by simp), ← filter_append, filter_eq_self]
  intro e he
  simpa using addr_ne_of_mem hnd he

lemma onLevel_cut (hd : (es.map Entry.addr).Nodup)
    (hspl : onLevel es (cut x (i + 1)) i = front ++ x :: rest) :
    onLevel es (cut x i) i = front ++ rest := by
  have hfil : onLevel es (cut x i) i =
      (onLevel es (cut x (i + 1)) i).filter (fun e => e.addr ≠ x.addr) := by
    rw [onLevel, onLevel, List.filter_filter]
    apply filter_congr
    intro e _
    by_cases he : e.addr = x.addr
    · simp only [cut, he, if_true, ne_eq, not_true, decide_false, Bool.false_and,
        decide_eq_false_iff_not]
      omega
    · simp [cut, he]
  have hnd := hd.sublist ((filter_sublist (p := fun e => i < cut x (i + 1) e)).map Entry.addr)
  change ((onLevel es (cut x (i + 1)) i).map Entry.addr).Nodup at hnd
  rw [hspl] at hnd
  rw [hfil, hspl, filter_addr_ne hnd]

lemma Relinked.again {s'' : NpSkiplist α} (h : Relinked s s' u i p)
    (h' : Relinked s' s'' u i p) : Relinked s s'' u i p where
  fresh := h'.fresh.trans h.fresh
  count := h'.count.trans h.count
  next_eq := by
    intro j v
    rw [h'.next_eq, h.next_eq]
    split <;> rfl
  node := by
    intro v node hnode
    obtain ⟨nodes, hnds, hlen⟩ := h.node v node hnode
    obtain ⟨nodes', hnds', hlen'⟩ := h'.node v _ hnds
    exact ⟨nodes', hnds', hlen'.trans hlen⟩

lemma sentinel_iff (h : Layout s H es level) (hu : u ∈ 0 :: (level i).map Entry.addr)
    (hnode : s.heap u = some node) : node.sentinel = true ↔ u = 0 := by
  obtain rfl | hmem := mem_cons.mp hu
  · obtain ⟨nodes, hroot, _⟩ := h.root
    obtain rfl := some.inj (hnode.symm.trans hroot)
    simp
  · obtain ⟨e, he, rfl⟩ := mem_map.mp hmem
    have he := (h.level_sub i).subset he
    obtain ⟨nodes, ha, _⟩ := h.alloc e he
    obtain rfl := some.inj (hnode.symm.trans ha)
    have := h.addr_pos e he
    simp only [Bool.false_eq_true, false_iff]
    omega

variable {k : β}

lemma unlink_relinked (h : Layout s H es level) (hi : i < H)
    (hpos : Pos key level k i u (x :: rest)) (to_remove : Option ℕ) :
    ∃ s', unlink s u i 0 to_remove = .ok (s', some x.addr) ∧
      Relinked s s' u i (next s i x.addr) := by
  have hx : x ∈ level i := hpos.rest_mem mem_cons_self
  obtain ⟨node, hnode, hlen⟩ := h.node_of_mem hi hpos.mem
  obtain ⟨s1, hset, hr1⟩ := setNode_relinked hnode hlen (next s i x.addr)
  obtain ⟨nodes, hn1, hlen1⟩ := hr1.node u node hnode
  have hnodeAt := h.nodeAt_of_mem hi (mem_cons_of_mem 0 (mem_map_of_mem hx))
  simp only [unlink, h.nextAt_of_mem hi hpos.mem, ok_bind, hpos.next_eq h hi, head?_cons,
    map_some, if_true, hnodeAt, hset, deref_eq hn1]
  by_cases hd : node.sentinel = true ∧ (next s i x.addr).isNone
  · -- the root is written once more, with the same value
    rw [if_pos hd]
    obtain rfl := (sentinel_iff h hpos.mem hnode).mp hd.1
    obtain ⟨s2, hset2, hr2⟩ := setNode_relinked hn1 (i := i) (by rw [hlen1]; exact hlen) none
    rw [hset2, ok_bind]
    rw [isNone_iff_eq_none.mp hd.2] at hr1 ⊢
    exact ⟨s2, rfl, hr1.again hr2⟩
  · rw [if_neg hd]
    exact ⟨s1, rfl, hr1⟩

lemma unlink_spec (h : Layout s H es (onLevel es (cut x (i + 1)))) (hi : i < H)
    (hpos : Pos key (onLevel es (cut x (i + 1))) k i u (x :: rest)) (to_remove : Option ℕ) :
    ∃ s', unlink s u i 0 to_remove = .ok (s', some x.addr) ∧
      Layout s' H es (onLevel es (cut x i)) ∧ Pos key (onLevel es (cut x i)) k i u rest ∧
      s'.fresh = s.fresh ∧ s'.num_elements = s.num_elements := by
  obtain ⟨s', hunl, hr⟩ := unlink_relinked h hi hpos to_remove
  obtain ⟨front, hlvl, hfrt, hu⟩ := hpos.split
  have hl' := onLevel_cut h.distinct hlvl
  have hpos' : Pos key (onLevel es (cut x i)) k i u rest := ⟨front, hl', hfrt, hu⟩
  refine ⟨s', hunl, ?_, hpos', hr.fresh, hr.count⟩
  refine layout_relink h hr ?_ filter_sublist (onLevel_mono es _) ?_ (fun _ => ?_)
  · intro j hj
    apply onLevel_congr
    intro e _
    unfold cut
    split <;> omega
  · intro e he
    exact Nat.lt_of_lt_of_le (mem_onLevel.mp he).2 (cut_le x i e)
  · obtain ⟨before, hchain⟩ := exists_before 0 (front.map Entry.addr)
    rw [← hu] at hchain
    have hlk := h.linked i hi
    have hnd := h.nodup_level i
    rw [hlvl, map_append, hchain, map_cons] at hlk hnd
    rw [hl', map_append, hchain]
    refine hlk.remove (by rw [hr.next_eq, if_pos ⟨rfl, rfl⟩]) (fun b hb => ?_)
    rw [hr.next_eq, if_neg]
    rintro ⟨rfl, _⟩
    rw [nodup_middle, nodup_cons] at hnd
    apply hnd.1
    obtain hb | hb := mem_append.mp hb
    · exact mem_append_left _ hb
    · exact mem_append_right _ (mem_cons_of_mem _ hb)

variable {comp : Int}

lemma unlink_nothing (h : Layout s H es level) (hi : i < H) (hpos : Pos key level k i u rest)
    (hcomp : rest ≠ [] → comp ≠ 0) (to_remove : Option ℕ) :
    unlink s u i comp to_remove = .ok (s, to_remove) := by
  simp only [unlink, h.nextAt_of_mem hi hpos.mem, ok_bind, hpos.next_eq h hi]
  cases rest with
  | nil => rfl
  | cons e rest =>
    simp only [head?_cons, map_some, if_neg (hcomp (cons_ne_nil e rest))]
    rfl

variable {item : α}

section

variable (hcmp : Compares compare_func key) (h : Layout s H es level)
include hcmp h

lemma unlink_absent (hi : i < H) (hdone : Done compare_func key level item i u comp)
    (ha : ∀ e ∈ level i, key e.item ≠ key item) (to_remove : Option ℕ) :
    unlink s u i comp to_remove = .ok (s, to_remove) := by
  obtain ⟨rest, hpos, _, hfr⟩ := hdone.pos
  refine unlink_nothing h hi hpos (fun hne hzero => ?_) to_remove
  obtain ⟨e, rest, rfl⟩ := exists_cons_of_ne_nil hne
  have heq : compare_func e.item item = 0 := hfr.symm.trans hzero
  exact ha e (hpos.rest_mem mem_cons_self) ((hcmp.zero_iff _ _).mp heq)

lemma removeFrom_absent (hsorted : Sorted key es) (hcount : es.length ≤ s.num_elements)
    (ha : ∀ e ∈ es, key e.item ≠ key item) (i : ℕ) {skip : Bool} (hi : i < H)
    (hrdy : Ready compare_func key level item i skip u comp) (to_remove : Option ℕ) :
    removeFrom compare_func item (i + 1) skip s u comp to_remove = .ok (s, to_remove) := by
  induction i generalizing u skip comp with
  | zero =>
    obtain ⟨u', comp', hsr, hdone⟩ := search_done hcmp h hcount hi hrdy
    have hu := unlink_absent hcmp h hi hdone
      (fun e he => ha e ((h.level_sub _).subset he)) to_remove
    simp only [removeFrom, hsr, ok_bind, hu, sameBelow]
  | succ i ih =>
    obtain ⟨u', comp', hsr, hdone⟩ := search_done hcmp h hcount hi hrdy
    have hu := unlink_absent hcmp h hi hdone
      (fun e he => ha e ((h.level_sub _).subset he)) to_remove
    obtain ⟨skip', hsame, hr'⟩ := done_ready h hsorted hi hdone
    rw [removeFrom, hsr, ok_bind]
    simp only [hu, ok_bind, hsame, ih (by omega) hr']

end

lemma mem_onLevel_cut (hx : x ∈ es) (hlevel : i < x.height) :
    x ∈ onLevel es (cut x (i + 1)) i := by
  refine mem_onLevel.mpr ⟨hx, ?_⟩
  rw [cut_self]
  omega

lemma unlinked_ready (compare_func : α → α → Int) (h : Layout s H es (onLevel es (cut x (i + 1))))
    (hsorted : Sorted key es) (hi : i + 1 < H) (hx : x ∈ es) (hkey : key x.item = key item)
    (hht : i < x.height) (hpos : Pos key (onLevel es (cut x (i + 1))) (key item) (i + 1) u rest)
    (hend : Ended key (key item) rest) : sameBelow s u (i + 1) = .ok false ∧
      Ready compare_func key (onLevel es (cut x (i + 1))) item i false u 0 := by
  obtain ⟨rest', hpos'⟩ := hpos.down h hsorted
  have hxle : x ∈ onLevel es (cut x (i + 1)) i := mem_onLevel_cut hx hht
  have hmem := mem_rest hpos' hxle hkey
  refine ⟨?_, ⟨rest', hpos', fun hnil => ?_, by simp⟩⟩
  · simp only [sameBelow, h.nodeAt_of_mem (by omega : i < H) hpos'.mem,
      h.nodeAt_of_mem hi hpos.mem, ok_bind, pure, Except.pure, Except.ok.injEq, beq_eq_false_iff_ne]
    intro hsame
    have hh := hpos.head_eq hpos' h hi hsame
    have hend' : Ended key (key item) rest' := by
      rw [Ended, hh]
      exact hend
    obtain ⟨rest'', rfl⟩ := head_of_key_eq h hsorted hpos' hend' hxle hkey
    have hxrest : x ∈ rest := mem_of_head? hh.symm
    have hlvl := (mem_onLevel.mp (hpos.rest_mem hxrest)).2
    rw [cut_self] at hlvl
    omega
  · rw [hnil] at hmem
    cases hmem

lemma onLevel_cut_above (h : Layout s H es level) (hx : x ∈ es) (hheight : x.height ≤ i) :
    onLevel es (cut x (i + 1)) = onLevel es (cut x i) := by
  funext j
  apply onLevel_congr
  intro e he
  by_cases hex : e.addr = x.addr
  · obtain rfl := h.eq_of_addr_eq he hx hex
    rw [cut_self, cut_self]
    omega
  · simp [cut, hex]

section

variable (hcmp : Compares compare_func key) (hsorted : Sorted key es) (hx : x ∈ es)
  (hkey : key x.item = key item)
include hcmp hsorted hx hkey

lemma unlink_present (hlvl : i < x.height)
    (h : Layout s H es (onLevel es (cut x (i + 1)))) (hi : i < H)
    (hdone : Done compare_func key (onLevel es (cut x (i + 1))) item i u comp)
    (to_remove : Option ℕ) :
    comp = 0 ∧ ∃ s' rest, unlink s u i 0 to_remove = .ok (s', some x.addr) ∧
      Layout s' H es (onLevel es (cut x i)) ∧
      Pos key (onLevel es (cut x i)) (key item) i u rest ∧ Ended key (key item) rest ∧
      s'.fresh = s.fresh ∧ s'.num_elements = s.num_elements := by
  obtain ⟨rest, hpos, hend, hfresh⟩ := hdone.pos
  obtain ⟨rest', rfl⟩ := head_of_key_eq h hsorted hpos hend (mem_onLevel_cut hx hlvl) hkey
  obtain ⟨s', hu, hlay, hpos', hfr, hct⟩ := unlink_spec h hi hpos to_remove
  refine ⟨hfresh.trans ((hcmp.zero_iff _ _).mpr hkey), s', rest', hu, hlay, hpos', ?_, hfr, hct⟩
  intro e he
  have hlt := rel_of_pairwise_cons (hpos.rest_sorted h hsorted) (mem_of_head? he)
  rw [hkey] at hlt
  exact lt_asymm hlt

lemma removeFrom_present (hht : 1 ≤ x.height) (i : ℕ)
    (h : Layout s H es (onLevel es (cut x (i + 1)))) (hcount : es.length ≤ s.num_elements)
    (hi : i < H) {skip : Bool}
    (hrdy : Ready compare_func key (onLevel es (cut x (i + 1))) item i skip u comp)
    (to_remove : Option ℕ) :
    ∃ s', removeFrom compare_func item (i + 1) skip s u comp to_remove = .ok (s', some x.addr) ∧
      Layout s' H es (onLevel es (cut x 0)) ∧ s'.fresh = s.fresh ∧
      s'.num_elements = s.num_elements := by
  induction i generalizing s u skip comp to_remove with
  | zero =>
    obtain ⟨u', comp', hsr, hdone⟩ := search_done hcmp h hcount hi hrdy
    obtain ⟨rfl, s', rest, hunl, hlay, _, _, hfr, hct⟩ :=
      unlink_present hcmp hsorted hx hkey hht h hi hdone to_remove
    refine ⟨s', ?_, hlay, hfr, hct⟩
    simp only [removeFrom, hsr, ok_bind, hunl, sameBelow]
  | succ i ih =>
    obtain ⟨u', comp', hsr, hdone⟩ := search_done hcmp h hcount hi hrdy
    by_cases hlvl : i + 1 < x.height
    · obtain ⟨rfl, s', rest, hunl, hlay, hpos, hend, hfr, hct⟩ :=
        unlink_present hcmp hsorted hx hkey hlvl h hi hdone to_remove
      obtain ⟨hsame, hrdy'⟩ := unlinked_ready compare_func hlay hsorted hi hx
        hkey (by omega) hpos hend
      obtain ⟨s'', hrem, hlay', hfr', hct'⟩ := ih hlay (by omega) (by omega) hrdy' (some x.addr)
      refine ⟨s'', ?_, hlay', hfr'.trans hfr, hct'.trans hct⟩
      rw [removeFrom, hsr, ok_bind]
      simp only [hunl, ok_bind, hsame, hrem]
    · -- the entry is not on this level, the other ones have other keys
      have habs : ∀ e ∈ onLevel es (cut x (i + 1 + 1)) (i + 1), key e.item ≠ key item := by
        intro e he heq
        obtain ⟨hes, hlt⟩ := mem_onLevel.mp he
        obtain rfl := key_injOn hsorted hes hx (heq.trans hkey.symm)
        rw [cut_self] at hlt
        omega
      have hunl := unlink_absent hcmp h hi hdone habs to_remove
      obtain ⟨skip', hsame, hrdy'⟩ := done_ready h hsorted hi hdone
      rw [onLevel_cut_above h hx (Nat.le_of_not_lt hlvl)] at h hrdy'
      obtain ⟨s', hrem, hlay, hfr, hct⟩ := ih h hcount (by omega) hrdy' to_remove
      refine ⟨s', ?_, hlay, hfr, hct⟩
      rw [removeFrom, hsr, ok_bind]
      simp only [hunl, ok_bind, hsame, hrem]

end

/-- The skiplist stores the given entries, sorted and linked on all levels of their height. -/
structure Stored (key : α → β) (s : NpSkiplist α) (H : ℕ) (es : List (Entry α)) : Prop where
  layout : Layout s H es (onLevel es Entry.height)
  sorted : Sorted key es
  height_pos : ∀ e ∈ es, 1 ≤ e.height
  height_bound : H ≤ 34
  fresh_pos : 0 < s.fresh
  count : s.num_elements = es.length

lemma Stored.root_height (h : Stored key s H es) :
    ∃ root, s.heap 0 = some root ∧ root.height = H ∧ startLevel root.height = H := by
  obtain ⟨nodes, hroot, _⟩ := h.layout.root
  have hb := h.height_bound
  refine ⟨_, hroot, rfl, ?_⟩
  simp only [startLevel]
  split <;> omega

lemma Stored.height_ne_zero (h : Stored key s H es) (he : e ∈ es) : H ≠ 0 := by
  have := h.height_pos e he
  have := h.layout.height_le e he
  omega

lemma skiplistRemove_absent (hcmp : Compares compare_func key) (h : Stored key s H es)
    (ha : ∀ e ∈ es, key e.item ≠ key item) :
    skiplistRemove compare_func s item = .ok (s, false) := by
  obtain ⟨root, hroot, _, hst⟩ := h.root_height
  have hrem : removeFrom compare_func item H false s 0 (-1) none = .ok (s, none) := by
    cases H with
    | zero => rfl
    | succ H =>
      exact removeFrom_absent hcmp h.layout h.sorted (Nat.le_of_eq h.count.symm) ha H
        (Nat.lt_succ_self H) (ready_start _ item H) none
  simp only [skiplistRemove, deref_eq hroot, hst, ok_bind, hrem]
  rfl

lemma freed_stored (h : Stored key s H (front ++ x :: rest))
    (hlay : Layout s' H (front ++ x :: rest) (onLevel (front ++ x :: rest) (cut x 0)))
    (hfr : s'.fresh = s.fresh) (hcount : s'.num_elements = s.num_elements) :
    Stored key ⟨update s'.heap x.addr none, s'.fresh, s'.num_elements - 1⟩ H (front ++ rest) := by
  have hfil := filter_addr_ne hlay.distinct
  have hsub : (front ++ rest).Sublist (front ++ x :: rest) := hfil ▸ filter_sublist
  have hmem : ∀ e ∈ front ++ rest, e ∈ front ++ x :: rest ∧ e.addr ≠ x.addr := by
    intro e he
    rw [← hfil] at he
    simpa only [mem_filter, decide_eq_true_eq] using he
  have hlvl : ∀ i, onLevel (front ++ rest) Entry.height i =
      onLevel (front ++ x :: rest) (cut x 0) i := by
    intro i
    rw [onLevel, ← hfil, List.filter_filter, onLevel]
    apply filter_congr
    intro e _
    by_cases hex : e.addr = x.addr <;> simp [cut, hex]
  have hnext : ∀ i v, v ≠ x.addr → next ⟨update s'.heap x.addr none, s'.fresh,
      s'.num_elements - 1⟩ i v = next s' i v := by
    intro i v hv
    simp only [Search.next, update_of_ne hv]
  have hxpos := hlay.addr_pos x (mem_append_right _ mem_cons_self)
  refine ⟨⟨?_, ?_, ?_, ?_, ?_, ?_, onLevel_mono _ _, ?_, ?_, ?_⟩, h.sorted.sublist hsub,
    ?_, h.height_bound, hfr ▸ h.fresh_pos, ?_⟩
  · obtain ⟨nodes, hroot, hlen⟩ := hlay.root
    exact ⟨nodes, (update_of_ne (by omega) _ _).trans hroot, hlen⟩
  · intro e he
    obtain ⟨nodes, ha, hlen⟩ := hlay.alloc e (hmem e he).1
    exact ⟨nodes, (update_of_ne (hmem e he).2 _ _).trans ha, hlen⟩
  · exact fun e he => hlay.addr_pos e (hmem e he).1
  · exact fun e he => hlay.addr_fresh e (hmem e he).1
  · exact hlay.distinct.sublist (hsub.map _)
  · exact fun i => filter_sublist
  · exact fun i e he => (mem_onLevel.mp he).2
  · exact fun e he => hlay.height_le e (hmem e he).1
  · intro i hi
    rw [hlvl]
    refine (hlay.linked i hi).congr (fun v hv => hnext i v ?_)
    obtain rfl | hv := mem_cons.mp hv
    · omega
    · obtain ⟨e, he, rfl⟩ := mem_map.mp hv
      have hlt := (mem_onLevel.mp he).2
      intro heq
      simp [cut, heq] at hlt
  · exact fun e he => h.height_pos e (hmem e he).1
  · have hlen := h.count
    simp only [length_append, length_cons] at hlen ⊢
    omega

lemma skiplistRemove_present (hcmp : Compares compare_func key)
    (h : Stored key s H (front ++ x :: rest)) (hkey : key x.item = key item) :
    ∃ s', skiplistRemove compare_func s item = .ok (s', true) ∧
      Stored key s' H (front ++ rest) := by
  have hx : x ∈ front ++ x :: rest := mem_append_right _ mem_cons_self
  obtain ⟨root, hroot, _, hst⟩ := h.root_height
  obtain ⟨r, rfl⟩ := Nat.exists_eq_succ_of_ne_zero (h.height_ne_zero hx)
  have hlay := h.layout
  rw [← onLevel_cut_full (x := x) (fun e he _ => h.layout.height_le e he)] at hlay
  obtain ⟨s', hrem, hl', hfr, hcount⟩ := removeFrom_present hcmp h.sorted hx hkey
    (h.height_pos x hx) r hlay (Nat.le_of_eq h.count.symm) (Nat.lt_succ_self r)
    (ready_start _ item r) none
  refine ⟨_, ?_, freed_stored h hl' hfr hcount⟩
  obtain ⟨nodes, ha, _⟩ := hl'.alloc x hx
  simp only [skiplistRemove, deref_eq hroot, hst, ok_bind, hrem, deref_eq ha]
  rfl

end Neuropil.Skiplist.Remove
