import Neuropil.Tree.Removal
import Mathlib.Data.Set.Card

namespace Neuropil.Tree.Ordered

open Function Tree.RedBlack Tree.Removal

variable {κ ν : Type} {cmp : κ → κ → Int} {elm : κ} {root : Node κ ν} {f : Found κ ν}

lemma rbFind_eq_none (h : rbFind cmp elm root = none) :
    ∃ path, search cmp elm [] root = (path, .nil) := by
  rw [rbFind] at h
  split at h
  · next path hs => exact ⟨path, hs⟩
  · cases h

section

variable (hv : Valid root) (h : rbFind cmp elm root = some f)
include h

lemma rbFind_eq_some : search cmp elm [] root = (f.path, f.elem) := by
  rw [rbFind] at h
  split at h
  · cases h
  · next hs =>
    cases h
    exact hs

lemma plug_found : plug f.path f.elem = root := by
  have hp := plug_search cmp elm [] root
  rwa [rbFind_eq_some h] at hp

lemma entries_found :
    entries root = (before f.path ++ entries f.left) ++ (f.key, f.val) ::
      (entries f.right ++ after f.path) := by
  rw [← plug_found h, entries_plug]
  simp [Found.elem, entries]

include hv

lemma around_found : ∃ n, Around f.path f.color n ∧ Balanced f.elem f.color n := by
  obtain ⟨n, hb⟩ := hv
  obtain ⟨c, m, hp, ht⟩ := Around.search cmp elm .root hb
  rw [rbFind_eq_some h] at hp ht
  obtain rfl := ht.color_eq
  exact ⟨m, hp, ht⟩

lemma write_spec (val : ν) :
    Holds (f.write val) ((before f.path ++ entries f.left) ++ (f.key, val) ::
      (entries f.right ++ after f.path)) := by
  obtain ⟨n, hp, hb⟩ := around_found hv h
  have hb' : Balanced (.node f.color f.left f.key val f.right) f.color n := by
    obtain ⟨path, color, left, key, v, right⟩ := f
    cases hb with
    | red hl hr => exact .red hl hr
    | black hl hr => exact .black hl hr
  have hh := hp.holds hb'
  simpa [entries, Found.write] using hh

lemma remove_spec :
    ∃ t, rbRemove f = .ok t ∧ Holds t ((before f.path ++ entries f.left) ++
      (entries f.right ++ after f.path)) := by
  obtain ⟨n, hp, hb⟩ := around_found hv h
  obtain ⟨t, ht, hh⟩ := rbRemove_spec hp hb
  refine ⟨t, ht, ?_⟩
  simpa only [List.append_assoc] using hh

end

variable {path : Path κ ν}

lemma entries_absent (h : search cmp elm [] root = (path, .nil)) :
    entries root = before path ++ after path := by
  have hp := plug_search cmp elm [] root
  rw [h] at hp
  change plug path .nil = root at hp
  rw [← hp, entries_plug]
  simp [entries]

lemma insert_spec (hv : Valid root) (h : search cmp elm [] root = (path, .nil)) (val : ν) :
    ∃ t, rbInsert cmp elm val root = .ok t ∧ Holds t (before path ++ (elm, val) :: after path) := by
  obtain ⟨n, hb⟩ := hv
  obtain ⟨c, m, hp, ht⟩ := Around.search cmp elm .root hb
  rw [h] at hp ht
  cases ht with
  | nil =>
    obtain ⟨t, ht, hh⟩ := insertColor_spec hp (.red (k := elm) (v := val) .nil .nil)
    refine ⟨t, by rw [rbInsert, h]; exact ht, ?_⟩
    simpa [entries] using hh

lemma insert_found (h : rbFind cmp elm root = some f) (val : ν) :
    rbInsert cmp elm val root = .ok root := by
  rw [rbInsert, rbFind_eq_some h]
  rfl

variable [LinearOrder κ]

/-- Every comparison on the search for `elm` has the sign of the order. -/
def Agrees (cmp : κ → κ → Int) (elm : κ) : Node κ ν → Prop
  | .nil => True
  | .node _ l k _ r => (cmp elm k < 0 ↔ elm < k) ∧ (cmp elm k > 0 ↔ k < elm) ∧
      (elm < k → Agrees cmp elm l) ∧ (k < elm → Agrees cmp elm r)

def decideAgrees (cmp : κ → κ → Int) (elm : κ) : (t : Node κ ν) → Decidable (Agrees cmp elm t)
  | .nil => inferInstanceAs (Decidable True)
  | .node _ l k _ r =>
    have := decideAgrees cmp elm l
    have := decideAgrees cmp elm r
    inferInstanceAs (Decidable ((cmp elm k < 0 ↔ elm < k) ∧ (cmp elm k > 0 ↔ k < elm) ∧
      (elm < k → Agrees cmp elm l) ∧ (k < elm → Agrees cmp elm r)))

instance (t : Node κ ν) : Decidable (Agrees cmp elm t) := decideAgrees cmp elm t

lemma agrees_of_entries (h : ∀ e ∈ entries root,
    (cmp elm e.1 < 0 ↔ elm < e.1) ∧ (cmp elm e.1 > 0 ↔ e.1 < elm)) : Agrees cmp elm root := by
  induction root with
  | nil => trivial
  | node c l k v r ihl ihr =>
    simp only [entries, List.mem_append, List.mem_cons] at h
    obtain ⟨hneg, hpos⟩ := h (k, v) (.inr (.inl rfl))
    exact ⟨hneg, hpos, fun _ => ihl fun e he => h e (.inl he),
      fun _ => ihr fun e he => h e (.inr (.inr he))⟩

def Sorted (contents : List (κ × ν)) : Prop := contents.Pairwise (fun a b => a.1 < b.1)

variable {t : Node κ ν}

lemma search_between (ha : Agrees cmp elm t)
    (hs : Sorted (entries t)) (hlo : ∀ e ∈ before path, e.1 < elm)
    (hhi : ∀ e ∈ after path, elm < e.1) : (∀ e ∈ before (search cmp elm path t).1, e.1 < elm) ∧
      (∀ e ∈ after (search cmp elm path t).1, elm < e.1) ∧
      ∀ c l k v r, (search cmp elm path t).2 = .node c l k v r → k = elm := by
  fun_induction search cmp elm path t with
  | case1 path => exact ⟨hlo, hhi, by simp⟩
  | case2 path c l k v r hlt ih =>
    obtain ⟨hneg, -, hl, -⟩ := ha
    obtain ⟨hsl, hsr, hkr⟩ := List.pairwise_append.1 hs
    have hk := hneg.1 hlt
    refine ih (hl hk) hsl hlo ?_
    intro e he
    simp only [after, List.mem_cons, List.mem_append] at he
    obtain rfl | he | he := he
    · exact hk
    · exact hk.trans (List.rel_of_pairwise_cons hsr he)
    · exact hhi e he
  | case3 path c l k v r hlt hgt ih =>
    obtain ⟨-, hpos, -, hr⟩ := ha
    obtain ⟨hsl, hsr, hkr⟩ := List.pairwise_append.1 hs
    have hk := hpos.1 hgt
    refine ih (hr hk) hsr.of_cons ?_ hhi
    intro e he
    simp only [before, List.mem_append, List.mem_singleton] at he
    obtain he | he | rfl := he
    · exact hlo e he
    · exact (hkr e he (k, v) (by simp)).trans hk
    · exact hk
  | case4 path c l k v r hlt hgt =>
    obtain ⟨hneg, hpos, -, -⟩ := ha
    refine ⟨hlo, hhi, ?_⟩
    intro c' l' k' v' r' h
    cases h
    exact (le_antisymm (not_lt.1 fun hk => hlt (hneg.2 hk)) (not_lt.1 fun hk => hgt (hpos.2 hk)))

/-- The tree holds the finite map `m`. -/
structure Represents (root : Node κ ν) (m : κ → Option ν) : Prop where
  valid : Valid root
  sorted : Sorted (entries root)
  mem_iff : ∀ k v, (k, v) ∈ entries root ↔ m k = some v

lemma represents_nil : Represents (.nil : Node κ ν) (fun _ => none) where
  valid := valid_nil
  sorted := List.Pairwise.nil
  mem_iff := by simp [entries]

structure Split (elm : κ) (pre post : List (κ × ν)) (m : κ → Option ν) : Prop where
  sorted : Sorted (pre ++ post)
  lower : ∀ e ∈ pre, e.1 < elm
  upper : ∀ e ∈ post, elm < e.1
  mem_iff : ∀ k v, k ≠ elm → ((k, v) ∈ pre ++ post ↔ m k = some v)

variable {m : κ → Option ν} {pre post : List (κ × ν)}

lemma Split.not_mem (h : Split elm pre post m) (v : ν) : (elm, v) ∉ pre ++ post := by
  intro hmem
  obtain hmem | hmem := List.mem_append.1 hmem
  · exact lt_irrefl _ (h.lower _ hmem)
  · exact lt_irrefl _ (h.upper _ hmem)

lemma Split.represents_none (h : Split elm pre post m)
    (ht : Holds t (pre ++ post)) : Represents t (update m elm none) where
  valid := ht.1
  sorted := ht.2 ▸ h.sorted
  mem_iff k v := by
    rw [ht.2]
    by_cases hk : k = elm
    · subst hk
      simpa using h.not_mem v
    · rw [update_of_ne hk]
      exact h.mem_iff k v hk

lemma Split.represents_some {val : ν} (h : Split elm pre post m)
    (ht : Holds t (pre ++ (elm, val) :: post)) : Represents t (update m elm (some val)) where
  valid := ht.1
  sorted := by
    rw [ht.2]
    obtain ⟨hpre, hpost, hlt⟩ := List.pairwise_append.1 h.sorted
    refine List.pairwise_append.2 ⟨hpre, List.pairwise_cons.2 ⟨h.upper, hpost⟩, ?_⟩
    intro a ha b hb
    obtain rfl | hb := List.mem_cons.1 hb
    · exact h.lower a ha
    · exact hlt a ha b hb
  mem_iff k v := by
    have hperm : (k, v) ∈ pre ++ (elm, val) :: post ↔ (k, v) = (elm, val) ∨ (k, v) ∈ pre ++ post :=
      List.perm_middle.mem_iff.trans List.mem_cons
    rw [ht.2, hperm]
    by_cases hk : k = elm
    · subst hk
      have hn := h.not_mem v
      simp [hn, eq_comm]
    · rw [update_of_ne hk, ← h.mem_iff k v hk]
      simp [hk]

section

variable (hr : Represents root m) (ha : Agrees cmp elm root)
include hr ha

lemma Represents.between : (∀ e ∈ before (search cmp elm [] root).1, e.1 < elm) ∧
      (∀ e ∈ after (search cmp elm [] root).1, elm < e.1) ∧
      ∀ c l k v r, (search cmp elm [] root).2 = .node c l k v r → k = elm :=
  search_between ha hr.sorted (by simp [before]) (by simp [after])

lemma Represents.key_found (h : rbFind cmp elm root = some f) : f.key = elm := by
  obtain ⟨-, -, hkey⟩ := hr.between ha
  exact hkey f.color f.left f.key f.val f.right (by rw [rbFind_eq_some h]; rfl)

lemma Represents.split_found (h : rbFind cmp elm root = some f) :
    Split elm (before f.path ++ entries f.left) (entries f.right ++ after f.path) m := by
  have hkey := hr.key_found ha h
  have hs := hr.sorted
  have hmem := hr.mem_iff
  rw [entries_found h, hkey] at hs hmem
  obtain ⟨hpre, hpost, hlt⟩ := List.pairwise_append.1 hs
  refine ⟨List.pairwise_append.2 ⟨hpre, hpost.of_cons, ?_⟩, ?_, ?_, ?_⟩
  · exact fun a ha b hb => hlt a ha b (List.mem_cons_of_mem _ hb)
  · exact fun a ha => hlt a ha _ List.mem_cons_self
  · exact fun b hb => List.rel_of_pairwise_cons hpost hb
  · intro k v hk
    rw [← hmem, List.perm_middle.mem_iff, List.mem_cons]
    simp [hk]

lemma Represents.split_absent (h : search cmp elm [] root = (path, .nil)) :
    Split elm (before path) (after path) m := by
  have hs := hr.sorted
  have hmem := hr.mem_iff
  obtain ⟨hlo, hhi, -⟩ := hr.between ha
  rw [h] at hlo hhi
  rw [entries_absent h] at hs hmem
  exact ⟨hs, hlo, hhi, fun k v _ => hmem k v⟩

lemma Represents.find : (rbFind cmp elm root).map (fun f => f.val) = m elm := by
  cases h : rbFind cmp elm root with
  | some f =>
    have hmem : (f.key, f.val) ∈ entries root := by
      rw [entries_found h]
      simp
    rw [hr.key_found ha h, hr.mem_iff] at hmem
    exact hmem.symm
  | none =>
    obtain ⟨path, hs⟩ := rbFind_eq_none h
    have hspl := hr.split_absent ha hs
    cases hm : m elm with
    | none => rfl
    | some v =>
      have hmem := (hr.mem_iff elm v).2 hm
      rw [entries_absent hs] at hmem
      exact absurd hmem (hspl.not_mem v)

lemma Represents.insert (h : rbFind cmp elm root = none) (val : ν) :
    ∃ t, rbInsert cmp elm val root = .ok t ∧ Represents t (update m elm (some val)) ∧
      (entries t).length = (entries root).length + 1 := by
  obtain ⟨path, hs⟩ := rbFind_eq_none h
  obtain ⟨t, ht, hh⟩ := insert_spec hr.valid hs val
  refine ⟨t, ht, (hr.split_absent ha hs).represents_some hh, ?_⟩
  rw [hh.2, entries_absent hs]
  simp only [List.length_append, List.length_cons]
  omega

lemma Represents.write (h : rbFind cmp elm root = some f) (val : ν) :
    Represents (f.write val) (update m elm (some val)) ∧
      (entries (f.write val)).length = (entries root).length := by
  have hh := write_spec hr.valid h val
  have hlen := congrArg List.length hh.2
  rw [hr.key_found ha h] at hh
  refine ⟨(hr.split_found ha h).represents_some hh, ?_⟩
  rw [hlen, entries_found h]
  simp only [List.length_append, List.length_cons]

lemma Represents.remove (h : rbFind cmp elm root = some f) :
    ∃ t, rbRemove f = .ok t ∧ Represents t (update m elm none) ∧
      (entries t).length = (entries root).length - 1 := by
  obtain ⟨t, ht, hh⟩ := remove_spec hr.valid h
  refine ⟨t, ht, (hr.split_found ha h).represents_none hh, ?_⟩
  rw [hh.2, entries_found h]
  simp only [List.length_append, List.length_cons]
  omega

end

lemma Represents.length_eq (hr : Represents root m) :
    (entries root).length = {k | m k ≠ none}.ncard := by
  have hnd : ((entries root).map Prod.fst).Nodup := by
    refine List.Pairwise.map _ ?_ hr.sorted
    exact fun a b hab => hab.ne
  have hset : {k | m k ≠ none} = ↑((entries root).map Prod.fst).toFinset := by
    ext k
    simp only [Set.mem_ofPred_eq, Option.ne_none_iff_exists', List.coe_toFinset, List.mem_map,
      Prod.exists, ← hr.mem_iff]
    constructor
    · rintro ⟨v, hv⟩
      exact ⟨k, v, hv, rfl⟩
    · rintro ⟨_, v, hv, rfl⟩
      exact ⟨v, hv⟩
  rw [hset, Set.ncard_coe_finset, List.toFinset_card_of_nodup hnd, List.length_map]

end Neuropil.Tree.Ordered
