import Neuropil.Tree.KeyOrder
import Neuropil.Tree.Operations
import Neuropil.Tree.Ordered

namespace Neuropil.Tree.Keyed

open Function List Option Lib.Fault Tree.RedBlack Tree.Removal Tree.Values Tree.Operations
  Tree.KeyOrder Tree.Ordered

/-- Keys of one type, which the comparison of the tree puts in their order. -/
structure KeyKind (α : Type) where
  key : α → Key
  injective : Function.Injective key
  agrees : ∀ a b, SignAgrees (key a) (key b)
  stored : ∀ attr a, storedKey attr (key a) = key a

def uuidKind : KeyKind Uuid where
  key := .uuid
  injective _ _ h := Key.uuid.inj h
  agrees := signAgrees_uuid
  stored _ _ := rfl

def dhkeyKind : KeyKind Dhkey where
  key := .dhkey
  injective _ _ h := Key.dhkey.inj h
  agrees := signAgrees_dhkey
  stored _ _ := rfl

variable {α : Type} {kind : KeyKind α} {tree : NpTree} {m : α → Option Treeval} {a : α}
  {val stored : Treeval}

noncomputable def onKeys (kind : KeyKind α) (m : α → Option Treeval) : Key → Option Treeval :=
  Function.extend kind.key m fun _ => none

structure HoldsKeyed (kind : KeyKind α) (tree : NpTree) (m : α → Option Treeval) : Prop where
  represents : Represents tree.root (onKeys kind m)
  attr : tree.attr = ⟨false, false⟩

lemma onKeys_key (a : α) : onKeys kind m (kind.key a) = m a := kind.injective.extend_apply m _ a

lemma onKeys_eq_some {key : Key} (h : onKeys kind m key = some val) :
    ∃ a, key = kind.key a ∧ m a = some val := by
  by_cases hkey : ∃ a, kind.key a = key
  · obtain ⟨a, rfl⟩ := hkey
    rw [onKeys_key] at h
    exact ⟨a, rfl, h⟩
  · rw [onKeys, extend_apply' _ _ _ hkey] at h
    cases h

lemma onKeys_update [DecidableEq α] (a : α) (val : Option Treeval) :
    update (onKeys kind m) (kind.key a) val = onKeys kind (update m a val) := by
  funext key
  by_cases hkey : ∃ b, kind.key b = key
  · obtain ⟨b, rfl⟩ := hkey
    rw [onKeys_key]
    by_cases hb : b = a
    · rw [hb, update_self, update_self]
    · rw [update_of_ne hb, update_of_ne (fun h => hb (kind.injective h)), onKeys_key]
  · rw [update_of_ne (fun h => hkey ⟨a, h.symm⟩), onKeys, onKeys,
      extend_apply' _ _ _ hkey, extend_apply' _ _ _ hkey]

lemma holdsKeyed_create : HoldsKeyed kind treeCreate fun _ => none where
  represents := by
    have hmap : onKeys kind (fun _ => none) = fun _ => none := by
      funext key
      by_contra h
      obtain ⟨val, hval⟩ := ne_none_iff_exists'.1 h
      obtain ⟨a, -, ha⟩ := onKeys_eq_some hval
      cases ha
    rw [hmap]
    exact represents_nil
  attr := rfl

namespace HoldsKeyed

variable (h : HoldsKeyed kind tree m)
include h

lemma mem_iff {key : Key} :
    (key, val) ∈ entries tree.root ↔ ∃ a, key = kind.key a ∧ m a = some val := by
  rw [h.represents.mem_iff]
  constructor
  · exact onKeys_eq_some
  · rintro ⟨a, rfl, ha⟩
    rw [onKeys_key, ha]

lemma agrees (a : α) : Agrees elemCmp (kind.key a) tree.root := by
  apply agrees_of_entries
  rintro ⟨key, val⟩ hmem
  obtain ⟨b, rfl, -⟩ := h.mem_iff.1 hmem
  exact kind.agrees a b

lemma find (a : α) : treeFind tree (kind.key a) = m a :=
  (h.represents.find (h.agrees a)).trans (onKeys_key a)

lemma insert_present (ha : m a ≠ none) (val : Treeval) :
    treeInsert tree (kind.key a) val = .ok tree := by
  obtain ⟨old, hold⟩ := ne_none_iff_exists'.1 ha
  obtain ⟨f, hf, -⟩ := map_eq_some_iff.1 ((h.find a).trans hold)
  rw [treeInsert, hf]

variable [DecidableEq α]

lemma insert (ha : m a = none) (hcopy : copyOfVal val = .ok stored) :
    ∃ tree', treeInsert tree (kind.key a) val = .ok tree' ∧
      HoldsKeyed kind tree' (update m a (some stored)) := by
  have hnone : treeFindElem tree (kind.key a) = none := map_eq_none_iff.1 ((h.find a).trans ha)
  obtain ⟨root, hroot, hrep, -⟩ := h.represents.insert (h.agrees a) hnone stored
  have hset : treeSetTreeval tree val = .ok stored := by
    rw [treeSetTreeval, h.attr]
    exact hcopy
  have hins := treeInsert_absent hnone hset (by rw [h.attr]) (by rw [kind.stored]; exact hroot)
  refine ⟨_, hins, ?_, h.attr⟩
  rw [← onKeys_update]
  exact hrep

lemma replace (a : α) (hcopy : copyOfVal val = .ok stored) :
    ∃ tree', treeReplace tree (kind.key a) val = .ok tree' ∧
      HoldsKeyed kind tree' (update m a (some stored)) := by
  cases hf : treeFindElem tree (kind.key a) with
  | none =>
    have ha : m a = none := by
      rw [← h.find a, treeFind, hf]
      rfl
    simp only [treeReplace, hf]
    exact h.insert ha hcopy
  | some f =>
    have hset : treeSetTreeval tree val = .ok stored := by
      rw [treeSetTreeval, h.attr]
      exact hcopy
    refine ⟨_, treeReplace_found hf hset (by rw [h.attr]), ?_, h.attr⟩
    rw [← onKeys_update]
    exact (h.represents.write (h.agrees a) hf stored).1

lemma del (a : α) :
    ∃ tree', treeDel tree (kind.key a) = .ok tree' ∧ HoldsKeyed kind tree' (update m a none) := by
  cases hf : treeFindElem tree (kind.key a) with
  | none =>
    have ha : m a = none := by
      rw [← h.find a, treeFind, hf]
      rfl
    refine ⟨tree, treeDel_absent hf (by rw [h.attr]), ?_⟩
    rw [← ha, update_eq_self]
    exact h
  | some f =>
    obtain ⟨root, hroot, hrep, -⟩ := h.represents.remove (h.agrees a) hf
    refine ⟨_, treeDel_found hf (by rw [h.attr]) hroot, ?_, h.attr⟩
    rw [← onKeys_update]
    exact hrep

lemma delAll (as : List α) :
    ∃ tree', as.foldlM (fun tree a => treeDel tree (kind.key a)) tree = .ok tree' ∧
      HoldsKeyed kind tree' (fun b => if b ∈ as then none else m b) := by
  induction as generalizing tree m with
  | nil => exact ⟨tree, rfl, by simpa using h⟩
  | cons a as ih =>
    obtain ⟨middle, hdel, hmid⟩ := h.del a
    obtain ⟨tree', hfold, ht'⟩ := ih hmid
    refine ⟨tree', by rw [foldlM_cons, hdel, ok_bind, hfold], ?_⟩
    have hmap : (fun b => if b ∈ as then none else update m a none b) =
        fun b => if b ∈ a :: as then none else m b := by
      funext b
      by_cases hb : b = a
      · rw [hb, update_self, if_pos mem_cons_self, ite_self]
      · rw [update_of_ne hb]
        simp [hb]
    rw [← hmap]
    exact ht'

lemma rebuild (hcopy : ∀ a val, m a = some val → copyOfVal val = .ok val)
    {step : NpTree → Key × Treeval → Except Fault NpTree}
    (hstep : ∀ t, ∀ e ∈ entries tree.root, step t e = treeInsert t e.1 e.2) :
    ∃ result, (entries tree.root).foldlM step treeCreate = .ok result ∧
      HoldsKeyed kind result m := by
  obtain ⟨result, hfold, m', hres, hm'⟩ := foldlM_inv
    (fun before t => ∃ m', HoldsKeyed kind t m' ∧
      ∀ a val, m' a = some val ↔ (kind.key a, val) ∈ before)
    ⟨_, holdsKeyed_create, by simp⟩ (by
      rintro before t ⟨key, val⟩ hb ⟨m', ht, hm'⟩
      have he : (key, val) ∈ entries tree.root := hb.subset (by simp)
      obtain ⟨a, rfl, ha⟩ := h.mem_iff.1 he
      have hlt : ∀ e ∈ before, e.1 < kind.key a := by
        have hsrt := h.represents.sorted.sublist hb.sublist
        intro e hmem
        exact (pairwise_append.1 hsrt).2.2 e hmem _ mem_cons_self
      have hnone : m' a = none := by
        by_contra hsome
        obtain ⟨old, hold⟩ := ne_none_iff_exists'.1 hsome
        exact lt_irrefl _ (hlt _ ((hm' a old).1 hold))
      obtain ⟨t', hins, ht'⟩ := ht.insert hnone (hcopy a val ha)
      refine ⟨t', (hstep t _ he).trans hins, _, ht', ?_⟩
      intro b v
      by_cases hba : b = a
      · subst hba
        have hmem : (kind.key b, v) ∉ before := fun hold => lt_irrefl _ (hlt _ hold)
        simp [hmem, eq_comm]
      · have hkey : kind.key b ≠ kind.key a := fun heq => hba (kind.injective heq)
        simp [hba, hkey, hm'])
  have hmap : m' = m := by
    funext a
    apply Option.ext
    intro val
    rw [hm', h.mem_iff]
    constructor
    · rintro ⟨b, hb, hval⟩
      rwa [kind.injective hb]
    · exact fun hval => ⟨a, rfl, hval⟩
  exact ⟨result, hfold, hmap ▸ hres⟩

end HoldsKeyed

end Neuropil.Tree.Keyed
