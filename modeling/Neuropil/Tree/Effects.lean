import Neuropil.Tree.MapRuns

namespace Neuropil.Tree.Effects

open List Lib.Fault Lib.Run Tree.MapRuns Tree.Operations Tree.Ordered Tree.RedBlack Tree.Removal
open Tree.Values

variable {P : Treeval → Prop}

section

def ofTree : TreeKind → NpTree → Treeval
  | .jrbTree, tree => .jrbTree tree
  | .cwt, tree => .cwt tree
  | .coseSigned, tree => .coseSigned tree
  | .coseEncrypted, tree => .coseEncrypted tree

variable {kind : TreeKind}

lemma ofTree_inj {kind' : TreeKind} {tree tree' : NpTree}
    (h : ofTree kind tree = ofTree kind' tree') : kind = kind' ∧ tree = tree' := by
  cases kind <;> cases kind' <;> cases h <;> exact ⟨rfl, rfl⟩

def Plain (val : Treeval) : Prop := ∀ kind tree, val ≠ ofTree kind tree

def isTree : Treeval → Bool
  | .jrbTree _ | .cwt _ | .coseSigned _ | .coseEncrypted _ => true
  | _ => false

lemma Plain.isTree_eq_false {val : Treeval} (h : Plain val) : isTree val = false := by
  cases val with
  | jrbTree t => exact absurd rfl (h .jrbTree t)
  | cwt t => exact absurd rfl (h .cwt t)
  | coseSigned t => exact absurd rfl (h .coseSigned t)
  | coseEncrypted t => exact absurd rfl (h .coseEncrypted t)
  | _ => rfl

lemma treeval_induction (hpl : ∀ val, Plain val → P val)
    (htree : ∀ kind tree, (∀ e ∈ entries tree.root, P e.2) → P (ofTree kind tree)) :
    ∀ val, P val := by
  apply @Treeval.rec P (fun tree => ∀ e ∈ entries tree.root, P e.2)
    (fun root => ∀ e ∈ entries root, P e.2)
  case jrbTree => exact htree .jrbTree
  case cwt => exact htree .cwt
  case coseSigned => exact htree .coseSigned
  case coseEncrypted => exact htree .coseEncrypted
  case mk =>
    intro root _ _ _ hroot
    exact hroot
  case nil => simp [entries]
  case node =>
    intro _ left key val right hleft hval hright e he
    simp only [entries, mem_append, mem_cons] at he
    obtain he | rfl | he := he
    · exact hleft e he
    · exact hval
    · exact hright e he
  all_goals
    intros
    exact hpl _ (by rintro (_ | _ | _ | _) _ ⟨⟩)

def keys (tree : NpTree) : List Key := (entries tree.root).map Prod.fst

mutual

/-- `tree` holds of a value and of every tree inside it, `plain` of every other value inside it. -/
def Everywhere (plain : Treeval → Prop) (tree : NpTree → Prop) : Treeval → Prop
  | .jrbTree t => tree t ∧ EverywhereTree plain tree t
  | .cwt t => tree t ∧ EverywhereTree plain tree t
  | .coseSigned t => tree t ∧ EverywhereTree plain tree t
  | .coseEncrypted t => tree t ∧ EverywhereTree plain tree t
  | val => plain val

def EverywhereTree (plain : Treeval → Prop) (tree : NpTree → Prop) : TreeOf Treeval → Prop
  | ⟨root, _, _, _⟩ => EverywhereNode plain tree root

def EverywhereNode (plain : Treeval → Prop) (tree : NpTree → Prop) : Node Key Treeval → Prop
  | .nil => True
  | .node _ left _ val right => EverywhereNode plain tree left ∧ Everywhere plain tree val ∧
      EverywhereNode plain tree right

end

variable {tree : NpTree → Prop} {root : Node Key Treeval}

lemma everywhereNode_iff {plain : Treeval → Prop} :
    EverywhereNode plain tree root ↔ ∀ e ∈ entries root, Everywhere plain tree e.2 := by
  induction root with
  | nil => simp [EverywhereNode, entries]
  | node _ left key val right ihl ihr =>
    simp only [EverywhereNode, entries, forall_mem_append, forall_mem_cons, ihl, ihr]

lemma everywhere_ofTree {plain : Treeval → Prop} {t : NpTree} :
    Everywhere plain tree (ofTree kind t) ↔
      tree t ∧ ∀ e ∈ entries t.root, Everywhere plain tree e.2 := by
  rw [← everywhereNode_iff]
  obtain ⟨root, _, _, _⟩ := t
  cases kind <;> rfl

variable {val : Treeval}

lemma everywhere_plain {plain : Treeval → Prop} (h : Plain val) :
    Everywhere plain tree val ↔ plain val := by
  cases val with
  | jrbTree | cwt | coseSigned | coseEncrypted => cases h.isTree_eq_false
  | _ => rfl

mutual

/-- A value and what became of it: the keys in `kept` are there again, each with what became of a
value it had before. -/
def Becomes (plain : Treeval → Treeval → Prop) (kept : Key → Prop) : Treeval → Treeval → Prop
  | val, .jrbTree t => ∃ s, val = .jrbTree s ∧ (∀ key, key ∈ keys t ↔ key ∈ keys s ∧ kept key) ∧
      BecomesTree plain kept s t
  | val, .cwt t => ∃ s, val = .cwt s ∧ (∀ key, key ∈ keys t ↔ key ∈ keys s ∧ kept key) ∧
      BecomesTree plain kept s t
  | val, .coseSigned t => ∃ s, val = .coseSigned s ∧
      (∀ key, key ∈ keys t ↔ key ∈ keys s ∧ kept key) ∧ BecomesTree plain kept s t
  | val, .coseEncrypted t => ∃ s, val = .coseEncrypted s ∧
      (∀ key, key ∈ keys t ↔ key ∈ keys s ∧ kept key) ∧ BecomesTree plain kept s t
  | val, result => Plain val ∧ plain val result

def BecomesTree (plain : Treeval → Treeval → Prop) (kept : Key → Prop) (source : NpTree) :
    TreeOf Treeval → Prop
  | ⟨root, _, _, _⟩ => BecomesNode plain kept source root

def BecomesNode (plain : Treeval → Treeval → Prop) (kept : Key → Prop) (source : NpTree) :
    Node Key Treeval → Prop
  | .nil => True
  | .node _ left key result right => BecomesNode plain kept source left ∧
      (∃ val, (key, val) ∈ entries source.root ∧ Becomes plain kept val result) ∧
      BecomesNode plain kept source right

end

variable {plain : Treeval → Treeval → Prop} {kept : Key → Prop}

lemma becomesNode_iff {source : NpTree} :
    BecomesNode plain kept source root ↔ ∀ e ∈ entries root,
      ∃ val, (e.1, val) ∈ entries source.root ∧ Becomes plain kept val e.2 := by
  induction root with
  | nil => simp [BecomesNode, entries]
  | node _ left key val right ihl ihr =>
    simp only [BecomesNode, entries, forall_mem_append, forall_mem_cons, ihl, ihr]

lemma becomes_ofTree {t : NpTree} : Becomes plain kept val (ofTree kind t) ↔
      ∃ s, val = ofTree kind s ∧ (∀ key, key ∈ keys t ↔ key ∈ keys s ∧ kept key) ∧
        ∀ e ∈ entries t.root, ∃ v, (e.1, v) ∈ entries s.root ∧ Becomes plain kept v e.2 := by
  simp only [← becomesNode_iff]
  obtain ⟨root, _, _, _⟩ := t
  cases kind <;> rfl

variable {result : Treeval}

lemma becomes_plain (h : Plain result) :
    Becomes plain kept val result ↔ Plain val ∧ plain val result := by
  cases result with
  | jrbTree | cwt | coseSigned | coseEncrypted => cases h.isTree_eq_false
  | _ => rfl

lemma Becomes.of_plain (h : Becomes plain kept val result) (hval : Plain val) :
    plain val result := by
  by_cases hres : Plain result
  · exact ((becomes_plain hres).1 h).2
  · simp only [Plain, not_forall, not_not] at hres
    obtain ⟨kind, t, rfl⟩ := hres
    obtain ⟨s, rfl, -⟩ := becomes_ofTree.1 h
    exact absurd rfl (hval kind s)

lemma Becomes.of_tree {s : NpTree} (h : Becomes plain kept (ofTree kind s) result) :
    ∃ t, result = ofTree kind t ∧ (∀ key, key ∈ keys t ↔ key ∈ keys s ∧ kept key) ∧
      ∀ e ∈ entries t.root, ∃ v, (e.1, v) ∈ entries s.root ∧ Becomes plain kept v e.2 := by
  by_cases hres : Plain result
  · exact absurd rfl (((becomes_plain hres).1 h).1 kind s)
  · simp only [Plain, not_forall, not_not] at hres
    obtain ⟨kind', t, rfl⟩ := hres
    obtain ⟨s', heq, hkeys, hv⟩ := becomes_ofTree.1 h
    obtain ⟨rfl, rfl⟩ := ofTree_inj heq
    exact ⟨t, rfl, hkeys, hv⟩

lemma Becomes.trans {p q r : Treeval → Treeval → Prop} {k l m : Key → Prop}
    (hpl : ∀ u v w, p u v → q v w → r u w) (hkept : ∀ key, m key ↔ k key ∧ l key)
    {u v w : Treeval} (huv : Becomes p k u v) (hvw : Becomes q l v w) : Becomes r m u w := by
  induction w using treeval_induction generalizing u v with
  | hpl w hw =>
    obtain ⟨hv, hq⟩ := (becomes_plain hw).1 hvw
    obtain ⟨hu, hp⟩ := (becomes_plain hv).1 huv
    exact (becomes_plain hw).2 ⟨hu, hpl u v w hp hq⟩
  | htree kind t ih =>
    obtain ⟨s, rfl, hkeys, hvals⟩ := becomes_ofTree.1 hvw
    obtain ⟨s', rfl, hk', hv'⟩ := becomes_ofTree.1 huv
    refine becomes_ofTree.2 ⟨s', rfl, ?_, ?_⟩
    · intro key
      rw [hkeys, hk', hkept, and_assoc]
    · intro e he
      obtain ⟨v, hmem, hv⟩ := hvals e he
      obtain ⟨u, hmem', hu⟩ := hv' (e.1, v) hmem
      exact ⟨u, hmem', ih e he hu hv⟩

end

/-- The keys stand in the order of their types. -/
def Ranked (contents : List (Key × Treeval)) : Prop :=
  contents.Pairwise (fun a b => a.1.type ≤ b.1.type)

lemma type_le_of_neg {a b : Key} (h : elemCmp a b < 0) : a.type ≤ b.type := by
  cases a <;> cases b <;> simp_all [elemCmp, Key.type]

lemma type_le_of_pos {a b : Key} (h : elemCmp a b > 0) : b.type ≤ a.type := by
  cases a <;> cases b <;> simp_all [elemCmp, Key.type]

lemma search_ranked (elm : Key) (path : Path Key Treeval) {t : Node Key Treeval}
    (hs : Ranked (entries t)) (hlo : ∀ e ∈ before path, e.1.type ≤ elm.type)
    (hhi : ∀ e ∈ after path, elm.type ≤ e.1.type) :
    (∀ e ∈ before (search elemCmp elm path t).1, e.1.type ≤ elm.type) ∧
      ∀ e ∈ after (search elemCmp elm path t).1, elm.type ≤ e.1.type := by
  fun_induction search elemCmp elm path t with
  | case1 path => exact ⟨hlo, hhi⟩
  | case2 path c l k v r hlt ih =>
    obtain ⟨hl, hr, -⟩ := List.pairwise_append.1 hs
    have hk := type_le_of_neg hlt
    refine ih hl hlo ?_
    simp only [Removal.after, forall_mem_cons, forall_mem_append]
    exact ⟨hk, fun e he => hk.trans (List.rel_of_pairwise_cons hr he), hhi⟩
  | case3 path c l k v r hlt hgt ih =>
    obtain ⟨hl, hr, hlr⟩ := List.pairwise_append.1 hs
    have hk := type_le_of_pos hgt
    refine ih hr.of_cons ?_ hhi
    simp only [before, List.forall_mem_append, List.forall_mem_singleton]
    exact ⟨hlo, fun e he => (hlr e he _ List.mem_cons_self).trans hk, hk⟩
  | case4 path c l k v r hlt hgt => exact ⟨hlo, hhi⟩

/-- A tree that np_tree_create made and the functions of np_tree worked on. -/
structure Fresh (tree : NpTree) : Prop where
  valid : Valid tree.root
  ranked : Ranked (entries tree.root)
  attr_eq : tree.attr = ⟨false, false⟩

lemma fresh_create : Fresh treeCreate := ⟨valid_nil, List.Pairwise.nil, rfl⟩

def Op.val : Op → Option Treeval
  | .insert _ val => some val
  | .replace _ val => some val
  | _ => none

/-- Everything a call can do to a tree that is not in place. -/
inductive Effect (tree : NpTree) : Op → NpTree → Prop
  | looked (key : Key) : Effect tree (.find key) tree
  | present (key : Key) (val : Treeval) (f : Found Key Treeval)
      (hf : treeFindElem tree key = some f) : Effect tree (.insert key val) tree
  | missing (key : Key) : Effect tree (.del key) tree
  | added {op : Op} {val stored : Treeval} {tree' : NpTree} {pre post : List (Key × Treeval)}
      (hval : Op.val op = some val) (hcopy : copyOfVal val = .ok stored)
      (hold : entries tree.root = pre ++ post)
      (hnew : entries tree'.root = pre ++ (storedKey tree.attr op.key, stored) :: post)
      (hsize : tree'.size = tree.size + 1)
      (hbytes : tree'.byteSize =
        tree.byteSize + elementGetByteSize (storedKey tree.attr op.key) stored) :
      Effect tree op tree'
  -- the key is new, but what is stored of it is not
  | cut {op : Op} {val stored : Treeval} {tree' : NpTree} (hval : Op.val op = some val)
      (hkey : storedKey tree.attr op.key ≠ op.key) (hroot : tree'.root = tree.root)
      (hsize : tree'.size = tree.size + 1)
      (hbytes : tree'.byteSize =
        tree.byteSize + elementGetByteSize (storedKey tree.attr op.key) stored) :
      Effect tree op tree'
  | written {key key' : Key} {val stored old : Treeval} {tree' : NpTree}
      {pre post : List (Key × Treeval)} (hcopy : copyOfVal val = .ok stored)
      (hold : entries tree.root = pre ++ (key', old) :: post)
      (hnew : entries tree'.root = pre ++ (key', stored) :: post) (hsize : tree'.size = tree.size)
      (hbytes : tree'.byteSize = tree.byteSize - elementGetByteSize key' old +
        elementGetByteSize key' stored) : Effect tree (.replace key val) tree'
  | removed {key key' : Key} {old : Treeval} {tree' : NpTree} {pre post : List (Key × Treeval)}
      (hold : entries tree.root = pre ++ (key', old) :: post)
      (hnew : entries tree'.root = pre ++ post) (hsize : tree'.size = tree.size - 1)
      (hbytes : tree'.byteSize = tree.byteSize - elementGetByteSize key' old) :
      Effect tree (.del key) tree'

lemma Effect.values {tree tree' : NpTree} {op : Op} (heff : Effect tree op tree')
    (hop : ∀ val stored, Op.val op = some val → copyOfVal val = .ok stored → P stored)
    (h : ∀ e ∈ entries tree.root, P e.2) : ∀ e ∈ entries tree'.root, P e.2 := by
  cases heff with
  | looked | present | missing => exact h
  | cut _ _ hroot => rwa [hroot]
  | added hval hcopy hold hnew =>
    rw [hold, List.forall_mem_append] at h
    rw [hnew, List.forall_mem_append, List.forall_mem_cons]
    exact ⟨h.1, hop _ _ hval hcopy, h.2⟩
  | written hcopy hold hnew =>
    rw [hold, List.forall_mem_append, List.forall_mem_cons] at h
    rw [hnew, List.forall_mem_append, List.forall_mem_cons]
    exact ⟨h.1, hop _ _ rfl hcopy, h.2.2⟩
  | removed hold hnew =>
    rw [hold, List.forall_mem_append, List.forall_mem_cons] at h
    rw [hnew, List.forall_mem_append]
    exact ⟨h.1, h.2.2⟩

lemma Effect.length_le {tree tree' : NpTree} {op : Op} (heff : Effect tree op tree') :
    (entries tree'.root).length ≤ (entries tree.root).length + 1 := by
  cases heff with
  | looked | present | missing => exact Nat.le_succ _
  | cut _ _ hroot =>
    rw [hroot]
    exact Nat.le_succ _
  | added _ _ hold hnew | written _ hold hnew | removed hold hnew =>
    rw [hold, hnew]
    simp only [List.length_append, List.length_cons]
    omega

section

variable {tree : NpTree} {key : Key} {val stored : Treeval}

lemma Fresh.set (h : Fresh tree) : treeSetTreeval tree val = copyOfVal val := by
  simp [treeSetTreeval, h.attr_eq]

lemma Fresh.mutable (h : Fresh tree) : tree.attr.immutable = false := by
  simp [h.attr_eq]

lemma insert_effect (op : Op) (h : Fresh tree) (hop : op.key = key)
    (hval : Op.val op = some val) (hf : treeFindElem tree key = none)
    (hcopy : copyOfVal val = .ok stored) :
    ∃ tree', treeInsert tree key val = .ok tree' ∧ Fresh tree' ∧ Effect tree op tree' := by
  subst hop
  cases hs : rbFind elemCmp (storedKey tree.attr op.key) tree.root with
  | none =>
    obtain ⟨path, hs⟩ := rbFind_eq_none hs
    obtain ⟨root, hroot, hv, he⟩ := insert_spec h.valid hs stored
    obtain ⟨hlo, hhi⟩ := search_ranked (storedKey tree.attr op.key) [] h.ranked
      (by simp [before]) (by simp [Removal.after])
    rw [hs] at hlo hhi
    have hold := entries_absent hs
    refine ⟨_, treeInsert_absent hf (h.set.trans hcopy) h.mutable hroot, ⟨hv, ?_, h.attr_eq⟩,
      .added hval hcopy hold he rfl rfl⟩
    have hr := h.ranked
    rw [hold] at hr
    obtain ⟨hpre, hpost, hlt⟩ := List.pairwise_append.1 hr
    rw [he]
    refine List.pairwise_append.2 ⟨hpre, List.pairwise_cons.2 ⟨hhi, hpost⟩, ?_⟩
    intro a ha
    simp only [List.forall_mem_cons]
    exact ⟨hlo a ha, hlt a ha⟩
  | some f =>
    have hkey : storedKey tree.attr op.key ≠ op.key := by
      intro heq
      rw [heq] at hs
      rw [treeFindElem, hs] at hf
      cases hf
    exact ⟨_, treeInsert_absent hf (h.set.trans hcopy) h.mutable (insert_found hs stored),
      ⟨h.valid, h.ranked, h.attr_eq⟩, .cut hval hkey rfl rfl rfl⟩

section

variable (h : Fresh tree) (key : Key) (hcopy : copyOfVal val = .ok stored)
include h hcopy

lemma treeInsert_effect : ∃ tree', treeInsert tree key val = .ok tree' ∧ Fresh tree' ∧
      Effect tree (.insert key val) tree' := by
  cases hf : treeFindElem tree key with
  | none => exact insert_effect (.insert key val) h rfl rfl hf hcopy
  | some f => exact ⟨tree, by rw [treeInsert, hf], h, .present key val f hf⟩

lemma treeReplace_effect : ∃ tree', treeReplace tree key val = .ok tree' ∧ Fresh tree' ∧
      Effect tree (.replace key val) tree' := by
  cases hf : treeFindElem tree key with
  | none =>
    obtain ⟨tree', hins, hfr, heff⟩ := insert_effect (.replace key val) h rfl rfl hf hcopy
    exact ⟨tree', by rw [treeReplace, hf]; exact hins, hfr, heff⟩
  | some f =>
    obtain ⟨hv, he⟩ := write_spec h.valid hf stored
    have hold := entries_found hf
    refine ⟨_, treeReplace_found hf (h.set.trans hcopy) h.mutable, ⟨hv, ?_, h.attr_eq⟩,
      .written hcopy hold he rfl rfl⟩
    have hr := h.ranked
    rw [Ranked, ← List.pairwise_map (f := Prod.fst) (R := fun a b : Key => a.type ≤ b.type)] at hr ⊢
    rw [hold] at hr
    rw [he]
    simpa using hr

end

lemma treeDel_effect (h : Fresh tree) (key : Key) :
    ∃ tree', treeDel tree key = .ok tree' ∧ Fresh tree' ∧ Effect tree (.del key) tree' := by
  cases hf : treeFindElem tree key with
  | none => exact ⟨tree, treeDel_absent hf h.mutable, h, .missing key⟩
  | some f =>
    obtain ⟨root, hroot, hv, he⟩ := remove_spec h.valid hf
    have hold := entries_found hf
    refine ⟨_, treeDel_found hf h.mutable hroot, ⟨hv, ?_, h.attr_eq⟩, .removed hold he rfl rfl⟩
    have hr := h.ranked
    rw [hold] at hr
    rw [he]
    exact hr.sublist (List.Sublist.append_left (List.sublist_cons_self _ _) _)

end

def copyElem (target : NpTree) (e : Key × Treeval) : Except Fault NpTree :=
  match e.1, treeFindElem target e.1 with
  | .special _, _ => .ok target
  | _, some _ => .ok target
  | key, none => do
    let val ← copyOfVal e.2
    treeInsertElement target (storedKey target.attr key) val

lemma treeCopy_eq (root : Node Key Treeval) (target : NpTree) :
    treeCopy root target = (entries root).foldlM copyElem target := by
  induction root generalizing target with
  | nil => rfl
  | node _ left key val right ihl ihr =>
    rw [entries, List.foldlM_append, ← ihl, treeCopy]
    refine congrArg (treeCopy left target >>= ·) (funext fun target => ?_)
    rw [List.foldlM_cons, copyElem]
    simp only [ihr]
    -- the loop body ends in three places, each of which goes on with the right subtree
    cases key with
    | special ush => rfl
    | _ =>
      cases treeFindElem target _ with
      | some f => rfl
      | none => cases copyOfVal val <;> rfl

inductive Copied (target : NpTree) : Key × Treeval → NpTree → Prop
  | skipped (ush : UInt8) (val : Treeval) : Copied target (.special ush, val) target
  | inserted {e : Key × Treeval} {target' : NpTree} (h : Effect target (.insert e.1 e.2) target') :
      Copied target e target'

lemma copyElem_effect {target : NpTree} {e : Key × Treeval} {stored : Treeval}
    (h : Fresh target) (hcopy : copyOfVal e.2 = .ok stored) :
    ∃ target', copyElem target e = .ok target' ∧ Fresh target' ∧ Copied target e target' := by
  obtain ⟨key, val⟩ := e
  cases key with
  | special ush => exact ⟨target, rfl, h, .skipped ush val⟩
  | _ =>
    obtain ⟨target', hins, hfr, heff⟩ := treeInsert_effect h _ hcopy
    refine ⟨target', ?_, hfr, .inserted heff⟩
    rw [← hins, treeInsert, h.set, copyElem]
    cases treeFindElem target _ <;> rfl

lemma clone_inv {tree : NpTree} (inv : List (Key × Treeval) → NpTree → Prop)
    (htot : ∀ e ∈ entries tree.root, ∃ stored, copyOfVal e.2 = .ok stored) (h0 : inv [] treeCreate)
    (hstep : ∀ before target e target', before ++ [e] <+: entries tree.root →
      inv before target → Copied target e target' → inv (before ++ [e]) target') :
    ∃ target, treeClone tree = .ok { target with attr := ⟨false, tree.attr.immutable⟩ } ∧
      Fresh target ∧ inv (entries tree.root) target := by
  have hfold : ∃ target, (entries tree.root).foldlM copyElem treeCreate = .ok target ∧
      Fresh target ∧ inv (entries tree.root) target := by
    refine foldlM_inv (fun before target => Fresh target ∧ inv before target)
      ⟨fresh_create, h0⟩ ?_
    rintro before target e hb ⟨hfr, hinv⟩
    obtain ⟨stored, hstd⟩ := htot e (hb.subset (by simp))
    obtain ⟨target', hcopy, hf', hcp⟩ := copyElem_effect hfr hstd
    exact ⟨target', hcopy, hf', hstep before target e target' hb hinv hcp⟩
  obtain ⟨target, hcopy, hfr, hinv⟩ := hfold
  obtain ⟨root, size, byteSize, attr⟩ := tree
  refine ⟨target, ?_, hfr, hinv⟩
  rw [← treeCopy_eq] at hcopy
  have hc' : treeCopy root { treeCreate with attr := ⟨false, false⟩ } = .ok target := hcopy
  rw [treeClone, hc']
  rfl

lemma copyOfVal_ofTree (kind : TreeKind) (tree : NpTree) :
    copyOfVal (ofTree kind tree) = (treeClone tree).map (ofTree kind) := by
  cases kind <;> rfl

lemma copyOfVal_plain {val stored : Treeval} (h : Plain val)
    (hcopy : copyOfVal val = .ok stored) : stored = val ∨ stored = .undefined := by
  cases val with
  | jrbTree | cwt | coseSigned | coseEncrypted => cases h.isTree_eq_false
  | undefined | floatArray2 | charArray8 | unsignedCharArray8 | npobj | npvalCount =>
    cases hcopy
    exact .inr rfl
  | _ =>
    cases hcopy
    exact .inl rfl

lemma copyOfVal_total : ∀ val, ∃ stored, copyOfVal val = .ok stored := by
  apply treeval_induction
  · intro val h
    cases val with
    | jrbTree | cwt | coseSigned | coseEncrypted => cases h.isTree_eq_false
    | _ => exact ⟨_, rfl⟩
  · intro kind tree ih
    obtain ⟨target, hclone, -⟩ :=
      clone_inv (fun _ _ => True) ih trivial (fun _ _ _ _ _ _ _ => trivial)
    exact ⟨_, by rw [copyOfVal_ofTree, hclone]; rfl⟩

lemma call_effect {s : State} (h : Fresh s.tree) (op : Op) :
    ∃ s', call s op = .ok s' ∧ Fresh s'.tree ∧ Effect s.tree op s'.tree := by
  cases op with
  | find key => exact ⟨_, rfl, h, .looked key⟩
  | insert key val =>
    obtain ⟨stored, hcopy⟩ := copyOfVal_total val
    obtain ⟨tree', hins, heff⟩ := treeInsert_effect h key hcopy
    exact ⟨{ s with tree := tree' }, by rw [call, hins]; rfl, heff⟩
  | replace key val =>
    obtain ⟨stored, hcopy⟩ := copyOfVal_total val
    obtain ⟨tree', hrep, heff⟩ := treeReplace_effect h key hcopy
    exact ⟨{ s with tree := tree' }, by rw [call, hrep]; rfl, heff⟩
  | del key =>
    obtain ⟨tree', hdel, heff⟩ := treeDel_effect h key
    exact ⟨{ s with tree := tree' }, by rw [call, hdel]; rfl, heff⟩

lemma run_fresh (ops : List Op) : ∃ s, run step (start false) ops = .ok s ∧ Fresh s.tree := by
  induction ops using reverseRecOn with
  | nil => exact ⟨_, rfl, fresh_create⟩
  | append_singleton before op ih =>
    obtain ⟨s, hs, hfr⟩ := ih
    obtain ⟨s', hcall, hfr', -⟩ := call_effect hfr op
    exact ⟨s', by rw [run_concat, hs]; exact hcall, hfr'⟩

lemma two_pow_le {κ ν : Type} {t : Node κ ν} {c : Color} {n : ℕ} (h : Balanced t c n) :
    2 ^ n ≤ (entries t).length + 1 := by
  induction h with
  | nil => exact le_rfl
  | red _ _ ihl ihr | black _ _ ihl ihr =>
    rw [entries, length_append, length_cons]
    omega

/-- After any calls, a lookup passes at most 2 log (n + 1) of the n elements. -/
theorem lookup_logarithmic (ops : List Op) (key : Key) :
    ∃ s, run step (start false) ops = .ok s ∧ (search elemCmp key [] s.tree.root).1.length ≤
      2 * ((entries s.tree.root).length + 1).log2 := by
  obtain ⟨s, hs, hfr⟩ := run_fresh ops
  obtain ⟨n, hbal⟩ := hfr.valid
  have hn : n ≤ _ := (Nat.le_log2 (by simp)).2 (two_pow_le hbal)
  have hlen := hbal.search_le elemCmp key []
  refine ⟨s, hs, ?_⟩
  simp only [length_nil, reduceCtorEq, if_false] at hlen
  omega

end Neuropil.Tree.Effects
