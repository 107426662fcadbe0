import Neuropil.Lib.Run
import Neuropil.Tree.KeyOrder
import Neuropil.Tree.Operations
import Neuropil.Tree.Ordered

namespace Neuropil.Tree.MapRuns

open Function Lib.Run Tree.RedBlack Tree.Removal Tree.Values Tree.Operations Tree.Ordered

inductive TreeKind
  | jrbTree
  | cwt
  | coseSigned
  | coseEncrypted

/-- What a value says, without the shape a tree inside it happens to have. -/
inductive Content
  | plain (val : Treeval)
  | tree (kind : TreeKind) (contents : List (Key × Content))

mutual

def content : Treeval → Content
  | .jrbTree tree => .tree .jrbTree (treeContents tree)
  | .cwt tree => .tree .cwt (treeContents tree)
  | .coseSigned tree => .tree .coseSigned (treeContents tree)
  | .coseEncrypted tree => .tree .coseEncrypted (treeContents tree)
  | val => .plain val

def treeContents : TreeOf Treeval → List (Key × Content)
  | ⟨root, _, _, _⟩ => nodeContents root

def nodeContents : Node Key Treeval → List (Key × Content)
  | .nil => []
  | .node _ left key val right =>
    nodeContents left ++ (key, content val) :: nodeContents right

end

inductive Op
  | find (key : Key)
  | insert (key : Key) (val : Treeval)
  | replace (key : Key) (val : Treeval)
  | del (key : Key)

def Op.key : Op → Key
  | .find key => key
  | .insert key _ => key
  | .replace key _ => key
  | .del key => key

structure State where
  tree : NpTree
  found : List (Option Treeval)

def call (s : State) : Op → Except Fault State
  | .find key => .ok { s with found := s.found ++ [treeFind s.tree key] }
  | .insert key val => (treeInsert s.tree key val).map (fun tree => { s with tree })
  | .replace key val => (treeReplace s.tree key val).map (fun tree => { s with tree })
  | .del key => (treeDel s.tree key).map (fun tree => { s with tree })

def step (r : Except Fault State) (op : Op) : Except Fault State := r >>= fun s => call s op

def start (inPlace : Bool) : Except Fault State :=
  .ok ⟨{ treeCreate with attr := ⟨inPlace, false⟩ }, []⟩

structure MapState where
  map : Key → Option Content
  found : List (Option Content)

def mapStep (s : MapState) : Op → MapState
  | .find key => { s with found := s.found ++ [s.map key] }
  | .insert key val =>
    if (s.map key).isSome then s
    else { s with map := update s.map key (some (content val)) }
  | .replace key val => { s with map := update s.map key (some (content val)) }
  | .del key => { s with map := update s.map key none }

def mapAfter (ops : List Op) : MapState := run mapStep ⟨fun _ => none, []⟩ ops

def Kept (tree : NpTree) (val : Treeval) : Prop :=
  ∃ stored, treeSetTreeval tree val = .ok stored ∧ content stored = content val

/-- The comparisons on the way to the key have the sign of the order, a key to be stored is stored
whole and a value to be stored is kept. -/
def Sane (tree : NpTree) (op : Op) : Prop :=
  Agrees elemCmp op.key tree.root ∧
    match op with
    | .insert key val | .replace key val => storedKey tree.attr key = key ∧ Kept tree val
    | _ => True

def Condition : Except Fault State → Op → Prop
  | .ok s, op => Sane s.tree op
  | .error _, _ => True

/-- The tree holds the map, with one element for each of its keys. -/
structure HoldsMap (tree : NpTree) (map : Key → Option Content) : Prop where
  contents : ∃ m : Key → Option Treeval, Represents tree.root m ∧
    ∀ key, (m key).map content = map key
  size_eq : tree.size = (entries tree.root).length
  mutable : tree.attr.immutable = false

variable {tree : NpTree} {map : Key → Option Content}

lemma HoldsMap.size (h : HoldsMap tree map) : tree.size = {key | map key ≠ none}.ncard := by
  obtain ⟨m, hr, hm⟩ := h.contents
  rw [h.size_eq, hr.length_eq]
  congr 1
  ext key
  simp [← hm]

lemma map_update {m : Key → Option Treeval} (hm : ∀ key, (m key).map content = map key)
    (key : Key) (val : Option Treeval) (key' : Key) :
    (update m key val key').map content = update map key (val.map content) key' := by
  by_cases hk : key' = key
  · subst hk
    simp
  · simp [update_of_ne hk, hm]

variable {val : Treeval}

section

variable {key : Key} (h : HoldsMap tree map) (ha : Agrees elemCmp key tree.root)
include h ha

lemma HoldsMap.find : (treeFind tree key).map content = map key := by
  obtain ⟨m, hr, hm⟩ := h.contents
  rw [← hm, ← hr.find ha]
  rfl

lemma HoldsMap.elem_isSome : (treeFindElem tree key).isSome = (map key).isSome := by
  rw [← h.find ha]
  simp [treeFind]

lemma HoldsMap.insert_absent (hkey : storedKey tree.attr key = key)
    (hkept : Kept tree val) (hf : treeFindElem tree key = none) :
    ∃ tree', treeInsert tree key val = .ok tree' ∧
      HoldsMap tree' (update map key (some (content val))) := by
  obtain ⟨stored, hset, hcon⟩ := hkept
  obtain ⟨m, hr, hm⟩ := h.contents
  obtain ⟨root, hroot, hr', hlen⟩ := hr.insert ha hf stored
  refine ⟨_, treeInsert_absent hf hset h.mutable (by rwa [hkey]), ⟨⟨_, hr', ?_⟩, ?_, h.mutable⟩⟩
  · intro key'
    rw [map_update hm, Option.map_some, hcon]
  · rw [hlen, h.size_eq]

variable {f : Found Key Treeval}

lemma HoldsMap.replace_found (hkept : Kept tree val) (hf : treeFindElem tree key = some f) :
    ∃ tree', treeReplace tree key val = .ok tree' ∧
      HoldsMap tree' (update map key (some (content val))) := by
  obtain ⟨stored, hset, hcon⟩ := hkept
  obtain ⟨m, hr, hm⟩ := h.contents
  obtain ⟨hr', hlen⟩ := hr.write ha hf stored
  refine ⟨_, treeReplace_found hf hset h.mutable, ⟨⟨_, hr', ?_⟩, ?_, h.mutable⟩⟩
  · intro key'
    rw [map_update hm, Option.map_some, hcon]
  · rw [hlen, h.size_eq]

lemma HoldsMap.del_found (hf : treeFindElem tree key = some f) :
    ∃ tree', treeDel tree key = .ok tree' ∧ HoldsMap tree' (update map key none) := by
  obtain ⟨m, hr, hm⟩ := h.contents
  obtain ⟨root, hroot, hr', hlen⟩ := hr.remove ha hf
  refine ⟨_, treeDel_found hf h.mutable hroot, ⟨⟨_, hr', ?_⟩, ?_, h.mutable⟩⟩
  · intro key'
    rw [map_update hm, Option.map_none]
  · rw [hlen, h.size_eq]

end

structure Follows (s : State) (m : MapState) : Prop where
  holds : HoldsMap s.tree m.map
  found : s.found.map (Option.map content) = m.found

lemma call_follows {s : State} {m : MapState} {op : Op} (h : Follows s m)
    (hs : Sane s.tree op) : ∃ s', call s op = .ok s' ∧ Follows s' (mapStep m op) := by
  obtain ⟨ha, hop⟩ := hs
  cases op with
  | find key =>
    replace ha : Agrees elemCmp key s.tree.root := ha
    refine ⟨_, rfl, h.holds, ?_⟩
    simp only [mapStep, List.map_append, List.map_cons, List.map_nil, h.found, h.holds.find ha]
  | insert key val =>
    replace ha : Agrees elemCmp key s.tree.root := ha
    obtain ⟨hkey, hkept⟩ := hop
    have hsome := h.holds.elem_isSome ha
    cases hf : treeFindElem s.tree key with
    | some f =>
      rw [hf] at hsome
      refine ⟨s, ?_, ?_⟩
      · simp only [call, treeInsert, hf]
        rfl
      · rw [mapStep, if_pos (by rw [← hsome]; rfl)]
        exact h
    | none =>
      rw [hf] at hsome
      obtain ⟨tree', hins, hh⟩ := h.holds.insert_absent ha hkey hkept hf
      refine ⟨{ s with tree := tree' }, by rw [call, hins]; rfl, ?_⟩
      rw [mapStep, if_neg (by rw [← hsome]; simp)]
      exact ⟨hh, h.found⟩
  | replace key val =>
    replace ha : Agrees elemCmp key s.tree.root := ha
    obtain ⟨hkey, hkept⟩ := hop
    cases hf : treeFindElem s.tree key with
    | some f =>
      obtain ⟨tree', hrep, hh⟩ := h.holds.replace_found ha hkept hf
      exact ⟨{ s with tree := tree' }, by rw [call, hrep]; rfl, hh, h.found⟩
    | none =>
      obtain ⟨tree', hins, hh⟩ := h.holds.insert_absent ha hkey hkept hf
      refine ⟨{ s with tree := tree' }, ?_, hh, h.found⟩
      rw [call, treeReplace, hf, hins]
      rfl
  | del key =>
    replace ha : Agrees elemCmp key s.tree.root := ha
    cases hf : treeFindElem s.tree key with
    | some f =>
      obtain ⟨tree', hdel, hh⟩ := h.holds.del_found ha hf
      exact ⟨{ s with tree := tree' }, by rw [call, hdel]; rfl, hh, h.found⟩
    | none =>
      refine ⟨s, ?_, ?_, h.found⟩
      · rw [call, treeDel_absent hf h.holds.mutable]
        rfl
      · have hsome := h.holds.elem_isSome ha
        rw [hf] at hsome
        have hnone : m.map key = none := by simpa using hsome.symm
        rw [mapStep, ← hnone, update_eq_self]
        exact h.holds

lemma follows_start (inPlace : Bool) :
    Follows ⟨{ treeCreate with attr := ⟨inPlace, false⟩ }, []⟩ ⟨fun _ => none, []⟩ :=
  ⟨⟨⟨fun _ => none, represents_nil, fun _ => rfl⟩, rfl, rfl⟩, rfl⟩

def Reached (before : List Op) (r : Except Fault State) : Prop :=
  ∃ s, r = .ok s ∧ Follows s (mapAfter before)

lemma reached_start (inPlace : Bool) : Reached [] (start inPlace) :=
  ⟨_, rfl, follows_start inPlace⟩

lemma step_reached (before : List Op) (r : Except Fault State) (op : Op) (h : Reached before r)
    (hcond : Condition r op) : Reached (before ++ [op]) (step r op) := by
  obtain ⟨s, rfl, hf⟩ := h
  obtain ⟨s', hcall, hf'⟩ := call_follows hf hcond
  refine ⟨s', hcall, ?_⟩
  rw [mapAfter, run_concat]
  exact hf'

/-- In every sequence of calls in which all comparisons have the sign of the order and keys and
values are stored whole, the tree behaves as the map does. -/
theorem tree_behaves_as_map (inPlace : Bool) (ops : List Op)
    (hops : Admitted step (start inPlace) Condition ops) :
    ∃ s, run step (start inPlace) ops = .ok s ∧
      s.found.map (Option.map content) = (mapAfter ops).found ∧
      s.tree.size = {key | (mapAfter ops).map key ≠ none}.ncard := by
  obtain ⟨s, hs, hf⟩ := run_inv _ (reached_start inPlace) step_reached ops hops
  exact ⟨s, hs, hf.found, hf.holds.size⟩

def nameKey (c : UInt8) (hc : 0 ≠ c) : Key := .str ⟨[c], by simpa using hc, by simp⟩

def sampleOps : List Op :=
  [.insert (.int 5) (.long 1), .insert (nameKey 98 (by decide)) (.long 2),
    .insert (nameKey 98 (by decide)) (.long 3), .replace (nameKey 97 (by decide)) (.char 4),
    .find (nameKey 98 (by decide)), .del (nameKey 97 (by decide)), .find (nameKey 97 (by decide))]

lemma kept_plain {tree : NpTree} (h : copyOfVal val = .ok val) : Kept tree val := by
  refine ⟨val, ?_, rfl⟩
  rw [treeSetTreeval, h]
  split <;> rfl

lemma sampleOps_admitted : Admitted step (start false) Condition sampleOps := by
  simp only [sampleOps, admitted_cons_iff]
  refine ⟨⟨by decide, by decide, kept_plain rfl⟩, ⟨by decide, by decide, kept_plain rfl⟩,
    ⟨by decide, by decide, kept_plain rfl⟩, ⟨by decide, by decide, kept_plain rfl⟩,
    ⟨by decide, trivial⟩, ⟨by decide, trivial⟩, ⟨by decide, trivial⟩, ?_⟩
  intro before a h
  simp at h

theorem sample_tree_behaves_as_map :
    ∃ s, run step (start false) sampleOps = .ok s ∧
      s.found.map (Option.map content) = (mapAfter sampleOps).found ∧
      s.tree.size = {key | (mapAfter sampleOps).map key ≠ none}.ncard :=
  tree_behaves_as_map false sampleOps sampleOps_admitted

/-- A number that was never stored is found where a string is. -/
theorem int_finds_string :
    ∃ s, run step (start false) [.insert (nameKey 97 (by decide)) (.long 1), .find (.int 5)] =
      .ok s ∧ s.found = [some (.long 1)] ∧
      (mapAfter [.insert (nameKey 97 (by decide)) (.long 1), .find (.int 5)]).found = [none] :=
  ⟨_, rfl, rfl, rfl⟩

end Neuropil.Tree.MapRuns
