import Neuropil.Tree.Values

namespace Neuropil.Tree.Operations

open Lib.Fault Tree.RedBlack Tree.Values

def treeCreate : NpTree := ⟨.nil, 0, 0, ⟨false, false⟩⟩

def treeFindElem (tree : NpTree) (key : Key) : Option (Found Key Treeval) :=
  rbFind elemCmp key tree.root

def treeFind (tree : NpTree) (key : Key) : Option Treeval :=
  (treeFindElem tree key).map (fun found => found.val)

def treeInsertElement (tree : NpTree) (key : Key) (val : Treeval) : Except Fault NpTree :=
  if tree.attr.immutable then .error .immutable
  else do
    let root ← rbInsert elemCmp key val tree.root
    .ok { tree with
      root := root
      size := tree.size + 1
      byteSize := tree.byteSize + elementGetByteSize key val }

/-- The key of a new element: a tree that is not in place keeps 255 bytes of a string. -/
def storedKey (attr : TreeConf) : Key → Key
  | .str s => if attr.inPlace then .str s else .str (s.dup 255)
  | key => key

mutual

def copyOfVal : Treeval → Except Fault Treeval
  | .jrbTree tree => (treeClone tree).map .jrbTree
  | .cwt tree => (treeClone tree).map .cwt
  | .coseSigned tree => (treeClone tree).map .coseSigned
  | .coseEncrypted tree => (treeClone tree).map .coseEncrypted
  | .undefined => .ok .undefined
  | .floatArray2 _ _ => .ok .undefined
  | .charArray8 _ => .ok .undefined
  | .unsignedCharArray8 _ => .ok .undefined
  | .npobj _ => .ok .undefined
  | .npvalCount => .ok .undefined
  | .short sh => .ok (.short sh)
  | .int i => .ok (.int i)
  | .long l => .ok (.long l)
  | .longLong ll => .ok (.longLong ll)
  | .float f => .ok (.float f)
  | .double d => .ok (.double d)
  | .charPtr s => .ok (.charPtr s)
  | .specialCharPtr ush => .ok (.specialCharPtr ush)
  | .char c => .ok (.char c)
  | .unsignedChar uc => .ok (.unsignedChar uc)
  | .unsignedShort ush => .ok (.unsignedShort ush)
  | .unsignedInt ui => .ok (.unsignedInt ui)
  | .unsignedLong ul => .ok (.unsignedLong ul)
  | .unsignedLongLong ull => .ok (.unsignedLongLong ull)
  | .uintArray2 a b => .ok (.uintArray2 a b)
  | .bin b => .ok (.bin b)
  | .dhkey k => .ok (.dhkey k)
  | .uuid u => .ok (.uuid u)
  | .hash b => .ok (.hash b)
  | .void v => .ok (.void v)

def treeClone : TreeOf Treeval → Except Fault (TreeOf Treeval)
  | ⟨root, _, _, attr⟩ => do
    let ret ← treeCopy root { treeCreate with attr := ⟨false, false⟩ }
    .ok { ret with attr := ⟨false, attr.immutable⟩ }

/-- The loop of np_tree_copy into a tree that is not in place. No insert function takes a special
string. -/
def treeCopy : Node Key Treeval → NpTree → Except Fault NpTree
  | .nil, target => .ok target
  | .node _ left key val right, target => do
    let target ← treeCopy left target
    let target ← match key, treeFindElem target key with
      | .special _, _ => .ok target
      | _, some _ => .ok target
      | key, none => do
        let val ← copyOfVal val
        treeInsertElement target (storedKey target.attr key) val
    treeCopy right target

end

section

variable (tree : NpTree)

def treeSetTreeval (val : Treeval) : Except Fault Treeval :=
  if tree.attr.inPlace then .ok val else copyOfVal val

/-- np_tree_insert_str, _int, _ulong, _dbl, _dhkey and _uuid, which differ in the key they build. -/
def treeInsert (key : Key) (val : Treeval) : Except Fault NpTree :=
  match treeFindElem tree key with
  | some _ => .ok tree
  | none => do
    let val ← treeSetTreeval tree val
    treeInsertElement tree (storedKey tree.attr key) val

def treeReplaceTreeval (element : Found Key Treeval) (val : Treeval) : Except Fault NpTree :=
  if tree.attr.immutable then .error .immutable
  else do
    let byteSize := tree.byteSize - elementGetByteSize element.key element.val
    let val ← treeSetTreeval tree val
    .ok { tree with
      root := element.write val
      byteSize := byteSize + elementGetByteSize element.key val }

def treeReplace (key : Key) (val : Treeval) : Except Fault NpTree :=
  match treeFindElem tree key with
  | none => treeInsert tree key val
  | some element => treeReplaceTreeval tree element val

def treeDelElement (element : Found Key Treeval) : Except Fault NpTree := do
  let root ← rbRemove element
  .ok { tree with
    root := root
    byteSize := tree.byteSize - elementGetByteSize element.key element.val
    size := tree.size - 1 }

def treeDel (key : Key) : Except Fault NpTree :=
  if tree.attr.immutable then .error .immutable
  else match treeFindElem tree key with
  | none => .ok tree
  | some element => treeDelElement tree element

end

variable {tree : NpTree} {key : Key} {val stored : Treeval} {root : Node Key Treeval}
  {element : Found Key Treeval}

lemma treeInsert_absent (hf : treeFindElem tree key = none)
    (hset : treeSetTreeval tree val = .ok stored) (hmut : tree.attr.immutable = false)
    (hroot : rbInsert elemCmp (storedKey tree.attr key) stored tree.root = .ok root) :
    treeInsert tree key val = .ok ⟨root, tree.size + 1,
      tree.byteSize + elementGetByteSize (storedKey tree.attr key) stored, tree.attr⟩ := by
  simp only [treeInsert, hf, hset, ok_bind, treeInsertElement, hmut, hroot]
  rfl

lemma treeReplace_found (hf : treeFindElem tree key = some element)
    (hset : treeSetTreeval tree val = .ok stored) (hmut : tree.attr.immutable = false) :
    treeReplace tree key val = .ok ⟨element.write stored, tree.size,
      tree.byteSize - elementGetByteSize element.key element.val +
        elementGetByteSize element.key stored, tree.attr⟩ := by
  simp only [treeReplace, hf, treeReplaceTreeval, hmut, hset]
  rfl

lemma treeDel_found (hf : treeFindElem tree key = some element)
    (hmut : tree.attr.immutable = false) (hroot : rbRemove element = .ok root) :
    treeDel tree key = .ok ⟨root, tree.size - 1,
      tree.byteSize - elementGetByteSize element.key element.val, tree.attr⟩ := by
  simp only [treeDel, hmut, hf, treeDelElement, hroot]
  rfl

lemma treeDel_absent (hf : treeFindElem tree key = none)
    (hmut : tree.attr.immutable = false) : treeDel tree key = .ok tree := by
  simp only [treeDel, hmut, hf]
  rfl

end Neuropil.Tree.Operations
