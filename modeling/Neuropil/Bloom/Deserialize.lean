import Neuropil.Bloom.Filter
import Neuropil.Tree.Read

namespace Neuropil.Bloom.Deserialize

open Lib.Buffer Lib.Fault Bloom.Filter Tree.RedBlack Tree.Removal Tree.Values Tree.Operations
  Tree.Ordered Tree.Effects Tree.Read

inductive DecodeFault
  | decode (e : ReadError)
  | tree (f : Fault)
  | noFreeItems
  | position
  | outOfBounds

-- `raw` stands for the first two words of the values that are read through another member of the
-- union than the one they were written to.
variable (raw : Treeval → UInt16 × UInt16)

def wordsOf : Treeval → UInt16 × UInt16
  | .int i => (i.toUInt16, (raw (.int i)).2)
  | .unsignedInt ui => (ui, (raw (.unsignedInt ui)).2)
  | .uintArray2 a b => (a, b)
  | val => raw val

def positionOf (key : Key) : ℕ := (wordsOf raw key.toTreeval).1.toNat

def setByte (pos : ℕ) (b : UInt8) (bitset : Fin 1020 → Cell) : Fin 1020 → Cell := fun c =>
  if c.val = pos / 2 then
    if pos % 2 = 0 then { bitset c with age := b } else { bitset c with count := b }
  else bitset c

def putCell (bitset : Fin 1020 → Cell) (e : Key × Treeval) : Fin 1020 → Cell :=
  let pos := positionOf raw e.1
  let words := wordsOf raw e.2
  setByte (pos + 1) words.2.toUInt8 (setByte pos words.1.toUInt8 bitset)

/-- One round of the loop of _np_neuropil_bloom_deserialize. The assertion admits the last byte of
the array as a first one. -/
def readCell (bitset : Fin 1020 → Cell) (e : Key × Treeval) :
    Except DecodeFault (Fin 1020 → Cell) :=
  if positionOf raw e.1 < 2040 then
    if positionOf raw e.1 + 1 < 2040 then .ok (putCell raw bitset e) else .error .outOfBounds
  else .error .position

def readFilter (data : NpTree) : Except DecodeFault NeuropilBloom :=
  match treeFind data (.int (-1)) with
  | none => .error .noFreeItems
  | some val => do
    let data ← (treeDel data (.int (-1))).mapError .tree
    let bitset ← (entries data.root).foldlM (readCell raw) create.bitset
    .ok ⟨(wordsOf raw val).1.toNat, bitset⟩

/-- _np_neuropil_bloom_deserialize; the fuel bounds the nesting of the tree. -/
def deserialize (fuel : ℕ) (input : Bytes) : Except DecodeFault NeuropilBloom := do
  let data ← (readMap fuel treeCreate input).mapError .decode
  readFilter raw data

def others (f : Found Key Treeval) : List (Key × Treeval) :=
  (before f.path ++ entries f.left) ++ (entries f.right ++ after f.path)

def sentFilter (f : Found Key Treeval) : NeuropilBloom :=
  ⟨(wordsOf raw f.val).1.toNat, (others f).foldl (putCell raw) create.bitset⟩

def InArray (f : Found Key Treeval) : Prop := ∀ e ∈ others f, positionOf raw e.1 + 1 < 2040

lemma readCells_eq_ok_iff (items : List (Key × Treeval)) (bitset bitset' : Fin 1020 → Cell) :
    items.foldlM (readCell raw) bitset = .ok bitset' ↔
      (∀ e ∈ items, positionOf raw e.1 + 1 < 2040) ∧
        items.foldl (putCell raw) bitset = bitset' := by
  induction items generalizing bitset with
  | nil => simp [pure, Except.pure]
  | cons e items ih =>
    rw [List.foldlM_cons, List.forall_mem_cons, List.foldl_cons, readCell]
    split_ifs with hpos hin
    · rw [ok_bind, ih]
      simp [hin]
    · exact iff_of_false (by rintro ⟨⟩) (fun h => hin h.1.1)
    · exact iff_of_false (by rintro ⟨⟩) (fun h => hpos (Nat.lt_of_succ_lt h.1.1))

lemma readFilter_eq_ok_iff {data : NpTree} (h : Fresh data) (bloom : NeuropilBloom) :
    readFilter raw data = .ok bloom ↔
      ∃ f, treeFindElem data (.int (-1)) = some f ∧ InArray raw f ∧ sentFilter raw f = bloom := by
  cases hf : treeFindElem data (.int (-1)) with
  | none => simp [readFilter, treeFind, hf]
  | some f =>
    obtain ⟨root, hroot, -, he⟩ := remove_spec h.valid hf
    have hdel := treeDel_found hf h.mutable hroot
    have hread : readFilter raw data = (others f).foldlM (readCell raw) create.bitset >>=
        fun bitset => .ok ⟨(wordsOf raw f.val).1.toNat, bitset⟩ := by
      simp only [readFilter, treeFind, hf, Option.map_some, hdel]
      change (entries root).foldlM (readCell raw) create.bitset >>= _ = _
      rw [he]
      rfl
    rw [hread]
    constructor
    · intro hok
      obtain ⟨bitset, hcells, hok⟩ := bind_eq_ok hok
      cases hok
      obtain ⟨hin, rfl⟩ := (readCells_eq_ok_iff raw _ _ _).1 hcells
      exact ⟨f, rfl, hin, rfl⟩
    · rintro ⟨f', hf', hin, rfl⟩
      cases hf'
      rw [(readCells_eq_ok_iff raw _ _ _).2 ⟨hin, rfl⟩]
      rfl

end Neuropil.Bloom.Deserialize
