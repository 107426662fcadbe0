import Mathlib.Data.List.FinRange
import Neuropil.Lib.Buffer
import Neuropil.Lib.Fault
import Neuropil.Lib.Radix

namespace Neuropil.Cupidtrie.Invariant

open Function List Lib.Buffer Lib.Fault Lib.Radix

section

inductive Fault
  -- the key of a cell that was never used
  | nullKey
  | outOfBounds
  -- __builtin_ctz of a mask without bits
  | emptyMask
  | useAfterFree
  -- the branch before the root
  | noBranch
  | assertion
deriving DecidableEq, Repr

@[ext]
structure Key (len : ℕ) where
  bytes : Bytes
  length_eq : bytes.length = len

variable {len : ℕ}

instance : DecidableEq (Key len) := fun _ _ => decidable_of_iff _ Key.ext_iff.symm

/-- A cell of the trie. The mask tells which of the 16 cells of a branch are in use; a branch
without any is freed, but the cell that points to its array stays. -/
inductive Cell (len : ℕ)
  | empty
  | leaf (key : Key len) (data : UInt64)
  | branch (shift : ℕ) (mask : BitVec 16) (cells : Fin 16 → Cell len)
  | freed (shift : ℕ)

abbrev Path := List (Fin 16)

def nibbleOf (b : UInt8) (shift : ℕ) : Fin 16 :=
  Fin.ofNat 16 (((b.toNat <<< (shift % 2 * 4)) &&& 0xF0) >>> 4)

def nibble (key : Key len) (shift : ℕ) : Except Fault (Fin 16) :=
  match key.bytes[shift / 2]? with
  | some b => .ok (nibbleOf b shift)
  | none => .error .outOfBounds

def maskOf (x : Fin 16) : BitVec 16 := BitVec.twoPow 16 x

variable (mask : BitVec 16)

def hasNext (x : Fin 16) : Bool := mask &&& maskOf x == maskOf x

def ctz : Except Fault (Fin 16) :=
  match (finRange 16).find? (hasNext mask) with
  | some x => .ok x
  | none => .error .emptyMask

def findQpe (key : Key len) : Cell len → Except Fault (Option UInt64)
  | .empty => .error .nullKey
  | .leaf k data => .ok (if k = key then some data else none)
  | .freed shift => do
    let _ ← nibble key shift
    return none
  | .branch shift mask cells => do
    let x ← nibble key shift
    if hasNext mask x then findQpe key (cells x) else return none

/-- The leaf that the first loop of an insert comes to, and the branch that the second one is to
start from. -/
structure Similar (len : ℕ) where
  leaf : Path
  key : Key len
  insBranch : Path × Cell len

def mostSimilar (new : Key len) : Cell len → (updateShift : Bool) → (here : Path) →
    (insBranch : Path × Cell len) → Except Fault (Similar len)
  | .empty, _, _, _ => .error .nullKey
  | .leaf k _, _, here, insBranch => .ok ⟨here, k, insBranch⟩
  | .freed _, _, _, _ => .error .emptyMask
  | .branch shift mask cells, updateShift, here, insBranch => do
    let x0 ← nibble new shift
    let s ← ctz mask
    if updateShift && hasNext mask x0 then
      mostSimilar new (cells x0) true (here ++ [x0]) (here, .branch shift mask cells)
    else mostSimilar new (cells s) false (here ++ [s]) insBranch

def leadingZeros (b : UInt8) : ℕ := 7 - Nat.log2 b.toNat

/-- The number of bits that the keys have in common, unless they are the same. -/
def differ : Bytes → Bytes → (shfBits : UInt16) → Except Fault (Option UInt16)
  | a :: new, b :: old, shfBits =>
    if a ^^^ b = 0 then
      if new = [] then .ok none else differ new old (shfBits + 8)
    else .ok (some (shfBits + UInt16.ofNat (leadingZeros (a ^^^ b))))
  | _, _, _ => .error .outOfBounds

inductive Spot
  | newBranch (here : Path)
  | growBranch (here : Path)

def place (new : Key len) (shf : ℕ) (x1 : Fin 16) : Cell len → (here : Path) → Except Fault Spot
  | .branch shift mask cells, here =>
    if shf = shift then
      if hasNext mask x1 then .error .assertion else .ok (.growBranch here)
    else if shf < shift then .ok (.newBranch here)
    else do
      let x ← nibble new shift
      place new shf x1 (cells x) (here ++ [x])
  | .freed shift, here => if shf < shift then .ok (.newBranch here) else .error .useAfterFree
  | .leaf _ _, here | .empty, here => .ok (.newBranch here)

def modifyAt (f : Cell len → Cell len) : Path → Cell len → Cell len
  | [], c => f c
  | x :: path, .branch shift mask cells =>
    .branch shift mask (update cells x (modifyAt f path (cells x)))
  | _ :: _, c => c

def newBranch (shf : ℕ) (x1 x2 : Fin 16) (new : Key len) (old : Cell len) : Cell len :=
  .branch shf (maskOf x1 ||| maskOf x2) (update (update (fun _ => .empty) x2 old) x1 (.leaf new 0))

def growBranch (x1 : Fin 16) (new : Key len) : Cell len → Cell len
  | .branch shift mask cells =>
    .branch shift (mask ||| maskOf x1) (update cells x1 (.leaf new 0))
  | c => c

variable (tree : Option (Cell len))

/-- __insert_qpe, with the pointer to the leaf whose data the caller may set. -/
def insertQpe (new : Key len) : Except Fault (Cell len × Path) :=
  match tree with
  | none => .ok (.leaf new 0, [])
  | some root => do
    let found ← mostSimilar new root true [] ([], root)
    match ← differ new.bytes found.key.bytes 0 with
    | none => return (root, found.leaf)
    | some shfBits =>
      let shf := shfBits.toNat >>> 2
      let x1 ← nibble new shf
      match ← place new shf x1 found.insBranch.2 found.insBranch.1 with
      | .newBranch here =>
        let x2 ← nibble found.key shf
        return (modifyAt (newBranch shf x1 x2 new) here root, here ++ [x1])
      | .growBranch here => return (modifyAt (growBranch x1 new) here root, here ++ [x1])

/-- What deleting a key does to a cell: nothing, it is the leaf itself, or a changed branch. -/
inductive Deleted (len : ℕ)
  | failed
  | self
  | changed (cell : Cell len)

/-- A branch with a new mask, whose array is freed once it is not used any more. -/
def close (shift : ℕ) (mask : BitVec 16) (cells : Fin 16 → Cell len) : Cell len :=
  if mask = 0 then .freed shift else .branch shift mask cells

def Cell.isFreed : Cell len → Bool
  | .freed _ => true
  | _ => false

/-- The loops of __delete_qpe; the branches on the way are those of the recursion. -/
def deleteBelow (key : Key len) : Cell len → Except Fault (Deleted len)
  | .empty => .error .nullKey
  | .leaf k _ => .ok (if k = key then .self else .failed)
  | .freed shift => do
    let _ ← nibble key shift
    return .failed
  | .branch shift mask cells => do
    let x ← nibble key shift
    if hasNext mask x then
      match ← deleteBelow key (cells x) with
      | .failed => return .failed
      | .self => return .changed (close shift (mask ^^^ maskOf x) cells)
      | .changed child =>
        if child.isFreed then
          return .changed (close shift (mask ^^^ maskOf x) (update cells x child))
        else return .changed (.branch shift mask (update cells x child))
    else return .failed

def deleteQpe (key : Key len) : Except Fault (Option (Cell len)) :=
  match tree with
  | none => .ok none
  | some root => do
    match ← deleteBelow key root with
    | .failed => return some root
    -- the leaf is not below any branch
    | .self => .error .noBranch
    | .changed root => return some root

def cupidtrieFind (key : Key len) : Except Fault (Option UInt64) :=
  match tree with
  | none => .ok none
  | some root => findQpe key root

def storeData (write : UInt64 → UInt64) : Cell len → Cell len
  | .leaf key data => .leaf key (write data)
  | c => c

/-- The calls; a caller sets the data of the leaf that an insert has returned. -/
inductive Op (len : ℕ)
  | insert (key : Key len) (write : UInt64 → UInt64)
  | delete (key : Key len)
  | find (key : Key len)

def call : Op len → Except Fault (Option (Cell len))
  | .insert key write => do
    let (root, out) ← insertQpe tree key
    return some (modifyAt (storeData write) out root)
  | .delete key => deleteQpe tree key
  | .find key => do
    let _ ← cupidtrieFind tree key
    return tree

def step (s : Except Fault (Option (Cell len))) (op : Op len) : Except Fault (Option (Cell len)) :=
  s.bind fun tree => call tree op

def entries : Cell len → List (Key len × UInt64)
  | .leaf key data => [(key, data)]
  | .branch _ mask cells =>
    (finRange 16).flatMap fun x => if hasNext mask x then entries (cells x) else []
  | .empty | .freed _ => []

def digit (key : Key len) (i : ℕ) : Fin 16 := nibbleOf (key.bytes.getD (i / 2) 0) i

lemma nibble_eq (key : Key len) {i : ℕ} (h : i < 2 * len) : nibble key i = .ok (digit key i) := by
  have hi : i / 2 < key.bytes.length := by
    rw [key.length_eq]
    omega
  rw [nibble, digit, getElem?_eq_getElem hi, getD_eq_getElem?_getD,
    getElem?_eq_getElem hi, Option.getD_some]

lemma getLsbD_maskOf (x y : Fin 16) : (maskOf y).getLsbD x = decide (x = y) := by
  rw [maskOf, BitVec.getLsbD_twoPow, decide_eq_true y.isLt, Bool.true_and]
  exact decide_eq_decide.2 ⟨fun h => Fin.ext h.symm, fun h => h ▸ rfl⟩

lemma hasNext_eq (x : Fin 16) : hasNext mask x = mask.getLsbD x := by
  rw [hasNext, Bool.eq_iff_iff, beq_iff_eq]
  constructor
  · intro h
    have hbit := congrArg (fun m => m.getLsbD x) h
    simpa [getLsbD_maskOf] using hbit
  · intro h
    refine BitVec.eq_of_getLsbD_eq fun i hi => ?_
    have hbit := getLsbD_maskOf ⟨i, hi⟩ x
    rw [BitVec.getLsbD_and]
    by_cases hx : (⟨i, hi⟩ : Fin 16) = x
    · subst hx
      rw [h, Bool.true_and]
    · rw [decide_eq_false hx] at hbit
      rw [hbit, Bool.and_false]

lemma hasNext_or (x y : Fin 16) :
    hasNext (mask ||| maskOf y) x = (hasNext mask x || decide (x = y)) := by
  rw [hasNext_eq, hasNext_eq, BitVec.getLsbD_or, getLsbD_maskOf]

lemma hasNext_maskOf (x y : Fin 16) : hasNext (maskOf y) x = decide (x = y) := by
  rw [hasNext_eq, getLsbD_maskOf]

lemma hasNext_xor {mask : BitVec 16} {y : Fin 16} (h : hasNext mask y = true) (x : Fin 16) :
    hasNext (mask ^^^ maskOf y) x = (hasNext mask x && decide (x ≠ y)) := by
  rw [hasNext_eq] at h
  rw [hasNext_eq, hasNext_eq, BitVec.getLsbD_xor, getLsbD_maskOf]
  by_cases hx : x = y
  · simp [hx, h]
  · simp [hx]

lemma eq_zero_iff : mask = 0 ↔ ∀ x, hasNext mask x = false := by
  constructor
  · rintro rfl x
    rw [hasNext_eq]
    exact BitVec.getLsbD_zero
  · intro h
    refine BitVec.eq_of_getLsbD_eq fun i hi => ?_
    have hbit := h ⟨i, hi⟩
    rw [hasNext_eq] at hbit
    exact hbit.trans BitVec.getLsbD_zero.symm

lemma exists_ctz {mask : BitVec 16} (h : mask ≠ 0) :
    ∃ x, ctz mask = .ok x ∧ hasNext mask x = true := by
  unfold ctz
  split
  · rename_i x hx
    exact ⟨x, rfl, find?_some hx⟩
  · rename_i hx
    refine absurd ((eq_zero_iff mask).2 fun x => ?_) h
    exact Bool.eq_false_iff.2 (find?_eq_none.1 hx x (mem_finRange x))

lemma mem_entries_branch {shift : ℕ} {mask : BitVec 16} {cells : Fin 16 → Cell len}
    {e : Key len × UInt64} : e ∈ entries (.branch shift mask cells) ↔
      ∃ x, hasNext mask x = true ∧ e ∈ entries (cells x) := by
  rw [entries, mem_flatMap]
  refine exists_congr fun x => ?_
  by_cases hx : hasNext mask x = true
  · simp [hx]
  · simp [hx]

end

variable {len : ℕ}

def keys (c : Cell len) : Set (Key len) := {k | ∃ data, (k, data) ∈ entries c}

def top : Cell len → ℕ
  | .branch shift _ _ | .freed shift => shift
  | .leaf _ _ | .empty => 2 * len

/-- The nibbles tested increase on the way down, and the keys below a branch agree up to the one
that it tests. -/
inductive Formed : Cell len → Prop
  | leaf (key : Key len) (data : UInt64) : Formed (.leaf key data)
  | branch {shift : ℕ} {mask : BitVec 16} {cells : Fin 16 → Cell len} (hshift : shift < 2 * len)
      (hmask : mask ≠ 0) (hcells : ∀ x, hasNext mask x = true → Formed (cells x))
      (hbelow : ∀ x, hasNext mask x = true → shift < top (cells x))
      (hdigit : ∀ x, hasNext mask x = true → ∀ k ∈ keys (cells x), digit k shift = x)
      (hagree : Coherent digit shift (keys (.branch shift mask cells))) :
      Formed (.branch shift mask cells)

section

variable {shift : ℕ} {mask : BitVec 16} {cells : Fin 16 → Cell len} {x : Fin 16} {c : Cell len}

lemma mem_keys_branch {k : Key len} :
    k ∈ keys (.branch shift mask cells) ↔ ∃ x, hasNext mask x = true ∧ k ∈ keys (cells x) := by
  constructor
  · rintro ⟨data, h⟩
    obtain ⟨x, hx, hmem⟩ := mem_entries_branch.1 h
    exact ⟨x, hx, data, hmem⟩
  · rintro ⟨x, hx, data, h⟩
    exact ⟨data, mem_entries_branch.2 ⟨x, hx, h⟩⟩

lemma keys_subset (hx : hasNext mask x = true) :
    keys (cells x) ⊆ keys (.branch shift mask cells) :=
  fun _ hk => mem_keys_branch.2 ⟨x, hx, hk⟩

lemma mem_keys_leaf {k key : Key len} {data : UInt64} : k ∈ keys (.leaf key data) ↔ k = key := by
  constructor
  · rintro ⟨_, h⟩
    exact (Prod.mk.inj (List.mem_singleton.1 h)).1
  · rintro rfl
    exact ⟨data, List.mem_singleton_self _⟩

lemma Formed.coherent (h : Formed c) : Coherent digit (top c) (keys c) := by
  cases h with
  | leaf key data =>
    intro a ha b hb
    rw [mem_keys_leaf.1 ha, mem_keys_leaf.1 hb]
    exact .refl _ key
  | branch _ _ _ _ _ hagree => exact hagree

lemma hasNext_of_mem
    (hdigit : ∀ x, hasNext mask x = true → ∀ k ∈ keys (cells x), digit k shift = x)
    {k : Key len} (hk : k ∈ keys (.branch shift mask cells)) :
    hasNext mask (digit k shift) = true ∧ k ∈ keys (cells (digit k shift)) := by
  obtain ⟨x, hx, hmem⟩ := mem_keys_branch.1 hk
  rw [hdigit x hx k hmem]
  exact ⟨hx, hmem⟩

end

section

variable {shift : ℕ} {mask mask' : BitVec 16} {cells : Fin 16 → Cell len} {x : Fin 16}
  {child : Cell len}

lemma mem_entries_update (hmask : ∀ y, hasNext mask' y = (hasNext mask y || decide (y = x)))
    {e : Key len × UInt64} : e ∈ entries (.branch shift mask' (Function.update cells x child)) ↔
      e ∈ entries child ∨ ∃ y, y ≠ x ∧ hasNext mask y = true ∧ e ∈ entries (cells y) := by
  rw [mem_entries_branch]
  constructor
  · rintro ⟨y, hy, he⟩
    by_cases hyx : y = x
    · subst hyx
      rw [update_self] at he
      exact .inl he
    · rw [update_of_ne hyx] at he
      rw [hmask, decide_eq_false hyx, Bool.or_false] at hy
      exact .inr ⟨y, hyx, hy, he⟩
  · rintro (he | ⟨y, hyx, hy, he⟩)
    · refine ⟨x, ?_, ?_⟩
      · rw [hmask, decide_eq_true rfl, Bool.or_true]
      · rwa [update_self]
    · refine ⟨y, ?_, ?_⟩
      · rw [hmask, hy, Bool.true_or]
      · rwa [update_of_ne hyx]

lemma Formed.update (h : Formed (.branch shift mask cells))
    (hmask : ∀ y, hasNext mask' y = (hasNext mask y || decide (y = x))) (hch : Formed child)
    (hbelow : shift < top child) (hdigit : ∀ k ∈ keys child, digit k shift = x)
    (hagree : ∀ k ∈ keys child, ∃ k' ∈ keys (.branch shift mask cells),
      AgreeBelow digit shift k k') :
    Formed (.branch shift mask' (Function.update cells x child)) := by
  cases h with
  | branch hshift _ hcells hb' hd' ha' =>
    -- the cells in use are the new one and the old ones
    have hcases : ∀ {P : Fin 16 → Cell len → Prop}, P x child →
        (∀ y, hasNext mask y = true → P y (cells y)) →
        ∀ y, hasNext mask' y = true → P y (Function.update cells x child y) := by
      intro P hx hold y hy
      by_cases hyx : y = x
      · subst hyx
        rwa [update_self]
      · rw [update_of_ne hyx]
        rw [hmask, decide_eq_false hyx, Bool.or_false] at hy
        exact hold y hy
    refine .branch hshift ?_ ?_ ?_ ?_ ?_
    · intro h0
      have hx := hmask x
      rw [(eq_zero_iff mask').1 h0 x, decide_eq_true rfl, Bool.or_true] at hx
      cases hx
    · exact hcases (P := fun _ c => Formed c) hch hcells
    · exact hcases (P := fun _ c => shift < top c) hbelow hb'
    · exact hcases (P := fun y c => ∀ k ∈ keys c, digit k shift = y) hdigit hd'
    · refine ha'.extend fun k hk => ?_
      obtain ⟨data, hk⟩ := hk
      obtain hk | ⟨y, _, hy, hk⟩ := (mem_entries_update hmask).1 hk
      · exact hagree k ⟨data, hk⟩
      · exact ⟨k, keys_subset hy ⟨data, hk⟩, .refl shift k⟩

lemma hasNext_same (hx : hasNext mask x = true) (y : Fin 16) :
    hasNext mask y = (hasNext mask y || decide (y = x)) := by
  by_cases hyx : y = x
  · rw [hyx, hx, Bool.true_or]
  · rw [decide_eq_false hyx, Bool.or_false]

end

section

variable {c : Cell len} {key : Key len}

lemma findQpe_spec (h : Formed c) :
    ∃ found, findQpe key c = .ok found ∧ ∀ data, found = some data ↔ (key, data) ∈ entries c := by
  induction h with
  | leaf k data =>
    refine ⟨_, rfl, fun data' => ?_⟩
    by_cases hk : k = key
    · simp [entries, eq_comm]
    · have hne : key ≠ k := fun h => hk h.symm
      simp [entries, hk, hne]
  | @branch shift mask cells hshift hmask hcells hbelow hdigit hagree ih =>
    by_cases hx : hasNext mask (digit key shift) = true
    · obtain ⟨found, hfind, hfnd⟩ := ih _ hx
      refine ⟨found, ?_, fun data => (hfnd data).trans ⟨fun hmem => ?_, fun hmem => ?_⟩⟩
      · simp only [findQpe, nibble_eq key hshift, ok_bind, hx, if_true]
        exact hfind
      · exact mem_entries_branch.2 ⟨_, hx, hmem⟩
      · obtain ⟨x, hx', hmem⟩ := mem_entries_branch.1 hmem
        rwa [hdigit x hx' key ⟨data, hmem⟩]
    · refine ⟨none, ?_, fun data => ⟨fun hnone => ?_, fun hmem => ?_⟩⟩
      · simp only [findQpe, nibble_eq key hshift, ok_bind]
        rw [if_neg hx]
        rfl
      · cases hnone
      · exact absurd (hasNext_of_mem hdigit ⟨data, hmem⟩).1 hx

end

variable {c c' : Cell len} {key : Key len}

structure Removed (key : Key len) (c c' : Cell len) : Prop where
  mem : ∀ e, e ∈ entries c' ↔ e ∈ entries c ∧ e.1 ≠ key
  top_eq : top c' = top c
  formed : c'.isFreed = false → Formed c'
  freed : c'.isFreed = true → c' = .freed (top c)

lemma Removed.keys_subset (h : Removed key c c') : keys c' ⊆ keys c := by
  rintro k ⟨data, hk⟩
  exact ⟨data, ((h.mem _).1 hk).1⟩

variable {shift : ℕ} {mask : BitVec 16} {cells : Fin 16 → Cell len}

section

variable (h : Formed (.branch shift mask cells)) (hx : hasNext mask (digit key shift) = true)
include h hx

lemma removed_close (ho : ∀ e ∈ entries (cells (digit key shift)), e.1 = key)
    {cells' : Fin 16 → Cell len} (hc' : ∀ y, y ≠ digit key shift → cells' y = cells y) :
    Removed key (.branch shift mask cells)
      (close shift (mask ^^^ maskOf (digit key shift)) cells') := by
  cases h with
  | branch hshift _ hcells hbelow hdigit hagree =>
    have hb : ∀ y, hasNext (mask ^^^ maskOf (digit key shift)) y = true ↔
        hasNext mask y = true ∧ y ≠ digit key shift := by
      intro y
      rw [hasNext_xor hx, Bool.and_eq_true, decide_eq_true_eq]
    have hmem : ∀ e, (∃ y, hasNext (mask ^^^ maskOf (digit key shift)) y = true ∧
        e ∈ entries (cells' y)) ↔ e ∈ entries (.branch shift mask cells) ∧ e.1 ≠ key := by
      intro e
      constructor
      · rintro ⟨y, hy, he⟩
        obtain ⟨hmask, hne⟩ := (hb y).1 hy
        rw [hc' y hne] at he
        refine ⟨mem_entries_branch.2 ⟨y, hmask, he⟩, ?_⟩
        rintro rfl
        exact hne (hdigit y hmask e.1 ⟨e.2, he⟩).symm
      · rintro ⟨he, hne⟩
        obtain ⟨y, hy, he⟩ := mem_entries_branch.1 he
        have hyx : y ≠ digit key shift := by
          rintro rfl
          exact hne (ho e he)
        exact ⟨y, (hb y).2 ⟨hy, hyx⟩, by rwa [hc' y hyx]⟩
    by_cases hzero : mask ^^^ maskOf (digit key shift) = 0
    · rw [close, if_pos hzero]
      refine ⟨fun e => ?_, rfl, nofun, fun _ => rfl⟩
      rw [← hmem]
      constructor
      · exact nofun
      · rintro ⟨y, hy, _⟩
        rw [(eq_zero_iff _).1 hzero y] at hy
        cases hy
    · rw [close, if_neg hzero]
      refine ⟨fun e => mem_entries_branch.trans (hmem e), rfl, fun _ => ?_, nofun⟩
      refine .branch hshift hzero ?_ ?_ ?_ (hagree.subset ?_)
      · intro y hy
        obtain ⟨hy, hne⟩ := (hb y).1 hy
        rw [hc' y hne]
        exact hcells y hy
      · intro y hy
        obtain ⟨hy, hne⟩ := (hb y).1 hy
        rw [hc' y hne]
        exact hbelow y hy
      · intro y hy
        obtain ⟨hy, hne⟩ := (hb y).1 hy
        rw [hc' y hne]
        exact hdigit y hy
      · rintro k ⟨data, hk⟩
        exact ⟨data, ((hmem _).1 (mem_entries_branch.1 hk)).1⟩

lemma removed_update {child : Cell len}
    (hch : Removed key (cells (digit key shift)) child) (hlive : child.isFreed = false) :
    Removed key (.branch shift mask cells)
      (.branch shift mask (Function.update cells (digit key shift) child)) := by
  have hfm := h
  cases h with
  | branch hshift _ hcells hbelow hdigit hagree =>
    refine ⟨fun e => ?_, rfl, fun _ => ?_, nofun⟩
    · rw [mem_entries_update (hasNext_same hx), hch.mem, mem_entries_branch]
      constructor
      · rintro (⟨he, hne⟩ | ⟨y, hyx, hy, he⟩)
        · exact ⟨⟨_, hx, he⟩, hne⟩
        · refine ⟨⟨y, hy, he⟩, ?_⟩
          rintro rfl
          exact hyx (hdigit y hy e.1 ⟨e.2, he⟩).symm
      · rintro ⟨⟨y, hy, he⟩, hne⟩
        by_cases hyx : y = digit key shift
        · subst hyx
          exact .inl ⟨he, hne⟩
        · exact .inr ⟨y, hyx, hy, he⟩
    · refine hfm.update (hasNext_same hx) (hch.formed hlive) ?_ ?_ ?_
      · rw [hch.top_eq]
        exact hbelow _ hx
      · exact fun k hk => hdigit _ hx k (hch.keys_subset hk)
      · exact fun k hk => ⟨k, Invariant.keys_subset hx (hch.keys_subset hk), .refl shift k⟩

end

lemma deleteBelow_spec (h : Formed c) : (deleteBelow key c = .ok .failed ∧ key ∉ keys c) ∨
      (deleteBelow key c = .ok .self ∧ ∃ data, c = .leaf key data) ∨
      ∃ c', deleteBelow key c = .ok (.changed c') ∧ Removed key c c' := by
  induction h with
  | leaf k data =>
    by_cases hk : k = key
    · subst hk
      exact .inr (.inl ⟨by rw [deleteBelow, if_pos rfl], data, rfl⟩)
    · refine .inl ⟨by rw [deleteBelow, if_neg hk], fun hmem => ?_⟩
      exact hk (mem_keys_leaf.1 hmem).symm
  | @branch shift mask cells hshift hmask hcells hbelow hdigit hagree ih =>
    have hfm : Formed (.branch shift mask cells) := .branch hshift hmask hcells hbelow hdigit hagree
    by_cases hx : hasNext mask (digit key shift) = true
    · obtain ⟨hdel, hmem⟩ | ⟨hdel, data, hleaf⟩ | ⟨child, hdel, hch⟩ := ih _ hx
      · refine .inl ⟨?_, fun hk => hmem (hasNext_of_mem hdigit hk).2⟩
        simp only [deleteBelow, nibble_eq key hshift, ok_bind, hx, if_true, hdel]
        rfl
      · have hsame : ∀ y, y ≠ digit key shift → cells y = cells y := fun _ _ => rfl
        refine .inr (.inr ⟨_, ?_, removed_close hfm hx ?_ hsame⟩)
        · simp only [deleteBelow, nibble_eq key hshift, ok_bind, hx, if_true, hdel]
          rfl
        · intro e he
          rw [hleaf] at he
          rw [List.mem_singleton.1 he]
      · by_cases hlive : child.isFreed = true
        · refine .inr (.inr ⟨_, ?_, removed_close hfm hx ?_
            fun y hy => update_of_ne hy child cells⟩)
          · simp only [deleteBelow, nibble_eq key hshift, ok_bind, hx, if_true, hdel, hlive]
            rfl
          · intro e he
            by_contra hne
            have hmem := (hch.mem e).2 ⟨he, hne⟩
            rw [hch.freed hlive] at hmem
            cases hmem
        · have hlive := Bool.eq_false_iff.2 hlive
          refine .inr (.inr ⟨_, ?_, removed_update hfm hx hch hlive⟩)
          simp only [deleteBelow, nibble_eq key hshift, ok_bind, hx, if_true, hdel, hlive]
          rfl
    · refine .inl ⟨?_, fun hk => hx (hasNext_of_mem hdigit hk).1⟩
      simp only [deleteBelow, nibble_eq key hshift, ok_bind]
      rw [if_neg hx]
      rfl

end Neuropil.Cupidtrie.Invariant
