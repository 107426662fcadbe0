import Neuropil.Tree.Write
import Mathlib.Data.List.TakeWhile

namespace Neuropil.Tree.Read

open Except Int List Nat Lib.Buffer Lib.Cbor Tree.RedBlack Tree.Values Tree.Operations Tree.Effects
  Tree.Write

inductive ReadError
  | outOfFuel
  | malformed
  | invalidType
  | tree (fault : Fault)
deriving DecidableEq

/-- The `int64` member of the item. QCBOR keeps numbers from 2^63 on in the `uint64` member of the
union, and refuses negative ones below -2^63. -/
def int64 : Data → Except ReadError Int
  | .uint n => .ok ((n : Int).bmod (2 ^ 64))
  | .negint n => if n < 2 ^ 63 then .ok (-1 - n) else .error .malformed
  | _ => .error .malformed

/-- QCBOR_Int64ToUInt8 and its siblings: a number out of range leaves the target zero. -/
def within (lo hi i : Int) : Int := if i > hi ∨ i < lo then 0 else i

def readInt (tag : Option ℕ) (i : Int) : Treeval :=
  if tag = some (registryTag 10) then .unsignedShort (UInt8.ofNat (within 0 0xff i).toNat)
  else if tag = some (registryTag 11) then .unsignedInt (UInt16.ofNat (within 0 0xffff i).toNat)
  else if tag = some (registryTag 12) then
    .unsignedLong (UInt32.ofNat (within 0 0xffffffff i).toNat)
  else if tag = some (registryTag 13) then
    .unsignedLongLong (UInt64.ofNat (within 0 0x7fffffffffffffff i).toNat)
  else if tag = some (registryTag 1) then .short (Int8.ofInt (within (-0x80) 0x7f i))
  else if tag = some (registryTag 2) then .int (Int16.ofInt (within (-0x8000) 0x7fff i))
  else if tag = some (registryTag 3) then .long (Int32.ofInt (within (-0x80000000) 0x7fffffff i))
  else if tag = some (registryTag 4) then .longLong (Int64.ofInt i)
  else .undefined

def textOf (bs : Bytes) : CString where
  bytes := (bs.takeWhile (· ≠ 0)).take (2 ^ 32 - 1)
  no_nul h := by simpa using mem_takeWhile_imp (mem_of_mem_take h)
  length_lt := (length_take_le _ _).trans_lt (by decide)

def blobOf (bs : Bytes) : Blob where
  bytes := bs.take (bs.length % 2 ^ 32)
  length_lt := (length_take_le _ _).trans_lt (mod_lt _ (by decide))

def readText (bs : Bytes) : Treeval :=
  match bs with
  | [c] => .char c
  | bs => .charPtr (textOf bs)

def readNumbers (bound : ℕ) : ℕ → Bytes → Except ReadError (List ℕ × Bytes)
  | 0, input => .ok ([], input)
  | n + 1, input =>
    match decodeItem input with
    | none => .error .malformed
    | some (item, rest) => do
      let i ← int64 item.data
      let (numbers, rest) ← readNumbers bound n rest
      .ok ((within 0 bound i).toNat :: numbers, rest)

def dhkeyOf (words : List ℕ) : Dhkey := ⟨fun i => UInt32.ofNat (words.getD i 0)⟩

def kindOf : Option ℕ → TreeOf Treeval → Treeval
  | some 61, tree => .cwt tree
  | some 96, tree => .coseEncrypted tree
  | some 98, tree => .coseSigned tree
  | _, tree => .jrbTree tree

/-- Add a pair to the tree; "undefined key type cannot be added to tree structure". -/
def insertPair (tree : NpTree) (key val : Treeval) : Except Fault NpTree :=
  match key with
  | .int i => treeInsert tree (.int i) val
  | .dhkey k => treeInsert tree (.dhkey k) val
  | .unsignedLong ul => treeInsert tree (.ulong ul) val
  | .double d => treeInsert tree (.dbl d) val
  | .charPtr s => treeInsert tree (.str s) val
  | .uuid u => treeInsert tree (.uuid u) val
  | _ => .ok tree

/-- The loop over the pairs of a map. Key and value are read into an empty subtree each time. -/
def readPairs (read : NpTree → Bytes → Except ReadError (Treeval × Bytes)) :
    ℕ → NpTree → Bytes → Except ReadError (NpTree × Bytes)
  | 0, tree, input => .ok (tree, input)
  | n + 1, tree, input => do
    let (key, input) ← read treeCreate input
    let (val, input) ← read treeCreate input
    let tree ← (insertPair tree key val).mapError .tree
    readPairs read n tree input

/-- The switch of __np_tree_deserialize_read_type over the item that was read; `read` reads the
keys and values of a map. -/
def readItem (read : NpTree → Bytes → Except ReadError (Treeval × Bytes)) (tree : NpTree)
    (item : Item) (rest : Bytes) : Except ReadError (Treeval × Bytes) :=
  match item.data with
  | .map n =>
    if item.tags.head? = some (registryTag 20) then do
      let (tree, rest) ← readPairs read n tree rest
      .ok (kindOf item.tags[1]? tree, rest)
    else .ok (.undefined, rest)
  | .array _ =>
    if item.tags.head? = some (registryTag 14) then do
      let (numbers, rest) ← readNumbers 0xffff 2 rest
      .ok (.uintArray2 (UInt16.ofNat (numbers.getD 0 0)) (UInt16.ofNat (numbers.getD 1 0)), rest)
    else if item.tags.head? = some (registryTag 21) then do
      let (words, rest) ← readNumbers 0xffffffff 8 rest
      .ok (.dhkey (dhkeyOf words), rest)
    else .error .invalidType
  | .text bs => .ok (readText bs, rest)
  | .bytes bs =>
    if item.tags.head? = some (registryTag 23) then .ok (.hash (blobOf bs), rest)
    else .ok (.bin (blobOf bs), rest)
  | .float bits => .ok (.float bits, rest)
  | .double bits => .ok (.double ⟨bits⟩, rest)
  | .uint n => do
    let i ← int64 (.uint n)
    .ok (readInt item.tags.head? i, rest)
  | .negint n => do
    let i ← int64 (.negint n)
    .ok (readInt item.tags.head? i, rest)

/-- __np_tree_deserialize_read_type; the fuel bounds the nesting of maps. -/
def readType : ℕ → NpTree → Bytes → Except ReadError (Treeval × Bytes)
  | 0, _, _ => .error .outOfFuel
  | fuel + 1, tree, input =>
    match decodeItem input with
    | none => .error .malformed
    | some (item, rest) => readItem (readType fuel) tree item rest

def finishRead (tree : NpTree) : NpTree :=
  if tree.attr.inPlace then { tree with attr := ⟨true, true⟩ } else tree

lemma finishRead_root (tree : NpTree) : (finishRead tree).root = tree.root := by
  rw [finishRead]
  split <;> rfl

def readMap (fuel : ℕ) (tree : NpTree) (input : Bytes) : Except ReadError NpTree := do
  let (val, _) ← readType fuel tree input
  match val with
  | .jrbTree t | .cwt t | .coseSigned t | .coseEncrypted t => .ok (finishRead t)
  | _ => .ok (finishRead tree)

lemma textOf_bytes (s : CString) : textOf s.bytes = s := by
  apply CString.ext
  have hall : s.bytes.takeWhile (· ≠ 0) = s.bytes := by
    rw [takeWhile_eq_self_iff]
    intro b hb
    simp only [decide_eq_true_eq]
    rintro rfl
    exact s.no_nul hb
  have hlen := s.length_lt
  change (s.bytes.takeWhile (· ≠ 0)).take (2 ^ 32 - 1) = s.bytes
  rw [hall, take_of_length_le (by omega)]

lemma blobOf_bytes (b : Blob) : blobOf b.bytes = b := by
  apply Blob.ext
  change b.bytes.take (b.bytes.length % 2 ^ 32) = b.bytes
  rw [mod_eq_of_lt b.length_lt, take_length]

variable {type : ℕ} {data : Data}

lemma decodeItem_writeTagged (htype : type < 256) (hd : data.WellFormed) (rest : Bytes) :
    decodeItem (writeTagged type data ++ rest) = some (⟨[registryTag type], data⟩, rest) := by
  have htag : registryTag type < 2 ^ 64 := by
    unfold registryTag
    omega
  exact decodeItem_tagged htag hd 0 rest

variable {i : Int}

lemma wellFormed_ofInt (hlo : -2 ^ 63 ≤ i) (hhi : i < 2 ^ 63) : (Data.ofInt i).WellFormed := by
  rw [Data.ofInt]
  split <;> simp only [Data.WellFormed] <;> omega

variable {n : ℕ}

lemma int64_uint (h : n < 2 ^ 63) : int64 (.uint n) = .ok (n : Int) := by
  rw [int64, bmod_eq_of_le_mul_two (by omega) (by omega)]

lemma int64_ofInt (hlo : -2 ^ 63 ≤ i) (hhi : i < 2 ^ 63) : int64 (.ofInt i) = .ok i := by
  rw [Data.ofInt]
  split
  · rw [int64_uint (by omega), toNat_of_nonneg ‹_›]
  · rw [int64, if_pos (by omega)]
    congr 1
    omega

lemma within_of_mem {lo hi : Int} (hlo : lo ≤ i) (hhi : i ≤ hi) : within lo hi i = i := by
  rw [within, if_neg (by omega)]

/-- What a value that is not a tree is read back as. -/
def restorePlain : Treeval → Treeval
  | .charPtr s => match s.bytes with
    | [c] => .char c
    | _ => .charPtr s
  | .unsignedLongLong ull =>
    if ull.toNat < 2 ^ 63 then .unsignedLongLong ull else .unsignedLongLong 0
  | val => val

lemma readText_bytes (s : CString) : readText s.bytes = restorePlain (.charPtr s) := by
  simp only [readText, restorePlain]
  split <;> simp [*, textOf_bytes]

lemma readNumbers_uint {bound : ℕ} {numbers : List ℕ} (hb : bound < 2 ^ 63) (minLen : ℕ)
    (h : ∀ n ∈ numbers, n ≤ bound) (rest : Bytes) :
    readNumbers bound numbers.length
      (numbers.flatMap (fun n => Data.encode minLen (.uint n)) ++ rest) = .ok (numbers, rest) := by
  induction numbers with
  | nil => rfl
  | cons n numbers ih =>
    obtain ⟨hn, hrest⟩ := forall_mem_cons.1 h
    have hwf : (Data.uint n).WellFormed := by
      simp only [Data.WellFormed]
      omega
    rw [length_cons, readNumbers, flatMap_cons, append_assoc, decodeItem_data hwf]
    simp only [int64_uint (hn.trans_lt hb), ih hrest]
    change Except.ok ((within 0 bound n).toNat :: numbers, rest) = _
    rw [within_of_mem (by omega) (by omega), toNat_natCast]

lemma dhkeyOf_words (k : Dhkey) : dhkeyOf (k.words.map UInt32.toNat) = k := by
  obtain ⟨t⟩ := k
  simp only [dhkeyOf, Dhkey.words, Dhkey.mk.injEq]
  funext i
  rw [getD_eq_getElem?_getD, getElem?_map, List.getElem?_ofFn]
  simp only [Fin.is_lt, ↓reduceDIte, Fin.eta, Option.map_some, Option.getD_some, UInt32.ofNat_toNat]

section

variable (read : NpTree → Bytes → Except ReadError (Treeval × Bytes)) (tree : NpTree) (rest : Bytes)

lemma readItem_ofInt (hlo : -2 ^ 63 ≤ i) (hhi : i < 2 ^ 63) :
    readItem read tree ⟨[registryTag type], .ofInt i⟩ rest =
      .ok (readInt (some (registryTag type)) i, rest) := by
  have hint := int64_ofInt hlo hhi
  by_cases hi : 0 ≤ i
  · rw [Data.ofInt, if_pos hi] at hint ⊢
    simp only [readItem, hint]
    rfl
  · rw [Data.ofInt, if_neg hi] at hint ⊢
    simp only [readItem, hint]
    rfl

lemma readItem_uint (tags : List ℕ) (h : n < 2 ^ 63) :
    readItem read tree ⟨tags, .uint n⟩ rest = .ok (readInt tags.head? n, rest) := by
  simp only [readItem, int64_uint h]
  rfl

end

lemma readType_item {input rest : Bytes} {item : Item}
    (h : decodeItem input = some (item, rest)) (fuel : ℕ) (tree : NpTree) :
    readType (fuel + 1) tree input = readItem (readType fuel) tree item rest := by
  rw [readType, h]

section

variable (fuel : ℕ) (tree : NpTree) (rest : Bytes)

lemma readType_data (h : data.WellFormed) : readType (fuel + 1) tree (data.encode 0 ++ rest) =
      readItem (readType fuel) tree ⟨[], data⟩ rest :=
  readType_item (decodeItem_data h 0 rest) fuel tree

lemma readType_tagged (htype : type < 256) (h : data.WellFormed) :
    readType (fuel + 1) tree (writeTagged type data ++ rest) =
      readItem (readType fuel) tree ⟨[registryTag type], data⟩ rest :=
  readType_item (decodeItem_writeTagged htype h rest) fuel tree

lemma readType_signed (htype : type < 256) (hlo : -2 ^ 63 ≤ i) (hhi : i < 2 ^ 63) :
    readType (fuel + 1) tree (writeTagged type (.ofInt i) ++ rest) =
      .ok (readInt (some (registryTag type)) i, rest) := by
  rw [readType_tagged _ _ _ htype (wellFormed_ofInt hlo hhi), readItem_ofInt _ _ _ hlo hhi]

lemma readType_unsigned (htype : type < 256) (hn : n < 2 ^ 63) :
    readType (fuel + 1) tree (writeTagged type (.uint n) ++ rest) =
      .ok (readInt (some (registryTag type)) n, rest) := by
  have hwf : (Data.uint n).WellFormed := lt_trans hn (by decide)
  rw [readType_tagged _ _ _ htype hwf, readItem_uint _ _ _ _ hn]
  rfl

lemma readType_unsignedLongLong (n : UInt64) :
    readType (fuel + 1) tree (writePlain (.unsignedLongLong n) ++ rest) =
      .ok (restorePlain (.unsignedLongLong n), rest) := by
  have hn := n.toNat_lt
  rw [writePlain, restorePlain]
  split_ifs with hsm
  · rw [readType_unsigned _ _ _ (by decide) hsm]
    change Except.ok (Treeval.unsignedLongLong (.ofNat (within 0 0x7fffffffffffffff n.toNat).toNat),
      rest) = _
    rw [within_of_mem (by omega) (by omega), toNat_natCast, UInt64.ofNat_toNat]
  · have hwf : (Data.uint n.toNat).WellFormed := hn
    have hint : int64 (.uint n.toNat) = .ok ((n.toNat : Int) - 2 ^ 64) := by
      have hmod : (n.toNat : Int) % (2 ^ 64 : ℕ) = n.toNat := emod_eq_of_lt (by omega) (by omega)
      rw [int64, Int.bmod, hmod, if_neg (by omega)]
      rfl
    have hzero : within 0 0x7fffffffffffffff ((n.toNat : Int) - 2 ^ 64) = 0 := by
      rw [within, if_pos (by omega)]
    rw [readType_tagged _ _ _ (by decide) hwf]
    simp only [readItem, hint]
    change Except.ok (Treeval.unsignedLongLong
      (.ofNat (within 0 0x7fffffffffffffff ((n.toNat : Int) - 2 ^ 64)).toNat), rest) = _
    rw [hzero]
    rfl

lemma readType_uintArray2 (a b : UInt16) :
    readType (fuel + 1) tree (writePlain (.uintArray2 a b) ++ rest) =
      .ok (.uintArray2 a b, rest) := by
  have hwf : (Data.array 2).WellFormed := Nat.lt_of_sub_pos (by decide)
  have ha := a.toNat_lt
  have hb := b.toNat_lt
  have hnum : readNumbers 0xffff 2 (Data.encode 0 (.uint a.toNat) ++
      Data.encode 0 (.uint b.toNat) ++ rest) = .ok ([a.toNat, b.toNat], rest) := by
    have hbd : ∀ n ∈ [a.toNat, b.toNat], n ≤ 0xffff := by
      simp only [forall_mem_cons]
      exact ⟨by omega, by omega, by simp⟩
    simpa using readNumbers_uint (by decide) 0 hbd rest
  rw [writePlain, append_assoc, readType_tagged _ _ _ (by decide) hwf]
  simp only [readItem, hnum]
  change Except.ok (Treeval.uintArray2 (.ofNat a.toNat) (.ofNat b.toNat), rest) = _
  rw [UInt16.ofNat_toNat, UInt16.ofNat_toNat]

lemma readType_dhkey (k : Dhkey) :
    readType (fuel + 1) tree (writeTypeDhkey k ++ rest) = .ok (.dhkey k, rest) := by
  have hwf : (Data.array 8).WellFormed := Nat.lt_of_sub_pos (by decide)
  have hb : ∀ n ∈ k.words.map UInt32.toNat, n ≤ 0xffffffff := by
    simp only [forall_mem_map]
    intro word _
    have := word.toNat_lt
    omega
  have hlen : (k.words.map UInt32.toNat).length = 8 := by simp [Dhkey.words]
  have hw := readNumbers_uint (by decide) 4 hb rest
  rw [hlen, flatMap_map] at hw
  rw [writeTypeDhkey, append_assoc, readType_tagged _ _ _ (by decide) hwf]
  simp only [readItem, hw]
  exact congrArg (fun k => Except.ok (Treeval.dhkey k, rest)) (dhkeyOf_words k)

end

variable {val : Treeval}

lemma readType_writePlain (hpl : Plain val) (hw : isWritten val = true)
    (fuel : ℕ) (tree : NpTree) (rest : Bytes) :
    readType (fuel + 1) tree (writePlain val ++ rest) = .ok (restorePlain val, rest) := by
  cases val with
  | short i =>
    have hlo := i.le_toInt
    have hhi := i.toInt_lt
    rw [writePlain, readType_signed _ _ _ (by decide) (by omega) (by omega)]
    change Except.ok (Treeval.short (.ofInt (within (-0x80) 0x7f i.toInt)), rest) = _
    rw [within_of_mem (by omega) (by omega), Int8.ofInt_toInt]
    rfl
  | int i =>
    have hlo := i.le_toInt
    have hhi := i.toInt_lt
    rw [writePlain, readType_signed _ _ _ (by decide) (by omega) (by omega)]
    change Except.ok (Treeval.int (.ofInt (within (-0x8000) 0x7fff i.toInt)), rest) = _
    rw [within_of_mem (by omega) (by omega), Int16.ofInt_toInt]
    rfl
  | long i =>
    have hlo := i.le_toInt
    have hhi := i.toInt_lt
    rw [writePlain, readType_signed _ _ _ (by decide) (by omega) (by omega)]
    change Except.ok (Treeval.long (.ofInt (within (-0x80000000) 0x7fffffff i.toInt)), rest) = _
    rw [within_of_mem (by omega) (by omega), Int32.ofInt_toInt]
    rfl
  | longLong i =>
    have hlo := i.le_toInt
    have hhi := i.toInt_lt
    rw [writePlain, readType_signed _ _ _ (by decide) (by omega) (by omega)]
    change Except.ok (Treeval.longLong (.ofInt i.toInt), rest) = _
    rw [Int64.ofInt_toInt]
    rfl
  | unsignedShort n =>
    have hn := n.toNat_lt
    rw [writePlain, readType_unsigned _ _ _ (by decide) (by omega)]
    change Except.ok (Treeval.unsignedShort (.ofNat (within 0 0xff n.toNat).toNat), rest) = _
    rw [within_of_mem (by omega) (by omega), toNat_natCast, UInt8.ofNat_toNat]
    rfl
  | unsignedInt n =>
    have hn := n.toNat_lt
    rw [writePlain, readType_unsigned _ _ _ (by decide) (by omega)]
    change Except.ok (Treeval.unsignedInt (.ofNat (within 0 0xffff n.toNat).toNat), rest) = _
    rw [within_of_mem (by omega) (by omega), toNat_natCast, UInt16.ofNat_toNat]
    rfl
  | unsignedLong n =>
    have hn := n.toNat_lt
    rw [writePlain, readType_unsigned _ _ _ (by decide) (by omega)]
    change Except.ok (Treeval.unsignedLong (.ofNat (within 0 0xffffffff n.toNat).toNat), rest) = _
    rw [within_of_mem (by omega) (by omega), toNat_natCast, UInt32.ofNat_toNat]
    rfl
  | unsignedLongLong n => exact readType_unsignedLongLong fuel tree rest n
  | charPtr s =>
    have hwf : (Data.text s.bytes).WellFormed := lt_trans s.length_lt (by decide)
    rw [writePlain, readType_data _ _ _ hwf, ← readText_bytes]
    rfl
  | char c =>
    have hwf : (Data.text [c]).WellFormed := Nat.one_lt_two_pow (by decide)
    rw [writePlain, readType_data _ _ _ hwf]
    rfl
  | float f =>
    have hwf : (Data.float f).WellFormed := trivial
    exact readType_data fuel tree rest hwf
  | double d =>
    have hwf : (Data.double d.bits).WellFormed := trivial
    exact readType_data fuel tree rest hwf
  | uintArray2 a b => exact readType_uintArray2 fuel tree rest a b
  | bin b =>
    have hwf : (Data.bytes b.bytes).WellFormed := lt_trans b.length_lt (by decide)
    rw [writePlain, readType_data _ _ _ hwf]
    change Except.ok (Treeval.bin (blobOf b.bytes), rest) = _
    rw [blobOf_bytes]
    rfl
  | hash b =>
    have hwf : (Data.bytes b.bytes).WellFormed := lt_trans b.length_lt (by decide)
    rw [writePlain, readType_tagged _ _ _ (by decide) hwf]
    change Except.ok (Treeval.hash (blobOf b.bytes), rest) = _
    rw [blobOf_bytes]
    rfl
  | dhkey k => exact readType_dhkey fuel tree rest k
  | jrbTree | cwt | coseSigned | coseEncrypted => cases hpl.isTree_eq_false
  | _ => cases hw

open Lib.Fault Tree.MapRuns Tree.Effects

variable {tree tree' : NpTree} {input rest : Bytes}

lemma insertPair_fresh {key : Treeval} (h : Fresh tree)
    (hins : insertPair tree key val = .ok tree') : Fresh tree' := by
  obtain ⟨stored, hcopy⟩ := copyOfVal_total val
  have hfr : ∀ k, treeInsert tree k val = .ok tree' → Fresh tree' := by
    intro k hk
    obtain ⟨made, hmade, hfr, -⟩ := treeInsert_effect h k hcopy
    cases hmade.symm.trans hk
    exact hfr
  unfold insertPair at hins
  split at hins
  case h_7 =>
    cases hins
    exact h
  all_goals exact hfr _ hins

variable {read : NpTree → Bytes → Except ReadError (Treeval × Bytes)}

lemma readPairs_fresh {count : ℕ} (h : Fresh tree)
    (hread : readPairs read count tree input = .ok (tree', rest)) : Fresh tree' := by
  induction count generalizing tree input with
  | zero =>
    cases hread
    exact h
  | succ count ih =>
    obtain ⟨⟨key, input1⟩, -, hread⟩ := bind_eq_ok hread
    obtain ⟨⟨val, input2⟩, -, hread⟩ := bind_eq_ok hread
    obtain ⟨made, hmade, hread⟩ := bind_eq_ok hread
    refine ih ?_ hread
    cases hins : insertPair tree key val with
    | error e =>
      rw [hins] at hmade
      cases hmade
    | ok t =>
      rw [hins] at hmade
      cases hmade
      exact insertPair_fresh h hins

lemma kindOf_eq_ofTree (tag : Option ℕ) (tree : NpTree) :
    ∃ kind, kindOf tag tree = ofTree kind tree := by
  unfold kindOf
  split
  exacts [⟨.cwt, rfl⟩, ⟨.coseEncrypted, rfl⟩, ⟨.coseSigned, rfl⟩, ⟨.jrbTree, rfl⟩]

lemma plain_readText (bs : Bytes) : Plain (readText bs) := by
  unfold readText
  split <;> rintro (_ | _ | _ | _) t ⟨⟩

lemma plain_readInt (tag : Option ℕ) (i : Int) : Plain (readInt tag i) := by
  unfold readInt
  split_ifs <;> rintro (_ | _ | _ | _) t ⟨⟩

lemma readItem_fresh {item : Item} {rest' : Bytes} (h : Fresh tree)
    (hread : readItem read tree item rest = .ok (val, rest')) {kind : TreeKind} {t : NpTree}
    (hval : val = ofTree kind t) : Fresh t := by
  have hpl : Plain val → Fresh t := fun hp => absurd hval (hp kind t)
  unfold readItem at hread
  split at hread
  case h_1 count =>
    split_ifs at hread
    · obtain ⟨⟨made, rest''⟩, hprs, hread⟩ := bind_eq_ok hread
      obtain ⟨kind', hkind⟩ := kindOf_eq_ofTree item.tags[1]? made
      cases hread
      obtain ⟨-, rfl⟩ := ofTree_inj (hkind.symm.trans hval)
      exact readPairs_fresh h hprs
    · cases hread
      exact hpl (by rintro (_ | _ | _ | _) t ⟨⟩)
  case h_2 =>
    split_ifs at hread
    all_goals
      obtain ⟨⟨numbers, rest''⟩, -, hread⟩ := bind_eq_ok hread
      cases hread
      exact hpl (by rintro (_ | _ | _ | _) t ⟨⟩)
  case h_3 =>
    cases hread
    exact hpl (plain_readText _)
  case h_4 =>
    split_ifs at hread
    all_goals
      cases hread
      exact hpl (by rintro (_ | _ | _ | _) t ⟨⟩)
  case h_5 | h_6 =>
    cases hread
    exact hpl (by rintro (_ | _ | _ | _) t ⟨⟩)
  case h_7 | h_8 =>
    obtain ⟨i, -, hread⟩ := bind_eq_ok hread
    cases hread
    exact hpl (plain_readInt _ i)

lemma finishRead_fresh (h : Fresh tree) : finishRead tree = tree := by
  rw [finishRead, h.attr_eq]
  rfl

lemma readMap_fresh {fuel : ℕ} {data : NpTree} (h : readMap fuel treeCreate input = .ok data) :
    Fresh data := by
  obtain ⟨⟨val, rest⟩, htype, h⟩ := bind_eq_ok h
  have hval : ∀ kind t, val = ofTree kind t → Fresh t := by
    intro kind t hval
    cases fuel with
    | zero => cases htype
    | succ fuel =>
      unfold readType at htype
      split at htype
      · cases htype
      · exact readItem_fresh fresh_create htype hval
  have hdone : ∀ t, Fresh t → finishRead t = data → Fresh data := by
    rintro t ht rfl
    rwa [finishRead_fresh ht]
  dsimp only at h
  split at h
  case h_1 t => exact hdone t (hval .jrbTree t rfl) (ok.inj h)
  case h_2 t => exact hdone t (hval .cwt t rfl) (ok.inj h)
  case h_3 t => exact hdone t (hval .coseSigned t rfl) (ok.inj h)
  case h_4 t => exact hdone t (hval .coseEncrypted t rfl) (ok.inj h)
  case h_5 => exact hdone treeCreate fresh_create (ok.inj h)

end Neuropil.Tree.Read
