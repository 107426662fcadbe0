import Neuropil.Lib.Cbor
import Neuropil.Tree.Effects
import Mathlib.Algebra.Order.BigOperators.Group.List

namespace Neuropil.Tree.Write

open List Nat Lib.Buffer Lib.Cbor Lib.Run Tree.RedBlack Tree.Removal Tree.Values Tree.Operations
  Tree.MapRuns Tree.Effects

def registryTag (type : ℕ) : ℕ := 31415 + type

def writeTagged (type : ℕ) (data : Data) : Bytes := encodeTag (registryTag type) ++ data.encode 0

def writeTypeDhkey (source : Dhkey) : Bytes :=
  writeTagged 21 (.array 8) ++ source.words.flatMap (fun word => Data.encode 4 (.uint word.toNat))

def writePlain : Treeval → Bytes
  | .short sh => writeTagged 1 (.ofInt sh.toInt)
  | .int i => writeTagged 2 (.ofInt i.toInt)
  | .long l => writeTagged 3 (.ofInt l.toInt)
  | .longLong ll => writeTagged 4 (.ofInt ll.toInt)
  | .charPtr s => Data.encode 0 (.text s.bytes)
  | .char c => Data.encode 0 (.text [c])
  | .float f => Data.encode 0 (.float f)
  | .double d => Data.encode 0 (.double d.bits)
  | .unsignedShort ush => writeTagged 10 (.uint ush.toNat)
  | .unsignedInt ui => writeTagged 11 (.uint ui.toNat)
  | .unsignedLong ul => writeTagged 12 (.uint ul.toNat)
  | .unsignedLongLong ull => writeTagged 13 (.uint ull.toNat)
  | .uintArray2 a b => writeTagged 14 (.array 2) ++
      (Data.encode 0 (.uint a.toNat) ++ Data.encode 0 (.uint b.toNat))
  | .bin b => Data.encode 0 (.bytes b.bytes)
  | .dhkey k => writeTypeDhkey k
  | .hash b => writeTagged 23 (.bytes b.bytes)
  -- "please implement serialization for type"
  | _ => []

def isWritten : Treeval → Bool
  | .undefined | .unsignedChar _ | .floatArray2 _ _ | .charArray8 _ | .unsignedCharArray8 _
  | .void _ | .uuid _ | .npobj _ | .npvalCount | .specialCharPtr _ => false
  | _ => true

def isKnownKey : Key → Bool
  | .uuid _ | .special _ => false
  | _ => true

def itemCount : Node Key Treeval → ℕ
  | .nil => 0
  | .node _ left key val right => itemCount left +
      (if isKnownKey key then 1 + (if isWritten val then 1 else 0) else 0) + itemCount right

mutual

/-- __np_tree_serialize_write_type. The heads of maps are put in front when QCBOR closes them. -/
def writeType : Treeval → Bytes
  | .coseEncrypted tree => encodeTag 96 ++ writeTree tree
  | .coseSigned tree => encodeTag 98 ++ writeTree tree
  | .cwt tree => encodeTag 61 ++ writeTree tree
  | .jrbTree tree => writeTree tree
  | val => writePlain val

def writeTree : TreeOf Treeval → Bytes
  | ⟨root, _, _, _⟩ => writeTagged 20 (.map (itemCount root / 2)) ++ writeElements root

def writeElements : Node Key Treeval → Bytes
  | .nil => []
  | .node _ left key val right => writeElements left ++
      (if isKnownKey key then writePlain key.toTreeval ++ writeType val else []) ++
      writeElements right

end

inductive WriteError
  | bufferTooSmall
deriving DecidableEq

/-- np_serializer_write_map into a buffer of the given size. -/
def writeMap (bufferSize : ℕ) (tree : NpTree) : Except WriteError Bytes :=
  if (writeType (.jrbTree tree)).length ≤ bufferSize then .ok (writeType (.jrbTree tree))
  else .error .bufferTooSmall

def treeGetByteSize (tree : NpTree) : ℕ := treevalGetByteSize (.jrbTree tree)

def writeElement (e : Key × Treeval) : Bytes :=
  if isKnownKey e.1 then writePlain e.1.toTreeval ++ writeType e.2 else []

lemma writeElements_eq (root : Node Key Treeval) :
    writeElements root = (entries root).flatMap writeElement := by
  induction root with
  | nil => rfl
  | node _ left key val right ihl ihr =>
    simp [writeElements, entries, ihl, ihr, writeElement]

lemma itemCount_le (root : Node Key Treeval) : itemCount root ≤ 2 * (entries root).length := by
  induction root with
  | nil => rfl
  | node _ left key val right ihl ihr =>
    simp only [itemCount, entries, length_append, length_cons]
    split_ifs <;> omega

lemma extraBytes_mono {m n : ℕ} (h : m ≤ n) : extraBytes m ≤ extraBytes n := by
  unfold extraBytes
  split_ifs <;> omega

lemma length_head (major n : ℕ) : (encodeHead 0 major n).length = 1 + extraBytes n := by
  rw [length_encodeHead, argWidth, extraBytes]
  split_ifs <;> first | rfl | omega

lemma length_writeTagged {type : ℕ} (h : type < 256) (data : Data) :
    (writeTagged type data).length = 3 + (data.encode 0).length := by
  have he : extraBytes (registryTag type) = 2 := by
    unfold extraBytes registryTag
    split_ifs <;> omega
  rw [writeTagged, length_append, encodeTag, length_head, he]

lemma length_ofInt_le (i : Int) : ((Data.ofInt i).encode 0).length ≤ 1 + extraBytes i.natAbs := by
  rw [Data.ofInt]
  split
  · rw [Data.encode, length_head]
    exact Nat.add_le_add_left (extraBytes_mono (by omega)) 1
  · rw [Data.encode, length_head]
    exact Nat.add_le_add_left (extraBytes_mono (by omega)) 1

lemma length_writeTypeDhkey (k : Dhkey) : (writeTypeDhkey k).length = 44 := by
  have hword : ∀ word : UInt32, (Data.encode 4 (.uint word.toNat)).length = 5 := by
    intro word
    have hlt := word.toNat_lt
    rw [Data.encode, length_encodeHead, argWidth, if_neg (by omega), if_neg (by omega),
      if_neg (by omega), if_pos ⟨hlt, le_rfl⟩]
    rfl
  have hw : k.words.length = 8 := by simp [Dhkey.words]
  rw [writeTypeDhkey, length_append, length_writeTagged (by decide), length_flatMap,
    Data.encode, length_head]
  simp [hword, hw, extraBytes]

/-- The values whose size is not counted too small: a signed reading of the number and a one-byte
length are enough. -/
def CountedPlain : Treeval → Prop
  | .unsignedInt ui => ui.toNat < 2 ^ 15
  | .hash b => b.bytes.length < 2 ^ 8
  | _ => True

def Counted (val : Treeval) : Prop := Everywhere CountedPlain (fun _ => True) val

lemma length_writePlain_le {val : Treeval} (h : CountedPlain val) :
    (writePlain val).length ≤ treevalGetByteSize val := by
  cases val with
  | short i | int i | long i | longLong i =>
    have hi := length_ofInt_le i.toInt
    rw [writePlain, length_writeTagged (by decide), treevalGetByteSize]
    omega
  | unsignedShort n | unsignedLong n | unsignedLongLong n =>
    rw [writePlain, length_writeTagged (by decide), Data.encode, length_head, treevalGetByteSize]
    omega
  | unsignedInt n =>
    -- the signed member of the union holds the same number
    replace h : n.toNat < 2 ^ 15 := h
    have hn : n.toInt16.toInt.toNat = n.toNat := by
      have hs : n.toBitVec.toInt = n.toBitVec.toNat :=
        BitVec.toInt_eq_toNat_of_lt (by rw [UInt16.toNat_toBitVec]; omega)
      exact congrArg Int.toNat hs
    rw [writePlain, length_writeTagged (by decide), Data.encode, length_head, treevalGetByteSize,
      hn]
    omega
  | charPtr s | bin s =>
    rw [writePlain, Data.encode, length_append, length_head, treevalGetByteSize]
    omega
  | hash b =>
    have hb : extraBytes b.bytes.length ≤ 1 := extraBytes_mono (le_of_lt_succ h)
    rw [writePlain, length_writeTagged (by decide), Data.encode, length_append, length_head,
      treevalGetByteSize]
    omega
  | uintArray2 a b =>
    rw [writePlain, length_append, length_append, length_writeTagged (by decide),
      Data.encode, Data.encode, Data.encode, length_head, length_head, length_head,
      treevalGetByteSize]
    have htwo : extraBytes 2 = 0 := rfl
    omega
  | dhkey k =>
    rw [writePlain, length_writeTypeDhkey]
    rfl
  | char c | float f | double d =>
    simp [writePlain, Data.encode, length_head, Head.encode, extraBytes, treevalGetByteSize]
  | _ => exact zero_le _

lemma countedPlain_key (key : Key) : CountedPlain key.toTreeval := by
  cases key <;> exact trivial

/-- The bytes of a value are counted in its size. -/
def Covers (val : Treeval) : Prop := (writeType val).length ≤ treevalGetByteSize val

structure Accounted (tree : NpTree) : Prop where
  bytes : ((entries tree.root).map fun e => elementGetByteSize e.1 e.2).sum ≤ tree.byteSize
  count : (entries tree.root).length ≤ tree.size
  values : ∀ e ∈ entries tree.root, Covers e.2

lemma accounted_create : Accounted treeCreate := ⟨le_rfl, le_rfl, by simp [treeCreate, entries]⟩

variable {tree : NpTree}

lemma Accounted.effect {tree' : NpTree} {op : Op} (h : Accounted tree)
    (hop : ∀ val stored, Op.val op = some val → copyOfVal val = .ok stored → Covers stored)
    (heff : Effect tree op tree') : Accounted tree' := by
  obtain ⟨hbytes, hcount, hv⟩ := h
  have hv' := heff.values hop hv
  cases heff with
  | looked | present | missing => exact ⟨hbytes, hcount, hv⟩
  | cut hval hkey hroot hsize hb' =>
    refine ⟨?_, ?_, hv'⟩
    · rw [hroot, hb']
      omega
    · rw [hroot, hsize]
      omega
  | added hval hcopy hold hnew hsize hb' | removed hold hnew hsize hb' =>
    rw [hold] at hbytes hcount
    refine ⟨?_, ?_, hv'⟩
    · rw [hnew, hb']
      simp only [map_append, map_cons, List.sum_append, sum_cons] at hbytes ⊢
      omega
    · rw [hnew, hsize]
      simp only [length_append, length_cons] at hcount ⊢
      omega
  | written hcopy hold hnew hsize hb' =>
    rw [hold] at hbytes hcount
    refine ⟨?_, ?_, hv'⟩
    · rw [hnew, hb']
      simp only [map_append, map_cons, List.sum_append, sum_cons] at hbytes ⊢
      omega
    · rw [hnew, hsize]
      simpa using hcount

lemma length_writeElement_le {e : Key × Treeval} (h : Covers e.2) :
    (writeElement e).length ≤ elementGetByteSize e.1 e.2 := by
  rw [writeElement]
  split
  · rw [length_append]
    exact Nat.add_le_add (length_writePlain_le (countedPlain_key e.1)) h
  · exact zero_le _

lemma Accounted.length_writeTree (h : Accounted tree) :
    (writeTree tree).length ≤ mapBytes tree.size tree.byteSize := by
  obtain ⟨root, size, byteSize, attr⟩ := tree
  obtain ⟨hbytes, hcount, hv⟩ := h
  have hsum : ((entries root).flatMap writeElement).length ≤ byteSize := by
    rw [length_flatMap]
    exact (sum_le_sum fun e he => length_writeElement_le (hv e he)).trans hbytes
  have hprs : itemCount root / 2 ≤ size := by
    have hitems := itemCount_le root
    have hc' : (entries root).length ≤ size := hcount
    omega
  have hh := extraBytes_mono hprs
  rw [writeTree, length_append, length_writeTagged (by decide), Data.encode, length_head,
    writeElements_eq]
  change _ ≤ extraBytes size + (1 + 1 + 2 + byteSize)
  omega

lemma Accounted.covers (h : Accounted tree) (kind : TreeKind) : Covers (ofTree kind tree) := by
  have hlen := h.length_writeTree
  have htag : ∀ tag < 2 ^ 8, (encodeTag tag).length ≤ 1 + 2 := by
    intro tag htag
    rw [encodeTag, length_head]
    have he : extraBytes tag ≤ 1 := extraBytes_mono (le_of_lt_succ htag)
    omega
  cases kind with
  | jrbTree => exact hlen
  | cwt => exact (length_append).trans_le (Nat.add_le_add (htag 61 (by decide)) hlen)
  | coseSigned => exact (length_append).trans_le (Nat.add_le_add (htag 98 (by decide)) hlen)
  | coseEncrypted => exact (length_append).trans_le (Nat.add_le_add (htag 96 (by decide)) hlen)

lemma writeType_plain {val : Treeval} (h : Plain val) : writeType val = writePlain val := by
  cases val with
  | jrbTree | cwt | coseSigned | coseEncrypted => cases h.isTree_eq_false
  | _ => rfl

lemma copy_covers :
    ∀ val, Counted val → ∀ stored, copyOfVal val = .ok stored → Covers stored := by
  apply treeval_induction
  · intro val hpl hcnt stored hcopy
    replace hcnt := (everywhere_plain hpl).1 hcnt
    obtain rfl | rfl := copyOfVal_plain hpl hcopy
    · rw [Covers, writeType_plain hpl]
      exact length_writePlain_le hcnt
    · exact zero_le _
  · intro kind tree ih hcnt stored hcopy
    obtain ⟨-, hv⟩ := everywhere_ofTree.1 hcnt
    have hstep : ∀ before target e target', before ++ [e] <+: entries tree.root →
        Accounted target → Copied target e target' → Accounted target' := by
      intro before target e target' hb hacc hcp
      have he : e ∈ entries tree.root := hb.subset (by simp)
      cases hcp with
      | skipped => exact hacc
      | inserted heff =>
        refine hacc.effect ?_ heff
        rintro val stored ⟨⟩ hstd
        exact ih e he (hv e he) stored hstd
    obtain ⟨target, hclone, -, hacc⟩ := clone_inv (fun _ target => Accounted target)
      (fun e _ => copyOfVal_total e.2) accounted_create hstep
    rw [copyOfVal_ofTree, hclone] at hcopy
    cases hcopy
    have hacc' : Accounted { target with attr := ⟨false, tree.attr.immutable⟩ } :=
      ⟨hacc.bytes, hacc.count, hacc.values⟩
    exact hacc'.covers kind

def Reached (r : Except Fault State) : Prop := ∃ s, r = .ok s ∧ Fresh s.tree ∧ Accounted s.tree

lemma reached_start : Reached (start false) := ⟨_, rfl, fresh_create, accounted_create⟩

def CountedOp (op : Op) : Prop := ∀ val, Op.val op = some val → Counted val

lemma step_reached {r : Except Fault State} {op : Op} (h : Reached r) (hop : CountedOp op) :
    Reached (step r op) := by
  obtain ⟨s, rfl, hfr, hacc⟩ := h
  obtain ⟨s', hcall, hf', heff⟩ := call_effect hfr op
  refine ⟨s', hcall, hf', hacc.effect ?_ heff⟩
  intro val stored hval hcopy
  exact copy_covers val (hop val hval) stored hcopy

lemma run_reached (ops : List Op) (hops : ∀ op ∈ ops, CountedOp op) :
    Reached (run step (start false) ops) := by
  induction ops using reverseRecOn with
  | nil => exact reached_start
  | append_singleton before op ih =>
    rw [run_concat]
    exact step_reached (ih fun op hop => hops op (mem_append_left _ hop)) (hops op (by simp))

/-- A tree that only took values whose size is counted right can be written into a buffer of its
byte size. -/
theorem byte_size_suffices (ops : List Op) (hops : ∀ op ∈ ops, CountedOp op) :
    ∃ s bytes, run step (start false) ops = .ok s ∧
      writeMap (treeGetByteSize s.tree) s.tree = .ok bytes ∧
      bytes.length ≤ treeGetByteSize s.tree := by
  obtain ⟨s, hs, -, hacc⟩ := run_reached ops hops
  have hcov : Covers (ofTree .jrbTree s.tree) := hacc.covers .jrbTree
  exact ⟨s, _, hs, if_pos hcov, hcov⟩

def sampleHash : Blob := ⟨[222, 173, 190, 239], by decide⟩

def sampleOps : List Op :=
  [.insert (.int 1) (.unsignedInt 32767), .insert (.int 2) (.hash sampleHash),
    .insert (.int 3) (.cwt ⟨.node .black .nil (.int 5) (.long (-256)) .nil, 1, 11, ⟨false, false⟩⟩)]

lemma sampleOps_counted : ∀ op ∈ sampleOps, CountedOp op := by
  simp only [sampleOps, forall_mem_cons]
  refine ⟨?_, ?_, ?_, by simp⟩
  · rintro _ ⟨⟩
    change (32767 : UInt16).toNat < 2 ^ 15
    decide
  · rintro _ ⟨⟩
    change sampleHash.bytes.length < 2 ^ 8
    decide
  · rintro _ ⟨⟩
    exact ⟨trivial, trivial, trivial, trivial⟩

theorem sample_byte_size_suffices :
    ∃ s bytes, run step (start false) sampleOps = .ok s ∧
      writeMap (treeGetByteSize s.tree) s.tree = .ok bytes ∧
      bytes.length ≤ treeGetByteSize s.tree :=
  byte_size_suffices sampleOps sampleOps_counted

/-- A number whose highest bit is set takes two bytes more than were counted. -/
theorem unsigned_int_overruns :
    ∃ s, run step (start false) [.insert (.int 1) (.unsignedInt 40000)] = .ok s ∧
      writeMap (treeGetByteSize s.tree) s.tree = .error .bufferTooSmall :=
  ⟨_, rfl, by decide⟩

end Neuropil.Tree.Write
