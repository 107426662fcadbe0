import Neuropil.Tree.Read

namespace Neuropil.Datablock.Objects

open List Lib.Buffer Lib.Cbor Lib.Fault Tree.Write Tree.Read

@[ext]
structure Name where
  bytes : Bytes
  no_nul : 0 ∉ bytes
  length_lt : bytes.length < 255

instance : DecidableEq Name := fun _ _ => decidable_of_iff _ Name.ext_iff.symm

/-- The type of an object and the member of np_data_value that goes with it. -/
inductive Value
  | bin (bin : Bytes)
  | int (integer : Int32)
  | uint (unsignedInteger : UInt32)
  | str (str : Bytes)
deriving DecidableEq

def Value.bytes : Value → Bytes
  | .bin bs | .str bs => bs
  | .int _ | .uint _ => []

def Value.withBytes (bs : Bytes) : Value → Value
  | .bin _ => .bin bs
  | .str _ => .str bs
  | value => value

structure KvPair where
  key : Name
  value : Value
deriving DecidableEq

inductive DataReturn
  | keyNotFound
  | insufficientMemory
  | invalidStructure
  | invalidArguments
  | couldNotWriteTotalLength
  | couldNotReadMagicno
  | couldNotReadTotalLength
  | couldNotReadUsedLength
  | couldNotReadObjectCount
  | couldNotReadObject
  | couldNotReadKey
deriving DecidableEq

/-- How a call can end other than with np_data_ok: with another result, a failed assertion, a use of
undefined memory, or still running when the fuel is spent. -/
inductive Stop
  | ret (r : DataReturn)
  | assertion
  | undefined
  | outOfFuel
deriving DecidableEq

/-- The bytes added for an argument of a CBOR head, by the tests of the size function. -/
def sizeOfArgument (wide middle : ℕ) (n : Int) : ℕ :=
  if n > 0xffff then wide
  else if n > 0xff then middle
  else if n > 24 then 1
  else 0

def calculateObjectSize (kv : KvPair) : ℕ :=
  1 + kv.key.bytes.length + (if kv.key.bytes.length > 24 then 1 else 0) +
    match kv.value with
    | .bin bin => sizeOfArgument 2 2 bin.length + (1 + bin.length)
    | .str str => sizeOfArgument 2 2 str.length + (1 + str.length)
    | .int integer =>
      1 + 1 + 2 + sizeOfArgument 4 2 (if integer > 0 then integer else -integer).toInt
    | .uint unsignedInteger => 1 + 1 + 2 + sizeOfArgument 4 2 unsignedInteger.toNat

def writeValue : Value → Bytes
  | .bin bin => Data.encode 0 (.bytes bin)
  | .str str => Data.encode 0 (.text str)
  | .int integer => writeTagged 3 (.ofInt integer.toInt)
  | .uint unsignedInteger => writeTagged 12 (.uint unsignedInteger.toNat)

def writeObject (kv : KvPair) : Bytes := Data.encode 0 (.text kv.key.bytes) ++ writeValue kv.value

def readKey : Data → Except Stop Name
  | .text bs | .bytes bs =>
    if h : bs.length < 255 then
      .ok {
        bytes := bs.takeWhile (· ≠ 0)
        no_nul := fun hmem => by simpa using mem_takeWhile_imp hmem
        length_lt := (takeWhile_sublist _).length_le.trans_lt h }
    else .error .undefined
  | _ => .error .undefined

def readNumber (tag : Option ℕ) (i : Int) : Except Stop Value :=
  if tag = some (registryTag 3) then
    if i > 0x7fffffff ∨ i < -0x80000000 then .error .undefined else .ok (.int (Int32.ofInt i))
  else if tag = some (registryTag 12) then
    if i > 0xffffffff ∨ i < 0 then .error .undefined else .ok (.uint (UInt32.ofNat i.toNat))
  else .error (.ret .invalidArguments)

def readValue (item : Item) : Except Stop Value :=
  match item.data with
  | .bytes bs => .ok (.bin bs)
  | .text bs => .ok (.str bs)
  | .uint n =>
    if n < 2 ^ 63 then readNumber item.tags.head? n else .error (.ret .invalidArguments)
  | .negint n =>
    if n < 2 ^ 63 then readNumber item.tags.head? (-1 - n) else .error (.ret .couldNotReadObject)
  | _ => .error (.ret .invalidArguments)

/-- QCBORDecode_VGetNext on the bytes left in a buffer: the next item, which is `none` if it has a
type that no function of blocks reads, and the bytes behind it. It fails at the end of the buffer
and on bytes that are no item; `cutOff` says if it asked for bytes behind the end then. -/
class Qcbor where
  next : Bytes → Option (Option Item × Bytes)
  next_length_lt : ∀ {input rest : Bytes} {item : Option Item}, next input = some (item, rest) →
    rest.length < input.length
  cutOff : Bytes → Bool

instance : Qcbor where
  next input := (decodeItem input).map fun found => (some found.1, found.2)
  next_length_lt h := by
    obtain ⟨⟨item, rest⟩, hfound, heq⟩ := Option.map_eq_some_iff.1 h
    cases heq
    exact decodeItem_length_lt hfound
  cutOff _ := true

section

variable [Qcbor]

/-- The next item of a buffer whose length may be larger than the memory behind it. -/
def nextItem (overlong : Bool) (r : DataReturn) (input : Bytes) :
    Except Stop (Option Item × Bytes) :=
  match Qcbor.next input with
  | some found => .ok found
  | none => if overlong && Qcbor.cutOff input then .error .undefined else .error (.ret r)

def readObject (overlong : Bool) (input : Bytes) : Except Stop (KvPair × Bytes) := do
  let (keyItem, input) ← nextItem overlong .couldNotReadKey input
  let key ← keyItem.elim (.error .undefined) fun item => readKey item.data
  let (item, rest) ← nextItem overlong .couldNotReadObject input
  let value ← item.elim (.error (.ret .invalidArguments)) readValue
  .ok (⟨key, value⟩, rest)

variable {overlong : Bool} {input rest : Bytes}

lemma readObject_nil : readObject false [] = .error (.ret .couldNotReadKey) := by
  have hnone : Qcbor.next [] = none := by
    refine Option.eq_none_iff_forall_ne_some.2 fun found hfound => ?_
    exact absurd (Qcbor.next_length_lt hfound) (Nat.not_lt_zero _)
  rw [readObject, nextItem, hnone]
  rfl

end

lemma nextItem_eq {overlong : Bool} {r : DataReturn} {input rest : Bytes} {item : Item}
    (h : decodeItem input = some (item, rest)) :
    nextItem overlong r input = .ok (some item, rest) := by
  have hnext : Qcbor.next input = some (some item, rest) := congrArg (Option.map _) h
  rw [nextItem, hnext]

lemma readKey_text (key : Name) : readKey (.text key.bytes) = .ok key := by
  have hall : key.bytes.takeWhile (· ≠ 0) = key.bytes := by
    rw [takeWhile_eq_self_iff]
    intro b hb
    simp only [decide_eq_true_eq]
    rintro rfl
    exact key.no_nul hb
  rw [readKey, dif_pos key.length_lt]
  exact congrArg Except.ok (Name.ext hall)

lemma readValue_int (integer : Int32) :
    ∃ item, (∀ rest, decodeItem (writeValue (.int integer) ++ rest) = some (item, rest)) ∧
      readValue item = .ok (.int integer) := by
  have hlo := integer.le_toInt
  have hhi := integer.toInt_lt
  have hwf : (Data.ofInt integer.toInt).WellFormed := wellFormed_ofInt (by omega) (by omega)
  refine ⟨_, fun rest => decodeItem_writeTagged (by decide) hwf rest, ?_⟩
  have hnum : readNumber (some (registryTag 3)) integer.toInt = .ok (.int integer) := by
    rw [readNumber, if_pos rfl, if_neg (by omega), Int32.ofInt_toInt]
  rw [Data.ofInt]
  split
  · next h =>
    rw [readValue]
    simp only [head?_cons]
    rw [if_pos (by omega), Int.toNat_of_nonneg h, hnum]
  · rw [readValue]
    simp only [head?_cons]
    rw [if_pos (by omega), Int.toNat_of_nonneg (by omega), sub_sub_cancel, hnum]

lemma readValue_writeValue {value : Value} (h : (writeValue value).length < 2 ^ 32) :
    ∃ item, (∀ rest, decodeItem (writeValue value ++ rest) = some (item, rest)) ∧
      readValue item = .ok value := by
  cases value with
  | bin bs =>
    have hwf : (Data.bytes bs).WellFormed := by
      simp only [writeValue, Data.encode, length_append] at h
      simp only [Data.WellFormed]
      omega
    exact ⟨_, fun rest => decodeItem_data hwf 0 rest, rfl⟩
  | str bs =>
    have hwf : (Data.text bs).WellFormed := by
      simp only [writeValue, Data.encode, length_append] at h
      simp only [Data.WellFormed]
      omega
    exact ⟨_, fun rest => decodeItem_data hwf 0 rest, rfl⟩
  | int integer => exact readValue_int integer
  | uint n =>
    have hn := n.toNat_lt
    have hwf : (Data.uint n.toNat).WellFormed := Nat.lt_trans hn (by decide)
    refine ⟨_, fun rest => decodeItem_writeTagged (by decide) hwf rest, ?_⟩
    rw [readValue]
    simp only [head?_cons]
    rw [if_pos (by omega), readNumber, if_neg (by decide), if_pos rfl, if_neg (by omega),
      Int.toNat_natCast, UInt32.ofNat_toNat]

lemma readObject_writeObject {kv : KvPair} (h : (writeObject kv).length < 2 ^ 32)
    (rest : Bytes) (overlong : Bool) :
    readObject overlong (writeObject kv ++ rest) = .ok (kv, rest) := by
  have hkey : (Data.text kv.key.bytes).WellFormed := Nat.lt_trans kv.key.length_lt (by decide)
  have hv : (writeValue kv.value).length < 2 ^ 32 := by
    rw [writeObject, length_append] at h
    omega
  obtain ⟨item, hitem, hread⟩ := readValue_writeValue hv
  rw [readObject, writeObject, append_assoc, nextItem_eq (decodeItem_data hkey 0 _), ok_bind]
  simp only [Option.elim_some, readKey_text, ok_bind, nextItem_eq (hitem rest), hread]

def objectFront (kv : KvPair) : Bytes :=
  (writeObject kv).take ((writeObject kv).length - kv.value.bytes.length)

lemma writeObject_withBytes (kv : KvPair) {bs : Bytes} (h : bs.length = kv.value.bytes.length) :
    writeObject ⟨kv.key, kv.value.withBytes bs⟩ = objectFront kv ++ bs := by
  have hfront : ∀ {key : Name} {value : Value} (front : Bytes),
      writeObject ⟨key, value⟩ = front ++ value.bytes → objectFront ⟨key, value⟩ = front := by
    intro key value front heq
    rw [objectFront, heq, length_append, Nat.add_sub_cancel, take_left]
  obtain ⟨key, value⟩ := kv
  cases value with
  | bin old | str old =>
    rw [hfront _ (append_assoc _ _ _).symm]
    simp only [Value.bytes] at h
    simp only [writeObject, writeValue, Data.encode, Value.withBytes, h, append_assoc]
  | int | uint =>
    rw [hfront _ (append_nil _).symm, length_eq_zero_iff.1 h, append_nil]
    rfl

lemma withBytes_bytes (value : Value) : value.withBytes value.bytes = value := by
  cases value <;> rfl

lemma calculateObjectSize_withBytes (kv : KvPair) {bs : Bytes}
    (h : bs.length = kv.value.bytes.length) :
    calculateObjectSize ⟨kv.key, kv.value.withBytes bs⟩ = calculateObjectSize kv := by
  obtain ⟨key, value⟩ := kv
  cases value <;> simp only [Value.bytes] at h <;>
    simp only [calculateObjectSize, Value.withBytes, h]

end Neuropil.Datablock.Objects
