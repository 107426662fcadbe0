import Neuropil.Datablock.Objects

namespace Neuropil.Datablock.Sizes

open List Lib.Cbor Tree.Values Tree.Write Datablock.Objects

/-- The bytes of a key not counted: 24 is the first length that has a byte of its own. -/
def keyMissing (key : Name) : ℕ := if key.bytes.length = 24 then 1 else 0

def missing : Value → ℕ
  | .bin bs | .str bs =>
    if bs.length = 24 then 1 else if 0xffff < bs.length then extraBytes bs.length - 2 else 0
  | .int integer => if integer.toInt = 24 then 1 else if integer.toInt = -0x80000000 then 4 else 0
  | .uint unsignedInteger => if unsignedInteger.toNat = 24 then 1 else 0

/-- The bytes counted for a value and not written. CBOR stores a negative number as its distance to
-1. -/
def surplus : Value → ℕ
  | .int integer =>
    if integer.toInt = -0x100 then 1 else if integer.toInt = -0x10000 then 2 else 0
  | _ => 0

def SizeExact (kv : KvPair) : Prop :=
  match kv.value with
  | .bin bs | .str bs => kv.key.bytes.length ≠ 24 ∧ bs.length ≠ 24 ∧ bs.length ≤ 0xffff
  | .uint unsignedInteger => kv.key.bytes.length ≠ 24 ∧ unsignedInteger.toNat ≠ 24
  | .int integer =>
    if kv.key.bytes.length = 24 then integer.toInt = -0x100
    else integer.toInt ∉ ([24, -0x100, -0x10000, -0x80000000] : List Int)

lemma magnitude_eq (integer : Int32) : (if integer > 0 then integer else -integer).toInt =
      if integer.toInt = -0x80000000 then -0x80000000 else (integer.toInt.natAbs : Int) := by
  have hlo := integer.le_toInt
  have hpos : integer > 0 ↔ 0 < integer.toInt := Int32.lt_iff_toInt_lt
  by_cases h : integer > 0
  · have hlt := hpos.1 h
    rw [if_pos h, if_neg (by omega)]
    omega
  · rw [hpos] at h
    rw [if_neg (mt hpos.1 h), Int32.toInt_neg]
    split_ifs with hmin
    · rw [hmin]
      rfl
    · rw [Int.bmod_eq_of_le (by omega) (by omega)]
      omega

lemma length_ofInt (integer : Int32) :
    ((Data.ofInt integer.toInt).encode 0).length = 1 + extraBytes
      (if 0 ≤ integer.toInt then integer.toInt.toNat else (-1 - integer.toInt).toNat) := by
  rw [Data.ofInt]
  split_ifs <;> rw [Data.encode, length_head]

lemma key_balance (key : Name) :
    1 + key.bytes.length + (if key.bytes.length > 24 then 1 else 0) + keyMissing key =
      (Data.encode 0 (.text key.bytes)).length := by
  have hlt := key.length_lt
  rw [Data.encode, length_append, length_head, extraBytes, keyMissing]
  grind

lemma string_balance (n : ℕ) :
    sizeOfArgument 2 2 n + (1 + n) +
        (if n = 24 then 1 else if 0xffff < n then extraBytes n - 2 else 0) =
      1 + extraBytes n + n := by
  rw [sizeOfArgument, extraBytes]
  grind

variable {n : ℕ}

lemma argument_balance (h : n < 2 ^ 32) :
    sizeOfArgument 4 2 n + (if n = 24 then 1 else 0) = extraBytes n := by
  rw [sizeOfArgument, extraBytes]
  grind

lemma extraBytes_succ (h : n + 1 < 2 ^ 32) :
    extraBytes (n + 1) = extraBytes n +
      if n + 1 = 24 then 1 else if n + 1 = 0x100 then 1 else if n + 1 = 0x10000 then 2 else 0 := by
  rw [extraBytes, extraBytes]
  grind

lemma uint_balance (n : UInt32) :
    1 + 1 + 2 + sizeOfArgument 4 2 n.toNat + missing (.uint n) = (writeValue (.uint n)).length := by
  have hsize := argument_balance n.toNat_lt
  rw [missing, writeValue, length_writeTagged (by decide), Data.encode, length_head]
  omega

lemma int_balance (i : Int32) :
    1 + 1 + 2 + sizeOfArgument 4 2 (if i > 0 then i else -i).toInt + missing (.int i) =
      (writeValue (.int i)).length + surplus (.int i) := by
  have hlo := i.le_toInt
  have hhi := i.toInt_lt
  rw [magnitude_eq, missing, surplus, writeValue, length_writeTagged (by decide), length_ofInt]
  by_cases hmin : i.toInt = -0x80000000
  · rw [hmin]
    rfl
  have hsize := argument_balance (by omega : i.toInt.natAbs < 2 ^ 32)
  by_cases hpos : 0 ≤ i.toInt
  · grind
  · -- the argument of a negative number is one less than its magnitude
    obtain ⟨n, hn⟩ : ∃ n : ℕ, i.toInt = -(n + 1 : ℕ) := ⟨i.toInt.natAbs - 1, by omega⟩
    have hsucc := extraBytes_succ (by omega : n + 1 < 2 ^ 32)
    grind

lemma size_balance (kv : KvPair) :
    calculateObjectSize kv + (keyMissing kv.key + missing kv.value) =
      (writeObject kv).length + surplus kv.value := by
  obtain ⟨key, value⟩ := kv
  have hkey := key_balance key
  rw [calculateObjectSize, writeObject, length_append, ← hkey]
  cases value with
  | bin bs | str bs =>
    have hv := string_balance bs.length
    simp only [missing, surplus, writeValue, Data.encode, length_append, length_head]
    omega
  | uint n =>
    have hv := uint_balance n
    simp only [surplus]
    omega
  | int i =>
    have hv := int_balance i
    simp only
    omega

lemma two_lt_extraBytes (h : 0xffff < n) : 2 < extraBytes n := by
  rw [extraBytes]
  grind

/-- The size computed for an object is the number of bytes written for it exactly if the case split
is right about all its lengths and numbers, or the errors of a key of 24 characters and the number
-256 cancel out. -/
theorem object_size_eq_written_iff (kv : KvPair) :
    calculateObjectSize kv = (writeObject kv).length ↔ SizeExact kv := by
  have hb := size_balance kv
  obtain ⟨key, value⟩ := kv
  rw [SizeExact]
  simp only [keyMissing] at hb ⊢
  cases value with
  | bin bs | str bs =>
    have hw : 0xffff < bs.length → 2 < extraBytes bs.length := two_lt_extraBytes
    simp only [missing, surplus] at hb ⊢
    grind
  | uint n =>
    simp only [missing, surplus] at hb ⊢
    grind
  | int i =>
    simp only [missing, surplus, mem_cons, not_mem_nil, or_false] at hb ⊢
    grind

/-- A value of 24 bytes is written with one byte more than is counted. -/
theorem value_of_24_bytes_counted_short :
    calculateObjectSize ⟨⟨[107], by decide, by decide⟩, .bin (replicate 24 0)⟩ = 27 ∧
      (writeObject ⟨⟨[107], by decide, by decide⟩, .bin (replicate 24 0)⟩).length = 28 := by
  decide

end Neuropil.Datablock.Sizes
