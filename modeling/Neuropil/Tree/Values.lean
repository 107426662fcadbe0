import Neuropil.Dhkey.Order
import Neuropil.Lib.Buffer
import Neuropil.Tree.RedBlack

namespace Neuropil.Tree.Values

open Lib.Buffer Tree.RedBlack

/-- The bytes of a C string before its terminator, as many as a treeval's `size` can count. -/
@[ext]
structure CString where
  bytes : Bytes
  no_nul : 0 ∉ bytes
  length_lt : bytes.length < 2 ^ 32
deriving DecidableEq

def CString.dup (s : CString) (n : ℕ) : CString where
  bytes := s.bytes.take n
  no_nul h := s.no_nul (List.mem_of_mem_take h)
  length_lt := (List.length_take_le' n s.bytes).trans_lt s.length_lt

/-- The bytes behind a pointer, as many as a treeval's `size` can count. -/
@[ext]
structure Blob where
  bytes : Bytes
  length_lt : bytes.length < 2 ^ 32
deriving DecidableEq

@[ext]
structure Uuid where
  bytes : Bytes
  length_eq : bytes.length = 16
deriving DecidableEq

structure Double where
  bits : UInt64
deriving DecidableEq

namespace Double

def magnitude (d : Double) : ℕ := d.bits.toNat % 2 ^ 63

def negative (d : Double) : Bool := decide (2 ^ 63 ≤ d.bits.toNat)

def isNan (d : Double) : Bool := decide (0x7ff0000000000000 < d.magnitude)

/-- A number in the order of the doubles that are not NaN; the two zeros share it. -/
def scale (d : Double) : Int := if d.negative then -d.magnitude else d.magnitude

/-- The sign of `a - b`, which is NaN and neither negative nor positive if `a` or `b` is. -/
def diffSign (a b : Double) : Int := if a.isNan || b.isNan then 0 else (a.scale - b.scale).sign

end Double

/-- The keys np_tree has functions for, and the special strings. -/
inductive Key
  | str (s : CString)
  | int (i : Int16)
  | ulong (ul : UInt32)
  | dbl (d : Double)
  | dhkey (k : Dhkey)
  | uuid (u : Uuid)
  | special (ush : UInt8)

def Key.type : Key → ℕ
  | .int _ => 2
  | .dbl _ => 6
  | .str _ => 7
  | .ulong _ => 12
  | .dhkey _ => 21
  | .uuid _ => 22
  | .special _ => 26

/-- strncmp over two strings up to and including a terminator, and memcmp over two byte strings of
the same length. -/
def byteCmp : Bytes → Bytes → Int
  | [], [] => 0
  | [], b :: _ => -b.toNat
  | a :: _, [] => a.toNat
  | a :: as, b :: bs => if a = b then byteCmp as bs else (a.toNat : Int) - b.toNat

def toInt16 (n : Int) : Int := n.bmod (2 ^ 16)

/-- _np_tree_elem_cmp. Keys of different types, and two special strings, are told apart by
`type1 - type2 > 0` alone. -/
def elemCmp : Key → Key → Int
  | .str a, .str b => toInt16 (byteCmp a.bytes b.bytes)
  | .dbl a, .dbl b => a.diffSign b
  | .ulong a, .ulong b => toInt16 (a - b).toNat
  | .int a, .int b => toInt16 (a.toInt - b.toInt)
  | .dhkey a, .dhkey b => toInt16 (Dhkey.cmp a b)
  | .uuid a, .uuid b => toInt16 (byteCmp a.bytes b.bytes)
  | a, b => if b.type < a.type then 1 else 0

structure TreeConf where
  inPlace : Bool
  immutable : Bool
deriving DecidableEq

/-- np_tree_s over values of type `ν`. -/
structure TreeOf (ν : Type) where
  root : Node Key ν
  size : ℕ
  byteSize : ℕ
  attr : TreeConf

/-- np_treeval_s; floats are bit patterns and pointers that nobody follows are numbers. -/
inductive Treeval
  | undefined
  | short (sh : Int8)
  | int (i : Int16)
  | long (l : Int32)
  | longLong (ll : Int64)
  | float (f : UInt32)
  | double (d : Double)
  | charPtr (s : CString)
  | char (c : UInt8)
  | unsignedChar (uc : UInt8)
  | unsignedShort (ush : UInt8)
  | unsignedInt (ui : UInt16)
  | unsignedLong (ul : UInt32)
  | unsignedLongLong (ull : UInt64)
  | uintArray2 (a b : UInt16)
  | floatArray2 (a b : UInt32)
  | charArray8 (carray : Bytes)
  | unsignedCharArray8 (ucarray : Bytes)
  | void (v : ℕ)
  | bin (b : Blob)
  | jrbTree (tree : TreeOf Treeval)
  | dhkey (k : Dhkey)
  | uuid (u : Uuid)
  | hash (b : Blob)
  | npobj (v : ℕ)
  | npvalCount
  | specialCharPtr (ush : UInt8)
  | cwt (tree : TreeOf Treeval)
  | coseSigned (tree : TreeOf Treeval)
  | coseEncrypted (tree : TreeOf Treeval)

abbrev NpTree := TreeOf Treeval

def Key.toTreeval : Key → Treeval
  | .str s => .charPtr s
  | .int i => .int i
  | .ulong ul => .unsignedLong ul
  | .dbl d => .double d
  | .dhkey k => .dhkey k
  | .uuid u => .uuid u
  | .special ush => .specialCharPtr ush

/-- The bytes behind the first byte of the CBOR head for `n`, by the cascade of tests of
np_treeval_get_byte_size. Narrow types lack the tests their values cannot pass. -/
def extraBytes (n : ℕ) : ℕ :=
  if n > 0xffffffff then 8
  else if n > 0xffff then 4
  else if n > 0xff then 2
  else if n ≥ 24 then 1
  else 0

def mapBytes (size byteSize : ℕ) : ℕ := extraBytes size + (1 + 1 + 2 + byteSize)

/-- np_treeval_get_byte_size with NP_USE_QCBOR. -/
def treevalGetByteSize : Treeval → ℕ
  | .short sh => 4 + extraBytes sh.toInt.natAbs
  | .int i => 4 + extraBytes i.toInt.natAbs
  | .long l => 4 + extraBytes l.toInt.natAbs
  | .longLong ll => 4 + extraBytes ll.toInt.natAbs
  | .float _ => 1 + 4
  | .double _ => 1 + 8
  | .charPtr s => extraBytes s.bytes.length + (1 + s.bytes.length)
  | .char _ => 1 + 1
  | .unsignedChar _ => 1 + 1
  | .unsignedShort ush => 4 + extraBytes ush.toNat
  -- the tests read `value.i`, the signed member of the union
  | .unsignedInt ui => 4 + extraBytes ui.toInt16.toInt.toNat
  | .unsignedLong ul => 4 + extraBytes ul.toNat
  | .unsignedLongLong ull => 4 + extraBytes ull.toNat
  | .uintArray2 a b => extraBytes a.toNat + extraBytes b.toNat + (1 + 1 + 2 + 1 + 1)
  | .floatArray2 _ _ => 1 + 2 * 4
  | .charArray8 _ => 1 + 8
  | .unsignedCharArray8 _ => 1 + 8
  | .void _ => 1 + 8
  | .bin b => extraBytes b.bytes.length + (1 + b.bytes.length)
  | .hash b => 1 + 1 + 2 + 1 + b.bytes.length
  | .jrbTree tree => mapBytes tree.size tree.byteSize
  | .dhkey _ => 1 + 1 + 2 + 8 * (1 + 4)
  | .coseEncrypted tree => (1 + 2) + mapBytes tree.size tree.byteSize
  | .coseSigned tree => (1 + 2) + mapBytes tree.size tree.byteSize
  | .cwt tree => (1 + 2) + mapBytes tree.size tree.byteSize
  | .undefined | .uuid _ | .npobj _ | .npvalCount | .specialCharPtr _ => 0

def elementGetByteSize (key : Key) (val : Treeval) : ℕ :=
  treevalGetByteSize key.toTreeval + treevalGetByteSize val

end Neuropil.Tree.Values
