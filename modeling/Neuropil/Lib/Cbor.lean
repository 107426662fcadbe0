import Neuropil.Lib.Buffer

namespace Neuropil.Lib.Cbor

open List Nat Option Lib.Buffer

def beBytes (len n : ℕ) : Bytes := (leBytes len n).reverse

def beVal (bs : Bytes) : ℕ := leVal bs.reverse

lemma beVal_beBytes {len n : ℕ} (h : n < 256 ^ len) : beVal (beBytes len n) = n := by
  rw [beVal, beBytes, reverse_reverse, leVal_leBytes, mod_eq_of_lt h]

@[simp] lemma length_beBytes (len n : ℕ) : (beBytes len n).length = len := by
  simp [beBytes]

def readFixed (count : ℕ) (input : Bytes) : Option (Bytes × Bytes) :=
  if count ≤ input.length then some (input.take count, input.drop count) else none

variable {rest : Bytes}

lemma readFixed_append {count : ℕ} {bs : Bytes} (h : bs.length = count) :
    readFixed count (bs ++ rest) = some (bs, rest) := by
  subst h
  simp [readFixed]

/-- What the first bytes of an item say. The argument is in the initial byte, or in the
`2 ^ width` bytes that follow it. -/
structure Head where
  major : ℕ
  width : Option ℕ
  arg : ℕ
deriving DecidableEq

def Head.encode (head : Head) : Bytes :=
  match head.width with
  | none => [UInt8.ofNat (32 * head.major + head.arg)]
  | some width => UInt8.ofNat (32 * head.major + 24 + width) :: beBytes (2 ^ width) head.arg

def decodeHead : Bytes → Option (Head × Bytes)
  | [] => none
  | b :: rest =>
    if b.toNat % 32 < 24 then some (⟨b.toNat / 32, none, b.toNat % 32⟩, rest)
    else if b.toNat % 32 < 28 then
      (readFixed (2 ^ (b.toNat % 32 - 24)) rest).map fun r =>
        (⟨b.toNat / 32, some (b.toNat % 32 - 24), beVal r.1⟩, r.2)
    else none

structure Head.Fits (head : Head) : Prop where
  major_lt : head.major < 8
  arg_lt : match head.width with
    | none => head.arg < 24
    | some width => width < 4 ∧ head.arg < 256 ^ 2 ^ width

variable {head : Head}

lemma decodeHead_encode (h : head.Fits) (rest : Bytes) :
    decodeHead (head.encode ++ rest) = some (head, rest) := by
  obtain ⟨major, width, arg⟩ := head
  obtain ⟨hmajor, harg⟩ := h
  replace hmajor : major < 8 := hmajor
  cases width with
  | none =>
    replace harg : arg < 24 := harg
    have hb : (UInt8.ofNat (32 * major + arg)).toNat = 32 * major + arg := by
      rw [UInt8.toNat_ofNat']
      omega
    have hdiv : (32 * major + arg) / 32 = major := by omega
    have hmod : (32 * major + arg) % 32 = arg := by omega
    simp only [Head.encode, singleton_append, decodeHead, hb, hdiv, hmod]
    rw [if_pos harg]
  | some width =>
    obtain ⟨hw, harg⟩ := harg
    have hb : (UInt8.ofNat (32 * major + 24 + width)).toNat = 32 * major + 24 + width := by
      rw [UInt8.toNat_ofNat']
      omega
    have hdiv : (32 * major + 24 + width) / 32 = major := by omega
    have hmod : (32 * major + 24 + width) % 32 = 24 + width := by omega
    simp only [Head.encode, cons_append, decodeHead, hb, hdiv, hmod]
    rw [if_neg (by omega), if_pos (by omega), Nat.add_sub_cancel_left,
      readFixed_append (length_beBytes _ _), map_some, beVal_beBytes harg]

/-- The shortest form of an argument that has at least `minLen` bytes after the initial one. -/
def argWidth (minLen n : ℕ) : Option ℕ :=
  if n < 24 ∧ minLen = 0 then none
  else if n < 2 ^ 8 ∧ minLen ≤ 1 then some 0
  else if n < 2 ^ 16 ∧ minLen ≤ 2 then some 1
  else if n < 2 ^ 32 ∧ minLen ≤ 4 then some 2
  else some 3

def encodeHead (minLen major n : ℕ) : Bytes := Head.encode ⟨major, argWidth minLen n, n⟩

lemma fits_argWidth {major n : ℕ} (minLen : ℕ) (hmajor : major < 8) (hn : n < 2 ^ 64) :
    Head.Fits ⟨major, argWidth minLen n, n⟩ := by
  refine ⟨hmajor, ?_⟩
  unfold argWidth
  split_ifs with h1 h2 h3 h4
  · exact h1.1
  · exact ⟨by decide, h2.1⟩
  · exact ⟨by decide, h3.1⟩
  · exact ⟨by decide, h4.1⟩
  · exact ⟨by decide, hn⟩

lemma length_encodeHead (minLen major n : ℕ) :
    (encodeHead minLen major n).length = 1 + ((argWidth minLen n).map (2 ^ ·)).getD 0 := by
  rw [encodeHead, Head.encode]
  cases argWidth minLen n with
  | none => rfl
  | some width => simp [add_comm]

/-- The items of a stream without their tags; the elements of an array and the entries of a map
follow its head. -/
inductive Data
  | uint (n : ℕ)
  | negint (n : ℕ)
  | bytes (bs : Bytes)
  | text (bs : Bytes)
  | array (count : ℕ)
  | map (count : ℕ)
  | float (bits : UInt32)
  | double (bits : UInt64)
deriving DecidableEq

namespace Data

def encode (minLen : ℕ) : Data → Bytes
  | uint n => encodeHead minLen 0 n
  | negint n => encodeHead minLen 1 n
  | bytes bs => encodeHead minLen 2 bs.length ++ bs
  | text bs => encodeHead minLen 3 bs.length ++ bs
  | array n => encodeHead minLen 4 n
  | map n => encodeHead minLen 5 n
  | float bits => Head.encode ⟨7, some 2, bits.toNat⟩
  | double bits => Head.encode ⟨7, some 3, bits.toNat⟩

def WellFormed : Data → Prop
  | uint n => n < 2 ^ 64
  | negint n => n < 2 ^ 64
  | bytes bs => bs.length < 2 ^ 64
  | text bs => bs.length < 2 ^ 64
  | array n => n < 2 ^ 64
  | map n => n < 2 ^ 64
  | float _ => True
  | double _ => True

def ofInt (i : Int) : Data := if 0 ≤ i then uint i.toNat else negint (-1 - i).toNat

end Data

def decodeData (head : Head) (input : Bytes) : Option (Data × Bytes) :=
  match head.major, head.width with
  | 0, _ => some (.uint head.arg, input)
  | 1, _ => some (.negint head.arg, input)
  | 2, _ => (readFixed head.arg input).map fun r => (.bytes r.1, r.2)
  | 3, _ => (readFixed head.arg input).map fun r => (.text r.1, r.2)
  | 4, _ => some (.array head.arg, input)
  | 5, _ => some (.map head.arg, input)
  | 7, some 2 => some (.float (UInt32.ofNat head.arg), input)
  | 7, some 3 => some (.double (UInt64.ofNat head.arg), input)
  | _, _ => none

/-- An item with its tags, the innermost one first. -/
structure Item where
  tags : List ℕ
  data : Data
deriving DecidableEq

def encodeTag (tag : ℕ) : Bytes := encodeHead 0 6 tag

def decodeTagged : ℕ → List ℕ → Bytes → Option (Item × Bytes)
  | 0, _, _ => none
  | fuel + 1, tags, input => do
    let (head, rest) ← decodeHead input
    if head.major = 6 then decodeTagged fuel (head.arg :: tags) rest
    else (decodeData head rest).map fun r => (⟨tags, r.1⟩, r.2)

/-- The next item of a stream, which has at most four tags. -/
def decodeItem (input : Bytes) : Option (Item × Bytes) := decodeTagged 5 [] input

lemma decodeTagged_tag {tag : ℕ} (h : tag < 2 ^ 64) (fuel : ℕ) (tags : List ℕ) (rest : Bytes) :
    decodeTagged (fuel + 1) tags (encodeTag tag ++ rest) =
      decodeTagged fuel (tag :: tags) rest := by
  rw [decodeTagged, encodeTag, encodeHead, decodeHead_encode (fits_argWidth 0 (by decide) h)]
  rfl

variable {data : Data}

lemma decodeTagged_data (h : data.WellFormed) (minLen fuel : ℕ) (tags : List ℕ) (rest : Bytes) :
    decodeTagged (fuel + 1) tags (data.encode minLen ++ rest) = some (⟨tags, data⟩, rest) := by
  have hh : ∀ {major n : ℕ} (bs : Bytes), major < 8 → n < 2 ^ 64 →
      decodeHead (encodeHead minLen major n ++ bs) =
        some (⟨major, argWidth minLen n, n⟩, bs) := fun bs hm hn =>
    decodeHead_encode (fits_argWidth minLen hm hn) bs
  rw [decodeTagged]
  cases data with
  | uint n | negint n | array n | map n =>
    rw [Data.encode, hh _ (by decide) h]
    rfl
  | bytes bs | text bs =>
    rw [Data.encode, append_assoc, hh _ (by decide) h]
    simp [decodeData, readFixed_append]
  | float bits =>
    have hfits : Head.Fits ⟨7, some 2, bits.toNat⟩ := ⟨lt_succ_self 7, by decide, bits.toNat_lt⟩
    rw [Data.encode, decodeHead_encode hfits]
    simp [decodeData]
  | double bits =>
    have hfits : Head.Fits ⟨7, some 3, bits.toNat⟩ := ⟨lt_succ_self 7, by decide, bits.toNat_lt⟩
    rw [Data.encode, decodeHead_encode hfits]
    simp [decodeData]

lemma decodeItem_data (h : data.WellFormed) (minLen : ℕ) (rest : Bytes) :
    decodeItem (data.encode minLen ++ rest) = some (⟨[], data⟩, rest) :=
  decodeTagged_data h minLen 4 [] rest

lemma decodeItem_tagged {tag : ℕ} (htag : tag < 2 ^ 64) (h : data.WellFormed)
    (minLen : ℕ) (rest : Bytes) :
    decodeItem (encodeTag tag ++ data.encode minLen ++ rest) = some (⟨[tag], data⟩, rest) := by
  rw [append_assoc, decodeItem, decodeTagged_tag htag, decodeTagged_data h]

variable {input : Bytes}

lemma readFixed_length_le {count : ℕ} {bs : Bytes} (h : readFixed count input = some (bs, rest)) :
    rest.length ≤ input.length := by
  rw [readFixed] at h
  split_ifs at h
  cases h
  exact (length_drop ..).trans_le (sub_le _ _)

lemma decodeHead_length_lt (h : decodeHead input = some (head, rest)) :
    rest.length < input.length := by
  cases input with
  | nil => cases h
  | cons b input =>
    rw [decodeHead] at h
    split_ifs at h
    · cases h
      exact lt_succ_self _
    · obtain ⟨⟨bs, last⟩, hread, heq⟩ := map_eq_some_iff.1 h
      cases heq
      exact lt_succ_of_le (readFixed_length_le hread)

lemma decodeData_length_le (h : decodeData head input = some (data, rest)) :
    rest.length ≤ input.length := by
  rw [decodeData] at h
  split at h
  case h_3 | h_4 =>
    obtain ⟨⟨bs, last⟩, hread, heq⟩ := map_eq_some_iff.1 h
    cases heq
    exact readFixed_length_le hread
  case h_9 => cases h
  all_goals
    cases h
    rfl

lemma decodeTagged_length_lt {fuel : ℕ} {tags : List ℕ} {item : Item}
    (h : decodeTagged fuel tags input = some (item, rest)) : rest.length < input.length := by
  induction fuel generalizing tags input with
  | zero => cases h
  | succ fuel ih =>
    obtain ⟨⟨head, next⟩, hh, h⟩ := bind_eq_some_iff.1 h
    have hlt := decodeHead_length_lt hh
    simp only at h
    split_ifs at h
    · exact (ih h).trans hlt
    · obtain ⟨⟨data, last⟩, hd, heq⟩ := map_eq_some_iff.1 h
      cases heq
      exact (decodeData_length_le hd).trans_lt hlt

lemma decodeItem_length_lt {item : Item} (h : decodeItem input = some (item, rest)) :
    rest.length < input.length :=
  decodeTagged_length_lt h

end Neuropil.Lib.Cbor
