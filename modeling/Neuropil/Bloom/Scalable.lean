import Neuropil.Bloom.Decaying
import Neuropil.Lib.Cells

namespace Neuropil.Bloom.Scalable

open List Nat Lib.Fault Lib.Cells
open Bloom.Filter (FilterFault)
open Bloom.Decaying (positions)

/-- A filter of blocks with `size` bits each (`_d` is 1), one after the other. -/
structure ScalableBloom where
  size : ℕ
  numBlocks : UInt8
  freeItems : UInt16
  bitset : List UInt8

def blockBytes (size : ℕ) : ℕ := size / 8

def create (size : ℕ) : ScalableBloom :=
  ⟨size, 1, UInt16.ofNat (size / 16), replicate (blockBytes size) 0⟩

section

variable (junk : ℕ → UInt8)

def realloc (bytes : List UInt8) (length : ℕ) : List UInt8 :=
  (range length).map fun i => bytes.getD i (junk i)

def memset (bytes : List UInt8) (start length : ℕ) : Except FilterFault (List UInt8) :=
  if start + length ≤ bytes.length then
    .ok (bytes.take start ++ replicate length 0 ++ bytes.drop (start + length))
  else .error .outOfBounds

def grow (bloom : ScalableBloom) : Except FilterFault ScalableBloom := do
  let x := blockBytes bloom.size * bloom.numBlocks.toNat % 2 ^ 16
  let numBlocks := bloom.numBlocks + 1
  let bitset := realloc junk bloom.bitset (blockBytes bloom.size * numBlocks.toNat)
  let freeItems := bloom.freeItems + UInt16.ofNat (bloom.size / 16)
  let bitset ← memset bitset x (blockBytes bloom.size)
  return { bloom with numBlocks, freeItems, bitset }

def bitsetOffset (size block : ℕ) : ℕ := block * size / 8 % 2 ^ 16

def bitmask (pos : ℕ) : UInt8 := 0x80 >>> UInt8.ofNat (pos % 8)

def setBits (offset : ℕ) : List ℕ → List UInt8 → Except FilterFault (List UInt8)
  | [], bitset => .ok bitset
  | pos :: rest, bitset => do
    let byte ← load .outOfBounds bitset (offset + pos / 8)
    let bitset ← store .outOfBounds bitset (offset + pos / 8) (byte ||| bitmask pos)
    setBits offset rest bitset

def prepare (bloom : ScalableBloom) : Except FilterFault ScalableBloom :=
  if bloom.freeItems = 0 then grow junk bloom else .ok bloom

def add (bloom : ScalableBloom) (id : Dhkey) : Except FilterFault ScalableBloom := do
  let bloom ← prepare junk bloom
  let offset := bitsetOffset bloom.size (bloom.numBlocks.toNat - 1)
  let bitset ← setBits offset (positions id bloom.size) bloom.bitset
  return { bloom with bitset, freeItems := bloom.freeItems - 1 }

def testBits (bitset : List UInt8) (offset : ℕ) : List ℕ → Bool → Except FilterFault Bool
  | [], ret => .ok ret
  | pos :: rest, ret => do
    let byte ← load .outOfBounds bitset (offset + pos / 8)
    testBits bitset offset rest (if byte &&& bitmask pos = 0 then false else ret)

def checkBlocks (bloom : ScalableBloom) (id : Dhkey) : List ℕ → Bool → Except FilterFault Bool
  | [], ret => .ok ret
  | block :: rest, _ => do
    let ret ← testBits bloom.bitset (bitsetOffset bloom.size block) (positions id bloom.size) true
    if ret then return ret else checkBlocks bloom id rest ret

def check (bloom : ScalableBloom) (id : Dhkey) : Except FilterFault Bool :=
  checkBlocks bloom id (range bloom.numBlocks.toNat) true

def fill (size : ℕ) (ids : List Dhkey) : Except FilterFault ScalableBloom :=
  ids.foldlM (add junk) (create size)

end

/-- A new block is needed only while the number of blocks fits into a byte and the length of the
blocks in use into two. -/
def Growable (bloom : ScalableBloom) : Prop :=
  bloom.freeItems = 0 →
    bloom.numBlocks.toNat < 255 ∧ blockBytes bloom.size * bloom.numBlocks.toNat < 65536

instance (bloom : ScalableBloom) : Decidable (Growable bloom) :=
  inferInstanceAs (Decidable (_ → _ ∧ _))

structure Spacious (size : ℕ) (bloom : ScalableBloom) : Prop where
  size_eq : bloom.size = size
  blocks : 0 < bloom.numBlocks.toNat
  length : bloom.bitset.length = blockBytes size * bloom.numBlocks.toNat
  offsets : blockBytes size * (bloom.numBlocks.toNat - 1) < 65536

def BitSet (bitset : List UInt8) (offset pos : ℕ) : Prop :=
  ∃ byte, bitset[offset + pos / 8]? = some byte ∧ byte &&& bitmask pos ≠ 0

def Held (size : ℕ) (bloom : ScalableBloom) (id : Dhkey) : Prop :=
  ∃ block < bloom.numBlocks.toNat,
    ∀ pos ∈ positions id size, BitSet bloom.bitset (blockBytes size * block) pos

section

variable {bitset bitset' : List UInt8} {offset : ℕ} {ps : List ℕ}

lemma bitmask_ne_zero (pos : ℕ) : bitmask pos ≠ 0 := by
  have hmasks : ∀ i < 8, (0x80 : UInt8) >>> UInt8.ofNat i ≠ 0 := by decide
  exact hmasks (pos % 8) (mod_lt _ (by decide))

lemma or_and_ne_zero {a b m : UInt8} (h : a &&& m ≠ 0) : (a ||| b) &&& m ≠ 0 := by
  intro hzero
  have hnat := congrArg UInt8.toNat hzero
  rw [UInt8.toNat_and, UInt8.toNat_or, Nat.and_or_distrib_right] at hnat
  have hand := (or_eq_zero_iff.1 hnat).1
  exact h (UInt8.toNat_inj.1 hand)

lemma BitSet.set {pos i : ℕ} {byte : UInt8} (h : BitSet bitset offset pos)
    (hi : bitset[i]? = some byte) (mask : UInt8) :
    BitSet (bitset.set i (byte ||| mask)) offset pos := by
  obtain ⟨old, hold, hbit⟩ := h
  by_cases heq : i = offset + pos / 8
  · subst heq
    obtain rfl : byte = old := Option.some.inj (hi.symm.trans hold)
    refine ⟨byte ||| mask, ?_, or_and_ne_zero hbit⟩
    rw [getElem?_set_self (List.getElem?_eq_some_iff.1 hi).1]
  · refine ⟨old, ?_, hbit⟩
    rw [getElem?_set_ne heq, hold]

lemma BitSet.set_self {pos : ℕ} {byte : UInt8} (h : bitset[offset + pos / 8]? = some byte) :
    BitSet (bitset.set (offset + pos / 8) (byte ||| bitmask pos)) offset pos := by
  refine ⟨byte ||| bitmask pos, ?_, ?_⟩
  · rw [getElem?_set_self (List.getElem?_eq_some_iff.1 h).1]
  · rw [UInt8.or_comm]
    apply or_and_ne_zero
    rw [UInt8.and_self]
    exact bitmask_ne_zero pos

lemma BitSet.append {pos : ℕ} (h : BitSet bitset offset pos) (more : List UInt8) :
    BitSet (bitset ++ more) offset pos := by
  obtain ⟨byte, hb, hbit⟩ := h
  refine ⟨byte, ?_, hbit⟩
  rw [getElem?_append_left (List.getElem?_eq_some_iff.1 hb).1, hb]

section

variable (h : ∀ pos ∈ ps, offset + pos / 8 < bitset.length)
include h

lemma setBits_ok : ∃ bitset', setBits offset ps bitset = .ok bitset' ∧
      (∀ pos ∈ ps, BitSet bitset' offset pos) ∧
      (∀ offset pos, BitSet bitset offset pos → BitSet bitset' offset pos) ∧
      bitset'.length = bitset.length := by
  induction ps generalizing bitset with
  | nil => exact ⟨bitset, rfl, by simp, fun _ _ h => h, rfl⟩
  | cons pos ps ih =>
    obtain ⟨hpos, hps⟩ := forall_mem_cons.1 h
    have hget := getElem?_eq_getElem hpos
    have hlen : ∀ q ∈ ps, offset + q / 8 <
        (bitset.set (offset + pos / 8) (bitset[offset + pos / 8] ||| bitmask pos)).length := by
      simpa only [length_set] using hps
    obtain ⟨bitset', hset, hb, hkept, hlng⟩ := ih hlen
    refine ⟨bitset', ?_, forall_mem_cons.2 ⟨?_, hb⟩, fun off q hq => ?_, hlng.trans length_set⟩
    · rw [setBits, load_of_getElem? _ hget, ok_bind, store_of_lt _ hpos, ok_bind, hset]
    · exact hkept offset pos (BitSet.set_self hget)
    · exact hkept off q (hq.set hget _)

lemma testBits_ok (ret : Bool) : ∃ r, testBits bitset offset ps ret = .ok r ∧
      (r = true ↔ ret = true ∧ ∀ pos ∈ ps, BitSet bitset offset pos) := by
  induction ps generalizing ret with
  | nil => exact ⟨ret, rfl, by simp⟩
  | cons pos ps ih =>
    obtain ⟨hpos, hps⟩ := forall_mem_cons.1 h
    have hget := getElem?_eq_getElem hpos
    obtain ⟨r, hr, hiff⟩ :=
      ih hps (if bitset[offset + pos / 8] &&& bitmask pos = 0 then false else ret)
    refine ⟨r, ?_, ?_⟩
    · rw [testBits, load_of_getElem? _ hget, ok_bind, hr]
    · rw [hiff, forall_mem_cons]
      have hbit : BitSet bitset offset pos ↔ bitset[offset + pos / 8] &&& bitmask pos ≠ 0 := by
        simp [BitSet, hget]
      rw [hbit]
      by_cases hzero : bitset[offset + pos / 8] &&& bitmask pos = 0 <;> simp [hzero]

end

variable (junk : ℕ → UInt8)

lemma length_realloc (bytes : List UInt8) (length : ℕ) :
    (realloc junk bytes length).length = length := by
  simp [realloc]

lemma take_realloc {bytes : List UInt8} {length : ℕ}
    (h : bytes.length ≤ length) : (realloc junk bytes length).take bytes.length = bytes := by
  apply ext_getElem
  · simp [realloc, h]
  · intro i _ hi
    simp [realloc, hi]

lemma memset_realloc (bytes : List UInt8) (more : ℕ) :
    memset (realloc junk bytes (bytes.length + more)) bytes.length more =
      .ok (bytes ++ replicate more 0) := by
  have hlen := length_realloc junk bytes (bytes.length + more)
  rw [memset, if_pos hlen.ge, take_realloc junk (le_add_right _ _),
    drop_eq_nil_of_le hlen.le, append_nil]

end

section

variable {size : ℕ} {bloom : ScalableBloom} {junk : ℕ → UInt8} {id : Dhkey}

lemma Spacious.create (size : ℕ) : Spacious size (create size) := by
  refine ⟨rfl, one_pos, ?_, ?_⟩
  · simp [Scalable.create]
  · simp [Scalable.create]

lemma toNat_succ {n : UInt8} (h : n.toNat < 255) : (n + 1).toNat = n.toNat + 1 := by
  rw [UInt8.toNat_add, UInt8.toNat_one, Nat.mod_eq_of_lt]
  omega

lemma grow_eq (h : Spacious size bloom) (hb : bloom.numBlocks.toNat < 255)
    (hbytes : blockBytes size * bloom.numBlocks.toNat < 65536) :
    grow junk bloom = .ok { bloom with
      numBlocks := bloom.numBlocks + 1
      freeItems := bloom.freeItems + UInt16.ofNat (size / 16)
      bitset := bloom.bitset ++ replicate (blockBytes size) 0 } := by
  have hx : blockBytes bloom.size * bloom.numBlocks.toNat % 2 ^ 16 = bloom.bitset.length := by
    rw [h.size_eq, h.length]
    exact Nat.mod_eq_of_lt hbytes
  have hlen : blockBytes bloom.size * (bloom.numBlocks + 1).toNat =
      bloom.bitset.length + blockBytes size := by
    rw [toNat_succ hb, h.size_eq, h.length, mul_succ]
  simp only [grow, hx, hlen]
  rw [h.size_eq, memset_realloc, ok_bind]
  rfl

variable {block : ℕ}

lemma bitsetOffset_eq (hdvd : 8 ∣ size) (h : blockBytes size * block < 65536) :
    bitsetOffset size block = blockBytes size * block := by
  obtain ⟨bytes, rfl⟩ := hdvd
  have hbytes : blockBytes (8 * bytes) = bytes := Nat.mul_div_cancel_left bytes (by decide)
  have hmul : block * (8 * bytes) / 8 = bytes * block := by
    rw [Nat.mul_left_comm, Nat.mul_div_cancel_left _ (by decide), Nat.mul_comm]
  rw [hbytes] at h ⊢
  rw [bitsetOffset, hmul]
  exact Nat.mod_eq_of_lt h

lemma Spacious.inside (h : Spacious size bloom) (hdvd : 8 ∣ size) (hpos : 0 < size)
    (hb : block < bloom.numBlocks.toNat) (id : Dhkey) :
    ∀ pos ∈ positions id size, blockBytes size * block + pos / 8 < bloom.bitset.length := by
  intro pos hmem
  obtain ⟨k, _, rfl⟩ := mem_map.1 hmem
  have hlt : (id.t k).toNat % size < size := mod_lt _ hpos
  have hbyte : (id.t k).toNat % size / 8 < blockBytes size := by
    unfold blockBytes
    omega
  have hmul : blockBytes size * (block + 1) ≤ blockBytes size * bloom.numBlocks.toNat :=
    mul_le_mul_left _ hb
  rw [mul_succ] at hmul
  rw [h.length]
  omega

lemma Spacious.offset_lt (h : Spacious size bloom) (hb : block < bloom.numBlocks.toNat) :
    blockBytes size * block < 65536 :=
  (mul_le_mul_left _ (le_sub_one_of_lt hb)).trans_lt h.offsets

lemma prepare_ok (junk : ℕ → UInt8) (h : Spacious size bloom) (hg : Growable bloom) :
    ∃ b, prepare junk bloom = .ok b ∧ Spacious size b ∧
      (∀ id, Held size bloom id → Held size b id) ∧
      b.numBlocks = (if bloom.freeItems = 0 then bloom.numBlocks + 1 else bloom.numBlocks) ∧
      b.freeItems = (if bloom.freeItems = 0 then UInt16.ofNat (size / 16)
        else bloom.freeItems) := by
  by_cases hfree : bloom.freeItems = 0
  · obtain ⟨hb, hbytes⟩ := hg hfree
    rw [h.size_eq] at hbytes
    have hsucc := toNat_succ hb
    rw [prepare, if_pos hfree, if_pos hfree, if_pos hfree, grow_eq h hb hbytes]
    refine ⟨_, rfl, ⟨h.size_eq, ?_, ?_, ?_⟩, ?_, rfl, ?_⟩
    · rw [hsucc]
      exact succ_pos _
    · rw [length_append, length_replicate, h.length, hsucc, mul_succ]
    · rw [hsucc, Nat.add_sub_cancel]
      exact hbytes
    · rintro id ⟨block, hblk, hbits⟩
      refine ⟨block, ?_, fun pos hpos => (hbits pos hpos).append _⟩
      rw [hsucc]
      exact lt_succ_of_lt hblk
    · rw [hfree, UInt16.zero_add]
  · rw [prepare, if_neg hfree, if_neg hfree, if_neg hfree]
    exact ⟨bloom, rfl, h, fun _ hid => hid, rfl, rfl⟩

lemma add_ok (junk : ℕ → UInt8) (hdvd : 8 ∣ size) (hpos : 0 < size) (h : Spacious size bloom)
    (hgrow : Growable bloom) (id : Dhkey) :
    ∃ bloom', add junk bloom id = .ok bloom' ∧ Spacious size bloom' ∧ Held size bloom' id ∧
      (∀ other, Held size bloom other → Held size bloom' other) ∧
      bloom'.numBlocks = (if bloom.freeItems = 0 then bloom.numBlocks + 1 else bloom.numBlocks) ∧
      bloom'.freeItems = (if bloom.freeItems = 0 then UInt16.ofNat (size / 16)
        else bloom.freeItems) - 1 := by
  obtain ⟨b, hpre, hb, hkept, hbls, hitems⟩ := prepare_ok junk h hgrow
  have hlast : b.numBlocks.toNat - 1 < b.numBlocks.toNat := sub_one_lt hb.blocks.ne'
  have hoff := bitsetOffset_eq hdvd hb.offsets
  obtain ⟨bitset', hset, hbits, hmono, hlen⟩ := setBits_ok (hb.inside hdvd hpos hlast id)
  refine ⟨{ b with bitset := bitset', freeItems := b.freeItems - 1 }, ?_,
    ⟨hb.size_eq, hb.blocks, hlen.trans hb.length, hb.offsets⟩,
    ⟨b.numBlocks.toNat - 1, hlast, hbits⟩, ?_, hbls, by rw [hitems]⟩
  · rw [add, hpre, ok_bind]
    simp only [hb.size_eq, hoff, hset]
    rfl
  · intro other hoth
    obtain ⟨block, hblk, hbits'⟩ := hkept other hoth
    exact ⟨block, hblk, fun pos hmem => hmono _ _ (hbits' pos hmem)⟩

lemma checkBlocks_of_held (hdvd : 8 ∣ size) (hpos : 0 < size) (h : Spacious size bloom)
    {blocks : List ℕ} (hb : ∀ block ∈ blocks, block < bloom.numBlocks.toNat) (hmem : block ∈ blocks)
    (hbits : ∀ pos ∈ positions id size, BitSet bloom.bitset (blockBytes size * block) pos)
    (ret : Bool) : checkBlocks bloom id blocks ret = .ok true := by
  induction blocks generalizing ret with
  | nil => cases hmem
  | cons first rest ih =>
    obtain ⟨hfst, hrest⟩ := forall_mem_cons.1 hb
    obtain ⟨r, hr, hiff⟩ := testBits_ok (h.inside hdvd hpos hfst id) true
    rw [checkBlocks, h.size_eq, bitsetOffset_eq hdvd (h.offset_lt hfst), hr, ok_bind]
    cases r with
    | true => rfl
    | false =>
      obtain rfl | hmem := mem_cons.1 hmem
      · have := hiff.2 ⟨rfl, hbits⟩
        cases this
      · exact ih hrest hmem false

lemma check_of_held (hdvd : 8 ∣ size) (hpos : 0 < size) (h : Spacious size bloom)
    (hh : Held size bloom id) : check bloom id = .ok true := by
  obtain ⟨block, hb, hbits⟩ := hh
  exact checkBlocks_of_held hdvd hpos h (fun _ => mem_range.1) (mem_range.2 hb) hbits true

lemma fill_concat (junk : ℕ → UInt8) (size : ℕ) (ids : List Dhkey) (id : Dhkey) :
    fill junk size (ids ++ [id]) = fill junk size ids >>= fun b => add junk b id := by
  simp [fill, foldlM_append]

lemma fill_ok (hdvd : 8 ∣ size) (hpos : 0 < size) {ids : List Dhkey}
    (hg : ∀ before id, before ++ [id] <+: ids → ∀ b, fill junk size before = .ok b → Growable b) :
    ∃ b, fill junk size ids = .ok b ∧ Spacious size b ∧ ∀ id ∈ ids, Held size b id := by
  refine foldlM_inv_reached
    (fun before b => Spacious size b ∧ ∀ id ∈ before, Held size b id) ⟨.create size, by simp⟩ ?_
  intro before b id hb hfill ⟨hspace, hh⟩
  obtain ⟨b', hadd, hs', hid, hkept, -, -⟩ :=
    add_ok junk hdvd hpos hspace (hg before id hb b hfill) id
  refine ⟨b', hadd, hs', fun other ho => ?_⟩
  obtain ho | ho := mem_append.1 ho
  · exact hkept other (hh other ho)
  · rw [mem_singleton.1 ho]
    exact hid

/-- In every run in which a block is added only while the filter can grow, no addition fails and
every added id is found. -/
theorem all_found_while_growable (junk : ℕ → UInt8) (size : ℕ) (hdvd : 8 ∣ size) (hpos : 0 < size)
    (ids : List Dhkey) (hgrow : ∀ before id, before ++ [id] <+: ids →
      ∀ b, fill junk size before = .ok b → Growable b) :
    ∃ b, fill junk size ids = .ok b ∧ ∀ id ∈ ids, check b id = .ok true := by
  obtain ⟨b, hfill, hspace, hh⟩ := fill_ok hdvd hpos hgrow
  exact ⟨b, hfill, fun id hid => check_of_held hdvd hpos hspace (hh id hid)⟩

end

lemma fill_sixteen (junk : ℕ → UInt8) (ids : List Dhkey) (id : Dhkey) (hlen : ids.length < 255) :
    ∃ b, fill junk 16 (ids ++ [id]) = .ok b ∧ Spacious 16 b ∧
      b.numBlocks.toNat = ids.length + 1 ∧ b.freeItems = 0 := by
  induction ids using reverseRecOn generalizing id with
  | nil =>
    have hg : Growable (create 16) := by decide
    obtain ⟨b, hadd, hspace, -, -, hb, hitems⟩ :=
      add_ok junk (by decide) (by decide) (.create 16) hg id
    refine ⟨b, ?_, hspace, ?_, ?_⟩
    · rw [fill_concat]
      exact hadd
    · rw [hb]
      decide
    · rw [hitems]
      decide
  | append_singleton ids last ih =>
    rw [length_append, length_singleton] at hlen ⊢
    obtain ⟨b, hfill, hspace, hb, hfree⟩ := ih last (by omega)
    have hg : Growable b := by
      intro _
      rw [hspace.size_eq, hb]
      unfold blockBytes
      omega
    obtain ⟨b', hadd, hs', -, -, hb', hitems⟩ := add_ok junk (by decide) (by decide) hspace hg id
    rw [if_pos hfree] at hb' hitems
    refine ⟨b', ?_, hs', ?_, ?_⟩
    · rw [fill_concat, hfill, ok_bind, hadd]
    · rw [hb', toNat_succ (by omega), hb]
    · rw [hitems]
      decide

/-- The number of blocks wraps to zero, and there is no memory for the next item. -/
theorem too_many_blocks :
    fill (fun _ => 0) 16 (replicate 256 Dhkey.half) = .error .outOfBounds := by
  obtain ⟨b, hfill, hspace, hb, hfree⟩ :=
    fill_sixteen (fun _ => 0) (replicate 254 Dhkey.half) Dhkey.half
      (by rw [length_replicate]; decide)
  rw [length_replicate] at hb
  have hlast : b.numBlocks = 255 := UInt8.toNat_inj.1 hb
  rw [replicate_succ', replicate_succ', fill_concat, hfill, ok_bind, add, prepare, if_pos hfree,
    grow]
  simp only [hspace.size_eq, hlast]
  rfl

/-- Three ids in blocks of one item: the filter grows twice. -/
theorem all_found_in_three_blocks :
    ∃ b, fill (fun _ => 0) 16 [Dhkey.half, Dhkey.zero, Dhkey.ofWord 5] = .ok b ∧
      ∀ id ∈ [Dhkey.half, Dhkey.zero, Dhkey.ofWord 5], check b id = .ok true := by
  refine all_found_while_growable (fun _ => 0) 16 (by decide) (by decide) _ ?_
  intro before id hbefore b hfill
  have hlen := hbefore.length_le
  obtain rfl | ⟨before, last, rfl⟩ := eq_nil_or_concat' before
  · cases hfill
    decide
  · simp only [length_append, length_cons, length_nil] at hlen
    obtain ⟨b', hfill', hspace, hblocks, -⟩ :=
      fill_sixteen (fun _ => 0) before last (by omega)
    obtain rfl := Except.ok.inj (hfill.symm.trans hfill')
    intro _
    rw [hspace.size_eq, hblocks]
    unfold blockBytes
    omega

end Neuropil.Bloom.Scalable
