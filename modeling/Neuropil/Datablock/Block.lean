import Neuropil.Datablock.Objects

namespace Neuropil.Datablock.Block

open List Nat Lib.Buffer Lib.Cbor Lib.Fault Datablock.Objects

/-- np_datablock_header_s; a block is the memory behind `_inner_blob`. -/
structure Header where
  totalLength : ℕ
  usedLength : ℕ
  objectCount : ℕ
deriving DecidableEq

def magicNo : ℕ := 22964591

def encodeHeader (h : Header) : Bytes :=
  Data.encode 0 (.array 4) ++ (Data.encode 0 (.uint magicNo) ++
    (Data.encode 4 (.uint h.totalLength) ++ (Data.encode 4 (.uint h.usedLength) ++
      Data.encode 4 (.uint h.objectCount))))

section

variable [Qcbor]

def readField (r : DataReturn) (input : Bytes) : Except Stop (ℕ × Bytes) :=
  match Qcbor.next input with
  | some (some ⟨_, .uint n⟩, rest) => if n < 2 ^ 32 then .ok (n, rest) else .error (.ret r)
  | _ => .error (.ret r)

variable (block : Bytes)

def readHeader : Except Stop Header :=
  match Qcbor.next (block.take 21) with
  | some (some ⟨_, .array 4⟩, rest) => do
    let (magic, rest) ← readField .couldNotReadMagicno rest
    if magic = magicNo then do
      let (total, rest) ← readField .couldNotReadTotalLength rest
      let (used, rest) ← readField .couldNotReadUsedLength rest
      let (n, _) ← readField .couldNotReadObjectCount rest
      .ok ⟨total, used, n⟩
    else .error (.ret .couldNotReadMagicno)
  | _ => .error (.ret .invalidArguments)

def writeHeader (h : Header) : Except Stop Bytes :=
  if (encodeHeader h).length ≤ h.totalLength then .ok (writeAt block 0 (encodeHeader h))
  else .error (.ret .invalidStructure)

def initDatablock (blockLength : UInt32) : Except Stop Bytes :=
  writeHeader (replicate blockLength.toNat 0) ⟨blockLength.toNat, 21, 0⟩

structure Found where
  start : ℕ
  kv : KvPair
  stop : ℕ
deriving DecidableEq

/-- The bytes from `start` to the end of those in use, as a `size_t`. -/
def readLength (h : Header) (start : ℕ) : ℕ := (h.usedLength + 2 ^ 64 - start) % 2 ^ 64

/-- The reads of objects are told to go on behind the memory of the block. -/
def overlong (h : Header) : Bool := decide (h.usedLength < 21 ∨ block.length < h.usedLength)

/-- The loop of np_serializer_search_object. `objects_read` has 16 bits and counts the objects read;
a read that fails is tried again. -/
def searchLoop (long : Bool) (key : Name) (count : ℕ) :
    ℕ → ℕ → ℕ → Bytes → Except Stop (Option Found)
  | 0, _, _, _ => .error .outOfFuel
  | fuel + 1, objectsRead, start, input =>
    if objectsRead < count then
      match readObject long input with
      | .ok (kv, rest) =>
        if kv.key = key then .ok (some ⟨start, kv, start + (input.length - rest.length)⟩)
        else searchLoop long key count fuel ((objectsRead + 1) % 2 ^ 16)
          (start + (input.length - rest.length)) rest
      | .error (.ret _) => searchLoop long key count fuel objectsRead start input
      | .error e => .error e
    else .ok none

/-- np_serializer_search_object. An unreadable header leaves the number of objects 0. -/
def searchObject (fuel : ℕ) (block : Bytes) (key : Name) : Except Stop (Option Found) :=
  match readHeader block with
  | .ok h =>
    searchLoop (overlong block h) key h.objectCount fuel 0 21 (slice block 21 (readLength h 21))
  | .error _ => .ok none

def oldObjectSize (found : Option Found) : ℕ := (found.map fun f => calculateObjectSize f.kv).getD 0

def placeOf (h : Header) (found : Option Found) : ℕ :=
  (found.map fun f => f.start).getD h.usedLength

def availableSpace (h : Header) (found : Option Found) : ℕ :=
  (h.totalLength + 2 ^ 64 - h.usedLength + oldObjectSize found) % 2 ^ 64

def moveRemaining (h : Header) (found : Option Found) (newObjectSize : ℕ) : Bytes :=
  match found with
  | some f => writeAt block (f.stop + newObjectSize - calculateObjectSize f.kv)
      (slice block f.stop (h.usedLength - f.stop))
  | none => block

def newHeader (h : Header) (found : Option Found) (newObjectSize : ℕ) : Header :=
  ⟨h.totalLength, h.usedLength + newObjectSize - oldObjectSize found,
    h.objectCount - (if found.isSome then 1 else 0) + 1⟩

/-- The length of the bytes to move is below zero, or bytes outside of the block are written. -/
def leavesBlock (h : Header) (found : Option Found) (newObjectSize : ℕ) : Bool := decide
  ((∃ f ∈ found, h.usedLength < f.stop ∨
      block.length < f.stop + newObjectSize - calculateObjectSize f.kv + (h.usedLength - f.stop)) ∨
    block.length < placeOf h found + newObjectSize ∨
    block.length < (encodeHeader (newHeader h found newObjectSize)).length)

/-- The second half of np_set_data: the object takes the place of the one found, or the place behind
all. -/
def placeObject (h : Header) (found : Option Found) (kv : KvPair) : Except Stop Bytes :=
  let newObjectSize := calculateObjectSize kv
  if newObjectSize > availableSpace h found then .error (.ret .insufficientMemory)
  else if leavesBlock block h found newObjectSize then .error .undefined
  else if (writeObject kv).length > newObjectSize then .error (.ret .couldNotWriteTotalLength)
  else if (writeObject kv).length ≠ newObjectSize then .error .assertion
  else writeHeader
    (writeAt (moveRemaining block h found newObjectSize) (placeOf h found) (writeObject kv))
    (newHeader h found newObjectSize)

/-- The object that is written. The bytes of a value that lies in the block itself are copied last,
after the objects behind were moved and the front of the object was written. -/
def copied (h : Header) (found : Option Found) (kv : KvPair) : (inside : Option ℕ) → KvPair
  | none => kv
  | some offset =>
    let moved := moveRemaining block h found (calculateObjectSize kv)
    let memory := writeAt moved (placeOf h found) (objectFront kv)
    ⟨kv.key, kv.value.withBytes (slice memory offset kv.value.bytes.length)⟩

/-- np_set_data, with the offset of the value in the block if it lies there. -/
def setData (fuel : ℕ) (block : Bytes) (kv : KvPair) (inside : Option ℕ) : Except Stop Bytes := do
  let h ← readHeader block
  let found ← searchObject fuel block kv.key
  placeObject block h found (copied block h found kv inside)

def getData (fuel : ℕ) (block : Bytes) (key : Name) : Except Stop Value := do
  match ← searchObject fuel block key with
  | some f => .ok f.kv.value
  | none => .error (.ret .keyNotFound)

end

def objectBytes (objects : List KvPair) : Bytes := objects.flatMap writeObject

lemma objectBytes_append (pre post : List KvPair) :
    objectBytes (pre ++ post) = objectBytes pre ++ objectBytes post := by
  simp [objectBytes]

lemma objectBytes_cons (kv : KvPair) (objects : List KvPair) :
    objectBytes (kv :: objects) = writeObject kv ++ objectBytes objects := by
  simp [objectBytes]

def headerOf (block : Bytes) (objects : List KvPair) : Header :=
  ⟨block.length, 21 + (objectBytes objects).length, objects.length⟩

/-- A block is a header, objects with distinct keys and bytes nobody reads. -/
structure WellFormed (block : Bytes) (objects : List KvPair) : Prop where
  bytes : ∃ rest, block = encodeHeader (headerOf block objects) ++ (objectBytes objects ++ rest)
  used_le : (headerOf block objects).usedLength ≤ block.length
  length_lt : block.length < 2 ^ 32
  distinct : (objects.map KvPair.key).Nodup

structure Layout (block : Bytes) (objects : List KvPair) : Prop
    extends WellFormed block objects where
  sizes : ∀ kv ∈ objects, calculateObjectSize kv = (writeObject kv).length
  count_le : objects.length ≤ 2 ^ 16

lemma length_encode_four {n : ℕ} (h : n < 2 ^ 32) : (Data.encode 4 (.uint n)).length = 5 := by
  rw [Data.encode, length_encodeHead, argWidth, if_neg (by omega), if_neg (by omega),
    if_neg (by omega), if_pos ⟨h, le_rfl⟩]
  rfl

lemma length_encodeHeader {h : Header} (htot : h.totalLength < 2 ^ 32)
    (hu : h.usedLength < 2 ^ 32) (hcount : h.objectCount < 2 ^ 32) :
    (encodeHeader h).length = 21 := by
  have hfst : (Data.encode 0 (.array 4)).length = 1 := rfl
  have hmagic : (Data.encode 0 (.uint magicNo)).length = 5 := rfl
  simp only [encodeHeader, length_append, length_encode_four htot,
    length_encode_four hu, length_encode_four hcount, hfst, hmagic]

lemma readField_encode {n minLen : ℕ} (h : n < 2 ^ 32) (r : DataReturn) (rest : Bytes) :
    readField r (Data.encode minLen (.uint n) ++ rest) = .ok (n, rest) := by
  have hwf : (Data.uint n).WellFormed := lt_trans h (by decide)
  have hnext : Qcbor.next (Data.encode minLen (.uint n) ++ rest) =
      some (some ⟨[], .uint n⟩, rest) := congrArg (Option.map _) (decodeItem_data hwf minLen rest)
  simp only [readField, hnext, if_pos h]

lemma readHeader_encode {h : Header} (htot : h.totalLength < 2 ^ 32)
    (hu : h.usedLength < 2 ^ 32) (hcount : h.objectCount < 2 ^ 32) (rest : Bytes) :
    readHeader (encodeHeader h ++ rest) = .ok h := by
  have hwf : (Data.array 4).WellFormed := Nat.lt_of_sub_pos (by decide)
  have hlast : readField .couldNotReadObjectCount (Data.encode 4 (.uint h.objectCount)) =
      .ok (h.objectCount, []) := by
    rw [← readField_encode hcount _ [], append_nil]
  have hnext : ∀ rest, Qcbor.next (Data.encode 0 (.array 4) ++ rest) =
      some (some ⟨[], .array 4⟩, rest) :=
    fun rest => congrArg (Option.map _) (decodeItem_data hwf 0 rest)
  rw [readHeader, take_left' (length_encodeHeader htot hu hcount), encodeHeader, hnext]
  have hmagic : magicNo < 2 ^ 32 := by decide
  simp only [readField_encode hmagic, readField_encode htot,
    readField_encode hu, hlast, ok_bind, if_pos]

variable {block : Bytes} {objects pre post : List KvPair} {kv : KvPair} {key : Name}
  {count fuel objectsRead start : ℕ} {long : Bool}

lemma length_le_objectBytes (hmem : kv ∈ objects) :
    (writeObject kv).length ≤ (objectBytes objects).length := by
  obtain ⟨pre, post, rfl⟩ := append_of_mem hmem
  simp only [objectBytes_append, objectBytes_cons, length_append]
  omega

lemma writeObject_pos (kv : KvPair) : 0 < (writeObject kv).length := by
  simp only [writeObject, Data.encode, length_append, length_encodeHead]
  omega

lemma count_le_objectBytes (objects : List KvPair) :
    objects.length ≤ (objectBytes objects).length := by
  induction objects with
  | nil => exact zero_le _
  | cons kv objects ih =>
    have hpos := writeObject_pos kv
    rw [objectBytes_cons, length_append, length_cons]
    omega

section

variable (h : WellFormed block objects)
include h

lemma WellFormed.count_lt : objects.length < 2 ^ 32 := by
  have hcount := count_le_objectBytes objects
  have hu := h.used_le
  have hlt := h.length_lt
  simp only [headerOf] at hu
  omega

lemma WellFormed.length_header : (encodeHeader (headerOf block objects)).length = 21 :=
  length_encodeHeader h.length_lt (h.used_le.trans_lt h.length_lt) h.count_lt

lemma WellFormed.readHeader_eq : readHeader block = .ok (headerOf block objects) := by
  obtain ⟨rest, hbytes⟩ := h.bytes
  have hread := readHeader_encode h.length_lt (h.used_le.trans_lt h.length_lt) h.count_lt
    (objectBytes objects ++ rest)
  rwa [← hbytes] at hread

lemma WellFormed.small : ∀ kv ∈ objects, (writeObject kv).length < 2 ^ 32 := by
  intro kv hmem
  have hle := length_le_objectBytes hmem
  have hu := h.used_le
  have hlt := h.length_lt
  simp only [headerOf] at hu
  omega

lemma WellFormed.drop_header : ∃ rest, block.drop 21 = objectBytes objects ++ rest := by
  obtain ⟨rest, hbytes⟩ := h.bytes
  refine ⟨rest, ?_⟩
  rw [hbytes, drop_left' h.length_header]

lemma WellFormed.slice_eq :
    slice block 21 (readLength (headerOf block objects) 21) = objectBytes objects := by
  obtain ⟨rest, hd⟩ := h.drop_header
  have hlt := h.used_le.trans_lt h.length_lt
  have hlen : readLength (headerOf block objects) 21 = (objectBytes objects).length := by
    simp only [readLength, headerOf] at hlt ⊢
    omega
  rw [slice, hd, hlen, take_left]

lemma WellFormed.not_overlong : overlong block (headerOf block objects) = false := by
  have hle := h.used_le
  refine decide_eq_false ?_
  simp only [headerOf] at hle ⊢
  omega

end

lemma searchLoop_cons (hsm : (writeObject kv).length < 2 ^ 32) (hread : objectsRead < count) :
    searchLoop long key count (fuel + 1) objectsRead start (objectBytes (kv :: objects)) =
      if kv.key = key then .ok (some ⟨start, kv, start + (writeObject kv).length⟩)
      else searchLoop long key count fuel ((objectsRead + 1) % 2 ^ 16)
        (start + (writeObject kv).length) (objectBytes objects) := by
  have hlen : (objectBytes (kv :: objects)).length - (objectBytes objects).length =
      (writeObject kv).length := by
    rw [objectBytes_cons, length_append, Nat.add_sub_cancel]
  rw [searchLoop, if_pos hread]
  have ho := readObject_writeObject hsm (objectBytes objects) long
  rw [← objectBytes_cons] at ho
  simp only [ho, hlen]

lemma searchLoop_skip (ho : ∀ d ∈ pre, d.key ≠ key)
    (hsm : ∀ d ∈ pre, (writeObject d).length < 2 ^ 32)
    (hread : objectsRead + pre.length ≤ count) (hlt : objectsRead < 2 ^ 16) :
    searchLoop long key count (pre.length + fuel) objectsRead start (objectBytes (pre ++ post)) =
      searchLoop long key count fuel ((objectsRead + pre.length) % 2 ^ 16)
        (start + (objectBytes pre).length) (objectBytes post) := by
  induction pre generalizing objectsRead start with
  | nil =>
    simp only [length_nil, nil_append, zero_add, add_zero, objectBytes,
      flatMap_nil, mod_eq_of_lt hlt]
  | cons d pre ih =>
    obtain ⟨hd, ho⟩ := forall_mem_cons.1 ho
    obtain ⟨hdsm, hsm⟩ := forall_mem_cons.1 hsm
    simp only [length_cons] at hread
    rw [length_cons, add_right_comm, cons_append, searchLoop_cons hdsm (by omega), if_neg hd,
      ih ho hsm (by omega) (mod_lt _ (by decide)), mod_add_mod, objectBytes_cons, length_append]
    congr 1 <;> omega

section

variable [Qcbor]

lemma searchLoop_stuck (hread : objectsRead < count) :
    searchLoop false key count fuel objectsRead start [] = .error .outOfFuel := by
  induction fuel with
  | zero => rfl
  | succ fuel ih =>
    rw [searchLoop, if_pos hread, readObject_nil]
    exact ih

lemma searchLoop_mono {fuel' : ℕ} {input : Bytes} (hle : fuel ≤ fuel')
    (h : searchLoop long key count fuel objectsRead start input ≠ .error .outOfFuel) :
    searchLoop long key count fuel' objectsRead start input =
      searchLoop long key count fuel objectsRead start input := by
  induction fuel generalizing fuel' objectsRead start input with
  | zero => exact absurd rfl h
  | succ fuel ih =>
    obtain ⟨fuel', rfl⟩ := Nat.exists_eq_add_of_le' (Nat.le_of_add_left_le hle)
    rw [searchLoop] at h ⊢
    rw [searchLoop]
    by_cases hread : objectsRead < count
    · rw [if_pos hread] at h
      rw [if_pos hread, if_pos hread]
      cases ho : readObject long input with
      | ok result =>
        obtain ⟨kv, rest⟩ := result
        simp only [ho] at h ⊢
        by_cases hkey : kv.key = key
        · rw [if_pos hkey, if_pos hkey]
        · rw [if_neg hkey] at h
          rw [if_neg hkey, if_neg hkey, ih (by omega) h]
      | error e =>
        cases e with
        | ret r =>
          simp only [ho] at h ⊢
          exact ih (by omega) h
        | assertion | undefined | outOfFuel => rfl
    · rw [if_neg hread, if_neg hread]

lemma searchObject_mono {fuel' : ℕ} (hle : fuel ≤ fuel')
    (hne : searchObject fuel block key ≠ .error .outOfFuel) :
    searchObject fuel' block key = searchObject fuel block key := by
  cases hh : readHeader block with
  | error e => rw [searchObject, searchObject, hh]
  | ok h =>
    simp only [searchObject, hh] at hne ⊢
    exact searchLoop_mono hle hne

end

lemma WellFormed.searchObject_eq (h : WellFormed block objects) : searchObject fuel block key =
      searchLoop false key objects.length fuel 0 21 (objectBytes objects) := by
  rw [searchObject, h.readHeader_eq]
  simp only [h.slice_eq, h.not_overlong]
  rfl

def foundAt (pre : List KvPair) (kv : KvPair) : Found :=
  ⟨21 + (objectBytes pre).length, kv, 21 + (objectBytes pre).length + (writeObject kv).length⟩

lemma WellFormed.search_present (h : WellFormed block (pre ++ kv :: post)) (fuel : ℕ) :
    searchObject (pre.length + (fuel + 1)) block kv.key = .ok (some (foundAt pre kv)) := by
  have ho : ∀ d ∈ pre, d.key ≠ kv.key := by
    intro d hd heq
    have hdis := h.distinct
    rw [map_append, nodup_append] at hdis
    exact hdis.2.2 _ (mem_map_of_mem hd) _ (by simp) heq
  have hsm := h.small
  have hcount : (0 + pre.length) % 2 ^ 16 < (pre ++ kv :: post).length := by
    simp only [length_append, length_cons]
    omega
  rw [h.searchObject_eq, searchLoop_skip ho
    (fun d hd => hsm d (mem_append_left _ hd)) (by simp) (by decide),
    searchLoop_cons (hsm kv (by simp)) hcount, if_pos rfl]
  rfl

section

variable (h : WellFormed block objects) (hkey : key ∉ objects.map KvPair.key)
include h hkey

lemma WellFormed.search_behind (fuel : ℕ) : searchObject (objects.length + fuel) block key =
      searchLoop false key objects.length fuel (objects.length % 2 ^ 16)
        (21 + (objectBytes objects).length) [] := by
  have ho : ∀ d ∈ objects, d.key ≠ key := by
    rintro d hd rfl
    exact hkey (mem_map_of_mem hd)
  have hskip : searchLoop false key objects.length (objects.length + fuel) 0 21
      (objectBytes (objects ++ [])) = searchLoop false key objects.length fuel
        ((0 + objects.length) % 2 ^ 16) (21 + (objectBytes objects).length) (objectBytes []) :=
    searchLoop_skip ho h.small (zero_add _).le (by decide)
  rw [append_nil, zero_add] at hskip
  rw [h.searchObject_eq, hskip]
  rfl

lemma WellFormed.search_absent (hlt : objects.length < 2 ^ 16) (fuel : ℕ) :
    searchObject (objects.length + (fuel + 1)) block key = .ok none := by
  rw [h.search_behind hkey, searchLoop, mod_eq_of_lt hlt, if_neg (lt_irrefl _)]

lemma WellFormed.search_never (hfull : 2 ^ 16 ≤ objects.length) (fuel : ℕ) :
    searchObject fuel block key = .error .outOfFuel := by
  by_contra hne
  have hmono := searchObject_mono (le_add_left fuel objects.length) hne
  rw [h.search_behind hkey, searchLoop_stuck ((mod_lt _ (by decide)).trans_le hfull)] at hmono
  exact hne hmono.symm

end

lemma WellFormed.search_ok {found : Option Found} (h : WellFormed block objects)
    (hsr : searchObject fuel block key = .ok found) :
    (∃ pre kv post, objects = pre ++ kv :: post ∧ kv.key = key ∧ found = some (foundAt pre kv)) ∨
      key ∉ objects.map KvPair.key ∧ objects.length < 2 ^ 16 ∧ found = none := by
  have hne : searchObject fuel block key ≠ .error .outOfFuel := by
    simp [hsr]
  by_cases hkey : key ∈ objects.map KvPair.key
  · obtain ⟨kv, hmem, rfl⟩ := mem_map.1 hkey
    obtain ⟨pre, post, rfl⟩ := append_of_mem hmem
    have hmono : searchObject (pre.length + (fuel + 1)) block kv.key =
        searchObject fuel block kv.key := searchObject_mono (by omega) hne
    rw [h.search_present, hsr] at hmono
    exact .inl ⟨pre, kv, post, rfl, rfl, (Except.ok.inj hmono).symm⟩
  · obtain hlt | hfull := lt_or_ge objects.length (2 ^ 16)
    · have hmono : searchObject (objects.length + (fuel + 1)) block key =
          searchObject fuel block key := searchObject_mono (by omega) hne
      rw [h.search_absent hkey hlt, hsr] at hmono
      exact .inr ⟨hkey, hlt, (Except.ok.inj hmono).symm⟩
    · exact absurd (h.search_never hkey hfull fuel) hne

end Neuropil.Datablock.Block
