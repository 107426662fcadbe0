import Neuropil.Keystore.Identities
import Neuropil.Lib.Buffer

namespace Neuropil.Keystore.SaveLoad

open List Bloom.Filter Keystore.Identities Lib.Buffer Lib.Fault Skiplist.Search Skiplist.Map

structure Nonce where
  bytes : Bytes
  length_eq : bytes.length = 24

/-- crypto_secretbox under a fixed key: the ciphertext is longer by crypto_secretbox_MACBYTES, and
opening it gives the message back. -/
structure SecretBox where
  easy : Nonce → Bytes → Bytes
  openEasy : Nonce → Bytes → Option Bytes
  length_easy : ∀ nonce m, (easy nonce m).length = m.length + 16
  open_easy : ∀ nonce m, openEasy nonce (easy nonce m) = some m

structure Encrypted where
  nonce : Nonce
  crypted : Bytes
  length : ℕ

/-- QCBOR as np_serializer_write_encrypted and np_serializer_read_encrypted use it, for a container
of COSE_Encrypt0. Besides the bytes, it holds a tag, the heads of an array and of a map, an empty
string, a label, the nonce with a head of two bytes, and a head that has two bytes or more from 24
bytes on. The head of the array is inserted when the array is closed: without it, what is in the
buffer is not read. -/
structure Codec where
  encrypted : Nonce → Bytes → Bytes
  unfinished : (cb_length : ℕ) → Nonce → Bytes → Bytes
  read : Bytes → (cb_len : ℕ) → Option Encrypted
  length_encrypted : ∀ nonce m, 24 ≤ m.length → 33 + m.length ≤ (encrypted nonce m).length
  read_encrypted : ∀ nonce m rest cb_len, m.length < 2 ^ 64 → m.length ≤ cb_len →
    read (encrypted nonce m ++ rest) cb_len = some ⟨nonce, m, (encrypted nonce m).length⟩
  read_unfinished : ∀ cb_length nonce m rest cb_len, cb_length < (encrypted nonce m).length →
    read (unfinished cb_length nonce m ++ rest) cb_len = none
  read_zero : ∀ rest cb_len, read (0 :: rest) cb_len = none

/-- np_serializer_write_encrypted into the start of a buffer: the buffer afterwards, and the length
of the container if it fits. -/
def writeEncrypted (codec : Codec) (buffer : Bytes) (cb_length : ℕ) (nonce : Nonce) (m : Bytes) :
    Bytes × Option ℕ :=
  let container := codec.encrypted nonce m
  if container.length ≤ cb_length then (writeAt buffer 0 container, some container.length)
  else (writeAt buffer 0 (codec.unfinished cb_length nonce m), none)

inductive SaveFault
  | keystore (fault : Identities.Fault)
  | outOfBounds
  | assertion

variable {τ : Type} (fingerprint : τ → Dhkey) (public_key : τ → Bytes)
-- np_identity_load_token, by the fingerprint in the name of the file
variable (loadToken : Dhkey → Option τ) (codec : Codec) (box : SecretBox) (page_size : ℕ)

def ftruncate (file : Bytes) (size : ℕ) : Bytes :=
  file.take size ++ replicate (size - file.length) 0

/-- __mmap_keystore_file: the bytes of the file in memory. A file without bytes is like a new one.
The number of pages is a `uint8_t`. -/
def mmapKeystoreFile (file : Option Bytes) (size : ℕ) : Bytes :=
  let region := if (file.getD []).isEmpty then replicate page_size 0 else file.getD []
  if size > region.length then ftruncate region (page_size * ((size / page_size + 1) % 256))
  else region

def storeFingerprint (s : Bytes × ℕ) : Option τ → (Bytes × ℕ) × Bool
  | none => (s, false)
  | some t2 => ((writeAt s.1 s.2 (fingerprint t2).bytes, s.2 + 32), true)

def allByFingerprint (_ : τ) : Int := -1

section

variable (keystore : NpKeystore τ)

/-- __np_keystore_save: the file afterwards, and whether it was saved. If not, it stays as long as
it was mapped. -/
def keystoreSave (file : Option Bytes) (nonce : Nonce) : Except SaveFault (Option Bytes × Bool) :=
  let size := keystore.allowed_identities.num_elements
  if size = 0 then .ok (file, true)
  else do
    let data_size := size * 32
    let cbor_size := 8 + 24
    let full_size := data_size + cbor_size + 16
    let region := mmapKeystoreFile page_size file full_size
    if region.length < full_size then .error .outOfBounds
    else do
      let (region, _) ← (skiplistMap allByFingerprint (storeFingerprint fingerprint)
        keystore.allowed_identities (region, cbor_size)).mapError fun f => .keystore (.skiplist f)
      let region := writeAt region cbor_size (box.easy nonce (slice region cbor_size data_size))
      let m := slice region cbor_size (data_size + 16)
      match writeEncrypted codec region full_size nonce m with
      | (region, some full_size) => .ok (some (ftruncate region full_size), true)
      | (region, none) => .ok (some region, false)

def memberAt (region : Bytes) (pos : ℕ) : Dhkey :=
  ⟨fun i => UInt32.ofNat (leVal (slice region (pos + 4 * i.val) 4))⟩

def loadMember (member : Dhkey) (z : BitVec 31) : Except SaveFault (NpKeystore τ) :=
  match loadToken member with
  | none => .ok keystore
  | some identity => do
    let (allowed_identities, _) ← (skiplistAdd (compareByFingerprint fingerprint)
      keystore.allowed_identities identity z).mapError fun f => .keystore (.skiplist f)
    let filter ← (add keystore.allowed_identities_filter member).mapError
      fun f => .keystore (.filter f)
    .ok { keystore with
      allowed_identities := allowed_identities
      allowed_identities_filter := filter }

def clearIdentities : NpKeystore τ :=
  if keystore.allowed_identities.num_elements > 0 then
    { keystore with
      allowed_identities := skiplistInit
      allowed_identities_filter := create }
  else { keystore with allowed_identities := skiplistInit }

/-- np_keystore_load_identities: the keystore and the file afterwards. The bytes are decrypted in
the file itself. -/
def keystoreLoadIdentities (file : Option Bytes) (z : ℕ → BitVec 31) :
    Except SaveFault (NpKeystore τ × Option Bytes) :=
  let region := mmapKeystoreFile page_size file 0
  let cbor_size := 8 + 24
  if region.length = 0 then .ok (keystore, some region)
  -- the length of the bytes is a `size_t`, and must not be larger than that of the file
  else if region.length < cbor_size then .error .assertion
  else
    match codec.read region (region.length - cbor_size) with
    | none => .ok (keystore, some region)
    | some found =>
      let region := writeAt region cbor_size found.crypted
      match box.openEasy found.nonce found.crypted with
      | none => .ok (keystore, some region)
      | some plain => do
        let current_pos := cbor_size + 16
        let region := writeAt region current_pos plain
        let keystore ← (range ((found.length - current_pos + 31) / 32)).foldlM
          (fun keystore i => loadMember fingerprint loadToken keystore
            (memberAt region (current_pos + 32 * i)) (z i)) (clearIdentities keystore)
        .ok (keystore, some region)

inductive KeystoreOp (τ : Type)
  | store (call : StoreCall τ)
  | save (nonce : Nonce)
  | load (z : ℕ → BitVec 31)

def keystoreStep (s : NpKeystore τ × Option Bytes) :
    KeystoreOp τ → Except SaveFault (NpKeystore τ × Option Bytes)
  | .store call =>
    ((storeIdentity fingerprint public_key s.1 call).mapError .keystore).map fun r => (r.1, s.2)
  | .save nonce =>
    (keystoreSave fingerprint codec box page_size s.1 s.2 nonce).map fun r => (s.1, r.1)
  | .load z => keystoreLoadIdentities fingerprint loadToken codec box page_size s.1 s.2 z

def keystoreRun (ops : List (KeystoreOp τ)) : Except SaveFault (NpKeystore τ × Option Bytes) :=
  ops.foldlM (keystoreStep fingerprint public_key loadToken codec box page_size)
    (keystoreInit, none)

def fingerprints : Set Dhkey :=
  {fp | ∃ p t, itemIn keystore.allowed_identities p = some t ∧ fingerprint t = fp}

end

/-- The keystore is saved, and a new one that loads the file has the same fingerprints. -/
def RoundTrips (s : NpKeystore τ × Option Bytes) (nonce : Nonce) (z : ℕ → BitVec 31) : Prop :=
  ∃ file saved loaded,
    keystoreSave fingerprint codec box page_size s.1 s.2 nonce = .ok (file, saved) ∧
    (keystoreLoadIdentities fingerprint loadToken codec box page_size keystoreInit file z).map
      Prod.fst = .ok loaded ∧
    fingerprints fingerprint loaded = fingerprints fingerprint s.1

variable {fingerprint public_key loadToken codec box page_size}

section

variable {s s' : NpSkiplist τ} {item : τ} {z : BitVec 31} {compare_func : τ → τ → Int}

structure Counted (s : NpSkiplist τ) : Prop where
  fresh_pos : 0 < s.fresh
  empty_iff : s.num_elements = 0 ↔ ∀ p, itemIn s p = none

lemma counted_init : Counted (skiplistInit : NpSkiplist τ) where
  fresh_pos := Nat.one_pos
  empty_iff := by
    refine iff_of_true rfl fun p => ?_
    by_cases hp : p = 0 <;> simp [itemIn, skiplistInit, hp]

lemma setNode_counts {u i : ℕ} {p : Option ℕ} (h : setNode s u i p = .ok s') :
    s'.num_elements = s.num_elements ∧ s'.fresh = s.fresh := by
  obtain ⟨node, -, h⟩ := bind_eq_ok h
  split at h
  · cases h
    exact ⟨rfl, rfl⟩
  · cases h

lemma linkFrom_counts {new_skipnode i : ℕ} {stack : List ℕ}
    (h : linkFrom new_skipnode i stack s = .ok s') :
    s'.num_elements = s.num_elements ∧ s'.fresh = s.fresh := by
  induction stack generalizing i s with
  | nil =>
    cases h
    exact ⟨rfl, rfl⟩
  | cons u stack ih =>
    obtain ⟨p, -, h⟩ := bind_eq_ok h
    obtain ⟨s1, hs1, h⟩ := bind_eq_ok h
    obtain ⟨s2, hs2, h⟩ := bind_eq_ok h
    have hfst := setNode_counts hs1
    have hsec := setNode_counts hs2
    have hrest := ih h
    exact ⟨hrest.1.trans (hsec.1.trans hfst.1), hrest.2.trans (hsec.2.trans hfst.2)⟩

lemma Counted.add {added : Bool} (h : Counted s)
    (hadd : skiplistAdd compare_func s item z = .ok (s', added)) : Counted s' := by
  obtain ⟨root, hroot, hadd⟩ := bind_eq_ok hadd
  obtain ⟨stack, -, hadd⟩ := bind_eq_ok hadd
  cases stack with
  | none =>
    cases hadd
    exact h
  | some stack =>
    obtain ⟨s1, hs1, hadd⟩ := bind_eq_ok hadd
    cases hadd
    obtain ⟨hnum, hfr⟩ := linkFrom_counts hs1
    refine ⟨by rw [hfr]; exact Nat.succ_pos _, iff_of_false ?_ ?_⟩
    · rw [hnum]
      exact Nat.succ_ne_zero _
    · intro he
      have hitem := linkFrom_itemIn hs1 s.fresh
      have hnew : itemIn s' s.fresh = some item := by
        rw [hitem, itemIn]
        dsimp only
        rw [Function.update_of_ne h.fresh_pos.ne', Function.update_self]
        rfl
      rw [he] at hnew
      cases hnew

end

variable {keystore : NpKeystore τ}

lemma fingerprints_eq_empty (h : Counted keystore.allowed_identities) :
    fingerprints fingerprint keystore = ∅ ↔ keystore.allowed_identities.num_elements = 0 := by
  rw [h.empty_iff, Set.eq_empty_iff_forall_notMem]
  constructor
  · intro he p
    by_contra hitem
    obtain ⟨t, ht⟩ := Option.ne_none_iff_exists'.1 hitem
    exact he (fingerprint t) ⟨p, t, ht, rfl⟩
  · rintro hnone fp ⟨p, t, ht, -⟩
    rw [hnone] at ht
    cases ht

def Unreadable (codec : Codec) (page_size : ℕ) (file : Option Bytes) : Prop :=
  32 ≤ (mmapKeystoreFile page_size file 0).length ∧
    ∀ cb_len, codec.read (mmapKeystoreFile page_size file 0) cb_len = none

lemma mmapKeystoreFile_some {bytes : Bytes} (h : 32 ≤ bytes.length) :
    mmapKeystoreFile page_size (some bytes) 0 = bytes := by
  cases bytes with
  | nil => cases h
  | cons b bytes => rfl

lemma unreadable_none (h : 32 ≤ page_size) : Unreadable codec page_size none := by
  obtain ⟨n, rfl⟩ : ∃ n, page_size = n + 1 := ⟨page_size - 1, by omega⟩
  have hzs : mmapKeystoreFile (n + 1) none 0 = 0 :: replicate n 0 := rfl
  rw [Unreadable, hzs]
  refine ⟨by simpa using h, codec.read_zero _⟩

lemma load_unreadable {file : Option Bytes} (h : Unreadable codec page_size file)
    (keystore : NpKeystore τ) (z : ℕ → BitVec 31) :
    keystoreLoadIdentities fingerprint loadToken codec box page_size keystore file z =
      .ok (keystore, some (mmapKeystoreFile page_size file 0)) := by
  obtain ⟨hlen, hread⟩ := h
  simp only [keystoreLoadIdentities, hread]
  rw [if_neg (by omega), if_neg (by omega)]

variable {nonce : Nonce}

lemma unreadable_overflow {region m : Bytes} {cb_length : ℕ} (hreg : 32 ≤ region.length)
    (hover : cb_length < (codec.encrypted nonce m).length) :
    Unreadable codec page_size (some (writeAt region 0 (codec.unfinished cb_length nonce m))) := by
  have hlen : 32 ≤ (writeAt region 0 (codec.unfinished cb_length nonce m)).length :=
    hreg.trans (le_length_writeAt _ _ _)
  rw [Unreadable, mmapKeystoreFile_some hlen]
  refine ⟨hlen, fun cb_len => ?_⟩
  rw [writeAt, take_zero, nil_append]
  exact codec.read_unfinished cb_length nonce m _ cb_len hover

lemma save_nonempty {file file' : Option Bytes} {saved : Bool}
    (hsize : keystore.allowed_identities.num_elements ≠ 0)
    (h : keystoreSave fingerprint codec box page_size keystore file nonce = .ok (file', saved)) :
    saved = false ∧ Unreadable codec page_size file' := by
  rw [keystoreSave] at h
  simp only [if_neg hsize] at h
  generalize keystore.allowed_identities.num_elements = size at h hsize
  split at h
  · cases h
  · next hroom =>
    obtain ⟨⟨region, pos⟩, hmap, h⟩ := bind_eq_ok h
    have hreg : size * 32 + (8 + 24) + 16 ≤ region.length := by
      refine skiplistMap_inv (P := fun s : Bytes × ℕ => size * 32 + (8 + 24) + 16 ≤ s.1.length)
        ?_ (not_lt.1 hroom) (mapError_eq_ok hmap)
      intro s item hs
      cases item with
      | none => exact hs
      | some t => exact hs.trans (le_length_writeAt _ _ _)
    generalize hfull : writeAt region (8 + 24) _ = full at h
    have hlen : size * 32 + (8 + 24) + 16 ≤ full.length := by
      rw [← hfull]
      exact hreg.trans (le_length_writeAt _ _ _)
    have hm : (slice full (8 + 24) (size * 32 + 16)).length = size * 32 + 16 := by
      rw [length_slice]
      omega
    generalize slice full (8 + 24) (size * 32 + 16) = m at h hm
    have hover : size * 32 + (8 + 24) + 16 < (codec.encrypted nonce m).length := by
      have hle := codec.length_encrypted nonce m (by omega)
      omega
    simp only [writeEncrypted, if_neg (not_le.2 hover)] at h
    cases h
    exact ⟨rfl, unreadable_overflow (by omega) hover⟩

lemma save_unreadable {file file' : Option Bytes} {saved : Bool}
    (hfile : Unreadable codec page_size file)
    (h : keystoreSave fingerprint codec box page_size keystore file nonce = .ok (file', saved)) :
    Unreadable codec page_size file' := by
  by_cases hsize : keystore.allowed_identities.num_elements = 0
  · rw [keystoreSave, if_pos hsize] at h
    cases h
    exact hfile
  · exact (save_nonempty hsize h).2

structure Kept (codec : Codec) (page_size : ℕ) (s : NpKeystore τ × Option Bytes) : Prop where
  counted : Counted s.1.allowed_identities
  unreadable : Unreadable codec page_size s.2

lemma storeIdentity_counted {keystore' : NpKeystore τ} {call : StoreCall τ} {ret : NpReturn}
    (h : Counted keystore.allowed_identities)
    (hsto : storeIdentity fingerprint public_key keystore call = .ok (keystore', ret)) :
    Counted keystore'.allowed_identities := by
  obtain ⟨found, -, hsto⟩ := bind_eq_ok hsto
  split_ifs at hsto with hfnd hfiled
  · cases hsto
    exact h
  · obtain ⟨⟨list, added⟩, hadd, hsto⟩ := bind_eq_ok hsto
    have hlist := h.add (mapError_eq_ok hadd)
    cases added with
    | false =>
      cases hsto
      exact hlist
    | true =>
      obtain ⟨filter, -, hsto⟩ := bind_eq_ok hsto
      cases hsto
      exact hlist
  · cases hsto
    exact h

variable {s : NpKeystore τ × Option Bytes}

lemma Kept.step {s' : NpKeystore τ × Option Bytes} {op : KeystoreOp τ}
    (h : Kept codec page_size s)
    (hstep : keystoreStep fingerprint public_key loadToken codec box page_size s op = .ok s') :
    Kept codec page_size s' := by
  cases op with
  | store call =>
    obtain ⟨⟨keystore, ret⟩, hsto, rfl⟩ := map_eq_ok hstep
    exact ⟨storeIdentity_counted h.counted (mapError_eq_ok hsto), h.unreadable⟩
  | save nonce =>
    obtain ⟨⟨file, saved⟩, hsave, rfl⟩ := map_eq_ok hstep
    exact ⟨h.counted, save_unreadable h.unreadable hsave⟩
  | load z =>
    rw [keystoreStep, load_unreadable h.unreadable] at hstep
    cases hstep
    refine ⟨h.counted, ?_⟩
    rw [Unreadable, mmapKeystoreFile_some h.unreadable.1]
    exact h.unreadable

/-- No run of the keystore ever leaves a file that can be loaded. -/
lemma keystoreRun_kept {ops : List (KeystoreOp τ)} (hpage : 32 ≤ page_size)
    (hrun : keystoreRun fingerprint public_key loadToken codec box page_size ops = .ok s) :
    Kept codec page_size s :=
  foldlM_kept (fun _ s => Kept codec page_size s) ⟨counted_init, unreadable_none hpage⟩
    (fun _ _ _ _ h hstep => h.step hstep) hrun

lemma roundTrips_empty {z : ℕ → BitVec 31} (h : Kept codec page_size s)
    (htrip : RoundTrips fingerprint loadToken codec box page_size s nonce z) :
    fingerprints fingerprint s.1 = ∅ := by
  obtain ⟨file, saved, loaded, hsave, hload, hsame⟩ := htrip
  rw [load_unreadable (save_unreadable h.unreadable hsave)] at hload
  cases hload
  rw [← hsame]
  exact (fingerprints_eq_empty counted_init).2 rfl

def openBox : SecretBox where
  easy _ m := m ++ replicate 16 0
  openEasy _ c := some (c.take (c.length - 16))
  length_easy _ m := by simp
  open_easy _ m := by simp

def zeroNonce : Nonce := ⟨replicate 24 0, rfl⟩

/-- A container of a fixed frame: the tag and the head of the array, the nonce, the length in eight
bytes and the bytes. -/
def readFrame (input : Bytes) (cb_len : ℕ) : Option Encrypted :=
  let length := leVal (slice input 26 8)
  if h : (slice input 2 24).length = 24 then
    if input.take 2 = [0xd0, 0x83] ∧ length ≤ cb_len then
      some ⟨⟨slice input 2 24, h⟩, slice input 34 length, 34 + length⟩
    else none
  else none

def frame (nonce : Nonce) (m : Bytes) : Bytes :=
  [0xd0, 0x83] ++ (nonce.bytes ++ (leBytes 8 m.length ++ m))

lemma readFrame_frame (nonce : Nonce) (m rest : Bytes) {cb_len : ℕ} (hm : m.length < 2 ^ 64)
    (hle : m.length ≤ cb_len) :
    readFrame (frame nonce m ++ rest) cb_len = some ⟨nonce, m, (frame nonce m).length⟩ := by
  have hn := nonce.length_eq
  have hl := length_leBytes 8 m.length
  have hnonce : slice (frame nonce m ++ rest) 2 24 = nonce.bytes := by
    simp [slice, frame, hn]
  have hlength : leVal (slice (frame nonce m ++ rest) 26 8) = m.length := by
    have hs : slice (frame nonce m ++ rest) 26 8 = leBytes 8 m.length := by
      simp [slice, frame, hn, hl]
    rw [hs, leVal_leBytes]
    exact Nat.mod_eq_of_lt hm
  have hcrypted : slice (frame nonce m ++ rest) 34 m.length = m := by
    have hdrop : nonce.bytes.drop 32 = [] := drop_eq_nil_of_le (by omega)
    simp [slice, frame, hn, hl, hdrop, drop_append]
  have hlen : (frame nonce m).length = 34 + m.length := by
    simp only [frame, length_append, hn, hl, length_cons, length_nil]
    omega
  have hfirst : (frame nonce m ++ rest).take 2 = [0xd0, 0x83] := rfl
  simp only [readFrame, hlength]
  rw [dif_pos (hnonce ▸ hn), if_pos ⟨hfirst, hle⟩]
  simp only [hnonce, hcrypted, hlen]

def frameCodec : Codec where
  encrypted := frame
  unfinished _ _ _ := [0xd0, 0x40]
  read := readFrame
  length_encrypted nonce m _ := by
    simp only [frame, length_append, nonce.length_eq, length_leBytes, length_cons, length_nil]
    omega
  read_encrypted nonce m rest _ := readFrame_frame nonce m rest
  read_unfinished _ _ _ rest cb_len _ := by simp [readFrame]
  read_zero rest cb_len := by simp [readFrame]

end Neuropil.Keystore.SaveLoad
