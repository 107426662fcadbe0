import Neuropil.Message.Packet

namespace Neuropil.Message.Sender

open List Nat Lib.Buffer Lib.Fault Message.Create Message.Packet

section

/-- `np_e2e_message_s`. There is no array of chunks before the message has been
cut, or the first part of it been received. -/
structure E2eMessage extends OutMessage where
  pointers : Pointers
  msg_chunk_counter : ℕ
  msg_chunks : Option (List (Option MessagePart))

def newMessage : E2eMessage :=
  { state := .unknown, send_at := leBytes 8 0, redelivery_at := leBytes 8 0, msg_body := none,
    binary_message := [], binary_length := 0, pointers := ⟨[], [], [], [], [], [], [], [], []⟩,
    msg_chunk_counter := 0, msg_chunks := none }

variable (msg : E2eMessage)

def chunkPart (i : ℕ) : MessagePart :=
  { newPart with
    chunk_offset := UInt16.ofNat i
    hop_count := 0
    e2e_msg_part := {
      toPointers := msg.pointers
      msg_header := header.read msg.binary_message
      msg_body := slice msg.binary_message (fixedHeaderBytes + chunkBytes * i) chunkBytes } }

def serializeChunked : Except Fault E2eMessage :=
  if msg.state = .binary ∧ msg.msg_chunks.isNone then
    .ok { msg with
      state := .chunked
      msg_chunks := some ((List.range (leVal msg.pointers.parts)).map fun i =>
        some (chunkPart msg i)) }
  else .error .assertion

inductive NpReturn
  | ok
  | operationFailed
deriving DecidableEq, Repr

def sodiumCompare (a b : Bytes) (len : ℕ) : Int :=
  if leVal (a.take len) < leVal (b.take len) then -1
  else if leVal (a.take len) = leVal (b.take len) then 0 else 1

structure Added where
  ret : NpReturn
  count_of_chunks : ℕ
  msg : E2eMessage

def firstChunk (n2n_message : MessagePart) : Except Fault Added :=
  let e2e := n2n_message.e2e_msg_part
  let msg_chunks := List.replicate (leVal e2e.parts) none
  let counter := (msg.msg_chunk_counter + 1) % 2 ^ 16
  if msg_chunks.length = 0 then .error .chunkIndex
  else .ok ⟨.ok, counter, { msg with
    state := .chunked
    pointers := e2e.toPointers
    msg_chunk_counter := counter
    msg_chunks := some (msg_chunks.set 0 (some n2n_message)) }⟩

/-- The message with a smaller part as its base. The flags stay those of the first arrival. -/
def rebase (msg_chunks : List (Option MessagePart)) (n2n_message : MessagePart) :
    E2eMessage :=
  { msg with
    state := .chunked
    pointers := { n2n_message.e2e_msg_part.toPointers with msg_flags := msg.pointers.msg_flags }
    msg_chunks := some (msg_chunks.set 0 (some n2n_message)) }

/-- `_np_message_add_chunk`, with a bound on how deep it may call itself. -/
def addChunkWith : ℕ → E2eMessage → MessagePart → Except Fault Added
  | 0, _, _ => .error .stackOverflow
  | depth + 1, msg, n2n_message =>
    let mac_e := n2n_message.e2e_msg_part.mac_e
    let cmp_result := sodiumCompare mac_e msg.pointers.mac_e 2
    let chunk_index_new := leVal ((sodiumSub mac_e (leVal (msg.pointers.mac_e.take 2)) 2).take 2)
    if msg.state ≠ .unknown ∧ msg.state ≠ .chunked then .error .assertion
    else match msg.msg_chunks with
      | none => firstChunk msg n2n_message
      | some msg_chunks =>
        if cmp_result = 0 then
          .ok ⟨.operationFailed, msg.msg_chunk_counter, { msg with state := .chunked }⟩
        else if cmp_result < 0 then
          match msg_chunks[0]? with
          | none => .error .chunkIndex
          | some none => .error .assertion
          | some (some tmp) => do
            let added ← addChunkWith depth (rebase msg msg_chunks n2n_message) tmp
            return { added with ret := .ok }
        else
          match msg_chunks[chunk_index_new]? with
          | none => .error .chunkIndex
          | some none =>
            let counter := (msg.msg_chunk_counter + 1) % 2 ^ 16
            .ok ⟨.ok, counter, { msg with
              state := .chunked
              msg_chunk_counter := counter
              msg_chunks := some (msg_chunks.set chunk_index_new (some n2n_message)) }⟩
          | some (some tmp) =>
            if mac_e.take 16 = tmp.e2e_msg_part.mac_e.take 16 then
              .ok ⟨.operationFailed, msg.msg_chunk_counter, { msg with state := .chunked }⟩
            else do
              let added ← addChunkWith depth { msg with
                state := .chunked
                msg_chunks := some (msg_chunks.set chunk_index_new (some n2n_message)) } tmp
              return { added with ret := .ok }

/-- No call goes deeper than there are numbers for chunks. -/
def addChunk (n2n_message : MessagePart) : Except Fault Added :=
  addChunkWith (2 ^ 16 + 1) msg n2n_message

def copy (buf : Bytes) (off : ℕ) (src : Bytes) (len : ℕ) : Except Fault Bytes :=
  if len ≤ src.length then put buf off (src.take len) else .error .outOfBounds

def copyHeader (part : MessagePart) : Except Fault E2eMessage := do
  let binary ← copy msg.binary_message nonce.offset part.e2e_msg_part.nonce nonce.size
  let binary ← copy binary mac_e.offset part.e2e_msg_part.mac_e mac_e.size
  let binary ← copy binary header.offset part.e2e_msg_part.msg_header header.size
  return { msg with binary_message := binary, pointers := setHeaderPointer binary }

def copyChunk (i : ℕ) (part : MessagePart) (msg : E2eMessage) : Except Fault E2eMessage := do
  let binary ← copy msg.binary_message (fixedHeaderBytes + chunkBytes * i)
    part.e2e_msg_part.msg_body chunkBytes
  return { msg with binary_message := binary }

/-- The copying loop. It stops at the first chunk that is missing. -/
def copyChunks (msg_chunks : List (Option MessagePart)) :
    List ℕ → E2eMessage → Except Fault (Bool × E2eMessage)
  | [], msg => .ok (true, msg)
  | i :: is, msg =>
    match msg_chunks[i]? with
    | none => .error .chunkIndex
    | some none => .ok (false, msg)
    | some (some part) =>
      (if i = 0 then copyHeader msg part else .ok msg) >>= copyChunk i part >>=
        copyChunks msg_chunks is

def deserializeChunks (env : Env) (msg : E2eMessage) : Except Fault (Bool × E2eMessage) :=
  if msg.state ≠ .chunked then .error .assertion
  else match msg.msg_chunks with
    | none => .error .assertion
    | some msg_chunks =>
      match msg_chunks[0]? with
      | none => .error .chunkIndex
      | some none => .error .outOfBounds
      | some (some part) =>
        let msg_parts := leVal part.e2e_msg_part.parts
        let length := chunkBytes * msg_parts + fixedHeaderBytes
        if msg_parts = 0 then .error .assertion
        else if env.allocates length = false then
          .ok (false, { msg with binary_message := [], binary_length := length })
        else do
          let (complete, msg) ← copyChunks msg_chunks (List.range msg_parts) { msg with
            binary_message := realloc env.memory msg.binary_message length
            binary_length := length }
          return if complete then (true, { msg with state := .binary, msg_chunks := none })
            else (false, msg)

end

/-- A message that is ready to be cut into the parts it announces. -/
structure BinaryMessage where
  binary : Bytes
  length_eq : binary.length = fixedHeaderBytes + chunkBytes * partsOf binary

namespace BinaryMessage

variable (m : BinaryMessage)

abbrev parts : ℕ := partsOf m.binary

def message : E2eMessage :=
  { newMessage with
    state := .binary
    binary_message := m.binary
    binary_length := m.binary.length
    pointers := setHeaderPointer m.binary }

def firstNumber : ℕ := leVal ((mac_e.read m.binary).take 2)

/-- The numbers of the chunks do not leave their two bytes. -/
def Unwrapped : Prop := m.firstNumber + m.parts ≤ 65536

end BinaryMessage

/-- One packet on its way: the chunk it carries, its sequence number and the memory it was built
in. -/
structure Transmission (n : ℕ) where
  index : Fin n
  seq : UInt32
  blob : Bytes
  length_blob : blob.length = 1046

def chunkAt (msg : E2eMessage) (i : ℕ) : Except Fault MessagePart :=
  match msg.msg_chunks.bind fun msg_chunks => msg_chunks[i]? with
  | some (some part) => .ok part
  | _ => .error .chunkIndex

def packetWith (m : BinaryMessage) (i : ℕ) (hi : i < m.parts) : Transmission m.parts :=
  ⟨⟨i, hi⟩, 0, replicate 1046 0, length_replicate⟩

section

variable (m : BinaryMessage) (t : Transmission m.parts)

def send : Except Fault Bytes := do
  let msg ← serializeChunked m.message
  let part ← chunkAt msg t.index
  let part ← buildNetworkPacket t.blob { part with seq := t.seq }
  return part.msg_chunk.getD []

def sentPart : MessagePart := { chunkPart m.message t.index with seq := t.seq }

def received : MessagePart :=
  deserializeHeaderAndInstructions (packet t.blob (sentPart m t)) newPart

lemma parts_lt : m.parts < 65536 := partsOf_lt m.binary

lemma firstNumber_lt : m.firstNumber < 65536 := by
  have hlen : ((mac_e.read m.binary).take 2).length ≤ 2 := length_take_le _ _
  calc
    m.firstNumber < 256 ^ ((mac_e.read m.binary).take 2).length := leVal_lt _
    _ ≤ 256 ^ 2 := Nat.pow_le_pow_right (by omega) hlen

lemma length_read {f : Field} (hf : f.offset + f.size ≤ fixedHeaderBytes) :
    (f.read m.binary).length = f.size := by
  have hlen := m.length_eq
  rw [Field.read, length_slice]
  omega

lemma length_body {i : ℕ} (hi : i < m.parts) :
    (slice m.binary (fixedHeaderBytes + chunkBytes * i) chunkBytes).length = chunkBytes := by
  have hlen : m.binary.length = fixedHeaderBytes + chunkBytes * m.parts := m.length_eq
  have hle := mul_le_mul_left chunkBytes (succ_le_of_lt hi)
  rw [mul_succ] at hle
  rw [length_slice]
  omega

lemma chunk_offset_eq : (sentPart m t).chunk_offset.toNat = t.index.val := by
  have hlt := parts_lt m
  have hi := t.index.isLt
  simp only [sentPart, chunkPart, UInt16.toNat_ofNat']
  omega

lemma sentPart_readable : Readable (sentPart m t).e2e_msg_part := by
  refine ⟨?_, ?_, ?_, ?_⟩
  · exact (length_read m (f := mac_e) (by decide)).ge
  · exact (length_read m (f := header) (by decide)).ge
  · exact (length_body m t.index.isLt).ge
  · exact (length_read m (f := nonce) (by decide)).ge

lemma chunkAt_serialized {msg : E2eMessage} (h : serializeChunked m.message = .ok msg) :
    chunkAt msg t.index = .ok (chunkPart m.message t.index) := by
  have hget : ((range m.parts).map fun i => some (chunkPart m.message i))[t.index.val]? =
      some (some (chunkPart m.message t.index)) := by
    rw [getElem?_map, getElem?_range t.index.isLt]
    rfl
  have hmsg : msg.msg_chunks.bind (fun msg_chunks => msg_chunks[t.index.val]?) =
      some (some (chunkPart m.message t.index)) := by
    cases h
    exact hget
  rw [chunkAt, hmsg]

lemma send_eq : send m t = .ok (packet t.blob (sentPart m t)) := by
  have hb : buildNetworkPacket t.blob (sentPart m t) = _ :=
    build_eq rfl (sentPart_readable m t) t.length_blob
  cases hser : serializeChunked m.message with
  | error e => cases hser
  | ok msg =>
    rw [send, hser, ok_bind, chunkAt_serialized m t hser, ok_bind]
    rw [sentPart] at hb
    rw [hb, ok_bind]
    rfl

lemma received_eq : received m t =
    { chunk_offset := 0
      is_forwarded_part := false
      mac_n := slice t.blob 0 16
      seq := t.seq
      hop_count := 0
      e2e_msg_part := {
        toPointers := { setHeaderPointer m.binary with
          mac_e := macOf (sentPart m t)
          nonce := nonceOf (sentPart m t) }
        msg_header := header.read m.binary
        msg_body := slice m.binary (fixedHeaderBytes + chunkBytes * t.index) chunkBytes }
      msg_chunk := some (packet t.blob (sentPart m t)) } := by
  have hh : (header.read m.binary).take 96 = header.read m.binary :=
    take_of_length_le (length_read m (f := header) (by decide)).le
  have hb : (slice m.binary (fixedHeaderBytes + chunkBytes * t.index) chunkBytes).take 900 =
      slice m.binary (fixedHeaderBytes + chunkBytes * t.index) chunkBytes :=
    take_of_length_le (length_body m t.index.isLt).le
  have hfield : ∀ o l, o + l ≤ 96 → slice (header.read m.binary) o l = slice m.binary (28 + o) l :=
    fun o l hol => slice_slice m.binary hol
  rw [received, deserialize_packet (sentPart_readable m t) t.length_blob]
  have hpart : (sentPart m t).e2e_msg_part.msg_header = header.read m.binary := rfl
  have hp' : (sentPart m t).e2e_msg_part.msg_body =
    slice m.binary (fixedHeaderBytes + chunkBytes * t.index) chunkBytes := rfl
  rw [hpart, hp', hfield 0 32 (by omega), hfield 32 32 (by omega), hfield 64 16 (by omega),
    hfield 80 8 (by omega), hfield 88 4 (by omega), hfield 92 2 (by omega), hfield 94 2 (by omega),
    hh, hb]
  rfl

lemma received_mac :
    (received m t).e2e_msg_part.mac_e = sodiumAdd (mac_e.read m.binary) t.index 2 := by
  have hmac : (mac_e.read m.binary).take 16 = mac_e.read m.binary :=
    take_of_length_le (length_read m (f := mac_e) (by decide)).le
  have hpart : (sentPart m t).e2e_msg_part.mac_e = mac_e.read m.binary := rfl
  rw [received_eq, macOf, chunk_offset_eq, hpart, hmac]

def numberOf (part : MessagePart) : ℕ := leVal (part.e2e_msg_part.mac_e.take 2)

lemma number_received : numberOf (received m t) = (m.firstNumber + t.index) % 65536 := by
  rw [numberOf, received_mac, leVal_sodiumAdd]
  rfl

lemma number_unwrapped (h : m.Unwrapped) : numberOf (received m t) = m.firstNumber + t.index := by
  have hi := t.index.isLt
  have hle : m.firstNumber + m.parts ≤ 65536 := h
  rw [number_received, mod_eq_of_lt (by omega)]

lemma received_front (h : t.index.val = 0) :
    (received m t).e2e_msg_part.toPointers = setHeaderPointer m.binary := by
  have hnonce : (nonce.read m.binary).take 12 = nonce.read m.binary :=
    take_of_length_le (length_read m (f := nonce) (by decide)).le
  have hpart : (sentPart m t).e2e_msg_part.nonce = nonce.read m.binary := rfl
  have hmac := received_mac m t
  rw [received_eq] at hmac ⊢
  dsimp only at hmac ⊢
  rw [hmac, h, sodiumAdd_zero _ _ (by rw [length_read m (by decide)]; decide), nonceOf,
    chunk_offset_eq, h, if_neg (by omega), hpart, hnonce]
  rfl

lemma received_mac_eq_iff (h : m.Unwrapped) (t' : Transmission m.parts) :
    (received m t).e2e_msg_part.mac_e.take 16 = (received m t').e2e_msg_part.mac_e.take 16 ↔
      t.index.val = t'.index.val := by
  constructor
  · intro heq
    have hnum : numberOf (received m t) = numberOf (received m t') := by
      have htake := congrArg (take 2) heq
      simp only [take_take] at htake
      rw [numberOf, numberOf]
      exact congrArg leVal htake
    rw [number_unwrapped m t h, number_unwrapped m t' h] at hnum
    omega
  · intro heq
    rw [received_mac, received_mac, heq]

end

def blankBytes (first n : ℕ) : Bytes :=
  (replicate 12 0 ++ (leBytes 2 first ++ replicate 106 0)) ++
    (leBytes 2 n ++ replicate (2 + chunkBytes * n) 0)

lemma partsOf_blankBytes (first n : ℕ) (hn : n < 65536) : partsOf (blankBytes first n) = n := by
  have hpre : (replicate 12 0 ++ (leBytes 2 first ++ replicate 106 0)).length = 120 := by
    simp
  have hread : parts.read (blankBytes first n) = leBytes 2 n := by
    change slice (blankBytes first n) 120 2 = _
    rw [slice, blankBytes, drop_left' hpre, take_left' (length_leBytes 2 n)]
  rw [partsOf, hread, leVal_leBytes, mod_eq_of_lt (by omega)]

def blank (first n : ℕ) (hn : n < 65536) : BinaryMessage where
  binary := blankBytes first n
  length_eq := by
    rw [partsOf_blankBytes first n hn]
    simp only [blankBytes, length_append, length_replicate, length_leBytes, fixedHeaderBytes]
    omega

lemma blank_parts {first n : ℕ} (hn : n < 65536) : (blank first n hn).parts = n :=
  partsOf_blankBytes first n hn

lemma blank_firstNumber {first n : ℕ} (hn : n < 65536) (hf : first < 65536) :
    (blank first n hn).firstNumber = first := by
  have hread : (mac_e.read (blank first n hn).binary).take 2 = leBytes 2 first := by
    change slice (slice (blankBytes first n) 12 16) 0 2 = _
    rw [slice_slice _ (by omega), slice, blankBytes, append_assoc, append_assoc,
      drop_left' (by simp), take_left' (length_leBytes 2 first)]
  rw [BinaryMessage.firstNumber, hread, leVal_leBytes, mod_eq_of_lt (by omega)]

def blankPacket {first n : ℕ} (hn : n < 65536) (i : ℕ) (hi : i < n) :
    Transmission (blank first n hn).parts :=
  packetWith (blank first n hn) i (by rwa [blank_parts])

end Neuropil.Message.Sender
