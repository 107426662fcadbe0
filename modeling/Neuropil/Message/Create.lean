import Mathlib.Data.Rat.Floor
import Neuropil.Dhkey.Prefix
import Neuropil.Lib.Fault

namespace Neuropil.Message.Create

open Lib.Buffer Lib.Fault

def fixedHeaderBytes : ℕ := 124

def chunkBytes : ℕ := 900

/-- `__set_header_pointer`: the places of nonce, mac and header fields in a
binary message. -/
structure Field where
  offset : ℕ
  size : ℕ

def nonce : Field := ⟨0, 12⟩
def mac_e : Field := ⟨12, 16⟩
def subject : Field := ⟨28, 32⟩
def audience : Field := ⟨60, 32⟩
def uuid : Field := ⟨92, 16⟩
def tstamp : Field := ⟨108, 8⟩
def ttl : Field := ⟨116, 4⟩
def parts : Field := ⟨120, 2⟩
def msg_flags : Field := ⟨122, 2⟩

def header : Field := ⟨28, 96⟩

def Field.read (f : Field) (binary : Bytes) : Bytes := slice binary f.offset f.size

def partsOf (binary : Bytes) : ℕ := leVal (parts.read binary)

lemma partsOf_lt (binary : Bytes) : partsOf binary < 65536 := by
  have hlen : (parts.read binary).length ≤ 2 := by
    rw [Field.read, length_slice]
    exact Nat.min_le_left _ _
  calc
    partsOf binary < 256 ^ (parts.read binary).length := leVal_lt _
    _ ≤ 256 ^ 2 := Nat.pow_le_pow_right (by omega) hlen

/-- How a message function may end without a result: a failed assertion, an access out of its
memory, an index outside the chunk array, a recursion without an end. -/
inductive Fault
  | assertion
  | outOfBounds
  | chunkIndex
  | stackOverflow
deriving DecidableEq, Repr

inductive MessageState
  | unknown
  | raw
  | binary
  | chunked
deriving DecidableEq, Repr

/-- A tree as the message functions see it: its byte size, and the bytes that the serializer writes,
which may be more. -/
structure Body where
  byte_size : ℕ
  byte_size_lt : byte_size < 2 ^ 64
  serialized : Bytes

def Body.writeMap (body : Body) (bufferSize : ℕ) : Option Bytes :=
  if body.serialized.length ≤ bufferSize then some body.serialized else none

/-- What a call takes from its surroundings: the clock as eight bytes, a fresh uuid, random bytes,
whether there is memory and what is in it. -/
structure Env where
  now : Bytes
  now_length : now.length = 8
  uuid : Bytes
  uuid_length : uuid.length = 16
  random : ℕ → UInt8
  memory : ℕ → UInt8
  allocates : ℕ → Bool

def quietEnv : Env :=
  ⟨leBytes 8 0, length_leBytes 8 0, leBytes 16 0, length_leBytes 16 0, fun _ => 0, fun _ => 0,
    fun _ => true⟩

structure MsgProperty where
  msg_ttl : ℚ
  retry : UInt8
  ack_mode : UInt8

structure OutMessage where
  state : MessageState
  send_at : Bytes
  redelivery_at : Bytes
  msg_body : Option Body
  binary_message : Bytes
  binary_length : ℕ

def put (buf : Bytes) (off : ℕ) (bs : Bytes) : Except Fault Bytes :=
  if off + bs.length ≤ buf.length then .ok (writeAt buf off bs) else .error .outOfBounds

def realloc (memory : ℕ → UInt8) (buf : Bytes) (len : ℕ) : Bytes :=
  (List.range len).map fun i => buf.getD i (memory i)

def newSize (object_size : ℕ) : ℕ :=
  if object_size % chunkBytes = 0 then object_size / chunkBytes else object_size / chunkBytes + 1

def binaryLength (object_size : ℕ) : ℕ :=
  (newSize object_size * chunkBytes + fixedHeaderBytes) % 2 ^ 64

def bodyLength (binary_length : ℕ) : ℕ := (binary_length + 2 ^ 64 - fixedHeaderBytes) % 2 ^ 64

/-- The number of parts to announce, from a length cast to 16 bits before it is divided. -/
def chunksOf (binary_length : ℕ) : ℕ :=
  let chunks := bodyLength binary_length % 2 ^ 16 / chunkBytes
  if chunks > 65535 then 65535 else chunks

def calculateChunking (msg : OutMessage) : Except Fault OutMessage :=
  if msg.state = .binary then do
    let binary ← put msg.binary_message parts.offset (leBytes 2 (chunksOf msg.binary_length))
    return { msg with binary_message := binary }
  else .error .assertion

/-- Two times the square of pi seconds, unless the property says otherwise. -/
def msgTtl (out_prop : Option MsgProperty) : ℕ :=
  let msg_ttl := match out_prop with
    | none => 19
    | some p => ⌊p.msg_ttl / (p.retry.toNat + 1)⌋.toNat % 2 ^ 32
  if msg_ttl = 0 then 1 else msg_ttl

def msgFlags : Option MsgProperty → ℕ
  | none => 0x0001
  | some p =>
    if p.ack_mode &&& 0x02 = 0x02 then 0x0004
    else if p.ack_mode &&& 0x04 = 0x04 then 0x0002
    else 0x0001

def putAll (buf : Bytes) : List (ℕ × Bytes) → Except Fault Bytes
  | [] => .ok buf
  | (off, bs) :: rest => do
    let buf ← put buf off bs
    putAll buf rest

def headerFields (env : Env) (out_prop : Option MsgProperty) (dest subj : Dhkey) :
    List (ℕ × Bytes) :=
  [(subject.offset, subj.bytes), (audience.offset, dest.bytes), (uuid.offset, env.uuid),
    (tstamp.offset, env.now), (ttl.offset, leBytes 4 (msgTtl out_prop)),
    (msg_flags.offset, leBytes 2 (msgFlags out_prop))]

def bodyFields (env : Env) (written : Bytes) (binary_length : ℕ) : List (ℕ × Bytes) :=
  let padding := (bodyLength binary_length + 2 ^ 64 - written.length) % 2 ^ 64
  [(fixedHeaderBytes, written),
    (fixedHeaderBytes + written.length, (List.range padding).map env.random)]

/-- `_np_message_create`. An error of the serializer goes unnoticed: the body
is then random as a whole. -/
def create (env : Env) (out_prop : Option MsgProperty) (msg : OutMessage) (dest subj : Dhkey)
    (the_data : Option Body) : Except Fault OutMessage :=
  let length := binaryLength ((the_data.map Body.byte_size).getD 0)
  if msg.state ≠ .unknown then .error .assertion
  else if env.allocates length = false then
    .ok { msg with binary_message := [], binary_length := length }
  else do
    let binary ← putAll (realloc env.memory msg.binary_message length)
      (headerFields env out_prop dest subj)
    match the_data with
    | none =>
      let binary ← put binary parts.offset (leBytes 2 1)
      return ⟨.raw, env.now, env.now, msg.msg_body, binary, length⟩
    | some body =>
      let binary ← putAll binary
        (bodyFields env ((body.writeMap (bodyLength length)).getD []) length)
      calculateChunking ⟨.binary, env.now, env.now, msg.msg_body, binary, length⟩

/-- `_np_message_setbody`. Memory that could not be had is written to all the
same. -/
def setbody (env : Env) (msg : OutMessage) (new_body : Body) : Except Fault OutMessage :=
  let length := binaryLength new_body.byte_size
  let binary := if length = msg.binary_length then msg.binary_message
    else if env.allocates length then realloc env.memory msg.binary_message length else []
  if msg.state ≠ .raw then .error .assertion
  else match new_body.writeMap (bodyLength length) with
    | none => .ok { msg with binary_message := binary, binary_length := length }
    | some written => do
      let binary ← putAll binary (bodyFields env written length)
      calculateChunking ⟨.binary, msg.send_at, msg.redelivery_at, none, binary, length⟩

variable {buf : Bytes}

lemma put_ok {bs : Bytes} {off : ℕ} (h : off + bs.length ≤ buf.length) :
    put buf off bs = .ok (writeAt buf off bs) :=
  if_pos h

variable {binary : Bytes}

lemma put_inv {bs : Bytes} {off : ℕ} (h : put buf off bs = .ok binary) :
    off + bs.length ≤ buf.length ∧ binary = writeAt buf off bs := by
  rw [put] at h
  split_ifs at h with hle
  cases h
  exact ⟨hle, rfl⟩

variable {fields : List (ℕ × Bytes)}

lemma putAll_eq (h : Fits buf fields) : putAll buf fields = .ok (writeAll buf fields) := by
  induction fields generalizing buf with
  | nil => rfl
  | cons f fields ih =>
    rw [putAll, put_ok (h f List.mem_cons_self)]
    exact ih h.tail

lemma putAll_ok (h : Fits buf fields) :
    ∃ binary, putAll buf fields = .ok binary ∧ binary.length = buf.length :=
  ⟨_, putAll_eq h, length_writeAll h⟩

lemma length_putAll (h : putAll buf fields = .ok binary) : binary.length = buf.length := by
  induction fields generalizing buf with
  | nil =>
    cases h
    rfl
  | cons f fields ih =>
    rw [putAll] at h
    obtain ⟨b, hput, h⟩ := bind_eq_ok h
    obtain ⟨hle, rfl⟩ := put_inv hput
    rw [ih h, length_writeAt _ _ _ hle]

lemma length_realloc (memory : ℕ → UInt8) (buf : Bytes) (len : ℕ) :
    (realloc memory buf len).length = len := by
  simp [realloc]

lemma le_newSize (size : ℕ) : size ≤ chunkBytes * newSize size := by
  rw [newSize]
  split_ifs with h <;> rw [chunkBytes] at * <;> omega

variable {size : ℕ}

lemma newSize_le (h : size ≤ 64800) : newSize size ≤ 72 := by
  rw [newSize]
  split_ifs with hm <;> rw [chunkBytes] at * <;> omega

lemma newSize_lt (size : ℕ) : chunkBytes * newSize size < size + chunkBytes := by
  rw [newSize]
  split_ifs with hm <;> rw [chunkBytes] at * <;> omega

lemma binaryLength_eq (h : size < 2 ^ 63) :
    binaryLength size = fixedHeaderBytes + chunkBytes * newSize size := by
  have hn := newSize_lt size
  rw [binaryLength, fixedHeaderBytes]
  rw [chunkBytes] at *
  omega

lemma bodyLength_eq (h : size < 2 ^ 63) :
    bodyLength (binaryLength size) = chunkBytes * newSize size := by
  have hn := newSize_lt size
  rw [binaryLength_eq h, bodyLength, fixedHeaderBytes]
  rw [chunkBytes] at *
  omega

lemma chunksOf_eq (h : size ≤ 64800) : chunksOf (binaryLength size) = newSize size := by
  have hn := newSize_le h
  have hmod : bodyLength (binaryLength size) % 2 ^ 16 / chunkBytes = newSize size := by
    rw [bodyLength_eq (by omega), chunkBytes]
    omega
  rw [chunksOf, hmod]
  exact if_neg (by omega)

lemma chunksOf_le (binary_length : ℕ) : chunksOf binary_length ≤ 72 := by
  have hle : bodyLength binary_length % 2 ^ 16 / chunkBytes ≤ 72 := by
    rw [chunkBytes]
    omega
  rw [chunksOf]
  split_ifs with hc
  · omega
  · exact hle

variable {msg msg' : OutMessage}

lemma partsOf_writeAt {n : ℕ} (h : parts.offset + (leBytes 2 n).length ≤ binary.length) :
    partsOf (writeAt binary parts.offset (leBytes 2 n)) = n % 65536 := by
  have hsize : parts.size = 2 := rfl
  have hread := slice_writeAt_same binary parts.offset (leBytes 2 n) h
  rw [length_leBytes] at hread
  rw [partsOf, Field.read, hsize, hread]
  exact leVal_leBytes 2 n

lemma partsOf_put {n : ℕ} (h : fixedHeaderBytes ≤ binary.length)
    (hn : n < 65536) : partsOf (writeAt binary parts.offset (leBytes 2 n)) = n := by
  have hle : parts.offset + (leBytes 2 n).length ≤ binary.length := by
    rw [length_leBytes]
    exact le_trans (by decide) h
  rw [partsOf_writeAt hle, Nat.mod_eq_of_lt hn]

lemma chunking_inv (h : calculateChunking msg = .ok msg') :
    msg.state = .binary ∧ ∃ binary, put msg.binary_message parts.offset
      (leBytes 2 (chunksOf msg.binary_length)) = .ok binary ∧
        msg' = { msg with binary_message := binary } := by
  rw [calculateChunking] at h
  split_ifs at h with hs
  obtain ⟨binary, hput, h⟩ := bind_eq_ok h
  cases h
  exact ⟨hs, binary, hput, rfl⟩

lemma chunking_parts (h : calculateChunking msg = .ok msg') :
    partsOf msg'.binary_message ≤ 72 := by
  obtain ⟨_, binary, hput, rfl⟩ := chunking_inv h
  obtain ⟨hle, rfl⟩ := put_inv hput
  rw [partsOf_writeAt hle]
  exact le_trans (Nat.mod_le _ _) (chunksOf_le _)

end Neuropil.Message.Create
