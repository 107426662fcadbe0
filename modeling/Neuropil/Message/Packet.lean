import Neuropil.Message.Create

namespace Neuropil.Message.Packet

open List Lib.Buffer Message.Create

structure Pointers where
  nonce : Bytes
  mac_e : Bytes
  subject : Bytes
  audience : Bytes
  uuid : Bytes
  tstamp : Bytes
  ttl : Bytes
  parts : Bytes
  msg_flags : Bytes

def setHeaderPointer (binary : Bytes) : Pointers :=
  ⟨nonce.read binary, mac_e.read binary, subject.read binary, audience.read binary,
    uuid.read binary, tstamp.read binary, ttl.read binary, parts.read binary, msg_flags.read binary⟩

structure E2ePart extends Pointers where
  msg_header : Bytes
  msg_body : Bytes

structure MessagePart where
  chunk_offset : UInt16
  is_forwarded_part : Bool
  mac_n : Bytes
  seq : UInt32
  hop_count : UInt16
  e2e_msg_part : E2ePart
  msg_chunk : Option Bytes

def newPart : MessagePart :=
  ⟨0, false, replicate 16 0, 0, 0, ⟨⟨[], [], [], [], [], [], [], [], []⟩, [], []⟩, none⟩

variable (a : Bytes)

def sodiumAdd (b len : ℕ) : Bytes := leBytes len (leVal (a.take len) + b) ++ a.drop len

def sodiumSub (b len : ℕ) : Bytes := leBytes len (leVal (a.take len) + 256 ^ len - b) ++ a.drop len

section

variable (part : MessagePart)

def instructionFields : List (ℕ × Bytes) :=
  [(16, leBytes 4 part.seq.toNat), (20, leBytes 2 part.hop_count.toNat)]

/-- The mac of a packet: the offset of the chunk is added to its first two
bytes. -/
def macOf : Bytes := sodiumAdd (part.e2e_msg_part.mac_e.take 16) part.chunk_offset.toNat 2

def nonceOf : Bytes :=
  if part.chunk_offset.toNat > 0 then
    sodiumSub (part.e2e_msg_part.nonce.take 12) part.chunk_offset.toNat 2
  else part.e2e_msg_part.nonce.take 12

def e2eFields : List (ℕ × Bytes) :=
  [(22, macOf part), (38, part.e2e_msg_part.msg_header.take 96),
    (134, part.e2e_msg_part.msg_body.take 900), (1034, nonceOf part)]

end

/-- There are enough bytes to copy behind each of the pointers. -/
structure Readable (e2e : E2ePart) : Prop where
  mac_e : 16 ≤ e2e.mac_e.length
  msg_header : 96 ≤ e2e.msg_header.length
  msg_body : 900 ≤ e2e.msg_body.length
  nonce : 12 ≤ e2e.nonce.length

instance (e2e : E2ePart) : Decidable (Readable e2e) :=
  decidable_of_iff (16 ≤ e2e.mac_e.length ∧ 96 ≤ e2e.msg_header.length ∧
    900 ≤ e2e.msg_body.length ∧ 12 ≤ e2e.nonce.length)
    ⟨fun ⟨h1, h2, h3, h4⟩ => ⟨h1, h2, h3, h4⟩, fun h => ⟨h.1, h.2, h.3, h.4⟩⟩

/-- `_np_node_build_network_packet`. A part that is only passed on keeps its
packet, apart from the instructions. -/
def buildNetworkPacket (blob : Bytes) (part : MessagePart) : Except Fault MessagePart :=
  if part.is_forwarded_part then
    match part.msg_chunk with
    | none => .error .assertion
    | some msg_chunk => do
      let msg_chunk ← putAll msg_chunk (instructionFields part)
      return { part with msg_chunk := some msg_chunk }
  else if Readable part.e2e_msg_part then do
    let msg_chunk ← putAll blob (instructionFields part ++ e2eFields part)
    return { part with msg_chunk := some msg_chunk }
  else .error .outOfBounds

def deserializeHeaderAndInstructions (buffer : Bytes) (n2n_msg : MessagePart) : MessagePart where
  chunk_offset := n2n_msg.chunk_offset
  is_forwarded_part := n2n_msg.is_forwarded_part
  mac_n := slice buffer 0 16
  seq := UInt32.ofNat (leVal (slice buffer 16 4))
  hop_count := UInt16.ofNat (leVal (slice buffer 20 2))
  e2e_msg_part := {
    mac_e := slice buffer 22 16
    msg_header := slice buffer 38 96
    subject := slice buffer 38 32
    audience := slice buffer 70 32
    uuid := slice buffer 102 16
    tstamp := slice buffer 118 8
    ttl := slice buffer 126 4
    parts := slice buffer 130 2
    msg_flags := slice buffer 132 2
    msg_body := slice buffer 134 900
    nonce := slice buffer 1034 12 }
  msg_chunk := some buffer

lemma length_sodiumAdd (b len : ℕ) (h : len ≤ a.length) :
    (sodiumAdd a b len).length = a.length := by
  simp only [sodiumAdd, length_append, length_leBytes, length_drop]
  omega

lemma length_sodiumSub (b len : ℕ) (h : len ≤ a.length) :
    (sodiumSub a b len).length = a.length := by
  simp only [sodiumSub, length_append, length_leBytes, length_drop]
  omega

lemma leVal_sodiumAdd (b len : ℕ) :
    leVal ((sodiumAdd a b len).take len) = (leVal (a.take len) + b) % 256 ^ len := by
  rw [sodiumAdd, take_left' (length_leBytes _ _), leVal_leBytes]

lemma drop_sodiumAdd (b len : ℕ) : (sodiumAdd a b len).drop len = a.drop len := by
  rw [sodiumAdd, drop_left' (length_leBytes _ _)]

lemma sodiumAdd_zero (len : ℕ) (h : len ≤ a.length) : sodiumAdd a 0 len = a := by
  have hlen : (a.take len).length = len := by rw [length_take, min_eq_left h]
  have hval := leBytes_leVal (a.take len)
  rw [hlen] at hval
  rw [sodiumAdd, Nat.add_zero, hval, take_append_drop]

variable {blob : Bytes} {part : MessagePart}

def packet (blob : Bytes) (part : MessagePart) : Bytes :=
  writeAll blob (instructionFields part ++ e2eFields part)

section

variable (h : Readable part.e2e_msg_part)
include h

lemma length_nonceOf : (nonceOf part).length = 12 := by
  have hlen : (part.e2e_msg_part.nonce.take 12).length = 12 := by
    rw [length_take, min_eq_left h.nonce]
  rw [nonceOf]
  split_ifs
  · rw [length_sodiumSub _ _ _ (by omega), hlen]
  · exact hlen

lemma length_fields :
    (macOf part).length = 16 ∧ (part.e2e_msg_part.msg_header.take 96).length = 96 ∧
      (part.e2e_msg_part.msg_body.take 900).length = 900 ∧ (nonceOf part).length = 12 := by
  have hmac : (part.e2e_msg_part.mac_e.take 16).length = 16 := by
    rw [length_take, min_eq_left h.mac_e]
  refine ⟨?_, ?_, ?_, length_nonceOf h⟩
  · rw [macOf, length_sodiumAdd _ _ _ (by omega), hmac]
  · rw [length_take, min_eq_left h.msg_header]
  · rw [length_take, min_eq_left h.msg_body]

lemma packet_fits (hb : blob.length = 1046) :
    Fits blob (instructionFields part ++ e2eFields part) := by
  obtain ⟨hmac, hh, hbody, hnonce⟩ := length_fields h
  simp [Fits, instructionFields, e2eFields, hmac, hh, hbody, hnonce, hb]

lemma packet_ascending :
    (instructionFields part ++ e2eFields part).Pairwise fun f g => f.1 + f.2.length ≤ g.1 := by
  obtain ⟨hmac, hh, hbody, hnonce⟩ := length_fields h
  simp [instructionFields, e2eFields, hmac, hh, hbody]

end

lemma build_eq (hf : part.is_forwarded_part = false) (h : Readable part.e2e_msg_part)
    (hb : blob.length = 1046) :
    buildNetworkPacket blob part = .ok { part with msg_chunk := some (packet blob part) } := by
  rw [buildNetworkPacket, if_neg (by simp [hf]), if_pos h, putAll_eq (packet_fits h hb)]
  rfl

variable (h : Readable part.e2e_msg_part) (hb : blob.length = 1046)
include h hb

lemma packet_reads {f : ℕ × Bytes} (hf : f ∈ instructionFields part ++ e2eFields part) :
    slice (packet blob part) f.1 f.2.length = f.2 :=
  slice_writeAll_of_mem (packet_fits h hb) (packet_ascending h) hf

lemma packet_header {o l : ℕ} (hol : o + l ≤ 96) :
    slice (packet blob part) (38 + o) l = slice part.e2e_msg_part.msg_header o l := by
  have hh : (part.e2e_msg_part.msg_header.take 96).length = 96 := (length_fields h).2.1
  have hread := packet_reads (f := (38, part.e2e_msg_part.msg_header.take 96)) h hb
    (by simp [e2eFields])
  have htake : part.e2e_msg_part.msg_header.take 96 = slice part.e2e_msg_part.msg_header 0 96 := rfl
  rw [hh] at hread
  rw [← slice_slice _ hol, hread, htake, slice_slice _ hol, Nat.zero_add]

lemma deserialize_packet (n2n_msg : MessagePart) :
    deserializeHeaderAndInstructions (packet blob part) n2n_msg =
      { chunk_offset := n2n_msg.chunk_offset
        is_forwarded_part := n2n_msg.is_forwarded_part
        mac_n := slice blob 0 16
        seq := part.seq
        hop_count := part.hop_count
        e2e_msg_part := {
          mac_e := macOf part
          msg_header := part.e2e_msg_part.msg_header.take 96
          subject := slice part.e2e_msg_part.msg_header 0 32
          audience := slice part.e2e_msg_part.msg_header 32 32
          uuid := slice part.e2e_msg_part.msg_header 64 16
          tstamp := slice part.e2e_msg_part.msg_header 80 8
          ttl := slice part.e2e_msg_part.msg_header 88 4
          parts := slice part.e2e_msg_part.msg_header 92 2
          msg_flags := slice part.e2e_msg_part.msg_header 94 2
          msg_body := part.e2e_msg_part.msg_body.take 900
          nonce := nonceOf part }
        msg_chunk := some (packet blob part) } := by
  have hread : ∀ f ∈ instructionFields part ++ e2eFields part,
      slice (packet blob part) f.1 f.2.length = f.2 := fun f hf => packet_reads h hb hf
  obtain ⟨hmac, hhd, hbody, hnonce⟩ := length_fields h
  simp only [instructionFields, e2eFields, cons_append, nil_append, forall_mem_cons,
    length_leBytes, hmac, hhd, hbody, hnonce] at hread
  obtain ⟨hseq, hhop, hread_mac, hread_header, hread_body, hread_nonce, _⟩ := hread
  have hmac_n : slice (packet blob part) 0 16 = slice blob 0 16 := by
    apply slice_writeAll_of_disjoint (packet_fits h hb)
    simp [instructionFields, e2eFields]
  have hsub : ∀ o l, o + l ≤ 96 →
      slice (packet blob part) (38 + o) l = slice part.e2e_msg_part.msg_header o l :=
    fun o l hol => packet_header h hb hol
  have hs := part.seq.toNat_lt
  have hh := part.hop_count.toNat_lt
  simp only [deserializeHeaderAndInstructions, hmac_n, hseq, hhop, hread_mac, hread_header,
    hread_body, hread_nonce, leVal_leBytes]
  rw [hsub 0 32 (by omega), hsub 32 32 (by omega), hsub 64 16 (by omega), hsub 80 8 (by omega),
    hsub 88 4 (by omega), hsub 92 2 (by omega), hsub 94 2 (by omega),
    Nat.mod_eq_of_lt (by omega), Nat.mod_eq_of_lt (by omega), UInt32.ofNat_toNat,
    UInt16.ofNat_toNat]

end Neuropil.Message.Packet
