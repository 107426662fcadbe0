import Neuropil.Message.Packet

namespace Neuropil.Message.PacketRoundTrip

open List Lib.Buffer Message.Create Message.Packet

def copyFrom (buffer : Bytes) (buffer_index : UInt16) (size : ℕ) : Except Fault Bytes :=
  if buffer_index.toNat + size ≤ buffer.length then .ok (slice buffer buffer_index.toNat size)
  else .error .outOfBounds

/-- `_np_message_deserialize_header_and_instructions` with its running index and its two asserts. -/
def deserializeIndexed (buffer : Bytes) (n2n_msg : MessagePart) : Except Fault MessagePart := do
  let buffer_index : UInt16 := 0
  let mac_n ← copyFrom buffer buffer_index 16
  let buffer_index := buffer_index + 16
  let seq ← copyFrom buffer buffer_index 4
  let buffer_index := buffer_index + 4
  let hop_count ← copyFrom buffer buffer_index 2
  let buffer_index := buffer_index + 2
  -- from here on only pointers are set
  let mac_e := slice buffer buffer_index.toNat 16
  let buffer_index := buffer_index + 16
  let msg_header := slice buffer buffer_index.toNat 96
  let subject := slice buffer buffer_index.toNat 32
  let buffer_index := buffer_index + 32
  let audience := slice buffer buffer_index.toNat 32
  let buffer_index := buffer_index + 32
  let uuid := slice buffer buffer_index.toNat 16
  let buffer_index := buffer_index + 16
  let tstamp := slice buffer buffer_index.toNat 8
  let buffer_index := buffer_index + 8
  let ttl := slice buffer buffer_index.toNat 4
  let buffer_index := buffer_index + 4
  let parts := slice buffer buffer_index.toNat 2
  let buffer_index := buffer_index + 2
  let msg_flags := slice buffer buffer_index.toNat 2
  let buffer_index := buffer_index + 2
  if buffer_index ≠ 22 + 16 + 96 then
    .error .assertion
  else
    let msg_body := slice buffer buffer_index.toNat (1024 - 12 - 16 - 96)
    let buffer_index := buffer_index + (1024 - 12 - 16 - 96)
    let nonce := slice buffer buffer_index.toNat 12
    let buffer_index := buffer_index + 12
    if buffer_index ≠ 22 + 1024 then
      .error .assertion
    else
      .ok {
        chunk_offset := n2n_msg.chunk_offset
        is_forwarded_part := n2n_msg.is_forwarded_part
        mac_n := mac_n
        seq := UInt32.ofNat (leVal seq)
        hop_count := UInt16.ofNat (leVal hop_count)
        e2e_msg_part := {
          mac_e := mac_e
          msg_header := msg_header
          subject := subject
          audience := audience
          uuid := uuid
          tstamp := tstamp
          ttl := ttl
          parts := parts
          msg_flags := msg_flags
          msg_body := msg_body
          nonce := nonce }
        msg_chunk := some buffer }

lemma copyFrom_eq {buffer : Bytes} {buffer_index : UInt16} {size : ℕ}
    (h : buffer_index.toNat + size ≤ buffer.length) :
    copyFrom buffer buffer_index size = .ok (slice buffer buffer_index.toNat size) :=
  if_pos h

lemma deserializeIndexed_eq {buffer : Bytes} (h : 22 ≤ buffer.length) (n2n_msg : MessagePart) :
    deserializeIndexed buffer n2n_msg = .ok (deserializeHeaderAndInstructions buffer n2n_msg) := by
  have hmac : (0 : UInt16).toNat + 16 ≤ buffer.length := by
    change 0 + 16 ≤ _
    omega
  have hseq : (0 + 16 : UInt16).toNat + 4 ≤ buffer.length := by
    change 16 + 4 ≤ _
    omega
  have hhop : (0 + 16 + 4 : UInt16).toNat + 2 ≤ buffer.length := by
    change 20 + 2 ≤ _
    omega
  simp only [deserializeIndexed, copyFrom_eq hmac, copyFrom_eq hseq, copyFrom_eq hhop]
  rfl

def wireFields (part : MessagePart) : List Bytes :=
  [part.mac_n, leBytes 4 part.seq.toNat, leBytes 2 part.hop_count.toNat,
    part.e2e_msg_part.mac_e, part.e2e_msg_part.subject, part.e2e_msg_part.audience,
    part.e2e_msg_part.uuid, part.e2e_msg_part.tstamp, part.e2e_msg_part.ttl,
    part.e2e_msg_part.parts, part.e2e_msg_part.msg_flags, part.e2e_msg_part.msg_body,
    part.e2e_msg_part.nonce]

def fieldSizes : List ℕ := [16, 4, 2, 16, 32, 32, 16, 8, 4, 2, 2, 900, 12]

structure Tiles (buffer : Bytes) (part : MessagePart) : Prop where
  flatten : (wireFields part).flatten = buffer
  sizes : (wireFields part).map length = fieldSizes

def firstWord (bs : Bytes) : UInt16 := UInt16.ofNat (leVal (bs.take 2))

/-- What a parsed packet keeps of the part it was built for, and of the message
`binary` with the part's header. -/
structure Delivers (binary : Bytes) (part parsed : MessagePart) : Prop where
  seq : parsed.seq = part.seq
  hop_count : parsed.hop_count = part.hop_count
  subject : parsed.e2e_msg_part.subject = (setHeaderPointer binary).subject
  audience : parsed.e2e_msg_part.audience = (setHeaderPointer binary).audience
  uuid : parsed.e2e_msg_part.uuid = (setHeaderPointer binary).uuid
  tstamp : parsed.e2e_msg_part.tstamp = (setHeaderPointer binary).tstamp
  ttl : parsed.e2e_msg_part.ttl = (setHeaderPointer binary).ttl
  parts : parsed.e2e_msg_part.parts = (setHeaderPointer binary).parts
  msg_flags : parsed.e2e_msg_part.msg_flags = (setHeaderPointer binary).msg_flags
  msg_body : parsed.e2e_msg_part.msg_body = part.e2e_msg_part.msg_body.take 900
  mac_word : firstWord parsed.e2e_msg_part.mac_e =
    firstWord part.e2e_msg_part.mac_e + part.chunk_offset
  mac_rest : parsed.e2e_msg_part.mac_e.drop 2 = (part.e2e_msg_part.mac_e.take 16).drop 2
  nonce_word : firstWord parsed.e2e_msg_part.nonce =
    firstWord part.e2e_msg_part.nonce - part.chunk_offset
  nonce_rest : parsed.e2e_msg_part.nonce.drop 2 = (part.e2e_msg_part.nonce.take 12).drop 2

section

variable (a : Bytes) (b : UInt16)

lemma firstWord_sodiumAdd : firstWord (sodiumAdd a b.toNat 2) = firstWord a + b := by
  rw [firstWord, leVal_sodiumAdd, firstWord]
  apply UInt16.toNat_inj.mp
  simp

lemma firstWord_sodiumSub : firstWord (sodiumSub a b.toNat 2) = firstWord a - b := by
  have hb := b.toNat_lt
  rw [firstWord, sodiumSub, take_left' (length_leBytes _ _), leVal_leBytes, firstWord]
  apply UInt16.toNat_inj.mp
  simp only [UInt16.toNat_ofNat', UInt16.toNat_sub]
  omega

lemma drop_sodiumSub : (sodiumSub a b.toNat 2).drop 2 = a.drop 2 := by
  rw [sodiumSub, drop_left' (length_leBytes _ _)]

lemma firstWord_take {n : ℕ} (hn : 2 ≤ n) : firstWord (a.take n) = firstWord a := by
  rw [firstWord, take_take, min_eq_left hn, firstWord]

end

section

variable {blob binary : Bytes} {part : MessagePart}

lemma firstWord_nonceOf :
    firstWord (nonceOf part) = firstWord part.e2e_msg_part.nonce - part.chunk_offset := by
  rw [nonceOf]
  split_ifs with ho
  · rw [firstWord_sodiumSub, firstWord_take _ (by omega)]
  · have hzero : part.chunk_offset = 0 := UInt16.toNat_inj.mp (by simpa using ho)
    rw [hzero, UInt16.sub_zero, firstWord_take _ (by omega)]

lemma drop_nonceOf : (nonceOf part).drop 2 = (part.e2e_msg_part.nonce.take 12).drop 2 := by
  rw [nonceOf]
  split_ifs
  · exact drop_sodiumSub _ _
  · rfl

lemma header_field (hh : header.read binary = part.e2e_msg_part.msg_header.take 96)
    {o l : ℕ} (hol : o + l ≤ 96) :
    slice part.e2e_msg_part.msg_header o l = slice binary (28 + o) l := by
  have hmsg : slice (part.e2e_msg_part.msg_header.take 96) o l =
      slice part.e2e_msg_part.msg_header o l := by
    change slice (slice part.e2e_msg_part.msg_header 0 96) o l = _
    rw [slice_slice _ hol, Nat.zero_add]
  rw [← hmsg, ← hh, Field.read, header, slice_slice _ hol]

lemma delivers_packet (h : Readable part.e2e_msg_part) (hb : blob.length = 1046)
    (hh : header.read binary = part.e2e_msg_part.msg_header.take 96) (n2n_msg : MessagePart) :
    Delivers binary part (deserializeHeaderAndInstructions (packet blob part) n2n_msg) := by
  rw [deserialize_packet h hb]
  exact {
    seq := rfl
    hop_count := rfl
    subject := header_field hh (by omega)
    audience := header_field hh (by omega)
    uuid := header_field hh (by omega)
    tstamp := header_field hh (by omega)
    ttl := header_field hh (by omega)
    parts := header_field hh (by omega)
    msg_flags := header_field hh (by omega)
    msg_body := rfl
    mac_word := by
      rw [macOf, firstWord_sodiumAdd, firstWord_take _ (by omega)]
    mac_rest := drop_sodiumAdd _ _ _
    nonce_word := firstWord_nonceOf
    nonce_rest := drop_nonceOf }

end

section

variable {buffer : Bytes}

lemma leBytes_slice {off len : ℕ} (h : off + len ≤ buffer.length) :
    leBytes len (leVal (slice buffer off len)) = slice buffer off len := by
  have hlen : (slice buffer off len).length = len := by
    rw [length_slice]
    omega
  have hbytes := leBytes_leVal (slice buffer off len)
  rwa [hlen] at hbytes

lemma tiles_deserialize (h : buffer.length = 1046) (n2n_msg : MessagePart) :
    Tiles buffer (deserializeHeaderAndInstructions buffer n2n_msg) := by
  have hseq : (UInt32.ofNat (leVal (slice buffer 16 4))).toNat = leVal (slice buffer 16 4) := by
    have hlt := leVal_lt (slice buffer 16 4)
    rw [length_slice, h] at hlt
    exact UInt32.toNat_ofNat_of_lt' hlt
  have hhop : (UInt16.ofNat (leVal (slice buffer 20 2))).toNat = leVal (slice buffer 20 2) := by
    have hlt := leVal_lt (slice buffer 20 2)
    rw [length_slice, h] at hlt
    exact UInt16.toNat_ofNat_of_lt' hlt
  have hcut : wireFields (deserializeHeaderAndInstructions buffer n2n_msg) =
      cut buffer 0 fieldSizes := by
    rw [wireFields, deserializeHeaderAndInstructions, hseq, hhop, leBytes_slice (by omega),
      leBytes_slice (by omega)]
    rfl
  constructor
  · have hsum : fieldSizes.sum = buffer.length := by
      rw [h]
      rfl
    rw [hcut, flatten_cut, hsum, slice_all]
  · rw [hcut]
    simp [cut, fieldSizes, h]

end

section

variable {chunk : Bytes} {part : MessagePart}

lemma instructions_fit (h : 22 ≤ chunk.length) : Fits chunk (instructionFields part) := by
  simp only [Fits, instructionFields, forall_mem_cons, length_leBytes]
  exact ⟨by omega, by omega, by simp⟩

lemma rebuild_eq (hf : part.is_forwarded_part = true) (hchk : part.msg_chunk = some chunk)
    (h : 22 ≤ chunk.length) (blob : Bytes) : buildNetworkPacket blob part =
      .ok { part with msg_chunk := some (writeAll chunk (instructionFields part)) } := by
  simp only [buildNetworkPacket, if_pos hf, hchk, putAll_eq (instructions_fit h)]
  rfl

variable (h : 22 ≤ chunk.length)
include h

lemma slice_rebuilt {o l : ℕ} (hol : o + l ≤ 16 ∨ 22 ≤ o) :
    slice (writeAll chunk (instructionFields part)) o l = slice chunk o l := by
  apply slice_writeAll_of_disjoint (instructions_fit h)
  simp only [instructionFields, forall_mem_cons, length_leBytes]
  exact ⟨by omega, by omega, by simp⟩

lemma deserialize_rebuilt (n2n_msg : MessagePart) :
    deserializeHeaderAndInstructions (writeAll chunk (instructionFields part)) n2n_msg =
      { deserializeHeaderAndInstructions chunk n2n_msg with
        seq := part.seq
        hop_count := part.hop_count
        msg_chunk := some (writeAll chunk (instructionFields part)) } := by
  have ha : (instructionFields part).Pairwise fun f g => f.1 + f.2.length ≤ g.1 := by
    simp [instructionFields]
  have hseq := slice_writeAll_of_mem (f := (16, leBytes 4 part.seq.toNat)) (instructions_fit h)
    ha (by simp [instructionFields])
  have hhop := slice_writeAll_of_mem (f := (20, leBytes 2 part.hop_count.toNat))
    (instructions_fit h) ha (by simp [instructionFields])
  rw [length_leBytes] at hseq hhop
  have hs := part.seq.toNat_lt
  have hh := part.hop_count.toNat_lt
  simp (disch := omega) only [deserializeHeaderAndInstructions, slice_rebuilt h, hseq, hhop,
    leVal_leBytes, Nat.mod_eq_of_lt, UInt32.ofNat_toNat, UInt16.ofNat_toNat]

lemma take_rebuilt : (writeAll chunk (instructionFields part)).take 16 = chunk.take 16 :=
  slice_rebuilt h (o := 0) (.inl le_rfl)

lemma drop_rebuilt : (writeAll chunk (instructionFields part)).drop 22 = chunk.drop 22 := by
  have hslice : slice (writeAll chunk (instructionFields part)) 22 chunk.length =
      slice chunk 22 chunk.length := slice_rebuilt h (.inr le_rfl)
  have hlen : (writeAll chunk (instructionFields part)).length = chunk.length :=
    length_writeAll (instructions_fit h)
  rwa [slice, slice, take_of_length_le, take_of_length_le] at hslice
  · rw [length_drop]
    omega
  · rw [length_drop]
    omega

lemma forward_keeps {parsed n2n_msg : MessagePart}
    (hpar : parsed = deserializeHeaderAndInstructions chunk n2n_msg) (blob : Bytes)
    (seq : UInt32) (hop_count : UInt16) :
    ∃ chunk', buildNetworkPacket blob
        { parsed with is_forwarded_part := true, seq := seq, hop_count := hop_count } =
      .ok { parsed with
        is_forwarded_part := true, seq := seq, hop_count := hop_count, msg_chunk := some chunk' } ∧
      deserializeIndexed chunk' n2n_msg =
        .ok { parsed with seq := seq, hop_count := hop_count, msg_chunk := some chunk' } ∧
      chunk'.take 16 = chunk.take 16 ∧ chunk'.drop 22 = chunk.drop 22 := by
  have hchk : parsed.msg_chunk = some chunk := by rw [hpar, deserializeHeaderAndInstructions]
  let forwarded : MessagePart :=
    { parsed with is_forwarded_part := true, seq := seq, hop_count := hop_count }
  have hlen : 22 ≤ (writeAll chunk (instructionFields forwarded)).length := by
    rw [length_writeAll (instructions_fit h)]
    exact h
  have hfor : forwarded.is_forwarded_part = true := rfl
  refine ⟨writeAll chunk (instructionFields forwarded), rebuild_eq hfor hchk h blob, ?_,
    take_rebuilt h, drop_rebuilt h⟩
  rw [deserializeIndexed_eq hlen, deserialize_rebuilt h, hpar]

end

/-- A packet is parsed as it was built, its fields fill it, and a node that passes it on changes
only the sequence number and the hop count. -/
theorem packet_parsed_as_built {blob binary : Bytes} {part : MessagePart}
    (hf : part.is_forwarded_part = false) (h : Readable part.e2e_msg_part)
    (hb : blob.length = 1046)
    (hheader : header.read binary = part.e2e_msg_part.msg_header.take 96)
    (n2n_msg : MessagePart) :
    ∃ chunk parsed, buildNetworkPacket blob part = .ok { part with msg_chunk := some chunk } ∧
      deserializeIndexed chunk n2n_msg = .ok parsed ∧ Delivers binary part parsed ∧
      Tiles chunk parsed ∧
      ∀ (blob' : Bytes) (seq : UInt32) (hop_count : UInt16),
        ∃ chunk', buildNetworkPacket blob'
            { parsed with is_forwarded_part := true, seq := seq, hop_count := hop_count } =
          .ok { parsed with
            is_forwarded_part := true, seq := seq, hop_count := hop_count,
            msg_chunk := some chunk' } ∧
          deserializeIndexed chunk' n2n_msg =
            .ok { parsed with seq := seq, hop_count := hop_count, msg_chunk := some chunk' } ∧
          chunk'.take 16 = chunk.take 16 ∧ chunk'.drop 22 = chunk.drop 22 := by
  have hlen : (packet blob part).length = 1046 := by
    rw [packet, length_writeAll (packet_fits h hb), hb]
  have hlong : 22 ≤ (packet blob part).length := by omega
  exact ⟨packet blob part, deserializeHeaderAndInstructions (packet blob part) n2n_msg,
    build_eq hf h hb, deserializeIndexed_eq hlong n2n_msg, delivers_packet h hb hheader n2n_msg,
    tiles_deserialize hlen n2n_msg, forward_keeps hlong rfl⟩

def thirdChunk : MessagePart :=
  { newPart with
    chunk_offset := 3
    seq := 70
    hop_count := 1
    e2e_msg_part := {
      newPart.e2e_msg_part with
      nonce := replicate 12 2
      mac_e := replicate 16 255
      msg_header := replicate 96 61
      msg_body := replicate 900 62 } }

theorem third_chunk_parsed_as_built :
    ∃ chunk parsed,
      buildNetworkPacket (replicate 1046 0) thirdChunk =
        .ok { thirdChunk with msg_chunk := some chunk } ∧
      deserializeIndexed chunk newPart = .ok parsed ∧
      Delivers (replicate 124 61) thirdChunk parsed ∧ Tiles chunk parsed := by
  have hrd : Readable thirdChunk.e2e_msg_part :=
    ⟨length_replicate.ge, length_replicate.ge, length_replicate.ge, length_replicate.ge⟩
  have hh : header.read (replicate 124 61) = thirdChunk.e2e_msg_part.msg_header.take 96 := by
    change ((replicate 124 61).drop 28).take 96 = (replicate 96 61).take 96
    rw [drop_replicate]
  have hblob : (replicate 1046 (0 : UInt8)).length = 1046 := length_replicate
  obtain ⟨chunk, parsed, hb, hparse, hd, htiles, -⟩ :=
    packet_parsed_as_built rfl hrd hblob hh newPart
  exact ⟨chunk, parsed, hb, hparse, hd, htiles⟩

end Neuropil.Message.PacketRoundTrip
