import Neuropil.Message.Create

namespace Neuropil.Message.Announce

open Option Lib.Buffer Lib.Fault Message.Create

/-- The parts that a message announces make up its binary and hold its body, both by its byte size
and as it is serialized. -/
structure Announced (body : Body) (msg : OutMessage) : Prop where
  length : fixedHeaderBytes + chunkBytes * partsOf msg.binary_message = msg.binary_message.length
  size : body.byte_size ≤ chunkBytes * partsOf msg.binary_message
  serialized : body.serialized.length ≤ chunkBytes * partsOf msg.binary_message

/-- The body takes at most 72 parts, and its serialization fits into those of its byte size. -/
def Announceable (body : Body) : Prop :=
  body.byte_size ≤ 64800 ∧ body.serialized.length ≤ chunkBytes * newSize body.byte_size

lemma headerFields_fit (env : Env) (out_prop : Option MsgProperty) (dest subj : Dhkey)
    {binary : Bytes} (h : fixedHeaderBytes ≤ binary.length) :
    Fits binary (headerFields env out_prop dest subj) := by
  have hfit : ∀ f ∈ headerFields env out_prop dest subj, f.1 + f.2.length ≤ fixedHeaderBytes := by
    simp [headerFields, Dhkey.length_bytes, env.now_length, env.uuid_length, subject, audience,
      uuid, tstamp, ttl, msg_flags, fixedHeaderBytes]
  exact fun f hf => (hfit f hf).trans h

section

variable {size : ℕ}

lemma length_padding {written : Bytes} (h : size < 2 ^ 63)
    (hw : written.length ≤ bodyLength (binaryLength size)) :
    (bodyLength (binaryLength size) + 2 ^ 64 - written.length) % 2 ^ 64 =
      chunkBytes * newSize size - written.length := by
  have hn := newSize_lt size
  rw [bodyLength_eq h] at hw ⊢
  rw [chunkBytes] at *
  omega

lemma bodyFields_fit (env : Env) {written binary : Bytes} (h : size < 2 ^ 63)
    (hw : written.length ≤ bodyLength (binaryLength size))
    (hlen : binary.length = binaryLength size) :
    Fits binary (bodyFields env written (binaryLength size)) := by
  have hpad := length_padding h hw
  rw [bodyLength_eq h] at hw
  rw [binaryLength_eq h] at hlen
  simp only [Fits, bodyFields, hpad, List.forall_mem_cons, List.length_map, List.length_range]
  refine ⟨by omega, by omega, by simp⟩

lemma chunking_announced {body : Body} (msg : OutMessage) (h : Announceable body)
    (hst : msg.state = .binary) (hlen : msg.binary_length = binaryLength body.byte_size)
    (hb : msg.binary_message.length = binaryLength body.byte_size) :
    ∃ msg', calculateChunking msg = .ok msg' ∧ Announced body msg' := by
  obtain ⟨hsize, hbytes⟩ := h
  have hn := newSize_le hsize
  have heq := binaryLength_eq (hsize.trans_lt (by decide))
  have hfixed : fixedHeaderBytes ≤ msg.binary_message.length := by omega
  have hfit : parts.offset + (leBytes 2 (newSize body.byte_size)).length ≤
      msg.binary_message.length := by
    rw [length_leBytes]
    exact le_trans (by decide) hfixed
  have hparts := partsOf_put hfixed (n := newSize body.byte_size) (by omega)
  refine ⟨⟨msg.state, msg.send_at, msg.redelivery_at, msg.msg_body,
    writeAt msg.binary_message parts.offset (leBytes 2 (newSize body.byte_size)),
    msg.binary_length⟩, ?_, ?_, ?_, ?_⟩
  · rw [calculateChunking, if_pos hst, hlen, chunksOf_eq hsize, put_ok hfit]
    rfl
  · rw [hparts, length_writeAt _ _ _ hfit, hb, heq]
  · rw [hparts]
    exact le_newSize body.byte_size
  · rw [hparts]
    exact hbytes

end

section

variable {env : Env} {body : Body} {msg msg' : OutMessage}

lemma Announceable.writeMap (h : Announceable body) :
    body.writeMap (bodyLength (binaryLength body.byte_size)) = some body.serialized := by
  obtain ⟨hsize, hbytes⟩ := h
  rw [Body.writeMap, bodyLength_eq (by omega), if_pos hbytes]

lemma body_announced (env : Env) {binary : Bytes} (h : Announceable body)
    (hlen : binary.length = binaryLength body.byte_size) (send_at redelivery_at : Bytes)
    (msg_body : Option Body) :
    ∃ msg', (do
      let binary ← putAll binary (bodyFields env body.serialized (binaryLength body.byte_size))
      calculateChunking
        ⟨.binary, send_at, redelivery_at, msg_body, binary, binaryLength body.byte_size⟩) =
        .ok msg' ∧ Announced body msg' := by
  have hsize : body.byte_size < 2 ^ 63 := h.1.trans_lt (by decide)
  have hw : body.serialized.length ≤ bodyLength (binaryLength body.byte_size) := by
    rw [bodyLength_eq hsize]
    exact h.2
  obtain ⟨b, hb, hblen⟩ := putAll_ok (bodyFields_fit env hsize hw hlen)
  rw [hb]
  exact chunking_announced
    ⟨.binary, send_at, redelivery_at, msg_body, b, binaryLength body.byte_size⟩ h rfl rfl
    (hblen.trans hlen)

section

variable (hmem : env.allocates (binaryLength body.byte_size) = true)
include hmem

lemma create_announced (out_prop : Option MsgProperty) (hst : msg.state = .unknown)
    (dest subj : Dhkey) (h : Announceable body) :
    ∃ msg', create env out_prop msg dest subj (some body) = .ok msg' ∧ Announced body msg' := by
  have heq := binaryLength_eq (h.1.trans_lt (by decide))
  have hreal := length_realloc env.memory msg.binary_message (binaryLength body.byte_size)
  have hfixed : fixedHeaderBytes ≤ (realloc env.memory msg.binary_message
      (binaryLength body.byte_size)).length := by omega
  obtain ⟨binary, hb, hlen⟩ := putAll_ok (headerFields_fit env out_prop dest subj hfixed)
  obtain ⟨msg', hmsg, hann⟩ := body_announced env h (hlen.trans hreal) env.now env.now msg.msg_body
  refine ⟨msg', ?_, hann⟩
  simp only [create, hst, hmem, map_some, getD_some, ne_eq, not_true_eq_false,
    Bool.true_eq_false, ↓reduceIte, hb, h.writeMap]
  exact hmsg

lemma setbody_announced (hst : msg.state = .raw)
    (hb : msg.binary_message.length = msg.binary_length) (h : Announceable body) :
    ∃ msg', setbody env msg body = .ok msg' ∧ Announced body msg' := by
  simp only [setbody, hst, hmem, h.writeMap, ne_eq, not_true_eq_false, ↓reduceIte]
  apply body_announced env h
  split_ifs with hl
  · exact hb.trans hl.symm
  · exact length_realloc _ _ _

lemma create_parts {out_prop : Option MsgProperty} {dest subj : Dhkey}
    (h : create env out_prop msg dest subj (some body) = .ok msg') :
    partsOf msg'.binary_message ≤ 72 := by
  simp only [create, hmem, map_some, getD_some, Bool.true_eq_false, ↓reduceIte] at h
  split_ifs at h
  obtain ⟨_, _, h⟩ := bind_eq_ok h
  obtain ⟨_, _, h⟩ := bind_eq_ok h
  exact chunking_parts h

lemma create_length {out_prop : Option MsgProperty} {dest subj : Dhkey}
    (h : create env out_prop msg dest subj (some body) = .ok msg') :
    msg'.binary_message.length = binaryLength body.byte_size := by
  simp only [create, hmem, map_some, getD_some, Bool.true_eq_false, ↓reduceIte] at h
  split_ifs at h
  obtain ⟨header, hheader, h⟩ := bind_eq_ok h
  obtain ⟨binary, hbinary, h⟩ := bind_eq_ok h
  obtain ⟨-, b, hput, rfl⟩ := chunking_inv h
  obtain ⟨hle, rfl⟩ := put_inv hput
  rw [length_writeAt _ _ _ hle, length_putAll hbinary, length_putAll hheader, length_realloc]

lemma setbody_cases (hb : msg.binary_message.length = msg.binary_length)
    (h : setbody env msg body = .ok msg') :
    partsOf msg'.binary_message ≤ 72 ∧
        body.serialized.length ≤ bodyLength (binaryLength body.byte_size) ∨
      msg'.binary_message.length = binaryLength body.byte_size ∧
        bodyLength (binaryLength body.byte_size) < body.serialized.length := by
  simp only [setbody, Body.writeMap, hmem, if_true] at h
  split at h
  · cases h
  · by_cases hfits : body.serialized.length ≤ bodyLength (binaryLength body.byte_size)
    · rw [if_pos hfits] at h
      obtain ⟨_, _, h⟩ := bind_eq_ok h
      exact .inl ⟨chunking_parts h, hfits⟩
    · rw [if_neg hfits] at h
      cases h
      refine .inr ⟨?_, not_le.1 hfits⟩
      simp only
      split_ifs with hl
      · exact hb.trans hl.symm
      · exact length_realloc _ _ _

end

section

variable (h : Announced body msg')
include h

lemma Announced.byte_size_lt : body.byte_size < 2 ^ 63 := by
  have hlt := partsOf_lt msg'.binary_message
  have hsize := h.size
  rw [chunkBytes] at hsize
  omega

lemma Announced.byte_size_le (hparts : partsOf msg'.binary_message ≤ 72) :
    body.byte_size ≤ 64800 := by
  have hsize := h.size
  rw [chunkBytes] at hsize
  omega

lemma Announced.serialized_le
    (hlen : msg'.binary_message.length = binaryLength body.byte_size) :
    body.serialized.length ≤ chunkBytes * newSize body.byte_size := by
  have hparts := h.length
  rw [hlen, binaryLength_eq h.byte_size_lt] at hparts
  exact h.serialized.trans_eq (Nat.add_left_cancel hparts)

end

end

/-- After either call the announcement is right exactly if the body takes at most 72 parts and its
serialization fits into the parts of its byte size. -/
theorem announced_iff (env : Env) (body : Body)
    (hmem : env.allocates (binaryLength body.byte_size) = true) :
    (∀ out_prop msg dest subj, msg.state = .unknown →
      ((∃ msg', create env out_prop msg dest subj (some body) = .ok msg' ∧ Announced body msg') ↔
        Announceable body)) ∧
    (∀ msg, msg.state = .raw → msg.binary_message.length = msg.binary_length →
      ((∃ msg', setbody env msg body = .ok msg' ∧ Announced body msg') ↔ Announceable body)) := by
  constructor
  · intro out_prop msg dest subj hst
    constructor
    · rintro ⟨msg', hmsg, hann⟩
      exact ⟨hann.byte_size_le (create_parts hmem hmsg),
        hann.serialized_le (create_length hmem hmsg)⟩
    · exact create_announced hmem out_prop hst dest subj
  · intro msg hst hbin
    constructor
    · rintro ⟨msg', hmsg, hann⟩
      have hbody := bodyLength_eq hann.byte_size_lt
      obtain ⟨hparts, hfits⟩ | ⟨hlen, hover⟩ := setbody_cases hmem hbin hmsg
      · exact ⟨hann.byte_size_le hparts, hfits.trans_eq hbody⟩
      · exact absurd (hann.serialized_le hlen) (not_le.2 (hbody ▸ hover))
    · exact setbody_announced hmem hst hbin

def zeros (size : ℕ) (h : size < 2 ^ 64) : Body := ⟨size, h, List.replicate size 0⟩

def newMessage : OutMessage := ⟨.unknown, leBytes 8 0, leBytes 8 0, none, [], 0⟩

theorem announced_three : ∃ msg', create quietEnv none newMessage Dhkey.zero Dhkey.zero
    (some (zeros 3 (by decide))) = .ok msg' ∧ Announced (zeros 3 (by decide)) msg' :=
  ((announced_iff quietEnv (zeros 3 (by decide)) rfl).1 none newMessage Dhkey.zero
    Dhkey.zero rfl).mpr ⟨by decide, by decide⟩

/-- One byte more than 72 chunks hold, and no part at all is announced. -/
theorem announced_too_large : ¬ ∃ msg', create quietEnv none newMessage Dhkey.zero Dhkey.zero
    (some (zeros 64801 (by decide))) = .ok msg' ∧ Announced (zeros 64801 (by decide)) msg' := by
  rintro ⟨msg', hmsg, hann⟩
  have hle := hann.byte_size_le (create_parts rfl hmsg)
  exact absurd hle (by decide)

end Neuropil.Message.Announce
