import Neuropil.Lib.Run
import Neuropil.Message.Collect

namespace Neuropil.Message.Restore

open List Nat Lib.Buffer Lib.Fault Lib.Reassembly Lib.Run Message.Create Message.Packet
  Message.Sender Message.Collect

def receive (m : BinaryMessage) (s : Except Fault E2eMessage) (t : Transmission m.parts) :
    Except Fault E2eMessage := do
  let msg ← s
  let buffer ← send m t
  let added ← addChunk msg (deserializeHeaderAndInstructions buffer newPart)
  return added.msg

structure Agrees (buf orig : Bytes) (k : ℕ) : Prop where
  length : buf.length = orig.length
  bytes : slice buf 0 k = slice orig 0 k

lemma Agrees.copy {buf orig : Bytes} {off : ℕ} (h : Agrees buf orig off) (len : ℕ)
    {src : Bytes} (hsrc : src = slice orig off len) (hfit : off + len ≤ orig.length) :
    ∃ buf', copy buf off src len = .ok buf' ∧ Agrees buf' orig (off + len) := by
  subst hsrc
  have hlen : (slice orig off len).length = len := by
    rw [length_slice]
    omega
  have hle : off + (slice orig off len).length ≤ buf.length := by
    rw [hlen, h.length]
    exact hfit
  have hsame := slice_writeAt_same _ _ _ hle
  have hb := slice_writeAt_before _ _ _ 0 off hle (zero_add off).le
  rw [hlen] at hsame
  refine ⟨writeAt buf off (slice orig off len), ?_, ?_, ?_⟩
  · rw [Sender.copy, if_pos hlen.ge, take_of_length_le hlen.le, put_ok hle]
  · rw [length_writeAt _ _ _ hle, h.length]
  · have hnext := slice_append_slice (writeAt buf off (slice orig off len)) 0 off len
    rw [zero_add, hb, hsame, h.bytes] at hnext
    rw [← hnext, ← slice_append_slice orig 0 off len, zero_add]

lemma setHeaderPointer_congr {b b' : Bytes}
    (h : slice b 0 fixedHeaderBytes = slice b' 0 fixedHeaderBytes) :
    setHeaderPointer b = setHeaderPointer b' := by
  have hread : ∀ f : Field, f.offset + f.size ≤ fixedHeaderBytes → f.read b = f.read b' := by
    intro f hf
    have hslice := congrArg (fun x => slice x f.offset f.size) h
    simpa only [slice_slice _ hf, zero_add, Field.read] using hslice
  simp only [setHeaderPointer]
  rw [hread nonce (by decide), hread mac_e (by decide), hread subject (by decide),
    hread audience (by decide), hread uuid (by decide), hread tstamp (by decide),
    hread ttl (by decide), hread parts (by decide), hread msg_flags (by decide)]

variable {m : BinaryMessage} {msg : E2eMessage} {t : Transmission m.parts}

structure Restored (m : BinaryMessage) (k : ℕ) (msg : E2eMessage) : Prop where
  bytes : Agrees msg.binary_message m.binary k
  pointers : msg.pointers = setHeaderPointer m.binary

lemma restored_header (hlen : msg.binary_message.length = m.binary.length)
    (ht : t.index.val = 0) :
    ∃ msg', copyHeader msg (received m t) = .ok msg' ∧ Restored m fixedHeaderBytes msg' := by
  have hle : fixedHeaderBytes ≤ m.binary.length := by
    rw [m.length_eq]
    exact le_add_right _ _
  have hfrt := received_front m t ht
  have hh : (received m t).e2e_msg_part.msg_header = header.read m.binary := by
    rw [received_eq]
  have h0 : Agrees msg.binary_message m.binary nonce.offset := ⟨hlen, rfl⟩
  obtain ⟨b1, hb1, h1⟩ := h0.copy nonce.size (congrArg Pointers.nonce hfrt)
    (le_trans (by decide) hle)
  change Agrees b1 m.binary mac_e.offset at h1
  obtain ⟨b2, hb2, h2⟩ := h1.copy mac_e.size (congrArg Pointers.mac_e hfrt)
    (le_trans (by decide) hle)
  change Agrees b2 m.binary header.offset at h2
  obtain ⟨b3, hb3, h3⟩ := h2.copy header.size hh (le_trans (by decide) hle)
  refine ⟨{ msg with binary_message := b3, pointers := setHeaderPointer b3 }, ?_, h3,
    setHeaderPointer_congr h3.bytes⟩
  rw [copyHeader, hb1, ok_bind, hb2, ok_bind, hb3]
  rfl

lemma restored_body {i : ℕ} (h : Restored m (fixedHeaderBytes + chunkBytes * i) msg)
    (ht : t.index.val = i) : ∃ msg', copyChunk i (received m t) msg = .ok msg' ∧
      Restored m (fixedHeaderBytes + chunkBytes * (i + 1)) msg' := by
  subst ht
  have hread : (received m t).e2e_msg_part.msg_body =
      slice m.binary (fixedHeaderBytes + chunkBytes * t.index) chunkBytes := by
    rw [received_eq]
  have hb := length_body m t.index.isLt
  have hpos : 0 < chunkBytes := by decide
  rw [length_slice] at hb
  obtain ⟨binary, hcopy, hagree⟩ := h.bytes.copy chunkBytes hread (by omega)
  rw [add_assoc, ← mul_succ] at hagree
  refine ⟨{ msg with binary_message := binary }, ?_, hagree, h.pointers⟩
  rw [copyChunk, hcopy]
  rfl

lemma restored_all {m : BinaryMessage} {msg : E2eMessage} (h : Restored m m.binary.length msg) :
    msg.binary_message = m.binary := by
  have hbytes := h.bytes.bytes
  rw [slice_all] at hbytes
  rwa [← h.bytes.length, slice_all] at hbytes

variable {slots : List (Option (Transmission m.parts))}

lemma copyChunks_restores
    (hsls : ∀ i < m.parts, ∃ t, slots[i]? = some (some t) ∧ place m t = i) (k i : ℕ)
    (hk : i + k = m.parts) (msg : E2eMessage)
    (hmsg : msg.binary_message.length = m.binary.length ∧
      (i ≠ 0 → Restored m (fixedHeaderBytes + chunkBytes * i) msg)) (hi : 0 < i + k) :
    ∃ msg', copyChunks (slots.map (Option.map (received m))) (range' i k) msg =
      .ok (true, msg') ∧ msg'.binary_message = m.binary ∧
        msg'.pointers = setHeaderPointer m.binary := by
  induction k generalizing i msg with
  | zero =>
    have hall := hmsg.2 (by omega)
    have hlast : i = m.parts := by omega
    rw [hlast, ← m.length_eq] at hall
    exact ⟨msg, rfl, restored_all hall, hall.pointers⟩
  | succ k ih =>
    obtain ⟨t, hslot, ht⟩ := hsls i (by omega)
    have hget : (slots.map (Option.map (received m)))[i]? = some (some (received m t)) := by
      rw [getElem?_map, hslot]
      rfl
    obtain ⟨msg1, hh, hmsg1⟩ : ∃ msg1, (if i = 0 then copyHeader msg (received m t)
        else .ok msg) = .ok msg1 ∧ Restored m (fixedHeaderBytes + chunkBytes * i) msg1 := by
      split_ifs with h0
      · subst h0
        exact restored_header hmsg.1 ht
      · exact ⟨msg, rfl, hmsg.2 h0⟩
    obtain ⟨msg2, hcopy, hb⟩ := restored_body hmsg1 ht
    obtain ⟨msg', hrest, hres⟩ := ih (i + 1) (by omega) msg2
      ⟨hb.bytes.length, fun _ => hb⟩ (by omega)
    refine ⟨msg', ?_, hres⟩
    rw [range'_succ, copyChunks, hget]
    dsimp only
    rw [hh, ok_bind, hcopy, ok_bind, hrest]

lemma deserialize_restores {env : Env} {buf : Buffer (Transmission m.parts)}
    {before : List (Transmission m.parts)} (hc : Collects before buf)
    (hmem : env.allocates (chunkBytes * m.parts + fixedHeaderBytes) = true)
    (hall : buf.contents.length = m.parts) :
    ∃ msg, deserializeChunks env (assembled m buf) = .ok (true, msg) ∧
      msg.binary_message = m.binary ∧ msg.pointers = setHeaderPointer m.binary := by
  have hpos := hc.ordered.pos
  have hparts : leVal (received m buf.base).e2e_msg_part.parts = m.parts := by
    rw [received_eq]
    rfl
  have hfrt : (buf.slots.map (Option.map (received m)))[0]? =
      some (some (received m buf.base)) := by
    rw [getElem?_map, hc.ordered.base]
    rfl
  have hlen : (realloc env.memory [] (chunkBytes * m.parts + fixedHeaderBytes)).length =
      m.binary.length := by
    rw [length_realloc, m.length_eq, add_comm]
  obtain ⟨msg, hcopy, hres⟩ := copyChunks_restores
    (full_in_order hc.ordered hc.nodup hall) m.parts 0 (zero_add _)
    { assembled m buf with
      binary_message := realloc env.memory [] (chunkBytes * m.parts + fixedHeaderBytes)
      binary_length := chunkBytes * m.parts + fixedHeaderBytes } ⟨hlen, by simp⟩ (by omega)
  refine ⟨{ msg with state := .binary, msg_chunks := none }, ?_, hres⟩
  rw [← range_eq_range'] at hcopy
  simp only [assembled, newMessage] at hcopy
  simp only [deserializeChunks, assembled, newMessage, hfrt, hparts, hmem, hpos.ne', hcopy,
    ne_eq, not_true_eq_false, ↓reduceIte, Bool.true_eq_false, ok_bind]
  rfl

structure Received (before : List (Transmission m.parts)) (s : Except Fault E2eMessage) : Prop where
  none : before = [] → s = .ok newMessage
  some : before ≠ [] → ∃ buf, s = .ok (assembled m buf) ∧ Collects before buf

lemma receive_ok (msg : E2eMessage) (t : Transmission m.parts) :
    receive m (.ok msg) t = (addChunk msg (received m t)).map Added.msg := by
  rw [receive, ok_bind, send_eq, ok_bind]
  rfl

lemma Received.step (h : m.Unwrapped) {before : List (Transmission m.parts)}
    {s : Except Fault E2eMessage} (hr : Received before s) (t : Transmission m.parts)
    (hnew : place m t ∉ before.map (place m)) : Received (before ++ [t]) (receive m s t) := by
  refine ⟨by simp, fun _ => ?_⟩
  by_cases hnil : before = []
  · rw [hr.none hnil, receive_ok, addChunk, addChunk_first, hnil]
    exact ⟨_, rfl, .first t⟩
  · obtain ⟨buf, rfl, hc⟩ := hr.some hnil
    obtain ⟨ret, buf', hadd, hc'⟩ := hc.step h t fun hh => absurd ((hc.mem _).mp hh) hnew
    rw [receive_ok, hadd]
    exact ⟨buf', rfl, hc'⟩

lemma received_run (h : m.Unwrapped) (arrivals : List (Transmission m.parts))
    (hnd : (arrivals.map (place m)).Nodup) :
    Received arrivals (run (receive m) (.ok newMessage) arrivals) := by
  apply run_inv_always (fun before s => (before.map (place m)).Nodup → Received before s)
    (fun _ => ⟨fun _ => rfl, fun hne => absurd rfl hne⟩) _ arrivals hnd
  intro before s t ih hnd
  rw [map_append, map_singleton, nodup_append'] at hnd
  obtain ⟨hb, _, hd⟩ := hnd
  exact (ih hb).step h t (disjoint_singleton.mp hd)

/-- Whatever the order in which the packets of a message arrive, the message is
put together as it was sent. -/
theorem restored_in_any_order (m : BinaryMessage) (hparts : 0 < m.parts) (h : m.Unwrapped)
    (env : Env)
    (hmem : env.allocates (chunkBytes * m.parts + fixedHeaderBytes) = true)
    (arrivals : List (Transmission m.parts))
    (hperm : (arrivals.map (place m)).Perm (range m.parts)) :
    ∃ msg, (run (receive m) (.ok newMessage) arrivals >>= deserializeChunks env) = .ok (true, msg) ∧
      msg.binary_message = m.binary ∧ msg.pointers = setHeaderPointer m.binary := by
  have hlen := hperm.length_eq
  rw [length_map, length_range] at hlen
  have hne : arrivals ≠ [] := by
    rintro rfl
    exact hparts.ne hlen
  have hnd := hperm.nodup_iff.mpr nodup_range
  obtain ⟨buf, hrun, hc⟩ := (received_run h arrivals hnd).some hne
  have hall : buf.contents.length = m.parts := by
    rw [hc.length_eq, distinct, dedup_eq_self.mpr hnd, length_map, hlen]
  rw [hrun, ok_bind]
  exact deserialize_restores hc hmem hall

theorem restored_in_reverse : ∃ msg,
    (run (receive (blank 7 2 (by decide))) (.ok newMessage)
      [blankPacket (by decide) 1 (by decide), blankPacket (by decide) 0 (by decide)] >>=
        deserializeChunks quietEnv) = .ok (true, msg) ∧
      msg.binary_message = (blank 7 2 (by decide)).binary ∧
      msg.pointers = setHeaderPointer (blank 7 2 (by decide)).binary := by
  have hp : (blank 7 2 (by decide)).parts = 2 := blank_parts _
  have hf : (blank 7 2 (by decide)).firstNumber = 7 := blank_firstNumber _ (by decide)
  apply restored_in_any_order
  · rw [hp]
    decide
  · rw [BinaryMessage.Unwrapped, hp, hf]
    decide
  · rfl
  · have hswap : [1, 0].Perm (range (blank 7 2 (by decide)).parts) := by
      rw [hp]
      exact .swap 0 1 []
    exact hswap

end Neuropil.Message.Restore
