import Neuropil.Network.Receive

namespace Neuropil.Network.Send

open List Nat Lib.Buffer Lib.Run Network.Receive

structure Packet where
  bytes : Bytes
  length_eq : bytes.length = packetLength

/-- The loop of `_np_network_send_data`: each send finds room for some bytes, and fails without any.
The result is `write_per_data` and what the kernel has accepted. -/
def sendLoop (data : Bytes) : (writePerData : ℕ) → (rooms : List ℕ) → ℕ × Bytes
  | writePerData, [] => (writePerData, [])
  | writePerData, room :: rooms =>
    let bytesWritten := min room (packetLength - writePerData)
    if 0 < bytesWritten then
      let chunk := (data.drop writePerData).take bytesWritten
      if writePerData + bytesWritten < packetLength then
        let (written, accepted) := sendLoop data (writePerData + bytesWritten) rooms
        (written, chunk ++ accepted)
      else (writePerData + bytesWritten, chunk)
    else (writePerData, [])

/-- The queue of a network, with all packets ever queued and all bytes that the kernel has
accepted. -/
structure Sender where
  outEvents : List Packet
  queued : List Packet
  accepted : Bytes

/-- A packet is queued, or the socket is ready for writing; the limit of messages per second may be
reached then. -/
inductive Event
  | append (packet : Packet)
  | write (limited : Bool) (rooms : List ℕ)

def step (s : Sender) : Event → Sender
  | .append packet =>
    { s with outEvents := s.outEvents ++ [packet], queued := s.queued ++ [packet] }
  | .write limited rooms =>
    match s.outEvents with
    | [] => s
    | packet :: rest =>
      if limited then s
      else
        let (writePerData, bytes) := sendLoop packet.bytes 0 rooms
        { s with
          accepted := s.accepted ++ bytes
          outEvents := if writePerData = packetLength then rest else packet :: rest }

def start : Sender := ⟨[], [], []⟩

def stream (packets : List Packet) : Bytes := (packets.map Packet.bytes).flatten

/-- The accepted bytes are the beginning of the queued packets, and the packets accepted completely
are not in the queue any more. -/
def InOrder (s : Sender) : Prop :=
  s.accepted <+: stream s.queued ∧ s.outEvents = s.queued.drop (s.accepted.length / packetLength)

/-- Nothing is accepted after a part of a packet: the limit is reached, or there is no room. -/
def Whole (s : Sender) : Event → Prop
  | .append _ => True
  | .write limited rooms =>
    s.accepted.length % packetLength = 0 ∨ limited = true ∨ rooms.head?.getD 0 = 0

instance decidableWhole (s : Sender) : (e : Event) → Decidable (Whole s e)
  | .append _ => isTrue trivial
  | .write limited rooms => inferInstanceAs (Decidable
      (s.accepted.length % packetLength = 0 ∨ limited = true ∨ rooms.head?.getD 0 = 0))

lemma sendLoop_spec (data : Bytes) (rooms : List ℕ) {w : ℕ} (hw : w < packetLength) :
    ∃ n, sendLoop data w rooms = (w + n, (data.drop w).take n) ∧ w + n ≤ packetLength ∧
      (rooms.head?.getD 0 = 0 → n = 0) := by
  induction rooms generalizing w with
  | nil => exact ⟨0, by simp [sendLoop], hw.le, fun _ => rfl⟩
  | cons room rooms ih =>
    rw [sendLoop]
    simp only
    split
    · next hpos =>
      have hroom : (room :: rooms).head?.getD 0 ≠ 0 := by
        change room ≠ 0
        omega
      split
      · next hlt =>
        obtain ⟨n, hloop, hle, _⟩ := ih hlt
        refine ⟨min room (packetLength - w) + n, ?_, by omega, fun h => absurd h hroom⟩
        rw [hloop, take_add, drop_drop, add_assoc]
      · exact ⟨min room (packetLength - w), rfl, by omega, fun h => absurd h hroom⟩
    · exact ⟨0, by simp, hw.le, fun _ => rfl⟩

section

variable {s : Sender} {e : Event}

lemma length_stream (packets : List Packet) :
    (stream packets).length = packets.length * packetLength := by
  induction packets with
  | nil =>
    rw [stream, map_nil, flatten_nil, length_nil, length_nil, zero_mul]
  | cons packet packets ih =>
    rw [stream] at ih
    rw [stream, map_cons, flatten_cons, length_append, ih, packet.length_eq,
      length_cons, succ_mul, add_comm]

lemma stream_append (a b : List Packet) : stream (a ++ b) = stream a ++ stream b := by
  rw [stream, map_append, flatten_append]
  rfl

structure Sent (s : Sender) (sent : List Packet) (part : Bytes) : Prop where
  queued : s.queued = sent ++ s.outEvents
  accepted : s.accepted = stream sent ++ part
  begins : part <+: stream s.outEvents
  short : part.length < packetLength

variable {sent : List Packet} {part : Bytes}

lemma Sent.length_accepted (h : Sent s sent part) :
    s.accepted.length = part.length + packetLength * sent.length := by
  rw [h.accepted, length_append, length_stream, mul_comm, add_comm]

lemma Sent.inOrder (h : Sent s sent part) : InOrder s := by
  have hdiv : s.accepted.length / packetLength = sent.length := by
    rw [h.length_accepted, add_mul_div_left _ _ packetLength_pos, div_eq_of_lt h.short, zero_add]
  constructor
  · rw [h.queued, h.accepted, stream_append]
    exact (prefix_append_right_inj _).2 h.begins
  · rw [hdiv, h.queued, drop_left]

lemma step_sent (h : Sent s sent part) (hw : Whole s e) :
    ∃ sent' part', Sent (step s e) sent' part' := by
  cases e with
  | append packet =>
    refine ⟨sent, part, ?_, h.accepted, ?_, h.short⟩
    · rw [step, h.queued, append_assoc]
    · rw [step, stream_append]
      exact h.begins.trans (prefix_append _ _)
  | write limited rooms =>
    rw [step]
    split
    · exact ⟨sent, part, h⟩
    · next packet rest hout =>
      split
      · exact ⟨sent, part, h⟩
      · next hfree =>
        obtain ⟨n, hloop, hle, hnone⟩ :=
          sendLoop_spec packet.bytes rooms packetLength_pos
        rw [hloop]
        simp only [zero_add, drop_zero]
        obtain hmod | hroom := hw
        · -- no part of the packet was accepted before
          have hpart : part = [] := by
            rw [h.length_accepted, add_mul_mod_self_left, mod_eq_of_lt h.short] at hmod
            exact length_eq_zero_iff.1 hmod
          have ha : s.accepted = stream sent := by rw [h.accepted, hpart, append_nil]
          split
          · next hfull =>
            refine ⟨sent ++ [packet], [], ?_, ?_, nil_prefix, packetLength_pos⟩
            · rw [h.queued, hout, append_assoc, singleton_append]
            · rw [ha, hfull, ← packet.length_eq, take_length, append_nil, stream_append]
              simp [stream]
          · next hpar =>
            refine ⟨sent, packet.bytes.take n, ?_, ?_, ?_, ?_⟩
            · rw [h.queued, hout]
            · rw [ha]
            · rw [stream, map_cons, flatten_cons]
              exact (List.take_prefix _ _).trans (prefix_append _ _)
            · rw [length_take]
              omega
        · rw [hnone (hroom.resolve_left hfree), take_zero, append_nil, if_neg (by decide), ← hout]
          exact ⟨sent, part, h⟩

lemma sent_start : Sent start [] [] := ⟨rfl, rfl, nil_prefix, packetLength_pos⟩

end

/-- As long as nothing is accepted after a part of a packet, the accepted bytes are the beginning of
the queued packets, and a packet leaves the queue with its last byte. -/
theorem sent_in_order (events : List Event) (hwhole : Admitted step start Whole events)
    {before : List Event} (hbefore : before <+: events) : InOrder (run step start before) := by
  have hrun := run_inv (fun _ s => ∃ sent part, Sent s sent part)
    ⟨[], [], sent_start⟩
    (fun _ _ _ h hok => by
      obtain ⟨sent, part, h⟩ := h
      exact step_sent h hok)
    before (hwhole.of_prefix hbefore)
  obtain ⟨sent, part, h⟩ := hrun
  exact h.inOrder

def packetOf (first rest : UInt8) : Packet :=
  ⟨first :: replicate 1045 rest, by rw [length_cons, length_replicate]; rfl⟩

def inTwoCalls : List Event :=
  [.append (packetOf 1 2), .append (packetOf 3 4), .write false [500, 2000], .write false [],
    .write false [1000], .write true [46]]

theorem sent_inTwoCalls :
    Admitted step start Whole inTwoCalls ∧ InOrder (run step start inTwoCalls) := by
  have hw : Admitted step start Whole inTwoCalls := by decide +kernel
  exact ⟨hw, sent_in_order _ hw (prefix_refl _)⟩

/-- A packet of which one byte was accepted before an EAGAIN is sent again from its start. -/
theorem packet_restarted :
    ¬ InOrder (run step start [.append (packetOf 1 2), .write false [1], .write false [1046]]) := by
  rintro ⟨hpre, _⟩
  have hlen := List.IsPrefix.length_le hpre
  have hmore : (stream (run step start
      [.append (packetOf 1 2), .write false [1], .write false [1046]]).queued).length <
      (run step start
        [.append (packetOf 1 2), .write false [1], .write false [1046]]).accepted.length := by
    decide +kernel
  exact absurd hlen (not_le.2 hmore)

end Neuropil.Network.Send
