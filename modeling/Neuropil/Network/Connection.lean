import Neuropil.Network.Send

namespace Neuropil.Network.Connection

open List Lib.Framing Lib.Run Network.Receive Network.Send

/-- The two ends of a TCP connection, of which the reader gets what the sender's kernel accepts. -/
structure Ends where
  sender : Sender
  reader : Reader

variable (socket : Socket) (c : Ends)

def step : Event ⊕ Recv → Ends
  | .inl event =>
    let sender := Send.step c.sender event
    let sent := sender.accepted.drop c.sender.accepted.length
    ⟨sender, { c.reader with unread := c.reader.unread ++ sent }⟩
  | .inr result => { c with reader := Receive.step socket c.reader result }

def opened : Ends := ⟨Send.start, Receive.start []⟩

/-- Neither end stops in the middle of a packet, and the reader completes none beyond its limit. -/
def Unbroken : Event ⊕ Recv → Prop
  | .inl event => Whole c.sender event
  | .inr result => Keeps socket c.reader result

def Joined : Prop := (∃ sent part, Sent c.sender sent part) ∧ Kept c.sender.accepted c.reader

lemma accepted_grows (s : Sender) (e : Event) : s.accepted <+: (Send.step s e).accepted := by
  cases e with
  | append => exact prefix_refl _
  | write limited rooms =>
    rw [Send.step]
    split
    · exact prefix_refl _
    · split
      · exact prefix_refl _
      · exact prefix_append _ _

variable {socket c}

lemma step_joined {a : Event ⊕ Recv} (h : Joined c) (hok : Unbroken socket c a) :
    Joined (step socket c a) := by
  obtain ⟨⟨sent, part, hsent⟩, hkept⟩ := h
  cases a with
  | inl e =>
    refine ⟨step_sent hsent hok, ?_, hkept.packets, hkept.partly⟩
    obtain ⟨more, hmore⟩ := accepted_grows c.sender e
    rw [step, ← hmore, drop_left, ← append_assoc, hkept.all]
  | inr result => exact ⟨⟨sent, part, hsent⟩, step_kept hkept hok⟩

lemma Joined.stream_eq (h : Joined c) : ∃ rest, (c.sender.outEvents = [] → rest = []) ∧
    stream c.sender.queued = (c.reader.handed.map Prod.snd).flatten ++
      (c.reader.inMsg ++ (c.reader.unread ++ rest)) := by
  obtain ⟨⟨sent, part, hsent⟩, hkept⟩ := h
  obtain ⟨rest, hrest⟩ := hsent.begins
  refine ⟨rest, fun hout => ?_, ?_⟩
  · rw [hout] at hrest
    exact (append_eq_nil_iff.1 hrest).2
  · rw [hsent.queued, stream_append, ← hrest, ← append_assoc, ← hsent.accepted, ← hkept.all]
    simp only [append_assoc]

lemma frames_stream (packets : List Packet) :
    frames packetLength (stream packets) = packets.map Packet.bytes := by
  rw [stream, ← append_nil (flatten _), frames_flatten _ packetLength_pos]
  intro piece hpiece
  obtain ⟨packet, -, rfl⟩ := mem_map.1 hpiece
  exact packet.length_eq

/-- In whatever order the two ends take their steps, the packets handed over are the first ones of
those queued, in their order and unchanged; they are all of them once nothing is on its way. -/
theorem delivered_in_order (socket : Socket) (steps : List (Event ⊕ Recv))
    (h : Admitted (step socket) opened (Unbroken socket) steps) :
    let c := run (step socket) opened steps
    c.reader.handed.map Prod.snd <+: c.sender.queued.map Packet.bytes ∧
      (c.sender.outEvents = [] → c.reader.unread = [] →
        c.reader.handed.map Prod.snd = c.sender.queued.map Packet.bytes) := by
  intro c
  have hc : Joined c := run_inv (fun _ => Joined) ⟨⟨[], [], sent_start⟩, kept_start []⟩
    (fun _ _ _ => step_joined) steps h
  obtain ⟨rest, hnone, hstream⟩ := hc.stream_eq
  rw [← frames_stream, hstream]
  constructor
  · rw [frames_append packetLength_pos hc.2.packets]
    exact prefix_append _ _
  · intro hout hread
    rw [hnone hout, hread, append_nil, append_nil, frames_flatten hc.2.packets hc.2.partly]

def exchange : List (Event ⊕ Recv) :=
  [.inl (.append (packetOf 1 2)), .inl (.append (packetOf 3 4)), .inl (.write false [500, 2000]),
    .inr (.read 1045 ⟨0, none⟩), .inl (.write true [9]), .inr .again,
    .inl (.write false [1046]), .inr (.read 600 ⟨0, none⟩), .inr (.read 1045 ⟨0, none⟩)]

theorem exchange_delivered :
    let c := run (step ⟨false, 0⟩) opened exchange
    c.reader.handed.map Prod.snd = [packetOf 1 2, packetOf 3 4].map Packet.bytes := by
  refine (delivered_in_order _ _ ?_).2 (by decide +kernel) (by decide +kernel)
  simp only [exchange, admitted_cons_iff]
  refine ⟨trivial, trivial, .inl rfl, ⟨by decide +kernel, fun _ => rfl⟩, .inl (by decide +kernel),
    ?_, .inl (by decide +kernel), ⟨by decide +kernel, fun _ => rfl⟩,
    ⟨by decide +kernel, fun _ => rfl⟩, fun _ _ hnil => by simp at hnil⟩
  unfold Unbroken Keeps
  decide +kernel

end Neuropil.Network.Connection
