import Neuropil.Lib.Buffer
import Neuropil.Lib.Framing
import Neuropil.Lib.Run

namespace Neuropil.Network.Receive

open List Lib.Buffer Lib.Framing Lib.Run

/-- The length of a packet, MSG_CHUNK_SIZE_1024 + MSG_INSTRUCTIONS_SIZE. -/
def packetLength : ℕ := 1024 + 22

lemma packetLength_pos : 0 < packetLength := by decide

inductive NodeStatus
  | disconnected
  | initiated
  | connected
deriving DecidableEq

inductive Target
  | owner
  | aliasKey
deriving DecidableEq

/-- What `_np_network_read` finds when a packet is complete: how many packets of the peer the filter
counts in this second, and the handshake status of the alias key, if any. -/
structure Arrival where
  load : ℕ
  status : Option NodeStatus
deriving DecidableEq

/-- The result of recv on the non-blocking socket: EAGAIN, or at most `most + 1` of the bytes that
were asked for. -/
inductive Recv
  | again
  | read (most : ℕ) (arrival : Arrival)
deriving DecidableEq

structure Socket where
  passive : Bool
  maxMsgsPerSec : ℕ
deriving DecidableEq

/-- The bytes not given out by the kernel, those in the blob of the running callback, and the
submitted packets. -/
structure Reader where
  unread : Bytes
  inMsg : Bytes
  handed : List (Target × Bytes)
deriving DecidableEq

variable (socket : Socket)

def target (arrival : Arrival) : Target :=
  match arrival.status with
  | none | some .disconnected => .owner
  | some _ => if socket.passive then .owner else .aliasKey

def overLimit (arrival : Arrival) : Bool :=
  decide (socket.maxMsgsPerSec > 0 ∧ arrival.load > socket.maxMsgsPerSec)

def Reader.chunk (r : Reader) (most : ℕ) : Bytes :=
  r.unread.take (min (most + 1) (packetLength - r.inMsg.length))

def submit (r : Reader) (packet : Bytes) (arrival : Arrival) : Reader :=
  if overLimit socket arrival then { r with inMsg := [] }
  else { r with inMsg := [], handed := r.handed ++ [(target socket arrival, packet)] }

/-- One turn of the loop of `_np_network_read`, and the end of the callback if it ends. A negative
result stops the callback, whatever is in the blob. -/
def step (r : Reader) : Recv → Reader
  | .again => { r with inMsg := [] }
  | .read most arrival =>
    if r.unread = [] then { r with inMsg := [] }
    else
      let inMsg := r.inMsg ++ r.chunk most
      let r := { r with unread := r.unread.drop (r.chunk most).length, inMsg := inMsg }
      if inMsg.length < packetLength then r else submit socket r inMsg arrival

def start (stream : Bytes) : Reader := ⟨stream, [], []⟩

def received (stream : Bytes) (r : Reader) : Bytes := stream.take (stream.length - r.unread.length)

/-- The packets are the stream cut into packets, and no byte given out is missing. -/
def Faithful (stream : Bytes) (r : Reader) : Prop :=
  r.handed.map Prod.snd = frames packetLength (received stream r) ∧
    (r.handed.map Prod.snd).flatten ++ r.inMsg = received stream r

/-- There is nothing in the blob when recv has nothing, and the limit is not reached when a packet
is complete. -/
def Keeps (r : Reader) : Recv → Prop
  | .again => r.inMsg = []
  | .read most arrival =>
    (r.unread = [] → r.inMsg = []) ∧
      ((r.inMsg ++ r.chunk most).length = packetLength → overLimit socket arrival = false)

structure Kept (stream : Bytes) (r : Reader) : Prop where
  all : (r.handed.map Prod.snd).flatten ++ r.inMsg ++ r.unread = stream
  packets : ∀ packet ∈ r.handed.map Prod.snd, packet.length = packetLength
  partly : r.inMsg.length < packetLength

variable {socket} {stream : Bytes} {r : Reader} {most : ℕ} {arrival : Arrival}

lemma Kept.received_eq (h : Kept stream r) :
    received stream r = (r.handed.map Prod.snd).flatten ++ r.inMsg := by
  have hlen := congrArg length h.all
  rw [length_append] at hlen
  rw [received, ← h.all, take_left']
  rw [h.all]
  omega

lemma Kept.faithful (h : Kept stream r) : Faithful stream r := by
  rw [Faithful, h.received_eq]
  exact ⟨(frames_flatten h.packets h.partly).symm, rfl⟩

lemma chunk_append (r : Reader) (most : ℕ) :
    r.chunk most ++ r.unread.drop (r.chunk most).length = r.unread := by
  have hpre : r.chunk most <+: r.unread := take_prefix _ _
  obtain ⟨rest, hrest⟩ := hpre
  rw [← hrest, drop_left]

lemma length_chunk_le (h : Kept stream r) : (r.inMsg ++ r.chunk most).length ≤ packetLength := by
  have hlt := h.partly
  have hle : (r.chunk most).length ≤ packetLength - r.inMsg.length :=
    (length_take_le _ _).trans (min_le_right _ _)
  rw [length_append]
  omega

lemma Kept.read (h : Kept stream r) :
    (r.handed.map Prod.snd).flatten ++ (r.inMsg ++ r.chunk most) ++
      r.unread.drop (r.chunk most).length = stream := by
  rw [append_assoc, append_assoc, chunk_append, ← append_assoc]
  exact h.all

lemma step_kept {a : Recv} (h : Kept stream r) (hkeeps : Keeps socket r a) :
    Kept stream (step socket r a) := by
  have hidle : r.inMsg = [] → Kept stream { r with inMsg := [] } := by
    intro hnil
    rw [← hnil]
    exact h
  cases a with
  | again => exact hidle hkeeps
  | read most arrival =>
    obtain ⟨hnone, hlimit⟩ := hkeeps
    rw [step]
    split
    · next hu => exact hidle (hnone hu)
    · simp only
      split
      · next hlt => exact ⟨h.read, h.packets, hlt⟩
      · next hfull =>
        have hlen : (r.inMsg ++ r.chunk most).length = packetLength :=
          le_antisymm (length_chunk_le h) (not_lt.1 hfull)
        rw [submit, hlimit hlen, if_neg Bool.false_ne_true]
        refine ⟨?_, ?_, packetLength_pos⟩
        · simp only [map_append, map_cons, map_nil, flatten_append,
            flatten_cons, flatten_nil, append_nil]
          exact h.read
        · intro packet hpkt
          simp only [map_append, map_cons, map_nil, mem_append, mem_singleton] at hpkt
          obtain hpkt | rfl := hpkt
          · exact h.packets packet hpkt
          · exact hlen

lemma not_faithful_of_lost {lost : Bytes}
    (hall : (r.handed.map Prod.snd).flatten ++ lost ++ r.unread = stream) (hlost : lost ≠ [])
    (hb : r.inMsg = []) : ¬ Faithful stream r := by
  rintro ⟨-, hbytes⟩
  have hlen := congrArg length hall
  rw [length_append] at hlen
  have hrec : received stream r = (r.handed.map Prod.snd).flatten ++ lost := by
    rw [received, ← hall, take_left']
    rw [hall]
    omega
  rw [hrec, hb] at hbytes
  exact hlost (append_cancel_left hbytes).symm

lemma step_loses {a : Recv} (h : Kept stream r) (hkeeps : ¬ Keeps socket r a) :
    ¬ Faithful stream (step socket r a) := by
  have hidle : r.inMsg ≠ [] → ¬ Faithful stream { r with inMsg := [] } :=
    fun hsome => not_faithful_of_lost h.all hsome rfl
  cases a with
  | again => exact hidle hkeeps
  | read most arrival =>
    rw [step]
    split
    · next hu =>
      have hchk : r.chunk most = [] := by rw [Reader.chunk, hu, take_nil]
      refine hidle fun hnil => hkeeps ⟨fun _ => hnil, fun hlen => ?_⟩
      rw [hnil, hchk] at hlen
      cases hlen
    · next hu =>
      have ho : (r.inMsg ++ r.chunk most).length = packetLength ∧
          overLimit socket arrival = true := by
        by_contra hnot
        refine hkeeps ⟨fun hnil => absurd hnil hu, fun hlen => ?_⟩
        exact Bool.eq_false_iff.2 fun htrue => hnot ⟨hlen, htrue⟩
      have hsome : r.inMsg ++ r.chunk most ≠ [] := by
        intro hnil
        rw [hnil] at ho
        cases ho.1
      simp only
      rw [if_neg (not_lt.2 ho.1.ge), submit, if_pos ho.2]
      exact not_faithful_of_lost h.read hsome rfl

lemma kept_start (stream : Bytes) : Kept stream (start stream) :=
  ⟨rfl, (fun _ hpkt => nomatch hpkt), packetLength_pos⟩

/-- The packets are the stream cut into packets, at every moment and with nothing lost, exactly if
recv never pauses in the middle of a packet and the limit is not exceeded. -/
theorem packets_cut_iff (socket : Socket) (stream : Bytes) (results : List Recv) :
    (∀ before, before <+: results → Faithful stream (run (step socket) (start stream) before)) ↔
      Admitted (step socket) (start stream) (Keeps socket) results :=
  good_iff_admitted (fun _ => Kept stream) (kept_start stream)
    (fun _ _ _ => step_kept) (fun _ _ => Kept.faithful) (fun _ _ _ => step_loses) results

/-- A packet of which 500 bytes come before an EAGAIN: these are lost, and the packets that follow
are shifted. -/
theorem eagain_loses_bytes :
    let stream := replicate 500 0 ++ replicate 1046 1
    let reader := run (step ⟨false, 256⟩) (start stream)
      [.read 499 ⟨0, none⟩, .again, .read 1045 ⟨0, none⟩]
    reader.handed = [(.owner, replicate 1046 1)] ∧
      reader.handed.map Prod.snd ≠ frames packetLength (received stream reader) := by
  decide +kernel

end Neuropil.Network.Receive
