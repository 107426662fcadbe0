import Neuropil.Network.Receive

namespace Neuropil.Network.Datagrams

open List Lib.Buffer Lib.Run Network.Receive

variable {α : Type}

/-- A datagram with its sender's address, and what `_np_network_read` finds when it completes a
packet. -/
structure Datagram (α : Type) where
  sender : α
  bytes : Bytes
  arrival : Arrival
deriving DecidableEq

/-- The result of recvfrom: EAGAIN, or the next datagram, read only as far as asked for. -/
inductive Recvfrom (α : Type)
  | again
  | datagram (d : Datagram α)
deriving DecidableEq

/-- The bytes in the blob of the running callback, the submitted packets with their senders, whether
the network is enabled, and all datagrams read. -/
structure Reader (α : Type) where
  inMsg : Bytes
  handed : List (α × Target × Bytes)
  enabled : Bool
  arrived : List (Datagram α)
deriving DecidableEq

variable (socket : Socket)

def submitted (d : Datagram α) (packet : Bytes) : List (α × Target × Bytes) :=
  if overLimit socket d.arrival then [] else [(d.sender, target socket d.arrival, packet)]

def step (r : Reader α) : Recvfrom α → Reader α
  | .again => { r with inMsg := [] }
  | .datagram d =>
    if r.enabled then
      let r := { r with arrived := r.arrived ++ [d] }
      if d.bytes = [] then
        if r.inMsg = [] then { r with enabled := false } else { r with inMsg := [] }
      else
        let inMsg := r.inMsg ++ d.bytes.take (packetLength - r.inMsg.length)
        if inMsg.length < packetLength then { r with inMsg := inMsg }
        else { r with inMsg := [], handed := r.handed ++ submitted socket d inMsg }
    else r

def start : Reader α := ⟨[], [], true, []⟩

/-- What a datagram is to be submitted as; there is nothing behind the length of a packet. -/
def own (d : Datagram α) : List (α × Target × Bytes) :=
  if d.bytes.length < packetLength then [] else submitted socket d (d.bytes.take packetLength)

/-- Every datagram as long as a packet is submitted with its own bytes and sender, unless the limit
is reached, nothing else is, and the network is enabled. -/
def Separate (r : Reader α) : Prop := r.handed = r.arrived.flatMap (own socket) ∧ r.enabled = true

/-- An empty datagram does not come first, and short datagrams that are read one after the other do
not make up a packet. -/
def Apart (r : Reader α) : Recvfrom α → Prop
  | .again => True
  | .datagram d =>
    if r.inMsg = [] then d.bytes ≠ [] else r.inMsg.length + d.bytes.length < packetLength

instance decidableApart (r : Reader α) : (a : Recvfrom α) → Decidable (Apart r a)
  | .again => isTrue trivial
  | .datagram d => inferInstanceAs (Decidable
      (if r.inMsg = [] then d.bytes ≠ [] else r.inMsg.length + d.bytes.length < packetLength))

section

variable {socket} {r : Reader α}

lemma own_of_short {d : Datagram α} (h : d.bytes.length < packetLength) : own socket d = [] :=
  if_pos h

lemma step_separate {a : Recvfrom α} (h : Separate socket r) (ha : Apart r a) :
    Separate socket (step socket r a) := by
  obtain ⟨hh, he⟩ := h
  cases a with
  | again => exact ⟨hh, he⟩
  | datagram d =>
    have harr : ∀ packets, own socket d = packets →
        r.handed ++ packets = (r.arrived ++ [d]).flatMap (own socket) := by
      rintro packets rfl
      rw [flatMap_append, hh, flatMap_singleton]
    -- a datagram that is not submitted itself
    have hnone : d.bytes.length < packetLength →
        r.handed = (r.arrived ++ [d]).flatMap (own socket) := by
      intro hlt
      rw [← harr [] (own_of_short hlt), append_nil]
    rw [Apart] at ha
    rw [step, if_pos he]
    simp only
    split at ha
    · next hemp =>
      rw [if_neg ha, hemp, nil_append, length_nil, Nat.sub_zero, length_take]
      split
      · next hlt => exact ⟨hnone (by omega), he⟩
      · next hle =>
        refine ⟨harr _ ?_, he⟩
        rw [own, if_neg (by omega)]
    · next hsome =>
      have hlt : d.bytes.length < packetLength := by omega
      split
      · exact ⟨hnone hlt, he⟩
      · have hlen : (r.inMsg ++ d.bytes.take (packetLength - r.inMsg.length)).length <
            packetLength := by
          rw [length_append, length_take]
          omega
        rw [if_pos hlen]
        exact ⟨hnone hlt, he⟩

end

/-- As long as no empty datagram comes first and short ones do not make up a packet, each datagram
is treated apart from the others. -/
theorem datagrams_separate (socket : Socket) (results : List (Recvfrom α))
    (hapart : Admitted (step socket) start Apart results) {before : List (Recvfrom α)}
    (hbefore : before <+: results) : Separate socket (run (step socket) start before) := by
  exact run_inv (fun _ r => Separate socket r) ⟨rfl, rfl⟩
    (fun _ _ _ h hok => step_separate h hok) before (hapart.of_prefix hbefore)

def datagramOf (sender n : ℕ) (b : UInt8) : Recvfrom ℕ :=
  .datagram ⟨sender, replicate n b, ⟨0, none⟩⟩

theorem datagrams_separate_of_two :
    let results := [datagramOf 1 1046 1, datagramOf 2 500 2, .again, datagramOf 1 1046 3]
    Admitted (step ⟨false, 256⟩) start Apart results ∧
      Separate ⟨false, 256⟩ (run (step ⟨false, 256⟩) start results) := by
  intro results
  have ha : Admitted (step ⟨false, 256⟩) start Apart results := by decide +kernel
  exact ⟨ha, datagrams_separate _ _ ha (prefix_refl _)⟩

/-- A datagram of one byte takes the place of the first byte of another sender's, and an empty one
disables the network. -/
theorem datagrams_interfere :
    ¬ Separate ⟨false, 256⟩
        (run (step ⟨false, 256⟩) start [datagramOf 2 1 2, datagramOf 1 1046 1]) ∧
      ¬ Separate ⟨false, 256⟩ (run (step ⟨false, 256⟩) start [datagramOf 2 0 2]) := by
  constructor
  · rintro ⟨hh, _⟩
    revert hh
    decide +kernel
  · rintro ⟨_, he⟩
    cases he

end Neuropil.Network.Datagrams
