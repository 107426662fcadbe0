import Neuropil.Dhkey.Order
import Neuropil.Lib.Fault

namespace Neuropil.Eventqueue.Chain

open List Lib.Fault

inductive Fault
  -- "Maximum event chaining reached"
  | assertion
  | useAfterFree
deriving DecidableEq, Repr

inductive UserData
  | null
  | message (p : ℕ)
  -- a new message with the contents of the one at `p`
  | cloneOf (p : ℕ)
  | responsecontainer (p : ℕ)
deriving DecidableEq

/-- np_util_event_t, with the key that it is to be handed to. -/
structure ChainedEvent where
  source_dhkey : Dhkey
  type : UInt32
  target_dhkey : Dhkey
  user_data : UserData
deriving DecidableEq

def maxSize : ℕ := 255

/-- np_event_runtime_t; the array of the events is not filled beyond its end. -/
structure EventRuntime where
  chained : List ChainedEvent
  length_le : chained.length ≤ maxSize

def addEvent (runtime : EventRuntime) (event : ChainedEvent) : Except Fault EventRuntime :=
  if h : runtime.chained.length < maxSize then
    .ok ⟨runtime.chained ++ [event], by rw [length_append]; exact h⟩
  else .error .assertion

def addEvents (runtime : EventRuntime) (events : List ChainedEvent) : Except Fault EventRuntime :=
  events.foldlM addEvent runtime

def startedRuntime : EventRuntime := ⟨[⟨Dhkey.ofWord 2, 0, Dhkey.ofWord 2, .null⟩], by decide⟩

variable {runtime runtime' : EventRuntime} {event : ChainedEvent} {events : List ChainedEvent}

lemma addEvents_cons (runtime : EventRuntime) (event : ChainedEvent)
    (events : List ChainedEvent) : addEvents runtime (event :: events) =
      addEvent runtime event >>= fun runtime => addEvents runtime events := rfl

lemma addEvents_append (runtime : EventRuntime) (events events' : List ChainedEvent) :
    addEvents runtime (events ++ events') =
      addEvents runtime events >>= fun runtime => addEvents runtime events' :=
  foldlM_append

lemma addEvent_full (h : runtime.chained.length = maxSize) (event : ChainedEvent) :
    addEvent runtime event = .error .assertion :=
  dif_neg (h ▸ Nat.lt_irrefl _)

lemma addEvent_ok (h : runtime.chained.length < maxSize) (event : ChainedEvent) :
    ∃ runtime', addEvent runtime event = .ok runtime' ∧
      runtime'.chained = runtime.chained ++ [event] :=
  ⟨_, dif_pos h, rfl⟩

lemma addEvents_spec (runtime : EventRuntime) (events : List ChainedEvent) :
    (runtime.chained.length + events.length ≤ maxSize ∧ ∃ runtime',
      addEvents runtime events = .ok runtime' ∧ runtime'.chained = runtime.chained ++ events) ∨
    (maxSize < runtime.chained.length + events.length ∧
      addEvents runtime events = .error .assertion) := by
  induction events generalizing runtime with
  | nil => exact .inl ⟨runtime.length_le, runtime, rfl, (append_nil _).symm⟩
  | cons event events ih =>
    rw [addEvents_cons]
    obtain hlt | heq := runtime.length_le.lt_or_eq
    · obtain ⟨next, hnext, hchn⟩ := addEvent_ok hlt event
      have hlen : next.chained.length = runtime.chained.length + 1 := by
        rw [hchn, length_append]
        rfl
      rw [hnext, ok_bind]
      obtain ⟨hroom, runtime', hok, he⟩ | ⟨hfull, herr⟩ := ih next
      · refine .inl ⟨?_, runtime', hok, ?_⟩
        · rw [length_cons]
          omega
        · rw [he, hchn, append_assoc]
          rfl
      · refine .inr ⟨?_, herr⟩
        rw [length_cons]
        omega
    · refine .inr ⟨?_, ?_⟩
      · rw [length_cons]
        omega
      · rw [addEvent_full heq]
        rfl

def Emits {α ε : Type} (full : ε) (runtime : EventRuntime) (events : List ChainedEvent)
    (res : Except ε (EventRuntime × α)) : Prop :=
  (runtime.chained.length + events.length ≤ maxSize ∧ ∃ runtime' a, res = .ok (runtime', a) ∧
    runtime'.chained = runtime.chained ++ events) ∨
  (maxSize < runtime.chained.length + events.length ∧ res = .error full)

variable {α β ε δ : Type} {full : ε} {events' : List ChainedEvent}
  {res : Except ε (EventRuntime × α)}

lemma emits_addEvents (runtime : EventRuntime) (events : List ChainedEvent) (a : α) :
    Emits .assertion runtime events
      (addEvents runtime events >>= fun runtime => .ok (runtime, a)) := by
  obtain ⟨hroom, runtime', hok, hchn⟩ | ⟨hfull, he⟩ := addEvents_spec runtime events
  · refine .inl ⟨hroom, runtime', a, ?_, hchn⟩
    rw [hok, ok_bind]
  · refine .inr ⟨hfull, ?_⟩
    rw [he]
    rfl

lemma emits_nil (full : ε) (runtime : EventRuntime) (a : α) :
    Emits full runtime [] (.ok (runtime, a)) :=
  .inl ⟨runtime.length_le, runtime, a, rfl, (append_nil _).symm⟩

variable (h : Emits full runtime events res)
include h

lemma Emits.mapError (f : ε → δ) : Emits (f full) runtime events (res.mapError f) := by
  obtain ⟨hroom, runtime', a, rfl, hchn⟩ | ⟨hfull, rfl⟩ := h
  · exact .inl ⟨hroom, runtime', a, rfl, hchn⟩
  · exact .inr ⟨hfull, rfl⟩

lemma Emits.bind {next : EventRuntime × α → Except ε (EventRuntime × β)}
    (hnext : ∀ runtime' a, res = .ok (runtime', a) →
      Emits full runtime' events' (next (runtime', a))) :
    Emits full runtime (events ++ events') (res >>= next) := by
  rw [Emits, length_append]
  obtain ⟨hroom, runtime', a, rfl, hchn⟩ | ⟨hfull, rfl⟩ := h
  · have hlen : runtime'.chained.length = runtime.chained.length + events.length := by
      rw [hchn, length_append]
    obtain ⟨hr', runtime'', b, hok, hc'⟩ | ⟨hfull, he⟩ := hnext runtime' a rfl
    · refine .inl ⟨by omega, runtime'', b, hok, ?_⟩
      rw [hc', hchn, append_assoc]
    · exact .inr ⟨by omega, he⟩
  · exact .inr ⟨by omega, rfl⟩

lemma Emits.ne_full_iff :
    res ≠ .error full ↔ runtime.chained.length + events.length ≤ maxSize := by
  obtain ⟨hroom, runtime', a, rfl, -⟩ | ⟨hfull, rfl⟩ := h
  · exact iff_of_true (by simp) hroom
  · exact iff_of_false (fun h => h rfl) (Nat.not_le.2 hfull)

end Neuropil.Eventqueue.Chain
