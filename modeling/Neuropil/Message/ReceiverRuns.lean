import Neuropil.Lib.Run
import Neuropil.Message.Receiver

namespace Neuropil.Message.ReceiverRuns

open List Lib.Buffer Lib.Reassembly Lib.Run Message.Create Message.Packet Message.Sender
  Message.Collect Message.Receiver

section

variable (hash : Bytes → Dhkey) (m : BinaryMessage)

inductive Running : Except ReceiverFault (PartCache × List E2eMessage) → Prop
  | idle {context : PartCache} {reported : List E2eMessage}
      (hunseen : Unseen context (messageKey hash m))
      (hcache : context.msg_part_cache (messageKey hash m) = none) :
      Running (.ok (context, reported))
  | collecting {context : PartCache} {reported : List E2eMessage}
      {buf : Buffer (Transmission m.parts)} (hunseen : Unseen context (messageKey hash m))
      (hparts : 1 < m.parts)
      (hcache : context.msg_part_cache (messageKey hash m) = some (assembled m buf))
      (hord : Ordered (place m) m.parts buf) : Running (.ok (context, reported))
  | complete {context : PartCache} {reported : List E2eMessage}
      (hdone : Done context (messageKey hash m)) : Running (.ok (context, reported))

variable {hash m} {context : PartCache} {reported : List E2eMessage}

lemma Running.step (h : m.Unwrapped) {s : Except ReceiverFault (PartCache × List E2eMessage)}
    (hs : Running hash m s) (t : Transmission m.parts) : Running hash m (arrive hash m s t) := by
  cases hs with
  | idle hunseen hcache =>
    obtain ⟨hparts, ha⟩ | ⟨_, context', ha, hdone⟩ := arrive_new hunseen hcache _ t
    · rw [ha]
      exact .collecting (hunseen.setCache _) hparts (setCache_self _ _ _)
        (start_ordered t.index.isLt)
    · rw [ha]
      exact .complete hdone
  | collecting hunseen hparts hcache hord =>
    obtain ⟨ret, buf', hadd, hord', _⟩ := add_spec h hord t
    obtain ha | ⟨_, context', ha, hdone⟩ := arrive_more hunseen hparts hcache hadd _
    · rw [ha]
      exact .collecting (hunseen.setCache _) hparts (setCache_self _ _ _) hord'
    · rw [ha]
      exact .complete hdone
  | complete hdone =>
    rw [arrive_done hdone]
    exact .complete hdone

lemma addChunk_wrapped (depth : ℕ) {t t' : Transmission m.parts}
    (ht : numberOf (received m t) = 0) (ht' : numberOf (received m t') = 65535) :
    addChunkWith (depth + 1) (assembled m (start m.parts t)) (received m t') =
      .error .chunkIndex := by
  have hlt := parts_lt m
  rw [numberOf] at ht ht'
  have hcmp : sodiumCompare (received m t').e2e_msg_part.mac_e
      (received m t).e2e_msg_part.mac_e 2 = 1 := by
    simp [sodiumCompare, ht, ht']
  have hidx : leVal ((sodiumSub (received m t').e2e_msg_part.mac_e
      (leVal ((received m t).e2e_msg_part.mac_e.take 2)) 2).take 2) = 65535 := by
    rw [sodiumSub, take_left' (length_leBytes _ _), leVal_leBytes, ht, ht']
    rfl
  have hslot : ((start m.parts t).slots.map (Option.map (received m)))[65535]? = none := by
    rw [getElem?_eq_none_iff]
    simp only [start, length_map, length_set, length_replicate]
    omega
  have hb : (start m.parts t).base = t := rfl
  simp only [addChunkWith, assembled, hb, hcmp, hidx, hslot]
  simp

variable (hunseen : Unseen context (messageKey hash m))
  (hcache : context.msg_part_cache (messageKey hash m) = none)
include hunseen hcache

lemma running_always (h : m.Unwrapped) (arrivals : List (Transmission m.parts)) :
    Running hash m (run (arrive hash m) (.ok (context, [])) arrivals) :=
  run_inv_always (fun _ s => Running hash m s) (.idle hunseen hcache)
    (fun _ _ t hs => hs.step h t) arrivals

lemma wrapped_run (hparts : 1 < m.parts) {t t' : Transmission m.parts}
    (ht : numberOf (received m t) = 0) (ht' : numberOf (received m t') = 65535) :
    run (arrive hash m) (.ok (context, [])) [t, t'] = .error (.message .chunkIndex) := by
  have hadd : addChunk (assembled m (start m.parts t)) (received m t') = .error .chunkIndex :=
    addChunk_wrapped _ ht ht'
  change arrive hash m (arrive hash m (.ok (context, [])) t) t' = _
  rw [arrive_first hunseen hcache hparts, arrive_unseen (hunseen.setCache _), addPart,
    if_pos (by rwa [parts_received]), setCache_self]
  dsimp only
  rw [hadd]
  rfl

lemma wrapped_fails (hw : ¬ m.Unwrapped) :
    ∃ arrivals, run (arrive hash m) (.ok (context, [])) arrivals =
      .error (.message .chunkIndex) := by
  have hlt := firstNumber_lt m
  have hgt : 65536 < m.firstNumber + m.parts := Nat.lt_of_not_le hw
  refine ⟨[packetWith m (65536 - m.firstNumber) (by omega),
    packetWith m (65535 - m.firstNumber) (by omega)], ?_⟩
  apply wrapped_run hunseen hcache (by omega)
  · rw [number_received]
    change (m.firstNumber + (65536 - m.firstNumber)) % 65536 = 0
    omega
  · rw [number_received]
    change (m.firstNumber + (65535 - m.firstNumber)) % 65536 = 65535
    omega

end

/-- The receiver never leaves the chunk array of a message exactly if the
numbers of its chunks do not wrap around. -/
theorem index_in_range_iff (hash : Bytes → Dhkey) (m : BinaryMessage) (context : PartCache)
    (hunseen : Unseen context (messageKey hash m))
    (hcache : context.msg_part_cache (messageKey hash m) = none) :
    (∀ arrivals, run (arrive hash m) (.ok (context, [])) arrivals ≠
      .error (.message .chunkIndex)) ↔ m.Unwrapped := by
  constructor
  · intro hall
    by_contra hw
    obtain ⟨arrivals, hrun⟩ := wrapped_fails hunseen hcache hw
    exact hall arrivals hrun
  · intro h arrivals hrun
    have hrnn := running_always hunseen hcache h arrivals
    rw [hrun] at hrnn
    cases hrnn

theorem index_in_range_three :
    run (arrive (fun _ => Dhkey.zero) (blank 7 3 (by decide))) (.ok (newCache, []))
      [blankPacket (by decide) 2 (by decide), blankPacket (by decide) 0 (by decide)] ≠
        .error (.message .chunkIndex) := by
  apply (index_in_range_iff _ _ newCache (newCache_unseen _) rfl).mpr
  rw [BinaryMessage.Unwrapped, blank_parts, blank_firstNumber _ (by decide)]
  decide

/-- The second packet arrives first. It has number 0, so the first one with number 65535 is looked
for far behind it. -/
theorem index_out_of_range :
    run (arrive (fun _ => Dhkey.zero) (blank 65535 2 (by decide))) (.ok (newCache, []))
      [blankPacket (by decide) 1 (by decide), blankPacket (by decide) 0 (by decide)] =
        .error (.message .chunkIndex) := by
  have hf : (blank 65535 2 (by decide)).firstNumber = 65535 := blank_firstNumber _ (by decide)
  apply wrapped_run (newCache_unseen _) rfl
  · rw [blank_parts]
    decide
  · rw [number_received, hf]
    rfl
  · rw [number_received, hf]
    rfl

end Neuropil.Message.ReceiverRuns
