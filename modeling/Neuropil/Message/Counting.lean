import Neuropil.Lib.Run
import Neuropil.Message.Receiver

namespace Neuropil.Message.Counting

open List Lib.Buffer Lib.Reassembly Lib.Run Message.Packet Message.Sender Message.Collect
  Message.Receiver

def Stored (msg : E2eMessage) (part : MessagePart) : Prop :=
  ∃ (msg_chunks : List (Option MessagePart)) (j : ℕ) (chunk : MessagePart),
    msg.msg_chunks = some msg_chunks ∧ msg_chunks[j]? = some (some chunk) ∧
    chunk.e2e_msg_part.mac_e.take 16 = part.e2e_msg_part.mac_e.take 16

/-- The chunk in the slot of the part, counted from the base of the message, has its mac. -/
def InSlot (msg : E2eMessage) (part : MessagePart) : Prop :=
  ∃ (msg_chunks : List (Option MessagePart)) (chunk : MessagePart),
    msg.msg_chunks = some msg_chunks ∧
    msg_chunks[numberOf part - leVal (msg.pointers.mac_e.take 2)]? = some (some chunk) ∧
    chunk.e2e_msg_part.mac_e.take 16 = part.e2e_msg_part.mac_e.take 16

section

variable (hash : Bytes → Dhkey) (m : BinaryMessage)

def chunkCounter (s : PartCache × List E2eMessage) : ℕ :=
  match s.1.msg_part_cache (messageKey hash m) with
  | some msg => msg.msg_chunk_counter
  | none => (s.2.getLast?.map E2eMessage.msg_chunk_counter).getD 0

/-- The counter is the number of chunks that have arrived, and the message is
passed on only after all of them have. -/
inductive Counted (before : List (Transmission m.parts)) :
    Except ReceiverFault (PartCache × List E2eMessage) → Prop
  | intro (context : PartCache) (reported : List E2eMessage)
      (hcount : chunkCounter hash m (context, reported) = distinct m before)
      (hall : reported ≠ [] → ∀ i < m.parts, i ∈ before.map (place m)) :
      Counted before (.ok (context, reported))

/-- If the arriving chunk is in the cache already, it is in its slot there. -/
def Settled (s : Except ReceiverFault (PartCache × List E2eMessage)) (t : Transmission m.parts) :
    Prop :=
  ∀ context reported msg, s = .ok (context, reported) →
    context.msg_part_cache (messageKey hash m) = some msg →
      Stored msg (received m t) → InSlot msg (received m t)

inductive Progress : List (Transmission m.parts) →
    Except ReceiverFault (PartCache × List E2eMessage) → Prop
  | idle {context : PartCache} (hunseen : Unseen context (messageKey hash m))
      (hcache : context.msg_part_cache (messageKey hash m) = none) :
      Progress [] (.ok (context, []))
  | collecting {before : List (Transmission m.parts)} {context : PartCache}
      {buf : Buffer (Transmission m.parts)} (hunseen : Unseen context (messageKey hash m))
      (hparts : 1 < m.parts)
      (hcache : context.msg_part_cache (messageKey hash m) = some (assembled m buf))
      (hc : Collects before buf) : Progress before (.ok (context, []))
  | complete {before : List (Transmission m.parts)} {context : PartCache}
      {buf : Buffer (Transmission m.parts)} (hdone : Done context (messageKey hash m))
      (hfull : buf.contents.length = m.parts)
      (hall : ∀ i < m.parts, i ∈ before.map (place m)) :
      Progress before (.ok (context, [assembled m buf]))

variable {hash m} {buf : Buffer (Transmission m.parts)} {before : List (Transmission m.parts)}
  {t : Transmission m.parts}

lemma slot_of_stored {j : ℕ} {chunk : MessagePart}
    (h : (buf.slots.map (Option.map (received m)))[j]? = some (some chunk)) :
    ∃ b, buf.slots[j]? = some (some b) ∧ chunk = received m b := by
  rw [getElem?_map, Option.map_eq_some_iff] at h
  obtain ⟨s, hs, hchk⟩ := h
  obtain ⟨b, rfl, rfl⟩ := Option.map_eq_some_iff.mp hchk
  exact ⟨b, hs, rfl⟩

lemma stored_iff (h : m.Unwrapped) :
    Stored (assembled m buf) (received m t) ↔ Held (place m) buf t := by
  constructor
  · rintro ⟨_, j, chunk, heq, hj, hmac⟩
    cases heq
    obtain ⟨b, hb, rfl⟩ := slot_of_stored hj
    have hplc : place m b = place m t := (received_mac_eq_iff m b h t).mp hmac
    rw [Held, ← hplc]
    exact mem_map_of_mem (mem_contents_iff.mpr ⟨j, hb⟩)
  · intro hh
    obtain ⟨b, hb, hplc⟩ := mem_map.mp hh
    obtain ⟨j, hj⟩ := mem_contents_iff.mp hb
    refine ⟨_, j, received m b, rfl, ?_, (received_mac_eq_iff m b h t).mpr hplc⟩
    rw [getElem?_map, hj]
    rfl

lemma inSlot_iff (h : m.Unwrapped) :
    InSlot (assembled m buf) (received m t) ↔ Placed (place m) buf t := by
  have hidx : numberOf (received m t) - leVal ((assembled m buf).pointers.mac_e.take 2) =
      place m t - place m buf.base := by
    have hbase := number_unwrapped m buf.base h
    change numberOf (received m t) - numberOf (received m buf.base) = _
    rw [number_unwrapped m t h, hbase, place, place]
    omega
  constructor
  · rintro ⟨_, chunk, heq, hj, hmac⟩
    cases heq
    rw [hidx] at hj
    obtain ⟨b, hb, rfl⟩ := slot_of_stored hj
    exact ⟨b, hb, (received_mac_eq_iff m b h t).mp hmac⟩
  · rintro ⟨b, hb, hplc⟩
    refine ⟨_, received m b, rfl, ?_, (received_mac_eq_iff m b h t).mpr hplc⟩
    rw [hidx, getElem?_map, hb]
    rfl

variable {s : Except ReceiverFault (PartCache × List E2eMessage)} {context : PartCache}

lemma counter_cached {msg : E2eMessage} (reported : List E2eMessage)
    (h : context.msg_part_cache (messageKey hash m) = some msg) :
    chunkCounter hash m (context, reported) = msg.msg_chunk_counter := by
  rw [chunkCounter, h]

lemma counter_reported (hdone : Done context (messageKey hash m))
    (msg : E2eMessage) : chunkCounter hash m (context, [msg]) = msg.msg_chunk_counter := by
  rw [chunkCounter, hdone.cache]
  rfl

lemma counter_more {buf' : Buffer (Transmission m.parts)} {ret : NpReturn}
    (h : Unseen context (messageKey hash m)) (hparts : 1 < m.parts)
    (hcache : context.msg_part_cache (messageKey hash m) = some (assembled m buf))
    (hadd : addChunk (assembled m buf) (received m t) =
      .ok ⟨ret, buf'.contents.length, assembled m buf'⟩) :
    ∃ s, arrive hash m (.ok (context, [])) t = .ok s ∧
      chunkCounter hash m s = buf'.contents.length := by
  obtain ha | ⟨_, context', ha, hdone⟩ := arrive_more h hparts hcache hadd []
  · exact ⟨_, ha, counter_cached _ (setCache_self _ _ _)⟩
  · exact ⟨_, ha, counter_reported hdone _⟩

lemma Progress.counted (hs : Progress hash m before s) : Counted hash m before s := by
  cases hs with
  | idle hunseen hcache =>
    refine .intro _ _ ?_ fun hne => absurd rfl hne
    rw [chunkCounter, hcache]
    rfl
  | collecting hunseen hparts hcache hc =>
    refine .intro _ _ ?_ fun hne => absurd rfl hne
    rw [counter_cached _ hcache]
    exact hc.length_eq
  | complete hdone hfull hall =>
    refine .intro _ _ ?_ fun _ => hall
    rw [counter_reported hdone, distinct_all hall]
    exact hfull

variable (h : m.Unwrapped) (hs : Progress hash m before s) (t : Transmission m.parts)
include h hs

lemma Progress.step (hok : Settled hash m s t) :
    Progress hash m (before ++ [t]) (arrive hash m s t) := by
  cases hs with
  | idle hunseen hcache =>
    obtain ⟨hparts, ha⟩ | ⟨hone, context', ha, hdone⟩ := arrive_new hunseen hcache [] t
    · rw [ha]
      exact .collecting (hunseen.setCache _) hparts (setCache_self _ _ _) (.first t)
    · have hfull : (start m.parts t).contents.length = m.parts := by
        rw [contents_start (by omega)]
        exact hone.symm
      rw [ha]
      exact .complete hdone hfull ((Collects.first t).all hfull)
  | collecting hunseen hparts hcache hc =>
    have hok' : Held (place m) _ t → Placed (place m) _ t := fun hh =>
      (inSlot_iff h).mp (hok _ _ _ rfl hcache ((stored_iff h).mpr hh))
    obtain ⟨ret, buf', hadd, hc'⟩ := hc.step h t hok'
    obtain ha | ⟨hcount, context', ha, hdone⟩ := arrive_more hunseen hparts hcache hadd []
    · rw [ha]
      exact .collecting (hunseen.setCache _) hparts (setCache_self _ _ _) hc'
    · rw [ha]
      exact .complete hdone hcount (hc'.all hcount)
  | complete hdone hfull hall =>
    rw [arrive_done hdone]
    exact .complete hdone hfull fun i hi => (mem_concat_iff t i).mpr (.inr (hall i hi))

lemma Progress.miscounts (hok : ¬ Settled hash m s t) :
    ¬ Counted hash m (before ++ [t]) (arrive hash m s t) := by
  simp only [Settled, not_forall] at hok
  obtain ⟨context, reported, msg, rfl, hcac, hstd, hslot⟩ := hok
  cases hs with
  | idle hunseen hcache =>
    rw [hcache] at hcac
    cases hcac
  | complete hdone hfull hall =>
    rw [hdone.cache] at hcac
    cases hcac
  | collecting hunseen hparts hcache hc =>
    obtain rfl := Option.some.inj (hcache.symm.trans hcac)
    have hmem := (hc.mem _).mp ((stored_iff h).mp hstd)
    obtain ⟨ret, buf', hadd, hlen⟩ := hc.stored_again h t (mt (inSlot_iff h).mpr hslot)
    rw [← distinct_again hmem] at hlen
    obtain ⟨s, ha, hctr⟩ := counter_more hunseen hparts hcache hadd
    rw [ha]
    intro hcnt
    cases hcnt with
    | intro _ _ hcount _ => omega

end

/-- The receiver counts right along a whole history exactly if no packet finds its chunk in a slot
not its own. -/
theorem counted_iff (hash : Bytes → Dhkey) (m : BinaryMessage) (h : m.Unwrapped)
    (context : PartCache) (hunseen : Unseen context (messageKey hash m))
    (hcache : context.msg_part_cache (messageKey hash m) = none)
    (arrivals : List (Transmission m.parts)) :
    (∀ before, before <+: arrivals →
      Counted hash m before (run (arrive hash m) (.ok (context, [])) before)) ↔
        Admitted (arrive hash m) (.ok (context, [])) (Settled hash m) arrivals :=
  good_iff_admitted (Progress hash m) (.idle hunseen hcache) (fun _ _ t hs hok => hs.step h t hok)
    (fun _ _ hs => hs.counted) (fun _ _ t hs hok => hs.miscounts h t hok) arrivals

def four : BinaryMessage := blank 0 4 (by decide)

def fourPacket (i : ℕ) (hi : i < 4) : Transmission four.parts := blankPacket (by decide) i hi

lemma four_unwrapped : four.Unwrapped := by
  rw [four, BinaryMessage.Unwrapped, blank_parts, blank_firstNumber _ (by decide)]
  decide

theorem counted_two :
    Counted (fun _ => Dhkey.zero) four [fourPacket 1 (by decide), fourPacket 3 (by decide)]
      (run (arrive (fun _ => Dhkey.zero) four) (.ok (newCache, []))
        [fourPacket 1 (by decide), fourPacket 3 (by decide)]) := by
  apply (counted_iff _ _ four_unwrapped newCache (newCache_unseen _) rfl _).mpr _ _ (prefix_refl _)
  have hp : four.parts = 4 := blank_parts _
  have hst : start four.parts (fourPacket 1 (by decide)) = start 4 (fourPacket 1 (by decide)) :=
    congrArg (fun n => start n (fourPacket 1 (by decide))) hp
  rw [admitted_cons_iff, admitted_cons_iff, arrive_first (newCache_unseen _) rfl (by omega), hst]
  refine ⟨?_, ?_, fun before a hb => by simp at hb⟩
  · rintro context reported msg hrun hcache
    cases hrun
    cases hcache
  · rintro context reported msg hrun hcache hstored
    cases hrun
    rw [setCache_self] at hcache
    cases hcache
    have hheld : 3 ∈ [1] := (stored_iff four_unwrapped).mp hstored
    exact absurd hheld (by decide)

lemma stale_slot {α : Type} (num : α → ℕ) {a b c : α} (ha : num a = 0) (hb : num b = 1)
    (hc : num c = 3) (fuel : ℕ) :
    store num (fuel + 2) (start 4 b) c = some ⟨b, [some b, none, some c, none]⟩ ∧
      store num (fuel + 2) ⟨b, [some b, none, some c, none]⟩ a =
        some ⟨a, [some a, some b, some c, none]⟩ ∧
      store num (fuel + 2) ⟨a, [some a, some b, some c, none]⟩ c =
        some ⟨a, [some a, some b, some c, some c]⟩ := by
  simp [store, start, ha, hb, hc]

section

variable (hash : Bytes → Dhkey) {m : BinaryMessage} (a b c : Transmission m.parts)

lemma stale_run (h : m.Unwrapped) (hp : m.parts = 4) (ha : place m a = 0) (hb : place m b = 1)
    (hc : place m c = 3) :
    ∃ context msg,
      run (arrive hash m) (.ok (newCache, [])) [b, c, a, c] = .ok (context, [msg]) := by
  have hparts : 1 < m.parts := by omega
  have hunseen := newCache_unseen (messageKey hash m)
  have hord : Ordered (place m) m.parts (start m.parts b) := start_ordered b.index.isLt
  have hst : start m.parts b = start 4 b := congrArg (fun n => start n b) hp
  obtain ⟨hsto, hs', hs''⟩ := stale_slot (place m) ha hb hc (2 ^ 16 - 1)
  rw [← hst] at hsto
  have hord' := ordered_of_store hord hsto
  obtain ⟨_, hadd⟩ := add_of_store h hord hsto
  obtain ⟨_, hadd'⟩ := add_of_store h hord' hs'
  obtain ⟨_, hadd''⟩ := add_of_store h (ordered_of_store hord' hs') hs''
  have htwo : (⟨b, [some b, none, some c, none]⟩ : Buffer (Transmission m.parts)).contents.length ≠
      m.parts := fun hlen => absurd (hlen.trans hp) (by decide : ¬ 2 = 4)
  have hthree : (⟨a, [some a, some b, some c, none]⟩ :
      Buffer (Transmission m.parts)).contents.length ≠ m.parts :=
    fun hlen => absurd (hlen.trans hp) (by decide : ¬ 3 = 4)
  obtain ⟨context, hlast, _⟩ := arrive_last (((hunseen.setCache _).setCache _).setCache _) hparts
    (setCache_self _ _ _) hadd'' hp.symm
  refine ⟨context, assembled m ⟨a, [some a, some b, some c, some c]⟩, ?_⟩
  change arrive hash m (arrive hash m (arrive hash m (arrive hash m _ b) c) a) c = _
  rw [arrive_first hunseen rfl hparts,
    arrive_cached (hunseen.setCache _) hparts (setCache_self _ _ _) hadd htwo,
    arrive_cached ((hunseen.setCache _).setCache _) hparts (setCache_self _ _ _) hadd' hthree]
  exact hlast

end

/-- Chunk 2 never arrives, but chunk 3 is counted again and the message passed on. -/
theorem repeated_chunk_counted_twice :
    ¬ Counted (fun _ => Dhkey.zero) four
      [fourPacket 1 (by decide), fourPacket 3 (by decide), fourPacket 0 (by decide),
        fourPacket 3 (by decide)]
      (run (arrive (fun _ => Dhkey.zero) four) (.ok (newCache, []))
        [fourPacket 1 (by decide), fourPacket 3 (by decide), fourPacket 0 (by decide),
          fourPacket 3 (by decide)]) := by
  have hp : four.parts = 4 := blank_parts _
  obtain ⟨context, msg, hrun⟩ := stale_run (fun _ => Dhkey.zero) (fourPacket 0 (by decide))
    (fourPacket 1 (by decide)) (fourPacket 3 (by decide)) four_unwrapped hp rfl rfl rfl
  rw [hrun]
  intro hcnt
  cases hcnt with
  | intro _ _ _ hall =>
    have hmem : 2 ∈ [1, 3, 0, 3] := hall (cons_ne_nil _ _) 2 (by omega)
    exact absurd hmem (by decide)

end Neuropil.Message.Counting
