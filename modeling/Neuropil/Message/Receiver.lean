import Neuropil.Bloom.Decaying
import Neuropil.Message.Collect

namespace Neuropil.Message.Receiver

open Bloom Lib.Buffer Lib.Fault Lib.Reassembly Message.Create Message.Packet Message.Sender
  Message.Collect

inductive ReceiverFault
  | message (fault : Fault)
  | filter (fault : Filter.FilterFault)
deriving DecidableEq, Repr

/-- The messages that a node waits for parts of, and a filter for those it has passed on. -/
structure PartCache where
  msg_part_filter : Decaying.DecayingBloom
  msg_part_cache : Dhkey → Option E2eMessage

def newCache : PartCache := ⟨Decaying.create 8192 16 1, fun _ => none⟩

def generateSubject (hash : Bytes → Dhkey) (subject_id : Dhkey) (subject : Bytes) : Dhkey :=
  Dhkey.xor (hash subject) subject_id

/-- The key of a message. The two bytes that differ between its parts are left
out. -/
def checkDhkey (hash : Bytes → Dhkey) (pointers : Pointers) : Dhkey :=
  generateSubject hash (generateSubject hash Dhkey.zero pointers.uuid) (slice pointers.mac_e 2 14)

variable (hash : Bytes → Dhkey)

section

variable (context : PartCache)

def addToFilter (key : Dhkey) : Except ReceiverFault PartCache := do
  let msg_part_filter ← (Decaying.add context.msg_part_filter key).mapError .filter
  return { context with msg_part_filter := msg_part_filter }

def setCache (key : Dhkey) (msg : Option E2eMessage) : PartCache :=
  { context with msg_part_cache := Function.update context.msg_part_cache key msg }

lemma setCache_self (key : Dhkey) (msg : Option E2eMessage) :
    (setCache context key msg).msg_part_cache key = msg :=
  Function.update_self _ _ _

def addPart (key : Dhkey) (part : MessagePart) :
    Except ReceiverFault (Option E2eMessage × PartCache) :=
  if leVal part.e2e_msg_part.parts > 1 then
    match context.msg_part_cache key with
    | some msg_in_cache => do
      let added ← (addChunk msg_in_cache part).mapError .message
      if added.count_of_chunks ≠ leVal added.msg.pointers.parts then
        return (none, setCache context key (some added.msg))
      else
        let context ← addToFilter context key
        return (some added.msg, setCache context key none)
    | none => do
      let added ← (addChunk newMessage part).mapError .message
      return (none, setCache context key (some added.msg))
  else do
    let added ← (addChunk newMessage part).mapError .message
    let context ← addToFilter context key
    return (some added.msg, context)

def checkMsgpartCache (part : MessagePart) :
    Except ReceiverFault (Option E2eMessage × PartCache) := do
  let key := checkDhkey hash part.e2e_msg_part.toPointers
  let seen_before ← (Decaying.check context.msg_part_filter key).mapError .filter
  if seen_before then return (none, context) else addPart context key part

end

/-- One packet of a message arrives. The messages passed on so far are kept next to the cache. -/
def arrive (m : BinaryMessage) (s : Except ReceiverFault (PartCache × List E2eMessage))
    (t : Transmission m.parts) : Except ReceiverFault (PartCache × List E2eMessage) := do
  let (context, reported) ← s
  let buffer ← (send m t).mapError .message
  let (ret, context) ← checkMsgpartCache hash context
    (deserializeHeaderAndInstructions buffer newPart)
  return (context, reported ++ ret.toList)

def messageKey (m : BinaryMessage) : Dhkey := checkDhkey hash (setHeaderPointer m.binary)

lemma checkDhkey_received (m : BinaryMessage) (t : Transmission m.parts) :
    checkDhkey hash (received m t).e2e_msg_part.toPointers = messageKey hash m := by
  have hu : (received m t).e2e_msg_part.uuid = uuid.read m.binary := by rw [received_eq]; rfl
  have hmac : slice (received m t).e2e_msg_part.mac_e 2 14 = slice (mac_e.read m.binary) 2 14 := by
    rw [slice, received_mac, drop_sodiumAdd]
    rfl
  rw [checkDhkey, hmac, hu]
  rfl

/-- The node has not heard of the message, and has room in its filter to
remember it. -/
structure Unseen (context : PartCache) (key : Dhkey) : Prop where
  check : Decaying.check context.msg_part_filter key = .ok false
  allocated : Decaying.Allocated context.msg_part_filter
  room : 0 < context.msg_part_filter.free_items

structure Done (context : PartCache) (key : Dhkey) : Prop where
  check : Decaying.check context.msg_part_filter key = .ok true
  cache : context.msg_part_cache key = none

lemma newCache_unseen (key : Dhkey) : Unseen newCache key :=
  ⟨Decaying.check_create (by decide) (by decide) 1 key,
    Decaying.create_allocated (by decide) (by decide) 1, by decide⟩

variable {hash} {m : BinaryMessage} {context : PartCache} {reported : List E2eMessage}
  {t : Transmission m.parts}

lemma Unseen.setCache {key : Dhkey} (h : Unseen context key) (msg : Option E2eMessage) :
    Unseen (setCache context key msg) key :=
  ⟨h.check, h.allocated, h.room⟩

lemma Unseen.addToFilter {key : Dhkey} (h : Unseen context key) :
    ∃ context', addToFilter context key = .ok context' ∧
      Decaying.check context'.msg_part_filter key = .ok true ∧
        context'.msg_part_cache = context.msg_part_cache := by
  obtain ⟨bloom, hadd, hchk⟩ := Decaying.check_add h.allocated h.room key
  refine ⟨{ context with msg_part_filter := bloom }, ?_, hchk, rfl⟩
  rw [Receiver.addToFilter, hadd]
  rfl

lemma parts_received : leVal (received m t).e2e_msg_part.parts = m.parts := by
  rw [received_eq]
  rfl

lemma arrive_ok : arrive hash m (.ok (context, reported)) t = do
    let (ret, context) ← checkMsgpartCache hash context (received m t)
    return (context, reported ++ ret.toList) := by
  rw [arrive, ok_bind, send_eq]
  rfl

lemma arrive_done (h : Done context (messageKey hash m)) :
    arrive hash m (.ok (context, reported)) t = .ok (context, reported) := by
  rw [arrive_ok, checkMsgpartCache, checkDhkey_received, h.check]
  exact congrArg Except.ok (congrArg (Prod.mk context) (List.append_nil reported))

variable (h : Unseen context (messageKey hash m))
include h

lemma arrive_unseen : arrive hash m (.ok (context, reported)) t = do
      let (ret, context) ← addPart context (messageKey hash m) (received m t)
      return (context, reported ++ ret.toList) := by
  rw [arrive_ok, checkMsgpartCache, checkDhkey_received, h.check]
  simp only [Except.mapError, ok_bind, Bool.false_eq_true, ↓reduceIte]

section

variable (hcache : context.msg_part_cache (messageKey hash m) = none)
include hcache

lemma arrive_single (hparts : m.parts = 1) :
    ∃ context', arrive hash m (.ok (context, reported)) t =
      .ok (context', reported ++ [assembled m (start m.parts t)]) ∧
        Done context' (messageKey hash m) := by
  obtain ⟨context', hadd, hchk, hsame⟩ := h.addToFilter
  refine ⟨context', ?_, hchk, by rw [hsame, hcache]⟩
  have hfst : addChunk newMessage (received m t) = _ := addChunk_first m (2 ^ 16) t
  rw [arrive_unseen h, addPart, if_neg (by rw [parts_received]; omega), hfst]
  simp only [Except.mapError, ok_bind, hadd]
  rfl

lemma arrive_first (hparts : 1 < m.parts) : arrive hash m (.ok (context, reported)) t = .ok
      (setCache context (messageKey hash m) (some (assembled m (start m.parts t))), reported) := by
  have hfst : addChunk newMessage (received m t) = _ := addChunk_first m (2 ^ 16) t
  rw [arrive_unseen h, addPart, if_pos (by rwa [parts_received]), hcache]
  dsimp only
  rw [hfst]
  exact congrArg Except.ok (congrArg (Prod.mk _) (List.append_nil reported))

lemma arrive_new (reported : List E2eMessage) (t : Transmission m.parts) :
    (1 < m.parts ∧ arrive hash m (.ok (context, reported)) t = .ok
      (setCache context (messageKey hash m) (some (assembled m (start m.parts t))), reported)) ∨
    (m.parts = 1 ∧ ∃ context', arrive hash m (.ok (context, reported)) t =
      .ok (context', reported ++ [assembled m (start m.parts t)]) ∧
        Done context' (messageKey hash m)) := by
  have hpos := t.index.isLt
  by_cases hone : m.parts = 1
  · exact .inr ⟨hone, arrive_single h hcache hone⟩
  · have hparts : 1 < m.parts := by omega
    exact .inl ⟨hparts, arrive_first h hcache hparts⟩

end

variable {buf buf' : Buffer (Transmission m.parts)} {ret : NpReturn} (hparts : 1 < m.parts)
  (hcache : context.msg_part_cache (messageKey hash m) = some (assembled m buf))
  (hadd : addChunk (assembled m buf) (received m t) =
    .ok ⟨ret, buf'.contents.length, assembled m buf'⟩)
include hparts hcache hadd

lemma arrive_cached (hcount : buf'.contents.length ≠ m.parts) :
    arrive hash m (.ok (context, reported)) t =
      .ok (setCache context (messageKey hash m) (some (assembled m buf')), reported) := by
  have hp : leVal (assembled m buf').pointers.parts = m.parts := parts_received
  rw [arrive_unseen h, addPart, if_pos (by rwa [parts_received]), hcache]
  dsimp only
  rw [hadd]
  simp only [Except.mapError, ok_bind, hp, hcount, ne_eq, not_false_eq_true, ↓reduceIte]
  exact congrArg Except.ok (congrArg (Prod.mk _) (List.append_nil reported))

lemma arrive_last (hcount : buf'.contents.length = m.parts) :
    ∃ context', arrive hash m (.ok (context, reported)) t =
      .ok (context', reported ++ [assembled m buf']) ∧ Done context' (messageKey hash m) := by
  have hp : leVal (assembled m buf').pointers.parts = m.parts := parts_received
  obtain ⟨context', hfil, hchk, hsame⟩ := h.addToFilter
  refine ⟨setCache context' (messageKey hash m) none, ?_, hchk, setCache_self _ _ _⟩
  rw [arrive_unseen h, addPart, if_pos (by rwa [parts_received]), hcache]
  dsimp only
  rw [hadd]
  simp only [Except.mapError, ok_bind, hp, hcount, ne_eq, not_true_eq_false, ↓reduceIte, hfil]
  rfl

lemma arrive_more (reported : List E2eMessage) :
    arrive hash m (.ok (context, reported)) t = .ok
      (setCache context (messageKey hash m) (some (assembled m buf')), reported) ∨
    (buf'.contents.length = m.parts ∧ ∃ context', arrive hash m (.ok (context, reported)) t =
      .ok (context', reported ++ [assembled m buf']) ∧ Done context' (messageKey hash m)) := by
  by_cases hcount : buf'.contents.length = m.parts
  · exact .inr ⟨hcount, arrive_last h hparts hcache hadd hcount⟩
  · exact .inl (arrive_cached h hparts hcache hadd hcount)

end Neuropil.Message.Receiver
