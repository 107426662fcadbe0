import Mathlib.Data.List.TakeWhile
import Neuropil.Property.Overflow
import Neuropil.Property.Uniqueness

namespace Neuropil.Property.UserProperties

open Lib Lib.Buffer Lib.Fault
open Key.Conditions (ackNone ackDestination flagCmp)
open Property.Cache (policyFifo)
open Property.Overflow (Order Excess cachePolicy overflowReject)
open Property.Uniqueness (AudienceType)

abbrev Id := Vector UInt8 32

def zeroId : Id := Vector.replicate 32 0

inductive Role
  | provider
  | consumer
  | prosumer
deriving DecidableEq

inductive Ackmode
  | ackNone
  | ackDestination
  | ackClient
deriving DecidableEq

inductive CachePolicy
  | fifoReject
  | fifoPurge
  | lifoReject
  | lifoPurge
deriving DecidableEq

/-- `np_mx_properties`; the times are the bits of doubles. -/
structure MxProperties where
  role : Role
  ackmode : Ackmode
  reply_id : Id
  audience_type : AudienceType
  audience_id : Id
  cache_policy : CachePolicy
  cache_size : UInt16
  max_parallel : UInt8
  max_retry : UInt8
  intent_ttl : UInt64
  intent_update_after : UInt64
  message_ttl : UInt64

/-- `np_msgproperty_conf_s`, as far as a user can set or see it. -/
structure MsgpropertyConf where
  rep_subject : Option Bytes
  mode_type : UInt32
  mep_type : UInt32
  ack_mode : UInt32
  msg_ttl : UInt64
  retry : UInt8
  token_max_ttl : UInt32
  token_min_ttl : UInt32
  cache_policy : UInt32
  cache_size : UInt16
  max_threshold : UInt32
  audience_type : AudienceType
  audience_id : Id
  reply_dhkey : Id
deriving DecidableEq

def inbound : UInt32 := 0x01
def outbound : UInt32 := 0x02
def defaultMode : UInt32 := 0x03

def ackClient : UInt32 := 0x04

def anyToAny : UInt32 := 0x044

def defaultMinTtl : UInt32 := 3

inductive Fault
  | outOfRange
deriving DecidableEq

def audienceCode : AudienceType → ℕ
  | .audPublic => 0
  | .audVirtual => 1
  | .audProtected => 2
  | .audPrivate => 3

/-- The bytes of the packed structure from the reply id on. A string ends there, since the
audience type has zeros behind its first byte. -/
def replyMemory (src : MxProperties) : Bytes :=
  src.reply_id.toList ++ leBytes 4 (audienceCode src.audience_type)

def cString (memory : Bytes) : Bytes := memory.takeWhile fun b => b != 0

def strndup (memory : Bytes) (n : ℕ) : Bytes := (cString memory).take n

def strncmpEqual (a b : Bytes) (n : ℕ) : Bool := (cString a).take n == (cString b).take n

def modeType : Role → UInt32
  | .consumer => inbound
  | .provider => outbound
  | .prosumer => defaultMode

/-- A time that is above zero is taken over in whole seconds. -/
def takeSeconds (old : UInt32) (ttl : UInt64) : Except Fault UInt32 :=
  if Binary64.lt 0 ttl then
    match Binary64.toUInt32 ttl with
    | some seconds => .ok seconds
    | none => .error .outOfRange
  else .ok old

/-- A reply id that is the same as before is dropped, as an empty one is. -/
def replySubject (rep_subject : Option Bytes) (src : MxProperties) : Option Bytes :=
  if src.reply_id[0] ≠ 0 ∧
      (rep_subject.all fun subject => !strncmpEqual subject (replyMemory src) 255) then
    some (strndup (replyMemory src) 255)
  else none

def ackMode : Ackmode → UInt32
  | .ackDestination => ackDestination
  | .ackClient => ackClient
  | .ackNone => ackNone

def policyOf : CachePolicy → UInt32
  | .fifoReject => cachePolicy .fifo .reject
  | .fifoPurge => cachePolicy .fifo .purge
  | .lifoReject => cachePolicy .lifo .reject
  | .lifoPurge => cachePolicy .lifo .purge

def merge (dest : MsgpropertyConf) (src : MxProperties) (token_max_ttl token_min_ttl : UInt32) :
    MsgpropertyConf where
  rep_subject := replySubject dest.rep_subject src
  mode_type := modeType src.role
  mep_type := anyToAny
  ack_mode := ackMode src.ackmode
  msg_ttl := if Binary64.lt 0 src.message_ttl then src.message_ttl else dest.msg_ttl
  retry := if src.max_retry > 0 then src.max_retry else dest.retry
  token_max_ttl := token_max_ttl
  token_min_ttl := token_min_ttl
  cache_policy := policyOf src.cache_policy
  cache_size := if src.cache_size > 0 then src.cache_size else dest.cache_size
  max_threshold := if src.max_parallel > 0 then src.max_parallel.toUInt32 else dest.max_threshold
  audience_type := src.audience_type
  audience_id := src.audience_id
  reply_dhkey := dest.reply_dhkey

def msgpropertyFromUser (dest : MsgpropertyConf) (src : MxProperties) :
    Except Fault MsgpropertyConf := do
  let token_max_ttl ← takeSeconds dest.token_max_ttl src.intent_ttl
  let token_min_ttl ← takeSeconds defaultMinTtl src.intent_update_after
  return merge dest src token_max_ttl token_min_ttl

def userRole (dest : Role) (mode_type : UInt32) : Role :=
  if flagCmp mode_type defaultMode then .prosumer
  else if flagCmp mode_type outbound then .provider
  else if flagCmp mode_type inbound then .consumer
  else dest

def userAckmode (ack_mode : UInt32) : Ackmode :=
  if ack_mode = ackDestination then .ackDestination
  else if ack_mode = ackClient then .ackClient
  else .ackNone

def userPolicy (cache_policy : UInt32) : CachePolicy :=
  if flagCmp cache_policy policyFifo then
    if flagCmp cache_policy overflowReject then .fifoReject else .fifoPurge
  else if flagCmp cache_policy overflowReject then .lifoReject
  else .lifoPurge

/-- `np_msgproperty4user`; the audience in the structure of the user is not written. -/
def msgproperty4user (dest : MxProperties) (src : MsgpropertyConf) : MxProperties where
  role := userRole dest.role src.mode_type
  ackmode := userAckmode src.ack_mode
  reply_id := if src.rep_subject.isSome then src.reply_dhkey else zeroId
  audience_type := dest.audience_type
  audience_id := dest.audience_id
  cache_policy := userPolicy src.cache_policy
  cache_size := src.cache_size
  max_parallel := src.max_threshold.toUInt8
  max_retry := src.retry
  intent_ttl := Binary64.ofNat src.token_max_ttl.toNat
  intent_update_after := Binary64.ofNat src.token_min_ttl.toNat
  message_ttl := src.msg_ttl

/-- Every field of `src` that is set is found again. -/
structure Returns (src got : MxProperties) : Prop where
  role : src.role ≠ .provider → got.role = src.role
  ackmode : src.ackmode ≠ .ackNone → got.ackmode = src.ackmode
  reply_id : src.reply_id ≠ zeroId → got.reply_id = src.reply_id
  audience_type : src.audience_type ≠ .audPublic → got.audience_type = src.audience_type
  audience_id : src.audience_id ≠ zeroId → got.audience_id = src.audience_id
  cache_policy : src.cache_policy ≠ .fifoReject → got.cache_policy = src.cache_policy
  cache_size : src.cache_size ≠ 0 → got.cache_size = src.cache_size
  max_parallel : src.max_parallel ≠ 0 → got.max_parallel = src.max_parallel
  max_retry : src.max_retry ≠ 0 → got.max_retry = src.max_retry
  intent_ttl : Binary64.magnitude src.intent_ttl ≠ 0 → got.intent_ttl = src.intent_ttl
  intent_update_after : Binary64.magnitude src.intent_update_after ≠ 0 →
    got.intent_update_after = src.intent_update_after
  message_ttl : Binary64.magnitude src.message_ttl ≠ 0 → got.message_ttl = src.message_ttl

/-- A second call changes nothing, and the user finds again what was set. -/
def Settled (src : MxProperties) (dest : MsgpropertyConf) : Prop :=
  ∃ once, msgpropertyFromUser dest src = .ok once ∧ msgpropertyFromUser once src = .ok once ∧
    ∀ user, Returns src (msgproperty4user user once)

/-- No time, or a number of whole seconds. -/
def WholeSeconds (ttl : UInt64) : Prop :=
  Binary64.magnitude ttl = 0 ∨ ∃ n < 2 ^ 32, ttl = Binary64.ofNat n

/-- Neither a reply id nor an audience is set, intents live for whole seconds, and messages
do not live for a negative time. -/
structure Plain (src : MxProperties) (dest : MsgpropertyConf) : Prop where
  reply_id : src.reply_id = zeroId
  audience_type : src.audience_type = .audPublic
  audience_id : src.audience_id = zeroId
  intent_ttl : WholeSeconds src.intent_ttl
  intent_update_after : WholeSeconds src.intent_update_after
  message_ttl : Binary64.magnitude src.message_ttl = 0 ∨ Binary64.lt 0 src.message_ttl = true ∨
    dest.msg_ttl = src.message_ttl

section

variable {src : MxProperties}

lemma cString_strndup (memory : Bytes) (n : ℕ) :
    cString (strndup memory n) = strndup memory n := by
  apply List.takeWhile_eq_self_iff.2
  intro b hb
  have hmem : b ∈ memory.takeWhile fun b => b != 0 := List.mem_of_mem_take hb
  have hnon := List.mem_takeWhile_imp hmem
  exact hnon

lemma strncmpEqual_strndup (memory : Bytes) (n : ℕ) :
    strncmpEqual (strndup memory n) memory n = true := by
  rw [strncmpEqual, cString_strndup, strndup, List.take_take, Nat.min_self]
  exact beq_self_eq_true _

lemma replySubject_none (h : src.reply_id[0] ≠ 0) :
    replySubject none src = some (strndup (replyMemory src) 255) :=
  if_pos ⟨h, rfl⟩

lemma replySubject_again : replySubject (some (strndup (replyMemory src) 255)) src = none := by
  apply if_neg
  intro h
  have hd := h.2
  rw [Option.all_some, strncmpEqual_strndup] at hd
  cases hd

lemma replySubject_empty (h : src.reply_id[0] = 0) (rep_subject : Option Bytes) :
    replySubject rep_subject src = none :=
  if_neg fun hset => hset.1 h

lemma replySubject_cases (rep_subject : Option Bytes) (src : MxProperties) :
    replySubject rep_subject src = some (strndup (replyMemory src) 255) ∨
      replySubject rep_subject src = none := by
  rw [replySubject]
  split_ifs
  · exact .inl rfl
  · exact .inr rfl

lemma replySubject_toggles (h : src.reply_id[0] ≠ 0) (rep_subject : Option Bytes) :
    replySubject (replySubject rep_subject src) src ≠ replySubject rep_subject src := by
  obtain hset | hnone := replySubject_cases rep_subject src
  · rw [hset, replySubject_again]
    exact (Option.some_ne_none _).symm
  · rw [hnone, replySubject_none h]
    exact Option.some_ne_none _

variable {ttl : UInt64} {old seconds : UInt32}

lemma not_lt_of_magnitude (h : Binary64.magnitude ttl = 0) : Binary64.lt 0 ttl = false := by
  rw [Bool.eq_false_iff]
  intro hlt
  have hscale := (Binary64.lt_iff.1 hlt).2.2
  have hzero : Binary64.scale 0 = 0 := rfl
  rw [hzero, Binary64.scale, h] at hscale
  split_ifs at hscale <;> omega

lemma takeSeconds_whole (h : WholeSeconds ttl) (old : UInt32) :
    ∃ seconds, takeSeconds old ttl = .ok seconds ∧ takeSeconds seconds ttl = .ok seconds ∧
      (Binary64.magnitude ttl ≠ 0 → Binary64.ofNat seconds.toNat = ttl) := by
  by_cases hzero : Binary64.magnitude ttl = 0
  · have hlt := not_lt_of_magnitude hzero
    exact ⟨old, by rw [takeSeconds, hlt]; rfl, by rw [takeSeconds, hlt]; rfl,
      fun hne => absurd hzero hne⟩
  · obtain hmag | ⟨n, hn, rfl⟩ := h
    · exact absurd hmag hzero
    · have hpos : 0 < n := by
        apply Nat.pos_of_ne_zero
        rintro rfl
        rw [Binary64.ofNat_zero] at hzero
        exact hzero rfl
      have htake : ∀ old, takeSeconds old (Binary64.ofNat n) = .ok (UInt32.ofNat n) := by
        intro old
        rw [takeSeconds, Binary64.zero_lt_ofNat hpos (by omega), Binary64.toUInt32_ofNat hn]
        rfl
      refine ⟨UInt32.ofNat n, htake old, htake _, fun _ => ?_⟩
      rw [UInt32.toNat_ofNat_of_lt' hn]

lemma whole_of_returned
    (h : Binary64.magnitude ttl ≠ 0 → Binary64.ofNat seconds.toNat = ttl) : WholeSeconds ttl := by
  by_cases hzero : Binary64.magnitude ttl = 0
  · exact .inl hzero
  · exact .inr ⟨seconds.toNat, seconds.toNat_lt, (h hzero).symm⟩

variable {dest once : MsgpropertyConf}

lemma msgpropertyFromUser_eq_ok : msgpropertyFromUser dest src = .ok once ↔
      ∃ token_max_ttl token_min_ttl,
        takeSeconds dest.token_max_ttl src.intent_ttl = .ok token_max_ttl ∧
        takeSeconds defaultMinTtl src.intent_update_after = .ok token_min_ttl ∧
        merge dest src token_max_ttl token_min_ttl = once := by
  constructor
  · intro h
    obtain ⟨token_max_ttl, hmax, h⟩ := bind_eq_ok h
    obtain ⟨token_min_ttl, hmin, h⟩ := bind_eq_ok h
    exact ⟨token_max_ttl, token_min_ttl, hmax, hmin, Except.ok.inj h⟩
  · rintro ⟨token_max_ttl, token_min_ttl, hmax, hmin, rfl⟩
    rw [msgpropertyFromUser, hmax, ok_bind, hmin, ok_bind]
    rfl

lemma merge_merge (h : src.reply_id[0] = 0) (token_max_ttl token_min_ttl : UInt32) :
    merge (merge dest src token_max_ttl token_min_ttl) src token_max_ttl token_min_ttl =
      merge dest src token_max_ttl token_min_ttl := by
  simp only [merge, replySubject_empty h, MsgpropertyConf.mk.injEq, true_and, and_true]
  refine ⟨?_, ?_, ?_, ?_⟩ <;> split_ifs <;> rfl

lemma returns_merge (h : Plain src dest) {token_max_ttl token_min_ttl : UInt32}
    (hmax : Binary64.magnitude src.intent_ttl ≠ 0 →
      Binary64.ofNat token_max_ttl.toNat = src.intent_ttl)
    (hmin : Binary64.magnitude src.intent_update_after ≠ 0 →
      Binary64.ofNat token_min_ttl.toNat = src.intent_update_after) (user : MxProperties) :
    Returns src (msgproperty4user user (merge dest src token_max_ttl token_min_ttl)) where
  role := by
    intro _
    change userRole _ (modeType src.role) = src.role
    cases src.role <;> rfl
  ackmode := by
    intro _
    change userAckmode (ackMode src.ackmode) = src.ackmode
    cases src.ackmode <;> rfl
  reply_id hset := absurd h.reply_id hset
  audience_type hset := absurd h.audience_type hset
  audience_id hset := absurd h.audience_id hset
  cache_policy := by
    intro _
    change userPolicy (policyOf src.cache_policy) = src.cache_policy
    cases src.cache_policy <;> rfl
  cache_size hset := if_pos (UInt16.pos_iff_ne_zero.2 hset)
  max_parallel := by
    intro hset
    change (if src.max_parallel > 0 then src.max_parallel.toUInt32 else _).toUInt8 = _
    rw [if_pos (UInt8.pos_iff_ne_zero.2 hset)]
    exact UInt8.toUInt8_toUInt32 _
  max_retry hset := if_pos (UInt8.pos_iff_ne_zero.2 hset)
  intent_ttl := hmax
  intent_update_after := hmin
  message_ttl := by
    intro hset
    change (if Binary64.lt 0 src.message_ttl then src.message_ttl else dest.msg_ttl) = _
    split_ifs with hlt
    · rfl
    · obtain hzero | hpos | hsame := h.message_ttl
      · exact absurd hzero hset
      · exact absurd hpos hlt
      · exact hsame

end

lemma reply_id_zero (src : MxProperties) (h : src.reply_id = zeroId) : src.reply_id[0] = 0 := by
  rw [h]
  rfl

def emptyUser : MxProperties :=
  ⟨.provider, .ackNone, zeroId, .audPublic, zeroId, .fifoReject, 0, 0, 0, 0, 0, 0⟩

/-- The user finds again what was set, and setting it twice is setting it once, exactly if
nothing is set that the property drops or cannot hold. -/
theorem user_properties_settled_iff (src : MxProperties) (dest : MsgpropertyConf) :
    Settled src dest ↔ Plain src dest := by
  constructor
  · rintro ⟨once, ho, htwice, hret⟩
    obtain ⟨token_max_ttl, token_min_ttl, -, -, rfl⟩ := msgpropertyFromUser_eq_ok.1 ho
    obtain ⟨_, _, -, -, hmrg⟩ := msgpropertyFromUser_eq_ok.1 htwice
    have hgot := hret emptyUser
    have hfst : src.reply_id[0] = 0 := by
      by_contra hset
      exact replySubject_toggles hset dest.rep_subject (congrArg MsgpropertyConf.rep_subject hmrg)
    have hreply : (msgproperty4user emptyUser
        (merge dest src token_max_ttl token_min_ttl)).reply_id = zeroId := by
      rw [msgproperty4user, merge, replySubject_empty hfst]
      rfl
    refine ⟨?_, ?_, ?_, whole_of_returned hgot.intent_ttl,
      whole_of_returned hgot.intent_update_after, ?_⟩
    · by_contra hset
      exact hset ((hgot.reply_id hset).symm.trans hreply)
    · by_contra hset
      exact hset (hgot.audience_type hset).symm
    · by_contra hset
      exact hset (hgot.audience_id hset).symm
    · by_cases hlt : Binary64.lt 0 src.message_ttl = true
      · exact .inr (.inl hlt)
      · by_cases hzero : Binary64.magnitude src.message_ttl = 0
        · exact .inl hzero
        · exact .inr (.inr ((if_neg hlt).symm.trans (hgot.message_ttl hzero)))
  · intro h
    have hfst := reply_id_zero src h.reply_id
    obtain ⟨token_max_ttl, hmax, hmax', hb⟩ :=
      takeSeconds_whole h.intent_ttl dest.token_max_ttl
    obtain ⟨token_min_ttl, hmin, -, hb'⟩ :=
      takeSeconds_whole h.intent_update_after defaultMinTtl
    exact ⟨merge dest src token_max_ttl token_min_ttl,
      msgpropertyFromUser_eq_ok.2 ⟨_, _, hmax, hmin, rfl⟩,
      msgpropertyFromUser_eq_ok.2 ⟨_, _, hmax', hmin, merge_merge hfst _ _⟩,
      returns_merge h hb hb'⟩

def newConf : MsgpropertyConf :=
  ⟨none, outbound ||| inbound, 0, ackNone, 0x4033bd3cc9b96d35, 3, 180, defaultMinTtl,
    cachePolicy .fifo .purge, 16, 2, .audPublic, zeroId, zeroId⟩

def replyUser : MxProperties := { emptyUser with reply_id := zeroId.set 0 65 }

/-- The reply id is not found again after the first call, and the second one drops it. -/
theorem reply_id_comes_and_goes :
    ∃ once twice, msgpropertyFromUser newConf replyUser = .ok once ∧
      msgpropertyFromUser once replyUser = .ok twice ∧ once.rep_subject = some [65] ∧
      twice.rep_subject = none ∧ (msgproperty4user emptyUser once).reply_id ≠ replyUser.reply_id :=
  ⟨merge newConf replyUser 180 3, merge (merge newConf replyUser 180 3) replyUser 180 3, rfl, rfl,
    by decide, by decide, by decide⟩

end Neuropil.Property.UserProperties
