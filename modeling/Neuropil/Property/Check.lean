import Neuropil.Property.Cache
import Neuropil.Property.Redelivery

namespace Neuropil.Property.Check

open List Eventqueue.Chain Lib.LinkedList Response.Cleanup Property.Cache Property.Redelivery
  Tree.Values Tree.Operations Tree.Keyed
open Key.Conditions (flagCmp)

def modeOutbound : UInt32 := 0x02

structure CheckConf where
  key : PropertyKey
  mode_type : UInt32
  is_internal : Bool
  resend_interval : Double

def CheckConf.redelivery (conf : CheckConf) : RedeliveryConf :=
  ⟨conf.key.conf.subject_dhkey_out, conf.resend_interval⟩

structure CheckRun where
  property : PropertyRun
  response_handler : NpTree
  redelivery : RedeliveryMessages

/-- What a check finds outside of the property: the containers of responses, the clock, the messages
and sessions, and the property's announcements that are due. -/
structure Surroundings where
  responses : Setting
  now : Double
  sessionid : ℕ → Dhkey
  has_session : Dhkey → Bool
  is_expired : ℕ → Bool
  announcements : List ChainedEvent

def cleanupCache (is_expired : ℕ → Bool) (msg_cache : Dll ℕ) : Dll ℕ where
  nodes := msg_cache.nodes.filter fun n => !is_expired n.val
  nodup := msg_cache.nodup.sublist (filter_sublist.map Node.addr)

def checkRedelivery (conf : CheckConf) (now : Double) (redelivery : RedeliveryMessages)
    (runtime : EventRuntime) : Except Eventqueue.Chain.Fault (EventRuntime × RedeliveryMessages) :=
  if flagCmp conf.mode_type modeOutbound then
    redeliverMessages conf.redelivery now redelivery runtime
  else .ok (runtime, redelivery)

variable (conf : CheckConf) (env : Surroundings) (run : CheckRun)

def userCheck (runtime : EventRuntime) :
    Except Eventqueue.Chain.Fault (EventRuntime × CheckRun) := do
  let (runtime, redelivery) ← checkRedelivery conf env.now run.redelivery runtime
  let (runtime, msg_cache) ←
    checkMsgcache conf.key run.property env.sessionid env.has_session runtime
  let runtime ← addEvents runtime env.announcements
  return (runtime, { run with
    property := { run.property with msg_cache := cleanupCache env.is_expired msg_cache }
    redelivery := redelivery })

def propertyCheck (runtime : EventRuntime) :
    Except Response.Cleanup.Fault (EventRuntime × CheckRun) := do
  let (runtime, response_handler) ←
    cleanupResponseHandler env.responses run.response_handler runtime
  let run := { run with response_handler := response_handler }
  if conf.is_internal then return (runtime, run)
  else (userCheck conf env run runtime).mapError .chain

structure PropertyState where
  run : CheckRun
  containers : Uuid → Option ℕ
  registered : Uuid → Option ℕ
  responses : HoldsKeyed uuidKind run.response_handler fun uuid => (containers uuid).map .void
  stored : Registered run.redelivery registered
  once : (run.property.msg_cache.nodes.map Node.val).Nodup

def redelivered : List (Uuid × ℕ) :=
  if flagCmp conf.mode_type modeOutbound then late env.now run.redelivery else []

def released : List (Node ℕ) :=
  leading conf.key.conf (fun msg => env.has_session (env.sessionid msg)) run.property.msg_cache

def responseEvents : List ChainedEvent :=
  ((handlers run.response_handler).take (maxEvents + 1)).flatMap (entryEvents env.responses)

def userEvents : List ChainedEvent :=
  ((redelivered conf env run).map fun e =>
      redeliveryEvent conf.redelivery (run.redelivery.data e.2)) ++
    (((released conf env run).map fun n => messageEvent conf.key env.sessionid n.val) ++
      env.announcements)

section

variable {conf env}

lemma userCheck_emits (s : PropertyState) (conf : CheckConf) (env : Surroundings)
    (response_handler : NpTree) (runtime : EventRuntime) :
    Emits .assertion runtime (userEvents conf env s.run)
      (userCheck conf env { s.run with response_handler := response_handler } runtime) := by
  have hred : Emits .assertion runtime ((redelivered conf env s.run).map fun e =>
      redeliveryEvent conf.redelivery (s.run.redelivery.data e.2))
      (checkRedelivery conf env.now s.run.redelivery runtime) := by
    rw [redelivered, checkRedelivery]
    split
    · obtain ⟨data, hd⟩ := s.stored.redeliver conf.redelivery env.now runtime
      rw [hd]
      exact emits_addEvents runtime _ _
    · exact emits_nil _ runtime _
  rw [userEvents, userCheck]
  apply hred.bind
  intro runtime1 redelivery _
  have hcache : Emits .assertion runtime1 ((released conf env s.run).map fun n =>
      messageEvent conf.key env.sessionid n.val)
      (checkMsgcache conf.key s.run.property env.sessionid env.has_session runtime1) := by
    obtain ⟨cache, hcache⟩ :=
      visit_leading (messageEvents_eq conf.key env.sessionid) runtime1 s.once
    rw [checkMsgcache, hcache]
    exact emits_addEvents runtime1 _ _
  apply hcache.bind
  intro runtime2 msg_cache _
  exact emits_addEvents runtime2 env.announcements _

def checkEvents (conf : CheckConf) (env : Surroundings) (run : CheckRun) : List ChainedEvent :=
  responseEvents env run ++ if conf.is_internal then [] else userEvents conf env run

lemma propertyCheck_emits (s : PropertyState) (conf : CheckConf) (env : Surroundings)
    (runtime : EventRuntime) :
    Emits (.chain .assertion) runtime (checkEvents conf env s.run)
      (propertyCheck conf env s.run runtime) := by
  rw [checkEvents, propertyCheck]
  apply (cleanup_emits env.responses ⟨s.run.response_handler, s.containers, s.responses⟩
    runtime).bind
  intro runtime1 response_handler _
  cases conf.is_internal with
  | true => exact emits_nil _ runtime1 _
  | false =>
    exact (userCheck_emits s conf env response_handler runtime1).mapError
      Response.Cleanup.Fault.chain

/-- For any cache, any messages that wait for redelivery and any responses: a periodic check stays
inside the chain of events exactly if there is room for all that it causes. -/
theorem chain_holds_check_iff (s : PropertyState) (conf : CheckConf) (env : Surroundings)
    (runtime : EventRuntime) :
    propertyCheck conf env s.run runtime ≠ .error (.chain .assertion) ↔
      runtime.chained.length + (responseEvents env s.run).length +
        (if conf.is_internal then 0
          else (redelivered conf env s.run).length + (released conf env s.run).length +
            env.announcements.length) ≤ maxSize := by
  rw [(propertyCheck_emits s conf env runtime).ne_full_iff, checkEvents]
  cases conf.is_internal with
  | true => simp
  | false => simp [userEvents, Nat.add_assoc]

end

def receiverConf : CheckConf where
  key :=
    { dhkey := Dhkey.ofWord 1
      conf := ⟨policyFifo, 255, 10, Dhkey.ofWord 1, Dhkey.ofWord 2⟩
      own := .inr rfl
      in_ne_out := by decide }
  mode_type := 0x01
  is_internal := false
  resend_interval := ⟨0⟩

def fullCache : PropertyState where
  run :=
    { property := ⟨⟨(range 255).map fun i => ⟨i, i⟩, by
        rw [map_map]
        exact nodup_range.map fun _ _ h => h⟩, 0⟩
      response_handler := treeCreate
      redelivery := ⟨treeCreate, fun _ => ⟨Dhkey.zero, ⟨0⟩, 0⟩, 0⟩ }
  containers _ := none
  registered _ := none
  responses := holdsKeyed_create
  stored := ⟨holdsKeyed_create, by simp, by simp⟩
  once := by
    rw [map_map]
    exact nodup_range.map fun _ _ h => h

def oneSession : Surroundings where
  responses := ⟨fun _ => ⟨Dhkey.zero, Dhkey.zero, ⟨0⟩, ⟨0⟩⟩, ⟨0⟩, fun _ => true⟩
  now := ⟨0⟩
  sessionid _ := Dhkey.ofWord 3
  has_session _ := true
  is_expired _ := false
  announcements := []

/-- When the session is there, the check of a full cache fails in the assertion. -/
theorem chain_overflows :
    propertyCheck receiverConf oneSession fullCache.run startedRuntime =
      .error (.chain .assertion) := by
  obtain ⟨hroom, -⟩ | ⟨-, he⟩ :=
    propertyCheck_emits fullCache receiverConf oneSession startedRuntime
  · have hlen : (checkEvents receiverConf oneSession fullCache.run).length = 255 := by
      decide +kernel
    rw [hlen] at hroom
    have hroom : 1 + 255 ≤ 255 := hroom
    omega
  · exact he

end Neuropil.Property.Check
