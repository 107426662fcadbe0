import Neuropil.Dhkey.Order
import Neuropil.Lib.Binary64
import Neuropil.Lib.Buffer
import Neuropil.Lib.Statechart

namespace Neuropil.Key.Conditions

open Lib Lib.Buffer Lib.Statechart

inductive KeyState
  | unused
  | inSetupNode
  | inSetupAlias
  | inSetupIdentity
  | inSetupWildcard
  | inUseNode
  | inUseAlias
  | inUseIdentity
  | inUseMsgproperty
  | onHoldMsgproperty
  | inDestroy
deriving DecidableEq, Repr

/-- The conditions of the transitions; `always` stands for a condition that is NULL. -/
inductive Condition
  | isWildcardKey | isNodeInfo | isAliasHandshakeToken | isAliasNodeInfo | isNodeHandshakeToken
  | isNodeToken | isIdentityAaatoken | isMsgproperty | isUnused
  | isCryptedMessage | isJoinInMessage | isNodeAuthn | isAliasInvalid
  | isHandshakeMessage | isJoinOutMessage | isInvalidMessage | isNpMessage | isNodeIdentityAuthn
  | isShutdownEvent | isNodeInvalid
  | isIdentityAuthn | isIdentityInvalid | isWildcardInvalid
  | isUsrInMessage | isDhtMessage | isPheromoneMessage | isDiscoveryMessage | isForwardMessage
  | isNpMessagepart | isResponseEvent | hasToLeave
  | isUnencryptedNpMessage | isAuthnRequest | isAuthzRequest | isAccountRequest | isNoopEvent
  | isMsgpropertyLifecycleDisable | isMsgpropertyLifecycleEnable | isMessageRedeliveryEvent
  | isSenderTokenAvailable | isReceiverTokenAvailable | isIntentAuthz | isNoTokenAvailable
  | always
deriving DecidableEq, Repr

/-- The actions of the transitions and of entering and leaving a state; `noop` stands for
__keystate_noop and for an action that is NULL. -/
inductive Action
  | wildcardSet | nodeSetNode | aliasSet | aliasSetNode | nodeSet | setIdentity | setProperty
  | aliasSetNodeDestroy
  | aliasDecrypt | handleNpMessage | nodeUpdateToken | nodeUpgrade | aliasDestroy | createSession
  | nodeSendDirect | nodeSendEncrypted | nodeDiscardMessage | nodeSplitMessage
  | nodeIdentityUpgrade | nodeDestroy | nodeHandleCompletion | createClientNetwork
  | identityUpdate | identityDestroy | wildcardDestroy
  | handleUsrMsg | handlePheromone | handleNpDiscovery | handleNpForward | aliasShutdown
  | aliasUpdate
  | nodeHandleResponse | nodeSendShutdown | nodeSendShutdownEvent | nodeUpdate | nodeAddToLeafset
  | extractHandshake | identityHandleAuthn | identityHandleAuthz | identityHandleAccount
  | identityShutdown | createIdentityNetwork
  | propertyLifecycleSet | responseHandlerSet | propertyRedeliverySet | propertyHandleInMsg
  | propertyHandleOutMsg | propertyHandleIntent | propertyAddMsgToCache | propertyUpdate
  | propertyCheck
  | keyDestroy | noop
deriving DecidableEq, Repr

abbrev KeyTransition := Transition KeyState Condition Action

/-- The transitions of __np_key_populate_states, in the order they are added. -/
def transitions : KeyState → List KeyTransition
  | .unused => [
      ⟨.isWildcardKey, .wildcardSet, .inSetupWildcard⟩,
      ⟨.isNodeInfo, .nodeSetNode, .inSetupNode⟩,
      ⟨.isAliasHandshakeToken, .aliasSet, .inSetupAlias⟩,
      ⟨.isAliasNodeInfo, .aliasSetNode, .unused⟩,
      ⟨.isNodeHandshakeToken, .nodeSet, .inSetupNode⟩,
      ⟨.isNodeToken, .nodeSet, .inSetupNode⟩,
      ⟨.isIdentityAaatoken, .setIdentity, .inUseIdentity⟩,
      ⟨.isMsgproperty, .setProperty, .inUseMsgproperty⟩,
      ⟨.isUnused, .aliasSetNodeDestroy, .inDestroy⟩]
  | .inSetupAlias => [
      ⟨.isCryptedMessage, .aliasDecrypt, .inSetupAlias⟩,
      ⟨.isJoinInMessage, .handleNpMessage, .inSetupAlias⟩,
      ⟨.isNodeToken, .nodeUpdateToken, .inSetupAlias⟩,
      ⟨.isNodeAuthn, .nodeUpgrade, .inUseAlias⟩,
      ⟨.isAliasInvalid, .aliasDestroy, .inDestroy⟩]
  | .inSetupNode => [
      ⟨.isHandshakeMessage, .nodeSendDirect, .inSetupNode⟩,
      ⟨.isJoinOutMessage, .nodeSendEncrypted, .inSetupNode⟩,
      ⟨.isInvalidMessage, .nodeDiscardMessage, .inSetupNode⟩,
      ⟨.isNpMessage, .nodeSplitMessage, .inSetupNode⟩,
      ⟨.isNodeHandshakeToken, .nodeUpdateToken, .inSetupNode⟩,
      ⟨.isNodeToken, .nodeUpdateToken, .inSetupNode⟩,
      ⟨.isNodeIdentityAuthn, .nodeIdentityUpgrade, .inUseNode⟩,
      ⟨.isNodeAuthn, .nodeUpgrade, .inUseNode⟩,
      ⟨.isShutdownEvent, .nodeDestroy, .inDestroy⟩,
      ⟨.isNodeInvalid, .nodeDestroy, .inDestroy⟩,
      ⟨.always, .nodeHandleCompletion, .inSetupNode⟩]
  | .inSetupIdentity => [
      ⟨.isIdentityAuthn, .identityUpdate, .inUseIdentity⟩,
      ⟨.isIdentityInvalid, .identityDestroy, .inDestroy⟩]
  | .inSetupWildcard => [
      ⟨.isHandshakeMessage, .nodeSendDirect, .inSetupWildcard⟩,
      ⟨.isNodeHandshakeToken, .wildcardDestroy, .inDestroy⟩,
      ⟨.isWildcardInvalid, .wildcardDestroy, .inDestroy⟩,
      ⟨.always, .nodeHandleCompletion, .inSetupWildcard⟩]
  | .inUseAlias => [
      ⟨.isCryptedMessage, .aliasDecrypt, .inUseAlias⟩,
      ⟨.isUsrInMessage, .handleUsrMsg, .inUseAlias⟩,
      ⟨.isDhtMessage, .handleNpMessage, .inUseAlias⟩,
      ⟨.isPheromoneMessage, .handlePheromone, .inUseAlias⟩,
      ⟨.isDiscoveryMessage, .handleNpDiscovery, .inUseAlias⟩,
      ⟨.isForwardMessage, .handleNpForward, .inUseAlias⟩,
      ⟨.isAliasInvalid, .aliasDestroy, .inDestroy⟩,
      ⟨.isShutdownEvent, .aliasShutdown, .inUseAlias⟩,
      ⟨.isNodeAuthn, .noop, .inUseAlias⟩,
      ⟨.always, .aliasUpdate, .inUseAlias⟩]
  | .inUseNode => [
      ⟨.isNpMessagepart, .nodeSendEncrypted, .inUseNode⟩,
      ⟨.isNpMessage, .nodeSplitMessage, .inUseNode⟩,
      ⟨.isResponseEvent, .nodeHandleResponse, .inUseNode⟩,
      ⟨.isShutdownEvent, .nodeSendShutdown, .inUseNode⟩,
      ⟨.hasToLeave, .nodeSendShutdownEvent, .inUseNode⟩,
      ⟨.isNodeInvalid, .nodeSendShutdown, .inDestroy⟩,
      ⟨.always, .nodeUpdate, .inUseNode⟩]
  | .inUseIdentity => [
      ⟨.isUnencryptedNpMessage, .extractHandshake, .inUseIdentity⟩,
      ⟨.isAuthnRequest, .identityHandleAuthn, .inUseIdentity⟩,
      ⟨.isAuthzRequest, .identityHandleAuthz, .inUseIdentity⟩,
      ⟨.isAccountRequest, .identityHandleAccount, .inUseIdentity⟩,
      ⟨.isShutdownEvent, .identityShutdown, .inDestroy⟩,
      ⟨.isIdentityInvalid, .identityShutdown, .inDestroy⟩,
      ⟨.isNoopEvent, .noop, .inUseIdentity⟩]
  | .inUseMsgproperty => [
      ⟨.isMsgpropertyLifecycleDisable, .propertyLifecycleSet, .onHoldMsgproperty⟩,
      ⟨.isResponseEvent, .responseHandlerSet, .inUseMsgproperty⟩,
      ⟨.isMessageRedeliveryEvent, .propertyRedeliverySet, .inUseMsgproperty⟩,
      ⟨.isSenderTokenAvailable, .propertyHandleInMsg, .inUseMsgproperty⟩,
      ⟨.isReceiverTokenAvailable, .propertyHandleOutMsg, .inUseMsgproperty⟩,
      ⟨.isIntentAuthz, .propertyHandleIntent, .inUseMsgproperty⟩,
      ⟨.isNoTokenAvailable, .propertyAddMsgToCache, .inUseMsgproperty⟩,
      ⟨.isMsgproperty, .propertyUpdate, .inUseMsgproperty⟩,
      ⟨.isNoopEvent, .propertyCheck, .inUseMsgproperty⟩]
  | .onHoldMsgproperty => [
      ⟨.isMsgpropertyLifecycleEnable, .propertyLifecycleSet, .inUseMsgproperty⟩]
  | .inDestroy => []

def onEnter : KeyState → Action
  | .inSetupAlias => .createSession
  | .inSetupNode | .inSetupWildcard => .createClientNetwork
  | .inUseNode => .nodeAddToLeafset
  | .inUseIdentity => .createIdentityNetwork
  | .inDestroy => .keyDestroy
  | _ => .noop

def onExit : KeyState → Action
  | .inUseNode => .nodeDestroy
  | .inUseIdentity => .identityDestroy
  | _ => .noop

def ackNone : UInt32 := 0x01
def ackDestination : UInt32 := 0x02

def flagCmp (data flag : UInt32) : Bool := data &&& flag == flag

lemma flagCmp_self (x : UInt32) : flagCmp x x = true := by simp [flagCmp]

def evtInternal : UInt32 := 0x0001
def evtExternal : UInt32 := 0x0002
def evtMessage : UInt32 := 0x0010
def evtToken : UInt32 := 0x0020
def evtAuthn : UInt32 := 0x0100
def evtShutdown : UInt32 := 0x1000

def keyTypeUnknown : UInt32 := 0x001
def keyTypeAlias : UInt32 := 0x002
def keyTypeNode : UInt32 := 0x004

def tokenIdentity : UInt32 := 0x01
def tokenNode : UInt32 := 0x02
def tokenHandshake : UInt32 := 0x04

/-- What the keys look at in a token; `valid` is the answer of _np_aaatoken_is_valid, `issuer` the
key that the issuer's text stands for. -/
structure Token where
  type : UInt32
  issuer : Dhkey
  publicKey : Bytes
  fingerprint : Dhkey
  partnerFp : Dhkey
  privateKeyIsSet : Bool
  valid : Bool
deriving DecidableEq

/-- What the keys look at in a part of a message; the time stamp is the bits of a double. -/
structure MessagePart where
  subject : Dhkey
  audience : Dhkey
  tstamp : UInt64
  ttl : UInt32
deriving DecidableEq

inductive UserData
  | null
  | packet
  | messagePart (part : MessagePart)
  | token (token : Token)
  | node (addressValid wildcard : Bool)
  | other
deriving DecidableEq

structure Event where
  sourceDhkey : Dhkey
  targetDhkey : Dhkey
  type : UInt32
  userData : UserData
deriving DecidableEq

inductive Subject
  | joinRequest | leaveRequest | ack | ping | piggy | update | availableReceiver | availableSender
  | pheromoneUpdate
deriving DecidableEq

/-- What a condition reads besides the event: the fields of the key and its node, the clock, and the
settings. `other` answers for the conditions that are not defined here. -/
structure View where
  dhkey : Dhkey
  keyType : UInt32
  hasNode : Bool
  isInLeafset : Bool
  isInRoutingTable : Bool
  token : Option Token
  badLink : Bool
  inGracetime : Bool
  idle : Bool
  parentMissing : Bool
  now : UInt64
  myNodeKey : Dhkey
  subjectOf : Subject → Dhkey
  -- an inbound property that is neither internal nor for a virtual audience
  userProperty : Dhkey → Bool
  other : Condition → Bool

/-- __is_msgpart_expired, which holds of the parts that are not expired. -/
def isMsgpartExpired (v : View) (part : MessagePart) : Bool :=
  Binary64.lt v.now (Binary64.add part.tstamp (Binary64.ofNat part.ttl.toNat))

def UserData.token? : UserData → Option Token
  | .token t => some t
  | _ => none

def partIn (v : View) (e : Event) : Option MessagePart :=
  if flagCmp v.keyType keyTypeAlias && flagCmp e.type evtMessage && flagCmp e.type evtExternal then
    match e.userData with
    | .messagePart part => some part
    | _ => none
  else none

def tokenIn (e : Event) : Option Token :=
  if flagCmp e.type evtToken && flagCmp e.type evtExternal then e.userData.token? else none

def inRouting (v : View) : Bool := v.hasNode && (v.isInLeafset || v.isInRoutingTable)

variable (v : View) (e : Event)

def isForwardMessage : Bool :=
  (partIn v e).any fun part =>
    inRouting v && isMsgpartExpired v part && decide (v.myNodeKey ≠ part.audience)

def isAliasHandshakeToken : Bool :=
  (tokenIn e).any fun t =>
    decide (t.type = tokenHandshake) && decide (t.issuer ≠ e.sourceDhkey) && t.valid

lemma token_of_isAliasHandshakeToken {e : Event} (h : isAliasHandshakeToken e = true) :
    ∃ t, e.userData.token? = some t ∧ t.type = tokenHandshake ∧ t.issuer ≠ e.sourceDhkey := by
  obtain ⟨t, ht, hcond⟩ := (Option.any_eq_true _ _).1 h
  simp only [Bool.and_eq_true, decide_eq_true_eq] at hcond
  unfold tokenIn at ht
  split_ifs at ht
  exact ⟨t, ht, hcond.1⟩

def isNodeHandshakeToken : Bool :=
  (tokenIn e).any fun t =>
    flagCmp t.type tokenHandshake && decide (t.issuer = e.sourceDhkey) && t.valid

def isNodeToken : Bool :=
  (tokenIn e).any fun t => flagCmp t.type tokenNode && !t.privateKeyIsSet && t.valid

def isCryptedMessage : Bool :=
  flagCmp v.keyType keyTypeAlias && flagCmp e.type evtMessage && flagCmp e.type evtExternal &&
    decide (e.userData = .packet)

def isJoinInMessage : Bool :=
  (partIn v e).any fun part =>
    isMsgpartExpired v part &&
      (decide (part.subject = v.subjectOf .joinRequest) ||
        decide (part.subject = v.subjectOf .leaveRequest))

def isUsrInMessage : Bool :=
  (partIn v e).any fun part => isMsgpartExpired v part && v.userProperty part.subject

def isDhtMessage : Bool :=
  (partIn v e).any fun part =>
    inRouting v &&
      (decide (part.subject = v.subjectOf .ack) || decide (part.subject = v.subjectOf .ping) ||
        decide (part.subject = v.subjectOf .piggy) || decide (part.subject = v.subjectOf .update) ||
        decide (part.subject = v.subjectOf .leaveRequest)) &&
      isMsgpartExpired v part && decide (v.myNodeKey = part.audience)

def isPheromoneMessage : Bool :=
  (partIn v e).any fun part =>
    inRouting v && isMsgpartExpired v part && decide (part.subject = v.subjectOf .pheromoneUpdate)

def isDiscoveryMessage : Bool :=
  isForwardMessage v e && (partIn v e).any fun part =>
    isMsgpartExpired v part &&
      (decide (part.subject = v.subjectOf .availableReceiver) ||
        decide (part.subject = v.subjectOf .availableSender))

def isNodeAuthn : Bool :=
  flagCmp e.type evtInternal && flagCmp e.type evtToken && flagCmp e.type evtAuthn &&
    e.userData.token?.isSome

def isNodeIdentityAuthn : Bool :=
  isNodeAuthn e && e.userData.token?.any fun t =>
    flagCmp t.type tokenIdentity && decide (t.partnerFp = v.dhkey)

/-- The token of an external shutdown has to have the public key of the key's own token. -/
def isShutdownEvent : Bool :=
  flagCmp e.type evtShutdown &&
    (!flagCmp e.type evtExternal || e.userData.token?.any fun remote =>
      remote.valid && v.token.all fun t => decide (remote.publicKey = t.publicKey)) &&
    (!flagCmp e.type evtInternal || decide (v.dhkey = e.targetDhkey))

def isAliasInvalid (v : View) : Bool :=
  flagCmp v.keyType keyTypeUnknown ||
    (!v.inGracetime && (v.parentMissing || v.idle || (!v.isInLeafset && !v.isInRoutingTable) ||
      v.badLink || !v.token.any fun t => flagCmp t.type tokenNode && t.valid))

/-- The nodes that events carry: with an address, or to join without a hash. -/
def hasNodeInfo (e : Event) (wildcard : Bool) : Bool :=
  match e.userData with
  | .node addressValid w => addressValid && w == wildcard
  | _ => false

def isWildcardKey (e : Event) : Bool := flagCmp e.type evtInternal && hasNodeInfo e true

def isNodeInfo (e : Event) : Bool := flagCmp e.type evtInternal && hasNodeInfo e false

def isAliasNodeInfo (e : Event) : Bool :=
  flagCmp e.type evtExternal && (hasNodeInfo e true || hasNodeInfo e false)

def holds (v : View) (e : Event) : Condition → Bool
  | .isWildcardKey => isWildcardKey e
  | .isNodeInfo => isNodeInfo e
  | .isAliasHandshakeToken => isAliasHandshakeToken e
  | .isAliasNodeInfo => isAliasNodeInfo e
  | .isNodeHandshakeToken => isNodeHandshakeToken e
  | .isNodeToken => isNodeToken e
  | .isCryptedMessage => isCryptedMessage v e
  | .isJoinInMessage => isJoinInMessage v e
  | .isNodeAuthn => isNodeAuthn e
  | .isNodeIdentityAuthn => isNodeIdentityAuthn v e
  | .isAliasInvalid => isAliasInvalid v
  | .isShutdownEvent => isShutdownEvent v e
  | .isUsrInMessage => isUsrInMessage v e
  | .isDhtMessage => isDhtMessage v e
  | .isPheromoneMessage => isPheromoneMessage v e
  | .isDiscoveryMessage => isDiscoveryMessage v e
  | .isForwardMessage => isForwardMessage v e
  | .isUnused => v.idle
  -- FLAG_CMP with evt_noop, which is zero
  | .isNoopEvent => true
  | .always => true
  | c => v.other c

end Neuropil.Key.Conditions
