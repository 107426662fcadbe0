import Neuropil.Key.Conditions
import Neuropil.Lib.Fault

namespace Neuropil.Key.Peers

open Function Lib.Buffer Lib.Statechart Key.Conditions

inductive Fault
  | assertion
  | nullNode
  | nullToken
deriving DecidableEq, Repr

def keyTypeWildcard : UInt32 := 0x008

/-- A key with its entities; its node is a place in memory, to which other keys may refer too. -/
structure PeerKey where
  state : KeyState
  type : UInt32
  handshakeToken : Option Token
  aaatoken : Option Token
  nodeinfo : Option ℕ
deriving DecidableEq

/-- An event that waits to be handled by a key. One that a join message led to remembers its node
token. -/
structure Pending where
  key : Dhkey
  event : Event
  joining : Option Token
deriving DecidableEq

/-- The key cache, the nodes up to `next` with the public key each session was derived from, and the
events not handled yet. -/
structure World where
  keys : Dhkey → Option PeerKey
  sessions : ℕ → Option Bytes
  next : ℕ
  pending : List Pending

/-- What handling an event finds besides the event, the keys and the nodes. -/
structure Reads where
  view : View
  -- what _np_node_from_token reads from the subject of the token: no node, or whether it is passive
  address : Option Bool
  -- _np_node_cmp finds no difference
  sameAddress : Bool
  -- the key of a join without hash to the address of the token
  wildcard : Dhkey
  -- the answer of the authenticate callback, unless it is not asked or left to a realm
  answer : Option Bool

variable (w : World) (d : Dhkey) (k : PeerKey)

def World.put : World := { w with keys := update w.keys d (some k) }

def World.queue (events : List Pending) : World := { w with pending := w.pending ++ events }

def World.putNew : World := { w.put d { k with nodeinfo := some w.next } with next := w.next + 1 }

def World.findOrCreate : World :=
  match w.keys d with
  | some _ => w
  | none => w.put d ⟨.unused, 0, none, none, none⟩

def setNode : World := if k.nodeinfo.isSome then w.put d k else w.putNew d k

def aliasSetNode : World :=
  if k.nodeinfo.isSome then w else w.putNew d { k with type := k.type ||| keyTypeAlias }

def nodeSet (r : Reads) (w : World) (d target : Dhkey) (k : PeerKey) (t : Token) :
    Except Fault World :=
  let k := { k with
    type := k.type ||| keyTypeNode
    handshakeToken := if t.type = tokenHandshake then some t else k.handshakeToken
    aaatoken := if t.type = tokenNode then some t else k.aaatoken }
  match if flagCmp t.type tokenHandshake then r.address else none with
  | none => .ok (w.put d k)
  | some passive =>
    match if passive then (w.keys target).bind PeerKey.nodeinfo else none with
    -- a passive node has contacted us first
    | some n => .ok (w.put d { k with nodeinfo := some n })
    | none =>
      if k.nodeinfo.isNone then .ok (w.putNew d k)
      else if r.sameAddress then .ok (w.put d k)
      else .error .assertion

def aliasSet (r : Reads) (w : World) (d : Dhkey) (k : PeerKey) (t : Token) : Except Fault World :=
  let k := { k with
    type := k.type ||| keyTypeAlias
    handshakeToken := k.handshakeToken.orElse fun _ => some t }
  match w.keys t.issuer with
  | some peer =>
    match peer.nodeinfo with
    | some n => .ok (w.put d { k with nodeinfo := some n })
    | none => .error .nullNode
  | none =>
    if k.nodeinfo.isSome then .ok (w.put d k)
    else if r.address.isSome then .ok (w.putNew d k)
    else .error .nullNode

def createSession : Except Fault World :=
  match k.nodeinfo, k.handshakeToken with
  | some n, some t => .ok { w with sessions := update w.sessions n (some t.publicKey) }
  | none, _ => .error .nullNode
  | some _, none => .error .nullToken

def nodeUpdateToken (t : Token) : Except Fault World :=
  let k := { k with
    handshakeToken := if t.type = tokenHandshake ∧ k.handshakeToken.isNone then some t
      else k.handshakeToken
    aaatoken := if t.type = tokenNode ∧ k.aaatoken.isNone then some t else k.aaatoken }
  if k.type = keyTypeAlias ∨ k.nodeinfo.isSome then .ok (w.put d k) else .error .nullNode

def nodeUpgrade (t : Token) : Except Fault World :=
  if flagCmp k.type keyTypeAlias ∨ k.nodeinfo.isSome then
    .ok (w.put d { k with aaatoken := k.aaatoken.orElse fun _ => some t })
  else .error .nullNode

def nodeDhkeyOf (t : Token) : Dhkey :=
  if flagCmp t.type tokenNode then t.fingerprint else t.partnerFp

def authnEvent (d : Dhkey) (t : Token) : Event :=
  ⟨d, nodeDhkeyOf t, evtInternal ||| evtToken ||| evtAuthn, .token t⟩

def identityHandleAuthn (r : Reads) (w : World) (p : Pending) (t : Token) : World :=
  match r.answer with
  | none => w
  | some true =>
    w.queue [⟨nodeDhkeyOf t, authnEvent (nodeDhkeyOf t) t, p.joining⟩,
      ⟨p.event.targetDhkey, authnEvent p.event.targetDhkey t, p.joining⟩]
  | some false =>
    w.queue [⟨t.fingerprint, ⟨t.fingerprint, t.fingerprint, evtInternal ||| evtShutdown, .null⟩,
      none⟩]

variable (p : Pending)

def actOn (r : Reads) (w : World) (k : PeerKey) : Action → Except Fault World
  | .wildcardSet => .ok (setNode w p.key { k with type := k.type ||| keyTypeWildcard })
  | .nodeSetNode => .ok (setNode w p.key { k with type := k.type ||| keyTypeNode })
  | .aliasSetNode => .ok (aliasSetNode w p.key k)
  | .createSession => createSession w k
  -- the network is made for the address of the node
  | .createClientNetwork => if k.nodeinfo.isSome then .ok w else .error .nullNode
  | .keyDestroy => .ok { w with keys := update w.keys p.key none }
  | .nodeIdentityUpgrade =>
    if k.nodeinfo.isNone then .error .nullNode
    else if k.aaatoken.isNone then .error .nullToken
    else .ok w
  | .nodeSet => withToken fun t => nodeSet r w p.key p.event.targetDhkey k t
  | .aliasSet => withToken fun t => aliasSet r w p.key k t
  | .nodeUpdateToken => withToken fun t => nodeUpdateToken w p.key k t
  | .nodeUpgrade => withToken fun t => nodeUpgrade w p.key k t
  | .identityHandleAuthn => withToken fun t => .ok (identityHandleAuthn r w p t)
  | _ => .ok w
where
  withToken (f : Token → Except Fault World) : Except Fault World :=
    match p.event.userData.token? with
    | some t => f t
    | none => .error .nullToken

def act (r : Reads) (w : World) (a : Action) : Except Fault World :=
  match w.keys p.key with
  | some k => actOn p r w k a
  | none => .ok w

/-- __is_authn_request, except for the filter of the tokens already processed. -/
def isAuthnRequest (e : Event) : Bool :=
  flagCmp e.type evtAuthn && (tokenIn e).any fun t =>
    (flagCmp t.type tokenIdentity || flagCmp t.type tokenNode) && t.valid

def viewOf (r : Reads) (k : PeerKey) : View :=
  { r.view with
    dhkey := p.key
    keyType := k.type
    hasNode := k.nodeinfo.isSome
    token := k.aaatoken
    other := fun c => r.view.other c && (decide (c ≠ .isAuthnRequest) || isAuthnRequest p.event) }

def selected (r : Reads) (k : PeerKey) : Option KeyTransition :=
  select (holds (viewOf p r k) p.event) (transitions k.state)

def stateOf (d : Dhkey) (w : World) : Option KeyState := (w.keys d).map PeerKey.state

def setState (d : Dhkey) (w : World) (s : KeyState) : World :=
  { w with keys := update w.keys d ((w.keys d).map fun k => { k with state := s }) }

def handle (r : Reads) (w : World) : Except Fault World :=
  match w.keys p.key with
  | none => .ok w
  | some k =>
    match selected p r k with
    | none => .ok w
    | some t => take (act p r) (stateOf p.key) (setState p.key) onExit onEnter k.state t w

def isValidAs (t : Token) (type : UInt32) : Bool := t.valid && flagCmp t.type type

def handshakeEvent (d target : Dhkey) (t : Token) : Event :=
  ⟨d, target, evtExternal ||| evtToken, .token t⟩

def inHandshake (w : World) (t : Token) (via : Dhkey) (r : Reads) : Except Fault World :=
  if isValidAs t tokenHandshake then do
    let w ← handle ⟨t.issuer, handshakeEvent t.issuer via t, none⟩ r (w.findOrCreate t.issuer)
    -- the network could not be set up
    if (w.keys t.issuer).all fun k => !flagCmp k.type keyTypeNode then return w
    else
      let w := (w.findOrCreate via).queue [⟨via, handshakeEvent via via t, none⟩]
      if (w.keys r.wildcard).isNone then return w
      else return w.queue [⟨r.wildcard, handshakeEvent r.wildcard via t, none⟩]
  else return w

def inUpdate (w : World) (t : Token) : World :=
  if isValidAs t tokenHandshake && (w.keys t.issuer).isNone then
    (w.findOrCreate t.issuer).queue [⟨t.issuer, handshakeEvent t.issuer t.issuer t, none⟩]
  else w

def authnRequest (d target : Dhkey) (t : Token) : Event :=
  ⟨d, target, evtAuthn ||| evtExternal ||| evtToken, .token t⟩

def isPartner (t other : Token) : Bool :=
  decide (t.partnerFp ≠ Dhkey.zero) && decide (t.partnerFp = other.fingerprint)

def inJoin (me : Dhkey) (w : World) (node : Token) (ident : Option Token) (via : Dhkey) : World :=
  if !isValidAs node tokenNode || (w.keys node.fingerprint).isNone then w
  else
    match ident with
    | none =>
      w.queue ([node.fingerprint, via, me].map fun d => ⟨d, authnRequest d via node, some node⟩)
    | some ident =>
      if isValidAs ident tokenIdentity && isPartner ident node && isPartner node ident then
        w.queue [
          ⟨node.fingerprint, handshakeEvent node.fingerprint node.fingerprint node, some node⟩,
          ⟨via, handshakeEvent via node.fingerprint node, some node⟩,
          ⟨me, authnRequest me via ident, some node⟩]
      else w

structure PlainEvent where
  event : Event
  plain : event.userData.token?.all fun t =>
    !flagCmp event.type evtAuthn && !flagCmp t.type tokenHandshake

inductive Step
  | create (d : Dhkey)
  | handshake (t : Token) (via : Dhkey) (r : Reads)
  | update (t : Token)
  | join (node : Token) (ident : Option Token) (via : Dhkey)
  -- one of the pending events is handled
  | next (n : ℕ) (r : Reads)
  | plain (d : Dhkey) (e : PlainEvent) (r : Reads)

def advance (me : Dhkey) (w : World) : Step → Except Fault World
  | .create d => .ok (w.findOrCreate d)
  | .handshake t via r => inHandshake w t via r
  | .update t => .ok (inUpdate w t)
  | .join node ident via => .ok (inJoin me w node ident via)
  | .next n r =>
    match w.pending[n]? with
    | none => .ok w
    | some p => handle p r { w with pending := w.pending.eraseIdx n }
  | .plain d e r => handle ⟨d, { e.event with sourceDhkey := d }, none⟩ r w

def step (me : Dhkey) (s : Except Fault World) (a : Step) : Except Fault World :=
  s.bind fun w => advance me w a

def init (me : Dhkey) (own : Token) : World :=
  ⟨update (fun _ => none) me (some ⟨.inUseIdentity, keyTypeNode, none, some own, some 0⟩),
    fun _ => none, 1, []⟩

/-- Every token is accepted; `other` answers the conditions that are not defined here. -/
def plainReads (other : Condition → Bool) : Reads where
  view := ⟨Dhkey.zero, 0, false, false, false, none, false, true, false, false, 0, Dhkey.zero,
    fun _ => Dhkey.zero, fun _ => false, other⟩
  address := some false
  sameAddress := false
  wildcard := Dhkey.ofWord 9
  answer := some true

def handshakeFrom (issuer : Dhkey) (pk : Bytes) : Token :=
  ⟨tokenHandshake, issuer, pk, issuer, Dhkey.zero, false, true⟩

def ownToken : Token := ⟨tokenNode, Dhkey.zero, [0], Dhkey.zero, Dhkey.zero, true, true⟩

end Neuropil.Key.Peers
