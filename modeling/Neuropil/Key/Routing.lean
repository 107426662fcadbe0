import Neuropil.Key.Conditions
import Neuropil.Route.Membership

namespace Neuropil.Key.Routing

open Function Lib.Statechart Route.Lookup Route.Membership Key.Conditions

inductive Fault
  | assertion
  | nullKey
  | nullNode
  | nested
  | route (f : Route.Table.Fault)
deriving DecidableEq, Repr

structure Node where
  isInLeafset : Bool
  isInRoutingTable : Bool
deriving DecidableEq

def Node.flag (n : Node) : Place → Bool
  | .leafset => n.isInLeafset
  | .routingTable => n.isInRoutingTable

def Node.mark (n : Node) (b : Bool) : Place → Node
  | .leafset => { n with isInLeafset := b }
  | .routingTable => { n with isInRoutingTable := b }

/-- A key of the key cache; its node is a place in memory, to which other keys may refer too. -/
structure NodeKey where
  state : KeyState
  nodeinfo : Option ℕ
deriving DecidableEq

structure World where
  route : RouteModule
  keys : Dhkey → Option NodeKey
  nodes : ℕ → Node

/-- What __np_node_update reads besides the flags: comparisons of clocks and averages. -/
structure Reads where
  -- an interface, or the own node
  ownNode : Bool
  -- `leave_send_at > join_send_at`
  leaving : Bool
  successWin : UInt8
  -- `created_at + MISC_SEND_PINGS_SEC < now`
  settled : Bool
  -- `success_avg <= GOOD_LINK`
  weakLink : Bool
  passive : Bool
  lat : Route.Table.Latency

/-- An event for a key, with what its handling finds. `node` is the node of the key once it is set
up: the one of the event, of the token, or of a passive node's alias. -/
structure Delivery where
  key : Dhkey
  event : Event
  view : View
  node : Option ℕ
  reads : Reads

variable (w : World)

def getNode (d : Dhkey) : Except Fault ℕ :=
  match w.keys d with
  | none => .error .nullKey
  | some k =>
    match k.nodeinfo with
    | none => .error .nullNode
    | some n => .ok n

def World.mark (n : ℕ) (b : Bool) (p : Place) : World :=
  { w with nodes := update w.nodes n ((w.nodes n).mark b p) }

def setFlag (p : Place) (b : Bool) (w : World) : Option Dhkey → Except Fault World
  | none => .ok w
  | some d => do
    let n ← getNode w d
    return w.mark n b p

def updateRoute (lat : Route.Table.Latency) (w : World) (d : Dhkey) (joined : Bool) (p : Place) :
    Except Fault Updated :=
  (updateAt lat w.route d joined p).mapError .route

def addTo (p : Place) (lat : Route.Table.Latency) (d : Dhkey) (w : World) : Except Fault World := do
  let out ← updateRoute lat w d true p
  let w ← setFlag p true { w with route := out.route } out.added
  setFlag p false w out.deleted

def removeFrom (p : Place) (lat : Route.Table.Latency) (d : Dhkey) (w : World) :
    Except Fault World := do
  let n ← getNode w d
  if (w.nodes n).flag p then
    let out ← updateRoute lat w d false p
    if p = .leafset ∧ out.added.isSome then .error .assertion
    else setFlag p false { w with route := out.route } out.deleted
  else return w

def nodeAddToLeafset (lat : Route.Table.Latency) (d : Dhkey) (w : World) : Except Fault World := do
  let n ← getNode w d
  if (w.nodes n).isInLeafset = false then addTo .leafset lat d w else return w

def nodeRemoveFromRouting (lat : Route.Table.Latency) (d : Dhkey) (w : World) :
    Except Fault World := do
  let w ← removeFrom .leafset lat d w
  removeFrom .routingTable lat d w

def nodeUpdate (reads : Reads) (d : Dhkey) (w : World) : Except Fault World := do
  if reads.ownNode || reads.leaving then return w
  else
    let n ← getNode w d
    let w ←
      if (w.nodes n).isInRoutingTable = false ∧ reads.successWin = 1 ∧ reads.settled ∧
          ¬ reads.passive then
        addTo .routingTable reads.lat d w
      else pure w
    if reads.successWin = 0 ∧ (w.nodes n).isInRoutingTable ∧ reads.weakLink then
      removeFrom .routingTable reads.lat d w
    else return w

def setNode (d : Dhkey) (node : Option ℕ) : World :=
  { w with keys := update w.keys d ((w.keys d).map fun k => { k with nodeinfo := node }) }

def setState (d : Dhkey) (w : World) (s : KeyState) : World :=
  { w with keys := update w.keys d ((w.keys d).map fun k => { k with state := s }) }

def shutdownEvent (d : Dhkey) : Event := ⟨Dhkey.zero, d, evtInternal ||| evtShutdown, .null⟩

/-- What the actions do to the routing module, the key cache and the flags. `deliver` handles an
event for the same key before the action returns. -/
def act (deliver : World → Event → Except Fault World) (i : Delivery) (w : World) :
    Action → Except Fault World
  | .wildcardSet | .nodeSetNode | .nodeSet => .ok (setNode w i.key i.node)
  | .createClientNetwork => do
    -- the network is made for the address of the node
    let _ ← getNode w i.key
    return w
  | .nodeAddToLeafset => nodeAddToLeafset i.reads.lat i.key w
  | .nodeUpdate => nodeUpdate i.reads i.key w
  | .nodeSendShutdown => nodeRemoveFromRouting i.reads.lat i.key w
  | .nodeSendShutdownEvent => deliver w (shutdownEvent i.key)
  | .keyDestroy => .ok { w with keys := update w.keys i.key none }
  | _ => .ok w

def nodeOf (d : Dhkey) : Option Node := ((w.keys d).bind NodeKey.nodeinfo).map w.nodes

/-- What the conditions read when an event is handled. Conditions left open by the key's view that
look into the event's object do not hold if there is none. -/
def viewOf (i : Delivery) (e : Event) : View :=
  { i.view with
    dhkey := i.key
    hasNode := (nodeOf w i.key).isSome
    isInLeafset := (nodeOf w i.key).any Node.isInLeafset
    isInRoutingTable := (nodeOf w i.key).any Node.isInRoutingTable
    other := fun c => i.view.other c &&
      !(decide (e.userData = .null) &&
        decide (c ∈ [.isNpMessagepart, .isNpMessage, .isResponseEvent])) }

def selected (i : Delivery) (e : Event) : Option KeyTransition :=
  (w.keys i.key).bind fun k => select (holds (viewOf w i e) e) (transitions k.state)

def stateOf (d : Dhkey) (w : World) : Option KeyState := (w.keys d).map NodeKey.state

def invoke (deliver : World → Event → Except Fault World) (i : Delivery) (w : World) (e : Event) :
    Except Fault World :=
  match w.keys i.key, selected w i e with
  | some k, some t =>
    take (act deliver i) (stateOf i.key) (setState i.key) onExit onEnter k.state t w
  | _, _ => .ok w

/-- An event that a key sends to itself sends no further one. -/
def handle (i : Delivery) (w : World) : Except Fault World :=
  invoke (invoke (fun _ _ => .error .nested) i) i w i.event

inductive Step
  -- _np_keycache_find_or_create
  | create (d : Dhkey)
  | deliver (i : Delivery)

def World.create (d : Dhkey) : World :=
  match w.keys d with
  | some _ => w
  | none => { w with keys := update w.keys d (some ⟨.unused, none⟩) }

def step (s : Except Fault World) : Step → Except Fault World
  | .create d => s.map fun w => w.create d
  | .deliver i => s.bind (handle i)

def init (me : Dhkey) (size : ℕ) : World :=
  ⟨⟨Route.Table.init me, Route.Leafset.init me size⟩, fun _ => none, fun _ => ⟨false, false⟩⟩

end Neuropil.Key.Routing
