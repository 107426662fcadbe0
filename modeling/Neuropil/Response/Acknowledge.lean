import Mathlib.Data.List.TakeWhile
import Neuropil.Lib.Run
import Neuropil.Tree.KeyOrder
import Neuropil.Tree.Operations
import Neuropil.Tree.Ordered

namespace Neuropil.Response.Acknowledge

open Function Option Lib.Run Tree.RedBlack Tree.Removal Tree.Values Tree.Operations Tree.KeyOrder
  Tree.Ordered

structure Responsecontainer where
  uuid : Uuid
  receivedAt : Double
deriving DecidableEq

/-- The `response_handler` tree of the property NP_ACK, and the containers its elements point to. -/
structure State where
  handlers : NpTree
  containers : ℕ → Option Responsecontainer
  fresh : ℕ

def treeFindStr (tree : NpTree) (key : CString) : Option Treeval := treeFind tree (.str key)

def treeFindUuid (tree : NpTree) (key : Uuid) : Option Treeval := treeFind tree (.uuid key)

def treeInsertUuid (tree : NpTree) (key : Uuid) (val : Treeval) : Except Fault NpTree :=
  treeInsert tree (.uuid key) val

def treeDelUuid (tree : NpTree) (key : Uuid) : Except Fault NpTree := treeDel tree (.uuid key)

/-- __np_response_handler_set for a container at address `p` and the internal property NP_ACK. -/
def responseHandlerSet (s : State) (p : ℕ) (uuid : Uuid) : Except Fault State :=
  match treeFindUuid s.handlers uuid with
  | some _ => .ok s
  | none => (treeInsertUuid s.handlers uuid (.void p)).map (fun handlers => { s with handlers })

/-- _np_message_add_response_handler: a new container, and the event that registers it. -/
def addResponseHandler (s : State) (uuid : Uuid) : Except Fault State :=
  responseHandlerSet { s with
    containers := update s.containers s.fresh (some ⟨uuid, ⟨0⟩⟩)
    fresh := s.fresh + 1 } s.fresh uuid

/-- What _np_msgproperty_cleanup_response_handler does to a container it is done with. -/
def removeResponseHandler (s : State) (uuid : Uuid) : Except Fault State :=
  (treeDelUuid s.handlers uuid).map (fun handlers => { s with handlers })

def responseUuid : CString where
  bytes := [0x5f, 0x6e, 0x70, 0x2e, 0x72, 0x65, 0x73, 0x70, 0x6f, 0x6e, 0x73, 0x65, 0x5f, 0x75,
    0x75, 0x69, 0x64]
  no_nul := by decide
  length_lt := by decide

/-- `value.bin` taken as a `char *`. -/
def binAsString : Treeval → CString
  | .bin b | .hash b =>
    { bytes := b.bytes.takeWhile (fun c => c ≠ 0)
      no_nul := fun h => by simpa using List.mem_takeWhile_imp h
      length_lt := (List.takeWhile_sublist _).length_le.trans_lt b.length_lt }
  | .charPtr s => s
  | _ => ⟨[], by simp, by decide⟩

def setReceivedAt (now : Double) (s : State) (p : ℕ) : State :=
  { s with
    containers := update s.containers p
      ((s.containers p).map (fun c => { c with receivedAt := now })) }

/-- _np_in_ack; `body` is the tree that _np_message_readbody reads, or `none` if it fails. -/
def inAck (now : Double) (body : Option NpTree) (s : State) : Bool × State :=
  match body with
  | none => (false, s)
  | some body =>
    match treeFindStr body responseUuid with
    | none => (true, s)
    | some ackUuid =>
      match treeFindStr s.handlers (binAsString ackUuid) with
      | some (.void p) => (true, setReceivedAt now s p)
      | _ => (true, s)

inductive Event
  | add (uuid : Uuid)
  | remove (uuid : Uuid)
  | ack (now : Double) (body : Option NpTree)

def handle (s : State) : Event → Except Fault State
  | .add uuid => addResponseHandler s uuid
  | .remove uuid => removeResponseHandler s uuid
  | .ack now body => .ok (inAck now body s).2

def step (r : Except Fault State) (e : Event) : Except Fault State := r >>= fun s => handle s e

def start : Except Fault State := .ok ⟨treeCreate, fun _ => none, 0⟩

structure Registry where
  container : Uuid → Option ℕ
  made : ℕ

def registryStep (r : Registry) : Event → Registry
  | .add uuid =>
    { container := if (r.container uuid).isSome then r.container
        else update r.container uuid (some r.made)
      made := r.made + 1 }
  | .remove uuid => { r with container := update r.container uuid none }
  | .ack _ _ => r

variable (events : List Event)

def registryAfter : Registry := run registryStep ⟨fun _ => none, 0⟩ events

def acknowledged (now : Double) (container : Option ℕ) (s : State) : State :=
  match container with
  | some p => setReceivedAt now s p
  | none => s

def handlerMap (container : Uuid → Option ℕ) : Key → Option Treeval
  | .uuid u => (container u).map .void
  | _ => none

structure Registered (s : State) (r : Registry) : Prop where
  tree : Represents s.handlers.root (handlerMap r.container)
  attr : s.handlers.attr = ⟨false, false⟩
  owner : ∀ u p, r.container u = some p → ∃ c, s.containers p = some c ∧ c.uuid = u
  fresh : s.fresh = r.made
  lt_fresh : ∀ u p, r.container u = some p → p < s.fresh

variable {s : State} {r : Registry}

lemma handlerMap_update (container : Uuid → Option ℕ) (u : Uuid) (p : Option ℕ) :
    handlerMap (update container u p) = update (handlerMap container) (.uuid u) (p.map .void) := by
  funext key
  by_cases hk : key = .uuid u
  · subst hk
    simp [handlerMap]
  · rw [update_of_ne hk]
    cases key with
    | uuid v =>
      have hv : v ≠ u := fun h => hk (h ▸ rfl)
      simp [handlerMap, update_of_ne hv]
    | _ => rfl

lemma Registered.key_eq (h : Registered s r) {key : Key} {val : Treeval}
    (hmem : (key, val) ∈ entries s.handlers.root) :
    ∃ u p, key = .uuid u ∧ val = .void p ∧ r.container u = some p := by
  have hm := (h.tree.mem_iff key val).1 hmem
  cases key with
  | uuid u =>
    obtain ⟨p, hp, rfl⟩ := map_eq_some_iff.1 hm
    exact ⟨u, p, rfl, rfl, hp⟩
  | _ => cases hm

lemma Registered.agrees (h : Registered s r) (u : Uuid) :
    Agrees elemCmp (.uuid u) s.handlers.root := by
  apply agrees_of_entries
  rintro ⟨key, val⟩ hmem
  obtain ⟨v, p, rfl, -, -⟩ := h.key_eq hmem
  exact signAgrees_uuid u v

lemma Registered.find (h : Registered s r) (u : Uuid) :
    treeFindUuid s.handlers u = (r.container u).map .void :=
  h.tree.find (h.agrees u)

lemma registered_start : Registered ⟨treeCreate, fun _ => none, 0⟩ ⟨fun _ => none, 0⟩ where
  tree := by
    have hmap : handlerMap (fun _ => none) = fun _ => none := by
      funext key
      cases key <;> rfl
    rw [hmap]
    exact represents_nil
  attr := rfl
  owner := by simp
  fresh := rfl
  lt_fresh := by simp

variable {u : Uuid}

lemma forall_update {container : Uuid → Option ℕ} {q : ℕ} {P : Uuid → ℕ → Prop}
    (hold : ∀ v p, container v = some p → P v p) (hnew : P u q) :
    ∀ v p, update container u (some q) v = some p → P v p := by
  intro v p hp
  by_cases hv : v = u
  · subst hv
    rw [update_self, some.injEq] at hp
    exact hp ▸ hnew
  · rw [update_of_ne hv] at hp
    exact hold v p hp

section

variable (h : Registered s r)
include h

lemma add_registered (u : Uuid) :
    ∃ s', addResponseHandler s u = .ok s' ∧ Registered s' (registryStep r (.add u)) := by
  have hfind := h.find u
  have ho : ∀ v p, r.container v = some p → ∃ c,
      update s.containers s.fresh (some ⟨u, ⟨0⟩⟩) p = some c ∧ c.uuid = v := by
    intro v p hp
    rw [update_of_ne (Nat.ne_of_lt (h.lt_fresh v p hp))]
    exact h.owner v p hp
  cases hc : r.container u with
  | some p =>
    rw [hc] at hfind
    refine ⟨⟨s.handlers, update s.containers s.fresh (some ⟨u, ⟨0⟩⟩), s.fresh + 1⟩, ?_, ?_⟩
    · simp only [addResponseHandler, responseHandlerSet, hfind, map_some]
    · simp only [registryStep, hc, isSome_some, if_true]
      exact ⟨h.tree, h.attr, ho, by rw [h.fresh],
        fun v q hq => Nat.lt_succ_of_lt (h.lt_fresh v q hq)⟩
  | none =>
    rw [hc] at hfind
    have hnone : treeFindElem s.handlers (.uuid u) = none := map_eq_none_iff.1 hfind
    obtain ⟨root, hroot, hrep, -⟩ := h.tree.insert (h.agrees u) hnone (.void s.fresh)
    have hset : treeSetTreeval s.handlers (.void s.fresh) = .ok (.void s.fresh) := by
      rw [treeSetTreeval, h.attr]
      rfl
    have hins := treeInsert_absent hnone hset (by rw [h.attr]) hroot
    refine ⟨⟨⟨root, s.handlers.size + 1, s.handlers.byteSize + elementGetByteSize (.uuid u)
      (.void s.fresh), s.handlers.attr⟩, update s.containers s.fresh (some ⟨u, ⟨0⟩⟩),
      s.fresh + 1⟩, ?_, ?_⟩
    · simp only [addResponseHandler, responseHandlerSet, hfind, map_none, treeInsertUuid, hins]
      rfl
    · have hstep : registryStep r (.add u) =
          ⟨update r.container u (some s.fresh), r.made + 1⟩ := by
        simp [registryStep, hc, h.fresh]
      rw [hstep]
      refine ⟨?_, h.attr, ?_, by rw [h.fresh], ?_⟩
      · rw [handlerMap_update]
        exact hrep
      · exact forall_update ho ⟨_, update_self .., rfl⟩
      · exact forall_update (fun v p hp => Nat.lt_succ_of_lt (h.lt_fresh v p hp))
          (Nat.lt_succ_self s.fresh)

lemma remove_registered (u : Uuid) :
    ∃ s', removeResponseHandler s u = .ok s' ∧ Registered s' (registryStep r (.remove u)) := by
  have hkeep : ∀ v p, update r.container u none v = some p → r.container v = some p := by
    intro v p hp
    by_cases hv : v = u
    · subst hv
      rw [update_self] at hp
      cases hp
    · rwa [update_of_ne hv] at hp
  cases hf : treeFindElem s.handlers (.uuid u) with
  | none =>
    refine ⟨s, ?_, ?_⟩
    · rw [removeResponseHandler, treeDelUuid, treeDel_absent hf (by rw [h.attr])]
      rfl
    · have hfind := h.find u
      rw [treeFindUuid, treeFind, hf] at hfind
      have hnone : r.container u = none := map_eq_none_iff.1 hfind.symm
      rw [registryStep, ← hnone, update_eq_self]
      exact h
  | some f =>
    obtain ⟨root, hroot, hrep, -⟩ := h.tree.remove (h.agrees u) hf
    refine ⟨⟨⟨root, s.handlers.size - 1, s.handlers.byteSize - elementGetByteSize f.key f.val,
      s.handlers.attr⟩, s.containers, s.fresh⟩, ?_, ?_, h.attr, ?_, h.fresh, ?_⟩
    · rw [removeResponseHandler, treeDelUuid, treeDel_found hf (by rw [h.attr]) hroot]
      rfl
    · rw [registryStep, handlerMap_update]
      exact hrep
    · exact fun v p hp => h.owner v p (hkeep v p hp)
    · exact fun v p hp => h.lt_fresh v p (hkeep v p hp)

lemma setReceivedAt_registered (now : Double) (p : ℕ) : Registered (setReceivedAt now s p) r where
  tree := h.tree
  attr := h.attr
  owner v q hq := by
    obtain ⟨c, hc, hv⟩ := h.owner v q hq
    by_cases hp : q = p
    · subst hp
      exact ⟨{ c with receivedAt := now }, by simp [setReceivedAt, hc], hv⟩
    · exact ⟨c, by simp [setReceivedAt, update_of_ne hp, hc], hv⟩
  fresh := h.fresh
  lt_fresh := h.lt_fresh

lemma inAck_registered (now : Double) (body : Option NpTree) :
    Registered (inAck now body s).2 r := by
  unfold inAck
  split
  · exact h
  · split
    · exact h
    · split
      · exact setReceivedAt_registered h now _
      · exact h

end

def Reached (res : Except Fault State) : Prop :=
  ∃ s, res = .ok s ∧ Registered s (registryAfter events)

lemma step_reached (res : Except Fault State) (e : Event)
    (h : Reached events res) : Reached (events ++ [e]) (step res e) := by
  obtain ⟨s, rfl, hreg⟩ := h
  rw [Reached, registryAfter, run_concat]
  cases e with
  | add u => exact add_registered hreg u
  | remove u => exact remove_registered hreg u
  | ack now body => exact ⟨_, rfl, inAck_registered hreg now body⟩

lemma reached : Reached events (run step start events) :=
  run_inv_always Reached ⟨_, rfl, registered_start⟩ step_reached events

lemma findStr_root (key : CString) (c : Color) (l right : Node Key Treeval) (u : Uuid)
    (val : Treeval) (size byteSize : ℕ) (attr : TreeConf) :
    treeFindStr ⟨.node c l (.uuid u) val right, size, byteSize, attr⟩ key = some val := rfl

def Names (body : NpTree) (u : Uuid) : Prop :=
  treeFindStr body responseUuid = some (.bin ⟨u.bytes, by rw [u.length_eq]; decide⟩)

def rootKey : Node Key Treeval → Option Key
  | .nil => none
  | .node _ _ key _ _ => some key

lemma exists_ne (d : Double) : ∃ now, now ≠ d := by
  by_cases h : d = ⟨0⟩
  · subst h
    exact ⟨⟨1⟩, by decide⟩
  · exact ⟨⟨0⟩, fun h' => h h'.symm⟩

lemma inAck_empty (hroot : s.handlers.root = .nil) {body : NpTree} (hb : Names body u)
    (now : Double) : (inAck now (some body) s).2 = s := by
  have hfind (key : CString) : treeFindStr s.handlers key = none := by
    rw [treeFindStr, treeFind, treeFindElem, hroot]
    rfl
  rw [Names] at hb
  simp only [inAck, hb, hfind]

lemma Registered.inAck_root (h : Registered s r) {key : Key}
    (hroot : rootKey s.handlers.root = some key) {body : NpTree} (hb : Names body u)
    (now : Double) : ∃ v p, key = .uuid v ∧ r.container v = some p ∧
      (inAck now (some body) s).2 = setReceivedAt now s p := by
  obtain ⟨⟨root, size, byteSize, attr⟩, containers, fresh⟩ := s
  cases root with
  | nil => cases hroot
  | node c l k val right =>
    have hmem : (k, val) ∈ entries (.node c l k val right) := by simp [entries]
    obtain ⟨v, p, rfl, rfl, hp⟩ := h.key_eq hmem
    cases hroot
    refine ⟨v, p, rfl, hp, ?_⟩
    rw [Names] at hb
    simp only [inAck, hb, findStr_root]

/-- After any calls, an acknowledgement for `u` reaches the container registered under `u` and no
other exactly if the tree of response handlers is empty or has `u` at its root. -/
theorem ack_reaches_own_container_iff (events : List Event) (body : NpTree) (u : Uuid)
    (hbody : Names body u) :
    ∃ s, run step start events = .ok s ∧
      ((∀ now, (inAck now (some body) s).2 =
          acknowledged now ((registryAfter events).container u) s) ↔
        s.handlers.root = .nil ∨ rootKey s.handlers.root = some (.uuid u)) := by
  obtain ⟨s, hs, h⟩ := reached events
  refine ⟨s, hs, ?_⟩
  constructor
  · intro hall
    cases hroot : rootKey s.handlers.root with
    | none =>
      revert hroot
      cases s.handlers.root <;> simp [rootKey]
    | some key =>
      right
      -- at a time its container does not carry yet, the root is seen to be the one acknowledged
      obtain ⟨v, p, rfl, hp, -⟩ := h.inAck_root hroot hbody ⟨0⟩
      obtain ⟨c, hc, hv⟩ := h.owner v p hp
      obtain ⟨now, hnow⟩ := exists_ne c.receivedAt
      obtain ⟨v', p', hkey, hp', hack⟩ := h.inAck_root hroot hbody now
      cases hkey
      obtain rfl : p = p' := some.inj (hp.symm.trans hp')
      have heq := congrArg (fun t => State.containers t p) (hack.symm.trans (hall now))
      cases hu : (registryAfter events).container u with
      | none =>
        simp only [hu, acknowledged, setReceivedAt, update_self, hc, map_some, some.injEq] at heq
        exact absurd (congrArg Responsecontainer.receivedAt heq) hnow
      | some q =>
        by_cases hq : p = q
        · subst hq
          obtain ⟨c', hc', hu'⟩ := h.owner u p hu
          rw [hc, some.injEq] at hc'
          rw [← hv, ← hu', hc']
        · simp only [hu, acknowledged, setReceivedAt, update_self,
            update_of_ne hq, hc, map_some, some.injEq] at heq
          exact absurd (congrArg Responsecontainer.receivedAt heq) hnow
  · rintro (hnil | hroot) now
    · have hnone : (registryAfter events).container u = none := by
        have hfind := h.find u
        rw [treeFindUuid, treeFind, treeFindElem, hnil] at hfind
        exact map_eq_none_iff.1 hfind.symm
      rw [inAck_empty hnil hbody, hnone]
      rfl
    · obtain ⟨v, p, hkey, hp, hack⟩ := h.inAck_root hroot hbody now
      cases hkey
      rw [hack, hp]
      rfl

def ackBody (u : Uuid) : NpTree :=
  ⟨.node .black .nil (.str responseUuid) (.bin ⟨u.bytes, by rw [u.length_eq]; decide⟩) .nil, 1, 36,
    ⟨false, false⟩⟩

def sampleUuid (c : UInt8) : Uuid := ⟨List.replicate 16 c, by simp⟩

theorem ack_reaches_only_container :
    ∃ s, run step start [.add (sampleUuid 1)] = .ok s ∧
      ((∀ now, (inAck now (some (ackBody (sampleUuid 1))) s).2 =
          acknowledged now ((registryAfter [.add (sampleUuid 1)]).container (sampleUuid 1)) s) ↔
        s.handlers.root = .nil ∨ rootKey s.handlers.root = some (.uuid (sampleUuid 1))) :=
  ack_reaches_own_container_iff [.add (sampleUuid 1)] (ackBody (sampleUuid 1)) (sampleUuid 1) rfl

/-- The acknowledgement of the second of two messages is taken for the first. -/
theorem ack_reaches_other_container :
    ∃ s, run step start [.add (sampleUuid 1), .add (sampleUuid 2)] = .ok s ∧
      (inAck ⟨7⟩ (some (ackBody (sampleUuid 2))) s).2.containers 0 = some ⟨sampleUuid 1, ⟨7⟩⟩ ∧
      (inAck ⟨7⟩ (some (ackBody (sampleUuid 2))) s).2.containers 1 = some ⟨sampleUuid 2, ⟨0⟩⟩ :=
  ⟨_, rfl, rfl, rfl⟩

end Neuropil.Response.Acknowledge
