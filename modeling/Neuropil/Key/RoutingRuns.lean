import Neuropil.Key.Routing
import Neuropil.Lib.Fault

namespace Neuropil.Key.RoutingRuns

open Function Option Lib.Fault Lib.Flags Lib.Run Lib.Statechart Lib.Table
open Route.Membership
open Key.Conditions Key.Routing

def isNode : KeyState → Bool
  | .inSetupNode | .inUseNode => true
  | _ => false

def held (w : World) (d : Dhkey) : Option ℕ :=
  (w.keys d).bind fun k => if isNode k.state then k.nodeinfo else none

def InUse (w : World) (d : Dhkey) : Prop := ∃ k, w.keys d = some k ∧ k.state = .inUseNode

structure Inv (w : World) : Prop where
  route : ModuleInv w.route
  own : Unique (held w)
  flags : ∀ p, InStep (held w) (Member w.route p) fun n => (w.nodes n).flag p
  inUse : ∀ p d, Member w.route p d → InUse w d
  nodes : ∀ d k, w.keys d = some k → isNode k.state → k.nodeinfo.isSome

section

variable {w : World} {d : Dhkey} {n : ℕ} {p q : Place}

lemma flag_mark (m : Node) (b : Bool) : (m.mark b p).flag q = if q = p then b else m.flag q := by
  cases p <;> cases q <;> rfl

lemma flags_mark_self (w : World) (n : ℕ) (b : Bool) (p : Place) :
    (fun m => ((w.mark n b p).nodes m).flag p) = update (fun m => (w.nodes m).flag p) n b := by
  funext m
  by_cases hm : m = n
  · subst hm
    simp [World.mark, flag_mark]
  · simp [World.mark, hm]

lemma flag_mark_of_ne (w : World) (n : ℕ) (b : Bool) (hq : q ≠ p) (m : ℕ) :
    ((w.mark n b p).nodes m).flag q = (w.nodes m).flag q := by
  by_cases hm : m = n
  · subst hm
    simp [World.mark, flag_mark, hq]
  · simp [World.mark, hm]

lemma held_eq_some_iff :
    held w d = some n ↔ ∃ k, w.keys d = some k ∧ isNode k.state = true ∧ k.nodeinfo = some n := by
  simp [held, bind_eq_some_iff]

lemma held_congr {w' : World} (h : w'.keys = w.keys) : held w' = held w := by
  funext d
  rw [held, held, h]

lemma getNode_of_held (h : held w d = some n) : getNode w d = .ok n := by
  obtain ⟨k, hk, _, hn⟩ := held_eq_some_iff.1 h
  simp only [getNode, hk, hn]

lemma setFlag_of_held (b : Bool) (h : held w d = some n) :
    setFlag p b w (some d) = .ok (w.mark n b p) := by
  rw [setFlag, getNode_of_held h, ok_bind]
  rfl

lemma Inv.exists_held (h : Inv w) {k : NodeKey} (hk : w.keys d = some k)
    (hnode : isNode k.state = true) : ∃ n, held w d = some n := by
  obtain ⟨n, hn⟩ := isSome_iff_exists.1 (h.nodes d k hk hnode)
  exact ⟨n, held_eq_some_iff.2 ⟨k, hk, hnode, hn⟩⟩

lemma Inv.exists_held_of_inUse (h : Inv w) (hd : InUse w d) : ∃ n, held w d = some n := by
  obtain ⟨k, hk, hs⟩ := hd
  exact h.exists_held hk (by rw [hs]; rfl)

lemma Inv.of_place (h : Inv w) {w' : World} (p : Place) (hkeys : w'.keys = w.keys)
    (hroute : ModuleInv w'.route)
    (hp : InStep (held w) (Member w'.route p) fun n => (w'.nodes n).flag p)
    (hmem : ∀ q ≠ p, Member w'.route q = Member w.route q)
    (hflag : ∀ q ≠ p, ∀ n, (w'.nodes n).flag q = (w.nodes n).flag q)
    (hin : ∀ x, Member w'.route p x → InUse w x) : Inv w' where
  route := hroute
  own := by
    rw [held_congr hkeys]
    exact h.own
  flags q := by
    rw [held_congr hkeys]
    by_cases hq : q = p
    · subst hq
      exact hp
    · rw [hmem q hq]
      simp only [hflag q hq]
      exact h.flags q
  inUse q x hx := by
    rw [InUse, hkeys]
    by_cases hq : q = p
    · subst hq
      exact hin x hx
    · exact h.inUse q x (hmem q hq ▸ hx)
  nodes := by
    rw [hkeys]
    exact h.nodes

variable (lat : Route.Table.Latency)

lemma addTo_inv (h : Inv w) (hd : InUse w d)
    (hn : held w d = some n) (hflag : (w.nodes n).flag p = false) :
    ∃ w', addTo p lat d w = .ok w' ∧ Inv w' ∧ w'.keys = w.keys := by
  have hnot : ¬ Member w.route p d := by
    rw [← (h.flags p).flag_iff h.own hn, hflag]
    exact Bool.false_ne_true
  obtain ⟨⟨route, added, deleted⟩, hout, hroute, hj, hsame⟩ := updateAt_joins lat h.route hnot
  let w1 : World := { w with route := route }
  have hadd : addTo p lat d w =
      (setFlag p true w1 added >>= fun w2 => setFlag p false w2 deleted) := by
    simp only [addTo, updateRoute, hout, Except.mapError, ok_bind]
    rfl
  rw [hadd]
  cases hj with
  | same hmem =>
    refine ⟨w1, rfl, h.of_place p rfl hroute ?_ hsame (fun _ _ _ => rfl) ?_, rfl⟩
    · exact (h.flags p).congr (fun _ _ => rfl) hmem
    · exact fun x hx => h.inUse p x ((hmem x).1 hx)
  | added hmem =>
    refine ⟨w1.mark n true p, ?_, h.of_place p rfl hroute ?_ hsame ?_ ?_, rfl⟩
    · rw [setFlag_of_held true (w := w1) hn, ok_bind]
      rfl
    · rw [flags_mark_self]
      exact (h.flags p).add hn hmem
    · exact fun q hq m => flag_mark_of_ne w1 n true hq m
    · intro x hx
      obtain rfl | hx := (hmem x).1 hx
      · exact hd
      · exact h.inUse p x hx
  | replaced z hne hz hmem =>
    obtain ⟨m, hm⟩ := isSome_iff_exists.1 ((h.flags p).item z hz)
    refine ⟨(w1.mark n true p).mark m false p, ?_, h.of_place p rfl hroute ?_ hsame ?_ ?_, rfl⟩
    · rw [setFlag_of_held true (w := w1) hn, ok_bind]
      exact setFlag_of_held false (w := w1.mark n true p) hm
    · rw [flags_mark_self, flags_mark_self]
      exact ((h.flags p).add hn fun _ => Iff.rfl).drop h.own hm hmem
    · intro q hq m'
      rw [flag_mark_of_ne _ _ _ hq, flag_mark_of_ne _ _ _ hq]
    · intro x hx
      obtain rfl | hx := ((hmem x).1 hx).2
      · exact hd
      · exact h.inUse p x hx

lemma removeFrom_inv (p : Place) (h : Inv w) (hn : held w d = some n) :
    ∃ w', removeFrom p lat d w = .ok w' ∧ Inv w' ∧ w'.keys = w.keys ∧ ¬ Member w'.route p d ∧
      ∀ q ≠ p, Member w'.route q = Member w.route q := by
  have hiff := (h.flags p).flag_iff h.own hn
  by_cases hmem : Member w.route p d
  · obtain ⟨route, hout, hroute, hleft, hsame⟩ := updateAt_leaves lat h.route hmem
    let w1 : World := { w with route := route }
    refine ⟨w1.mark n false p, ?_, h.of_place p rfl hroute ?_ hsame ?_ ?_, rfl, ?_, hsame⟩
    · simp only [removeFrom, getNode_of_held hn, ok_bind, hiff.2 hmem, if_true, updateRoute, hout,
        Except.mapError, Option.isSome_none, Bool.false_eq_true, and_false, if_false]
      exact setFlag_of_held false (w := w1) hn
    · rw [flags_mark_self]
      exact (h.flags p).drop h.own hn hleft
    · exact fun q hq m => flag_mark_of_ne w1 n false hq m
    · exact fun x hx => h.inUse p x ((hleft x).1 hx).2
    · exact fun hd => ((hleft d).1 hd).1 rfl
  · refine ⟨w, ?_, h, rfl, hmem, fun _ _ => rfl⟩
    simp only [removeFrom, getNode_of_held hn, ok_bind, mt hiff.1 hmem]
    rfl

lemma nodeRemoveFromRouting_inv (h : Inv w) (hd : InUse w d) :
    ∃ w', nodeRemoveFromRouting lat d w = .ok w' ∧ Inv w' ∧ w'.keys = w.keys ∧
      ∀ p, ¬ Member w'.route p d := by
  obtain ⟨n, hn⟩ := h.exists_held_of_inUse hd
  obtain ⟨w1, hw1, hinv1, hk1, hl1, _⟩ := removeFrom_inv lat .leafset h hn
  have hn1 : held w1 d = some n := by rwa [held_congr hk1]
  obtain ⟨w2, hw2, hinv2, hk2, hl2, hsame⟩ := removeFrom_inv lat .routingTable hinv1 hn1
  refine ⟨w2, ?_, hinv2, hk2.trans hk1, ?_⟩
  · rw [nodeRemoveFromRouting, hw1, ok_bind, hw2]
  · rintro (_ | _)
    · rw [hsame .leafset nofun]
      exact hl1
    · exact hl2

lemma nodeAddToLeafset_inv (h : Inv w) (hd : InUse w d) :
    ∃ w', nodeAddToLeafset lat d w = .ok w' ∧ Inv w' ∧ w'.keys = w.keys := by
  obtain ⟨n, hn⟩ := h.exists_held_of_inUse hd
  simp only [nodeAddToLeafset, getNode_of_held hn, ok_bind]
  by_cases hflag : (w.nodes n).isInLeafset = false
  · rw [if_pos hflag]
    exact addTo_inv lat h hd hn hflag
  · rw [if_neg hflag]
    exact ⟨w, rfl, h, rfl⟩

lemma nodeUpdate_inv (reads : Reads) (h : Inv w) (hd : InUse w d) :
    ∃ w', nodeUpdate reads d w = .ok w' ∧ Inv w' ∧ w'.keys = w.keys := by
  obtain ⟨n, hn⟩ := h.exists_held_of_inUse hd
  unfold nodeUpdate
  split_ifs with hown
  · exact ⟨w, rfl, h, rfl⟩
  simp only [getNode_of_held hn, ok_bind]
  -- the second part works on what the first one left
  have hsec : ∀ w1, Inv w1 → w1.keys = w.keys → ∃ w',
      (if reads.successWin = 0 ∧ (w1.nodes n).isInRoutingTable ∧ reads.weakLink then
        removeFrom .routingTable reads.lat d w1 else pure w1) = .ok w' ∧ Inv w' ∧
      w'.keys = w.keys := by
    intro w1 hinv hkeys
    split_ifs
    · have hn1 : held w1 d = some n := by rwa [held_congr hkeys]
      obtain ⟨w2, hw2, hinv2, hk2, _⟩ := removeFrom_inv reads.lat .routingTable hinv hn1
      exact ⟨w2, hw2, hinv2, hk2.trans hkeys⟩
    · exact ⟨w1, rfl, hinv, hkeys⟩
  split_ifs with hj
  · obtain ⟨w1, hw1, hinv1, hk1⟩ := addTo_inv (p := .routingTable) reads.lat h hd hn hj.1
    rw [hw1, ok_bind]
    exact hsec w1 hinv1 hk1
  · exact hsec w h rfl

def put (w : World) (d : Dhkey) (k : Option NodeKey) : World := { w with keys := update w.keys d k }

lemma setNode_eq_put {k : NodeKey} (h : w.keys d = some k) (node : Option ℕ) :
    setNode w d node = put w d (some { k with nodeinfo := node }) := by
  rw [setNode, h]
  rfl

lemma setState_eq_put {k : NodeKey} (h : w.keys d = some k) (s : KeyState) :
    setState d w s = put w d (some { k with state := s }) := by
  rw [setState, h]
  rfl

@[simp]
lemma put_keys_self (w : World) (d : Dhkey) (k : Option NodeKey) : (put w d k).keys d = k :=
  update_self _ _ _

@[simp]
lemma put_put (w : World) (d : Dhkey) (k l : Option NodeKey) :
    put (put w d k) d l = put w d l := by
  simp [put]

lemma held_put (w : World) (d : Dhkey) (k : Option NodeKey) : held (put w d k) =
      update (held w) d (k.bind fun k => if isNode k.state then k.nodeinfo else none) := by
  funext x
  by_cases hx : x = d
  · subst hx
    simp [held, put]
  · simp [held, put, hx]

lemma Inv.put (h : Inv w) (k : Option NodeKey) (hnot : ∀ p, ¬ Member w.route p d)
    (hown : ∀ l, k = some l → isNode l.state = true →
      ∃ n, l.nodeinfo = some n ∧ ∀ x ≠ d, held w x ≠ some n) : Inv (put w d k) where
  route := h.route
  own := by
    rw [held_put]
    refine h.own.update d fun n x hn hx => ?_
    obtain ⟨l, hl, hinfo⟩ := bind_eq_some_iff.1 hn
    split_ifs at hinfo with hnode
    obtain ⟨m, hm, hfree⟩ := hown l hl hnode
    cases hm.symm.trans hinfo
    exact hfree x hx
  flags p := by
    rw [held_put]
    refine (h.flags p).congr (fun x hx => ?_) fun _ => Iff.rfl
    have hxd : x ≠ d := fun he => hnot p (he ▸ hx)
    exact update_of_ne hxd _ _
  inUse p x hx := by
    have hxd : x ≠ d := fun he => hnot p (he ▸ hx)
    obtain ⟨l, hl, hs⟩ := h.inUse p x hx
    exact ⟨l, by simpa [RoutingRuns.put, hxd] using hl, hs⟩
  nodes x l hl hnode := by
    by_cases hxd : x = d
    · subst hxd
      rw [put_keys_self] at hl
      obtain ⟨n, hn, _⟩ := hown l hl hnode
      rw [hn]
      rfl
    · exact h.nodes x l (by simpa [RoutingRuns.put, hxd] using hl) hnode

lemma Inv.not_member (h : Inv w) {k : NodeKey} (hk : w.keys d = some k)
    (hs : k.state ≠ .inUseNode) (p : Place) : ¬ Member w.route p d := by
  intro hmem
  obtain ⟨l, hl, hl'⟩ := h.inUse p d hmem
  rw [hk, some.injEq] at hl
  exact hs (hl ▸ hl')

end

variable {s : KeyState}

section

def setsUp : Action → Bool
  | .wildcardSet | .nodeSetNode | .nodeSet => true
  | _ => false

def quiet : Action → Bool
  | .wildcardSet | .nodeSetNode | .nodeSet | .createClientNetwork | .nodeAddToLeafset | .nodeUpdate
  | .nodeSendShutdown | .nodeSendShutdownEvent | .keyDestroy => false
  | _ => true

lemma transition_cases {t : KeyTransition} (ht : t ∈ transitions s) :
    (t.target = s ∧ quiet t.action) ∨
    (s = .unused ∧ setsUp t.action ∧ (t.target = .inSetupNode ∨ t.target = .inSetupWildcard)) ∨
    (s = .inSetupNode ∧ quiet t.action ∧ t.target = .inUseNode) ∨
    (s ≠ .inUseNode ∧ quiet t.action ∧ isNode t.target = false ∧
      t.target ≠ .inSetupWildcard ∧ t.target ≠ s) ∨
    (s = .inUseNode ∧ t.action = .nodeUpdate ∧ t.target = s) ∨
    (s = .inUseNode ∧ t.action = .nodeSendShutdown ∧ (t.target = s ∨ t.target = .inDestroy)) ∨
    (s = .inUseNode ∧ t.action = .nodeSendShutdownEvent ∧ t.target = s) := by
  revert t
  cases s <;> decide

lemma quiet_onExit (s : KeyState) : quiet (onExit s) = true := by
  cases s <;> rfl

variable {w : World} {i : Delivery} {e : Event} {k : NodeKey} {t : KeyTransition}
  {deliver : World → Event → Except Fault World}

lemma act_quiet {a : Action} (h : quiet a = true) : act deliver i w a = .ok w := by
  cases a <;> first | rfl | cases h

lemma act_setsUp {a : Action} (h : setsUp a = true) :
    act deliver i w a = .ok (setNode w i.key i.node) := by
  cases a <;> first | rfl | cases h

section

variable (hk : w.keys i.key = some k)
include hk

lemma selected_eq_some (h : selected w i e = some t) : t ∈ transitions k.state := by
  rw [selected, hk] at h
  exact (select_eq_some h).1

lemma invoke_of_move (hsel : selected w i e = some t)
    {w1 : World} (ha : act deliver i w t.action = .ok w1) (hne : t.target ≠ k.state)
    {l : NodeKey} (hl : w1.keys i.key = some l) (hs : l.state = k.state) : invoke deliver i w e =
      act deliver i (put w1 i.key (some { l with state := t.target })) (onEnter t.target) := by
  have hcur : stateOf i.key w1 = some k.state := by rw [stateOf, hl, map_some, hs]
  simp only [invoke, hk, hsel]
  rw [take_of_move hne ha (act_quiet (quiet_onExit k.state)) hcur, setState_eq_put hl]

lemma invoke_of_stay (hsel : selected w i e = some t)
    (hs : t.target = k.state) : invoke deliver i w e = act deliver i w t.action := by
  simp only [invoke, hk, hsel]
  exact take_of_stay hs

end

/-- The node that an event gives to the key it sets up is not the node of a node key. -/
def OwnNode (s : Except Fault World) : Step → Prop
  | .create _ => True
  | .deliver i => ∀ w t, s = .ok w → selected w i i.event = some t → setsUp t.action = true →
      ∃ n, i.node = some n ∧ ∀ x, held w x ≠ some n

lemma enter_left (deliver : World → Event → Except Fault World) (i : Delivery)
    (hnode : isNode s = false) (hw : s ≠ .inSetupWildcard) :
    (∀ w, act deliver i w (onEnter s) = .ok w) ∨
      ∀ w, act deliver i w (onEnter s) = .ok (put w i.key none) := by
  cases s with
  | inSetupNode | inUseNode => cases hnode
  | inSetupWildcard => exact absurd rfl hw
  | inDestroy => exact .inr fun w => rfl
  | _ => exact .inl fun w => act_quiet rfl

section

variable (h : Inv w) (hk : w.keys i.key = some k) (hsel : selected w i e = some t)
include h hk hsel

lemma invoke_setUp_inv (hs : k.state = .unused) (ha : setsUp t.action = true)
    (ht : t.target = .inSetupNode ∨ t.target = .inSetupWildcard)
    (hown : ∃ n, i.node = some n ∧ ∀ x, held w x ≠ some n) :
    ∃ w', invoke deliver i w e = .ok w' ∧ Inv w' := by
  obtain ⟨n, hn, hfree⟩ := hown
  have hact : act deliver i w t.action = .ok (setNode w i.key i.node) := act_setsUp ha
  rw [setNode_eq_put hk] at hact
  have hne : t.target ≠ k.state := by
    obtain ht | ht := ht <;> simp [ht, hs]
  have he : onEnter t.target = .createClientNetwork := by
    obtain ht | ht := ht <;> simp [ht, onEnter]
  refine ⟨put w i.key (some ⟨t.target, i.node⟩), ?_, ?_⟩
  · rw [invoke_of_move hk hsel hact hne (put_keys_self _ _ _) rfl, put_put]
    have hget : getNode (put w i.key (some ⟨t.target, i.node⟩)) i.key = .ok n := by
      simp only [getNode, put_keys_self, hn]
    rw [he]
    simp only [act, hget, ok_bind]
    rfl
  · refine h.put _ (h.not_member hk (by simp [hs])) ?_
    rintro l hl _
    cases hl
    exact ⟨n, hn, fun x _ => hfree x⟩

lemma invoke_join_inv (hs : k.state = .inSetupNode) (ha : quiet t.action = true)
    (ht : t.target = .inUseNode) : ∃ w', invoke deliver i w e = .ok w' ∧ Inv w' := by
  obtain ⟨n, hn⟩ := h.exists_held hk (by rw [hs]; rfl)
  have hinv : Inv (put w i.key (some { k with state := .inUseNode })) := by
    refine h.put _ (h.not_member hk (by simp [hs])) ?_
    rintro l hl _
    cases hl
    obtain ⟨k', hk', _, hinfo⟩ := held_eq_some_iff.1 hn
    cases hk.symm.trans hk'
    exact ⟨n, hinfo, fun x hx hh => hx (h.own x i.key n hh hn)⟩
  obtain ⟨w', hw', hinv', _⟩ := nodeAddToLeafset_inv i.reads.lat hinv ⟨_, put_keys_self _ _ _, rfl⟩
  refine ⟨w', ?_, hinv'⟩
  have hne : t.target ≠ k.state := by simp [ht, hs]
  rw [invoke_of_move hk hsel (act_quiet ha) hne hk rfl, ht]
  exact hw'

lemma invoke_leave_inv (hs : k.state ≠ .inUseNode) (ha : quiet t.action = true)
    (ht : isNode t.target = false) (hw : t.target ≠ .inSetupWildcard) (hne : t.target ≠ k.state) :
    ∃ w', invoke deliver i w e = .ok w' ∧ Inv w' := by
  have hnot := h.not_member hk hs
  rw [invoke_of_move hk hsel (act_quiet ha) hne hk rfl]
  obtain he | he := enter_left deliver i ht hw
  · refine ⟨_, he _, h.put _ hnot ?_⟩
    rintro l hl hnode
    cases hl
    rw [ht] at hnode
    cases hnode
  · refine ⟨_, he _, ?_⟩
    rw [put_put]
    exact h.put none hnot nofun

lemma invoke_shutdown_inv (hs : k.state = .inUseNode) (ha : t.action = .nodeSendShutdown)
    (ht : t.target = k.state ∨ t.target = .inDestroy) :
    ∃ w', invoke deliver i w e = .ok w' ∧ Inv w' := by
  obtain ⟨w', hw', hinv, hkeys, hnot⟩ := nodeRemoveFromRouting_inv i.reads.lat h ⟨_, hk, hs⟩
  have hact : act deliver i w t.action = .ok w' := by
    rw [ha]
    exact hw'
  obtain ht | ht := ht
  · exact ⟨w', by rw [invoke_of_stay hk hsel ht, hact], hinv⟩
  · refine ⟨put w' i.key none, ?_, hinv.put none hnot nofun⟩
    have hne : t.target ≠ k.state := by simp [ht, hs]
    rw [invoke_of_move hk hsel hact hne (by rw [hkeys, hk]) rfl, ht, ← put_put w' i.key _ none]
    rfl

end

lemma invoke_inv (h : Inv w)
    (hown : ∀ t, selected w i e = some t → setsUp t.action = true →
      ∃ n, i.node = some n ∧ ∀ x, held w x ≠ some n)
    (hd : InUse w i.key → ∃ w', deliver w (shutdownEvent i.key) = .ok w' ∧ Inv w') :
    ∃ w', invoke deliver i w e = .ok w' ∧ Inv w' := by
  cases hk : w.keys i.key with
  | none => exact ⟨w, by simp only [invoke, hk], h⟩
  | some k =>
    cases hsel : selected w i e with
    | none => exact ⟨w, by simp only [invoke, hk, hsel], h⟩
    | some t =>
      obtain ⟨ht, ha⟩ | ⟨hs, ha, ht⟩ | ⟨hs, ha, ht⟩ | ⟨hs, ha, ht, hw, hne⟩ | ⟨hs, ha, ht⟩ |
        ⟨hs, ha, ht⟩ | ⟨hs, ha, ht⟩ := transition_cases (selected_eq_some hk hsel)
      · rw [invoke_of_stay hk hsel ht, act_quiet ha]
        exact ⟨w, rfl, h⟩
      · exact invoke_setUp_inv h hk hsel hs ha ht (hown t hsel ha)
      · exact invoke_join_inv h hk hsel hs ha ht
      · exact invoke_leave_inv h hk hsel hs ha ht hw hne
      · obtain ⟨w', hw', hinv, _⟩ := nodeUpdate_inv i.reads h ⟨_, hk, hs⟩
        rw [invoke_of_stay hk hsel ht, ha]
        exact ⟨w', hw', hinv⟩
      · exact invoke_shutdown_inv h hk hsel hs ha ht
      · rw [invoke_of_stay hk hsel ht, ha]
        exact hd ⟨_, hk, hs⟩

lemma selected_shutdownEvent (hd : InUse w i.key) : selected w i (shutdownEvent i.key) =
      some ⟨.isShutdownEvent, .nodeSendShutdown, .inUseNode⟩ := by
  obtain ⟨k, hk, hs⟩ := hd
  have hflags : flagCmp (evtInternal ||| evtShutdown) evtShutdown = true ∧
      flagCmp (evtInternal ||| evtShutdown) evtExternal = false := by decide
  have hshut : isShutdownEvent (viewOf w i (shutdownEvent i.key)) (shutdownEvent i.key) = true := by
    simp [isShutdownEvent, shutdownEvent, viewOf, hflags]
  have ho : ∀ c ∈ [.isNpMessagepart, .isNpMessage, .isResponseEvent],
      (viewOf w i (shutdownEvent i.key)).other c = false := by
    intro c hc
    simp only [viewOf, shutdownEvent, hc, decide_true, Bool.and_self, Bool.not_true, Bool.and_false]
  simp [selected, hk, hs, transitions, select, holds, hshut, ho]

lemma handle_inv (h : Inv w)
    (hown : ∀ t, selected w i i.event = some t → setsUp t.action = true →
      ∃ n, i.node = some n ∧ ∀ x, held w x ≠ some n) : ∃ w', handle i w = .ok w' ∧ Inv w' := by
  refine invoke_inv h hown fun hd => ?_
  obtain ⟨w', hw', hinv, _⟩ := nodeRemoveFromRouting_inv i.reads.lat h hd
  refine ⟨w', ?_, hinv⟩
  have hsel := selected_shutdownEvent hd
  obtain ⟨k, hk, hs⟩ := hd
  rw [invoke_of_stay hk hsel hs.symm]
  exact hw'

lemma create_inv (h : Inv w) (d : Dhkey) : Inv (w.create d) := by
  unfold World.create
  split
  · exact h
  · rename_i hnone
    refine h.put _ (fun p hmem => ?_) ?_
    · obtain ⟨k, hk, _⟩ := h.inUse p d hmem
      rw [hnone] at hk
      cases hk
    · rintro l hl hnode
      cases hl
      cases hnode

end

/-- The flags of the nodes tell where their keys are stored, and what is not in the key cache, or
about to leave it, is not stored. -/
structure FlagsMatch (w : World) : Prop where
  leafset : ∀ d k n, w.keys d = some k → isNode k.state = true → k.nodeinfo = some n →
    ((w.nodes n).isInLeafset = true ↔
      d ∈ w.route.leafset.left_leafset ∨ d ∈ w.route.leafset.right_leafset)
  table : ∀ d k n, w.keys d = some k → isNode k.state = true → k.nodeinfo = some n →
    ((w.nodes n).isInRoutingTable = true ↔ ∃ p, w.route.table.table p = some d)
  destroyed : ∀ d, (∀ k, w.keys d = some k → k.state = .inDestroy) →
    d ∉ w.route.leafset.left_leafset ∧ d ∉ w.route.leafset.right_leafset ∧
      ∀ p, w.route.table.table p ≠ some d

lemma flagsMatch_of_inv {w : World} (h : Inv w) : FlagsMatch w where
  leafset d k n hk hnode hn :=
    (h.flags .leafset).flag_iff h.own (held_eq_some_iff.2 ⟨k, hk, hnode, hn⟩)
  table d k n hk hnode hn :=
    (h.flags .routingTable).flag_iff h.own (held_eq_some_iff.2 ⟨k, hk, hnode, hn⟩)
  destroyed d hd := by
    have hnot : ∀ p, ¬ Member w.route p d := by
      intro p hmem
      obtain ⟨k, hk, hs⟩ := h.inUse p d hmem
      rw [hd k hk] at hs
      cases hs
    exact ⟨fun hl => hnot .leafset (.inl hl), fun hr => hnot .leafset (.inr hr),
      fun p hp => hnot .routingTable ⟨p, hp⟩⟩

lemma not_member_init (me : Dhkey) (size : ℕ) (p : Place) (d : Dhkey) :
    ¬ Member (init me size).route p d := by
  cases p with
  | leafset => rintro (hd | hd) <;> cases hd
  | routingTable =>
    rintro ⟨p, hp⟩
    cases hp

lemma inv_init (me : Dhkey) (size : ℕ) : Inv (init me size) where
  route := ⟨Route.LeafsetRuns.inv_init me size, Route.TableRuns.inv_init me⟩
  own d _ _ hd := by cases hd
  flags p := by
    have hflag : (fun n => ((init me size).nodes n).flag p) = fun _ => false := by cases p <;> rfl
    rw [hflag]
    exact .none_member (not_member_init me size p)
  inUse p d hd := absurd hd (not_member_init me size p d)
  nodes d k hk := by cases hk

/-- Whatever events the keys handle, if every node key has its own node, then between two events the
flags of the nodes and the routing module agree. -/
theorem flags_match_routing (me : Dhkey) (size : ℕ) (steps : List Step)
    (hown : Admitted step (.ok (init me size)) OwnNode steps) :
    ∃ w, run step (.ok (init me size)) steps = .ok w ∧ FlagsMatch w := by
  have hrun : ∃ w, run step (.ok (init me size)) steps = .ok w ∧ Inv w := by
    let inv (_ : List Step) (s : Except Fault World) := ∃ w, s = .ok w ∧ Inv w
    refine run_inv inv ⟨_, rfl, inv_init me size⟩ ?_ steps hown
    rintro _ _ a ⟨w, rfl, hw⟩ hok
    cases a with
    | create d => exact ⟨_, rfl, create_inv hw d⟩
    | deliver i => exact handle_inv hw fun t => hok w t rfl
  obtain ⟨w, hw, hinv⟩ := hrun
  exact ⟨w, hw, flagsMatch_of_inv hinv⟩

def joining (d : Dhkey) : List Step :=
  let view : View :=
    ⟨d, 0, false, false, false, none, false, false, false, false, 0, Dhkey.zero,
      fun _ => Dhkey.zero, fun _ => false, fun _ => false⟩
  let reads : Reads := ⟨false, false, 1, true, false, false, ⟨fun _ _ => false, fun _ _ => false⟩⟩
  let token : Token := ⟨tokenNode, d, [], d, d, false, true⟩
  [.create d, .deliver ⟨d, ⟨Dhkey.zero, d, evtInternal, .node true false⟩, view, some 0, reads⟩,
    .deliver ⟨d, ⟨Dhkey.zero, d, evtInternal ||| evtToken ||| evtAuthn, .token token⟩, view, none,
      reads⟩]

lemma setsUp_of_mem {t : KeyTransition} (ht : t ∈ transitions s)
    (ha : setsUp t.action = true) : s = .unused := by
  revert t
  cases s <;> decide

lemma held_create_init (me : Dhkey) (size : ℕ) (d x : Dhkey) :
    held ((init me size).create d) x = none := by
  by_cases hx : x = d <;> simp [held, World.create, init, isNode, hx]

theorem flags_match_joining :
    Admitted step (.ok (init Dhkey.zero 8)) OwnNode (joining (Dhkey.ofWord 1)) ∧
      ∃ w, run step (.ok (init Dhkey.zero 8)) (joining (Dhkey.ofWord 1)) = .ok w ∧
        FlagsMatch w := by
  have hown : Admitted step (.ok (init Dhkey.zero 8)) OwnNode (joining (Dhkey.ofWord 1)) := by
    let before := (joining (Dhkey.ofWord 1)).take 2
    have hst : ((run step (.ok (init Dhkey.zero 8)) before).toOption.any fun w =>
        decide ((w.keys (Dhkey.ofWord 1)).map NodeKey.state = some .inSetupNode)) = true := by
      decide +kernel
    simp only [joining, admitted_cons_iff]
    refine ⟨trivial, ?_, ?_, fun before a hb => by simp at hb⟩
    · rintro w t hw _ _
      cases hw
      refine ⟨0, rfl, fun x hx => ?_⟩
      rw [held_create_init] at hx
      cases hx
    · -- the key is set up already
      rintro w t hw hsel ha
      have hw' : run step (.ok (init Dhkey.zero 8)) before = .ok w := hw
      rw [hw'] at hst
      obtain ⟨k, hk, hs⟩ := map_eq_some_iff.1 (of_decide_eq_true hst)
      have hu := setsUp_of_mem (selected_eq_some hk hsel) ha
      rw [hs] at hu
      cases hu
  exact ⟨hown, flags_match_routing _ _ _ hown⟩

end Neuropil.Key.RoutingRuns
