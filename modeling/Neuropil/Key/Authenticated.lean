import Neuropil.Key.Conditions

namespace Neuropil.Key.Authenticated

open Lib.Run Lib.Statechart Key.Conditions
open Dhkey (ofWord)

structure Delivery where
  event : Event
  view : View

def meets (d : Delivery) : Condition → Bool := holds d.view d.event

abbrev KeyCall := Call KeyState Condition Action Delivery

def keyAfter (steps : List (Step Delivery)) : Machine KeyState Condition Action Delivery :=
  run (move transitions meets) (start .unused) steps

def messageActions : List Action :=
  [.aliasDecrypt, .handleNpMessage, .handleUsrMsg, .handlePheromone, .handleNpDiscovery,
    .handleNpForward]

def JoinsOrLeaves (d : Delivery) : Prop :=
  ∃ part, d.event.userData = .messagePart part ∧
    (part.subject = d.view.subjectOf .joinRequest ∨ part.subject = d.view.subjectOf .leaveRequest)

lemma promoted_by_authn (s : KeyState) (hs : s ≠ .inUseAlias) :
    ∀ t ∈ transitions s, t.target = .inUseAlias → t.condition = .isNodeAuthn := by
  cases s <;> simp [transitions] at hs ⊢

lemma message_action_cases {s : KeyState} (hs : s ≠ .inUseAlias) {t : KeyTransition}
    (ht : t ∈ transitions s) (hmessage : t.action ∈ messageActions) :
    t.action = .aliasDecrypt ∨ (t.action = .handleNpMessage ∧ t.condition = .isJoinInMessage) := by
  revert t
  cases s <;> simp [transitions, messageActions] at hs ⊢

lemma joinsOrLeaves_of_condition {d : Delivery} (h : meets d .isJoinInMessage = true) :
    JoinsOrLeaves d := by
  obtain ⟨part, hpart, hsub⟩ := (Option.any_eq_true _ _).1 h
  refine ⟨part, ?_, ?_⟩
  · unfold partIn at hpart
    split at hpart
    · split at hpart
      · rename_i p hp
        cases hpart
        exact hp
      · cases hpart
    · cases hpart
  · simp only [Bool.and_eq_true, Bool.or_eq_true, decide_eq_true_eq] at hsub
    exact hsub.2

/-- What a peer sends is handled only after an internal event with an authenticated token. Before,
it is decrypted, and joins and leaves are passed on. -/
theorem parts_handled_after_authn (steps : List (Step Delivery)) {before after : List KeyCall}
    {c : KeyCall} (h : (keyAfter steps).calls = before ++ c :: after)
    (hmessage : c.taken.action ∈ messageActions) :
    (∃ a ∈ before, isNodeAuthn a.event.event = true) ∨ c.taken.action = .aliasDecrypt ∨
      (c.taken.action = .handleNpMessage ∧ JoinsOrLeaves c.event) := by
  have he : Entered transitions meets .inUseAlias .isNodeAuthn (keyAfter steps) :=
    entered_run promoted_by_authn (by decide) steps
  obtain ⟨hmem, hcond⟩ := he.taken c (by simp [h])
  by_cases hs : c.source = .inUseAlias
  · exact .inl (he.calls before c after h hs)
  · obtain hd | ⟨hnp, hj⟩ := message_action_cases hs hmem hmessage
    · exact .inr (.inl hd)
    · rw [hj] at hcond
      exact .inr (.inr ⟨hnp, joinsOrLeaves_of_condition hcond⟩)

def plainView : View where
  dhkey := ofWord 1
  keyType := keyTypeAlias
  hasNode := true
  isInLeafset := true
  isInRoutingTable := false
  token := none
  badLink := false
  inGracetime := true
  idle := false
  parentMissing := false
  now := 0
  myNodeKey := ofWord 2
  subjectOf := fun _ => ofWord 3
  userProperty := fun subject => decide (subject = ofWord 4)
  other := fun _ => false

def tokenOf (type : UInt32) : Token := ⟨type, ofWord 5, [], ofWord 5, Dhkey.zero, false, true⟩

def deliver (type : UInt32) (userData : UserData) : Step Delivery :=
  .event ⟨⟨ofWord 1, ofWord 1, type, userData⟩, plainView⟩

def userPart : List (Step Delivery) :=
  [deliver (evtExternal ||| evtToken) (.token (tokenOf tokenHandshake)), .finish,
    deliver (evtInternal ||| evtToken ||| evtAuthn) (.token (tokenOf tokenNode)), .finish,
    deliver (evtExternal ||| evtMessage) (.messagePart ⟨ofWord 4, ofWord 2, 0, 1⟩)]

lemma userPart_handled : ((keyAfter userPart).calls.map fun c => c.taken.action) =
      [.aliasSet, .nodeUpgrade, .handleUsrMsg] := by
  decide +kernel

theorem userPart_after_authn :
    ∃ before c, (keyAfter userPart).calls = before ++ [c] ∧ c.taken.action = .handleUsrMsg ∧
      ∃ a ∈ before, isNodeAuthn a.event.event = true := by
  obtain ⟨first, rest, hcls, -, hrest⟩ := List.map_eq_cons_iff.1 userPart_handled
  obtain ⟨second, rest, rfl, -, hrest⟩ := List.map_eq_cons_iff.1 hrest
  obtain ⟨third, rest, rfl, hthird, hrest⟩ := List.map_eq_cons_iff.1 hrest
  cases List.map_eq_nil_iff.1 hrest
  refine ⟨[first, second], third, hcls, hthird, ?_⟩
  have hmes : third.taken.action ∈ messageActions := by
    rw [hthird]
    decide
  have hspl : (keyAfter userPart).calls = [first, second] ++ third :: [] := hcls
  obtain ha | hd | ⟨hnp, -⟩ := parts_handled_after_authn userPart hspl hmes
  · exact ha
  · cases hthird.symm.trans hd
  · cases hthird.symm.trans hnp

end Neuropil.Key.Authenticated
