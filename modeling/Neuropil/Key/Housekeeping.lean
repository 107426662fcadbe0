import Neuropil.Key.Conditions

namespace Neuropil.Key.Housekeeping

open Lib.Statechart Key.Conditions
open Dhkey (ofWord)

def evtNoop : UInt32 := 0x0000

structure NodeView extends View where
  connectionAttempts : UInt8
  -- `created_at + BAD_LINK_REMOVE_GRACETIME > now + NP_PI`
  inLeaveGracetime : Bool
  -- `leave_send_at > join_send_at`
  leaving : Bool

variable (v : NodeView)

/-- What __is_node_invalid finds in a key, after the test of the event. -/
def failing : Bool :=
  flagCmp v.keyType keyTypeUnknown ||
    (!v.inGracetime && (!v.hasNode || decide (15 < v.connectionAttempts) ||
      (!v.isInLeafset && !v.isInRoutingTable) || v.badLink || !v.token.any Token.valid))

/-- What __has_to_leave finds in a key, after the test of the event. -/
def departing : Bool :=
  !flagCmp v.keyType keyTypeNode ||
    (!v.inLeaveGracetime && (!v.hasNode || (!v.isInLeafset && !v.isInRoutingTable) || v.badLink ||
      v.leaving))

def isNodeInvalid (e : Event) : Bool := flagCmp e.type evtNoop && failing v

def hasToLeave (e : Event) : Bool := flagCmp e.type evtNoop && departing v

def nodeHolds (e : Event) : Condition → Bool
  | .isNodeInvalid => isNodeInvalid v e
  | .hasToLeave => hasToLeave v e
  | c => holds v.toView e c

/-- The housekeeping conditions hold for housekeeping events only, and no other event makes a key
take a transition through them. -/
structure HousekeepingOnly (v : NodeView) (e : Event) : Prop where
  invalid : isNodeInvalid v e = true → e.type = evtNoop
  leave : hasToLeave v e = true → e.type = evtNoop
  taken : ∀ s t, select (nodeHolds v e) (transitions s) = some t →
    t.condition = .isNodeInvalid ∨ t.condition = .hasToLeave → e.type = evtNoop

lemma flagCmp_evtNoop (type : UInt32) : flagCmp type evtNoop = true := by
  simp [flagCmp, evtNoop]

lemma isNodeInvalid_eq (e : Event) : isNodeInvalid v e = failing v := by
  rw [isNodeInvalid, flagCmp_evtNoop, Bool.true_and]

lemma hasToLeave_eq (e : Event) : hasToLeave v e = departing v := by
  rw [hasToLeave, flagCmp_evtNoop, Bool.true_and]

/-- Other events are kept away from the housekeeping exactly if the key would not be destroyed or
left anyway. -/
theorem housekeepingOnly_iff (v : NodeView) (e : Event) :
    HousekeepingOnly v e ↔ e.type = evtNoop ∨ (failing v = false ∧ departing v = false) := by
  constructor
  · intro h
    by_cases htype : e.type = evtNoop
    · exact .inl htype
    · refine .inr ⟨Bool.eq_false_iff.2 fun hv => ?_, Bool.eq_false_iff.2 fun hv => ?_⟩
      · exact htype (h.invalid ((isNodeInvalid_eq v e).trans hv))
      · exact htype (h.leave ((hasToLeave_eq v e).trans hv))
  · rintro (htype | ⟨hfai, hd⟩)
    · exact ⟨fun _ => htype, fun _ => htype, fun _ _ _ _ => htype⟩
    · have hinv := (isNodeInvalid_eq v e).trans hfai
      have hleave := (hasToLeave_eq v e).trans hd
      refine ⟨fun h => ?_, fun h => ?_, fun s t hsel hcond => ?_⟩
      · rw [hinv] at h
        cases h
      · rw [hleave] at h
        cases h
      · have hh := (select_eq_some hsel).2
        obtain hc | hc := hcond
        · rw [hc, nodeHolds, hinv] at hh
          cases hh
        · rw [hc, nodeHolds, hleave] at hh
          cases hh

def lostNode : NodeView where
  dhkey := ofWord 1
  keyType := keyTypeNode
  hasNode := true
  isInLeafset := false
  isInRoutingTable := false
  token := none
  badLink := false
  inGracetime := false
  idle := false
  parentMissing := false
  now := 0
  myNodeKey := ofWord 2
  subjectOf := fun _ => ofWord 3
  userProperty := fun _ => false
  other := fun _ => false
  connectionAttempts := 0
  inLeaveGracetime := false
  leaving := false

def expiredToken : Event :=
  ⟨ofWord 1, ofWord 1, evtExternal ||| evtToken,
    .token ⟨tokenHandshake, ofWord 1, [], ofWord 1, Dhkey.zero, false, false⟩⟩

theorem token_makes_node_leave :
    expiredToken.type ≠ evtNoop ∧
      (select (nodeHolds lostNode expiredToken) (transitions .inSetupNode)).map
          (fun t => (t.condition, t.action, t.target)) =
        some (.isNodeInvalid, .nodeDestroy, .inDestroy) ∧
      (select (nodeHolds lostNode expiredToken) (transitions .inUseNode)).map
          (fun t => (t.condition, t.action, t.target)) =
        some (.hasToLeave, .nodeSendShutdownEvent, .inUseNode) := by
  decide

end Neuropil.Key.Housekeeping
