import Mathlib.Data.List.Basic

namespace Neuropil.Statemachine.Request

variable {S U E A : Type}

/-- What changes in a `np_util_statemachine_t`; its state table stays as it is. -/
structure Machine (S U : Type) where
  currentState : S
  userData : U

/-- np_util_statemachine_transition_s; the callbacks that change something are told apart by names,
and one that is NULL is none. -/
structure Transition (S U E A : Type) where
  active : Bool
  targetState : S
  fAction : Option A
  fCondition : Option (Machine S U → E → Bool)

/-- np_util_statemachine_state_s; `f_enter` and `f_exit` are called without a test for NULL. -/
structure State (S U E A : Type) where
  fEnter : A
  fExit : A
  transitions : List (Transition S U E A)

def Transition.enabled (t : Transition S U E A) (m : Machine S U) (e : E) : Bool :=
  t.fCondition.all fun condition => condition m e

inductive ErrorCode
  | noError
  | conditionNotMet
  | noRule
deriving DecidableEq, Repr

structure Result where
  success : Bool
  errorCode : ErrorCode
deriving DecidableEq, Repr

def okResult : Result := ⟨true, .noError⟩

def conditionNotMetResult : Result := ⟨false, .conditionNotMet⟩

def noRuleResult : Result := ⟨false, .noRule⟩

section

variable [DecidableEq S] (perform : A → E → Machine S U → Machine S U)
  (table : S → State S U E A) (noopEvent : E) (targetState : S) (m : Machine S U)

def take (t : Transition S U E A) : Machine S U :=
  let processEnterExitStates := decide (t.targetState ≠ m.currentState)
  let acted := t.fAction.elim m fun a => perform a noopEvent m
  let left :=
    if processEnterExitStates then perform (table m.currentState).fExit noopEvent acted else acted
  let changed := { left with currentState := t.targetState }
  if processEnterExitStates then perform (table t.targetState).fEnter noopEvent changed
  else changed

def transitionFrom : List (Transition S U E A) → Result → Result × Machine S U
  | [], ret => (ret, m)
  | t :: rest, ret =>
    if !t.active then transitionFrom rest ret
    else if t.targetState = targetState ∧ t.enabled m noopEvent = true then
      (okResult, take perform table noopEvent m t)
    else if t.targetState ≠ targetState then transitionFrom rest noRuleResult
    else (conditionNotMetResult, m)

def transition : Result × Machine S U :=
  transitionFrom perform table noopEvent targetState m (table m.currentState).transitions
    noRuleResult

def candidates (transitions : List (Transition S U E A)) : List (Transition S U E A) :=
  transitions.filter fun t => t.active && decide (t.targetState = targetState)

/-- What a request for a state should answer: it succeeds if some candidate is enabled, and the two
errors tell no enabled candidate from no candidate. -/
structure Answered (ret : Result) (transitions : List (Transition S U E A)) : Prop where
  succeeds : (∃ t ∈ transitions, t.enabled m noopEvent = true) → ret.success = true
  notMet : ret = conditionNotMetResult ↔
    transitions ≠ [] ∧ ∀ t ∈ transitions, t.enabled m noopEvent = false
  noRule : ret = noRuleResult ↔ transitions = []

variable {perform table noopEvent targetState m}

lemma candidates_cons (t : Transition S U E A) (rest : List (Transition S U E A)) :
    candidates targetState (t :: rest) =
      if t.active = true ∧ t.targetState = targetState then t :: candidates targetState rest
      else candidates targetState rest := by
  by_cases h : t.active = true ∧ t.targetState = targetState <;>
    simp [candidates, h]

lemma transitionFrom_fst (transitions : List (Transition S U E A)) :
    (transitionFrom perform table noopEvent targetState m transitions noRuleResult).1 =
      match (candidates targetState transitions).head? with
      | none => noRuleResult
      | some t => if t.enabled m noopEvent = true then okResult else conditionNotMetResult := by
  induction transitions with
  | nil => rfl
  | cons t rest ih =>
    rw [candidates_cons, transitionFrom]
    cases ha : t.active with
    | false => simpa using ih
    | true =>
      by_cases htar : t.targetState = targetState
      · cases he : t.enabled m noopEvent <;> simp [htar, he]
      · simpa [htar] using ih

/-- A request is answered rightly exactly if the first candidate is enabled whenever one is. -/
theorem transition_answered_iff (perform : A → E → Machine S U → Machine S U)
    (table : S → State S U E A) (noopEvent : E) (targetState : S) (m : Machine S U) :
    Answered noopEvent m (transition perform table noopEvent targetState m).1
        (candidates targetState (table m.currentState).transitions) ↔
      ∀ t ∈ (candidates targetState (table m.currentState).transitions).head?,
        t.enabled m noopEvent = false →
        ∀ t ∈ candidates targetState (table m.currentState).transitions,
          t.enabled m noopEvent = false := by
  rw [transition, transitionFrom_fst]
  cases hcand : candidates targetState (table m.currentState).transitions with
  | nil =>
    refine ⟨fun _ t ht => by simp at ht, fun _ => ⟨by simp, ?_, by simp⟩⟩
    simp [noRuleResult, conditionNotMetResult]
  | cons first rest =>
    cases he : first.enabled m noopEvent with
    | true =>
      refine ⟨fun _ t ht => ?_, fun _ => ⟨?_, ?_, ?_⟩⟩
      · obtain rfl : first = t := by simpa using ht
        simp [he]
      · simp [he, okResult]
      · simp [he, okResult, conditionNotMetResult]
      · simp [he, okResult, noRuleResult]
    | false =>
      constructor
      · intro h t ht _
        have hnone := h.notMet
        simp only [List.head?_cons, he, Bool.false_eq_true, if_false, true_iff] at hnone
        exact hnone.2
      · intro h
        have hnone := h first rfl he
        refine ⟨?_, ?_, ?_⟩
        · rintro ⟨t, ht, hcond⟩
          rw [hnone t ht] at hcond
          cases hcond
        · simp only [List.head?_cons, he, Bool.false_eq_true, if_false, true_iff]
          exact ⟨by simp, hnone⟩
        · simp [he, conditionNotMetResult, noRuleResult]

end

def twoWays : ℕ → State ℕ Unit Unit Unit
  | 0 => ⟨(), (), [⟨true, 1, none, some fun _ _ => false⟩, ⟨true, 1, none, none⟩]⟩
  | _ => ⟨(), (), []⟩

theorem enabled_way_is_not_taken :
    let answer := (transition (fun _ _ m => m) twoWays () 1 ⟨0, ()⟩).1
    (∃ t ∈ candidates 1 (twoWays 0).transitions, t.enabled ⟨0, ()⟩ () = true) ∧
      answer.success = false ∧ answer = conditionNotMetResult := by
  refine ⟨⟨⟨true, 1, none, none⟩, ?_, rfl⟩, by decide, by decide⟩
  exact List.mem_cons_of_mem _ List.mem_cons_self

end Neuropil.Statemachine.Request
