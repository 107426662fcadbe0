import Neuropil.Lib.Run

namespace Neuropil.Lib.Statechart

open List Lib.Run

variable {S C A E : Type}

structure Transition (S C A : Type) where
  condition : C
  action : A
  target : S

def select (holds : C → Bool) (transitions : List (Transition S C A)) : Option (Transition S C A) :=
  transitions.find? fun t => holds t.condition

structure Call (S C A E : Type) where
  source : S
  taken : Transition S C A
  event : E

/-- A machine with the transitions whose actions have not returned, each with the states it leads
from and to, and everything it did so far. -/
structure Machine (S C A E : Type) where
  current : S
  frames : List (S × S)
  calls : List (Call S C A E)

inductive Step (E : Type)
  | event (e : E)
  | finish

def start (s : S) : Machine S C A E := ⟨s, [], []⟩

lemma select_eq_some {holds : C → Bool} {transitions : List (Transition S C A)}
    {t : Transition S C A} (h : select holds transitions = some t) :
    t ∈ transitions ∧ holds t.condition = true :=
  ⟨mem_of_find?_eq_some h, by simpa using find?_some h⟩

section

variable (table : S → List (Transition S C A)) (holds : E → C → Bool)

/-- An event is handled by an action, which may deliver further events before it returns. The state
is set then, unless one of these events has set it already. -/
def move [DecidableEq S] (m : Machine S C A E) : Step E → Machine S C A E
  | .event e =>
    match select (holds e) (table m.current) with
    | none => m
    | some t =>
      { m with
        frames := (m.current, t.target) :: m.frames
        calls := m.calls ++ [⟨m.current, t, e⟩] }
  | .finish =>
    match m.frames with
    | [] => m
    | (old, target) :: frames =>
      { m with
        current := if m.current = old then target else m.current
        frames := frames }

def Guarded (guard : C) (calls : List (Call S C A E)) : Prop := ∃ c ∈ calls, holds c.event guard

/-- What a machine did is made of transitions of its table, and it is in the state `goal`, or on the
way to it, only if the guard held before. -/
structure Entered (goal : S) (guard : C) (m : Machine S C A E) : Prop where
  taken : ∀ c ∈ m.calls, c.taken ∈ table c.source ∧ holds c.event c.taken.condition
  current : m.current = goal → Guarded holds guard m.calls
  frames : ∀ f ∈ m.frames, f.2 = goal → Guarded holds guard m.calls
  calls : ∀ before c after, m.calls = before ++ c :: after → c.source = goal →
    Guarded holds guard before

variable {table holds} {goal s : S} {guard : C}

lemma Guarded.append {calls : List (Call S C A E)} (h : Guarded holds guard calls)
    (more : List (Call S C A E)) : Guarded holds guard (calls ++ more) := by
  obtain ⟨c, hc, hguard⟩ := h
  exact ⟨c, mem_append_left more hc, hguard⟩

variable [DecidableEq S]
  (hguard : ∀ s, s ≠ goal → ∀ t ∈ table s, t.target = goal → t.condition = guard)
include hguard

lemma entered_move {m : Machine S C A E} (h : Entered table holds goal guard m) (step : Step E) :
    Entered table holds goal guard (move table holds m step) := by
  cases step with
  | event e =>
    cases hsel : select (holds e) (table m.current) with
    | none => simpa only [move, hsel] using h
    | some t =>
      obtain ⟨hmem, hcond⟩ := select_eq_some hsel
      have htar : t.target = goal → Guarded holds guard (m.calls ++ [⟨m.current, t, e⟩]) := by
        intro ht
        by_cases hs : m.current = goal
        · exact (h.current hs).append _
        · refine ⟨_, mem_append_right _ (mem_singleton.2 rfl), ?_⟩
          rwa [← hguard m.current hs t hmem ht]
      simp only [move, hsel]
      refine ⟨?_, fun hs => (h.current hs).append _, ?_, ?_⟩
      · intro c hc
        obtain hc | hc := mem_append.1 hc
        · exact h.taken c hc
        · cases mem_singleton.1 hc
          exact ⟨hmem, hcond⟩
      · intro f hf hg
        obtain rfl | hf := mem_cons.1 hf
        · exact htar hg
        · exact (h.frames f hf hg).append _
      · intro before c after hspl hsrc
        -- the call is the new one, or it stood in the list before
        cases after using reverseRecOn with
        | nil =>
          obtain ⟨rfl, hc⟩ := append_inj' hspl rfl
          cases hc
          exact h.current hsrc
        | append_singleton after last =>
          rw [← cons_append, ← append_assoc] at hspl
          exact h.calls before c after (append_inj' hspl rfl).1 hsrc
  | finish =>
    cases hfrs : m.frames with
    | nil => simpa only [move, hfrs] using h
    | cons f frames =>
      obtain ⟨old, target⟩ := f
      have htar : target = goal → Guarded holds guard m.calls :=
        h.frames (old, target) (by rw [hfrs]; exact mem_cons_self)
      simp only [move, hfrs]
      refine ⟨h.taken, ?_, fun f hf => h.frames f (by simp [hfrs, hf]), h.calls⟩
      split_ifs
      · exact htar
      · exact h.current

/-- The rule for a state that is entered on one condition only: in every run from another state,
nothing is done in the state before an event met the condition. -/
lemma entered_run (hst : s ≠ goal) (steps : List (Step E)) :
    Entered table holds goal guard (run (move table holds) (start s) steps) := by
  refine run_inv_always (fun _ m => Entered table holds goal guard m) ?_
    (fun _ m step hm => entered_move hguard hm step) steps
  exact ⟨by simp [start], fun h => absurd h hst, by simp [start], by simp [start]⟩

end

variable {W F : Type} [DecidableEq S] (perform : W → A → Except F W) (current : W → Option S)
  (enter : W → S → W) (onExit onEnter : S → A)

/-- Takes a transition from `s`: performs its action and, on the way to another state,
what is due on leaving and entering. The state is not set if the action has changed it. -/
def take (s : S) (t : Transition S C A) (w : W) : Except F W := do
  let w ← perform w t.action
  if t.target = s then return w
  else
    let w ← perform w (onExit s)
    if current w = some s then perform (enter w t.target) (onEnter t.target)
    else perform w (onEnter s)

variable {perform current enter onExit onEnter} {s : S} {t : Transition S C A} {w w1 w2 : W}

lemma take_of_stay (h : t.target = s) :
    take perform current enter onExit onEnter s t w = perform w t.action := by
  simp only [take, h, if_true]
  cases perform w t.action <;> rfl

lemma take_of_move (hne : t.target ≠ s) (hact : perform w t.action = .ok w1)
    (he : perform w1 (onExit s) = .ok w2) (hs : current w2 = some s) :
    take perform current enter onExit onEnter s t w =
      perform (enter w2 t.target) (onEnter t.target) := by
  simp only [take, hact, he, bind, Except.bind, hne, hs, if_false, if_true]

lemma exists_of_take (hne : t.target ≠ s) (he : ∀ w, perform w (onExit s) = .ok w)
    (hs : ∀ w1, perform w t.action = .ok w1 → current w1 = some s)
    (h : take perform current enter onExit onEnter s t w = .ok w2) :
    ∃ w1, perform w t.action = .ok w1 ∧
      perform (enter w1 t.target) (onEnter t.target) = .ok w2 := by
  cases hact : perform w t.action with
  | error e =>
    simp only [take, hact, bind, Except.bind] at h
    cases h
  | ok w1 =>
    rw [take_of_move hne hact (he w1) (hs w1 hact)] at h
    exact ⟨w1, rfl, h⟩

end Neuropil.Lib.Statechart
