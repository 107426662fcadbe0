import Neuropil.Lib.Run
import Neuropil.Statemachine.Request

namespace Neuropil.Statemachine.Nested

open Bool List Lib.Run Statemachine.Request

variable {S U E A : Type}

/-- A call of np_util_statemachine_invoke_auto_transition in one of its callbacks, with the locals
that it still reads. `f_exit` is called only on the way to another state. -/
inductive Frame (S : Type)
  | action (oldState targetState : S)
  | exit (oldState targetState : S) (moves : targetState ≠ oldState)
  | enter
deriving DecidableEq

def Frame.leaving? : Frame S → Option S
  | .exit oldState _ _ => some oldState
  | _ => none

/-- What happens to the state of a machine: it is left, assigned or entered. -/
inductive Entry (S : Type)
  | exit (s : S)
  | assign (old new : S)
  | enter (s : S)
deriving DecidableEq, Repr

/-- A machine together with the calls that are under way, the innermost first. -/
structure Execution (S U : Type) where
  machine : Machine S U
  frames : List (Frame S)
  log : List (Entry S)

def idle (m : Machine S U) : Execution S U := ⟨m, [], []⟩

/-- What the callbacks do, or the program between two events: they write the user data, invoke a
transition with an event, and return. -/
inductive Input (U E : Type)
  | write (u : U)
  | invoke (e : E)
  | ret

/-- When `f_exit` returns, the machine is in the state from which the transition started. -/
def Undisturbed (x : Execution S U) : Input U E → Prop
  | .ret => ∀ old ∈ x.frames.head?.bind Frame.leaving?, x.machine.currentState = old
  | _ => True

instance [DecidableEq S] (x : Execution S U) : (a : Input U E) → Decidable (Undisturbed x a)
  | .ret => inferInstanceAs (Decidable (∀ old ∈ x.frames.head?.bind Frame.leaving?, _ = old))
  | .write _ | .invoke _ => inferInstanceAs (Decidable True)

variable {frames : List (Frame S)}

lemma undisturbed_ret {x : Execution S U} {f : Frame S}
    (hx : x.frames = f :: frames) (hf : f.leaving? = none) : Undisturbed x (.ret : Input U E) := by
  intro s hs
  simp [hx, hf] at hs

section

variable [DecidableEq S] (table : S → State S U E A)

/-- The state is not set if a transition has set it in the meantime. -/
def setState (old target : S) (x : Execution S U) : Execution S U :=
  if x.machine.currentState = old then
    { x with
      machine := { x.machine with currentState := target }
      log := x.log ++ [.assign old target] }
  else x

def leave (old target : S) (x : Execution S U) : Execution S U :=
  if moves : target ≠ old then
    { x with frames := .exit old target moves :: x.frames, log := x.log ++ [.exit old] }
  else setState old target x

def arrive (old target : S) (x : Execution S U) : Execution S U :=
  let entered := if x.machine.currentState = old then target else old
  let x := setState old target x
  { x with frames := .enter :: x.frames, log := x.log ++ [.enter entered] }

def autoTransition (m : Machine S U) (e : E) : Option (Transition S U E A) :=
  (table m.currentState).transitions.find? fun t => t.active && t.enabled m e

def move (x : Execution S U) : Input U E → Execution S U
  | .write u => { x with machine := { x.machine with userData := u } }
  | .invoke e =>
    match autoTransition table x.machine e with
    | none => x
    | some t =>
      let old := x.machine.currentState
      if t.fAction.isSome then
        { x with frames := .action old t.targetState :: x.frames }
      else leave old t.targetState x
  | .ret =>
    match x.frames with
    | [] => x
    | .action old target :: frames => leave old target { x with frames }
    | .exit old target _ :: frames => arrive old target { x with frames }
    | .enter :: frames => { x with frames }

def exits (s : S) (log : List (Entry S)) : ℕ := log.count (.exit s)

def enters (s : S) (log : List (Entry S)) : ℕ := log.count (.enter s)

def leaves (s : S) : Entry S → Bool
  | .assign old new => old = s ∧ new ≠ s
  | _ => false

def reaches (s : S) : Entry S → Bool
  | .assign old new => old ≠ s ∧ new = s
  | _ => false

def departures (s : S) (log : List (Entry S)) : ℕ := log.countP (leaves s)

def arrivals (s : S) (log : List (Entry S)) : ℕ := log.countP (reaches s)

def Entry.entered? : Entry S → Option S
  | .enter s => some s
  | _ => none

def lastEntered (log : List (Entry S)) : Option S := (log.filterMap Entry.entered?).getLast?

/-- Each change of the state has one `f_exit` of the state left, before it, and one `f_enter` of the
state reached, after it; and there are no others. -/
structure Accompanied (log : List (Entry S)) : Prop where
  exits : ∀ s, exits s log = departures s log
  enters : ∀ s, enters s log = arrivals s log
  order : ∀ before, before <+: log → ∀ s,
    departures s before ≤ Nested.exits s before ∧ Nested.enters s before ≤ arrivals s before

def exiting (s : S) (frames : List (Frame S)) : ℕ := frames.countP fun f => f.leaving? = some s

end

section

variable [DecidableEq S] {table : S → State S U E A} {x x' : Execution S U} {a : Input U E}

inductive Moved (x : Execution S U) (a : Input U E) (x' : Execution S U) : Prop
  | quiet (ok : Undisturbed x a) (current : x'.machine.currentState = x.machine.currentState)
      (log : x'.log = x.log) (frames : ∀ s, exiting s x'.frames = exiting s x.frames)
  | exited (old : S) (ok : Undisturbed x a)
      (current : x'.machine.currentState = x.machine.currentState)
      (log : x'.log = x.log ++ [.exit old])
      (frames : ∀ s, exiting s x'.frames = exiting s x.frames + if old = s then 1 else 0)
  | stayed (old : S) (ok : Undisturbed x a)
      (current : x'.machine.currentState = x.machine.currentState)
      (log : x'.log = x.log ++ [.assign old old])
      (frames : ∀ s, exiting s x'.frames = exiting s x.frames)
  | arrived (old target : S) (ok : Undisturbed x a) (moves : target ≠ old)
      (current : x'.machine.currentState = target)
      (log : x'.log = x.log ++ [.assign old target] ++ [.enter target])
      (frames : ∀ s, exiting s x.frames = exiting s x'.frames + if old = s then 1 else 0)
  | stale (old : S) (bad : ¬ Undisturbed x a)
      (log : x'.log = x.log ++ [.enter old])
      (frames : ∀ s, exiting s x.frames = exiting s x'.frames + if old = s then 1 else 0)

lemma exiting_exit (old target s : S) (moves : target ≠ old) (frames : List (Frame S)) :
    exiting s (.exit old target moves :: frames) = exiting s frames + if old = s then 1 else 0 := by
  simp [exiting, countP_cons, Frame.leaving?]

lemma exiting_action (old target s : S) (frames : List (Frame S)) :
    exiting s (.action old target :: frames) = exiting s frames := by
  simp [exiting, Frame.leaving?]

lemma exiting_enter (s : S) (frames : List (Frame S)) :
    exiting s (.enter :: frames) = exiting s frames := by
  simp [exiting, Frame.leaving?]

lemma moved_leave (ok : Undisturbed x a) (old target : S)
    (hfrs : ∀ s, exiting s frames = exiting s x.frames) :
    Moved x a (leave old target { x with frames }) := by
  unfold leave
  split_ifs with hmoves
  · refine .exited old ok rfl rfl fun s => ?_
    rw [exiting_exit, hfrs]
  · obtain rfl : target = old := not_not.1 hmoves
    unfold setState
    split_ifs with hcur
    · exact .stayed target ok hcur.symm rfl hfrs
    · exact .quiet ok rfl rfl hfrs

lemma moved_arrive (old target : S) (moves : target ≠ old) (frames : List (Frame S))
    (hx : x.frames = .exit old target moves :: frames) :
    Moved x (.ret : Input U E) (arrive old target { x with frames }) := by
  have he (s : S) : exiting s x.frames =
      exiting s (.enter :: frames) + if old = s then 1 else 0 := by
    rw [hx, exiting_exit, exiting_enter]
  have hlea : x.frames.head?.bind Frame.leaving? = some old := by
    simp [hx, Frame.leaving?]
  by_cases hcur : x.machine.currentState = old
  · simp only [arrive, setState, hcur, if_true]
    refine .arrived old target ?_ moves rfl rfl he
    intro s hs
    rw [hlea] at hs
    cases hs
    exact hcur
  · simp only [arrive, setState, hcur, if_false]
    exact .stale old (fun h => hcur (h old hlea)) rfl he

lemma moved_move (x : Execution S U) (a : Input U E) : Moved x a (move table x a) := by
  cases a with
  | write u => exact .quiet trivial rfl rfl fun _ => rfl
  | invoke e =>
    cases ht : autoTransition table x.machine e with
    | none =>
      simp only [move, ht]
      exact .quiet trivial rfl rfl fun _ => rfl
    | some t =>
      simp only [move, ht]
      split_ifs
      · exact .quiet trivial rfl rfl fun s => exiting_action _ _ s _
      · exact moved_leave (a := .invoke e) trivial _ _ fun _ => rfl
  | ret =>
    cases hx : x.frames with
    | nil =>
      simp only [move, hx]
      refine .quiet ?_ rfl rfl fun _ => rfl
      intro s hs
      simp [hx] at hs
    | cons f frames =>
      cases f with
      | action old target =>
        simp only [move, hx]
        refine moved_leave (undisturbed_ret hx rfl) old target fun s => ?_
        rw [hx, exiting_action]
      | exit old target moves =>
        simp only [move, hx]
        exact moved_arrive old target moves frames hx
      | enter =>
        simp only [move, hx]
        refine .quiet (undisturbed_ret hx rfl) rfl rfl fun s => ?_
        rw [hx, exiting_enter]

end

lemma lastEntered_concat (log : List (Entry S)) (e : Entry S) :
    lastEntered (log ++ [e]) = e.entered?.or (lastEntered log) := by
  cases e <;> simp [lastEntered, Entry.entered?]

section

variable [DecidableEq S] (log : List (Entry S)) (s s1 s2 : S)

@[simp] lemma exits_concat (e : Entry S) :
    exits s (log ++ [e]) = exits s log + if e = .exit s then 1 else 0 := by
  simp [exits, count_append, count_singleton]

@[simp] lemma enters_concat (e : Entry S) :
    enters s (log ++ [e]) = enters s log + if e = .enter s then 1 else 0 := by
  simp [enters, count_append, count_singleton]

@[simp] lemma departures_concat (e : Entry S) :
    departures s (log ++ [e]) = departures s log + if leaves s e = true then 1 else 0 := by
  simp [departures, countP_append, countP_singleton]

@[simp] lemma arrivals_concat (e : Entry S) :
    arrivals s (log ++ [e]) = arrivals s log + if reaches s e = true then 1 else 0 := by
  simp [arrivals, countP_append, countP_singleton]

@[simp] lemma leaves_exit : leaves s (.exit s1) = false := rfl

@[simp] lemma leaves_enter : leaves s (.enter s1) = false := rfl

@[simp] lemma reaches_enter : reaches s (.enter s1) = false := rfl

@[simp] lemma leaves_assign : leaves s (.assign s1 s2) = true ↔ s1 = s ∧ s2 ≠ s := by
  simp [leaves]

@[simp] lemma reaches_assign : reaches s (.assign s1 s2) = true ↔ s1 ≠ s ∧ s2 = s := by
  simp [reaches]

@[simp] lemma leaves_stay : leaves s (.assign s1 s1) = false := by
  simp [leaves]

@[simp] lemma reaches_stay : reaches s (.assign s1 s1) = false := by
  simp [reaches]

variable {table : S → State S U E A} {x x' : Execution S U} {a : Input U E}

/-- The calls of `f_exit` that led, or will lead, to a change of the state. -/
def expected (s : S) (x : Execution S U) : ℕ := departures s x.log + exiting s x.frames

lemma Moved.balance (h : Moved x a x') (ok : Undisturbed x a) (s : S) :
    exits s x'.log + expected s x = exits s x.log + expected s x' := by
  cases h with
  | quiet _ _ hlog hfrs => simp only [expected, hlog, hfrs s]
  | exited old _ _ hlog hfrs =>
    simp only [expected, hlog, hfrs s, exits_concat, departures_concat, leaves_exit,
      Entry.exit.injEq, false_eq_true, if_false]
    omega
  | stayed old _ _ hlog hfrs =>
    simp only [expected, hlog, hfrs s, exits_concat, departures_concat, leaves_stay,
      reduceCtorEq, false_eq_true, if_false]
    omega
  | arrived old target _ hmoves _ hlog hfrs =>
    have hleft : (old = s ∧ target ≠ s) ↔ old = s := ⟨fun h => h.1, fun h => ⟨h, h ▸ hmoves⟩⟩
    simp only [expected, hlog, hfrs s, exits_concat, departures_concat, leaves_assign, hleft,
      leaves_enter, reduceCtorEq, false_eq_true, if_false]
    omega
  | stale _ hbad => exact absurd ok hbad

lemma Moved.imbalance (h : Moved x a x') (bad : ¬ Undisturbed x a) :
    ∃ old, ∀ s, exits s x'.log + expected s x =
      exits s x.log + expected s x' + if old = s then 1 else 0 := by
  cases h with
  | quiet ok | exited _ ok | stayed _ ok | arrived _ _ ok => exact absurd ok bad
  | stale old _ hlog hfrs =>
    refine ⟨old, fun s => ?_⟩
    simp only [expected, hlog, hfrs s, exits_concat, departures_concat, leaves_enter,
      reduceCtorEq, false_eq_true, if_false]
    omega

lemma Moved.le_balance (h : Moved x a x') (s : S) :
    exits s x.log + expected s x' ≤ exits s x'.log + expected s x := by
  by_cases ok : Undisturbed x a
  · exact (h.balance ok s).ge
  · obtain ⟨old, hs⟩ := h.imbalance ok
    rw [hs s]
    exact Nat.le_add_right _ _

lemma expected_le_exits (m : Machine S U) (inputs : List (Input U E)) (s : S) :
    expected s (run (move table) (idle m) inputs) ≤
      exits s (run (move table) (idle m) inputs).log := by
  refine run_inv_always (fun _ x => expected s x ≤ exits s x.log) ?_ ?_ inputs
  · exact Nat.le_refl 0
  intro _ x a hx
  have hmoved : Moved x a (move table x a) := moved_move x a
  have := hmoved.le_balance s
  omega

variable {inputs : List (Input U E)} {m : Machine S U}

lemma admitted_of_exits_le (h : ∀ s, exits s (run (move table) (idle m) inputs).log ≤
      expected s (run (move table) (idle m) inputs)) :
    Admitted (move table) (idle m) Undisturbed inputs := by
  intro before a hb
  have hback (x : Execution S U) (a : Input U E)
      (hx : ∀ s, exits s (move table x a).log ≤ expected s (move table x a)) (s : S) :
      exits s x.log ≤ expected s x := by
    have hmoved : Moved x a (move table x a) := moved_move x a
    have := hmoved.le_balance s
    have := hx s
    omega
  have ha := good_of_run (fun x => ∀ s, exits s x.log ≤ expected s x) hback hb h
  rw [run_concat] at ha
  by_contra hbad
  have hmoved : Moved _ a (move table (run (move table) (idle m) before) a) := moved_move _ a
  obtain ⟨old, hold⟩ := hmoved.imbalance hbad
  have hbf : expected old (run (move table) (idle m) before) ≤
      exits old (run (move table) (idle m) before).log := expected_le_exits m before old
  have := ha old
  have := hold old
  simp only [if_true] at this
  omega

structure Orderly (x : Execution S U) : Prop where
  exits : ∀ s, exits s x.log = expected s x
  enters : ∀ s, enters s x.log = arrivals s x.log
  order : ∀ before, before <+: x.log → ∀ s,
    departures s before ≤ Nested.exits s before ∧ Nested.enters s before ≤ arrivals s before
  last : ∀ s ∈ lastEntered x.log, x.machine.currentState = s

lemma order_concat {log : List (Entry S)} {e : Entry S}
    (h : ∀ before, before <+: log → ∀ s,
      departures s before ≤ exits s before ∧ enters s before ≤ arrivals s before)
    (hlast : ∀ s, departures s (log ++ [e]) ≤ exits s (log ++ [e]) ∧
      enters s (log ++ [e]) ≤ arrivals s (log ++ [e])) :
    ∀ before, before <+: log ++ [e] → ∀ s,
      departures s before ≤ exits s before ∧ enters s before ≤ arrivals s before := by
  intro before hb
  obtain rfl | hb := prefix_concat_iff.1 hb
  · exact hlast
  · exact h before hb

section

variable (h : Orderly x) (hexits : ∀ s, Nested.exits s x'.log = expected s x')
include h hexits

lemma Orderly.extend (hcur : x'.machine.currentState = x.machine.currentState) {e : Entry S}
    (hlog : x'.log = x.log ++ [e]) (hlea : ∀ s, leaves s e = false)
    (hrea : ∀ s, reaches s e = false) (he : e.entered? = none) : Orderly x' := by
  have hne (s : S) : e ≠ .enter s := by
    rintro rfl
    cases he
  refine ⟨hexits, ?_, ?_, ?_⟩ <;> rw [hlog]
  · intro s
    simpa [hrea, hne] using h.enters s
  · refine order_concat h.order fun s => ?_
    have := h.order x.log (prefix_refl _) s
    simp only [exits_concat, departures_concat, enters_concat, arrivals_concat, hlea, hrea,
      hne, false_eq_true, if_false]
    omega
  · rw [hcur, lastEntered_concat, he]
    exact h.last

lemma Orderly.arrived {old target : S} (hmoves : target ≠ old)
    (hcur : x'.machine.currentState = target)
    (hlog : x'.log = x.log ++ [.assign old target] ++ [.enter target])
    (hfrs : ∀ s, exiting s x.frames = exiting s x'.frames + if old = s then 1 else 0) :
    Orderly x' := by
  have hleft (s : S) : (old = s ∧ target ≠ s) ↔ old = s := ⟨fun h => h.1, fun h => ⟨h, h ▸ hmoves⟩⟩
  have hrch (s : S) : (old ≠ s ∧ target = s) ↔ target = s :=
    ⟨fun h => h.2, fun h => ⟨h ▸ hmoves.symm, h⟩⟩
  have hset (s : S) : departures s (x.log ++ [Entry.assign old target]) ≤
        Nested.exits s (x.log ++ [Entry.assign old target]) ∧
      Nested.enters s (x.log ++ [Entry.assign old target]) ≤
        arrivals s (x.log ++ [Entry.assign old target]) := by
    have hs := h.order x.log (prefix_refl _) s
    -- the call that sets the state has called its `f_exit`
    have he : departures s x.log + (if old = s then 1 else 0) ≤ Nested.exits s x.log := by
      have := h.exits s
      have := hfrs s
      unfold expected at *
      omega
    simp only [exits_concat, departures_concat, enters_concat, arrivals_concat, leaves_assign,
      hleft, hrch, reaches_assign, reduceCtorEq, if_false]
    omega
  refine ⟨hexits, ?_, ?_, ?_⟩ <;> rw [hlog]
  · intro s
    have := h.enters s
    simp only [enters_concat, arrivals_concat, reaches_assign, hrch, reaches_enter,
      reduceCtorEq, Entry.enter.injEq, false_eq_true, if_false]
    omega
  · refine order_concat (order_concat h.order hset) fun s => ?_
    have := (hset s).1
    have := h.enters s
    simp only [exits_concat, departures_concat, enters_concat, arrivals_concat, leaves_assign,
      leaves_enter, hleft, hrch, reaches_assign, reaches_enter, Entry.enter.injEq,
      reduceCtorEq, false_eq_true, if_false] at *
    omega
  · rw [hcur, lastEntered_concat]
    intro s hs
    cases hs
    rfl

end

lemma Orderly.moved (h : Orderly x) (hm : Moved x a x') (ok : Undisturbed x a) : Orderly x' := by
  have he (s : S) : Nested.exits s x'.log = expected s x' := by
    have := hm.balance ok s
    have := h.exits s
    omega
  cases hm with
  | quiet _ hcur hlog _ =>
    refine ⟨he, ?_, ?_, ?_⟩ <;> rw [hlog]
    · exact h.enters
    · exact h.order
    · rw [hcur]
      exact h.last
  | exited old _ hcur hlog _ => exact h.extend he hcur hlog (fun _ => rfl) (fun _ => rfl) rfl
  | stayed old _ hcur hlog _ =>
    exact h.extend he hcur hlog (fun s => leaves_stay s old) (fun s => reaches_stay s old) rfl
  | arrived old target _ hmoves hcur hlog hfrs => exact h.arrived he hmoves hcur hlog hfrs
  | stale _ hbad => exact absurd ok hbad

lemma orderly_run (hok : Admitted (move table) (idle m) Undisturbed inputs) :
    Orderly (run (move table) (idle m) inputs) := by
  refine run_inv (fun _ x => Orderly x) ?_ ?_ inputs hok
  · refine ⟨fun _ => rfl, fun _ => rfl, ?_, by simp [idle, lastEntered]⟩
    intro before hb s
    obtain rfl : before = [] := prefix_nil.1 hb
    exact ⟨le_rfl, le_rfl⟩
  · intro _ x a hx ok
    exact hx.moved (moved_move x a) ok

/-- When the calls have returned, every change of the state was accompanied by its `f_exit` and
`f_enter`, and the state is the one entered last, exactly if no call resumed after its `f_exit` in a
machine moved to another state. -/
theorem accompanied_iff_undisturbed (table : S → State S U E A) (m : Machine S U)
    (inputs : List (Input U E)) (hreturned : (run (move table) (idle m) inputs).frames = []) :
    (Accompanied (run (move table) (idle m) inputs).log ∧
        ∀ s ∈ lastEntered (run (move table) (idle m) inputs).log,
          (run (move table) (idle m) inputs).machine.currentState = s) ↔
      Admitted (move table) (idle m) Undisturbed inputs := by
  have he (s : S) : expected s (run (move table) (idle m) inputs) =
      departures s (run (move table) (idle m) inputs).log := by
    simp [expected, hreturned, exiting]
  constructor
  · rintro ⟨h, _⟩
    apply admitted_of_exits_le
    intro s
    rw [he, h.exits]
  · intro hok
    have h := orderly_run hok
    refine ⟨⟨fun s => ?_, h.enters, h.order⟩, h.last⟩
    rw [h.exits, he]

end

def forked : ℕ → State ℕ Unit Bool Unit
  | 0 => ⟨(), (), [⟨true, 1, some (), some fun _ e => e⟩, ⟨true, 2, none, some fun _ e => !e⟩]⟩
  | _ => ⟨(), (), []⟩

def secondEvent : List (Input Unit Bool) :=
  [.invoke true, .invoke false, .ret, .ret, .ret, .ret, .ret]

theorem exit_and_enter_of_stale_state :
    let x := run (move forked) (idle ⟨0, ()⟩) secondEvent
    x.frames = [] ∧ x.machine.currentState = 2 ∧
      x.log = [.exit 0, .assign 0 2, .enter 2, .exit 0, .enter 0] ∧
      ¬ Accompanied x.log ∧ lastEntered x.log = some 0 := by
  refine ⟨rfl, rfl, rfl, fun h => ?_, rfl⟩
  have he : (2 : ℕ) = 1 := h.exits 0
  cases he

def chained : ℕ → State ℕ Unit Bool Unit
  | 0 => ⟨(), (), [⟨true, 1, none, none⟩]⟩
  | 1 => ⟨(), (), [⟨true, 2, none, none⟩]⟩
  | _ => ⟨(), (), []⟩

/-- The second event comes in while the state that the first one led to is entered. -/
theorem accompanied_iff_undisturbed_nested :
    let x := run (move chained) (idle ⟨0, ()⟩) [.invoke true, .ret, .invoke true, .ret, .ret, .ret]
    x.log = [.exit 0, .assign 0 1, .enter 1, .exit 1, .assign 1 2, .enter 2] ∧
      Accompanied x.log := by
  refine ⟨rfl, ?_⟩
  exact ((accompanied_iff_undisturbed chained ⟨0, ()⟩
    [.invoke true, .ret, .invoke true, .ret, .ret, .ret] rfl).2 (by decide)).1

end Neuropil.Statemachine.Nested
