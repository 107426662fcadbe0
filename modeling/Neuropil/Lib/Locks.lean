import Mathlib.Logic.Relation
import Mathlib.Tactic.Common

namespace Neuropil.Lib.Locks

open Function List Option

inductive Action (L O : Type)
  | lock (l : L)
  | unlock (l : L)
  | touch (o : O)
deriving DecidableEq

/-- Some objects are touched one after the other, under a lock or without any. -/
structure Section (L O : Type) where
  lock : Option L
  touched : List O

variable {L O : Type}

def Section.actions : Section L O → List (Action L O)
  | ⟨none, touched⟩ => touched.map .touch
  | ⟨some l, touched⟩ => .lock l :: (touched.map .touch ++ [.unlock l])

/-- The owners of the locks, and what the threads still have to do. -/
structure State (L O : Type) where
  owner : L → Option ℕ
  todo : ℕ → List (Action L O)

-- `guard` is the lock of an object; only the accesses in `P` need it.
variable (P : O → Prop) (guard : O → L)

/-- A thread that is about to touch an object holds its lock. -/
def Guarded (s : State L O) : Prop :=
  ∀ t o rest, s.todo t = .touch o :: rest → P o → s.owner (guard o) = some t

/-- What a thread that holds the lock `held` still does: it gives back the locks it takes, and has
the lock of what it touches. -/
def Disciplined : Option L → List (Action L O) → Prop
  | held, [] => held = none
  | held, .lock l :: rest => held = none ∧ Disciplined (some l) rest
  | held, .unlock l :: rest => held = some l ∧ Disciplined none rest
  | held, .touch o :: rest => (P o → held = some (guard o)) ∧ Disciplined held rest

variable {P guard} {held : Option L} {rest : List (Action L O)}

lemma disciplined_touches {touched : List O} :
    Disciplined P guard held (touched.map .touch ++ rest) ↔
      (∀ o ∈ touched, P o → held = some (guard o)) ∧ Disciplined P guard held rest := by
  induction touched with
  | nil => simp
  | cons o touched ih =>
    rw [map_cons, cons_append, Disciplined, ih, forall_mem_cons, and_assoc]

lemma disciplined_sections {sections : List (Section L O)} :
    Disciplined P guard none (sections.flatMap Section.actions) ↔
      ∀ sec ∈ sections, ∀ o ∈ sec.touched, P o → sec.lock = some (guard o) := by
  induction sections with
  | nil => simp [Disciplined]
  | cons sec sections ih =>
    obtain ⟨lock, touched⟩ := sec
    rw [flatMap_cons, forall_mem_cons]
    cases lock with
    | none => rw [Section.actions, disciplined_touches, ih]
    | some l =>
      rw [Section.actions, cons_append, Disciplined, append_assoc, disciplined_touches,
        singleton_append, Disciplined, ih]
      simp

/-- Every thread owns the lock it holds and no other. -/
def Owned (P : O → Prop) (guard : O → L) (s : State L O) : Prop :=
  ∀ t, ∃ held, Disciplined P guard held (s.todo t) ∧ ∀ l, s.owner l = some t ↔ held = some l

variable {s : State L O}

lemma Owned.guarded (h : Owned P guard s) : Guarded P guard s := by
  intro t o rest hnext ho
  obtain ⟨held, hd, hown⟩ := h t
  rw [hnext] at hd
  exact (hown (guard o)).2 (hd.1 ho)

variable {t : ℕ}

lemma Owned.advance (h : Owned P guard s) {owner : L → Option ℕ}
    (hrest : Disciplined P guard held rest) (hown : ∀ l, owner l = some t ↔ held = some l)
    (ho : ∀ u ≠ t, ∀ l, owner l = some u ↔ s.owner l = some u) :
    Owned P guard ⟨owner, update s.todo t rest⟩ := by
  intro u
  by_cases hu : u = t
  · subst hu
    exact ⟨held, by simpa using hrest, hown⟩
  · obtain ⟨held', hd, howner⟩ := h u
    refine ⟨held', by simpa [update_of_ne hu] using hd, fun l => ?_⟩
    exact (ho u hu l).trans (howner l)

variable [DecidableEq L]

/-- One of the threads goes on; a lock can be taken only if it is free. -/
inductive Step (s : State L O) : State L O → Prop
  | lock {t : ℕ} {l : L} {rest : List (Action L O)} (hnext : s.todo t = .lock l :: rest)
      (hfree : s.owner l = none) :
      Step s ⟨update s.owner l (some t), update s.todo t rest⟩
  | unlock {t : ℕ} {l : L} {rest : List (Action L O)} (hnext : s.todo t = .unlock l :: rest) :
      Step s ⟨update s.owner l none, update s.todo t rest⟩
  | touch {t : ℕ} {o : O} {rest : List (Action L O)} (hnext : s.todo t = .touch o :: rest) :
      Step s ⟨s.owner, update s.todo t rest⟩

variable (programs : ℕ → List (Section L O))

def start : State L O := ⟨fun _ => none, fun t => (programs t).flatMap Section.actions⟩

/-- The states that some interleaving of the threads leads to. -/
def Reachable (s : State L O) : Prop := Relation.ReflTransGen Step (start programs) s

lemma Owned.step {s' : State L O} (h : Owned P guard s) (hstep : Step s s') :
    Owned P guard s' := by
  cases hstep with
  | @lock t l rest hnext hfree =>
    obtain ⟨held, hd, ho⟩ := h t
    rw [hnext] at hd
    obtain ⟨rfl, hrest⟩ := hd
    apply h.advance hrest
    · intro l'
      by_cases hl : l' = l
      · simp [hl]
      · simp only [update_of_ne hl, ho, some.injEq, reduceCtorEq, false_iff]
        exact fun heq => hl heq.symm
    · intro u hu l'
      by_cases hl : l' = l
      · simp [hl, hfree, Ne.symm hu]
      · rw [update_of_ne hl]
  | @unlock t l rest hnext =>
    obtain ⟨held, hd, ho⟩ := h t
    rw [hnext] at hd
    obtain ⟨rfl, hrest⟩ := hd
    apply h.advance hrest
    · intro l'
      by_cases hl : l' = l
      · simp [hl]
      · simp only [update_of_ne hl, ho, some.injEq, reduceCtorEq, iff_false]
        exact fun heq => hl heq.symm
    · intro u hu l'
      by_cases hl : l' = l
      · -- the lock belongs to the thread that gives it back
        have hown : s.owner l = some t := (ho l).2 rfl
        simp [hl, hown, Ne.symm hu]
      · rw [update_of_ne hl]
  | @touch t o rest hnext =>
    obtain ⟨held, hd, ho⟩ := h t
    rw [hnext] at hd
    exact h.advance hd.2 ho fun _ _ _ => Iff.rfl

lemma disciplined_of_guarded {program : List (Action L O)}
    (hb : Disciplined (fun _ => False) guard held program) (s : State L O)
    (htodo : s.todo t = program) (howner : ∀ l, s.owner l = if held = some l then some t else none)
    (hg : ∀ s', Relation.ReflTransGen Step s s' → Guarded P guard s') :
    Disciplined P guard held program := by
  induction program generalizing held s with
  | nil => exact hb
  | cons action rest ih =>
    cases action with
    | lock l =>
      obtain ⟨rfl, hrest⟩ := hb
      have hstep := Step.lock htodo (by simp [howner])
      refine ⟨rfl, ih hrest _ (update_self _ _ _) (fun l' => ?_)
        fun s' hs' => hg s' (.head hstep hs')⟩
      by_cases hl : l' = l
      · subst hl
        simp
      · simp [update_of_ne hl, howner, Ne.symm hl]
    | unlock l =>
      obtain ⟨rfl, hrest⟩ := hb
      have hstep := Step.unlock htodo
      refine ⟨rfl, ih hrest _ (update_self _ _ _) (fun l' => ?_)
        fun s' hs' => hg s' (.head hstep hs')⟩
      by_cases hl : l' = l
      · subst hl
        simp
      · simp [update_of_ne hl, howner, Ne.symm hl]
    | touch o =>
      have hstep := Step.touch htodo
      refine ⟨fun ho => ?_, ih hb.2 ⟨s.owner, update s.todo t rest⟩
        (update_self _ _ _) howner fun s' hs' => hg s' (.head hstep hs')⟩
      have hown := hg s .refl t o rest htodo ho
      rw [howner] at hown
      by_contra hh
      rw [if_neg hh] at hown
      cases hown

lemma guarded_iff : (∀ s, Reachable programs s → Guarded P guard s) ↔
      ∀ t, ∀ sec ∈ programs t, ∀ o ∈ sec.touched, P o → sec.lock = some (guard o) := by
  simp only [← disciplined_sections]
  constructor
  · intro hg t
    refine disciplined_of_guarded ?_ (start programs) rfl (fun l => by simp [start]) hg
    exact disciplined_sections.2 fun _ _ _ _ ho => ho.elim
  · intro hd s hs
    have howned : Owned P guard s := by
      induction hs with
      | refl => exact fun t => ⟨none, hd t, by simp [start]⟩
      | tail _ hstep ih => exact ih.step hstep
    exact howned.guarded

def next (s : State L O) (t : ℕ) : Option (State L O) :=
  match s.todo t with
  | [] => none
  | .lock l :: rest =>
    if s.owner l = none then
      some ⟨update s.owner l (some t), update s.todo t rest⟩
    else none
  | .unlock l :: rest => some ⟨update s.owner l none, update s.todo t rest⟩
  | .touch _ :: rest => some ⟨s.owner, update s.todo t rest⟩

lemma next_step {s' : State L O} (h : next s t = some s') : Step s s' := by
  rw [next] at h
  split at h
  · cases h
  · next l rest hnext =>
    split_ifs at h with hfree
    cases h
    exact .lock hnext hfree
  · next l rest hnext =>
    cases h
    exact .unlock hnext
  · next o rest hnext =>
    cases h
    exact .touch hnext

lemma exists_reachable (schedule : List ℕ) {p : State L O → Prop} [DecidablePred p]
    (h : (schedule.foldlM next (start programs)).any fun s => decide (p s)) :
    ∃ s, Reachable programs s ∧ p s := by
  have hrun : ∀ (schedule : List ℕ) (s s' : State L O), schedule.foldlM next s = some s' →
      Relation.ReflTransGen Step s s' := by
    intro schedule
    induction schedule with
    | nil =>
      rintro s s' ⟨⟩
      exact .refl
    | cons t schedule ih =>
      intro s s' hs
      obtain ⟨s1, hs1, hs⟩ := bind_eq_some_iff.1 hs
      exact .head (next_step hs1) (ih s1 s' hs)
  obtain ⟨s, hs, hp⟩ := (any_eq_true _ _).1 h
  exact ⟨s, hrun schedule _ s hs, of_decide_eq_true hp⟩

end Neuropil.Lib.Locks
