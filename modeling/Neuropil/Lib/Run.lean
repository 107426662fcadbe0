import Mathlib.Data.List.Infix

namespace Neuropil.Lib.Run

open List

variable {σ α : Type} (step : σ → α → σ) (start : σ)

/-- The state a machine is in after a history of inputs. -/
def run (inputs : List α) : σ := inputs.foldl step start

@[simp] lemma run_nil : run step start [] = start := rfl

@[simp] lemma run_concat (inputs : List α) (a : α) :
    run step start (inputs ++ [a]) = step (run step start inputs) a := by
  simp [run]

lemma run_append (inputs more : List α) :
    run step start (inputs ++ more) = run step (run step start inputs) more :=
  foldl_append

/-- Every step of the history is admitted in the state it is taken from. -/
def Admitted (ok : σ → α → Prop) (inputs : List α) : Prop :=
  ∀ before a, before ++ [a] <+: inputs → ok (run step start before) a

lemma admitted_cons_iff (ok : σ → α → Prop) (a : α) (inputs : List α) :
    Admitted step start ok (a :: inputs) ↔ ok start a ∧ Admitted step (step start a) ok inputs := by
  constructor
  · intro h
    refine ⟨h [] a (prefix_append [a] inputs), fun before b hb => ?_⟩
    exact h (a :: before) b ((prefix_cons_inj a).mpr hb)
  · rintro ⟨hfst, hrest⟩ before b hb
    cases before with
    | nil =>
      obtain rfl : b = a := by simpa using hb
      exact hfst
    | cons c before =>
      obtain ⟨rfl, htail⟩ := cons_prefix_cons.mp hb
      exact hrest before b htail

instance decidableAdmitted (ok : σ → α → Prop) [∀ s a, Decidable (ok s a)] :
    (start : σ) → (inputs : List α) → Decidable (Admitted step start ok inputs)
  | _, [] => isTrue (fun before a hb => by simp at hb)
  | start, a :: inputs =>
    have := decidableAdmitted ok (step start a) inputs
    decidable_of_iff _ (admitted_cons_iff step start ok a inputs).symm

variable {step start} {ok : σ → α → Prop} {inputs : List α}

lemma Admitted.initial {a : α} (h : Admitted step start ok (inputs ++ [a])) :
    Admitted step start ok inputs :=
  fun before b hb => h before b (hb.trans (prefix_append _ _))

lemma Admitted.last {a : α} (h : Admitted step start ok (inputs ++ [a])) :
    ok (run step start inputs) a :=
  h inputs a (prefix_refl _)

variable {before : List α}

lemma Admitted.of_prefix (h : Admitted step start ok inputs)
    (hp : before <+: inputs) : Admitted step start ok before :=
  fun pre a ha => h pre a (ha.trans hp)

variable (inv : List α → σ → Prop)

/-- The invariant rule: what holds initially and is kept by every admitted
step holds after every history of admitted steps. -/
lemma run_inv (h0 : inv [] start)
    (hstep : ∀ before s a, inv before s → ok s a → inv (before ++ [a]) (step s a))
    (inputs : List α) (hok : Admitted step start ok inputs) :
    inv inputs (run step start inputs) := by
  induction inputs using reverseRecOn with
  | nil => exact h0
  | append_singleton before a ih =>
    rw [run_concat]
    exact hstep before _ a (ih hok.initial) hok.last

lemma run_inv_always (h0 : inv [] start)
    (hstep : ∀ before s a, inv before s → inv (before ++ [a]) (step s a))
    (inputs : List α) : inv inputs (run step start inputs) := by
  have hok : Admitted step start (fun _ _ => True) inputs := fun _ _ _ => trivial
  exact run_inv inv h0 (fun before s a h _ => hstep before s a h) inputs hok

/-- Two conditions that agree on steps as long as these meet them admit the same histories. -/
lemma admitted_congr {right : σ → α → Prop} (inv : σ → Prop) (h0 : inv start)
    (hstep : ∀ s a, inv s → ok s a → inv (step s a))
    (hright : ∀ s a, inv s → (right s a ↔ ok s a)) (inputs : List α) :
    Admitted step start right inputs ↔ Admitted step start ok inputs := by
  induction inputs generalizing start with
  | nil => exact ⟨fun _ before a hb => by simp at hb, fun _ before a hb => by simp at hb⟩
  | cons a inputs ih =>
    rw [admitted_cons_iff, admitted_cons_iff, hright start a h0]
    exact and_congr_right fun hok => ih (hstep start a h0 hok)

/-- What no step can restore held at every earlier point of the history. -/
lemma good_of_run (good : σ → Prop) (hback : ∀ s a, good (step s a) → good s)
    (hb : before <+: inputs) (h : good (run step start inputs)) : good (run step start before) := by
  obtain ⟨rest, rfl⟩ := hb
  induction rest using reverseRecOn with
  | nil => rwa [append_nil] at h
  | append_singleton rest a ih =>
    rw [← append_assoc, run_concat] at h
    exact ih (hback _ a h)

/-- When a step that is not admitted spoils the property at once, the
property holds along a whole history exactly if all its steps are admitted. -/
lemma good_iff_admitted {good : List α → σ → Prop} (h0 : inv [] start)
    (hstep : ∀ before s a, inv before s → ok s a → inv (before ++ [a]) (step s a))
    (hgood : ∀ before s, inv before s → good before s)
    (hbad : ∀ before s a, inv before s → ¬ ok s a → ¬ good (before ++ [a]) (step s a))
    (inputs : List α) : (∀ before, before <+: inputs → good before (run step start before)) ↔
      Admitted step start ok inputs := by
  constructor
  · intro hg
    induction inputs using reverseRecOn with
    | nil =>
      intro before a hb
      simp at hb
    | append_singleton inputs b ih =>
      have hi : Admitted step start ok inputs :=
        ih (fun before hb => hg before (hb.trans (prefix_append _ _)))
      have hlast : ok (run step start inputs) b := by
        by_contra hn
        have hinv := run_inv inv h0 hstep inputs hi
        apply hbad inputs _ b hinv hn
        rw [← run_concat step start]
        exact hg _ (prefix_refl _)
      intro before a hb
      obtain heq | hpre := prefix_concat_iff.mp hb
      · obtain ⟨rfl, h⟩ := append_inj' heq rfl
        cases h
        exact hlast
      · exact hi before a hpre
  · intro hok before hb
    exact hgood before _ (run_inv inv h0 hstep before (hok.of_prefix hb))

end Neuropil.Lib.Run
