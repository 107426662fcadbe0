import Mathlib.Data.List.Infix

namespace Neuropil.Lib.Fault

open List

variable {ε δ α β σ τ : Type}

lemma ok_bind (a : α) (f : α → Except ε β) : (Except.ok a >>= f) = f a := rfl

variable {x : Except ε α} {f : α → Except ε β}

lemma bind_eq_ok {b : β} (h : x >>= f = .ok b) : ∃ a, x = .ok a ∧ f a = .ok b := by
  cases x with
  | error e => cases h
  | ok a => exact ⟨a, rfl, h⟩

lemma map_eq_ok {f : α → β} {b : β} (h : x.map f = .ok b) : ∃ a, x = .ok a ∧ f a = b := by
  cases x with
  | error e => cases h
  | ok a =>
    cases h
    exact ⟨a, rfl, rfl⟩

lemma mapError_eq_ok {f : ε → δ} {a : α} (h : x.mapError f = .ok a) : x = .ok a := by
  cases x with
  | error e => cases h
  | ok b =>
    cases h
    rfl

lemma exists_ok {p : α → Bool} (h : x.toOption.any p) : ∃ a, x = .ok a ∧ p a := by
  cases x with
  | error e => cases h
  | ok a => exact ⟨a, rfl, h⟩

lemma foldlM_mapError (step : σ → α → Except ε σ) (f : ε → δ) (items : List α) (start : σ) :
    items.foldlM (fun s a => (step s a).mapError f) start =
      (items.foldlM step start).mapError f := by
  induction items generalizing start with
  | nil => rfl
  | cons a items ih =>
    rw [foldlM_cons, foldlM_cons]
    cases step start a with
    | error e => rfl
    | ok s => exact ih s

lemma foldlM_map_eq {step : τ → β → Except ε τ} {f : σ → α → σ} (rep : σ → τ) (g : α → β)
    (h : ∀ s a, step (rep s) (g a) = .ok (rep (f s a))) (items : List α) (start : σ) :
    (items.map g).foldlM step (rep start) = .ok (rep (items.foldl f start)) := by
  induction items generalizing start with
  | nil => rfl
  | cons a items ih =>
    rw [map_cons, foldlM_cons, h, ok_bind]
    exact ih (f start a)

variable {step : σ → α → Except ε σ} {start : σ}

lemma foldlM_inv {items : List α} (inv : List α → σ → Prop) (h0 : inv [] start)
    (hstep : ∀ before s a, before ++ [a] <+: items → inv before s →
      ∃ s', step s a = .ok s' ∧ inv (before ++ [a]) s') :
    ∃ s', items.foldlM step start = .ok s' ∧ inv items s' := by
  induction items generalizing start inv with
  | nil => exact ⟨start, rfl, h0⟩
  | cons a items ih =>
    obtain ⟨s, hs, hinv⟩ := hstep [] start a (prefix_append [a] items) h0
    obtain ⟨s', hs', hinv'⟩ := ih (fun before => inv (a :: before)) hinv
      (fun before s b hb => hstep (a :: before) s b ((prefix_cons_inj a).mpr hb))
    exact ⟨s', by rw [foldlM_cons, hs, ok_bind, hs'], hinv'⟩

lemma foldlM_inv_reached {items : List α} (inv : List α → σ → Prop) (h0 : inv [] start)
    (hstep : ∀ before s a, before ++ [a] <+: items → before.foldlM step start = .ok s →
      inv before s → ∃ s', step s a = .ok s' ∧ inv (before ++ [a]) s') :
    ∃ s', items.foldlM step start = .ok s' ∧ inv items s' := by
  obtain ⟨s', hfold, -, hinv⟩ := @foldlM_inv _ _ _ step start items
    (fun before s => before.foldlM step start = .ok s ∧ inv before s) ⟨rfl, h0⟩ (by
      intro before s a hb ⟨hrch, hinv⟩
      obtain ⟨s', hs', hinv'⟩ := hstep before s a hb hrch hinv
      refine ⟨s', hs', ?_, hinv'⟩
      rw [foldlM_append, hrch, ok_bind, foldlM_cons, hs']
      rfl)
  exact ⟨s', hfold, hinv⟩

lemma foldlM_kept {s' : σ} {items : List α} (inv : List α → σ → Prop) (h0 : inv [] start)
    (hstep : ∀ before s a s', inv before s → step s a = .ok s' → inv (before ++ [a]) s')
    (hfold : items.foldlM step start = .ok s') : inv items s' := by
  induction items generalizing start inv with
  | nil =>
    cases hfold
    exact h0
  | cons a items ih =>
    obtain ⟨s, hs, hfold⟩ := bind_eq_ok hfold
    exact ih (fun before => inv (a :: before)) (hstep [] start a s h0 hs)
      (fun before => hstep (a :: before)) hfold

end Neuropil.Lib.Fault
