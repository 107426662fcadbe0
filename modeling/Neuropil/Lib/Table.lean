import Mathlib.Data.Fintype.Card

namespace Neuropil.Lib.Table

open Function

variable {ι α : Type} [Fintype ι] (t : ι → Option α)

def filled : ℕ := (Finset.univ.filter (fun p => (t p).isSome)).card

lemma filled_le : filled t ≤ Fintype.card ι := Finset.card_filter_le _ _

lemma filled_empty : filled (fun _ : ι => (none : Option α)) = 0 := by simp [filled]

variable [DecidableEq ι] {p : ι}

lemma filled_insert (x : α) (h : t p = none) : filled (update t p (some x)) = filled t + 1 := by
  have hs : Finset.univ.filter (fun q => (update t p (some x) q).isSome) =
      insert p (Finset.univ.filter (fun q => (t q).isSome)) := by
    ext q
    by_cases hq : q = p
    · subst hq; simp
    · simp [hq]
  rw [filled, hs, Finset.card_insert_of_notMem (by simp [h]), filled]

variable {x : α}

lemma filled_replace (y : α) (h : t p = some x) : filled (update t p (some y)) = filled t := by
  have hs : Finset.univ.filter (fun q => (update t p (some y) q).isSome) =
      Finset.univ.filter (fun q => (t q).isSome) := by
    ext q
    by_cases hq : q = p
    · subst hq; simp [h]
    · simp [hq]
  rw [filled, hs, filled]

lemma filled_clear (h : t p = some x) : filled (update t p none) + 1 = filled t := by
  have he : update (update t p none) p (some x) = t := by
    rw [update_idem, ← h, update_eq_self]
  have hn : update t p none p = none := update_self p none t
  rw [← filled_insert (update t p none) x hn, he]

/-- No value is held by two entries. -/
def Unique : Prop := ∀ p q x, t p = some x → t q = some x → p = q

omit [Fintype ι] in
lemma Unique.update {t : ι → Option α} (h : Unique t) (p : ι) {v : Option α}
    (hv : ∀ x q, v = some x → q ≠ p → t q ≠ some x) : Unique (update t p v) := by
  intro a b y ha hb
  by_cases hap : a = p <;> by_cases hbp : b = p
  · rw [hap, hbp]
  · subst hap
    rw [update_self] at ha
    rw [update_of_ne hbp] at hb
    exact absurd hb (hv y b ha hbp)
  · subst hbp
    rw [update_self] at hb
    rw [update_of_ne hap] at ha
    exact absurd ha (hv y a hb hap)
  · rw [update_of_ne hap] at ha
    rw [update_of_ne hbp] at hb
    exact h a b y ha hb

omit [Fintype ι] in
lemma mem_of_clear {t : ι → Option α} {q : ι} (h : update t p none q = some x) :
    t q = some x ∧ q ≠ p := by
  by_cases hq : q = p
  · subst hq; simp at h
  · rw [update_of_ne hq] at h
    exact ⟨h, hq⟩

end Neuropil.Lib.Table
