import Mathlib.Data.List.Sort

namespace Neuropil.Lib.SwapSort

open List

variable {α β : Type} [LinearOrder β] (f : α → β)

/-- Exchange the value of the current node with the first later one that is
strictly smaller. -/
def swapFirst (x : α) : List α → Option (α × List α)
  | [] => none
  | y :: ys => if f y < f x then some (y, x :: ys)
      else (swapFirst x ys).map (fun p => (p.1, y :: p.2))

variable {x y : α} {xs ys : List α}

lemma swapFirst_some (h : swapFirst f x xs = some (y, ys)) :
    ∃ a b, xs = a ++ y :: b ∧ ys = a ++ x :: b ∧ f y < f x ∧ ∀ z ∈ a, f x ≤ f z := by
  induction xs generalizing ys with
  | nil => simp [swapFirst] at h
  | cons z zs ih =>
    by_cases hz : f z < f x
    · simp only [swapFirst, hz, ↓reduceIte, Option.some.injEq, Prod.mk.injEq] at h
      obtain ⟨rfl, rfl⟩ := h
      exact ⟨[], zs, rfl, rfl, hz, by simp⟩
    · simp only [swapFirst, hz, ↓reduceIte, Option.map_eq_some_iff, Prod.mk.injEq] at h
      obtain ⟨⟨w, ws⟩, hw, rfl, rfl⟩ := h
      obtain ⟨a, b, rfl, rfl, hlt, ha⟩ := ih hw
      refine ⟨z :: a, b, rfl, rfl, hlt, ?_⟩
      intro u hu
      obtain rfl | hu := mem_cons.mp hu
      · exact not_lt.mp hz
      · exact ha u hu

lemma swapFirst_none : swapFirst f x xs = none ↔ ∀ z ∈ xs, f x ≤ f z := by
  induction xs with
  | nil => simp [swapFirst]
  | cons z zs ih =>
    by_cases hz : f z < f x
    · simp [swapFirst, hz]
    · simp [swapFirst, hz, ih, not_lt.mp hz]

lemma swapFirst_length (h : swapFirst f x xs = some (y, ys)) : ys.length = xs.length := by
  obtain ⟨a, b, rfl, rfl, _, _⟩ := swapFirst_some f h
  simp

def pass : List α → List α × Bool
  | [] => ([], false)
  | x :: xs => match _h : swapFirst f x xs with
    | some (y, ys) => (y :: (pass ys).1, true)
    | none => (x :: (pass xs).1, (pass xs).2)
termination_by l => l.length
decreasing_by
  all_goals simp only [length_cons]
  · have := swapFirst_length f _h
    omega
  · omega

lemma pass_swap (h : swapFirst f x xs = some (y, ys)) :
    pass f (x :: xs) = (y :: (pass f ys).1, true) := by
  rw [pass]
  split <;> simp_all

lemma pass_keep (h : swapFirst f x xs = none) :
    pass f (x :: xs) = (x :: (pass f xs).1, (pass f xs).2) := by
  rw [pass]
  split <;> simp_all

def inversions : List α → Nat
  | [] => 0
  | x :: xs => xs.countP (fun z => f z < f x) + inversions xs

lemma inversions_exchange {a b : List α} (hlt : f y < f x) (ha : ∀ z ∈ a, f x ≤ f z) :
    inversions f (a ++ x :: b) + b.countP (fun z => f z < f y) ≤
      inversions f (a ++ y :: b) + b.countP (fun z => f z < f x) := by
  induction a with
  | nil => simp only [nil_append, inversions]; omega
  | cons z a ih =>
    have hz : f y < f z := hlt.trans_le (ha z (by simp))
    have hrest := ih (fun u hu => ha u (by simp [hu]))
    simp only [cons_append, inversions, countP_append, countP_cons, hz, decide_true, ↓reduceIte]
    split <;> omega

lemma inversions_swapFirst (h : swapFirst f x xs = some (y, ys)) :
    inversions f (y :: ys) < inversions f (x :: xs) := by
  obtain ⟨a, b, rfl, rfl, hlt, ha⟩ := swapFirst_some f h
  have hex := inversions_exchange f (b := b) hlt ha
  have hax : a.countP (fun z => f z < f x) = 0 := by
    rw [countP_eq_zero]
    intro z hz
    simpa using ha z hz
  have hay : a.countP (fun z => f z < f y) = 0 := by
    rw [countP_eq_zero]
    intro z hz
    simpa using (hlt.trans_le (ha z hz)).le
  simp only [inversions, countP_append, countP_cons, hax, hay, hlt, hlt.not_gt,
    decide_true, decide_false, Bool.false_eq_true, ↓reduceIte]
  omega

lemma pass_perm (l : List α) : (pass f l).1.Perm l := by
  induction l using pass.induct f with
  | case1 => simp [pass]
  | case2 x xs y ys h ih =>
    obtain ⟨a, b, rfl, rfl, _, _⟩ := swapFirst_some f h
    rw [pass_swap f h]
    have hy : (y :: (a ++ x :: b)).Perm (y :: x :: (a ++ b)) := perm_middle.cons y
    have hx : (x :: (a ++ y :: b)).Perm (x :: y :: (a ++ b)) := perm_middle.cons x
    exact (ih.cons y).trans (hy.trans ((List.Perm.swap x y _).trans hx.symm))
  | case3 x xs h ih =>
    rw [pass_keep f h]
    exact ih.cons x

lemma inversions_pass (l : List α) : inversions f (pass f l).1 ≤ inversions f l ∧
      ((pass f l).2 = true → inversions f (pass f l).1 < inversions f l) := by
  induction l using pass.induct f with
  | case1 => simp [pass]
  | case2 x xs y ys h ih =>
    have hp := (pass_perm f ys).countP_eq (fun z => decide (f z < f y))
    have hs := inversions_swapFirst f h
    rw [pass_swap f h]
    simp only [inversions, hp] at hs ⊢
    exact ⟨by omega, fun _ => by omega⟩
  | case3 x xs h ih =>
    have hp := (pass_perm f xs).countP_eq (fun z => decide (f z < f x))
    rw [pass_keep f h]
    simp only [inversions, hp]
    exact ⟨by omega, fun hb => by have := ih.2 hb; omega⟩

/-- Walk over the list until nothing was exchanged. Each exchange removes an inversion. -/
def sort (l : List α) : List α := if (pass f l).2 then sort (pass f l).1 else (pass f l).1
termination_by inversions f l
decreasing_by exact (inversions_pass f l).2 ‹_›

lemma sort_perm (l : List α) : (sort f l).Perm l := by
  induction l using sort.induct f with
  | case1 l hswap ih =>
    rw [sort, if_pos hswap]
    exact ih.trans (pass_perm f l)
  | case2 l hswap =>
    rw [sort, if_neg hswap]
    exact pass_perm f l

variable {l : List α}

lemma pairwise_pass (h : ¬ (pass f l).2 = true) :
    (pass f l).1.Pairwise (fun a b => f a ≤ f b) := by
  induction l with
  | nil => simp [pass]
  | cons x xs ih =>
    cases hswap : swapFirst f x xs with
    | some p => exact absurd (by rw [pass_swap f hswap]) h
    | none =>
      rw [pass_keep f hswap] at h ⊢
      refine pairwise_cons.mpr ⟨fun z hz => ?_, ih h⟩
      exact (swapFirst_none f).mp hswap z ((pass_perm f xs).mem_iff.mp hz)

lemma pairwise_sort (l : List α) : (sort f l).Pairwise (fun a b => f a ≤ f b) := by
  induction l using sort.induct f with
  | case1 l hswap ih =>
    rw [sort, if_pos hswap]
    exact ih
  | case2 l hswap =>
    rw [sort, if_neg hswap]
    exact pairwise_pass f hswap

lemma pass_of_pairwise (h : l.Pairwise (fun a b => f a ≤ f b)) : pass f l = (l, false) := by
  induction l with
  | nil => simp [pass]
  | cons x xs ih =>
    obtain ⟨hx, hxs⟩ := pairwise_cons.mp h
    rw [pass_keep f ((swapFirst_none f).mpr hx), ih hxs]

lemma sort_of_pairwise (h : l.Pairwise (fun a b => f a ≤ f b)) : sort f l = l := by
  rw [sort, pass_of_pairwise f h]
  simp

lemma pass_cons (k : α) (h : l.Pairwise (fun a b => f a ≤ f b)) :
    (pass f (k :: l)).1 = l.orderedInsert (fun a b => f a ≤ f b) k := by
  induction l with
  | nil =>
    have hs : swapFirst f k [] = none := rfl
    simp [pass_keep f hs, pass]
  | cons y ys ih =>
    obtain ⟨hy, hys⟩ := pairwise_cons.mp h
    by_cases hk : f y < f k
    · have hs : swapFirst f k (y :: ys) = some (y, k :: ys) := by simp [swapFirst, hk]
      rw [pass_swap f hs, ih hys, orderedInsert, if_neg (not_le.mpr hk)]
    · have hky : f k ≤ f y := not_lt.mp hk
      have hs : swapFirst f k (y :: ys) = none := by
        rw [swapFirst_none]
        intro z hz
        obtain rfl | hz := mem_cons.mp hz
        · exact hky
        · exact hky.trans (hy z hz)
      rw [pass_keep f hs, pass_of_pairwise f h, orderedInsert, if_pos hky]

lemma sort_cons (k : α) (h : l.Pairwise (fun a b => f a ≤ f b)) :
    sort f (k :: l) = l.orderedInsert (fun a b => f a ≤ f b) k := by
  have hp : (l.orderedInsert (fun a b => f a ≤ f b) k).Pairwise (fun a b => f a ≤ f b) := by
    exact h.orderedInsert k l
  rw [sort, pass_cons f k h, sort_of_pairwise f hp]
  simp

end Neuropil.Lib.SwapSort
