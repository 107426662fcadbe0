import Mathlib.Data.List.Basic

namespace Neuropil.Lib.Chain

open List

variable {α : Type} {next next' : α → Option α}

def Linked (next : α → Option α) : List α → Prop
  | [] => True
  | a :: l => next a = l.head? ∧ Linked next l

variable {before after : List α}

lemma Linked.next_eq {a : α} (h : Linked next (before ++ a :: after)) : next a = after.head? := by
  induction before with
  | nil => exact h.1
  | cons b before ih => exact ih h.2

lemma Linked.of_append (h : Linked next (before ++ after)) : Linked next after := by
  induction before with
  | nil => exact h
  | cons b before ih => exact ih h.2

lemma Linked.congr {l : List α} (h : Linked next l) (heq : ∀ a ∈ l, next' a = next a) :
    Linked next' l := by
  induction l with
  | nil => trivial
  | cons a l ih =>
    refine ⟨(heq a mem_cons_self).trans h.1, ih h.2 (fun b hb => ?_)⟩
    exact heq b (mem_cons_of_mem a hb)

lemma head?_append_cons (before after after' : List α) (a : α) :
    (before ++ a :: after).head? = (before ++ a :: after').head? := by
  cases before <;> rfl

lemma Linked.insert {a x : α} (h : Linked next (before ++ a :: after))
    (hx : next' x = after.head?) (ha : next' a = some x)
    (hrest : ∀ b ∈ before ++ after, next' b = next b) :
    Linked next' (before ++ a :: x :: after) := by
  induction before with
  | nil => exact ⟨ha, hx, h.2.congr hrest⟩
  | cons b before ih =>
    refine ⟨?_, ih h.2 (fun c hc => hrest c (mem_cons_of_mem b hc))⟩
    rw [hrest b mem_cons_self]
    exact h.1.trans (head?_append_cons before after (x :: after) a)

lemma Linked.remove {a x : α} (h : Linked next (before ++ a :: x :: after))
    (ha : next' a = next x) (hrest : ∀ b ∈ before ++ after, next' b = next b) :
    Linked next' (before ++ a :: after) := by
  induction before with
  | nil => exact ⟨ha.trans h.2.1, h.2.2.congr hrest⟩
  | cons b before ih =>
    refine ⟨?_, ih h.2 (fun c hc => hrest c (mem_cons_of_mem b hc))⟩
    rw [hrest b mem_cons_self]
    exact h.1.trans (head?_append_cons before (x :: after) after a)

def walk (next : α → Option α) : ℕ → Option α → List α
  | 0, _ => []
  | _ + 1, none => []
  | fuel + 1, some a => a :: walk next fuel (next a)

lemma Linked.walk_eq {l : List α} (h : Linked next l) {fuel : ℕ} (hfuel : l.length ≤ fuel) :
    walk next fuel l.head? = l := by
  induction l generalizing fuel with
  | nil => cases fuel <;> rfl
  | cons a l ih =>
    obtain ⟨fuel, rfl⟩ : ∃ n, fuel = n + 1 := ⟨fuel - 1, by simp at hfuel; omega⟩
    rw [head?_cons, walk, h.1, ih h.2 (by simpa using hfuel)]

end Neuropil.Lib.Chain
