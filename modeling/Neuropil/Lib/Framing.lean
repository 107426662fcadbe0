import Mathlib.Data.List.Basic

namespace Neuropil.Lib.Framing

open List

variable {α : Type}

/-- A sequence cut into consecutive pieces of `n` elements. What is left at the end is no piece. -/
def frames (n : ℕ) (xs : List α) : List (List α) :=
  (range (xs.length / n)).map fun i => (xs.drop (n * i)).take n

lemma frames_cons {n : ℕ} (hn : 0 < n) {frame : List α} (hframe : frame.length = n)
    (xs : List α) : frames n (frame ++ xs) = frame :: frames n xs := by
  have hlen : (frame ++ xs).length / n = xs.length / n + 1 := by
    rw [length_append, hframe, Nat.add_div_left _ hn]
  have hrest : ∀ i, ((frame ++ xs).drop (n * (i + 1))).take n = (xs.drop (n * i)).take n := by
    intro i
    rw [Nat.mul_succ, Nat.add_comm, ← drop_drop, drop_left' hframe]
  simp only [frames, hlen, range_succ_eq_map, map_cons, map_map, Function.comp_def, hrest]
  rw [Nat.mul_zero, drop_zero, take_left' hframe]

lemma frames_append {n : ℕ} (hn : 0 < n) {pieces : List (List α)}
    (hpie : ∀ piece ∈ pieces, piece.length = n) (rest : List α) :
    frames n (pieces.flatten ++ rest) = pieces ++ frames n rest := by
  induction pieces with
  | nil => rfl
  | cons piece pieces ih =>
    obtain ⟨hpiece, hpie⟩ := forall_mem_cons.1 hpie
    rw [flatten_cons, append_assoc, frames_cons hn hpiece, ih hpie, cons_append]

lemma frames_flatten {n : ℕ} {pieces : List (List α)} {rest : List α}
    (hpie : ∀ piece ∈ pieces, piece.length = n) (hrest : rest.length < n) :
    frames n (pieces.flatten ++ rest) = pieces := by
  have hnone : frames n rest = [] := by simp [frames, Nat.div_eq_of_lt hrest]
  rw [frames_append (by omega) hpie, hnone, append_nil]

end Neuropil.Lib.Framing
