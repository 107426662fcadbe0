import Neuropil.Lib.Fault

namespace Neuropil.Lib.Cells

open Lib.Fault

variable {ε α : Type} (fault : ε)

def load (cells : List α) (i : ℕ) : Except ε α :=
  match cells[i]? with
  | some a => .ok a
  | none => .error fault

def store (cells : List α) (i : ℕ) (a : α) : Except ε (List α) :=
  if i < cells.length then .ok (cells.set i a) else .error fault

def shiftDown : (rounds j : ℕ) → List α → Except ε (ℕ × List α)
  | 0, j, cells => .ok (j, cells)
  | rounds + 1, j, cells => do
    let a ← load fault cells (j + 1)
    let cells ← store fault cells j a
    shiftDown rounds (j + 1) cells

lemma load_of_getElem? {cells : List α} {i : ℕ} {a : α} (h : cells[i]? = some a) :
    load fault cells i = .ok a := by
  rw [load, h]

lemma store_of_lt {cells : List α} {i : ℕ} (h : i < cells.length) (a : α) :
    store fault cells i a = .ok (cells.set i a) :=
  if_pos h

lemma load_append (before : List α) (a : α) (rest : List α) :
    load fault (before ++ a :: rest) before.length = .ok a :=
  load_of_getElem? fault (by simp)

lemma store_append (before : List α) (a b : α) (rest : List α) :
    store fault (before ++ a :: rest) before.length b = .ok (before ++ b :: rest) := by
  rw [store_of_lt fault (by simp), List.set_append_right _ _ le_rfl, Nat.sub_self,
    List.set_cons_zero]

lemma shiftDown_succ (rounds : ℕ) (before : List α) (a b : α) (rest : List α) :
    shiftDown fault (rounds + 1) before.length (before ++ a :: b :: rest) =
      shiftDown fault rounds (before ++ [b]).length ((before ++ [b]) ++ b :: rest) := by
  have hload : load fault (before ++ a :: b :: rest) (before.length + 1) = .ok b :=
    load_of_getElem? fault (by simp)
  rw [shiftDown, hload, ok_bind, store_append, ok_bind, List.length_append, List.append_assoc]
  rfl

lemma shiftDown_ok {rounds : ℕ} {before : List α} {a : α} {rest : List α}
    (h : rounds ≤ rest.length) : shiftDown fault rounds before.length (before ++ a :: rest) =
      .ok (before.length + rounds, before ++ (rest.take rounds ++ (a :: rest).drop rounds)) := by
  induction rounds generalizing before a rest with
  | zero => rfl
  | succ rounds ih =>
    cases rest with
    | nil => simp at h
    | cons b rest =>
      rw [shiftDown_succ, ih (by simpa using h)]
      simp [Nat.add_assoc, Nat.add_comm 1]

lemma shiftDown_fault {rounds : ℕ} {before : List α} {a : α} {rest : List α}
    (h : rest.length < rounds) :
    shiftDown fault rounds before.length (before ++ a :: rest) = .error fault := by
  induction rounds generalizing before a rest with
  | zero => simp at h
  | succ rounds ih =>
    cases rest with
    | nil =>
      have hload : load fault (before ++ [a]) (before.length + 1) = .error fault := by
        simp [load]
      rw [shiftDown, hload]
      rfl
    | cons b rest =>
      rw [shiftDown_succ]
      exact ih (by simpa using h)

end Neuropil.Lib.Cells
