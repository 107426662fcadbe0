import Mathlib.Data.Finset.Functor
import Mathlib.GroupTheory.Perm.Support
import Mathlib.Order.Interval.Finset.Nat
import Neuropil.Lib.Fault

namespace Neuropil.Jobqueue.Heap

open Function Multiset Lib.Fault

variable {α : Type}

structure BinheapNode (α : Type) where
  sentinel : Bool
  data : α

/-- The heap of `np_heap.h`. The elements start at index 1, index 0 holds the sentinel. -/
structure Binheap (α : Type) where
  count : ℕ
  size : ℕ
  elements : ℕ → BinheapNode α

/-- What ends a heap operation before its time: one of three assertions, or a sift without an
end. -/
inductive HeapFault
  | full
  | empty
  | sentinel
  | overrun
  deriving DecidableEq

-- The indices are `uint16_t`, so the children of an index above 32767 wrap around.
def heapLeft (i : ℕ) : ℕ := 2 * i % 65536

def heapRight (i : ℕ) : ℕ := (2 * i + 1) % 65536

def heapParent (i : ℕ) : ℕ := if 1 = i then 1 else i / 2

def heapSwap (heap : Binheap α) (i j : ℕ) : Binheap α :=
  { heap with elements := fun k =>
      if k = i then heap.elements j else if k = j then heap.elements i else heap.elements k }

variable (compare : α → α → Bool)

section

variable (heap : Binheap α)

def largest (i : ℕ) : ℕ :=
  let l := heapLeft i
  let r := heapRight i
  let m := if l ≤ heap.count ∧ compare (heap.elements l).data (heap.elements i).data then l else i
  if r ≤ heap.count ∧ compare (heap.elements r).data (heap.elements m).data then r else m

def binheapify : ℕ → Binheap α → ℕ → Except HeapFault (Binheap α)
  | 0, _, _ => .error .overrun
  | fuel + 1, heap, i =>
    if largest compare heap i ≠ i then
      binheapify fuel (heapSwap heap i (largest compare heap i)) (largest compare heap i)
    else .ok heap

def binheapInit (max_nodes : ℕ) (zero : α) : Binheap α := ⟨0, max_nodes, fun i => ⟨i == 0, zero⟩⟩

def binheapIsEmpty : Bool := heap.count == 0

def binheapFirst : Except HeapFault α :=
  if heap.count = 0 then .error .empty
  else if (heap.elements 1).sentinel then .error .sentinel
  else .ok (heap.elements 1).data

def binheapHead : Except HeapFault (α × Binheap α) := do
  let ret ← binheapFirst heap
  let moved := update heap.elements 1 (heap.elements heap.count)
  let rest : Binheap α := ⟨heap.count - 1, heap.size, update moved heap.count (moved 0)⟩
  let heap ← binheapify compare heap.count rest 1
  return (ret, heap)

def siftUp : ℕ → Binheap α → ℕ → Except HeapFault (Binheap α)
  | 0, _, _ => .error .overrun
  | fuel + 1, heap, i =>
    if 1 < i ∧ compare (heap.elements i).data (heap.elements (heapParent i)).data then
      siftUp fuel (heapSwap heap i (heapParent i)) (heapParent i)
    else .ok heap

def binheapInsert (element : α) : Except HeapFault (Binheap α) :=
  if heap.count < heap.size then
    let i := heap.count + 1
    siftUp compare i
      { heap with count := i, elements := update heap.elements i ⟨false, element⟩ } i
  else .error .full

end

variable {compare}

def contents (heap : Binheap α) : Multiset (BinheapNode α) :=
  (Finset.Icc 1 heap.count).val.map heap.elements

structure Holds (heap : Binheap α) (s : Multiset α) : Prop where
  contents_eq : contents heap = s.map (BinheapNode.mk false)

variable {heap : Binheap α} {s : Multiset α}

lemma Holds.count_eq (h : Holds heap s) : heap.count = s.card := by
  have hcard := congrArg Multiset.card h.contents_eq
  simpa [contents] using hcard

lemma Holds.data_eq (h : Holds heap s) : (contents heap).map BinheapNode.data = s := by
  rw [h.contents_eq, Multiset.map_map]
  exact map_id' s

lemma holds_init (max_nodes : ℕ) (zero : α) : Holds (binheapInit max_nodes zero) 0 := by
  constructor
  rfl

variable {i : ℕ}

lemma contents_swap {j : ℕ} (hi : i ∈ Finset.Icc 1 heap.count)
    (hj : j ∈ Finset.Icc 1 heap.count) : contents (heapSwap heap i j) = contents heap := by
  have he : (heapSwap heap i j).elements = heap.elements ∘ Equiv.swap i j := by
    funext k
    simp only [heapSwap, comp_apply, Equiv.swap_apply_def]
    split
    · rfl
    · split <;> rfl
  have hfix : (Finset.Icc 1 heap.count).map (Equiv.swap i j).toEmbedding =
      Finset.Icc 1 heap.count := by
    apply Finset.map_perm
    intro k hk
    by_cases hki : k = i
    · exact hki ▸ hi
    by_cases hkj : k = j
    · exact hkj ▸ hj
    · exact absurd (Equiv.swap_apply_of_ne_of_ne hki hkj) hk
  calc contents (heapSwap heap i j)
      = ((Finset.Icc 1 heap.count).map (Equiv.swap i j).toEmbedding).val.map heap.elements := by
        rw [contents, he, Finset.map_val, Multiset.map_map]
        rfl
    _ = contents heap := by rw [hfix, contents]

lemma Holds.swap (h : Holds heap s) {j : ℕ} (hi : i ∈ Finset.Icc 1 heap.count)
    (hj : j ∈ Finset.Icc 1 heap.count) : Holds (heapSwap heap i j) s :=
  ⟨(contents_swap hi hj).trans h.contents_eq⟩

lemma largest_spec (compare : α → α → Bool) (heap : Binheap α) (hi : i ≤ 32767) :
    largest compare heap i = i ∨ 2 * i ≤ largest compare heap i ∧
      largest compare heap i ≤ heap.count := by
  have hl : heapLeft i = 2 * i := Nat.mod_eq_of_lt (by omega)
  have hr : heapRight i = 2 * i + 1 := Nat.mod_eq_of_lt (by omega)
  simp only [largest, hl, hr]
  split_ifs with h1 h2 h3
  · exact .inr ⟨by omega, h2.1⟩
  · exact .inr ⟨le_refl _, h1.1⟩
  · exact .inr ⟨by omega, h3.1⟩
  · exact .inl rfl

lemma binheapify_holds (compare : α → α → Bool) (fuel : ℕ) (h : Holds heap s) (hi : 1 ≤ i)
    (hcount : heap.count ≤ 32766) (hle : i ≤ heap.count + 1) (hfuel : heap.count + 1 < i + fuel) :
    ∃ heap', binheapify compare fuel heap i = .ok heap' ∧ Holds heap' s ∧
      heap'.size = heap.size := by
  induction fuel generalizing heap i with
  | zero => omega
  | succ fuel ih =>
    obtain hsame | ⟨hlo, hhi⟩ := largest_spec compare heap (i := i) (by omega)
    · exact ⟨heap, by simp [binheapify, hsame], h, rfl⟩
    · have hne : largest compare heap i ≠ i := by omega
      have hswap := h.swap (i := i) (j := largest compare heap i) (Finset.mem_Icc.mpr (by omega))
        (Finset.mem_Icc.mpr (by omega))
      rw [binheapify, if_pos hne]
      exact ih hswap (by omega) hcount (by simp only [heapSwap]; omega)
        (by simp only [heapSwap]; omega)

lemma heapParent_spec (hi : 1 < i) : 1 ≤ heapParent i ∧ heapParent i < i := by
  unfold heapParent
  split <;> omega

lemma siftUp_holds (compare : α → α → Bool) (fuel : ℕ) (h : Holds heap s) (hi : 1 ≤ i)
    (hle : i ≤ heap.count) (hfuel : i ≤ fuel) :
    ∃ heap', siftUp compare fuel heap i = .ok heap' ∧ Holds heap' s ∧ heap'.size = heap.size := by
  induction fuel generalizing heap i with
  | zero => omega
  | succ fuel ih =>
    by_cases hup : 1 < i ∧ compare (heap.elements i).data (heap.elements (heapParent i)).data
    · obtain ⟨hp, hlt⟩ := heapParent_spec hup.1
      have hswap := h.swap (i := i) (j := heapParent i) (Finset.mem_Icc.mpr ⟨hi, hle⟩)
        (Finset.mem_Icc.mpr (by omega))
      rw [siftUp, if_pos hup]
      exact ih hswap hp (by simp only [heapSwap]; omega) (by omega)
    · exact ⟨heap, by rw [siftUp, if_neg hup], h, rfl⟩

lemma contents_append (count size : ℕ) (elements : ℕ → BinheapNode α) (x : BinheapNode α) :
    contents ⟨count + 1, size, update elements (count + 1) x⟩ =
      x ::ₘ contents ⟨count, size, elements⟩ := by
  have hIcc : Finset.Icc 1 (count + 1) = insert (count + 1) (Finset.Icc 1 count) := by
    ext k
    simp only [Finset.mem_Icc, Finset.mem_insert]
    omega
  have hnot : count + 1 ∉ Finset.Icc 1 count := by simp
  simp only [contents, hIcc, Finset.insert_val_of_notMem hnot, Multiset.map_cons, update_self]
  congr 1
  apply Multiset.map_congr rfl
  intro k hk
  have hle := (Finset.mem_Icc.mp (Finset.mem_val.mp hk)).2
  rw [update_of_ne (by omega)]

lemma binheapInsert_full (element : α) (h : ¬ heap.count < heap.size) :
    binheapInsert compare heap element = .error .full := if_neg h

lemma binheapInsert_holds (compare : α → α → Bool) (h : Holds heap s)
    (hroom : heap.count < heap.size) (element : α) :
    ∃ heap', binheapInsert compare heap element = .ok heap' ∧ Holds heap' (element ::ₘ s) ∧
      heap'.size = heap.size := by
  rw [binheapInsert, if_pos hroom]
  refine siftUp_holds compare (heap.count + 1) ⟨?_⟩ (by omega) (le_refl _) (le_refl _)
  rw [contents_append, Multiset.map_cons, ← h.contents_eq]

lemma contents_shift (hpos : heap.count ≠ 0) :
    contents heap = heap.elements 1 ::ₘ
      contents ⟨heap.count - 1, heap.size,
        update (update heap.elements 1 (heap.elements heap.count)) heap.count
          (update heap.elements 1 (heap.elements heap.count) 0)⟩ := by
  obtain ⟨n, hn⟩ := Nat.exists_eq_succ_of_ne_zero hpos
  have hone : 1 ∈ Finset.Icc 1 heap.count := Finset.mem_Icc.mpr (by omega)
  have hlast : heap.count ∈ Finset.Icc 1 heap.count := Finset.mem_Icc.mpr (by omega)
  have hagree : contents ⟨heap.count - 1, heap.size,
        update (update heap.elements 1 (heap.elements heap.count)) heap.count
          (update heap.elements 1 (heap.elements heap.count) 0)⟩ =
      contents ⟨heap.count - 1, heap.size, (heapSwap heap 1 heap.count).elements⟩ := by
    apply Multiset.map_congr rfl
    intro k hk
    have hk := Finset.mem_Icc.mp (Finset.mem_val.mp hk)
    have hne : k ≠ heap.count := by simp only at hk; omega
    simp only [update_of_ne hne, heapSwap, update_apply, if_neg hne]
  have hspl : contents (heapSwap heap 1 heap.count) = heap.elements 1 ::ₘ
      contents ⟨heap.count - 1, heap.size, (heapSwap heap 1 heap.count).elements⟩ := by
    have hself : (heapSwap heap 1 heap.count).elements =
        update (heapSwap heap 1 heap.count).elements (n + 1) (heap.elements 1) := by
      rw [eq_comm, update_eq_self_iff, ← Nat.succ_eq_add_one, ← hn]
      simp only [heapSwap, ↓reduceIte]
      split
      · simp_all
      · rfl
    have ha := contents_append n heap.size (heapSwap heap 1 heap.count).elements (heap.elements 1)
    rw [← hself] at ha
    simpa only [heapSwap, hn, Nat.succ_eq_add_one, Nat.add_sub_cancel] using ha
  rw [hagree, ← hspl, contents_swap hone hlast]

lemma binheapFirst_holds (h : Holds heap s) (hpos : heap.count ≠ 0) :
    binheapFirst heap = .ok (heap.elements 1).data ∧ (heap.elements 1).sentinel = false := by
  have hmem : heap.elements 1 ∈ contents heap := by
    rw [contents_shift hpos]
    exact mem_cons_self _ _
  rw [h.contents_eq, Multiset.mem_map] at hmem
  obtain ⟨x, _, hx⟩ := hmem
  have hs : (heap.elements 1).sentinel = false := by rw [← hx]
  exact ⟨by rw [binheapFirst, if_neg hpos, if_neg (by simp [hs])], hs⟩

lemma binheapHead_holds (compare : α → α → Bool) (h : Holds heap s) (hpos : heap.count ≠ 0)
    (hcount : heap.count ≤ 32767) :
    ∃ heap' s', binheapHead compare heap = .ok ((heap.elements 1).data, heap') ∧
      s = (heap.elements 1).data ::ₘ s' ∧ Holds heap' s' ∧ heap'.size = heap.size := by
  obtain ⟨hfst, hsen⟩ := binheapFirst_holds h hpos
  have hnode : heap.elements 1 = ⟨false, (heap.elements 1).data⟩ := by rw [← hsen]
  have hmem : (heap.elements 1).data ∈ s := by
    rw [← h.data_eq, contents_shift hpos, Multiset.map_cons]
    exact mem_cons_self _ _
  obtain ⟨s', rfl⟩ := exists_cons_of_mem hmem
  have hrest := h.contents_eq
  rw [contents_shift hpos, Multiset.map_cons, ← hnode, Multiset.cons_inj_right] at hrest
  obtain ⟨heap', hify, hh, hsize⟩ := binheapify_holds compare heap.count ⟨hrest⟩ (le_refl 1)
    (by simp only; omega) (by simp only; omega) (by simp only; omega)
  refine ⟨heap', s', ?_, rfl, hh, hsize⟩
  simp only [binheapHead, hfst, hify, ok_bind]
  rfl

end Neuropil.Jobqueue.Heap
