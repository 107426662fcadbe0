import Mathlib.Data.List.AList
import Neuropil.Lib.Fault
import Neuropil.Lib.LinkedList

namespace Neuropil.Util.Dll

open List Lib.Fault Lib.LinkedList

variable {α : Type}

inductive Fault
  | useAfterFree
deriving DecidableEq

structure Cell (α : Type) where
  val : α
  flink : Option ℕ
  blink : Option ℕ
deriving DecidableEq

abbrev Heap (α : Type) := AList fun _ : ℕ => Cell α

/-- `TYPE_dll_t`, with the heap that its nodes are on. -/
structure DllT (α : Type) where
  heap : Heap α
  size : UInt32
  first : Option ℕ
  last : Option ℕ

def load (heap : Heap α) (p : ℕ) : Except Fault (Cell α) :=
  match heap.lookup p with
  | some cell => .ok cell
  | none => .error .useAfterFree

def setBlink (heap : Heap α) (node blink : Option ℕ) : Except Fault (Heap α) :=
  match node with
  | none => .ok heap
  | some p => do
    let cell ← load heap p
    return heap.insert p { cell with blink := blink }

def setFlink (heap : Heap α) (node flink : Option ℕ) : Except Fault (Heap α) :=
  match node with
  | none => .ok heap
  | some p => do
    let cell ← load heap p
    return heap.insert p { cell with flink := flink }

def dllInit : DllT α := ⟨∅, 0, none, none⟩

/-- `TYPE_dll_append`; `calloc` finds an address that is not in use. -/
def dllAppend (calloc : List ℕ → ℕ) (dll_list : DllT α) (value : α) : Except Fault (DllT α) :=
  let dll_node := calloc dll_list.heap.keys
  let heap := dll_list.heap.insert dll_node ⟨value, none, none⟩
  match dll_list.last with
  | some last => do
    let heap ← setFlink heap (some last) (some dll_node)
    let heap ← setBlink heap (some dll_node) (some last)
    return ⟨heap, dll_list.size + 1, dll_list.first, some dll_node⟩
  | none => .ok ⟨heap, dll_list.size + 1, some dll_node, some dll_node⟩

def dllHead (dll_list : DllT α) : Except Fault (Option α × DllT α) :=
  match dll_list.first with
  | none => .ok (none, dll_list)
  | some tmp => do
    let cell ← load dll_list.heap tmp
    let heap ← setBlink dll_list.heap cell.flink none
    return (some cell.val, ⟨heap.erase tmp, dll_list.size - 1, cell.flink,
      if cell.flink = none then none else dll_list.last⟩)

def dllTail (dll_list : DllT α) : Except Fault (Option α × DllT α) :=
  match dll_list.last with
  | none => .ok (none, dll_list)
  | some tmp => do
    let cell ← load dll_list.heap tmp
    let heap ← setFlink dll_list.heap cell.blink none
    return (some cell.val, ⟨heap.erase tmp, dll_list.size - 1,
      if cell.blink = none then none else dll_list.first, cell.blink⟩)

def firstAddr (nodes : List (Node α)) (next : Option ℕ) : Option ℕ :=
  (nodes.head?.map Node.addr).or next

def lastAddr (prev : Option ℕ) (nodes : List (Node α)) : Option ℕ :=
  (nodes.getLast?.map Node.addr).or prev

/-- The nodes stand on the heap, linked to each other and at both ends to given addresses. -/
def Segment (heap : Heap α) : Option ℕ → List (Node α) → Option ℕ → Prop
  | _, [], _ => True
  | prev, n :: rest, next =>
    heap.lookup n.addr = some ⟨n.val, firstAddr rest next, prev⟩ ∧
      Segment heap (some n.addr) rest next

/-- A list in memory and the nodes it consists of. -/
structure Represents (dll_list : DllT α) (nodes : List (Node α)) : Prop where
  nodup : (nodes.map Node.addr).Nodup
  linked : Segment dll_list.heap none nodes none
  first : dll_list.first = firstAddr nodes none
  last : dll_list.last = lastAddr none nodes
  size : dll_list.size = UInt32.ofNat nodes.length

section

variable {heap heap' : Heap α} {prev next : Option ℕ} {nodes before rest : List (Node α)}
  {n : Node α}

lemma firstAddr_append (a b : List (Node α)) (next : Option ℕ) :
    firstAddr (a ++ b) next = firstAddr a (firstAddr b next) := by
  cases a <;> rfl

section

variable (prev : Option ℕ)

lemma lastAddr_cons (n : Node α) (rest : List (Node α)) :
    lastAddr prev (n :: rest) = lastAddr (some n.addr) rest := by
  rw [lastAddr, lastAddr, getLast?_cons]
  cases rest.getLast? <;> rfl

lemma lastAddr_append (a b : List (Node α)) :
    lastAddr prev (a ++ b) = lastAddr (lastAddr prev a) b := by
  induction a generalizing prev with
  | nil => rfl
  | cons n a ih => rw [cons_append, lastAddr_cons, ih, lastAddr_cons]

lemma lastAddr_concat (nodes : List (Node α)) (n : Node α) :
    lastAddr prev (nodes ++ [n]) = some n.addr := by
  rw [lastAddr_append]
  rfl

lemma segment_append (a b : List (Node α)) (next : Option ℕ) : Segment heap prev (a ++ b) next ↔
      Segment heap prev a (firstAddr b next) ∧ Segment heap (lastAddr prev a) b next := by
  induction a generalizing prev with
  | nil => exact (iff_of_eq (true_and _)).symm
  | cons n a ih =>
    rw [cons_append, Segment, Segment, ih, firstAddr_append, lastAddr_cons, and_assoc]

end

lemma Segment.frame (h : Segment heap prev nodes next)
    (hframe : ∀ n ∈ nodes, heap'.lookup n.addr = heap.lookup n.addr) :
    Segment heap' prev nodes next := by
  induction nodes generalizing prev with
  | nil => trivial
  | cons n rest ih =>
    obtain ⟨hcell, hrest⟩ := h
    rw [forall_mem_cons] at hframe
    exact ⟨hframe.1.trans hcell, ih hrest hframe.2⟩

lemma load_eq {p : ℕ} {cell : Cell α} (h : heap.lookup p = some cell) :
    load heap p = .ok cell := by
  rw [load, h]

variable (h : Segment heap prev nodes next) (hnodup : (nodes.map Node.addr).Nodup)
include h hnodup

lemma segment_setBlink (blink : Option ℕ) :
    ∃ heap', setBlink heap (firstAddr nodes none) blink = .ok heap' ∧
      Segment heap' blink nodes next ∧
      ∀ q, q ∉ nodes.map Node.addr → heap'.lookup q = heap.lookup q := by
  cases nodes with
  | nil => exact ⟨heap, rfl, trivial, fun q _ => rfl⟩
  | cons n rest =>
    obtain ⟨hcell, hrest⟩ := h
    rw [map_cons, nodup_cons] at hnodup
    refine ⟨heap.insert n.addr ⟨n.val, firstAddr rest next, blink⟩, ?_, ⟨?_, ?_⟩, ?_⟩
    · change load heap n.addr >>= _ = _
      rw [load_eq hcell, ok_bind]
      rfl
    · exact AList.lookup_insert heap
    · apply hrest.frame
      intro m hm
      apply AList.lookup_insert_ne
      intro heq
      exact hnodup.1 (heq ▸ mem_map_of_mem hm)
    · intro q hq
      rw [map_cons, mem_cons, not_or] at hq
      exact AList.lookup_insert_ne hq.1

lemma segment_setFlink (flink : Option ℕ) :
    ∃ heap', setFlink heap (lastAddr none nodes) flink = .ok heap' ∧
      Segment heap' prev nodes flink ∧
      ∀ q, q ∉ nodes.map Node.addr → heap'.lookup q = heap.lookup q := by
  obtain rfl | ⟨init, n, rfl⟩ := nodes.eq_nil_or_concat'
  · exact ⟨heap, rfl, trivial, fun q _ => rfl⟩
  · rw [segment_append] at h
    obtain ⟨hinit, hcell, -⟩ := h
    rw [map_append, nodup_append] at hnodup
    have hne : ∀ m ∈ init, m.addr ≠ n.addr := by
      intro m hm
      exact hnodup.2.2 m.addr (mem_map_of_mem hm) n.addr (by simp)
    refine ⟨heap.insert n.addr ⟨n.val, flink, lastAddr prev init⟩, ?_, ?_, ?_⟩
    · rw [lastAddr_concat]
      change load heap n.addr >>= _ = _
      rw [load_eq hcell, ok_bind]
      rfl
    · rw [segment_append]
      refine ⟨hinit.frame ?_, AList.lookup_insert heap, trivial⟩
      intro m hm
      exact AList.lookup_insert_ne (hne m hm)
    · intro q hq
      apply AList.lookup_insert_ne
      intro heq
      exact hq (by simp [heq])

end

variable {dll_list : DllT α} {nodes before rest : List (Node α)} {n : Node α}

lemma represents_init : Represents (dllInit : DllT α) [] := ⟨nodup_nil, trivial, rfl, rfl, rfl⟩

lemma Represents.mem_heap (h : Represents dll_list nodes) :
    ∀ n ∈ nodes, n.addr ∈ dll_list.heap.keys := by
  intro n hn
  obtain ⟨before, rest, rfl⟩ := append_of_mem hn
  obtain ⟨-, hcell, -⟩ := (segment_append none before (n :: rest) none).1 h.linked
  rw [← AList.mem_keys, ← AList.lookup_isSome, hcell]
  rfl

lemma represents_append {calloc : List ℕ → ℕ} (hcal : ∀ keys, calloc keys ∉ keys)
    (h : Represents dll_list nodes) (value : α) :
    ∃ dll_list' addr, dllAppend calloc dll_list value = .ok dll_list' ∧
      Represents dll_list' (nodes ++ [⟨addr, value⟩]) := by
  let p := calloc dll_list.heap.keys
  have hnew : ∀ n ∈ nodes, n.addr ≠ p := by
    intro n hn heq
    exact hcal _ (heq ▸ h.mem_heap n hn)
  have hnodup : ((nodes ++ [(⟨p, value⟩ : Node α)]).map Node.addr).Nodup := by
    rw [map_append, nodup_append]
    refine ⟨h.nodup, nodup_singleton _, ?_⟩
    intro a ha b hb
    obtain ⟨n, hn, rfl⟩ := mem_map.1 ha
    rw [mem_singleton.1 hb]
    exact hnew n hn
  have hsize : dll_list.size + 1 = UInt32.ofNat (nodes ++ [(⟨p, value⟩ : Node α)]).length := by
    rw [h.size, length_append, length_singleton, UInt32.ofNat_add]
    rfl
  -- the new node does not touch the others
  have hkept : Segment (dll_list.heap.insert p ⟨value, none, none⟩) none nodes none := by
    apply h.linked.frame
    intro n hn
    exact AList.lookup_insert_ne (hnew n hn)
  obtain rfl | ⟨init, l, rfl⟩ := nodes.eq_nil_or_concat'
  · refine ⟨⟨dll_list.heap.insert p ⟨value, none, none⟩, dll_list.size + 1, some p, some p⟩, p, ?_,
      ⟨hnodup, ⟨AList.lookup_insert _, trivial⟩, rfl, rfl, hsize⟩⟩
    have hlast : dll_list.last = none := h.last
    rw [dllAppend, hlast]
  · obtain ⟨heap1, hset1, hl1, hf1⟩ := segment_setFlink hkept h.nodup (some p)
    have hp : p ∉ (init ++ [l]).map Node.addr := by
      intro hmem
      obtain ⟨n, hn, heq⟩ := mem_map.1 hmem
      exact hnew n hn heq
    have hcell : heap1.lookup p = some ⟨value, none, none⟩ := by
      rw [hf1 p hp]
      exact AList.lookup_insert _
    have hlast : dll_list.last = some l.addr := by rw [h.last, lastAddr_concat]
    rw [lastAddr_concat] at hset1
    refine ⟨⟨heap1.insert p ⟨value, none, some l.addr⟩, dll_list.size + 1, dll_list.first, some p⟩,
      p, ?_, ⟨hnodup, ?_, ?_, ?_, hsize⟩⟩
    · simp only [dllAppend, hlast]
      rw [hset1, ok_bind]
      change (load heap1 p >>= _) >>= _ = _
      rw [load_eq hcell]
      rfl
    · rw [segment_append, lastAddr_concat]
      refine ⟨hl1.frame ?_, AList.lookup_insert _, trivial⟩
      intro n hn
      exact AList.lookup_insert_ne (hnew n hn)
    · rw [h.first, firstAddr_append]
      cases init <;> rfl
    · rw [lastAddr_concat]

section

variable (h : Represents dll_list (before ++ n :: rest))
include h

lemma Represents.apart : (before.map Node.addr).Nodup ∧ (rest.map Node.addr).Nodup ∧
      n.addr ∉ before.map Node.addr ∧ n.addr ∉ rest.map Node.addr ∧
      ∀ q ∈ before.map Node.addr, q ∉ rest.map Node.addr := by
  have hnodup := h.nodup
  rw [map_append, map_cons, nodup_append, nodup_cons] at hnodup
  obtain ⟨hb, ⟨hn_rest, hrest⟩, hd⟩ := hnodup
  refine ⟨hb, hrest, ?_, hn_rest, ?_⟩
  · intro hmem
    exact hd _ hmem _ mem_cons_self rfl
  · intro q hq hmem
    exact hd q hq q (mem_cons_of_mem _ hmem) rfl

lemma Represents.unlink :
    ∃ heap1 heap2,
      setBlink dll_list.heap (firstAddr rest none) (lastAddr none before) = .ok heap1 ∧
      setFlink heap1 (lastAddr none before) (firstAddr rest none) = .ok heap2 ∧
      Segment (heap2.erase n.addr) none (before ++ rest) none := by
  obtain ⟨hb, -, hrest⟩ := (segment_append none before (n :: rest) none).1 h.linked
  obtain ⟨hnodup_before, hnodup_rest, hn_before, hn_rest, ha⟩ := h.apart
  obtain ⟨heap1, hset1, hl1, hf1⟩ := segment_setBlink hrest hnodup_rest (lastAddr none before)
  have hb1 : Segment heap1 none before (firstAddr (n :: rest) none) := by
    apply hb.frame
    intro m hm
    exact hf1 m.addr (ha _ (mem_map_of_mem hm))
  obtain ⟨heap2, hset2, hl2, hf2⟩ := segment_setFlink hb1 hnodup_before (firstAddr rest none)
  refine ⟨heap1, heap2, hset1, hset2, (segment_append none before rest none).2 ⟨?_, ?_⟩⟩
  · apply hl2.frame
    intro m hm
    apply AList.lookup_erase_ne
    intro heq
    exact hn_before (heq ▸ mem_map_of_mem hm)
  · apply hl1.frame
    intro m hm
    have hm' : m.addr ∈ rest.map Node.addr := mem_map_of_mem hm
    have hne : m.addr ≠ n.addr := by
      intro heq
      exact hn_rest (heq ▸ hm')
    rw [AList.lookup_erase_ne hne]
    exact hf2 m.addr fun hmem => ha _ hmem hm'

lemma Represents.size_unlinked : dll_list.size - 1 = UInt32.ofNat (before ++ rest).length := by
  have hlen : (before ++ n :: rest).length = (before ++ rest).length + 1 := by
    rw [length_append, length_cons, length_append, Nat.add_assoc]
  rw [h.size, hlen, UInt32.ofNat_add]
  exact UInt32.add_sub_cancel _ 1

lemma Represents.nodup_unlinked : ((before ++ rest).map Node.addr).Nodup := by
  obtain ⟨hbf, hrest, -, -, hapart⟩ := h.apart
  rw [map_append, nodup_append]
  refine ⟨hbf, hrest, ?_⟩
  intro a ha b hb heq
  exact hapart a ha (heq ▸ hb)

lemma Represents.lookup :
    dll_list.heap.lookup n.addr = some ⟨n.val, firstAddr rest none, lastAddr none before⟩ :=
  ((segment_append none before (n :: rest) none).1 h.linked).2.1

end

lemma represents_head (h : Represents dll_list (n :: rest)) :
    ∃ dll_list', dllHead dll_list = .ok (some n.val, dll_list') ∧ Represents dll_list' rest := by
  have h' : Represents dll_list ([] ++ n :: rest) := h
  obtain ⟨heap1, heap2, hset1, hset2, hlk⟩ := h'.unlink
  have hh : heap1 = heap2 := Except.ok.inj hset2
  have hset : setBlink dll_list.heap (firstAddr rest none) none = .ok heap1 := hset1
  have hfst : dll_list.first = some n.addr := h.first
  have hlast : (if firstAddr rest none = none then none else dll_list.last) =
      lastAddr none rest := by
    rw [h.last, lastAddr_cons]
    cases rest with
    | nil => rfl
    | cons m rest => rw [lastAddr_cons, lastAddr_cons, if_neg (by simp [firstAddr])]
  refine ⟨⟨heap1.erase n.addr, dll_list.size - 1, firstAddr rest none, lastAddr none rest⟩, ?_,
    h'.nodup_unlinked, hh ▸ hlk, rfl, rfl, h'.size_unlinked⟩
  rw [dllHead, hfst]
  dsimp only
  rw [load_eq h'.lookup, ok_bind]
  rw [hlast, hset, ok_bind]
  rfl

lemma represents_tail (h : Represents dll_list (before ++ [n])) :
    ∃ dll_list', dllTail dll_list = .ok (some n.val, dll_list') ∧ Represents dll_list' before := by
  obtain ⟨heap1, heap2, hset1, hset2, hlk⟩ := h.unlink
  have hh : dll_list.heap = heap1 := Except.ok.inj hset1
  have hset : setFlink heap1 (lastAddr none before) none = .ok heap2 := hset2
  have hlast : dll_list.last = some n.addr := by rw [h.last, lastAddr_concat]
  have hfst : (if lastAddr none before = none then none else dll_list.first) =
      firstAddr before none := by
    rw [h.first, firstAddr_append]
    obtain rfl | ⟨init, m, rfl⟩ := before.eq_nil_or_concat'
    · rfl
    · cases init <;> rfl
  refine ⟨⟨heap2.erase n.addr, dll_list.size - 1, firstAddr before none, lastAddr none before⟩, ?_,
    ?_⟩
  · rw [dllTail, hlast]
    dsimp only
    rw [load_eq h.lookup, ok_bind]
    rw [hfst, hh, hset, ok_bind]
    rfl
  · have hnodup := h.nodup_unlinked
    have hsize := h.size_unlinked
    rw [append_nil] at hnodup hsize hlk
    exact ⟨hnodup, hlk, rfl, rfl, hsize⟩

end Neuropil.Util.Dll
