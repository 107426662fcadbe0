import Mathlib.Data.List.Nodup

namespace Neuropil.Lib.LinkedList

open List

variable {α : Type}

structure Node (α : Type) where
  addr : ℕ
  val : α
deriving DecidableEq

/-- A doubly linked list, by its nodes from the first to the last one. -/
structure Dll (α : Type) where
  nodes : List (Node α)
  nodup : (nodes.map Node.addr).Nodup

inductive Direction
  | forward
  | backward
deriving DecidableEq

def along : Direction → List (Node α) → List (Node α)
  | .forward, nodes => nodes
  | .backward, nodes => nodes.reverse

def Dll.start (d : Dll α) (dir : Direction) : Option ℕ := (along dir d.nodes).head?.map Node.addr

/-- The link of a node to its neighbour; `none` stands for a node not in the list. -/
def Dll.link (d : Dll α) (dir : Direction) (p : ℕ) : Option (Option ℕ) :=
  match (along dir d.nodes).dropWhile fun n => n.addr != p with
  | [] => none
  | _ :: rest => some (rest.head?.map Node.addr)

def Dll.val (d : Dll α) (p : ℕ) : Option α := (d.nodes.find? fun n => n.addr == p).map Node.val

def Dll.remove [DecidableEq α] (d : Dll α) (value : α) : Dll α where
  nodes := d.nodes.eraseP fun n => n.val == value
  nodup := d.nodup.sublist ((d.nodes.eraseP_sublist).map Node.addr)

variable {dir : Direction} {d : Dll α} {n : Node α} {before rest : List (Node α)} {nodes : List
  (Node α)}

lemma mem_along : n ∈ along dir nodes ↔ n ∈ nodes := by
  cases dir
  · rfl
  · exact mem_reverse

lemma mem_of_along (h : along dir nodes = before ++ n :: rest) : n ∈ nodes := by
  rw [← @mem_along _ dir, h]
  exact mem_append_right _ mem_cons_self

lemma along_length (dir : Direction) (nodes : List (Node α)) :
    (along dir nodes).length = nodes.length := by
  cases dir
  · rfl
  · exact length_reverse

lemma along_filter (dir : Direction) (p : Node α → Bool) (nodes : List (Node α)) :
    (along dir nodes).filter p = along dir (nodes.filter p) := by
  cases dir
  · rfl
  · exact filter_reverse

lemma along_inj {nodes' : List (Node α)} (h : along dir nodes = along dir nodes') :
    nodes = nodes' := by
  cases dir
  · exact h
  · exact reverse_injective h

lemma nodup_along (d : Dll α) (dir : Direction) : ((along dir d.nodes).map Node.addr).Nodup := by
  cases dir
  · exact d.nodup
  · rw [along, map_reverse]
    exact nodup_reverse.2 d.nodup

lemma addr_ne_of_before (h : along dir d.nodes = before ++ n :: rest) :
    ∀ m ∈ before, m.addr ≠ n.addr := by
  have hnd := nodup_along d dir
  rw [h, map_append, map_cons, nodup_append] at hnd
  intro m hm
  exact hnd.2.2 m.addr (mem_map_of_mem hm) n.addr mem_cons_self

lemma Dll.start_eq (h : along dir d.nodes = n :: rest) : d.start dir = some n.addr := by
  rw [Dll.start, h]
  rfl

lemma Dll.link_eq (h : along dir d.nodes = before ++ n :: rest) :
    d.link dir n.addr = some (rest.head?.map Node.addr) := by
  have hb : ∀ m ∈ before, (m.addr != n.addr) = true := by
    intro m hm
    exact bne_iff_ne.2 (addr_ne_of_before h m hm)
  have hself : (n.addr != n.addr) = false := bne_self_eq_false _
  have hd : (before ++ n :: rest).dropWhile (fun m => m.addr != n.addr) = n :: rest := by
    rw [dropWhile_append_of_pos hb, dropWhile_cons_of_neg]
    rw [hself]
    exact Bool.false_ne_true
  rw [Dll.link, h, hd]

lemma Dll.val_eq (h : n ∈ d.nodes) : d.val n.addr = some n.val := by
  obtain ⟨before, rest, hnds⟩ := append_of_mem h
  have hb : ∀ m ∈ before, ¬ (m.addr == n.addr) = true := by
    intro m hm heq
    exact @addr_ne_of_before _ .forward d n before rest hnds m hm (beq_iff_eq.1 heq)
  have hnone : before.find? (fun m => m.addr == n.addr) = none := find?_eq_none.2 hb
  rw [Dll.val, hnds, find?_append, hnone, Option.none_or, find?_cons_of_pos]
  · rfl
  · exact beq_self_eq_true _

lemma Dll.exists_of_val {p : ℕ} {a : α} (h : d.val p = some a) :
    ∃ n ∈ d.nodes, n.addr = p ∧ n.val = a := by
  obtain ⟨n, hfind, hval⟩ := Option.map_eq_some_iff.1 h
  have ha : (n.addr == p) = true := find?_some (p := fun n : Node α => n.addr == p) hfind
  exact ⟨n, mem_of_find?_eq_some hfind, beq_iff_eq.1 ha, hval⟩

variable [DecidableEq α]

lemma Dll.remove_nodes (d : Dll α) (value : α) :
    (d.remove value).nodes = d.nodes.eraseP fun n => n.val == value := rfl

lemma Dll.along_remove (h : along dir d.nodes = n :: rest)
    (hval : dir = .forward ∨ n.val ∉ rest.map Node.val) :
    along dir (d.remove n.val).nodes = rest := by
  cases dir with
  | forward =>
    have hnds : d.nodes = n :: rest := h
    rw [along, Dll.remove_nodes, hnds, eraseP_cons_of_pos]
    exact beq_self_eq_true _
  | backward =>
    obtain hfor | hnew := hval
    · cases hfor
    · have hnds : d.nodes = rest.reverse ++ [n] := by
        rw [← reverse_cons, ← h, along, reverse_reverse]
      have hb : ∀ m ∈ rest.reverse, ¬ (m.val == n.val) = true := by
        intro m hm heq
        apply hnew
        rw [← beq_iff_eq.1 heq]
        exact mem_map_of_mem (mem_reverse.1 hm)
      rw [along, Dll.remove_nodes, hnds, eraseP_append_right _ hb,
        eraseP_cons_of_pos, append_nil, reverse_reverse]
      exact beq_self_eq_true _

lemma Dll.remove_again (h : d.nodes = before ++ n :: rest) (hval : n.val ∈ before.map Node.val) :
    ∃ before', (d.remove n.val).nodes = before' ++ n :: rest := by
  obtain ⟨m, hm, hmval⟩ := mem_map.1 hval
  refine ⟨before.eraseP (fun m => m.val == n.val), ?_⟩
  rw [Dll.remove_nodes, h, eraseP_append_left (p := fun m => m.val == n.val) _ _ hm]
  exact beq_iff_eq.2 hmval

lemma Dll.remove_suffix (h : d.nodes = before ++ n :: rest) :
    rest <:+ (d.remove n.val).nodes := by
  by_cases hval : n.val ∈ before.map Node.val
  · obtain ⟨before', hnds⟩ := Dll.remove_again h hval
    exact ⟨before' ++ [n], by rw [hnds, append_assoc]; rfl⟩
  · refine ⟨before, ?_⟩
    rw [Dll.remove_nodes, h, eraseP_append_right, eraseP_cons_of_pos]
    · exact beq_self_eq_true _
    · intro m hm heq
      exact hval (mem_map.2 ⟨m, hm, beq_iff_eq.1 heq⟩)

end Neuropil.Lib.LinkedList
