import Neuropil.Cupidtrie.Placement
import Neuropil.Lib.Run

namespace Neuropil.Cupidtrie.TrieRuns

open Function Option Lib.Fault Lib.Radix Lib.Run Cupidtrie.Invariant Cupidtrie.Placement

variable {len : ℕ}

abbrev KeyMap (len : ℕ) := Key len → Option UInt64

/-- What the calls mean for the keys: the data of each inserted and not deleted. -/
def mapStep (m : KeyMap len) : Op len → KeyMap len
  | .insert key write => update m key (some (write ((m key).getD 0)))
  | .delete key => update m key none
  | .find _ => m

def mapAfter (ops : List (Op len)) : KeyMap len := run mapStep (fun _ => none) ops

def Finds (ops : List (Op len)) : Prop :=
  ∃ tree, run step (.ok none) ops = .ok tree ∧
    ∀ key, cupidtrieFind tree key = .ok (mapAfter ops key)

def isLeafOf (key : Key len) : Cell len → Bool
  | .leaf k _ => decide (k = key)
  | _ => false

/-- A key can be inserted unless all keys were deleted from a branch, or it belongs above the branch
that an insert starts from; a key can be deleted unless it is the root. -/
def Admissible : Except Fault (Option (Cell len)) → Op len → Prop
  | .ok tree, .insert key _ => ∀ root ∈ tree, Fits key root
  | .ok tree, .delete key => ∀ root ∈ tree, isLeafOf key root = false
  | _, _ => True

instance decidableFits (new : Key len) : (c : Cell len) → Decidable (Fits new c)
  | .branch shift mask cells =>
    have := decidableFits new (cells (digit new shift))
    inferInstanceAs (Decidable (hasNext mask (digit new shift) = true →
      (matched new (cells (digit new shift)) = true →
        ∀ e ∈ entries (cells (digit new shift)), AgreeBelow digit shift new e.1) ∧
      Fits new (cells (digit new shift))))
  | .freed _ => isFalse id
  | .leaf _ _ | .empty => isTrue trivial

instance : (s : Except Fault (Option (Cell len))) → (op : Op len) → Decidable (Admissible s op)
  | .ok tree, .insert key _ => inferInstanceAs (Decidable (∀ root ∈ tree, Fits key root))
  | .ok tree, .delete key => inferInstanceAs (Decidable (∀ root ∈ tree, isLeafOf key root = false))
  | .ok _, .find _ => isTrue trivial
  | .error _, _ => isTrue trivial

section

variable {tree tree' : Option (Cell len)} {m : KeyMap len} {c c' : Cell len} {key : Key len}

/-- The leaves in use are those of a map; the root may be a branch that was freed. -/
def Represents : Option (Cell len) → KeyMap len → Prop
  | none, m => ∀ key, m key = none
  | some c, m => (Formed c ∨ ∃ shift < 2 * len, c = .freed shift) ∧
      ∀ key data, (key, data) ∈ entries c ↔ m key = some data

lemma find_of_represents (h : Represents tree m) (key : Key len) :
    cupidtrieFind tree key = .ok (m key) := by
  cases tree with
  | none => rw [cupidtrieFind, h key]
  | some c =>
    obtain ⟨hfm | ⟨shift, hshift, rfl⟩, hmem⟩ := h
    · obtain ⟨found, hfind, hfnd⟩ := @findQpe_spec _ c key hfm
      rw [cupidtrieFind, hfind, Except.ok.injEq]
      refine Option.ext fun data => ?_
      exact (hfnd data).trans (hmem key data)
    · have hnone : m key = none := by
        refine eq_none_iff_forall_ne_some.2 fun data hd => ?_
        cases (hmem key data).2 hd
      rw [cupidtrieFind, findQpe, nibble_eq key hshift, ok_bind, hnone]
      rfl

lemma not_mem_keys_iff (hmem : ∀ key data, (key, data) ∈ entries c ↔ m key = some data) :
    key ∉ keys c ↔ m key = none := by
  rw [eq_none_iff_forall_ne_some]
  constructor
  · exact fun h data hd => h ⟨data, (hmem key data).2 hd⟩
  · exact fun h ⟨data, hd⟩ => h data ((hmem key data).1 hd)

lemma Assigned.represents {data : UInt64} (h : Assigned key data c c')
    (hmem : ∀ key data, (key, data) ∈ entries c ↔ m key = some data) :
    Represents (some c') (update m key (some data)) := by
  refine ⟨.inl h.formed, fun k d => ?_⟩
  rw [h.mem, hmem]
  by_cases hk : k = key
  · subst hk
    simp [eq_comm]
  · simp [hk]

lemma insertQpe_represents (hpos : 0 < len) (hlen : len ≤ 8192) (h : Represents tree m)
    (hfits : ∀ root ∈ tree, Fits key root) : ∃ root out, insertQpe tree key = .ok (root, out) ∧
      leafAt root out = some (key, (m key).getD 0) ∧
      ∀ write : UInt64 → UInt64, Represents (some (modifyAt (storeData write) out root))
        (update m key (some (write ((m key).getD 0)))) := by
  cases tree with
  | none =>
    rw [h key, getD_none]
    refine ⟨.leaf key 0, [], rfl, rfl, fun write => ⟨.inl (.leaf key _), fun k d => ?_⟩⟩
    rw [modifyAt, storeData, entries, List.mem_singleton]
    by_cases hk : k = key
    · subst hk
      simp [eq_comm]
    · rw [update_of_ne hk, h k]
      simp [hk]
  | some c =>
    obtain ⟨hfm | ⟨shift, _, rfl⟩, hmem⟩ := h
    · obtain ⟨root, out, data, hins, hleaf, hd, ha⟩ :=
        insertQpe_spec hpos hlen hfm (hfits c rfl)
      have hkey : (m key).getD 0 = data := by
        obtain hd | ⟨habs, rfl⟩ := hd
        · rw [(hmem key data).1 hd, getD_some]
        · rw [(not_mem_keys_iff hmem).1 habs, getD_none]
      rw [hkey]
      exact ⟨root, out, hins, hleaf, fun write => Assigned.represents (ha write) hmem⟩
    · exact absurd (hfits _ rfl) id

lemma insert_represents (hpos : 0 < len) (hlen : len ≤ 8192) (h : Represents tree m)
    {write : UInt64 → UInt64} (hok : Admissible (.ok tree) (.insert key write)) :
    ∃ tree', call tree (.insert key write) = .ok tree' ∧
      Represents tree' (mapStep m (.insert key write)) := by
  obtain ⟨root, out, hins, -, hstd⟩ := insertQpe_represents hpos hlen h hok
  refine ⟨some (modifyAt (storeData write) out root), ?_, hstd write⟩
  rw [call, hins]
  rfl

lemma delete_represents (h : Represents tree m) (hok : Admissible (.ok tree) (.delete key)) :
    ∃ tree', call tree (.delete key) = .ok tree' ∧ Represents tree' (mapStep m (.delete key)) := by
  cases tree with
  | none =>
    refine ⟨none, rfl, fun k => ?_⟩
    rw [mapStep, update_apply, h k, ite_self]
  | some c =>
    obtain ⟨hroot, hmem⟩ := h
    -- a delete that fails leaves the trie and the map as they are
    have hfai : m key = none → Represents (some c) (mapStep m (.delete key)) := by
      intro hnone
      rw [mapStep, ← hnone, update_eq_self]
      exact ⟨hroot, hmem⟩
    obtain hfm | ⟨shift, hshift, rfl⟩ := hroot
    · obtain ⟨hdel, ha⟩ | ⟨hdel, data, rfl⟩ | ⟨c', hdel, hrem⟩ :=
        @deleteBelow_spec _ c key hfm
      · refine ⟨some c, ?_, hfai ((not_mem_keys_iff hmem).1 ha)⟩
        rw [call, deleteQpe, hdel]
        rfl
      · exact absurd (decide_eq_true rfl) (Bool.eq_false_iff.1 (hok _ rfl))
      · refine ⟨some c', by rw [call, deleteQpe, hdel]; rfl, ?_, fun k d => ?_⟩
        · cases hfreed : c'.isFreed with
          | false => exact .inl (hrem.formed hfreed)
          | true =>
            refine .inr ⟨top c, ?_, hrem.freed hfreed⟩
            cases hfm with
            | leaf k data =>
              rw [deleteBelow] at hdel
              split_ifs at hdel <;> cases hdel
            | branch hshift => exact hshift
        · rw [mapStep, hrem.mem, hmem]
          by_cases hk : k = key
          · subst hk
            simp
          · simp [hk]
    · refine ⟨some (.freed shift), ?_, hfai ?_⟩
      · rw [call, deleteQpe, deleteBelow, nibble_eq key hshift, ok_bind]
        rfl
      · rw [← not_mem_keys_iff hmem]
        rintro ⟨data, hd⟩
        cases hd

lemma call_represents (hpos : 0 < len) (hlen : len ≤ 8192) (h : Represents tree m) {op : Op len}
    (hok : Admissible (.ok tree) op) :
    ∃ tree', call tree op = .ok tree' ∧ Represents tree' (mapStep m op) := by
  cases op with
  | insert key write => exact insert_represents hpos hlen h hok
  | delete key => exact delete_represents h hok
  | find key =>
    refine ⟨tree, ?_, h⟩
    rw [call, find_of_represents h key]
    rfl

end

/-- As long as every insert fits the trie and the root's key is not deleted, a key is found exactly
if it was inserted and not deleted since. -/
theorem finds_of_admissible (hpos : 0 < len) (hlen : len ≤ 8192) (ops : List (Op len))
    (hops : Admitted step (.ok none) Admissible ops) {before : List (Op len)}
    (hbefore : before <+: ops) : Finds before := by
  have hrun := run_inv
    (fun ops s => ∃ tree, s = .ok tree ∧ Represents tree (mapAfter ops))
    ⟨none, rfl, fun _ => rfl⟩
    (fun ops s op h hok => by
      obtain ⟨tree, rfl, hrep⟩ := h
      rw [mapAfter, run_concat]
      exact call_represents hpos hlen hrep hok)
    before (hops.of_prefix hbefore)
  obtain ⟨tree, htree, hrep⟩ := hrun
  exact ⟨tree, htree, find_of_represents hrep⟩

def keyOf (a b : UInt8) : Key 2 := ⟨[a, b], rfl⟩

def insertOf (a b : UInt8) : Op 2 := .insert (keyOf a b) fun data => data + 1

def fittingCalls : List (Op 2) :=
  [insertOf 0 0, insertOf 16 0, insertOf 16 1, insertOf 16 16, .delete (keyOf 16 1),
    insertOf 16 0, .find (keyOf 0 0)]

theorem finds_fittingCalls :
    (Admitted step (.ok none) Admissible fittingCalls ∧ Finds fittingCalls) ∧ 0 < 2 ∧ 2 ≤ 8192 := by
  have hfits : Admitted step (.ok none) Admissible fittingCalls := by decide +kernel
  exact ⟨⟨hfits, finds_of_admissible (by decide) (by decide) _ hfits (List.prefix_refl _)⟩,
    by decide, by decide⟩

/-- A key is lost by the insert of another one, a single key cannot be deleted, and a trie from
which all keys were deleted cannot be used again. -/
theorem keys_lost :
    ¬ Finds [insertOf 0 0, insertOf 0 1, insertOf 0 16, insertOf 16 0, insertOf 16 16] ∧
      ¬ Finds [insertOf 0 0, .delete (keyOf 0 0)] ∧
      ¬ Finds [insertOf 0 0, insertOf 0 1, .delete (keyOf 0 0), .delete (keyOf 0 1),
        insertOf 0 0] := by
  have hfault : ∀ ops : List (Op 2),
      (run step (.ok none) ops).toOption.isNone = true → ¬ Finds ops := by
    rintro ops hnone ⟨tree, htree, _⟩
    rw [htree] at hnone
    cases hnone
  refine ⟨?_, hfault _ (by decide +kernel), hfault _ (by decide +kernel)⟩
  rintro ⟨tree, htree, hfind⟩
  have hlost : (run step (.ok none)
      [insertOf 0 0, insertOf 0 1, insertOf 0 16, insertOf 16 0, insertOf 16 16]).toOption.any
      (fun tree => decide ((cupidtrieFind tree (keyOf 16 0)).toOption = some none)) = true := by
    decide +kernel
  rw [htree] at hlost
  have hfnd := congrArg Except.toOption (hfind (keyOf 16 0))
  rw [of_decide_eq_true hlost] at hfnd
  cases hfnd

end Neuropil.Cupidtrie.TrieRuns
