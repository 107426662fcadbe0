import Neuropil.Lib.Flags
import Neuropil.Route.LeafsetRuns
import Neuropil.Route.Lookup
import Neuropil.Route.TableRuns

namespace Neuropil.Route.Membership

open Function List Lib.Flags Lib.Table Route.Leafset Route.Table Route.TableRuns

def InLeafset (s : RouteLeafset) (k : Dhkey) : Prop := k ∈ s.left_leafset ∨ k ∈ s.right_leafset

def InTable (s : RouteTable) (k : Dhkey) : Prop := ∃ p, s.table p = some k

section

open Route.LeafsetRuns

variable {s : RouteLeafset} {k : Dhkey}

@[simp]
lemma finish_inLeafset (s : RouteLeafset) (add_to deleted_from : Option Dhkey) (x : Dhkey) :
    InLeafset (finish s add_to deleted_from).leafset x ↔ InLeafset s x := by
  simp only [finish]
  split_ifs <;> rfl

lemma mem_dropLast_iff {l : List Dhkey} (h : l.Nodup) {z : Dhkey} (hz : l.getLast? = some z)
    (x : Dhkey) : x ∈ l.dropLast ↔ x ≠ z ∧ x ∈ l := by
  have hl : l.dropLast ++ [z] = l := dropLast_append_getLast? z hz
  rw [← hl] at h
  have hnot : z ∉ l.dropLast := fun hmem =>
    (nodup_append.1 h).2.2 z hmem z (mem_singleton_self z) rfl
  constructor
  · exact fun hx => ⟨fun he => hnot (he ▸ hx), dropLast_subset _ hx⟩
  · rintro ⟨hne, hx⟩
    rw [← hl] at hx
    obtain hx | hx := mem_append.1 hx
    · exact hx
    · exact absurd (mem_singleton.1 hx) hne

lemma insertSide_joins {me : Dhkey} {size : ℕ} {side : List Dhkey} (h : SideInv me size side)
    (hk : k ∉ side) (closer : Bool) :
    let s := (insertSide me size closer side k).settle
    Joins k (· ∈ side) (· ∈ s.keys) s.add_to s.deleted_from := by
  by_cases hroom : side.length < size
  · rw [insertSide_room h hroom, Side.settle, if_neg (fun hc => by simp at hc)]
    exact .added fun x => List.mem_orderedInsert _
  by_cases hcl : closer = true
  · rw [insertSide_full h hroom hcl, Side.settle]
    by_cases hlast : (side.orderedInsert (byDistance me) k).getLast? = some k
    · rw [if_pos ⟨by simp [hlast], hlast⟩, dropLast_orderedInsert hk hlast]
      exact .same fun x => Iff.rfl
    · rw [if_neg (fun hc => hlast hc.2)]
      -- the side was full, so there is a last key, and it is one of the old ones
      obtain ⟨z, hz⟩ : ∃ z, (side.orderedInsert (byDistance me) k).getLast? = some z := by
        have hne : side.orderedInsert (byDistance me) k ≠ [] :=
          List.ne_nil_of_mem ((List.mem_orderedInsert _).2 (.inl rfl))
        exact ⟨_, getLast?_eq_some_getLast hne⟩
      have hzk : z ≠ k := fun he => hlast (he ▸ hz)
      have hzmem := (List.mem_orderedInsert _).1 (List.mem_of_getLast? hz)
      simp only [hz]
      refine .replaced z hzk (hzmem.resolve_left hzk) fun x => ?_
      rw [mem_dropLast_iff (nodup_orderedInsert h hk) hz, List.mem_orderedInsert]
  · rw [insertSide_keep h (not_or.mpr ⟨hroom, hcl⟩), Side.settle, if_neg (fun hc => by simp at hc)]
    exact .same fun x => Iff.rfl

lemma disjoint_sides (h : Inv s) {x : Dhkey} (hr : x ∈ s.right_leafset) : x ∉ s.left_leafset := by
  intro hl
  have := h.onLeft x hl
  rw [h.onRight x hr] at this
  cases this

lemma leafset_joins (h : Inv s) (hk : ¬ InLeafset s k) :
    let out := leafsetUpdate s k true
    Joins k (InLeafset s) (InLeafset out.leafset) out.added out.deleted := by
  obtain ⟨hleft, hright⟩ := not_or.1 hk
  by_cases hm : Dhkey.cmp k s.my_key = 0
  · rw [leafsetUpdate, if_pos hm]
    exact .same fun x => Iff.rfl
  rw [leafsetUpdate, if_neg hm, if_neg (by decide), if_neg (not_or.2 ⟨hright, hleft⟩)]
  split_ifs with hside
  · refine ((insertSide_joins h.right hright _).or fun x => disjoint_sides h).congr ?_ ?_
    · exact fun x => or_comm
    · exact fun x => (finish_inLeafset _ _ _ x).trans or_comm
  · refine ((insertSide_joins h.left hleft _).or fun x hl hr => disjoint_sides h hr hl).congr ?_ ?_
    · exact fun x => Iff.rfl
    · exact fun x => finish_inLeafset _ _ _ x

lemma leafset_leaves (h : Inv s) (hk : InLeafset s k) :
    (leafsetUpdate s k false).added = none ∧ (leafsetUpdate s k false).deleted = some k ∧
      ∀ x, InLeafset (leafsetUpdate s k false).leafset x ↔ x ≠ k ∧ InLeafset s x := by
  have hne : ¬ Dhkey.cmp k s.my_key = 0 := by
    rw [Dhkey.cmp_eq_zero_iff]
    rintro rfl
    exact hk.elim h.notMine.2 h.notMine.1
  rw [leafsetUpdate, if_neg hne, if_pos rfl]
  by_cases hr : k ∈ s.right_leafset
  · rw [if_pos hr]
    refine ⟨rfl, rfl, fun x => ?_⟩
    have hleft : x ∈ s.left_leafset → x ≠ k := fun hx he => disjoint_sides h hr (he ▸ hx)
    rw [finish_inLeafset, InLeafset, InLeafset, h.right.nodup.mem_erase_iff]
    tauto
  · have hl : k ∈ s.left_leafset := hk.resolve_right hr
    rw [if_neg hr, if_pos hl]
    refine ⟨rfl, rfl, fun x => ?_⟩
    have hright : x ∈ s.right_leafset → x ≠ k := fun hx he => hr (he ▸ hx)
    rw [finish_inLeafset, InLeafset, InLeafset, h.left.nodup.mem_erase_iff]
    tauto

end

variable (lat : Latency)

section

variable {t : RouteTable} {k : Dhkey} {p : Fin tableSize}

lemma exists_put_iff (h : t.table p = none) (x : Dhkey) :
    (∃ q, update t.table p (some k) q = some x) ↔ x = k ∨ InTable t x := by
  constructor
  · rintro ⟨q, hq⟩
    by_cases hqp : q = p
    · subst hqp
      rw [update_self, Option.some.injEq] at hq
      exact .inl hq.symm
    · rw [update_of_ne hqp] at hq
      exact .inr ⟨q, hq⟩
  · rintro (rfl | ⟨q, hq⟩)
    · exact ⟨p, update_self _ _ _⟩
    · refine ⟨q, ?_⟩
      rwa [update_of_ne]
      rintro rfl
      rw [h] at hq
      cases hq

lemma exists_clear_iff (h : Unique t.table) (hp : t.table p = some k) (x : Dhkey) :
    (∃ q, update t.table p none q = some x) ↔ x ≠ k ∧ InTable t x := by
  constructor
  · rintro ⟨q, hq⟩
    obtain ⟨hq, hne⟩ := mem_of_clear hq
    exact ⟨fun he => hne (h q p k (he ▸ hq) hp), q, hq⟩
  · rintro ⟨hne, q, hq⟩
    refine ⟨q, ?_⟩
    rwa [update_of_ne]
    rintro rfl
    rw [hp, Option.some.injEq] at hq
    exact hne hq.symm

lemma exists_replace_iff (h : Unique t.table) {z : Dhkey} (hp : t.table p = some z) (x : Dhkey)
    (hne : z ≠ k) : (∃ q, update t.table p (some k) q = some x) ↔
      x ≠ z ∧ (x = k ∨ InTable t x) := by
  let cleared : RouteTable := { t with table := update t.table p none }
  have hput := exists_put_iff (t := cleared) (k := k) (p := p) (update_self _ _ _) x
  have hclear := exists_clear_iff h hp x
  have hkz : x = k → x ≠ z := fun hx he => hne (he.symm.trans hx)
  simp only [cleared, update_idem] at hput
  rw [hput]
  change x = k ∨ (∃ q, update t.table p none q = some x) ↔ _
  rw [hclear]
  tauto

lemma table_joins (h : Inv t) (hk : ¬ InTable t k) :
    ∃ out, update lat t k true = .ok out ∧ Inv out.route ∧
      Joins k (InTable t) (InTable out.route) out.added out.deleted := by
  obtain ⟨out, hout, hup⟩ := update_updates lat t k true
  have hnew : ∀ q, t.table q ≠ some k := fun q hq => hk ⟨q, hq⟩
  refine ⟨out, hout, ?_⟩
  cases hup with
  | mine _ hm | full i hi hpass => exact ⟨h, .same fun x => Iff.rfl⟩
  | free i j hi hpass hj =>
    exact ⟨inv_insert h hi hj hnew, .added fun x => exists_put_iff hj x⟩
  | present i j hi hpass hj => exact absurd hj (hnew _)
  | replace i j z hi hpass hj =>
    have hne : z ≠ k := fun he => hnew _ (he ▸ hj)
    exact ⟨inv_replace h hi hj hnew,
      .replaced z hne ⟨_, hj⟩ fun x => exists_replace_iff h.unique hj x hne⟩

lemma table_leaves (h : Inv t) (hk : InTable t k) :
    ∃ out, update lat t k false = .ok out ∧ Inv out.route ∧ out.added = none ∧
      out.deleted = some k ∧ ∀ x, InTable out.route x ↔ x ≠ k ∧ InTable t x := by
  obtain ⟨out, hout, hup⟩ := update_updates lat t k false
  obtain ⟨q, hq⟩ := hk
  refine ⟨out, hout, ?_⟩
  cases hup with
  | mine _ hm => exact absurd (hm ▸ hq) (h.notMine q)
  | delete i j hi hj =>
    exact ⟨inv_delete h hj, rfl, rfl, fun x => exists_clear_iff h.unique hj x⟩
  | absent i hi hj => exact absurd hq (TableRuns.not_stored_of_passed h hi hj q)

end

/-- The two collections of keys that the routing module keeps. -/
inductive Place
  | leafset
  | routingTable
deriving DecidableEq, Repr

open Route.Lookup

def Member (r : RouteModule) : Place → Dhkey → Prop
  | .leafset => InLeafset r.leafset
  | .routingTable => InTable r.table

/-- The routing module after an update of one of its collections, with the key that was added and
the one that was deleted. -/
structure Updated where
  route : RouteModule
  added : Option Dhkey
  deleted : Option Dhkey

def updateAt (r : RouteModule) (k : Dhkey) (joined : Bool) : Place → Except Table.Fault Updated
  | .leafset =>
    let out := leafsetUpdate r.leafset k joined
    .ok ⟨{ r with leafset := out.leafset }, out.added, out.deleted⟩
  | .routingTable => do
    let out ← update lat r.table k joined
    return ⟨{ r with table := out.route }, out.added, out.deleted⟩

structure ModuleInv (r : RouteModule) : Prop where
  leafset : LeafsetRuns.Inv r.leafset
  table : TableRuns.Inv r.table

variable {r : RouteModule} {k : Dhkey} {p : Place}

lemma updateAt_joins (h : ModuleInv r) (hk : ¬ Member r p k) :
    ∃ out, updateAt lat r k true p = .ok out ∧ ModuleInv out.route ∧
      Joins k (Member r p) (Member out.route p) out.added out.deleted ∧
      ∀ q ≠ p, Member out.route q = Member r q := by
  cases p with
  | leafset =>
    refine ⟨_, rfl, ⟨LeafsetRuns.inv_update h.leafset k true, h.table⟩,
      leafset_joins h.leafset hk, ?_⟩
    rintro (_ | _) hq
    · exact absurd rfl hq
    · rfl
  | routingTable =>
    obtain ⟨out, hout, hinv, hj⟩ := table_joins lat h.table hk
    refine ⟨⟨{ r with table := out.route }, out.added, out.deleted⟩, ?_, ⟨h.leafset, hinv⟩, hj, ?_⟩
    · simp only [updateAt, hout]
      rfl
    · rintro (_ | _) hq
      · rfl
      · exact absurd rfl hq

lemma updateAt_leaves (h : ModuleInv r) (hk : Member r p k) :
    ∃ r', updateAt lat r k false p = .ok ⟨r', none, some k⟩ ∧ ModuleInv r' ∧
      (∀ x, Member r' p x ↔ x ≠ k ∧ Member r p x) ∧ ∀ q ≠ p, Member r' q = Member r q := by
  cases p with
  | leafset =>
    obtain ⟨ha, hd, hmem⟩ := leafset_leaves h.leafset hk
    refine ⟨{ r with leafset := (leafsetUpdate r.leafset k false).leafset }, ?_,
      ⟨LeafsetRuns.inv_update h.leafset k false, h.table⟩, hmem, ?_⟩
    · simp only [updateAt, ha, hd]
    · rintro (_ | _) hq
      · exact absurd rfl hq
      · rfl
  | routingTable =>
    obtain ⟨out, hout, hinv, ha, hd, hmem⟩ := table_leaves lat h.table hk
    refine ⟨{ r with table := out.route }, ?_, ⟨h.leafset, hinv⟩, hmem, ?_⟩
    · simp only [updateAt, hout, ← ha, ← hd]
      rfl
    · rintro (_ | _) hq
      · rfl
      · exact absurd rfl hq

end Neuropil.Route.Membership
