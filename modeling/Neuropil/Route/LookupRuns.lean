import Neuropil.Route.LeafsetRange
import Neuropil.Route.Lookup
import Neuropil.Route.TableRuns

namespace Neuropil.Route.LookupRuns

open Lib.Run Route.Leafset Route.Table Route.Lookup

inductive Event
  | table (e : TableRuns.Event)
  | leafset (e : LeafsetRuns.Event)

def init (me : Dhkey) (size : ℕ) : RouteModule := ⟨Table.init me, Leafset.init me size⟩

def step (s : Except Table.Fault RouteModule) : Event → Except Table.Fault RouteModule
  | .table e => do
    let r ← s
    let table ← TableRuns.step (.ok r.table) e
    return { r with table := table }
  | .leafset e => do
    let r ← s
    return { r with leafset := LeafsetRuns.step r.leafset e }

def after (me : Dhkey) (size : ℕ) (events : List Event) : Except Table.Fault RouteModule :=
  run step (.ok (init me size)) events

structure Reached (me : Dhkey) (size : ℕ) (r : RouteModule) : Prop where
  table : r.table.my_key = me
  inv : LeafsetRuns.Inv r.leafset
  fixed : r.leafset.my_key = me ∧ r.leafset.leafset_size = size

variable {key : Dhkey}

lemma updates_my_key {s : RouteTable} {joined : Bool} {out : Table.Outcome}
    (h : TableRuns.Updates s key joined out) : out.route.my_key = s.my_key := by
  cases h <;> rfl

variable {r : RouteModule} {size : ℕ} {me : Dhkey}

lemma reached_table (h : Reached me size r) (e : TableRuns.Event) :
    ∃ r', step (.ok r) (.table e) = .ok r' ∧ Reached me size r' := by
  obtain ⟨out, hout, hcase⟩ := TableRuns.update_updates e.lat r.table e.key e.joined
  refine ⟨{ r with table := out.route }, ?_, ?_⟩
  · simp only [step, bind, Except.bind, TableRuns.step_ok hout]
    rfl
  · exact ⟨(updates_my_key hcase).trans h.table, h.inv, h.fixed⟩

lemma reached_leafset (h : Reached me size r) (e : LeafsetRuns.Event) :
    ∃ r', step (.ok r) (.leafset e) = .ok r' ∧ Reached me size r' := by
  refine ⟨{ r with leafset := LeafsetRuns.step r.leafset e }, rfl, h.table, ?_, ?_⟩
  · exact LeafsetRuns.inv_update h.inv e.key e.joined
  · exact ⟨(LeafsetRuns.step_my_key r.leafset e).trans h.fixed.1,
      (LeafsetRuns.step_size r.leafset e).trans h.fixed.2⟩

lemma reached_after (me : Dhkey) (size : ℕ) (events : List Event) :
    ∃ r, after me size events = .ok r ∧ Reached me size r := by
  let inv (_ : List Event) (s : Except Table.Fault RouteModule) :=
    ∃ r, s = .ok r ∧ Reached me size r
  apply run_inv_always inv
  · exact ⟨init me size, rfl, rfl, LeafsetRuns.inv_init me size, rfl, rfl⟩
  · rintro before s e ⟨r, rfl, hr⟩
    cases e with
    | table e => exact reached_table hr e
    | leafset e => exact reached_leafset hr e

lemma mine_in_range {s : RouteLeafset} (h : LeafsetRuns.Ordered me size s) :
    Dhkey.between me s.Lrange s.Rrange true = true := by
  obtain ⟨hr, hl⟩ := LeafsetRange.range_halves h
  have hinv := Dhkey.value_injective.ne (LeafsetRuns.inverse_ne me)
  rw [LeafsetRange.not_right_iff, Dhkey.eq_iff_value] at hl
  rw [onRight] at hr
  rw [Dhkey.between_iff] at hr hl ⊢
  omega

def Known (r : RouteModule) (x : Dhkey) : Prop :=
  x = r.table.my_key ∨ x ∈ r.leafset.right_leafset ∨ x ∈ r.leafset.left_leafset ∨
    ∃ p, r.table.table p = some x

variable {links : Links} {count : UInt8}

lemma lookup_leafset
    (h : count = 1 ∧ Dhkey.between key r.leafset.Lrange r.leafset.Rrange true = true) :
    ∃ keys, lookup links r key count = .ok keys ∧ ∀ x ∈ keys, Known r x := by
  refine ⟨_, if_pos h, ?_⟩
  intro x hx
  obtain hx | hx := List.mem_append.mp (findClosestKeyTo_mem hx)
  · exact .inr (.inl hx)
  · exact .inr (.inr (.inl hx))

lemma lookup_table
    (h : ¬ (count = 1 ∧ Dhkey.between key r.leafset.Lrange r.leafset.Rrange true = true))
    (hne : key ≠ r.table.my_key) :
    ∃ keys, lookup links r key count = .ok keys ∧ ∀ x ∈ keys, Known r x := by
  have hi : Dhkey.index r.table.my_key key < 64 := (Dhkey.index_lt_iff _ _).mpr hne.symm
  obtain ⟨ks, hks, hmem⟩ := bestHop_ok links r.table hi key count
  have hb : ∃ keys, bestHop links r.table key count (Dhkey.index r.table.my_key key) = .ok keys ∧
      ∀ x ∈ keys, Known r x :=
    ⟨ks, hks, fun x hx => (hmem x hx).imp_right (fun hp => .inr (.inr hp))⟩
  rw [lookup, if_neg h, dif_pos hi]
  cases hg : firstGood links (fun k => r.table.table (slot ⟨_, hi⟩ key k)) entries with
  | none => simpa only [hg] using hb
  | some tmp_1 =>
    simp only [hg]
    split_ifs with hc
    · refine ⟨_, rfl, ?_⟩
      intro x hx
      obtain ⟨k, hk⟩ := fastest_entry (firstGood_entry hg) entries
      rw [List.mem_singleton.mp hx]
      exact .inr (.inr (.inr ⟨_, hk⟩))
    · exact hb

lemma lookup_mine (hc : count ≠ 1) : lookup links r r.table.my_key count = .error .assertion := by
  have hi : ¬ Dhkey.index r.table.my_key r.table.my_key < 64 := by rw [Dhkey.index_self]; omega
  rw [lookup, if_neg (fun h => hc h.1), dif_neg hi]

/-- In every routing module built by joins and leaves, a lookup ends without a fault and with known
keys exactly if it is for one hop or another key. -/
theorem lookup_safe_iff (me : Dhkey) (size : ℕ) (events : List Event) (links : Links) (key : Dhkey)
    (count : UInt8) :
    ∃ r, after me size events = .ok r ∧ r.table.my_key = me ∧
      ((∃ keys, lookup links r key count = .ok keys ∧ ∀ x ∈ keys, Known r x) ↔
        key ≠ me ∨ count = 1) := by
  obtain ⟨r, hr, h⟩ := reached_after me size events
  refine ⟨r, hr, h.table, ?_⟩
  rw [← h.table]
  constructor
  · rintro ⟨keys, hkeys, _⟩
    by_contra hn
    obtain ⟨rfl, hc⟩ := not_or.mp hn |>.imp_left not_not.mp
    rw [lookup_mine hc] at hkeys
    cases hkeys
  · intro hcond
    by_cases hl : count = 1 ∧ Dhkey.between key r.leafset.Lrange r.leafset.Rrange true = true
    · exact lookup_leafset hl
    · apply lookup_table hl
      obtain hne | hc := hcond
      · exact hne
      · rintro rfl
        apply hl
        refine ⟨hc, ?_⟩
        rw [h.table]
        exact mine_in_range (LeafsetRuns.ordered_of_inv h.inv h.fixed)

/-- A lookup of more than one hop for the own key of a node without peers. -/
theorem lookup_own_key_fails :
    ¬ ∀ (events : List Event) (links : Links) (key : Dhkey) (count : UInt8),
      ∃ r, after Dhkey.zero 7 events = .ok r ∧
        ∃ keys, lookup links r key count = .ok keys ∧ ∀ x ∈ keys, Known r x := by
  intro h
  obtain ⟨r, hr, keys, hkeys, _⟩ := h [] ⟨fun _ => false, fun _ _ => false⟩ Dhkey.zero 2
  cases hr
  have hc : (2 : UInt8) ≠ 1 := by decide
  cases (lookup_mine hc).symm.trans hkeys

end Neuropil.Route.LookupRuns
