import Neuropil.Lib.Run
import Neuropil.Route.Table

namespace Neuropil.Route.TableRuns

open List Option Lib.Run Lib.Table Route.Table
open Dhkey (ofWord index)

section

def row (p : Fin tableSize) : ℕ := p.val / 48

def col (p : Fin tableSize) : ℕ := p.val / 3 % 16

lemma row_lt (p : Fin tableSize) : row p < 64 := by
  have := p.isLt
  simp only [tableSize] at this
  simp only [row]
  omega

section

variable (i : Fin 64) (key : Dhkey)

lemma row_slot (k : Fin 3) : row (slot i key k) = i.val := by
  have := key.hexalphaAt_lt i
  simp only [row, slot, position]
  omega

lemma col_slot (k : Fin 3) : col (slot i key k) = key.hexalphaAt i := by
  have := key.hexalphaAt_lt i
  simp only [col, slot, position]
  omega

lemma slot_injective : Function.Injective (slot i key) := by
  intro j k h
  have hv := congrArg Fin.val h
  simp only [slot, position] at hv
  exact Fin.ext (by omega)

end

variable {key : Dhkey} {p : Fin tableSize}

lemma exists_slot {i : Fin 64} (hr : row p = i.val)
    (hc : col p = key.hexalphaAt i) : ∃ k, p = slot i key k := by
  refine ⟨⟨p.val % 3, by omega⟩, Fin.ext ?_⟩
  simp only [row, col] at hr hc
  simp only [slot, position]
  omega

/-- The routing table holds no key twice, every key in the slot of its prefix,
never the own key, and its counter is the number of entries in use. -/
structure Inv (s : RouteTable) : Prop where
  unique : Unique s.table
  placed : ∀ p x, s.table p = some x → row p = index s.my_key x ∧ col p = x.hexalphaAt (row p)
  notMine : ∀ p, s.table p ≠ some s.my_key
  count : s.route_count.toNat = filled s.table

inductive Updates (s : RouteTable) (key : Dhkey) : Bool → Outcome → Prop
  | mine (joined : Bool) (h : s.my_key = key) : Updates s key joined (unchanged s)
  | free (i : Fin 64) (k : Fin 3) (hi : i.val = index s.my_key key)
      (hpass : ∀ j < k, ∃ x, x ≠ key ∧ s.table (slot i key j) = some x)
      (hk : s.table (slot i key k) = none) : Updates s key true (insertAt s (slot i key k) key)
  | present (i : Fin 64) (k : Fin 3) (hi : i.val = index s.my_key key)
      (hpass : ∀ j < k, ∃ x, x ≠ key ∧ s.table (slot i key j) = some x)
      (hk : s.table (slot i key k) = some key) : Updates s key true (unchanged s)
  | full (i : Fin 64) (hi : i.val = index s.my_key key)
      (hpass : ∀ j, ∃ x, x ≠ key ∧ s.table (slot i key j) = some x) :
      Updates s key true (unchanged s)
  | replace (i : Fin 64) (k : Fin 3) (x : Dhkey) (hi : i.val = index s.my_key key)
      (hpass : ∀ j, ∃ x, x ≠ key ∧ s.table (slot i key j) = some x)
      (hk : s.table (slot i key k) = some x) :
      Updates s key true (replaceAt s (slot i key k) key x)
  | delete (i : Fin 64) (k : Fin 3) (hi : i.val = index s.my_key key)
      (hk : s.table (slot i key k) = some key) : Updates s key false (deleteAt s (slot i key k) key)
  | absent (i : Fin 64) (hi : i.val = index s.my_key key)
      (hk : ∀ k, s.table (slot i key k) ≠ some key) : Updates s key false (unchanged s)

lemma mem_entries : ∀ k : Fin 3, k ∈ entries := by decide

lemma mem_before {pre post : List (Fin 3)} {k j : Fin 3} (h : entries = pre ++ k :: post)
    (hj : j < k) : j ∈ pre := by
  have hs : (pre ++ k :: post).Pairwise (· < ·) := by rw [← h]; decide
  have hm : j ∈ pre ++ k :: post := h ▸ mem_entries j
  obtain hm | hm := mem_append.mp hm
  · exact hm
  · obtain rfl | hm := mem_cons.mp hm
    · exact absurd hj (lt_irrefl _)
    · have := (pairwise_cons.mp (pairwise_append.mp hs).2.1).1 j hm
      exact absurd hj this.not_gt

lemma update_updates (lat : Latency) (s : RouteTable) (key : Dhkey) (joined : Bool) :
    ∃ out, update lat s key joined = .ok out ∧ Updates s key joined out := by
  by_cases hm : s.my_key = key
  · exact ⟨_, by simp [update, hm], .mine joined hm⟩
  have hi : index s.my_key key < 64 := (Dhkey.index_lt_iff _ _).mpr hm
  cases joined with
  | false =>
    cases hf : findEntry (fun k => s.table (slot ⟨_, hi⟩ key k)) key entries with
    | some k =>
      exact ⟨_, by simp [update, hm, hi, leave, hf], .delete ⟨_, hi⟩ k rfl (findEntry_some hf)⟩
    | none =>
      exact ⟨_, by simp [update, hm, hi, leave, hf],
        .absent ⟨_, hi⟩ rfl (fun k => findEntry_none hf k (mem_entries k))⟩
  | true =>
    have hjoin : update lat s key true = join lat s ⟨_, hi⟩ key := by simp [update, hm, hi]
    rw [hjoin, Table.join]
    obtain ⟨pre, k, post, hl, hp, hk, hr⟩ | ⟨pre, k, post, hl, hp, hk, hr⟩ | ⟨hp, hr⟩ :=
      scan_cases lat (fun k => s.table (slot ⟨_, hi⟩ key k)) key entries none
    · rw [hr]
      exact ⟨_, rfl, .free ⟨_, hi⟩ k rfl (fun j hj => hp j (mem_before hl hj)) hk⟩
    · rw [hr]
      exact ⟨_, rfl, .present ⟨_, hi⟩ k rfl (fun j hj => hp j (mem_before hl hj)) hk⟩
    · obtain ⟨hnil, _⟩ | ⟨p, x, hr, hx⟩ := hr
      · exact absurd hnil (by decide)
      · rw [hr]
        have hall : ∀ j, ∃ x, x ≠ key ∧ s.table (slot ⟨_, hi⟩ key j) = some x :=
          fun j => hp j (mem_entries j)
        have hpx : s.table (slot ⟨_, hi⟩ key p) = some x := by simpa using hx
        by_cases hlow : lat.reasonablyLower x key = true
        · exact ⟨_, by simp only [hlow, ↓reduceIte], .replace ⟨_, hi⟩ p x rfl hall hpx⟩
        · exact ⟨_, by simp only [hlow, Bool.false_eq_true, ↓reduceIte], .full ⟨_, hi⟩ rfl hall⟩

variable {s : RouteTable}

lemma Inv.exists_slot (h : Inv s) {i : Fin 64}
    (hi : i.val = index s.my_key key) (hp : s.table p = some key) : ∃ k, p = slot i key k := by
  obtain ⟨hr, hc⟩ := h.placed p key hp
  exact TableRuns.exists_slot (by rw [hr, hi]) (by rw [hc, hr, hi])

/-- The key is stored in its slot, but a free entry comes before it. -/
def BehindHole (s : RouteTable) (key : Dhkey) : Prop :=
  ∃ (i : Fin 64) (j k : Fin 3), i.val = index s.my_key key ∧ j < k ∧
    s.table (slot i key j) = none ∧ s.table (slot i key k) = some key

lemma count_lt (h : Inv s) : s.route_count.toNat ≤ 3072 := by
  rw [h.count]
  exact (filled_le s.table).trans (Fintype.card_fin tableSize).le

section

variable {i : Fin 64} {k : Fin 3} (h : Inv s) (hi : i.val = index s.my_key key)
include h hi

lemma placed_put (p : Fin tableSize) (x : Dhkey)
    (hp : Function.update s.table (slot i key k) (some key) p = some x) :
    row p = index s.my_key x ∧ col p = x.hexalphaAt (row p) := by
  by_cases hpk : p = slot i key k
  · subst hpk
    rw [Function.update_self, Option.some.injEq] at hp
    subst hp
    exact ⟨by rw [row_slot, hi], by rw [col_slot, row_slot]⟩
  · rw [Function.update_of_ne hpk] at hp
    exact h.placed p x hp

lemma notMine_put (p : Fin tableSize) :
    Function.update s.table (slot i key k) (some key) p ≠ some s.my_key := by
  intro hp
  have hr := (placed_put h hi p _ hp).1
  rw [Dhkey.index_self] at hr
  exact absurd (row_lt p) (by omega)

lemma inv_insert (hk : s.table (slot i key k) = none) (hnew : ∀ p, s.table p ≠ some key) :
    Inv (insertAt s (slot i key k) key).route where
  unique := h.unique.update _ (by rintro _ q ⟨⟩ _; exact hnew q)
  placed := placed_put h hi
  notMine := notMine_put h hi
  count := by
    have hc := count_lt h
    change (s.route_count + 1).toNat = filled (Function.update s.table (slot i key k) (some key))
    rw [filled_insert _ _ hk, ← h.count, UInt32.toNat_add]
    exact Nat.mod_eq_of_lt (by rw [UInt32.toNat_one]; omega)

lemma inv_replace {x : Dhkey} (hk : s.table (slot i key k) = some x)
    (hnew : ∀ p, s.table p ≠ some key) : Inv (replaceAt s (slot i key k) key x).route where
  unique := h.unique.update _ (by rintro _ q ⟨⟩ _; exact hnew q)
  placed := placed_put h hi
  notMine := notMine_put h hi
  count := by
    change (s.route_count + 1 - 1).toNat =
      filled (Function.update s.table (slot i key k) (some key))
    rw [filled_replace _ _ hk, ← h.count, UInt32.add_sub_cancel]

end

lemma inv_delete (h : Inv s) (hk : s.table p = some key) : Inv (deleteAt s p key).route where
  unique := h.unique.update p nofun
  placed q x hq := h.placed q x (mem_of_clear hq).1
  notMine q hq := h.notMine q (mem_of_clear hq).1
  count := by
    have hf := filled_clear s.table hk
    change (s.route_count - 1).toNat = filled (Function.update s.table p none)
    have hle : (1 : UInt32) ≤ s.route_count := by
      rw [UInt32.le_iff_toNat_le, h.count, ← hf]
      exact Nat.le_add_left _ _
    rw [UInt32.toNat_sub_of_le _ _ hle, h.count, ← hf]
    exact Nat.add_sub_cancel _ 1

end

structure Event where
  key : Dhkey
  joined : Bool
  lat : Latency

def step (s : Except Fault RouteTable) (e : Event) : Except Fault RouteTable := do
  let out ← update e.lat (← s) e.key e.joined
  return out.route

def after (me : Dhkey) (events : List Event) : Except Fault RouteTable :=
  run step (.ok (init me)) events

/-- The call does not add a key that its slot already holds behind a free entry. -/
def Admissible (s : Except Fault RouteTable) (e : Event) : Prop :=
  ∀ t, s = .ok t → e.joined = true → ¬ BehindHole t e.key

/-- After the calls so far the table is in order, and a key that has just left is gone. -/
def Good (events : List Event) (s : Except Fault RouteTable) : Prop :=
  ∃ t, s = .ok t ∧ Inv t ∧
    ∀ before e, events = before ++ [e] → e.joined = false → ∀ p, t.table p ≠ some e.key

variable {t : RouteTable} {e : Event}

lemma step_ok {out : Outcome} (h : update e.lat t e.key e.joined = .ok out) :
    step (.ok t) e = .ok out.route := by
  simp only [step, bind, Except.bind, h]
  rfl

lemma inv_init (me : Dhkey) : Inv (init me) where
  unique p q x hp := by simp [init] at hp
  placed p x hp := by simp [init] at hp
  notMine p := by simp [init]
  count := by rw [init, filled_empty]; rfl

lemma not_stored_of_passed {key : Dhkey} (h : Inv t) {i : Fin 64}
    (hi : i.val = index t.my_key key) (hk : ∀ k, t.table (slot i key k) ≠ some key)
    (p : Fin tableSize) : t.table p ≠ some key := by
  intro hp
  obtain ⟨k, rfl⟩ := h.exists_slot hi hp
  exact hk k hp

lemma not_stored_of_free {key : Dhkey} (h : Inv t) {i : Fin 64} {k : Fin 3}
    (hi : i.val = index t.my_key key)
    (hpass : ∀ j < k, ∃ x, x ≠ key ∧ t.table (slot i key j) = some x)
    (hk : t.table (slot i key k) = none) (hole : ¬ BehindHole t key) (p : Fin tableSize) :
    t.table p ≠ some key := by
  apply not_stored_of_passed h hi
  intro j hj
  obtain hlt | rfl | hgt := lt_trichotomy j k
  · obtain ⟨x, hx, hs⟩ := hpass j hlt
    rw [hs, some.injEq] at hj
    exact hx hj
  · rw [hk] at hj
    cases hj
  · exact hole ⟨i, k, j, hi, hgt, hk, hj⟩

lemma step_inv (h : Inv t) (hok : Admissible (.ok t) e) :
    ∃ u, step (.ok t) e = .ok u ∧ Inv u ∧ (e.joined = false → ∀ p, u.table p ≠ some e.key) := by
  obtain ⟨key, joined, lat⟩ := e
  obtain ⟨out, hout, hup⟩ := update_updates lat t key joined
  refine ⟨out.route, step_ok hout, ?_⟩
  cases hup with
  | mine joined hm =>
    subst hm
    exact ⟨h, fun _ => h.notMine⟩
  | free i k hi hpass hk =>
    have hnew := not_stored_of_free h hi hpass hk (hok t rfl rfl)
    exact ⟨inv_insert h hi hk hnew, nofun⟩
  | present i k hi hpass hk | full i hi hpass => exact ⟨h, nofun⟩
  | replace i k x hi hpass hk =>
    have hnew := not_stored_of_passed h hi (fun j hj => by
      obtain ⟨y, hy, hs⟩ := hpass j
      rw [hs, some.injEq] at hj
      exact hy hj)
    exact ⟨inv_replace h hi hk hnew, nofun⟩
  | delete i k hi hk =>
    refine ⟨inv_delete h hk, fun _ p hp => ?_⟩
    obtain ⟨hq, hne⟩ := mem_of_clear hp
    exact hne (h.unique _ _ _ hq hk)
  | absent i hi hk => exact ⟨h, fun _ => not_stored_of_passed h hi hk⟩

lemma step_twice (h : Inv t) (hbad : ¬ Admissible (.ok t) e) :
    ∃ u, step (.ok t) e = .ok u ∧ ¬ Unique u.table := by
  obtain ⟨key, joined, lat⟩ := e
  simp only [Admissible, not_forall, not_not] at hbad
  obtain ⟨s, hs, hj, i, j, k, hi, hjk, hfree, hkey⟩ := hbad
  cases hs
  obtain ⟨out, hout, hup⟩ := update_updates lat t key joined
  refine ⟨out.route, step_ok hout, ?_⟩
  have hrow : ∀ i' : Fin 64, i'.val = index t.my_key key → i' = i :=
    fun i' hi' => Fin.ext (hi'.trans hi.symm)
  cases hup with
  | mine joined hm => exact absurd (hm ▸ hkey) (h.notMine _)
  | free i' m hi' hpass hm =>
    rw [hrow i' hi'] at hm ⊢
    have hne : slot i key k ≠ slot i key m := by
      intro he
      rw [he, hm] at hkey
      cases hkey
    intro hu
    exact hne (hu _ _ key (by simpa [insertAt, Function.update_of_ne hne] using hkey)
      (by simp [insertAt]))
  | present i' m hi' hpass hm =>
    rw [hrow i' hi'] at hm hpass
    have hmk : m = k := slot_injective i key (h.unique _ _ _ hm hkey)
    obtain ⟨x, _, hx⟩ := hpass j (hmk ▸ hjk)
    simp [hfree] at hx
  | full i' hi' hpass | replace i' _ _ hi' hpass =>
    obtain ⟨x, _, hx⟩ := hpass j
    rw [hrow i' hi', hfree] at hx
    cases hx
  | delete => cases hj
  | absent => cases hj

variable {s : Except Fault RouteTable} {before : List Event}

lemma good_step (h : Good before s) (hok : Admissible s e) : Good (before ++ [e]) (step s e) := by
  obtain ⟨t, rfl, hinv, _⟩ := h
  obtain ⟨u, hu, hinv', hleft⟩ := step_inv hinv hok
  refine ⟨u, hu, hinv', ?_⟩
  intro pre e' heq hj
  obtain ⟨_, hlast⟩ := List.append_inj' heq rfl
  cases hlast
  exact hleft hj

lemma not_good_step (h : Good before s) (hbad : ¬ Admissible s e) :
    ¬ Good (before ++ [e]) (step s e) := by
  obtain ⟨t, rfl, hinv, _⟩ := h
  obtain ⟨u, hu, hnu⟩ := step_twice hinv hbad
  rintro ⟨v, hv, hinv', _⟩
  rw [hu] at hv
  cases hv
  exact hnu hinv'.unique

/-- The routing table stays in order along a sequence of joins and leaves
exactly if no join finds its key stored behind a free entry of its slot. -/
theorem table_good_iff (me : Dhkey) (events : List Event) :
    (∀ before, before <+: events → Good before (after me before)) ↔
      Admitted step (.ok (init me)) Admissible events := by
  apply good_iff_admitted Good
  · exact ⟨init me, rfl, inv_init me, fun before e h => by simp at h⟩
  · exact fun before s a => good_step
  · exact fun before s h => h
  · exact fun before s a => not_good_step

def rejoin : List Event :=
  let lat : Latency := ⟨fun _ _ => false, fun _ _ => false⟩
  [⟨ofWord 0x10, true, lat⟩, ⟨ofWord 0x11, true, lat⟩,
    ⟨ofWord 0x10, false, lat⟩, ⟨ofWord 0x11, true, lat⟩]

theorem rejoin_stored_twice :
    ¬ ∀ before, before <+: rejoin → Good before (after Dhkey.zero before) := by
  intro h
  obtain ⟨t, ht, hinv, _⟩ := h rejoin (List.prefix_refl _)
  have htwo : (after Dhkey.zero rejoin).toOption.map
      (fun t => (t.table (position 0 1 0), t.table (position 0 1 1))) =
      some (some (ofWord 0x11), some (ofWord 0x11)) := by decide
  rw [ht] at htwo
  simp only [Except.toOption, map_some, some.injEq, Prod.mk.injEq] at htwo
  exact absurd (hinv.unique _ _ _ htwo.1 htwo.2) (by decide)

end Neuropil.Route.TableRuns
