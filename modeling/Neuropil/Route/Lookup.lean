import Neuropil.Route.Leafset
import Neuropil.Route.Table

namespace Neuropil.Route.Lookup

open List Route.Leafset Route.Table
open Dhkey (distance index)

inductive Fault
  | assertion
  | rowOutOfRange
  | outOfFuel
deriving DecidableEq, Repr

/-- How the nodes behind the keys are connected at the time of a lookup:
`success_avg > BAD_LINK`, and `metric_1 > metric_2`. -/
structure Links where
  good : Dhkey → Bool
  worse : Dhkey → Dhkey → Bool

structure RouteModule where
  table : RouteTable
  leafset : RouteLeafset

def closestFrom (key : Dhkey) : Option (Dhkey × Dhkey) → List Dhkey → Option Dhkey
  | min, [] => min.map Prod.fst
  | none, k :: ks => closestFrom key (some (k, distance key k)) ks
  | some (min_key, minDif), k :: ks =>
    if Dhkey.cmp (distance key k) minDif ≤ 0 then
      closestFrom key (some (k, distance key k)) ks
    else closestFrom key (some (min_key, minDif)) ks

def findClosestKeyTo (key : Dhkey) (keys : List Dhkey) : Option Dhkey := closestFrom key none keys

def cpmSwap (key a b : Dhkey) : Bool :=
  decide (index key b > index key a) ||
    (decide (index key a = index key b) && decide (Dhkey.cmp (distance b key) (distance a key) < 0))

/-- The inner loop of the sort, which exchanges the first element with every
later one that has to come before it. -/
def exchangeFirst (key : Dhkey) : Dhkey → List Dhkey → Dhkey × List Dhkey
  | a, [] => (a, [])
  | a, b :: ks =>
    if cpmSwap key a b then ((exchangeFirst key b ks).1, a :: (exchangeFirst key b ks).2)
    else ((exchangeFirst key a ks).1, b :: (exchangeFirst key a ks).2)

lemma length_exchangeFirst (key a : Dhkey) (ks : List Dhkey) :
    (exchangeFirst key a ks).2.length = ks.length := by
  induction ks generalizing a with
  | nil => rfl
  | cons b ks ih =>
    simp only [exchangeFirst]
    split_ifs <;> simp [ih]

def sortKeysCpm (key : Dhkey) : List Dhkey → List Dhkey
  | [] => []
  | a :: ks => (exchangeFirst key a ks).1 :: sortKeysCpm key (exchangeFirst key a ks).2
termination_by ks => ks.length
decreasing_by simp [length_exchangeFirst]

def firstGood (links : Links) (entry : Fin 3 → Option Dhkey) : List (Fin 3) → Option Dhkey
  | [] => none
  | k :: ks => match entry k with
    | none => firstGood links entry ks
    | some x => if links.good x then some x else firstGood links entry ks

def fastest (links : Links) (entry : Fin 3 → Option Dhkey) : Dhkey → List (Fin 3) → Dhkey
  | tmp_1, [] => tmp_1
  | tmp_1, k :: ks => match entry k with
    | none => fastest links entry tmp_1 ks
    | some tmp_2 =>
      if tmp_2 ≠ tmp_1 ∧ links.worse tmp_1 tmp_2 = true then fastest links entry tmp_2 ks
      else fastest links entry tmp_1 ks

def readRow (links : Links) (s : RouteTable) (i : UInt32) : Except Fault (List Dhkey) :=
  if h : i.toNat < 64 then
    .ok ((finRange 16).flatMap fun j =>
      (entries.filterMap fun k => s.table (position ⟨i.toNat, h⟩ j k)).filter links.good)
  else .error .rowOutOfRange

/-- The search from the row of the longest prefix match upwards. The row is unsigned, so the step
below row 0 leaves the table at its end. -/
def searchUpwards (links : Links) (s : RouteTable) :
    ℕ → UInt32 → List Dhkey → Except Fault (List Dhkey)
  | 0, _, _ => .error .outOfFuel
  | fuel + 1, i, key_list =>
    if key_list.length = 0 ∧ i.toNat < 64 then do
      let row ← readRow links s i
      searchUpwards links s fuel (i - 1) (key_list ++ row)
    else .ok key_list

def bestHop (links : Links) (s : RouteTable) (key : Dhkey) (count : UInt8) (i : ℕ) :
    Except Fault (List Dhkey) := do
  let key_list ← searchUpwards links s 66 (UInt32.ofNat i) (if count = 0 then [s.my_key] else [])
  if count = 1 then return (findClosestKeyTo key key_list).toList
  else if 2 ≤ key_list.length then return (sortKeysCpm key key_list).head?.toList
  else return key_list.head?.toList

def lookup (links : Links) (r : RouteModule) (key : Dhkey) (count : UInt8) :
    Except Fault (List Dhkey) :=
  if count = 1 ∧ Dhkey.between key r.leafset.Lrange r.leafset.Rrange true = true then
    .ok (findClosestKeyTo key (r.leafset.right_leafset ++ r.leafset.left_leafset)).toList
  else if hi : index r.table.my_key key < 64 then
    let entry := fun k => r.table.table (slot ⟨_, hi⟩ key k)
    match firstGood links entry entries with
    | some tmp_1 =>
      if 1 ≤ count then .ok [fastest links entry tmp_1 entries]
      else bestHop links r.table key count (index r.table.my_key key)
    | none => bestHop links r.table key count (index r.table.my_key key)
  else .error .assertion

variable {ks : List Dhkey} {x : Dhkey}

lemma closestFrom_mem {key : Dhkey} {min : Option (Dhkey × Dhkey)}
    (h : closestFrom key min ks = some x) : x ∈ ks ∨ min.map Prod.fst = some x := by
  induction ks generalizing min with
  | nil => exact .inr h
  | cons k ks ih =>
    have hnext : ∀ d, closestFrom key (some (k, d)) ks = some x → x ∈ k :: ks := by
      intro d hd
      obtain hx | hx := ih hd
      · exact mem_cons_of_mem k hx
      · have hk : k = x := by simpa using hx
        rw [hk]
        exact mem_cons_self
    cases min with
    | none => exact .inl (hnext _ h)
    | some m =>
      simp only [closestFrom] at h
      split_ifs at h with hc
      · exact .inl (hnext _ h)
      · exact (ih h).imp_left (mem_cons_of_mem k)

lemma findClosestKeyTo_mem {key : Dhkey} (h : x ∈ (findClosestKeyTo key ks).toList) : x ∈ ks := by
  rw [Option.mem_toList] at h
  obtain hx | hx := closestFrom_mem h
  · exact hx
  · simp at hx

lemma exchangeFirst_perm (key a : Dhkey) (ks : List Dhkey) :
    ((exchangeFirst key a ks).1 :: (exchangeFirst key a ks).2).Perm (a :: ks) := by
  induction ks generalizing a with
  | nil => exact List.Perm.refl _
  | cons b ks ih =>
    simp only [exchangeFirst]
    split_ifs with hs
    · apply (List.Perm.swap _ _ _).trans
      exact (ih b).cons a
    · apply (List.Perm.swap _ _ _).trans
      exact ((ih a).cons b).trans (List.Perm.swap _ _ _)

lemma sortKeysCpm_perm (key : Dhkey) (ks : List Dhkey) : (sortKeysCpm key ks).Perm ks := by
  induction ks using sortKeysCpm.induct key with
  | case1 => rw [sortKeysCpm]
  | case2 a ks ih =>
    rw [sortKeysCpm]
    exact (ih.cons _).trans (exchangeFirst_perm key a ks)

section

variable {links : Links} {entry : Fin 3 → Option Dhkey}

lemma firstGood_entry {ks : List (Fin 3)} (h : firstGood links entry ks = some x) :
    ∃ k, entry k = some x := by
  induction ks with
  | nil => simp [firstGood] at h
  | cons k ks ih =>
    simp only [firstGood] at h
    cases hk : entry k with
    | none => exact ih (by simpa [hk] using h)
    | some y =>
      simp only [hk] at h
      split_ifs at h with hg
      · exact ⟨k, hk.trans h⟩
      · exact ih h

lemma fastest_entry (hx : ∃ k, entry k = some x) (ks : List (Fin 3)) :
    ∃ k, entry k = some (fastest links entry x ks) := by
  induction ks generalizing x with
  | nil => exact hx
  | cons k ks ih =>
    simp only [fastest]
    cases hk : entry k with
    | none => exact ih hx
    | some y =>
      simp only
      split_ifs with hw
      · exact ih ⟨k, hk⟩
      · exact ih hx

end

variable (links : Links) (s : RouteTable) {i : UInt32}

lemma readRow_ok (hi : i.toNat < 64) :
    ∃ row, readRow links s i = .ok row ∧ ∀ x ∈ row, ∃ p, s.table p = some x := by
  refine ⟨_, dif_pos hi, ?_⟩
  intro x hx
  obtain ⟨j, _, hx⟩ := mem_flatMap.mp hx
  obtain ⟨k, _, hk⟩ := mem_filterMap.mp (mem_filter.mp hx).1
  exact ⟨_, hk⟩

lemma searchUpwards_done {fuel : ℕ} {key_list : List Dhkey}
    (h : ¬ (key_list.length = 0 ∧ i.toNat < 64)) :
    searchUpwards links s (fuel + 1) i key_list = .ok key_list := by
  rw [searchUpwards, if_neg h]

lemma pred_row (h : i.toNat < 64) :
    (i.toNat = 0 ∧ ¬ (i - 1).toNat < 64) ∨ (i - 1).toNat + 1 = i.toNat := by
  have h1 : (1 : UInt32).toNat = 1 := rfl
  have hs := UInt32.toNat_sub i 1
  omega

lemma searchUpwards_ok {fuel : ℕ} (key_list : List Dhkey)
    (hi : i.toNat < 64) (hfuel : i.toNat + 2 ≤ fuel) :
    ∃ ks, searchUpwards links s fuel i key_list = .ok ks ∧
      ∀ x ∈ ks, x ∈ key_list ∨ ∃ p, s.table p = some x := by
  induction fuel generalizing i key_list with
  | zero => omega
  | succ fuel ih =>
    by_cases hc : key_list.length = 0 ∧ i.toNat < 64
    · obtain ⟨row, hrow, hmem⟩ := readRow_ok links s hi
      have hstep : searchUpwards links s (fuel + 1) i key_list =
          searchUpwards links s fuel (i - 1) (key_list ++ row) := by
        rw [searchUpwards, if_pos hc, hrow]
        rfl
      have hb : ∀ x ∈ key_list ++ row, x ∈ key_list ∨ ∃ p, s.table p = some x :=
        fun x hx => (mem_append.mp hx).imp_right (hmem x)
      rw [hstep]
      obtain ⟨_, hend⟩ | hpred := pred_row hi
      · obtain ⟨fuel, rfl⟩ : ∃ f, fuel = f + 1 := ⟨fuel - 1, by omega⟩
        exact ⟨_, searchUpwards_done links s (fun h => hend h.2), hb⟩
      · have hi' : (i - 1).toNat < 64 := by omega
        obtain ⟨ks, hks, hmem'⟩ := ih (key_list ++ row) hi' (by omega)
        refine ⟨ks, hks, fun x hx => ?_⟩
        obtain hx | hx := hmem' x hx
        · exact hb x hx
        · exact .inr hx
    · exact ⟨_, searchUpwards_done links s hc, fun x hx => .inl hx⟩

lemma bestHop_ok {i : ℕ} (hi : i < 64) (key : Dhkey) (count : UInt8) :
    ∃ ks, bestHop links s key count i = .ok ks ∧
      ∀ x ∈ ks, x = s.my_key ∨ ∃ p, s.table p = some x := by
  have hrow : (UInt32.ofNat i).toNat = i := by
    rw [UInt32.toNat_ofNat']
    omega
  have hi' : (UInt32.ofNat i).toNat < 64 := by omega
  have hfuel : (UInt32.ofNat i).toNat + 2 ≤ 66 := by omega
  obtain ⟨ks, hks, hmem⟩ :=
    searchUpwards_ok links s (if count = 0 then [s.my_key] else []) hi' hfuel
  have hmem' : ∀ x ∈ ks, x = s.my_key ∨ ∃ p, s.table p = some x := by
    intro x hx
    refine (hmem x hx).imp_left (fun h => ?_)
    split_ifs at h with hc
    · simpa using h
    · simp at h
  simp only [bestHop, hks, bind, Except.bind, pure, Except.pure]
  split_ifs with h1 h2
  · exact ⟨_, rfl, fun x hx => hmem' x (findClosestKeyTo_mem hx)⟩
  · refine ⟨_, rfl, fun x hx => hmem' x ((sortKeysCpm_perm key ks).mem_iff.mp ?_)⟩
    exact mem_of_mem_head? (Option.mem_toList.mp hx)
  · exact ⟨_, rfl, fun x hx => hmem' x (mem_of_mem_head? (Option.mem_toList.mp hx))⟩

end Neuropil.Route.Lookup
