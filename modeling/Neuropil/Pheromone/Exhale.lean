import Neuropil.Lib.Cells
import Neuropil.Pheromone.Table

namespace Neuropil.Pheromone.Exhale

open List Lib.Cells Lib.Fault Bloom.Filter Pheromone.Peers Pheromone.Table

inductive ExhaleFault
  | outOfBounds
  | nullPointer
  | fuel
deriving DecidableEq, Repr

/-- An entry of the table as it lies in memory: 32 pheromones, the first one for the union, with
zeros after those in use. -/
structure SlotArray where
  count : ℕ
  pheromone : List (Option PheromoneSlot)

def loadSlot (cells : List (Option PheromoneSlot)) (i : ℕ) : Except ExhaleFault PheromoneSlot := do
  match ← load .outOfBounds cells i with
  | some p => return p
  | none => .error .nullPointer

def storeSlot (cells : List (Option PheromoneSlot)) (i : ℕ) (p : Option PheromoneSlot) :
    Except ExhaleFault (List (Option PheromoneSlot)) :=
  store .outOfBounds cells i p

def decrementAge (p : PheromoneSlot) : PheromoneSlot :=
  { p with subj_bloom := ageDecrement p.subj_bloom }

/-- Drop the oldest peer of each list that has more than one, and give its item back. -/
def dropOldest (p : PheromoneSlot) : PheromoneSlot :=
  let p := if p.recv_list.length > 1 then
      { p with
        subj_bloom := countDecrement p.subj_bloom
        recv_list := removeOldestDhkey p.recv_list }
    else p
  if p.send_list.length > 1 then
    { p with
      subj_bloom := countDecrement p.subj_bloom
      send_list := removeOldestDhkey p.send_list }
  else p

def clearSlot (cells : List (Option PheromoneSlot)) (j : ℕ) :
    Except ExhaleFault (List (Option PheromoneSlot)) :=
  if j < 32 then storeSlot cells j none else .ok cells

def removeSlot (i : ℕ) (entry : SlotArray) : Except ExhaleFault SlotArray := do
  let (j, cells) ← shiftDown .outOfBounds (entry.count - i) i entry.pheromone
  let cells ← clearSlot cells j
  return ⟨entry.count - 1, cells⟩

/-- The age of a pheromone after the decrement, as it is left in the union. -/
def ageIn (top : NeuropilBloom) (p : PheromoneSlot) : ℚ :=
  intersectAge top (ageDecrement p.subj_bloom)

/-- One round of the loop of `_np_pheromone_exhale`. The index stays at a removal. -/
def exhaleRound (i : ℕ) (entry : SlotArray) : Except ExhaleFault (ℕ × SlotArray) := do
  let top ← loadSlot entry.pheromone 0
  let p ← loadSlot entry.pheromone i
  if ageIn top.subj_bloom p = 0 then
    let entry ← removeSlot i entry
    return (i, entry)
  else
    let cells ← storeSlot entry.pheromone i (some (dropOldest (decrementAge p)))
    return (i + 1, { entry with pheromone := cells })

def exhaleLoop : (fuel i : ℕ) → SlotArray → Except ExhaleFault SlotArray
  | 0, i, entry => if i < entry.count then .error .fuel else .ok entry
  | fuel + 1, i, entry =>
    if i < entry.count then do
      let (i, entry) ← exhaleRound i entry
      exhaleLoop fuel i entry
    else .ok entry

def exhaleEntry (fuel : ℕ) (entry : SlotArray) : Except ExhaleFault SlotArray := do
  let top ← loadSlot entry.pheromone 0
  let cells ← storeSlot entry.pheromone 0 (some (decrementAge top))
  exhaleLoop fuel 1 { entry with pheromone := cells }

/-- `_np_pheromone_exhale`, with the random number that it draws. -/
def exhale (fuel : ℕ) (table : Fin 257 → Option SlotArray) (random_number : Fin 257) :
    Except ExhaleFault (Fin 257 → Option SlotArray) :=
  match table random_number with
  | none => .ok table
  | some entry => do
    let entry ← exhaleEntry fuel entry
    return Function.update table random_number (some entry)

def layout (top : NeuropilBloom) (ps : List PheromoneSlot) (zeros : ℕ) : SlotArray :=
  ⟨ps.length + 1, some ⟨top, [], []⟩ :: (ps.map some ++ replicate zeros none)⟩

def toArray (entry : Entry) : SlotArray :=
  layout entry.union entry.pheromones (31 - entry.pheromones.length)

section

variable {top : NeuropilBloom} {done rest : List PheromoneSlot} {p : PheromoneSlot} {zeros : ℕ}

lemma layout_split : (layout top (done ++ p :: rest) zeros).pheromone =
    (some ⟨top, [], []⟩ :: done.map some) ++ some p :: (rest.map some ++ replicate zeros none) := by
  simp [layout]

lemma loadSlot_top (ps : List PheromoneSlot) :
    loadSlot (layout top ps zeros).pheromone 0 = .ok ⟨top, [], []⟩ := rfl

lemma loadSlot_layout :
    loadSlot (layout top (done ++ p :: rest) zeros).pheromone (done.length + 1) = .ok p := by
  have hload := load_append ExhaleFault.outOfBounds
    (some (⟨top, [], []⟩ : PheromoneSlot) :: done.map some) (some p)
    (rest.map some ++ replicate zeros none)
  rw [← layout_split, length_cons, length_map] at hload
  rw [loadSlot, hload]
  rfl

lemma storeSlot_layout (q : PheromoneSlot) :
    storeSlot (layout top (done ++ p :: rest) zeros).pheromone (done.length + 1) (some q) =
      .ok (layout top (done ++ q :: rest) zeros).pheromone := by
  have hsto := store_append ExhaleFault.outOfBounds
    (some (⟨top, [], []⟩ : PheromoneSlot) :: done.map some) (some p) (some q)
    (rest.map some ++ replicate zeros none)
  rw [← layout_split, ← layout_split, length_cons, length_map] at hsto
  exact hsto

lemma index_lt_count : done.length + 1 < (layout top (done ++ p :: rest) zeros).count := by
  simp only [layout, length_append, length_cons]
  omega

lemma rounds_layout : (layout top (done ++ p :: rest) zeros).count - (done.length + 1) =
    rest.length + 1 := by
  simp only [layout, length_append, length_cons]
  omega

lemma removeSlot_ok (hlen : done.length + rest.length + zeros + 2 = 32) (hzs : 0 < zeros) :
    removeSlot (done.length + 1) (layout top (done ++ p :: rest) zeros) =
      .ok (layout top (done ++ rest) (zeros + 1)) := by
  obtain ⟨zeros, rfl⟩ := Nat.exists_eq_succ_of_ne_zero hzs.ne'
  have hshift := @shiftDown_ok _ _ ExhaleFault.outOfBounds (rest.length + 1)
    (some (⟨top, [], []⟩ : PheromoneSlot) :: done.map some) (some p)
    (rest.map some ++ replicate (zeros + 1) none) (by simp)
  rw [← layout_split, length_cons, length_map] at hshift
  have hclear := store_append ExhaleFault.outOfBounds
    (some (⟨top, [], []⟩ : PheromoneSlot) :: (done.map some ++ (rest.map some ++ [none])))
  have hend : (some (⟨top, [], []⟩ : PheromoneSlot) ::
      (done.map some ++ (rest.map some ++ [none]))).length =
        done.length + 1 + (rest.length + 1) := by
    simp
    omega
  have hcells : (some (⟨top, [], []⟩ : PheromoneSlot) :: done.map some) ++
      ((rest.map some ++ replicate (zeros + 1) none).take (rest.length + 1) ++
        (some p :: (rest.map some ++ replicate (zeros + 1) none)).drop (rest.length + 1)) =
      (some (⟨top, [], []⟩ : PheromoneSlot) :: (done.map some ++ (rest.map some ++ [none]))) ++
        none :: replicate zeros none := by
    simp [take_append, replicate_succ]
  rw [hend] at hclear
  simp only [removeSlot, rounds_layout, hshift, ok_bind, hcells]
  rw [clearSlot, if_pos (by omega), storeSlot, hclear, ok_bind]
  simp [layout, replicate_succ, pure, Except.pure, Nat.add_assoc]

lemma removeSlot_full :
    removeSlot (done.length + 1) (layout top (done ++ p :: rest) 0) = .error .outOfBounds := by
  have hshift := @shiftDown_fault _ _ ExhaleFault.outOfBounds (rest.length + 1)
    (some (⟨top, [], []⟩ : PheromoneSlot) :: done.map some) (some p)
    (rest.map some ++ replicate 0 none) (by simp)
  rw [← layout_split, length_cons, length_map] at hshift
  rw [removeSlot, rounds_layout, hshift]
  rfl

lemma exhaleRound_eq : exhaleRound (done.length + 1) (layout top (done ++ p :: rest) zeros) =
    if ageIn top p = 0 then
      (removeSlot (done.length + 1) (layout top (done ++ p :: rest) zeros)).map
        fun entry => (done.length + 1, entry)
    else .ok (done.length + 2, layout top (done ++ dropOldest (decrementAge p) :: rest) zeros) := by
  rw [exhaleRound, loadSlot_top, ok_bind, loadSlot_layout, ok_bind, storeSlot_layout]
  by_cases hage : ageIn top p = 0
  · rw [if_pos hage, if_pos hage]
    cases removeSlot (done.length + 1) (layout top (done ++ p :: rest) zeros) <;> rfl
  · rw [if_neg hage, if_neg hage]
    simp [layout, pure, Except.pure, bind, Except.bind]

end

def survivors (top : NeuropilBloom) (ps : List PheromoneSlot) : List PheromoneSlot :=
  (ps.filter fun p => decide (ageIn top p ≠ 0)).map fun p => dropOldest (decrementAge p)

variable {top : NeuropilBloom}

lemma survivors_cons_zero {p : PheromoneSlot} (h : ageIn top p = 0) (ps : List PheromoneSlot) :
    survivors top (p :: ps) = survivors top ps := by
  simp [survivors, h]

lemma survivors_cons {p : PheromoneSlot} (h : ageIn top p ≠ 0) (ps : List PheromoneSlot) :
    survivors top (p :: ps) = dropOldest (decrementAge p) :: survivors top ps := by
  simp [survivors, h]

lemma exhaleLoop_ok {todo done : List PheromoneSlot} {fuel zeros : ℕ} (hfuel : todo.length ≤ fuel)
    (hlen : done.length + todo.length + zeros + 1 = 32)
    (hroom : 0 < zeros ∨ ∀ p ∈ todo, ageIn top p ≠ 0) :
    exhaleLoop fuel (done.length + 1) (layout top (done ++ todo) zeros) =
      .ok (layout top (done ++ survivors top todo) (31 - (done ++ survivors top todo).length)) := by
  induction todo generalizing done fuel zeros with
  | nil =>
    have hzs : zeros = 31 - done.length := by
      simp only [length_nil] at hlen
      omega
    cases fuel <;> simp [exhaleLoop, layout, survivors, hzs]
  | cons p todo ih =>
    simp only [length_cons] at hfuel hlen
    obtain ⟨fuel, rfl⟩ : ∃ n, fuel = n + 1 := ⟨fuel - 1, by omega⟩
    rw [exhaleLoop, if_pos index_lt_count, exhaleRound_eq]
    by_cases hage : ageIn top p = 0
    · have hzs : 0 < zeros := hroom.resolve_right fun h => h p mem_cons_self hage
      rw [if_pos hage, removeSlot_ok (by omega) hzs, survivors_cons_zero hage]
      exact ih (by omega) (by omega) (.inl (by omega))
    · have hround := @ih (done ++ [dropOldest (decrementAge p)]) fuel zeros (by omega)
        (by simp; omega)
        (hroom.imp_right fun h q hq => h q (mem_cons_of_mem p hq))
      rw [if_neg hage, survivors_cons hage, ok_bind]
      simpa [append_assoc] using hround

lemma exhaleLoop_full {todo done : List PheromoneSlot} {fuel : ℕ} (hfuel : todo.length ≤ fuel)
    (hg : ∃ p ∈ todo, ageIn top p = 0) :
    exhaleLoop fuel (done.length + 1) (layout top (done ++ todo) 0) = .error .outOfBounds := by
  induction todo generalizing done fuel with
  | nil => simp at hg
  | cons p todo ih =>
    simp only [length_cons] at hfuel
    obtain ⟨fuel, rfl⟩ : ∃ n, fuel = n + 1 := ⟨fuel - 1, by omega⟩
    rw [exhaleLoop, if_pos index_lt_count, exhaleRound_eq]
    by_cases hage : ageIn top p = 0
    · rw [if_pos hage, removeSlot_full]
      rfl
    · have hltr : ∃ q ∈ todo, ageIn top q = 0 := by
        obtain ⟨q, hq, hzero⟩ := hg
        obtain rfl | hq := mem_cons.1 hq
        · exact absurd hzero hage
        · exact ⟨q, hq, hzero⟩
      have hround := @ih (done ++ [dropOldest (decrementAge p)]) fuel (by omega) hltr
      rw [if_neg hage, ok_bind]
      simpa [append_assoc] using hround

section

variable {entry : Entry} {fuel : ℕ}

lemma exhaleEntry_eq (fuel : ℕ) (entry : Entry) : exhaleEntry fuel (toArray entry) =
    exhaleLoop fuel 1 (layout (ageDecrement entry.union) entry.pheromones
      (31 - entry.pheromones.length)) := rfl

def exhaled (entry : Entry) : Entry :=
  ⟨ageDecrement entry.union, survivors (ageDecrement entry.union) entry.pheromones⟩

lemma exhaleEntry_ok (hlen : entry.pheromones.length ≤ 31)
    (hfuel : entry.pheromones.length ≤ fuel) (hroom : entry.pheromones.length < 31 ∨
      ∀ p ∈ entry.pheromones, ageIn (ageDecrement entry.union) p ≠ 0) :
    exhaleEntry fuel (toArray entry) = .ok (toArray (exhaled entry)) := by
  have hloop := @exhaleLoop_ok (ageDecrement entry.union) entry.pheromones [] fuel
    (31 - entry.pheromones.length) hfuel (by simp; omega) (hroom.imp_left fun h => by omega)
  exact hloop

lemma exhaleEntry_full (hlen : entry.pheromones.length = 31)
    (hfuel : entry.pheromones.length ≤ fuel)
    (hg : ∃ p ∈ entry.pheromones, ageIn (ageDecrement entry.union) p = 0) :
    exhaleEntry fuel (toArray entry) = .error .outOfBounds := by
  have hloop := @exhaleLoop_full (ageDecrement entry.union) entry.pheromones [] fuel hfuel hg
  rw [exhaleEntry_eq, hlen]
  exact hloop

end

lemma toArray_injective {a b : Entry} (h : toArray a = toArray b) :
    a.pheromones = b.pheromones := by
  have hcount : a.pheromones.length = b.pheromones.length := by
    have := congrArg SlotArray.count h
    simpa [toArray, layout] using this
  have hcells := congrArg SlotArray.pheromone h
  simp only [toArray, layout, cons.injEq] at hcells
  have hmap := (append_inj hcells.2 (by simpa using hcount)).1
  exact map_injective_iff.2 (Option.some_injective _) hmap

end Neuropil.Pheromone.Exhale
