import Neuropil.Dhkey.Prefix
import Neuropil.Lib.Table

namespace Neuropil.Route.Table

inductive Fault
  | assertion
  | nullNode
deriving DecidableEq, Repr

/-- How the nodes behind two keys compare at the time of a call, by two doubles in the source that
the peers' replies keep changing. -/
structure Latency where
  slower : Dhkey → Dhkey → Bool
  reasonablyLower : Dhkey → Dhkey → Bool

def tableSize : ℕ := 64 * 16 * 3

/-- The place of an entry in the flat array, `__MAX_ENTRY * (j + (__MAX_COL * i)) + k`. -/
def position (i : Fin 64) (j : Fin 16) (k : Fin 3) : Fin tableSize :=
  ⟨3 * (j.val + 16 * i.val) + k.val, by
    have := i.isLt; have := j.isLt; have := k.isLt; simp only [tableSize]; omega⟩

structure RouteTable where
  my_key : Dhkey
  table : Fin tableSize → Option Dhkey
  route_count : UInt32

def init (me : Dhkey) : RouteTable := ⟨me, fun _ => none, 0⟩

inductive Scan
  | free (k : Fin 3)
  | present
  | full (slowest : Option (Fin 3 × Dhkey))

/-- Walk over the three entries of a slot until one is free or holds the key,
keeping track of the slowest node passed. -/
def scan (lat : Latency) (entry : Fin 3 → Option Dhkey) (key : Dhkey) :
    List (Fin 3) → Option (Fin 3 × Dhkey) → Scan
  | [], slowest => .full slowest
  | k :: ks, slowest => match entry k with
    | none => .free k
    | some x =>
      if x = key then .present
      else match slowest with
        | none => scan lat entry key ks (some (k, x))
        | some (pick, s) =>
          scan lat entry key ks (if lat.slower x s then some (k, x) else some (pick, s))

def findEntry (entry : Fin 3 → Option Dhkey) (key : Dhkey) : List (Fin 3) → Option (Fin 3)
  | [] => none
  | k :: ks => if entry k = some key then some k else findEntry entry key ks

structure Outcome where
  route : RouteTable
  added : Option Dhkey
  deleted : Option Dhkey

variable (s : RouteTable)

def insertAt (p : Fin tableSize) (key : Dhkey) : Outcome :=
  ⟨{ s with table := Function.update s.table p (some key), route_count := s.route_count + 1 },
    some key, none⟩

def replaceAt (p : Fin tableSize) (key slowest : Dhkey) : Outcome :=
  ⟨{ s with table := Function.update s.table p (some key),
            route_count := s.route_count + 1 - 1 }, some key, some slowest⟩

def deleteAt (p : Fin tableSize) (key : Dhkey) : Outcome :=
  ⟨{ s with table := Function.update s.table p none, route_count := s.route_count - 1 },
    none, some key⟩

def unchanged : Outcome := ⟨s, none, none⟩

def slot (i : Fin 64) (key : Dhkey) : Fin 3 → Fin tableSize :=
  position i ⟨key.hexalphaAt i, key.hexalphaAt_lt i⟩

def entries : List (Fin 3) := [0, 1, 2]

/-- A node joins the slot of its key: take a free entry, or the one of the
slowest node if the new one has a reasonably lower latency. -/
def join (lat : Latency) (s : RouteTable) (i : Fin 64) (key : Dhkey) : Except Fault Outcome :=
  match scan lat (fun k => s.table (slot i key k)) key entries none with
  | .free k => .ok (insertAt s (slot i key k) key)
  | .present => .ok (unchanged s)
  | .full none => .error .nullNode
  | .full (some (pick, slowest)) =>
    if lat.reasonablyLower slowest key then .ok (replaceAt s (slot i key pick) key slowest)
    else .ok (unchanged s)

def leave (i : Fin 64) (key : Dhkey) : Outcome :=
  match findEntry (fun k => s.table (slot i key k)) key entries with
  | some k => deleteAt s (slot i key k) key
  | none => unchanged s

def update (lat : Latency) (s : RouteTable) (key : Dhkey) (joined : Bool) : Except Fault Outcome :=
  if s.my_key = key then .ok (unchanged s)
  else
    if hi : Dhkey.index s.my_key key < 64 then
      if joined then join lat s ⟨_, hi⟩ key else .ok (leave s ⟨_, hi⟩ key)
    else .error .assertion

variable {entry : Fin 3 → Option Dhkey} {key : Dhkey}

def Passed (entry : Fin 3 → Option Dhkey) (key : Dhkey) (ks : List (Fin 3)) : Prop :=
  ∀ j ∈ ks, ∃ x, x ≠ key ∧ entry j = some x

variable {ks : List (Fin 3)}

lemma Passed.cons {k : Fin 3} {x : Dhkey} (h : Passed entry key ks)
    (hx : x ≠ key) (hk : entry k = some x) : Passed entry key (k :: ks) := by
  intro j hj
  obtain rfl | hj := List.mem_cons.mp hj
  · exact ⟨x, hx, hk⟩
  · exact h j hj

lemma scan_cases (lat : Latency) (entry : Fin 3 → Option Dhkey) (key : Dhkey)
    (ks : List (Fin 3)) (slowest : Option (Fin 3 × Dhkey)) :
    (∃ pre k post, ks = pre ++ k :: post ∧ Passed entry key pre ∧ entry k = none ∧
      scan lat entry key ks slowest = .free k) ∨
    (∃ pre k post, ks = pre ++ k :: post ∧ Passed entry key pre ∧ entry k = some key ∧
      scan lat entry key ks slowest = .present) ∨
    (Passed entry key ks ∧ ((ks = [] ∧ scan lat entry key ks slowest = .full slowest) ∨
      ∃ p x, scan lat entry key ks slowest = .full (some (p, x)) ∧
        (slowest = some (p, x) ∨ entry p = some x))) := by
  induction ks generalizing slowest with
  | nil => exact .inr (.inr ⟨by simp [Passed], .inl ⟨rfl, rfl⟩⟩)
  | cons k ks ih =>
    cases hk : entry k with
    | none => exact .inl ⟨[], k, ks, rfl, by simp [Passed], hk, by simp [scan, hk]⟩
    | some x =>
      by_cases hx : x = key
      · subst hx
        exact .inr (.inl ⟨[], k, ks, rfl, by simp [Passed], hk, by simp [scan, hk]⟩)
      · obtain ⟨q, y, hq, hs⟩ : ∃ q y, (slowest = some (q, y) ∨ entry q = some y) ∧
            scan lat entry key (k :: ks) slowest = scan lat entry key ks (some (q, y)) := by
          cases slowest with
          | none => exact ⟨k, x, .inr hk, by simp [scan, hk, hx]⟩
          | some ps =>
            by_cases hl : lat.slower x ps.2 = true
            · exact ⟨k, x, .inr hk, by simp [scan, hk, hx, hl]⟩
            · exact ⟨ps.1, ps.2, .inl rfl, by simp [scan, hk, hx, hl]⟩
        rw [hs]
        obtain ⟨pre, j, post, rfl, hp, hj, hr⟩ | ⟨pre, j, post, rfl, hp, hj, hr⟩ | ⟨hp, hr⟩ :=
          ih (some (q, y))
        · exact .inl ⟨k :: pre, j, post, rfl, hp.cons hx hk, hj, hr⟩
        · exact .inr (.inl ⟨k :: pre, j, post, rfl, hp.cons hx hk, hj, hr⟩)
        · refine .inr (.inr ⟨hp.cons hx hk, .inr ?_⟩)
          obtain ⟨rfl, hr⟩ | ⟨p, z, hr, hz⟩ := hr
          · exact ⟨q, y, hr, hq⟩
          · obtain hz | hz := hz
            · cases hz
              exact ⟨q, y, hr, hq⟩
            · exact ⟨p, z, hr, .inr hz⟩

lemma findEntry_some {k : Fin 3} (h : findEntry entry key ks = some k) : entry k = some key := by
  induction ks with
  | nil => simp [findEntry] at h
  | cons j ks ih =>
    by_cases hj : entry j = some key
    · simp only [findEntry, hj, ↓reduceIte, Option.some.injEq] at h
      rwa [← h]
    · simp only [findEntry, hj, ↓reduceIte] at h
      exact ih h

lemma findEntry_none (h : findEntry entry key ks = none) : ∀ k ∈ ks, entry k ≠ some key := by
  induction ks with
  | nil => simp
  | cons j ks ih =>
    by_cases hj : entry j = some key
    · simp [findEntry, hj] at h
    · simp only [findEntry, hj, ↓reduceIte] at h
      intro k hk
      obtain rfl | hk := List.mem_cons.mp hk
      · exact hj
      · exact ih h k hk

end Neuropil.Route.Table
