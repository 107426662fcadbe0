import Mathlib.Data.PNat.Basic
import Neuropil.Lib.Run

namespace Neuropil.Util.Scache

/-- The `NP_FINGERPRINT_BYTES` bytes of a key, which memcmp compares. -/
abbrev CacheKey := Vector UInt8 32

open Function List Option Lib.Run

structure CacheItem (ν : Type) where
  key : CacheKey
  value : ν

/-- `np_simple_cache_table_t`; `shorthash` is crypto_shorthash_siphash24 with the seed of the
table. -/
structure SimpleCacheTable (size : ℕ+) (ν : Type) where
  shorthash : CacheKey → UInt64
  bucket : Fin size → List (CacheItem ν)

variable {size : ℕ+} {ν : Type}

def cacheInit (shorthash : CacheKey → UInt64) : SimpleCacheTable size ν := ⟨shorthash, fun _ => []⟩

variable (table : SimpleCacheTable size ν)

def bucketOf (key : CacheKey) : Fin size :=
  ⟨(table.shorthash key).toUInt16.toNat % size, Nat.mod_lt _ size.pos⟩

def lookup (key : CacheKey) : Option (CacheItem ν) :=
  (table.bucket (bucketOf table key)).find? fun item => item.key == key

def simpleCacheGet (key : CacheKey) : Option ν := (lookup table key).map CacheItem.value

def simpleCacheAdd (key : CacheKey) (value : ν) : Bool × SimpleCacheTable size ν :=
  match lookup table key with
  | some _ => (false, table)
  | none =>
    let bucket := bucketOf table key
    (true, { table with
      bucket := update table.bucket bucket (table.bucket bucket ++ [⟨key, value⟩]) })

inductive CacheCall (ν : Type)
  | add (key : CacheKey) (value : ν)
  | get (key : CacheKey)

def step : CacheCall ν → SimpleCacheTable size ν
  | .add key value => (simpleCacheAdd table key value).2
  | .get _ => table

/-- The table after calls of any threads, in the order in which they get the lock of their
bucket. -/
def after (size : ℕ+) (shorthash : CacheKey → UInt64) (calls : List (CacheCall ν)) :
    SimpleCacheTable size ν :=
  run step (cacheInit shorthash) calls

/-- The value that was first written under a key. -/
def firstWrite (calls : List (CacheCall ν)) (key : CacheKey) : Option ν :=
  calls.findSome? fun
    | .add k value => if k = key then some value else none
    | .get _ => none

lemma lookup_add (key : CacheKey) (value : ν)
    (other : CacheKey) : lookup (simpleCacheAdd table key value).2 other =
      (lookup table other).or (if key = other then some ⟨key, value⟩ else none) := by
  rw [simpleCacheAdd]
  split
  case h_1 item hfnd =>
    by_cases hkey : key = other
    · rw [← hkey, hfnd, some_or]
    · rw [if_neg hkey, or_none]
  case h_2 hnone =>
    change (update table.bucket _ _ (bucketOf table other)).find? _ = _
    by_cases hb : bucketOf table other = bucketOf table key
    · rw [lookup, hb, update_self, find?_append]
      by_cases hkey : key = other <;> simp [hkey]
    · have hkey : key ≠ other := fun hkey => hb (by rw [hkey])
      rw [update_of_ne hb, if_neg hkey, or_none, lookup]

lemma firstWrite_append (calls more : List (CacheCall ν)) (key : CacheKey) :
    firstWrite (calls ++ more) key = (firstWrite calls key).or (firstWrite more key) :=
  findSome?_append

lemma get_after (size : ℕ+) (shorthash : CacheKey → UInt64) (calls : List (CacheCall ν))
    (key : CacheKey) : simpleCacheGet (after size shorthash calls) key = firstWrite calls key := by
  induction calls using List.reverseRecOn with
  | nil => rfl
  | append_singleton calls call ih =>
    rw [firstWrite_append, ← ih, after, run_concat]
    cases call with
    | add k value =>
      simp only [simpleCacheGet, step, lookup_add, after, map_or]
      by_cases hkey : k = key <;> simp [firstWrite, hkey]
    | get k => simp [step, firstWrite, after]

lemma added_iff (shorthash : CacheKey → UInt64) (calls : List (CacheCall ν)) (key : CacheKey)
    (value : ν) : (simpleCacheAdd (after size shorthash calls) key value).1 = true ↔
      firstWrite calls key = none := by
  rw [← get_after size shorthash, simpleCacheGet, map_eq_none_iff, simpleCacheAdd]
  split <;> simp_all

variable {key : CacheKey} {value : ν}

lemma firstWrite_of_prefix {calls more : List (CacheCall ν)} (h : firstWrite calls key = none)
    (hmore : calls ++ [.add key value] <+: more) : firstWrite more key = some value := by
  obtain ⟨rest, rfl⟩ := hmore
  rw [firstWrite_append, firstWrite_append, h]
  simp [firstWrite]

lemma exists_first {calls : List (CacheCall ν)} (h : firstWrite calls key = some value) :
    ∃ before, before ++ [.add key value] <+: calls ∧ firstWrite before key = none := by
  obtain ⟨before, call, rest, rfl, hcall, hb⟩ := findSome?_eq_some_iff.1 h
  refine ⟨before, ?_, findSome?_eq_none_iff.2 hb⟩
  cases call with
  | add k v =>
    obtain ⟨rfl, hv⟩ := ite_none_right_eq_some.1 hcall
    cases hv
    exact ⟨rest, by simp⟩
  | get k => cases hcall

lemma first_unique {calls before before' : List (CacheCall ν)} {value' : ν}
    (h : firstWrite before key = none) (h' : firstWrite before' key = none)
    (hcls : before ++ [.add key value] <+: calls)
    (hc' : before' ++ [.add key value'] <+: calls) : before.length ≤ before'.length := by
  by_contra hlt
  have hpre : before' ++ [.add key value'] <+: before := by
    apply prefix_of_prefix_length_le hc' ((prefix_append _ _).trans hcls)
    rw [length_append, length_singleton]
    omega
  have hsome := firstWrite_of_prefix h' hpre
  rw [h] at hsome
  cases hsome

/-- For any calls on a table: a get finds what was first written under its key, exactly one add of a
key returns true, and later gets find its value. -/
theorem first_write_wins (size : ℕ+) (shorthash : CacheKey → UInt64) (calls : List (CacheCall ν))
    (key : CacheKey) :
    (∀ before, before ++ [.get key] <+: calls →
      simpleCacheGet (after size shorthash before) key = firstWrite before key) ∧
    ((∃ value, .add key value ∈ calls) → ∃! before, ∃ value, before ++ [.add key value] <+: calls ∧
      (simpleCacheAdd (after size shorthash before) key value).1 = true) ∧
    (∀ before value, before ++ [.add key value] <+: calls →
      (simpleCacheAdd (after size shorthash before) key value).1 = true →
      ∀ later, before ++ [.add key value] <+: later → later ++ [.get key] <+: calls →
        simpleCacheGet (after size shorthash later) key = some value) := by
  simp only [get_after, added_iff]
  refine ⟨fun _ _ => trivial, ?_, fun before value _ hnone later hltr _ =>
    firstWrite_of_prefix hnone hltr⟩
  rintro ⟨value, hadd⟩
  cases hfst : firstWrite calls key with
  | none =>
    have hno := findSome?_eq_none_iff.1 hfst _ hadd
    simp at hno
  | some first =>
    obtain ⟨before, hb, hnone⟩ := exists_first hfst
    refine ⟨before, ⟨first, hb, hnone⟩, ?_⟩
    rintro before' ⟨value', hb', hnone'⟩
    have hlen := le_antisymm (first_unique hnone' hnone hb' hb) (first_unique hnone hnone' hb hb')
    exact prefix_of_prefix_length_le ((prefix_append _ _).trans hb')
      ((prefix_append _ _).trans hb) hlen.le |>.eq_of_length hlen

end Neuropil.Util.Scache
