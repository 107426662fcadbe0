import Mathlib.Data.Fintype.Perm
import Neuropil.Dhkey.Order

namespace Neuropil.Search.Tables

open List

def popcount (val : UInt32) : ℕ := (range 32).countP fun i => val.toBitVec.getLsbD i

def hammingDistance (x y : Dhkey) : UInt8 :=
  (finRange 8).foldl (fun diff k => diff + UInt8.ofNat (popcount (x.t k ^^^ y.t k))) 0

structure SearchTableBucket (n : ℕ) where
  hamming_distance : UInt16
  index : Fin n
deriving DecidableEq

variable {n : ℕ}

def searchTableBucketCmp (a b : SearchTableBucket n) : Int :=
  if a.hamming_distance < b.hamming_distance then -1
  else if a.hamming_distance > b.hamming_distance then 1 else 0

/-- What qsort does with buckets; it need not keep the order of equal ones. -/
structure Qsort (n : ℕ) where
  sort : List (SearchTableBucket n) → List (SearchTableBucket n)
  perm : ∀ buckets, (sort buckets).Perm buckets
  sorted : ∀ buckets, (sort buckets).Pairwise fun a b => searchTableBucketCmp a b ≤ 0

section

variable (keys : Fin n → Dhkey)

def distance (key : Dhkey) (i : Fin n) : UInt16 := (hammingDistance key (keys i)).toUInt16

def bucketOf (key : Dhkey) (i : Fin n) : SearchTableBucket n := ⟨distance keys key i, i⟩

def buckets (key : Dhkey) : List (SearchTableBucket n) := (finRange n).map (bucketOf keys key)

/-- The first `rounds` trees are nearer to the key than all trees behind them. -/
def Ascending (key : Dhkey) (rounds : ℕ) : Prop :=
  ∀ j k : Fin n, j.val < rounds → j < k → distance keys key j < distance keys key k

end

/-- The tree of each of the first rounds has the number of the round. -/
def InPlace (sorted : List (SearchTableBucket n)) (rounds : ℕ) : Prop :=
  ∀ j bucket, j < rounds → sorted[j]? = some bucket → bucket.index.val = j

lemma searchTableBucketCmp_le {a b : SearchTableBucket n} :
    searchTableBucketCmp a b ≤ 0 ↔ a.hamming_distance ≤ b.hamming_distance := by
  unfold searchTableBucketCmp
  split_ifs with hlt hgt
  · exact iff_of_true (by decide) (UInt16.le_of_lt hlt)
  · exact iff_of_false (by decide) (UInt16.not_le.2 hgt)
  · exact iff_of_true le_rfl (UInt16.not_lt.1 hgt)

structure SortedBuckets (keys : Fin n → Dhkey) (key : Dhkey) (sorted : List (SearchTableBucket n)) :
    Prop where
  perm : sorted.Perm (buckets keys key)
  sorted : sorted.Pairwise fun a b => searchTableBucketCmp a b ≤ 0

lemma Qsort.sortedBuckets (qsort : Qsort n) (keys : Fin n → Dhkey) (key : Dhkey) :
    SortedBuckets keys key (qsort.sort (buckets keys key)) :=
  ⟨qsort.perm _, qsort.sorted _⟩

def insertionQsort (n : ℕ) : Qsort n where
  sort l := l.insertionSort fun a b => a.hamming_distance ≤ b.hamming_distance
  perm l := perm_insertionSort _ l
  sorted l := by
    have htotal : Std.Total fun a b : SearchTableBucket n =>
      a.hamming_distance ≤ b.hamming_distance := ⟨fun a b => UInt16.le_total _ _⟩
    have htrans : IsTrans (SearchTableBucket n) fun a b =>
      a.hamming_distance ≤ b.hamming_distance := ⟨fun a b c hab hbc => UInt16.le_trans hab hbc⟩
    exact (pairwise_insertionSort _ l).imp fun hab => searchTableBucketCmp_le.2 hab

variable {keys : Fin n → Dhkey} {key : Dhkey} {sorted : List (SearchTableBucket n)} {rounds : ℕ}
  {bucket : SearchTableBucket n}

lemma mem_buckets : bucket ∈ buckets keys key ↔ bucket = bucketOf keys key bucket.index := by
  rw [buckets, mem_map]
  constructor
  · rintro ⟨i, -, rfl⟩
    rfl
  · exact fun h => ⟨bucket.index, mem_finRange _, h.symm⟩

lemma nodup_buckets : (buckets keys key).Nodup :=
  (nodup_finRange n).map fun _ _ h => congrArg SearchTableBucket.index h

namespace SortedBuckets

variable (h : SortedBuckets keys key sorted)
include h

lemma exists_position (i : Fin n) : ∃ p : ℕ, sorted[p]? = some (bucketOf keys key i) :=
  mem_iff_getElem?.1 (h.perm.mem_iff.2 (mem_buckets.2 rfl))

lemma bucket_eq {p : ℕ} (hp : sorted[p]? = some bucket) :
    bucket = bucketOf keys key bucket.index :=
  mem_buckets.1 (h.perm.mem_iff.1 (mem_of_getElem? hp))

lemma length_eq : sorted.length = n := by
  rw [h.perm.length_eq, buckets, length_map, length_finRange]

lemma exists_bucket {p : ℕ} (hp : p < n) : ∃ i, sorted[p]? = some (bucketOf keys key i) := by
  have hget := getElem?_eq_getElem (h.length_eq.symm ▸ hp)
  exact ⟨_, hget.trans (congrArg some (h.bucket_eq hget))⟩

lemma position_inj {p q : ℕ} {i : Fin n} (hp : sorted[p]? = some (bucketOf keys key i))
    (hq : sorted[q]? = some (bucketOf keys key i)) : p = q := by
  obtain ⟨hlt, -⟩ := List.getElem?_eq_some_iff.1 hp
  exact (getElem?_inj hlt (h.perm.nodup_iff.2 nodup_buckets)).1 (hp.trans hq.symm)

lemma distance_le {p q : ℕ} {i k : Fin n} (hp : sorted[p]? = some (bucketOf keys key i))
    (hq : sorted[q]? = some (bucketOf keys key k)) (hpq : p < q) :
    distance keys key i ≤ distance keys key k := by
  obtain ⟨hp', hi⟩ := List.getElem?_eq_some_iff.1 hp
  obtain ⟨hq', hk⟩ := List.getElem?_eq_some_iff.1 hq
  have hcmp := pairwise_iff_getElem.1 h.sorted p q hp' hq' hpq
  rw [hi, hk] at hcmp
  exact searchTableBucketCmp_le.1 hcmp

lemma inPlace (hasc : Ascending keys key rounds) : InPlace sorted rounds := by
  intro j
  induction j using Nat.strong_induction_on with
  | _ j ih =>
    intro bucket hj hb
    have hjn : j < n := h.length_eq ▸ (List.getElem?_eq_some_iff.1 hb).1
    have heq := h.bucket_eq hb
    generalize bucket.index = i at heq ⊢
    subst heq
    -- the tree with the number `j` stands at a position of its own
    obtain ⟨p, hp⟩ := h.exists_position ⟨j, hjn⟩
    obtain hpj | rfl | hpj := lt_trichotomy p j
    · exact absurd (ih p hpj _ (hpj.trans hj) hp) hpj.ne'
    · rw [hb, Option.some.injEq] at hp
      exact congrArg (fun b => b.index.val) hp
    · have hle := h.distance_le hb hp hpj
      obtain hij | hij | hij := lt_trichotomy i.val j
      · -- a tree with a smaller number has its place further in front
        obtain ⟨k, hk⟩ := h.exists_bucket i.isLt
        have hki : k = i := Fin.ext (ih i.val hij _ (hij.trans hj) hk)
        rw [hki] at hk
        exact h.position_inj hk hb
      · exact hij
      · exact absurd (hasc ⟨j, hjn⟩ i hj hij) (UInt16.not_lt.2 hle)

lemma exchange {j k : Fin n} (hjk : distance keys key j = distance keys key k) :
    ∃ sorted' : List (SearchTableBucket n), SortedBuckets keys key sorted' ∧
      ∀ p : ℕ, sorted[p]? = some (bucketOf keys key j) →
        sorted'[p]? = some (bucketOf keys key k) := by
  have hd : ∀ i, distance keys key (Equiv.swap j k i) = distance keys key i := by
    intro i
    by_cases hij : i = j
    · rw [hij, Equiv.swap_apply_left, hjk]
    · by_cases hik : i = k
      · rw [hik, Equiv.swap_apply_right, hjk]
      · rw [Equiv.swap_apply_of_ne_of_ne hij hik]
  let renamed (bucket : SearchTableBucket n) : SearchTableBucket n :=
    { bucket with index := Equiv.swap j k bucket.index }
  have hren : ∀ i, renamed (bucketOf keys key i) = bucketOf keys key (Equiv.swap j k i) := by
    intro i
    rw [bucketOf, bucketOf, hd]
  refine ⟨sorted.map renamed, ⟨?_, ?_⟩, ?_⟩
  · have hb : (buckets keys key).map renamed =
        ((finRange n).map (Equiv.swap j k)).map (bucketOf keys key) := by
      rw [buckets, map_map, map_map]
      exact map_congr_left fun i _ => hren i
    refine (h.perm.map renamed).trans ?_
    rw [hb]
    exact (Equiv.Perm.map_finRange_perm _).map _
  · exact h.sorted.map renamed fun a b hab => searchTableBucketCmp_le.2
      (searchTableBucketCmp_le.1 hab)
  · intro p hp
    rw [getElem?_map, hp, Option.map_some, hren, Equiv.swap_apply_left]

def toQsort (h : SortedBuckets keys key sorted) : Qsort n where
  sort l := if l = buckets keys key then sorted else (insertionQsort n).sort l
  perm l := by
    split_ifs with hl
    · rw [hl]
      exact h.perm
    · exact (insertionQsort n).perm l
  sorted l := by
    split_ifs
    · exact h.sorted
    · exact (insertionQsort n).sorted l

lemma toQsort_sort : h.toQsort.sort (buckets keys key) = sorted := if_pos rfl

end SortedBuckets

lemma inPlace_iff : (∀ qsort : Qsort n, InPlace (qsort.sort (buckets keys key)) rounds) ↔
      Ascending keys key rounds := by
  constructor
  · intro hplc j k hj hjk
    have hins := (insertionQsort n).sortedBuckets keys key
    obtain ⟨i, hi⟩ := hins.exists_bucket j.isLt
    obtain rfl : i = j := Fin.ext (hplc (insertionQsort n) j.val _ hj hi)
    obtain ⟨p, hp⟩ := hins.exists_position k
    obtain hpi | hpi | hpi := lt_trichotomy p i.val
    · have hk : k.val = p := hplc (insertionQsort n) p _ (hpi.trans hj) hp
      omega
    · rw [hpi, hi, Option.some.injEq] at hp
      exact absurd (congrArg SearchTableBucket.index hp) (ne_of_lt hjk)
    · refine UInt16.lt_iff_le_and_ne.2 ⟨hins.distance_le hi hp hpi, fun heq => ?_⟩
      -- with equal distances the two trees may as well be exchanged
      obtain ⟨sorted', hs', he⟩ := hins.exchange heq
      have hk := hplc hs'.toQsort i.val (bucketOf keys key k) hj (by
        rw [hs'.toQsort_sort]
        exact he i.val hi)
      exact absurd (Fin.ext hk) (ne_of_gt hjk)
  · exact fun hasc qsort => (qsort.sortedBuckets keys key).inPlace hasc

end Neuropil.Search.Tables
