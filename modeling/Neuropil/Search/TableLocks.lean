import Neuropil.Lib.Locks
import Neuropil.Search.Tables

namespace Neuropil.Search.TableLocks

open List Lib.Locks Search.Tables

inductive SearchLock
  | table (i : ℕ)
  | results (query_id : UInt8)
  | pipeline
deriving DecidableEq

/-- What is done with a search tree: its `_root._key` is read, which only np_bktree_init writes, or
one of the functions of np_bktree is called. -/
inductive Access
  | rootKey
  | query
  | insert
  | remove
deriving DecidableEq

variable {n : ℕ}

/-- What an operation does, with the outcomes that depend on the contents of the trees. -/
inductive SearchOp (n : ℕ)
  -- how many entries of each tree are to be deleted
  | deprecation (on_shutdown_route : Bool) (map_result : Fin n → ℕ)
  -- whether the query has no result yet when a round begins
  | query (remote_distribution_count : UInt8) (sending_peer_is_zero : Bool) (query_id : UInt8)
      (key : Dhkey) (no_result : ℕ → Bool)
  | add (remote_distribution_count : UInt8) (key : Dhkey)

def maxQueryCount (n : ℕ) : ℕ := if n < 16 then n else 16

def maxCreateCount (n : ℕ) : ℕ := if n < 8 then n else 8

def queryRounds (n : ℕ) (no_result : ℕ → Bool) : ℕ :=
  ((range (maxQueryCount n)).takeWhile no_result).length

variable (qsort : Qsort n) (keys : Fin n → Dhkey)

def distanceSection (n : ℕ) : Section SearchLock (Fin n × Access) :=
  ⟨none, (finRange n).map fun i => (i, .rootKey)⟩

/-- A round takes the lock with its own number, and works on the tree that the bucket names. -/
def roundSection (access : Access) (round : SearchTableBucket n × ℕ) :
    Section SearchLock (Fin n × Access) :=
  ⟨some (.table round.2), [(round.1.index, access)]⟩

def rounds (key : Dhkey) (count : ℕ) : List (SearchTableBucket n × ℕ) :=
  ((qsort.sort (buckets keys key)).take count).zipIdx

def deprecateEntries (on_shutdown_route : Bool) (map_result : Fin n → ℕ) :
    List (Section SearchLock (Fin n × Access)) :=
  if on_shutdown_route then []
  else (finRange n).flatMap fun i : Fin n =>
    ⟨some (.table i.val), [(i, .query)]⟩ ::
      replicate (map_result i) ⟨some (.table i.val), [(i, .remove)]⟩

def searchQuery (remote_distribution_count : UInt8) (sending_peer_is_zero : Bool)
    (query_id : UInt8) (key : Dhkey) (no_result : ℕ → Bool) :
    List (Section SearchLock (Fin n × Access)) :=
  ⟨some .pipeline, []⟩ ::
    (if sending_peer_is_zero then [⟨some (.results query_id), []⟩] else []) ++
    if remote_distribution_count ≤ 6 then
      -- the distances are computed once for every round
      replicate (maxQueryCount n) (distanceSection n) ++
        (rounds qsort keys key (queryRounds n no_result)).flatMap fun round =>
          [roundSection .query round, ⟨some (.results query_id), []⟩]
    else []

def searchAddEntry (remote_distribution_count : UInt8) (key : Dhkey) :
    List (Section SearchLock (Fin n × Access)) :=
  ⟨some .pipeline, []⟩ ::
    if remote_distribution_count ≤ 6 then
      replicate (maxCreateCount n) (distanceSection n) ++
        (rounds qsort keys key (maxCreateCount n)).map (roundSection .insert)
    else []

def sections : SearchOp n → List (Section SearchLock (Fin n × Access))
  | .deprecation on_shutdown_route map_result => deprecateEntries on_shutdown_route map_result
  | .query remote_distribution_count sending_peer_is_zero query_id key no_result =>
    searchQuery qsort keys remote_distribution_count sending_peer_is_zero query_id key no_result
  | .add remote_distribution_count key => searchAddEntry qsort keys remote_distribution_count key

def threads (ops : List (SearchOp n)) (t : ℕ) : List (Section SearchLock (Fin n × Access)) :=
  (ops[t]?).elim [] (sections qsort keys)

def tableLock (touched : Fin n × Access) : SearchLock := .table touched.1

def TreeCall (touched : Fin n × Access) : Prop := touched.2 ≠ .rootKey

def AnyAccess (_ : Fin n × Access) : Prop := True

/-- In every interleaving, however qsort works, a thread about to make an access in `P` holds the
lock of the tree. -/
def AlwaysGuarded (P : Fin n × Access → Prop) (keys : Fin n → Dhkey) (ops : List (SearchOp n)) :
    Prop :=
  ∀ (qsort : Qsort n) (s : State SearchLock (Fin n × Access)),
    Reachable (threads qsort keys ops) s → Guarded P tableLock s

/-- The trees that the operation visits stand in ascending order of their distances. -/
def OpAscending (keys : Fin n → Dhkey) : SearchOp n → Prop
  | .deprecation _ _ => True
  | .query remote_distribution_count _ _ key no_result =>
    remote_distribution_count ≤ 6 → Ascending keys key (queryRounds n no_result)
  | .add remote_distribution_count key =>
    remote_distribution_count ≤ 6 → Ascending keys key (maxCreateCount n)

/-- The operation does not look at the distances of the trees. -/
def OpRemote (n : ℕ) : SearchOp n → Prop
  | .deprecation _ _ => True
  | .query remote_distribution_count _ _ _ _ | .add remote_distribution_count _ =>
    remote_distribution_count ≤ 6 → n = 0

variable {qsort keys}

def Locked (P : Fin n × Access → Prop) (op : SearchOp n) (qsort : Qsort n) (keys : Fin n → Dhkey) :
    Prop :=
  ∀ sec ∈ sections qsort keys op, ∀ o ∈ sec.touched, P o → sec.lock = some (tableLock o)

variable {P : Fin n × Access → Prop}

lemma alwaysGuarded_iff {ops : List (SearchOp n)} :
    AlwaysGuarded P keys ops ↔ ∀ op ∈ ops, ∀ qsort, Locked P op qsort keys := by
  simp only [AlwaysGuarded, guarded_iff]
  constructor
  · intro h op hop qsort
    obtain ⟨t, ht⟩ := mem_iff_getElem?.1 hop
    have hsct := h qsort t
    rwa [threads, ht] at hsct
  · intro h qsort t
    rw [threads]
    cases ht : ops[t]? with
    | none => exact fun sec hsec => absurd hsec not_mem_nil
    | some op => exact h op (mem_of_getElem? ht) qsort

variable {key : Dhkey} {count : ℕ}

lemma locked_rounds {access : Access} (hP : ∀ i, P (i, access)) :
    (∀ round ∈ rounds qsort keys key count, ∀ o ∈ (roundSection access round).touched, P o →
        (roundSection access round).lock = some (tableLock o)) ↔
      InPlace (qsort.sort (buckets keys key)) count := by
  simp only [roundSection, forall_mem_singleton, hP, true_imp_iff, tableLock, Option.some.injEq,
    SearchLock.table.injEq, rounds, Prod.forall, mem_zipIdx_iff_getElem?, getElem?_take]
  constructor
  · intro h j bucket hj hb
    exact (h bucket j (by rwa [if_pos hj])).symm
  · intro h bucket j hb
    split_ifs at hb with hj
    exact (h j bucket hj hb).symm

lemma deprecate_locked (on_shutdown_route : Bool) (map_result : Fin n → ℕ) :
    Locked P (.deprecation on_shutdown_route map_result) qsort keys := by
  intro sec hsec o ho _
  rw [sections, deprecateEntries] at hsec
  split_ifs at hsec with hd
  · cases hsec
  · obtain ⟨i, -, hsec⟩ := mem_flatMap.1 hsec
    obtain rfl | hsec := mem_cons.1 hsec
    · rw [mem_singleton.1 ho, tableLock]
    · rw [eq_of_mem_replicate hsec] at ho ⊢
      rw [mem_singleton.1 ho, tableLock]

lemma locked_distances :
    (∀ sec ∈ replicate count (distanceSection n), ∀ o ∈ sec.touched, P o →
        sec.lock = some (tableLock o)) ↔ (count ≠ 0 → ∀ i, ¬ P (i, .rootKey)) := by
  simp [distanceSection, mem_replicate]

variable {remote_distribution_count : UInt8}

lemma add_locked_iff (hP : ∀ i, P (i, .insert)) :
    Locked P (.add remote_distribution_count key) qsort keys ↔
      (remote_distribution_count ≤ 6 →
        (maxCreateCount n ≠ 0 → ∀ i, ¬ P (i, .rootKey)) ∧
          InPlace (qsort.sort (buckets keys key)) (maxCreateCount n)) := by
  rw [Locked, sections, searchAddEntry, forall_mem_cons]
  split_ifs with hloc
  · rw [forall_mem_append, locked_distances, forall_mem_map, locked_rounds hP]
    simp [hloc]
  · simp [hloc]

lemma query_locked_iff (hP : ∀ i, P (i, .query)) {sending_peer_is_zero : Bool} {query_id : UInt8}
    {no_result : ℕ → Bool} :
    Locked P (.query remote_distribution_count sending_peer_is_zero query_id key no_result)
        qsort keys ↔
      (remote_distribution_count ≤ 6 →
        (maxQueryCount n ≠ 0 → ∀ i, ¬ P (i, .rootKey)) ∧
          InPlace (qsort.sort (buckets keys key)) (queryRounds n no_result)) := by
  have hres : ∀ sec ∈ (if sending_peer_is_zero then
      [(⟨some (.results query_id), []⟩ : Section SearchLock (Fin n × Access))] else []),
      ∀ o ∈ sec.touched, P o → sec.lock = some (tableLock o) := by
    split_ifs <;> simp
  have hrou : (∀ sec ∈ (rounds qsort keys key (queryRounds n no_result)).flatMap (fun round =>
        [roundSection .query round, ⟨some (.results query_id), []⟩]),
      ∀ o ∈ sec.touched, P o → sec.lock = some (tableLock o)) ↔
        InPlace (qsort.sort (buckets keys key)) (queryRounds n no_result) := by
    rw [forall_mem_flatMap, ← locked_rounds hP]
    refine forall₂_congr fun round _ => ?_
    rw [forall_mem_cons, forall_mem_singleton]
    exact and_iff_left fun o ho => absurd ho not_mem_nil
  rw [Locked, sections, searchQuery, forall_mem_append, forall_mem_cons,
    and_iff_right ⟨fun o ho => absurd ho not_mem_nil, hres⟩]
  by_cases hloc : remote_distribution_count ≤ 6
  · rw [if_pos hloc, forall_mem_append, locked_distances, hrou, forall_prop_of_true hloc]
  · rw [if_neg hloc, forall_prop_of_false hloc]
    exact iff_of_true (fun sec hsec => absurd hsec not_mem_nil) trivial

lemma capped_eq_zero {cap : ℕ} (hcap : 0 < cap) : (if n < cap then n else cap) = 0 ↔ n = 0 := by
  split_ifs with h
  · exact Iff.rfl
  · exact iff_of_false hcap.ne' (by omega)

lemma calls_inPlace_iff {here : Prop} {rounds : ℕ} :
    (∀ qsort : Qsort n, here → (count ≠ 0 → ∀ i : Fin n, ¬ TreeCall (i, .rootKey)) ∧
        InPlace (qsort.sort (buckets keys key)) rounds) ↔
      (here → Ascending keys key rounds) := by
  have hkey : ∀ i : Fin n, ¬ TreeCall (i, .rootKey) := fun i h => h rfl
  rw [← inPlace_iff]
  constructor
  · exact fun h hh qsort => (h qsort hh).2
  · exact fun h qsort hh => ⟨fun _ => hkey, h hh qsort⟩

lemma accesses_inPlace_iff {here : Prop} {rounds : ℕ} (hcount : count = 0 ↔ n = 0) :
    (∀ qsort : Qsort n, here → (count ≠ 0 → ∀ i : Fin n, ¬ AnyAccess (i, .rootKey)) ∧
        InPlace (qsort.sort (buckets keys key)) rounds) ↔
      (here → n = 0) := by
  constructor
  · intro h hh
    by_contra hn
    exact (h (insertionQsort n) hh).1 (mt hcount.1 hn) ⟨0, Nat.pos_of_ne_zero hn⟩ trivial
  · intro h qsort hh
    refine ⟨fun hne => absurd (hcount.2 (h hh)) hne, fun j bucket => ?_⟩
    have hn := h hh
    exact absurd bucket.index.isLt (by omega)

lemma calls_locked_iff (op : SearchOp n) :
    (∀ qsort, Locked TreeCall op qsort keys) ↔ OpAscending keys op := by
  cases op with
  | deprecation on_shutdown_route map_result =>
    exact iff_of_true (fun qsort => deprecate_locked on_shutdown_route map_result) trivial
  | query remote_distribution_count sending_peer_is_zero query_id key no_result =>
    have hcall : ∀ i : Fin n, TreeCall (i, .query) := by
      rintro i ⟨⟩
    simp only [query_locked_iff hcall]
    exact calls_inPlace_iff
  | add remote_distribution_count key =>
    have hcall : ∀ i : Fin n, TreeCall (i, .insert) := by
      rintro i ⟨⟩
    simp only [add_locked_iff hcall]
    exact calls_inPlace_iff

lemma accesses_locked_iff (op : SearchOp n) :
    (∀ qsort, Locked AnyAccess op qsort keys) ↔ OpRemote n op := by
  cases op with
  | deprecation on_shutdown_route map_result =>
    exact iff_of_true (fun qsort => deprecate_locked on_shutdown_route map_result) trivial
  | query remote_distribution_count sending_peer_is_zero query_id key no_result =>
    have hany : ∀ i : Fin n, AnyAccess (i, .query) := fun _ => trivial
    simp only [query_locked_iff hany]
    exact accesses_inPlace_iff (capped_eq_zero (by decide))
  | add remote_distribution_count key =>
    have hany : ∀ i : Fin n, AnyAccess (i, .insert) := fun _ => trivial
    simp only [add_locked_iff hany]
    exact accesses_inPlace_iff (capped_eq_zero (by decide))

/-- In every interleaving, np_bktree is called under the lock of the tree exactly if the trees stand
in the order of their distances from every incoming key, as far as they are visited. Their keys are
read without a lock whenever there is anything to do. -/
theorem tables_guarded_iff (keys : Fin n → Dhkey) (ops : List (SearchOp n)) :
    (AlwaysGuarded TreeCall keys ops ↔ ∀ op ∈ ops, OpAscending keys op) ∧
      (AlwaysGuarded AnyAccess keys ops ↔ ∀ op ∈ ops, OpRemote n op) := by
  simp only [alwaysGuarded_iff, calls_locked_iff, accesses_locked_iff, and_self]

def twoKeys (i : Fin 2) : Dhkey := if i.val = 0 then Dhkey.ofWord 1 else Dhkey.ofWord 0

def twoOps : List (SearchOp 2) := [.add 0 (Dhkey.ofWord 0), .deprecation false fun _ => 0]

/-- Both threads work on the second tree at the same time, each of them under a lock. -/
theorem two_threads_in_one_tree :
    ∃ s, Reachable (threads (insertionQsort 2) twoKeys twoOps) s ∧
      s.owner (.table 0) = some 0 ∧
      (s.todo 0).head? = some (.touch (Fin.last 1, .insert)) ∧
      s.owner (.table 1) = some 1 ∧
      (s.todo 1).head? = some (.touch (Fin.last 1, .query)) := by
  obtain ⟨s, hs, hst⟩ := exists_reachable (threads (insertionQsort 2) twoKeys twoOps)
    [1, 1, 1, 1, 0, 0, 0, 0, 0, 0, 0]
    (p := fun s => s.owner (.table 0) = some 0 ∧
      (s.todo 0).head? = some (.touch (Fin.last 1, .insert)) ∧ s.owner (.table 1) = some 1 ∧
      (s.todo 1).head? = some (.touch (Fin.last 1, .query))) (by decide +kernel)
  exact ⟨s, hs, hst⟩

end Neuropil.Search.TableLocks
