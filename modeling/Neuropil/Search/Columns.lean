import Neuropil.Lib.Fault
import Neuropil.Search.Tables

namespace Neuropil.Search.Columns

open Function List Lib.Fault Search.Tables

inductive Fault
  | outOfBounds
  | endless
deriving DecidableEq

abbrev PeerTable := Fin 8 → Fin 32 → Dhkey

def hammingDistanceEach (x y : Dhkey) (k : Fin 8) : ℕ := popcount (x.t k ^^^ y.t k)

def column (index : ℕ) : Except Fault (Fin 32) :=
  if h : index < 32 then .ok ⟨index, h⟩ else .error .outOfBounds

/-- A round of the loop of `__np_search_authorize_node_cb`, for a peer not in the filter. -/
def authorizeRow (node_id peer : Dhkey) (peers : PeerTable) (j : Fin 8) :
    Except Fault PeerTable := do
  let index ← column (hammingDistanceEach peer node_id j)
  let old := peers j index
  .ok (if hammingDistance old node_id > hammingDistance peer node_id ∨ old = .zero then
    update peers j (update (peers j) index peer) else peers)

def authorizeNode (node_id peer : Dhkey) (peers : PeerTable) : Except Fault PeerTable :=
  (finRange 8).foldlM (authorizeRow node_id peer) peers

/-- The inner loop of `__check_remote_peer_distribution` in a row, with the columns that it visits
and the best one. -/
def walk (search_index : Dhkey) (peers : PeerTable) (j : Fin 8) (local_index : ℕ) (up : Bool) :
    ℕ → ℕ → ℕ → ℕ → Except Fault (List ℕ × ℕ)
  | 0, _, _, _ => .error .endless
  | fuel + 1, index, best_index, dh_diff_target =>
    if index = 0 then .ok ([], best_index)
    else do
      let peer := peers j (← column index)
      let diff := hammingDistanceEach search_index peer j
      let better := peer ≠ .zero ∧ diff < dh_diff_target
      let next := if index = local_index then 0 else if up then index + 1 else index - 1
      let (visited, best) ← walk search_index peers j local_index up fuel
        (if 32 ≤ next then 0 else next) (if better then index else best_index)
        (if better then diff else dh_diff_target)
      .ok (index :: visited, best)

/-- A round of `__check_remote_peer_distribution`; more than 32 rounds of the inner loop would visit
a column again. -/
def checkRemotePeerDistribution (node_id search_index : Dhkey) (peers : PeerTable) (j : Fin 8) :
    Except Fault (List ℕ × ℕ) := do
  let local_index := hammingDistanceEach search_index node_id j
  let index := hammingDistanceEach search_index (peers j (← column local_index)) j
  walk search_index peers j local_index (local_index > index) 33 index 32 local_index

variable {node_id peer search_index : Dhkey} {peers : PeerTable} {j : Fin 8}

lemma column_ok {index : ℕ} {c : Fin 32} (h : column index = .ok c) : index < 32 := by
  rw [column] at h
  split_ifs at h with hlt
  exact hlt

lemma authorizeNode_ok_iff (node_id peer : Dhkey) (peers : PeerTable) :
    (∃ peers', authorizeNode node_id peer peers = .ok peers') ↔
      ∀ k, hammingDistanceEach peer node_id k < 32 := by
  have hrows : ∀ (rows : List (Fin 8)) (peers : PeerTable),
      (∃ peers', rows.foldlM (authorizeRow node_id peer) peers = .ok peers') ↔
        ∀ k ∈ rows, hammingDistanceEach peer node_id k < 32 := by
    intro rows
    induction rows with
    | nil => exact fun peers => ⟨fun _ k hk => absurd hk not_mem_nil, fun _ => ⟨peers, rfl⟩⟩
    | cons k rows ih =>
      intro peers
      rw [foldlM_cons, forall_mem_cons]
      constructor
      · rintro ⟨peers', hrun⟩
        obtain ⟨next, hstep, hrest⟩ := bind_eq_ok hrun
        obtain ⟨c, hc, -⟩ := bind_eq_ok hstep
        exact ⟨column_ok hc, (ih next).1 ⟨peers', hrest⟩⟩
      · rintro ⟨hlt, hrest⟩
        rw [authorizeRow, column, dif_pos hlt, ok_bind, ok_bind]
        exact (ih _).2 hrest
  rw [authorizeNode, hrows]
  exact forall_congr' fun k => ⟨fun h => h (mem_finRange k), fun h _ => h⟩

lemma walk_start_lt {local_index index best target fuel : ℕ} {up : Bool} {r : List ℕ × ℕ}
    (h : walk search_index peers j local_index up (fuel + 1) index best target = .ok r) :
    index < 32 := by
  rw [walk] at h
  by_cases hzero : index = 0
  · omega
  · rw [if_neg hzero] at h
    obtain ⟨c, hc, -⟩ := bind_eq_ok h
    exact column_ok hc

lemma walk_visits {local_index : ℕ} {up : Bool} (hlocal : local_index < 32) (fuel : ℕ) :
    ∀ index < 32, (if up then index ≤ local_index ∧ local_index + 1 < fuel + index
      else local_index ≤ index ∧ index < fuel) → ∀ best target, ∃ visited best',
      walk search_index peers j local_index up fuel index best target = .ok (visited, best') ∧
      visited.Nodup ∧ ∀ c ∈ visited, c < 32 ∧ if up then index ≤ c else c ≤ index := by
  induction fuel with
  | zero => intro index hidx hw; split_ifs at hw <;> omega
  | succ fuel ih =>
    intro index hidx hw best target
    by_cases hzero : index = 0
    · exact ⟨[], best, by rw [walk, if_pos hzero], nodup_nil, by simp⟩
    rw [walk, if_neg hzero, column, dif_pos hidx, ok_bind]
    dsimp only
    by_cases hlast : index = local_index
    · obtain ⟨fuel, rfl⟩ : ∃ n, fuel = n + 1 :=
        Nat.exists_eq_add_of_le' (by split_ifs at hw <;> omega)
      rw [if_pos hlast, if_neg (by omega : ¬ 32 ≤ 0), walk, if_pos rfl]
      exact ⟨[index], _, rfl, nodup_singleton _, by simp [hidx]⟩
    · obtain ⟨next, hnext, hlt, hw', hpast⟩ : ∃ next,
          (if up then index + 1 else index - 1) = next ∧ next < 32 ∧
          (if up then next ≤ local_index ∧ local_index + 1 < fuel + next
            else local_index ≤ next ∧ next < fuel) ∧
          ∀ c, (if up then next ≤ c else c ≤ next) →
            c ≠ index ∧ if up then index ≤ c else c ≤ index := by
        refine ⟨_, rfl, ?_⟩
        cases up <;> simp only [Bool.false_eq_true, if_true, if_false] at hw ⊢ <;>
          refine ⟨by omega, by omega, fun c hc => by omega⟩
      rw [if_neg hlast, hnext, if_neg (by omega)]
      obtain ⟨visited, best', hrun, hnd, hv⟩ := ih next hlt hw' _ _
      rw [hrun]
      refine ⟨index :: visited, best', rfl, nodup_cons.2 ⟨fun hmem => ?_, hnd⟩,
        forall_mem_cons.2 ⟨⟨hidx, by split_ifs <;> omega⟩, fun c hc => ?_⟩⟩
      · exact (hpast index (hv index hmem).2).1 rfl
      · exact ⟨(hv c hc).1, (hpast c (hv c hc).2).2⟩

/-- All columns are in the table exactly if no word of the peer or of the search index is the
complement of the node's, and none of the search index that of the peer the walk starts from. No
column is visited twice. -/
theorem columns_iff (node_id peer search_index : Dhkey) (peers : PeerTable) (j : Fin 8) :
    ((∃ peers', authorizeNode node_id peer peers = .ok peers') ↔
      ∀ k, hammingDistanceEach peer node_id k < 32) ∧
    ((∃ visited best, checkRemotePeerDistribution node_id search_index peers j =
        .ok (visited, best) ∧ visited.Nodup ∧ ∀ c ∈ visited, c < 32) ↔
      ∃ h : hammingDistanceEach search_index node_id j < 32,
        hammingDistanceEach search_index (peers j ⟨_, h⟩) j < 32) := by
  refine ⟨authorizeNode_ok_iff node_id peer peers, ?_, ?_⟩
  · rintro ⟨visited, best, hrun, -⟩
    obtain ⟨c, hc, hw⟩ := bind_eq_ok hrun
    have hloc := column_ok hc
    refine ⟨hloc, ?_⟩
    rw [column, dif_pos hloc] at hc
    cases hc
    exact walk_start_lt hw
  · rintro ⟨hloc, hidx⟩
    rw [checkRemotePeerDistribution, column, dif_pos hloc, ok_bind]
    dsimp only
    generalize hammingDistanceEach search_index (peers j ⟨_, hloc⟩) j = index at *
    obtain ⟨visited, best, hrun, hnd, hv⟩ := @walk_visits search_index peers j _
      (hammingDistanceEach search_index node_id j > index) hloc 33 index hidx
      (by split_ifs with hup <;> simp only [decide_eq_true_eq] at hup <;> omega) 32 _
    exact ⟨visited, best, hrun, hnd, fun c hc => (hv c hc).1⟩

/-- The first word of the peer differs in all bits from that of the node. -/
theorem column_out_of_bounds :
    authorizeNode .zero (.ofWord 0xffffffff) (fun _ _ => .zero) = .error .outOfBounds := by
  rfl

end Neuropil.Search.Columns
