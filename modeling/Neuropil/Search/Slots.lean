import Neuropil.Dhkey.Order
import Neuropil.Lib.Fault
import Neuropil.Lib.Run

namespace Neuropil.Search.Slots

abbrev Uuid := Vector UInt8 16

open Function List Lib.Fault Lib.Run

inductive SlotFault
  | outOfBounds
  -- np_tree_find_str asserts that it is given a tree
  | nullTree
deriving DecidableEq

structure SearchQuery (ε : Type) where
  query_id : UInt8
  result_uuid : Uuid
  query_entry : ε

/-- struct search_pipeline_result; it is `stopped` if stop_time > start_time. -/
structure PipelineResult where
  sending_peer_dhkey : Dhkey
  stopped : Bool

/-- The fields of a decoded search result; the id is the `ush` member of its value. -/
structure ResultFields (ε : Type) where
  query_id : UInt16
  result_uuid : Uuid
  result_entry : ε

structure SearchModule (ε ρ : Type) where
  query_id : UInt8
  queries : Fin 255 → Option (SearchQuery ε)
  results : Fin 255 → Option ρ
  pipeline_results : Uuid → Option PipelineResult

variable {ε ρ : Type}

def slot (query_id : UInt8) : Except SlotFault (Fin 255) :=
  if h : query_id.toNat < 255 then .ok ⟨query_id.toNat, h⟩ else .error .outOfBounds

/-- np_create_searchquery; the uuid and the entry are those that it makes. -/
def createSearchquery (m : SearchModule ε ρ) (result_uuid : Uuid) (query_entry : ε) :
    SearchQuery ε × SearchModule ε ρ :=
  (⟨m.query_id, result_uuid, query_entry⟩, { m with query_id := m.query_id + 1 })

/-- np_search_query; `created` is the tree of np_tree_create. An older query and its results are
freed. -/
def searchQuery (created : ρ) (m : SearchModule ε ρ) (query : SearchQuery ε) :
    Except SlotFault (SearchModule ε ρ) := do
  let i ← slot query.query_id
  return { m with
    queries := update m.queries i (some query)
    results := update m.results i (some created)
    pipeline_results := update m.pipeline_results query.result_uuid
      ((m.pipeline_results query.result_uuid).or (some ⟨Dhkey.zero, false⟩)) }

/-- _np_searchresult_receive_cb with what __decode_search_result returns; `reduce` is
_reduce_np_searchentry for a query, its results and an entry. -/
def searchresultReceiveCb (reduce : ε → ρ → ε → ρ) (m : SearchModule ε ρ) :
    Option (ResultFields ε) → Except SlotFault (SearchModule ε ρ × Bool)
  | none => .ok (m, false)
  | some new_result =>
    match m.pipeline_results new_result.result_uuid with
    | none => .ok (m, false)
    | some pipeline =>
      if pipeline.sending_peer_dhkey = Dhkey.zero then
        if pipeline.stopped then .ok (m, false)
        else do
          let i ← slot new_result.query_id.toUInt8
          -- the test for NULL is of the address of the element
          match m.queries i, m.results i with
          | some query, some results =>
            let results := reduce query.query_entry results new_result.result_entry
            return ({ m with results := update m.results i (some results) }, true)
          | _, _ => .error .nullTree
      -- the result is sent on to the peer
      else .ok (m, true)

structure Searching (ε ρ : Type) where
  node : SearchModule ε ρ
  issued : List (SearchQuery ε)

/-- A query of the user, a search result from a peer, or what other functions do to a pipeline. -/
inductive SearchEvent (ε : Type)
  | query (result_uuid : Uuid) (query_entry : ε)
  | result (new_result : Option (ResultFields ε))
  | pipeline (uuid : Uuid) (pipeline : Option PipelineResult)

section

variable (reduce : ε → ρ → ε → ρ) (created : ρ)

def handle (s : Searching ε ρ) : SearchEvent ε → Except SlotFault (Searching ε ρ)
  | .query result_uuid query_entry =>
    let query := createSearchquery s.node result_uuid query_entry
    (searchQuery created query.2 query.1).map fun node => ⟨node, s.issued ++ [query.1]⟩
  | .result new_result =>
    (searchresultReceiveCb reduce s.node new_result).map fun ret => { s with node := ret.1 }
  | .pipeline uuid pipeline => .ok { s with node := { s.node with
      pipeline_results := update s.node.pipeline_results uuid pipeline } }

def step (s : Except SlotFault (Searching ε ρ)) (e : SearchEvent ε) :
    Except SlotFault (Searching ε ρ) :=
  s >>= fun s => handle reduce created s e

def start : Searching ε ρ := ⟨⟨0, fun _ => none, fun _ => none, fun _ => none⟩, []⟩

/-- Results are waited for: the pipeline belongs to this node and is not stopped. -/
def Active (m : SearchModule ε ρ) (uuid : Uuid) : Prop :=
  ∃ pipeline, m.pipeline_results uuid = some pipeline ∧
    pipeline.sending_peer_dhkey = Dhkey.zero ∧ pipeline.stopped = false

/-- An event uses slots of the arrays only, a result for an id not issued changes nothing and is
refused unless it is for another node, and active queries have slots of their own. -/
structure SlotsKept (s : Searching ε ρ) (e : SearchEvent ε) : Prop where
  bounds : handle reduce created s e ≠ .error .outOfBounds
  dropped : ∀ r, e = .result (some r) → (∀ q ∈ s.issued, q.query_id.toNat ≠ r.query_id.toNat) →
    ∃ ret, searchresultReceiveCb reduce s.node (some r) = .ok (s.node, ret) ∧
      (ret = true → ¬ Active s.node r.result_uuid)
  apart : ∀ s', handle reduce created s e = .ok s' → s'.issued.Pairwise fun q q' =>
    Active s'.node q.result_uuid → Active s'.node q'.result_uuid → q.query_id ≠ q'.query_id

/-- There is a slot for the query, and a result of an active query has an issued id. -/
def Fits (s : Searching ε ρ) : SearchEvent ε → Prop
  | .query _ _ => s.issued.length < 255
  | .result (some r) => Active s.node r.result_uuid → r.query_id.toNat < s.issued.length
  | _ => True

structure Inv (s : Searching ε ρ) : Prop where
  ids : s.issued.map (fun q => q.query_id.toNat) = List.range s.issued.length
  next : s.node.query_id.toNat = s.issued.length
  query : ∀ i, (s.node.queries i).isSome ↔ i.val < s.issued.length
  result : ∀ i, (s.node.results i).isSome ↔ i.val < s.issued.length

end

section

variable {reduce : ε → ρ → ε → ρ} {created : ρ} {s : Searching ε ρ} {m : SearchModule ε ρ}
  {r : ResultFields ε}

lemma Inv.apart (h : Inv s) : s.issued.Pairwise fun q q' => q.query_id ≠ q'.query_id := by
  have hnd : (s.issued.map fun q => q.query_id.toNat).Nodup := h.ids ▸ nodup_range
  exact (pairwise_map.1 hnd).imp fun hne heq => hne (by rw [heq])

lemma Inv.issued_iff (h : Inv s) (n : ℕ) :
    (∃ q ∈ s.issued, q.query_id.toNat = n) ↔ n < s.issued.length := by
  rw [← mem_range, ← h.ids, mem_map]

lemma Inv.length_le (h : Inv s) : s.issued.length ≤ 255 := by
  have hlt := s.node.query_id.toNat_lt
  rw [h.next] at hlt
  omega

lemma update_isSome_iff {α : Type} {f : Fin 255 → Option α} {n : ℕ}
    (h : ∀ i, (f i).isSome ↔ i.val < n) (hn : n < 255) (a : α) (i : Fin 255) :
    (update f ⟨n, hn⟩ (some a) i).isSome ↔ i.val < n + 1 := by
  by_cases hi : i = ⟨n, hn⟩
  · subst hi
    simp
  · have hne : i.val ≠ n := fun heq => hi (Fin.ext heq)
    rw [update_of_ne hi, h i]
    omega

lemma query_inv (h : Inv s) (hlt : s.issued.length < 255) (uuid : Uuid) (entry : ε) :
    ∃ s', handle reduce created s (.query uuid entry) = .ok s' ∧ Inv s' := by
  have hslot : slot s.node.query_id = .ok ⟨s.issued.length, hlt⟩ := by
    simp only [slot, h.next, hlt, dif_pos]
  have hnext : (s.node.query_id + 1).toNat = s.issued.length + 1 := by
    rw [UInt8.toNat_add, h.next]
    exact Nat.mod_eq_of_lt (Nat.succ_lt_succ hlt)
  refine ⟨_, by simp only [handle, createSearchquery, searchQuery, hslot]; rfl, ?_, ?_, ?_, ?_⟩
  · simp [h.ids, h.next, range_succ]
  · rw [length_append]
    exact hnext
  · intro i
    rw [length_append]
    exact update_isSome_iff h.query hlt _ i
  · intro i
    rw [length_append]
    exact update_isSome_iff h.result hlt _ i

lemma receive_of_not_active (reduce : ε → ρ → ε → ρ) (h : ¬ Active m r.result_uuid) :
    ∃ ret, searchresultReceiveCb reduce m (some r) = .ok (m, ret) := by
  rw [searchresultReceiveCb]
  cases hpipe : m.pipeline_results r.result_uuid with
  | none => exact ⟨_, rfl⟩
  | some pipeline =>
    dsimp only
    split_ifs with hown hsto
    · exact ⟨_, rfl⟩
    · exact absurd ⟨pipeline, hpipe, hown, Bool.eq_false_iff.2 hsto⟩ h
    · exact ⟨_, rfl⟩

lemma receive_of_active (h : Active m r.result_uuid) :
    searchresultReceiveCb reduce m (some r) = slot r.query_id.toUInt8 >>= fun i =>
      match m.queries i, m.results i with
      | some query, some results =>
        let results := reduce query.query_entry results r.result_entry
        .ok ({ m with results := update m.results i (some results) }, true)
      | _, _ => .error .nullTree := by
  obtain ⟨pipeline, hpipe, hown, hsto⟩ := h
  simp only [searchresultReceiveCb, hpipe, hown, hsto, if_true, Bool.false_eq_true, if_false]
  rfl

lemma receive_ne (h : Active m r.result_uuid) (m' : SearchModule ε ρ) :
    searchresultReceiveCb reduce m (some r) ≠ .ok (m', false) := by
  rw [receive_of_active h]
  intro heq
  obtain ⟨i, -, heq⟩ := bind_eq_ok heq
  split at heq <;> cases heq

lemma receive_inv (h : Inv s) (ha : Active s.node r.result_uuid)
    (hid : r.query_id.toNat < s.issued.length) :
    ∃ s', handle reduce created s (.result (some r)) = .ok s' ∧ Inv s' := by
  have hlt : r.query_id.toNat < 255 := hid.trans_le h.length_le
  have hslot : slot r.query_id.toUInt8 = .ok ⟨r.query_id.toNat, hlt⟩ := by
    have hid : r.query_id.toUInt8.toNat = r.query_id.toNat := by
      rw [UInt16.toNat_toUInt8]
      omega
    simp only [slot, hid, hlt, dif_pos]
  obtain ⟨query, hq⟩ := Option.isSome_iff_exists.1 ((h.query ⟨_, hlt⟩).2 hid)
  obtain ⟨results, hres⟩ := Option.isSome_iff_exists.1 ((h.result ⟨_, hlt⟩).2 hid)
  rw [handle, receive_of_active ha, hslot, ok_bind, hq, hres]
  refine ⟨_, rfl, h.ids, h.next, h.query, fun i => ?_⟩
  by_cases hi : i = ⟨_, hlt⟩
  · subst hi
    exact iff_of_true (by simp) hid
  · rw [← h.result i]
    simp only [update_of_ne hi]

lemma handle_inv (h : Inv s) {e : SearchEvent ε} (hfits : Fits s e) :
    ∃ s', handle reduce created s e = .ok s' ∧ Inv s' := by
  match e with
  | .query uuid entry => exact query_inv h hfits uuid entry
  | .result none => exact ⟨s, rfl, h⟩
  | .result (some r) =>
    by_cases ha : Active s.node r.result_uuid
    · exact receive_inv h ha (hfits ha)
    · obtain ⟨ret, hret⟩ := receive_of_not_active reduce ha
      exact ⟨s, by rw [handle, hret]; rfl, h⟩
  | .pipeline uuid pipeline => exact ⟨_, rfl, h.ids, h.next, h.query, h.result⟩

lemma slotsKept_of_fits (h : Inv s) {e : SearchEvent ε} (hfits : Fits s e) :
    SlotsKept reduce created s e := by
  obtain ⟨s', hs', hinv⟩ := @handle_inv _ _ reduce created _ h _ hfits
  refine ⟨?_, ?_, ?_⟩
  · rw [hs']
    intro heq
    cases heq
  · rintro r rfl hnew
    have ha : ¬ Active s.node r.result_uuid := by
      intro ha
      obtain ⟨q, hq, hid⟩ := (h.issued_iff _).2 (hfits ha)
      exact hnew q hq hid
    obtain ⟨ret, hret⟩ := receive_of_not_active reduce ha
    exact ⟨ret, hret, fun _ => ha⟩
  · intro s'' hs''
    cases hs'.symm.trans hs''
    exact hinv.apart.imp fun hne _ _ => hne

lemma fits_of_slotsKept (h : Inv s) {e : SearchEvent ε} (hkept : SlotsKept reduce created s e) :
    Fits s e := by
  match e with
  | .query uuid entry =>
    by_contra hge
    have hslot : slot s.node.query_id = .error .outOfBounds := dif_neg (by rwa [h.next])
    apply hkept.bounds
    simp only [handle, createSearchquery, searchQuery, hslot]
    rfl
  | .result none => trivial
  | .result (some r) =>
    intro ha
    by_contra hge
    obtain ⟨ret, hret, ho⟩ := hkept.dropped r rfl fun q hq hid =>
      hge ((h.issued_iff _).1 ⟨q, hq, hid⟩)
    cases ret with
    | false => exact receive_ne ha _ hret
    | true => exact ho rfl ha
  | .pipeline uuid pipeline => trivial

end

/-- The slots are used rightly in every event of a run exactly if at most 255 queries are issued,
and each result that an active query of this node waits for has an issued query id. -/
theorem slots_kept_iff_fits (reduce : ε → ρ → ε → ρ) (created : ρ) (events : List (SearchEvent ε)) :
    Admitted (step reduce created) (.ok start)
        (fun s e => ∀ s', s = .ok s' → SlotsKept reduce created s' e) events ↔
      Admitted (step reduce created) (.ok start) (fun s e => ∀ s', s = .ok s' → Fits s' e)
        events := by
  apply admitted_congr fun s => ∃ s', s = .ok s' ∧ Inv s'
  · exact ⟨start, rfl, rfl, rfl, fun i => by simp [start], fun i => by simp [start]⟩
  · rintro _ e ⟨s, rfl, h⟩ hfits
    exact handle_inv h (hfits s rfl)
  · rintro _ e ⟨s, rfl, h⟩
    constructor
    · rintro hkept _ ⟨⟩
      exact fits_of_slotsKept h (hkept s rfl)
    · rintro hfits _ ⟨⟩
      exact slotsKept_of_fits h (hfits s rfl)

/-- A peer answers the first query of a node under its uuid with the id 255. -/
theorem result_out_of_bounds :
    let uuid : Uuid := .replicate 16 1
    ∃ s : Searching Unit Unit,
      run (step (fun _ _ _ => ()) ()) (.ok start) [.query uuid ()] = .ok s ∧
      handle (fun _ _ _ => ()) () s (.result (some ⟨255, uuid, ()⟩)) = .error .outOfBounds :=
  ⟨_, rfl, rfl⟩

end Neuropil.Search.Slots
