import Neuropil.Bloom.Filter
import Neuropil.Dhkey.Prefix
import Neuropil.Skiplist.Map
import Neuropil.Skiplist.SetRuns
import Neuropil.Tree.KeyOrder

namespace Neuropil.Keystore.Identities

open List Bloom.Filter Lib.Buffer Lib.Fault Skiplist.Search Skiplist.Map Skiplist.Remove Tree.Values
open Tree.KeyOrder

inductive Fault
  | skiplist (fault : Skiplist.Search.Fault)
  -- `ABORT` of a filter without free items
  | filter (fault : FilterFault)
  | nullDereference
deriving DecidableEq

inductive NpReturn
  | ok
  | invalidOperation
  | unknownError
deriving DecidableEq

structure NpKeystore (τ : Type) where
  allowed_identities : NpSkiplist τ
  allowed_identities_filter : NeuropilBloom
  denied_identities_filter : NeuropilBloom

def keystoreInit {τ : Type} : NpKeystore τ := ⟨skiplistInit, create, create⟩

def memcmp (fp_1 fp_2 : Dhkey) : Int := byteCmp fp_1.bytes fp_2.bytes

def toInt8 (n : Int) : Int := n.bmod 256

variable {τ : Type} (fingerprint : τ → Dhkey) (public_key : τ → Bytes)

def compareByFingerprint (t1 t2 : τ) : Int := toInt8 (memcmp (fingerprint t1) (fingerprint t2))

def cmpByFingerprint (io : Dhkey) (t2 : τ) : Int := toInt8 (memcmp io (fingerprint t2))

def mapByFingerprint (io : Dhkey) (reduce_result : List (Dhkey × τ)) :
    Option τ → List (Dhkey × τ) × Bool
  | none => (reduce_result, true)
  | some t2 =>
    let fp_2 := fingerprint t2
    if memcmp io fp_2 = 0 then
      if (reduce_result.find? fun entry => entry.1 = fp_2).isNone then
        ((fp_2, t2) :: reduce_result, false)
      else (reduce_result, true)
    else (reduce_result, false)

def checkIdentity (keystore : NpKeystore τ) (identity : τ) : Except Fault NpReturn :=
  let identity_fp := fingerprint identity
  let in_allow_list := check keystore.allowed_identities_filter identity_fp
  let in_denied_list := check keystore.denied_identities_filter identity_fp
  if in_allow_list && !in_denied_list then do
    let reduce_result ← (skiplistMap (cmpByFingerprint fingerprint identity_fp)
      (mapByFingerprint fingerprint identity_fp) keystore.allowed_identities []).mapError .skiplist
    if reduce_result.length = 1 then
      match reduce_result.find? fun entry => entry.1 = identity_fp with
      | none => .error .nullDereference
      | some (_, stored_token) =>
        if public_key stored_token = public_key identity then .ok .ok else .ok .unknownError
    else .ok .unknownError
  else .ok .unknownError

/-- What becomes of the file of a token: it is written, there already is one with the given
fingerprint, or there is neither. -/
inductive TokenFile
  | saved
  | present (tmp_token_fingerprint : Dhkey)
  | failed

/-- A call of np_keystore_store_identity, with the value of `random()` in np_skiplist_add. -/
structure StoreCall (τ : Type) where
  identity : τ
  file : TokenFile
  z : BitVec 31

def filed (call : StoreCall τ) : Bool :=
  match call.file with
  | .saved => true
  | .present tmp_token_fingerprint =>
    decide (memcmp tmp_token_fingerprint (fingerprint call.identity) = 0)
  | .failed => false

def addIdentity (keystore : NpKeystore τ) (call : StoreCall τ) :
    Except Fault (NpKeystore τ × NpReturn) := do
  let (allowed_identities, added) ← (skiplistAdd (compareByFingerprint fingerprint)
    keystore.allowed_identities call.identity call.z).mapError .skiplist
  if added then do
    let filter ← (add keystore.allowed_identities_filter (fingerprint call.identity)).mapError
      .filter
    return (⟨allowed_identities, filter, keystore.denied_identities_filter⟩, .ok)
  else return ({ keystore with allowed_identities := allowed_identities }, .invalidOperation)

def storeIdentity (keystore : NpKeystore τ) (call : StoreCall τ) :
    Except Fault (NpKeystore τ × NpReturn) := do
  let ret ← checkIdentity fingerprint public_key keystore call.identity
  if ret = .ok then return (keystore, .ok)
  else if filed fingerprint call then addIdentity fingerprint keystore call
  else return (keystore, .invalidOperation)

def storeStep (s : NpKeystore τ × List τ) (call : StoreCall τ) :
    Except Fault (NpKeystore τ × List τ) := do
  let (keystore, ret) ← storeIdentity fingerprint public_key s.1 call
  return (keystore, if ret = .ok then s.2 ++ [call.identity] else s.2)

def storeAll (calls : List (StoreCall τ)) : Except Fault (NpKeystore τ × List τ) :=
  calls.foldlM (storeStep fingerprint public_key) (keystoreInit, [])

variable {fingerprint public_key}

lemma memcmp_eq_zero {a b : Dhkey} : memcmp a b = 0 ↔ a = b := by
  rw [memcmp, byteCmp_eq_zero ((Dhkey.length_bytes a).trans (Dhkey.length_bytes b).symm),
    Dhkey.bytes_injective.eq_iff]

lemma toInt8_memcmp_eq_zero {a b : Dhkey} : toInt8 (memcmp a b) = 0 ↔ a = b := by
  have hb := byteCmp_bounds a.bytes b.bytes
  rw [← memcmp_eq_zero]
  constructor
  · intro h
    have hdvd := Int.dvd_of_bmod_eq_zero h
    rw [memcmp] at hdvd ⊢
    omega
  · intro h
    rw [h]
    rfl

lemma stops_mapByFingerprint (io : Dhkey) : Stops (mapByFingerprint fingerprint io) [] where
  root := rfl
  item t := by
    rw [mapByFingerprint]
    split <;> rfl

lemma mapByFingerprint_nil (io : Dhkey) (t : τ) :
    (mapByFingerprint fingerprint io [] (some t)).1 =
      if fingerprint t = io then [(io, t)] else [] := by
  by_cases h : fingerprint t = io
  · rw [if_pos h, mapByFingerprint, if_pos (memcmp_eq_zero.mpr h.symm), h]
    rfl
  · rw [if_neg h, mapByFingerprint, if_neg (mt memcmp_eq_zero.mp (Ne.symm h))]

lemma found_first {s : NpSkiplist τ} {io : Dhkey} {result : List (Dhkey × τ)}
    (h : skiplistMap (cmpByFingerprint fingerprint io) (mapByFingerprint fingerprint io) s [] =
      .ok result) :
    result = [] ∨ ∃ t, firstItem s = some t ∧ fingerprint t = io ∧ result = [(io, t)] := by
  obtain ⟨p, t, -, hneg, rfl⟩ | rfl := skiplistMap_cases (stops_mapByFingerprint io) h
  · have hne : fingerprint t ≠ io := by
      rintro rfl
      rw [cmpByFingerprint, toInt8_memcmp_eq_zero.mpr rfl] at hneg
      omega
    rw [mapByFingerprint_nil, if_neg hne]
    exact .inl rfl
  · cases hfst : firstItem s with
    | none => exact .inl rfl
    | some t =>
      rw [Option.elim_some, mapByFingerprint_nil]
      split
      · next heq => exact .inr ⟨t, rfl, heq, rfl⟩
      · exact .inl rfl

variable {keystore : NpKeystore τ} {identity : τ}

lemma checkIdentity_first (h : checkIdentity fingerprint public_key keystore identity = .ok .ok) :
    ∃ t, firstItem keystore.allowed_identities = some t ∧ fingerprint t = fingerprint identity := by
  rw [checkIdentity] at h
  split at h
  · obtain ⟨result, hres, h⟩ := bind_eq_ok h
    obtain rfl | ⟨t, hfst, heq, -⟩ := found_first (mapError_eq_ok hres)
    · cases h
    · exact ⟨t, hfst, heq⟩
  · cases h

def Holds (keystore : NpKeystore τ) (accepted : List τ) : Prop :=
  ∀ p t, itemIn keystore.allowed_identities p = some t → t ∈ accepted

lemma holds_init : Holds (keystoreInit : NpKeystore τ) [] := by
  intro p t h
  by_cases hp : p = 0 <;> simp [itemIn, keystoreInit, skiplistInit, hp] at h

variable {accepted : List τ}

lemma mem_of_firstItem (h : Holds keystore accepted) {t : τ}
    (ht : firstItem keystore.allowed_identities = some t) : t ∈ accepted := by
  rw [firstItem, Option.or_eq_some_iff] at ht
  obtain ht | ⟨-, ht⟩ := ht
  · exact h 0 t ht
  · obtain ⟨p, -, ht⟩ := Option.bind_eq_some_iff.mp ht
    exact h p t ht

lemma checkIdentity_new (h : Holds keystore accepted)
    (hnew : fingerprint identity ∉ accepted.map fingerprint) :
    checkIdentity fingerprint public_key keystore identity ≠ .ok .ok := by
  intro hok
  obtain ⟨t, hfst, heq⟩ := checkIdentity_first hok
  apply hnew
  rw [← heq]
  exact mem_map_of_mem (mem_of_firstItem h hfst)

variable {call : StoreCall τ}

lemma storeStep_holds {keystore' : NpKeystore τ} {accepted' : List τ}
    (h : Holds keystore accepted) (hnew : fingerprint call.identity ∉ accepted.map fingerprint)
    (hstep : storeStep fingerprint public_key (keystore, accepted) call =
      .ok (keystore', accepted')) :
    Holds keystore' accepted' ∧
      accepted' = accepted ++ if filed fingerprint call then [call.identity] else [] := by
  obtain ⟨⟨k, ret⟩, hsto, hstep⟩ := bind_eq_ok hstep
  cases hstep
  obtain ⟨ret', hchk, hsto⟩ := bind_eq_ok hsto
  have hret' : ret' ≠ .ok := by
    rintro rfl
    exact checkIdentity_new h hnew hchk
  rw [if_neg hret'] at hsto
  split at hsto
  · next hfiled =>
    obtain ⟨⟨list, added⟩, hadd, hsto⟩ := bind_eq_ok hsto
    have hadd := mapError_eq_ok hadd
    cases added with
    | false =>
      -- the comparison tells different fingerprints apart, so the identity is added
      obtain ⟨p, x, hx, hzero⟩ := skiplistAdd_false hadd
      exact absurd (mem_map.mpr ⟨x, h p x hx, toInt8_memcmp_eq_zero.mp hzero⟩) hnew
    | true =>
      obtain ⟨filter, -, hsto⟩ := bind_eq_ok hsto
      cases hsto
      rw [if_pos rfl, if_pos hfiled]
      refine ⟨?_, rfl⟩
      intro p t ht
      rw [mem_append, mem_singleton]
      obtain hold | rfl := skiplistAdd_itemIn hadd ht
      · exact .inl (h p t hold)
      · exact .inr rfl
  · next hfiled =>
    cases hsto
    rw [if_neg (by decide), if_neg hfiled, append_nil]
    exact ⟨h, rfl⟩

def filedIdentities (fingerprint : τ → Dhkey) (calls : List (StoreCall τ)) : List τ :=
  (calls.filter (filed fingerprint)).map StoreCall.identity

lemma filedIdentities_concat (calls : List (StoreCall τ)) (call : StoreCall τ) :
    filedIdentities fingerprint (calls ++ [call]) = filedIdentities fingerprint calls ++
        if filed fingerprint call then [call.identity] else [] := by
  rw [filedIdentities, filedIdentities, filter_append, map_append]
  by_cases h : filed fingerprint call <;> simp [h]

variable {calls : List (StoreCall τ)}

lemma new_fingerprint (h : ((calls ++ [call]).map fun c => fingerprint c.identity).Nodup) :
    fingerprint call.identity ∉ (filedIdentities fingerprint calls).map fingerprint := by
  intro hmem
  rw [map_append, nodup_append] at h
  obtain ⟨t, ht, heq⟩ := mem_map.mp hmem
  obtain ⟨c, hc, rfl⟩ := mem_map.mp ht
  exact h.2.2 _ (mem_map_of_mem (mem_of_mem_filter hc)) _ (by simp) heq

lemma storeAll_holds (hd : (calls.map fun c => fingerprint c.identity).Nodup)
    (h : storeAll fingerprint public_key calls = .ok (keystore, accepted)) :
    Holds keystore accepted ∧ accepted = filedIdentities fingerprint calls := by
  have hkept := foldlM_kept
    (fun before (s : NpKeystore τ × List τ) =>
      (before.map fun c => fingerprint c.identity).Nodup →
        Holds s.1 s.2 ∧ s.2 = filedIdentities fingerprint before)
    (fun _ => ⟨holds_init, rfl⟩) ?_ h
  · exact hkept hd
  · rintro before ⟨keystore, accepted⟩ call ⟨keystore', accepted'⟩ hinv hstep hnd
    have hb : (before.map fun c => fingerprint c.identity).Nodup := by
      rw [map_append, nodup_append] at hnd
      exact hnd.1
    obtain ⟨hh, rfl⟩ := hinv hb
    obtain ⟨hh', rfl⟩ := storeStep_holds hh (new_fingerprint hnd) hstep
    exact ⟨hh', (filedIdentities_concat before call).symm⟩

/-- A keystore without identities, or with one. The order of its list does not matter. -/
structure Small (fingerprint : τ → Dhkey) (keystore : NpKeystore τ) (accepted : List τ) :
    Prop where
  holds : Holds keystore accepted
  stored : ∃ H es, Stored (fun _ : τ => 0) keystore.allowed_identities H es ∧
    es.map Entry.item = accepted
  denied : keystore.denied_identities_filter = create
  state : accepted = [] ∧ keystore = keystoreInit ∨
    ∃ t, accepted = [t] ∧ keystore.allowed_identities_filter = scent (fingerprint t)

lemma small_init : Small fingerprint (keystoreInit : NpKeystore τ) [] := by
  obtain ⟨H, es, hstd, hperm⟩ :=
    (Skiplist.SetRuns.represents_init : Skiplist.SetRuns.Represents (fun _ : τ => 0) _ _).stored
  exact ⟨holds_init, ⟨H, es, hstd, perm_nil.mp hperm⟩, rfl, .inl ⟨rfl, rfl⟩⟩

lemma checkIdentity_total (h : Small fingerprint keystore accepted) (identity : τ) :
    ∃ ret, checkIdentity fingerprint public_key keystore identity = .ok ret := by
  obtain ⟨H, es, hstd, -⟩ := h.stored
  rw [checkIdentity]
  split
  · obtain ⟨result, hres⟩ := skiplistMap_ok hstd (stops_mapByFingerprint _)
    rw [hres]
    obtain rfl | ⟨t, -, -, rfl⟩ := found_first hres
    · exact ⟨_, rfl⟩
    · simp only [Except.mapError, ok_bind, length_singleton, if_true, find?_cons, decide_true]
      split <;> exact ⟨_, rfl⟩
  · exact ⟨_, rfl⟩

lemma addIdentity_init (fingerprint : τ → Dhkey) (call : StoreCall τ) :
    ∃ keystore, addIdentity fingerprint keystoreInit call = .ok (keystore, .ok) ∧
      (∃ H es, Stored (fun _ : τ => 0) keystore.allowed_identities H es ∧
        es.map Entry.item = [call.identity]) ∧
      keystore.denied_identities_filter = create ∧
      keystore.allowed_identities_filter = scent (fingerprint call.identity) := by
  have hcom : Skiplist.Search.Compares (fun _ _ => 0) (fun _ : τ => 0) := by
    constructor <;> simp
  obtain ⟨H, es, hstd, hperm⟩ :=
    (Skiplist.SetRuns.represents_init : Skiplist.SetRuns.Represents (fun _ : τ => 0) _ _).stored
  obtain rfl : es = [] := map_eq_nil_iff.mp (perm_nil.mp hperm)
  obtain ⟨list, H', lo, hi, new, hadd, hspl, hitem, hs'⟩ :=
    @Skiplist.Add.skiplistAdd_absent _ _ _ _ _ _ _ _ call.identity hcom hstd (by simp) call.z
  obtain ⟨rfl, rfl⟩ := nil_eq_append_iff.mp hspl
  have hcmp : skiplistAdd (compareByFingerprint fingerprint) skiplistInit call.identity call.z =
      .ok (list, true) := hadd
  refine ⟨⟨list, scent (fingerprint call.identity), create⟩, ?_, ⟨H', _, hs', ?_⟩, rfl, rfl⟩
  · simp only [addIdentity, keystoreInit, hcmp, add_create]
    rfl
  · exact congrArg (fun t => [t]) hitem

lemma storeStep_small (h : Small fingerprint keystore accepted)
    (hnew : fingerprint call.identity ∉ accepted.map fingerprint)
    (hroom : filed fingerprint call = true → accepted = []) :
    ∃ s, storeStep fingerprint public_key (keystore, accepted) call = .ok s ∧
      Small fingerprint s.1 s.2 := by
  obtain ⟨ret, hret⟩ : ∃ ret,
      checkIdentity fingerprint public_key keystore call.identity = .ok ret :=
    checkIdentity_total h call.identity
  have hne : ret ≠ .ok := by
    rintro rfl
    exact checkIdentity_new h.holds hnew hret
  by_cases hfiled : filed fingerprint call = true
  · obtain rfl := hroom hfiled
    obtain ⟨-, rfl⟩ | ⟨t, ht, -⟩ := h.state
    · obtain ⟨keystore', hadd, hstd, hd, hfil⟩ := addIdentity_init fingerprint call
      have hstep : storeStep fingerprint public_key (keystoreInit, []) call =
          .ok (keystore', [call.identity]) := by
        simp only [storeStep, storeIdentity, hret, ok_bind, if_neg hne, if_pos hfiled, hadd]
        rfl
      refine ⟨_, hstep, (storeStep_holds h.holds hnew hstep).1, hstd, hd, .inr ?_⟩
      exact ⟨call.identity, rfl, hfil⟩
    · cases ht
  · have hstep : storeStep fingerprint public_key (keystore, accepted) call =
        .ok (keystore, accepted) := by
      simp only [storeStep, storeIdentity, hret, ok_bind, if_neg hne, if_neg hfiled]
      rfl
    exact ⟨_, hstep, h⟩

lemma checkIdentity_single {t : τ} (h : Small fingerprint keystore [t]) :
    checkIdentity fingerprint public_key keystore t = .ok .ok := by
  obtain ⟨H, es, hstd, hes⟩ := h.stored
  obtain ⟨e, rfl, rfl⟩ := map_eq_singleton_iff.mp hes
  obtain ⟨he, -⟩ | ⟨t, ht, hfil⟩ := h.state
  · cases he
  · cases ht
    obtain ⟨result, hres⟩ : ∃ result,
        skiplistMap (cmpByFingerprint fingerprint (fingerprint e.item))
          (mapByFingerprint fingerprint (fingerprint e.item)) keystore.allowed_identities [] =
            .ok result :=
      skiplistMap_ok hstd (stops_mapByFingerprint (fingerprint e.item))
    have hfnd : result = [(fingerprint e.item, e.item)] := by
      obtain ⟨p, t, hin, hneg, -⟩ | rfl :=
        skiplistMap_cases (stops_mapByFingerprint (fingerprint e.item)) hres
      · obtain rfl := mem_singleton.mp (h.holds p t hin)
        rw [cmpByFingerprint, toInt8_memcmp_eq_zero.mpr rfl] at hneg
        omega
      · rw [firstItem_eq hstd]
        exact (mapByFingerprint_nil _ _).trans (if_pos rfl)
    rw [hfnd] at hres
    simp [checkIdentity, hfil, h.denied, check_scent, check_create, hres, Except.mapError, ok_bind]

lemma filedIdentities_nodup (hd : (calls.map fun c => fingerprint c.identity).Nodup) :
    ((filedIdentities fingerprint calls).map fingerprint).Nodup := by
  rw [filedIdentities, map_map]
  exact hd.sublist (filter_sublist.map _)

lemma storeAll_small (hd : (calls.map fun c => fingerprint c.identity).Nodup)
    (hlen : (filedIdentities fingerprint calls).length ≤ 1) :
    ∃ s, storeAll fingerprint public_key calls = .ok s ∧ Small fingerprint s.1 s.2 ∧
      s.2 = filedIdentities fingerprint calls := by
  apply foldlM_inv (fun before (s : NpKeystore τ × List τ) =>
    Small fingerprint s.1 s.2 ∧ s.2 = filedIdentities fingerprint before)
  · exact ⟨small_init, rfl⟩
  · rintro before ⟨keystore, accepted⟩ call hb ⟨hsm, rfl⟩
    have hnew : fingerprint call.identity ∉ (filedIdentities fingerprint before).map fingerprint :=
      new_fingerprint (hd.sublist (hb.sublist.map _))
    have hroom : filed fingerprint call = true → filedIdentities fingerprint before = [] := by
      intro hfiled
      have hle : (filedIdentities fingerprint (before ++ [call])).length ≤ 1 :=
        le_trans ((hb.sublist.filter _).map _).length_le hlen
      rw [filedIdentities_concat, if_pos hfiled, length_append, length_singleton] at hle
      exact length_eq_zero_iff.mp (by omega)
    obtain ⟨s', hs', hsm'⟩ := storeStep_small hsm hnew hroom
    refine ⟨s', hs', hsm', ?_⟩
    rw [filedIdentities_concat]
    exact (storeStep_holds hsm.holds hnew hs').2

/-- No call aborts, and afterwards the keystore accepts every stored identity. -/
def AcceptsStored (fingerprint : τ → Dhkey) (public_key : τ → Bytes) (calls : List (StoreCall τ)) :
    Prop :=
  ∃ keystore accepted, storeAll fingerprint public_key calls = .ok (keystore, accepted) ∧
    ∀ t ∈ accepted, checkIdentity fingerprint public_key keystore t = .ok .ok

/-- Identities with different fingerprints are all accepted afterwards, without an abort, exactly if
there is at most one whose token could be stored. -/
theorem accepts_stored_iff (fingerprint : τ → Dhkey) (public_key : τ → Bytes)
    (calls : List (StoreCall τ))
    (hdistinct : (calls.map fun c => fingerprint c.identity).Nodup) :
    AcceptsStored fingerprint public_key calls ↔
      (filedIdentities fingerprint calls).length ≤ 1 := by
  constructor
  · rintro ⟨keystore, accepted, hrun, hchk⟩
    obtain ⟨-, rfl⟩ := storeAll_holds hdistinct hrun
    -- all of them have the fingerprint of the first identity in the list
    have hsame : ∀ a ∈ filedIdentities fingerprint calls,
        ∀ b ∈ filedIdentities fingerprint calls, fingerprint a = fingerprint b := by
      intro a ha b hb
      obtain ⟨t, ht, hta⟩ := checkIdentity_first (hchk a ha)
      obtain ⟨t', ht', htb⟩ := checkIdentity_first (hchk b hb)
      obtain rfl : t = t' := Option.some.inj (ht.symm.trans ht')
      exact hta.symm.trans htb
    have hnd := filedIdentities_nodup hdistinct
    match hfiled : filedIdentities fingerprint calls with
    | [] => exact Nat.zero_le 1
    | [a] => exact le_refl 1
    | a :: b :: rest =>
      rw [hfiled] at hsame hnd
      have heq := hsame a (by simp) b (by simp)
      simp [heq] at hnd
  · intro hlen
    obtain ⟨⟨keystore, accepted⟩, hrun, hsm, hacc⟩ := storeAll_small hdistinct hlen
    refine ⟨keystore, accepted, hrun, ?_⟩
    rw [← hacc] at hlen
    match accepted with
    | [] => exact fun t ht => absurd ht not_mem_nil
    | [a] =>
      intro t ht
      obtain rfl := mem_singleton.mp ht
      exact checkIdentity_single hsm
    | a :: b :: rest => simp at hlen

def savedCall (fingerprint : Dhkey) : StoreCall Dhkey := ⟨fingerprint, .saved, 0⟩

theorem accepts_stored_single : AcceptsStored id Dhkey.bytes [savedCall (Dhkey.ofWord 1)] :=
  (accepts_stored_iff id Dhkey.bytes [savedCall (Dhkey.ofWord 1)] (by decide)).mpr (by decide)

/-- Of two stored identities the keystore accepts only the first one of its list. -/
theorem second_identity_rejected :
    (storeAll id Dhkey.bytes [savedCall (Dhkey.ofWord 1), savedCall (Dhkey.ofWord 2)]).toOption.map
        (fun s => (s.2.length, s.2.map fun t => (checkIdentity id Dhkey.bytes s.1 t).toOption)) =
      some (2, [some .ok, some .unknownError]) := by
  decide +kernel

end Neuropil.Keystore.Identities
