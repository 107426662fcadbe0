import Neuropil.Intent.SessionStore
import Neuropil.Lib.Run

namespace Neuropil.Intent.Sessions

open Bool Function Lib.Buffer Lib.Run Tree.RedBlack Intent.SessionStore

inductive Crud
  | crudCreate
  | crudUpdate
  | crudDelete
deriving DecidableEq

/-- What a session update reads of the own token, of the property's runtime data and of the peer's
token. -/
structure Peer where
  /-- `my_receiver_token == sender_token` -/
  own : Bool
  current_fp : Dhkey
  token_fp : Dhkey
  my_crypto : Bytes
  peer_crypto : Bytes

def privateSessionFp (peer : Peer) : Dhkey := Dhkey.add peer.token_fp peer.current_fp

def initialSessionFp (peer : Peer) : Dhkey := Dhkey.xor peer.token_fp peer.current_fp

section

-- crypto_kx_server_session_keys if the peer is the client and crypto_kx_client_session_keys
-- otherwise: the keys to read and to write with, or `none` if the key of the peer is refused.
variable (kx : (remote_is_client : Bool) → Bytes → Bytes → Option (Bytes × Bytes))

def cryptoSession (session_type : SessionType) (peer : Peer) (remote_is_client : Bool) :
    Option CryptoSession :=
  (kx remote_is_client peer.my_crypto peer.peer_crypto).map fun keys =>
    ⟨session_type, keys.1, keys.2, true, true⟩

/-- The private session an update has at hand: a derived one if none is stored, and otherwise the
new object as it is. -/
def privateSession (stored : Bool) (peer : Peer) (remote_is_client : Bool) : Option CryptoSession :=
  if stored then some newSession else cryptoSession kx .sessionPrivate peer remote_is_client

def initialSession (stored : Bool) (peer : Peer) (remote_is_client : Bool) : Option CryptoSession :=
  if stored then some newSession else cryptoSession kx .sessionInitial peer remote_is_client

/-- The common part of _np_intent_update_sender_session and _np_intent_update_receiver_session;
`remote_is_client` is that of the private session, and inverted for the initial one. -/
def updateSessions (remote_is_client : Bool) (s : Store) (peer : Peer) (crud : Crud) :
    Except Fault Store :=
  if crud = .crudDelete then do
    let s ← deleteSession s (privateSessionFp peer)
    deleteSession s (initialSessionFp peer)
  else
    let has_private := (findSession s (privateSessionFp peer)).isSome
    let has_initial := (findSession s (initialSessionFp peer)).isSome
    match privateSession kx has_private peer remote_is_client,
      initialSession kx has_initial peer (!remote_is_client) with
    | some private_crypto_session, some initial_crypto_session =>
      if has_private && has_initial then .ok s
      else do
        let s ← replaceSession s (privateSessionFp peer) private_crypto_session
        replaceSession s (initialSessionFp peer) initial_crypto_session
    | _, _ => .ok s

def updateSenderSession (s : Store) (peer : Peer) (crud : Crud) : Except Fault Store :=
  if peer.own then .ok s else updateSessions kx true s peer crud

def updateReceiverSession (s : Store) (peer : Peer) (crud : Crud) : Except Fault Store :=
  if peer.token_fp = peer.current_fp then .ok s else updateSessions kx false s peer crud

def importEntry (crud : Crud) (s : Store) (entry : Dhkey × Bytes) : Except Fault Store :=
  if crud = .crudDelete then deleteSession s entry.1
  else match findSession s entry.1 with
    | none => insertSession s entry.1 { newSession with
        session_key_to_read := entry.2.take 32
        session_key_to_read_is_set := true
        session_type := .sessionShared }
    | some old => .ok (writeSession s old { s.sessions old with
        session_key_to_read := entry.2.take 32
        session_type := .sessionShared })

def importSession (s : Store) (entries : List (Dhkey × Bytes)) (crud : Crud) : Except Fault Store :=
  entries.foldlM (importEntry crud) s

def updateSession (s : Store) (my_token_fp : Dhkey) (read write : Bytes) (crud : Crud) :
    Except Fault Store :=
  match crud with
  | .crudCreate => insertSession s my_token_fp ⟨.sessionShared, read, write, true, true⟩
  | .crudUpdate => .ok s
  | .crudDelete => if (findSession s my_token_fp).isSome then deleteSession s my_token_fp else .ok s

inductive Op
  | sender (peer : Peer) (crud : Crud)
  | receiver (peer : Peer) (crud : Crud)
  | imported (entries : List (Dhkey × Bytes)) (crud : Crud)
  | own (my_token_fp : Dhkey) (read write : Bytes) (crud : Crud)

def call (s : Store) : Op → Except Fault Store
  | .sender peer crud => updateSenderSession kx s peer crud
  | .receiver peer crud => updateReceiverSession kx s peer crud
  | .imported entries crud => importSession s entries crud
  | .own fp read write crud => updateSession s fp read write crud

def step (r : Except Fault Store) (op : Op) : Except Fault Store := r >>= fun s => call kx s op

def updateMap (remote_is_client : Bool) (m : SessionMap) (peer : Peer) (crud : Crud) : SessionMap :=
  if crud = .crudDelete then
    update (update m (privateSessionFp peer) none) (initialSessionFp peer) none
  else
    let has_private := (m (privateSessionFp peer)).isSome
    let has_initial := (m (initialSessionFp peer)).isSome
    match privateSession kx has_private peer remote_is_client,
      initialSession kx has_initial peer (!remote_is_client) with
    | some private_crypto_session, some initial_crypto_session =>
      if has_private && has_initial then m
      else update (update m (privateSessionFp peer) private_crypto_session)
        (initialSessionFp peer) initial_crypto_session
    | _, _ => m

def importMap (crud : Crud) (m : SessionMap) (entry : Dhkey × Bytes) : SessionMap :=
  if crud = .crudDelete then update m entry.1 none
  else update m entry.1 (some (match m entry.1 with
    | none => { newSession with
        session_key_to_read := entry.2.take 32
        session_key_to_read_is_set := true
        session_type := .sessionShared }
    | some old => { old with
        session_key_to_read := entry.2.take 32
        session_type := .sessionShared }))

def ownMap (m : SessionMap) (fp : Dhkey) (read write : Bytes) : Crud → SessionMap
  | .crudCreate => if (m fp).isSome then m
      else update m fp (some ⟨.sessionShared, read, write, true, true⟩)
  | .crudUpdate => m
  | .crudDelete => update m fp none

def mapStep (m : SessionMap) : Op → SessionMap
  | .sender peer crud => if peer.own then m else updateMap kx true m peer crud
  | .receiver peer crud =>
    if peer.token_fp = peer.current_fp then m else updateMap kx false m peer crud
  | .imported entries crud => entries.foldl (importMap crud) m
  | .own fp read write crud => ownMap m fp read write crud

/-- Of the private and the initial session of a peer both or none are stored, unless the missing
one's keys cannot be derived. -/
def BothOrNone (remote_is_client : Bool) (m : SessionMap) (peer : Peer) (crud : Crud) : Prop :=
  crud ≠ .crudDelete → (m (privateSessionFp peer)).isSome = (m (initialSessionFp peer)).isSome ∨
    privateSession kx (m (privateSessionFp peer)).isSome peer remote_is_client = none ∨
    initialSession kx (m (initialSessionFp peer)).isSome peer (!remote_is_client) = none

def PairedIn (m : SessionMap) : Op → Prop
  | .sender peer crud => peer.own = false → BothOrNone kx true m peer crud
  | .receiver peer crud => peer.token_fp ≠ peer.current_fp → BothOrNone kx false m peer crud
  | _ => True

def Paired : Except Fault Store → Op → Prop
  | .ok s, op => PairedIn kx (storedSession s) op
  | .error _, _ => True

end

/-- A session with its keys: to read, and to write unless it is a shared session. -/
def HasKeys (session : CryptoSession) : Prop :=
  session.session_key_to_read_is_set ∧
    (session.session_type ≠ .sessionShared → session.session_key_to_write_is_set)

def AllHaveKeys (m : SessionMap) : Prop := ∀ id session, m id = some session → HasKeys session

/-- What happens to stored sessions: an update leaves them as they are, and an import changes at
most the key they read with. -/
def Kept (m m' : SessionMap) : Op → Prop
  | .sender _ crud | .receiver _ crud | .own _ _ _ crud =>
    crud ≠ .crudDelete → ∀ id session, m id = some session → m' id = some session
  | .imported _ crud => crud ≠ .crudDelete → ∀ id session, m id = some session →
      ∃ session', m' id = some session' ∧
        session'.session_key_to_read_is_set = session.session_key_to_read_is_set ∧
        session'.session_key_to_write_is_set = session.session_key_to_write_is_set ∧
        session'.session_key_to_write = session.session_key_to_write

variable {kx : (remote_is_client : Bool) → Bytes → Bytes → Option (Bytes × Bytes)}
  {s : Store} {m : SessionMap} {pointer : Dhkey → Option ℕ} {peer : Peer} {crud : Crud}
  {remote_is_client : Bool} {op : Op}

section

section

variable (h : Holds s m pointer)
include h

lemma updateSessions_holds : ∃ s', updateSessions kx remote_is_client s peer crud = .ok s' ∧
      ∃ pointer', Holds s' (updateMap kx remote_is_client m peer crud) pointer' := by
  unfold updateSessions updateMap
  by_cases hcrud : crud = .crudDelete
  · rw [if_pos hcrud, if_pos hcrud]
    obtain ⟨s1, hs1, p1, h1⟩ := h.delete (privateSessionFp peer)
    obtain ⟨s2, hs2, p2, h2⟩ := h1.delete (initialSessionFp peer)
    exact ⟨s2, by rw [hs1]; exact hs2, p2, h2⟩
  · rw [if_neg hcrud, if_neg hcrud]
    simp only [h.find_isSome]
    split
    · split
      · exact ⟨s, rfl, pointer, h⟩
      · next private_crypto_session initial_crypto_session _ _ _ =>
        obtain ⟨s1, hs1, p1, h1⟩ := h.replace (privateSessionFp peer) private_crypto_session
        obtain ⟨s2, hs2, p2, h2⟩ := h1.replace (initialSessionFp peer) initial_crypto_session
        exact ⟨s2, by rw [hs1]; exact hs2, p2, h2⟩
    · exact ⟨s, rfl, pointer, h⟩

lemma importEntry_holds (crud : Crud) (entry : Dhkey × Bytes) :
    ∃ s', importEntry crud s entry = .ok s' ∧
      ∃ pointer', Holds s' (importMap crud m entry) pointer' := by
  unfold importEntry importMap
  by_cases hcrud : crud = .crudDelete
  · rw [if_pos hcrud, if_pos hcrud]
    exact h.delete entry.1
  · rw [if_neg hcrud, if_neg hcrud]
    have hm := h.session entry.1
    rw [h.findSession_eq]
    cases hp : pointer entry.1 with
    | none =>
      rw [hp] at hm
      rw [hm]
      exact h.insert hm _
    | some p =>
      rw [hp] at hm
      rw [hm]
      exact ⟨_, rfl, pointer, h.write hp _⟩

lemma importSession_holds (entries : List (Dhkey × Bytes)) :
    ∃ s', importSession s entries crud = .ok s' ∧
      ∃ pointer', Holds s' (entries.foldl (importMap crud) m) pointer' := by
  induction entries generalizing s m pointer with
  | nil => exact ⟨s, rfl, pointer, h⟩
  | cons entry entries ih =>
    obtain ⟨s1, hs1, p1, h1⟩ := importEntry_holds h crud entry
    obtain ⟨s2, hs2, p2, h2⟩ := ih h1
    refine ⟨s2, ?_, p2, h2⟩
    rw [importSession, List.foldlM_cons, hs1]
    exact hs2

lemma updateSession_holds (fp : Dhkey) (read write : Bytes) :
    ∃ s', updateSession s fp read write crud = .ok s' ∧
      ∃ pointer', Holds s' (ownMap m fp read write crud) pointer' := by
  cases crud with
  | crudUpdate => exact ⟨s, rfl, pointer, h⟩
  | crudCreate =>
    rw [updateSession, ownMap]
    cases hm : m fp with
    | none => exact h.insert hm _
    | some session =>
      obtain ⟨s', hs', h'⟩ := h.insert_present (by rw [hm]; simp)
        ⟨.sessionShared, read, write, true, true⟩
      exact ⟨s', hs', pointer, h'⟩
  | crudDelete =>
    rw [updateSession, ownMap, h.find_isSome]
    cases hm : m fp with
    | none =>
      refine ⟨s, rfl, pointer, ?_⟩
      rw [← hm, update_eq_self]
      exact h
    | some session => exact h.delete fp

end

variable (kx) in
lemma call_holds (h : Holds s m pointer) (op : Op) :
    ∃ s', call kx s op = .ok s' ∧ ∃ pointer', Holds s' (mapStep kx m op) pointer' := by
  cases op with
  | sender peer crud =>
    rw [call, updateSenderSession, mapStep]
    split
    · exact ⟨s, rfl, pointer, h⟩
    · exact updateSessions_holds h
  | receiver peer crud =>
    rw [call, updateReceiverSession, mapStep]
    split
    · exact ⟨s, rfl, pointer, h⟩
    · exact updateSessions_holds h
  | imported entries crud => exact importSession_holds h entries
  | own fp read write crud => exact updateSession_holds h fp read write

end

section

lemma not_hasKeys_newSession : ¬ HasKeys newSession := fun h => nomatch h.1

variable {session : CryptoSession}

lemma cryptoSession_hasKeys {session_type : SessionType}
    (h : cryptoSession kx session_type peer remote_is_client = some session) : HasKeys session := by
  obtain ⟨keys, -, rfl⟩ := Option.map_eq_some_iff.1 h
  exact ⟨rfl, fun _ => rfl⟩

variable {id : Dhkey}

lemma allHaveKeys_update (h : AllHaveKeys m) (hnew : HasKeys session) :
    AllHaveKeys (update m id (some session)) := by
  intro id' session' hses
  by_cases hid : id' = id
  · rw [hid, update_self] at hses
    cases hses
    exact hnew
  · rw [update_of_ne hid] at hses
    exact h id' session' hses

lemma allHaveKeys_delete (h : AllHaveKeys m) : AllHaveKeys (update m id none) := by
  intro id' session hses
  by_cases hid : id' = id
  · rw [hid, update_self] at hses
    cases hses
  · rw [update_of_ne hid] at hses
    exact h id' session hses

section

variable (hcrud : crud ≠ .crudDelete) (h : BothOrNone kx remote_is_client m peer crud)
include hcrud h

lemma updateMap_paired : updateMap kx remote_is_client m peer crud = m ∨
      m (privateSessionFp peer) = none ∧ m (initialSessionFp peer) = none ∧
        ∃ private_crypto_session initial_crypto_session,
          HasKeys private_crypto_session ∧ HasKeys initial_crypto_session ∧
          updateMap kx remote_is_client m peer crud =
            update (update m (privateSessionFp peer) private_crypto_session)
              (initialSessionFp peer) initial_crypto_session := by
  unfold updateMap
  rw [if_neg hcrud]
  dsimp only
  split
  · next private_crypto_session initial_crypto_session hprv hini =>
    split
    · exact .inl rfl
    · next hb =>
      obtain heq | hfail | hfail := h hcrud
      · have hnone : (m (privateSessionFp peer)).isSome = false := by
          rw [← heq, Bool.and_self] at hb
          exact not_eq_true _ ▸ hb
        have hnone' := heq.symm.trans hnone
        rw [hnone] at hprv
        rw [hnone'] at hini
        refine .inr ⟨by simpa using hnone, by simpa using hnone', _, _, ?_, ?_, rfl⟩
        · exact cryptoSession_hasKeys hprv
        · exact cryptoSession_hasKeys hini
      · rw [hfail] at hprv
        cases hprv
      · rw [hfail] at hini
        cases hini
  · exact .inl rfl

lemma updateMap_keeps : ∀ id session, m id = some session →
      updateMap kx remote_is_client m peer crud id = some session := by
  intro id session hses
  obtain heq | ⟨hprv, hini, _, _, -, -, heq⟩ := updateMap_paired hcrud h
  · rw [heq, hses]
  · have hne : ∀ other, m other = none → id ≠ other := by
      rintro other hnone rfl
      rw [hnone] at hses
      cases hses
    rw [heq, update_of_ne (hne _ hini), update_of_ne (hne _ hprv), hses]

end

lemma updateMap_hasKeys (hm : AllHaveKeys m) (h : BothOrNone kx remote_is_client m peer crud) :
    AllHaveKeys (updateMap kx remote_is_client m peer crud) := by
  by_cases hcrud : crud = .crudDelete
  · rw [updateMap, if_pos hcrud]
    exact allHaveKeys_delete (allHaveKeys_delete hm)
  · obtain heq | ⟨-, -, _, _, hprv, hini, heq⟩ := updateMap_paired hcrud h
    · rw [heq]
      exact hm
    · rw [heq]
      exact allHaveKeys_update (allHaveKeys_update hm hprv) hini

lemma updateMap_unpaired (h : ¬ BothOrNone kx remote_is_client m peer crud) :
    ¬ AllHaveKeys (updateMap kx remote_is_client m peer crud) := by
  rw [BothOrNone, Classical.not_imp] at h
  obtain ⟨hcrud, h⟩ := h
  push Not at h
  obtain ⟨hone, hprv, hini⟩ := h
  obtain ⟨private_crypto_session, hprv⟩ := Option.ne_none_iff_exists'.1 hprv
  obtain ⟨initial_crypto_session, hini⟩ := Option.ne_none_iff_exists'.1 hini
  have hne : privateSessionFp peer ≠ initialSessionFp peer := fun h => hone (by rw [h])
  have hb : ((m (privateSessionFp peer)).isSome && (m (initialSessionFp peer)).isSome) = false := by
    rw [and_eq_false_iff]
    by_contra hall
    push Not at hall
    exact hone ((eq_true_of_not_eq_false hall.1).trans (eq_true_of_not_eq_false hall.2).symm)
  have hmap : updateMap kx remote_is_client m peer crud =
      update (update m (privateSessionFp peer) private_crypto_session)
        (initialSessionFp peer) initial_crypto_session := by
    unfold updateMap
    rw [if_neg hcrud]
    simp only [hprv, hini, hb, false_eq_true, if_false]
  rw [hmap]
  intro hkeys
  cases hp : (m (privateSessionFp peer)).isSome with
  | true =>
    rw [hp] at hprv
    cases hprv
    refine not_hasKeys_newSession (hkeys (privateSessionFp peer) newSession ?_)
    rw [update_of_ne hne, update_self]
  | false =>
    have hi : (m (initialSessionFp peer)).isSome = true := by
      rw [hp] at hone
      exact (eq_true_of_not_eq_false fun h => hone h.symm)
    rw [hi] at hini
    cases hini
    refine not_hasKeys_newSession (hkeys (initialSessionFp peer) newSession ?_)
    rw [update_self]

lemma importMap_hasKeys (hm : AllHaveKeys m) (entry : Dhkey × Bytes) :
    AllHaveKeys (importMap crud m entry) := by
  unfold importMap
  split
  · exact allHaveKeys_delete hm
  · cases he : m entry.1 with
    | none => exact allHaveKeys_update hm ⟨rfl, fun h => absurd rfl h⟩
    | some old => exact allHaveKeys_update hm ⟨(hm _ _ he).1, fun h => absurd rfl h⟩

lemma importMap_keeps (entry : Dhkey × Bytes) :
    Kept m (importMap crud m entry) (.imported [entry] crud) := by
  intro hcrud id session hses
  rw [importMap, if_neg hcrud]
  by_cases hid : id = entry.1
  · subst hid
    rw [hses, update_self]
    exact ⟨_, rfl, rfl, rfl, rfl⟩
  · exact ⟨session, by rw [update_of_ne hid, hses], rfl, rfl, rfl⟩

lemma imported_keeps (entries : List (Dhkey × Bytes)) :
    Kept m (entries.foldl (importMap crud) m) (.imported entries crud) := by
  intro hcrud id session hses
  induction entries generalizing m session with
  | nil => exact ⟨session, hses, rfl, rfl, rfl⟩
  | cons entry entries ih =>
    obtain ⟨middle, hmid, hread, hw, hkey⟩ := importMap_keeps entry hcrud id session hses
    obtain ⟨session', hs', hr', hw', hkey'⟩ := ih middle hmid
    exact ⟨session', hs', hr'.trans hread, hw'.trans hw, hkey'.trans hkey⟩

lemma imported_hasKeys (hm : AllHaveKeys m) (entries : List (Dhkey × Bytes)) :
    AllHaveKeys (entries.foldl (importMap crud) m) := by
  induction entries generalizing m with
  | nil => exact hm
  | cons entry entries ih => exact ih (importMap_hasKeys hm entry)

lemma ownMap_hasKeys (hm : AllHaveKeys m) (fp : Dhkey) (read write : Bytes) :
    AllHaveKeys (ownMap m fp read write crud) := by
  cases crud with
  | crudCreate =>
    rw [ownMap]
    split
    · exact hm
    · exact allHaveKeys_update hm ⟨rfl, fun _ => rfl⟩
  | crudUpdate => exact hm
  | crudDelete => exact allHaveKeys_delete hm

lemma ownMap_keeps (hcrud : crud ≠ .crudDelete) (fp : Dhkey) (read write : Bytes)
    (hses : m id = some session) : ownMap m fp read write crud id = some session := by
  cases crud with
  | crudCreate =>
    rw [ownMap]
    split
    · exact hses
    · next hnone =>
      have hid : id ≠ fp := by
        rintro rfl
        rw [hses] at hnone
        exact hnone rfl
      rw [update_of_ne hid, hses]
  | crudUpdate => exact hses
  | crudDelete => exact absurd rfl hcrud

lemma mapStep_hasKeys (hm : AllHaveKeys m) (h : PairedIn kx m op) :
    AllHaveKeys (mapStep kx m op) := by
  cases op with
  | sender peer crud =>
    rw [mapStep]
    split
    · exact hm
    · next hown => exact updateMap_hasKeys hm (h (by simpa using hown))
  | receiver peer crud =>
    rw [mapStep]
    split
    · exact hm
    · next hfp => exact updateMap_hasKeys hm (h hfp)
  | imported entries crud => exact imported_hasKeys hm entries
  | own fp read write crud => exact ownMap_hasKeys hm fp read write

lemma mapStep_keeps (h : PairedIn kx m op) : Kept m (mapStep kx m op) op := by
  cases op with
  | sender peer crud =>
    intro hcrud id session hses
    rw [mapStep]
    split
    · exact hses
    · next hown => exact updateMap_keeps hcrud (h (by simpa using hown)) id session hses
  | receiver peer crud =>
    intro hcrud id session hses
    rw [mapStep]
    split
    · exact hses
    · next hfp => exact updateMap_keeps hcrud (h hfp) id session hses
  | imported entries crud => exact imported_keeps entries
  | own fp read write crud => exact fun hcrud id session => ownMap_keeps hcrud fp read write

lemma mapStep_unpaired (h : ¬ PairedIn kx m op) : ¬ AllHaveKeys (mapStep kx m op) := by
  cases op with
  | sender peer crud =>
    obtain ⟨hown, hu⟩ := Classical.not_imp.1 h
    rw [mapStep, if_neg (by rw [hown]; exact false_ne_true)]
    exact updateMap_unpaired hu
  | receiver peer crud =>
    obtain ⟨hfp, hu⟩ := Classical.not_imp.1 h
    rw [mapStep, if_neg hfp]
    exact updateMap_unpaired hu
  | imported entries crud | own fp read write crud => exact absurd trivial h

end

variable (kx) in
def mapAfter (ops : List Op) : SessionMap := run (mapStep kx) (fun _ => none) ops

lemma mapAfter_concat (ops : List Op) (op : Op) :
    mapAfter kx (ops ++ [op]) = mapStep kx (mapAfter kx ops) op :=
  run_concat ..

variable (kx) in
def Follows (ops : List Op) (r : Except Fault Store) : Prop :=
  ∃ s pointer, r = .ok s ∧ Holds s (mapAfter kx ops) pointer

lemma step_follows (ops : List Op) (r : Except Fault Store) (op : Op) (h : Follows kx ops r) :
    Follows kx (ops ++ [op]) (step kx r op) := by
  obtain ⟨s, pointer, rfl, hh⟩ := h
  obtain ⟨s', hs', pointer', hh'⟩ := call_holds kx hh op
  refine ⟨s', pointer', hs', ?_⟩
  rw [mapAfter_concat]
  exact hh'

variable (kx) in
lemma follows (ops : List Op) : Follows kx ops (run (step kx) (.ok emptyStore) ops) :=
  run_inv_always (Follows kx) ⟨emptyStore, _, rfl, holds_empty⟩ step_follows ops

lemma hasKeys_iff_admitted (ops : List Op) :
    (∀ before, before <+: ops → AllHaveKeys (mapAfter kx before)) ↔
      Admitted (step kx) (.ok emptyStore) (Paired kx) ops := by
  refine @good_iff_admitted _ _ (step kx) (.ok emptyStore) _
    (fun before r => Follows kx before r ∧ AllHaveKeys (mapAfter kx before))
    (fun before _ => AllHaveKeys (mapAfter kx before))
    ⟨follows kx [], fun _ _ h => nomatch h⟩ ?_ (fun _ _ h => h.2) ?_ ops
  · rintro before r op ⟨hfol, hkeys⟩ hok
    refine ⟨step_follows before r op hfol, ?_⟩
    obtain ⟨s, pointer, rfl, hh⟩ := hfol
    rw [Paired, hh.storedSession_eq] at hok
    rw [mapAfter_concat]
    exact mapStep_hasKeys hkeys hok
  · rintro before r op ⟨⟨s, pointer, rfl, hh⟩, -⟩ hbad
    rw [Paired, hh.storedSession_eq] at hbad
    rw [mapAfter_concat]
    exact mapStep_unpaired hbad

/-- In a history of session updates every session has its keys, and every stored one is kept,
exactly if no update finds only one of the two sessions of its peer. -/
theorem sessions_keep_keys_iff
    (kx : (remote_is_client : Bool) → Bytes → Bytes → Option (Bytes × Bytes)) (ops : List Op) :
    (∀ before op, before ++ [op] <+: ops → ∃ s s',
      run (step kx) (.ok emptyStore) before = .ok s ∧
      run (step kx) (.ok emptyStore) (before ++ [op]) = .ok s' ∧
      AllHaveKeys (storedSession s') ∧ Kept (storedSession s) (storedSession s') op) ↔
    Admitted (step kx) (.ok emptyStore) (Paired kx) ops := by
  rw [← hasKeys_iff_admitted]
  constructor
  · intro h before hpre
    obtain rfl | ⟨pre, op, rfl⟩ := before.eq_nil_or_concat
    · exact fun _ _ h => nomatch h
    · rw [List.concat_eq_append] at hpre ⊢
      obtain ⟨s, s', -, hs', hkeys, -⟩ := h pre op hpre
      obtain ⟨t, pointer, ht, hh⟩ := follows kx (pre ++ [op])
      cases hs'.symm.trans ht
      rwa [hh.storedSession_eq] at hkeys
  · intro h before op hpre
    obtain ⟨s, pointer, hs, hh⟩ := follows kx before
    obtain ⟨s', pointer', hs', hh'⟩ := follows kx (before ++ [op])
    refine ⟨s, s', hs, hs', ?_, ?_⟩
    · rw [hh'.storedSession_eq]
      exact h _ hpre
    · have hpai := (hasKeys_iff_admitted ops).1 h before op hpre
      rw [hs, Paired, hh.storedSession_eq] at hpai
      rw [hh'.storedSession_eq, hh.storedSession_eq, mapAfter_concat]
      exact mapStep_keeps hpai

def sampleKx (_ : Bool) (_ _ : Bytes) : Option (Bytes × Bytes) := some ([1], [2])

def wordKey (w : UInt32) : Dhkey := ⟨fun _ => w⟩

def samplePeer : Peer := ⟨false, wordKey 1, wordKey 3, [], []⟩

def collidingPeer : Peer := ⟨false, wordKey 1, wordKey 1, [], []⟩

def sampleImport : Op := .imported [(privateSessionFp samplePeer, List.replicate 32 9)] .crudCreate

def losesKeys (first second : Op) (id : Dhkey) : Bool :=
  (run (step sampleKx) (.ok emptyStore) [first]).toOption.any (fun s =>
    (storedSession s id).any (·.session_key_to_read_is_set)) &&
  (run (step sampleKx) (.ok emptyStore) [first, second]).toOption.any (fun s =>
    storedSession s id == some newSession)

/-- The session of a peer is made while one of its two ids is taken, by an imported key or by a
derived session. -/
theorem taken_id_loses_keys :
    losesKeys sampleImport (.sender samplePeer .crudCreate) (privateSessionFp samplePeer) ∧
      losesKeys (.sender samplePeer .crudCreate) (.sender collidingPeer .crudCreate)
        (initialSessionFp samplePeer) := by
  decide +kernel

end Neuropil.Intent.Sessions
