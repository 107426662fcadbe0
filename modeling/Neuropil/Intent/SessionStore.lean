import Neuropil.Tree.Keyed

namespace Neuropil.Intent.SessionStore

open Function Option Lib.Buffer Tree.RedBlack Tree.Values Tree.Operations Tree.Keyed

inductive SessionType
  | sessionNone
  | sessionInitial
  | sessionPrivate
  | sessionShared
  | sessionProtected
deriving DecidableEq

structure CryptoSession where
  session_type : SessionType
  session_key_to_read : Bytes
  session_key_to_write : Bytes
  session_key_to_read_is_set : Bool
  session_key_to_write_is_set : Bool
deriving DecidableEq

def newSession : CryptoSession :=
  ⟨.sessionNone, List.replicate 32 0, List.replicate 32 0, false, false⟩

/-- The tree of crypto sessions of a subject, and the objects its elements point to. -/
structure Store where
  crypto_tree : NpTree
  sessions : ℕ → CryptoSession
  fresh : ℕ

def emptyStore : Store := ⟨treeCreate, fun _ => newSession, 0⟩

def findSession (s : Store) (id : Dhkey) : Option ℕ :=
  match treeFind s.crypto_tree (.dhkey id) with
  | some (.void p) => some p
  | _ => none

def storedSession (s : Store) (id : Dhkey) : Option CryptoSession :=
  (findSession s id).map s.sessions

def allocate (s : Store) (session : CryptoSession) : Store :=
  { s with sessions := update s.sessions s.fresh session, fresh := s.fresh + 1 }

def replaceSession (s : Store) (id : Dhkey) (session : CryptoSession) : Except Fault Store := do
  let crypto_tree ← treeReplace s.crypto_tree (.dhkey id) (.void s.fresh)
  return { allocate s session with crypto_tree := crypto_tree }

def insertSession (s : Store) (id : Dhkey) (session : CryptoSession) : Except Fault Store := do
  let crypto_tree ← treeInsert s.crypto_tree (.dhkey id) (.void s.fresh)
  return { allocate s session with crypto_tree := crypto_tree }

def deleteSession (s : Store) (id : Dhkey) : Except Fault Store := do
  let crypto_tree ← treeDel s.crypto_tree (.dhkey id)
  return { s with crypto_tree := crypto_tree }

def writeSession (s : Store) (p : ℕ) (session : CryptoSession) : Store :=
  { s with sessions := update s.sessions p session }

abbrev SessionMap := Dhkey → Option CryptoSession

structure Holds (s : Store) (m : SessionMap) (pointer : Dhkey → Option ℕ) : Prop where
  tree : HoldsKeyed dhkeyKind s.crypto_tree fun id => (pointer id).map .void
  lt_fresh : ∀ id p, pointer id = some p → p < s.fresh
  unshared : ∀ id id' p, pointer id = some p → pointer id' = some p → id = id'
  session : ∀ id, m id = (pointer id).map s.sessions

variable {s : Store} {m : SessionMap} {pointer : Dhkey → Option ℕ} {id : Dhkey}
  {session : CryptoSession}

lemma holds_empty : Holds emptyStore (fun _ => none) (fun _ => none) where
  tree := holdsKeyed_create
  lt_fresh _ _ h := nomatch h
  unshared _ _ _ h := nomatch h
  session _ := rfl

lemma Holds.findSession_eq (h : Holds s m pointer) (id : Dhkey) :
    findSession s id = pointer id := by
  have hfind : treeFind s.crypto_tree (.dhkey id) = (pointer id).map .void := h.tree.find id
  rw [findSession, hfind]
  cases pointer id <;> rfl

lemma Holds.storedSession_eq (h : Holds s m pointer) : storedSession s = m := by
  funext id
  rw [storedSession, h.findSession_eq, h.session]

lemma Holds.find_isSome (h : Holds s m pointer) (id : Dhkey) :
    (findSession s id).isSome = (m id).isSome := by
  rw [h.findSession_eq, h.session, isSome_map]

lemma update_void (pointer : Dhkey → Option ℕ) (id : Dhkey) (p : Option ℕ) :
    update (fun id => (pointer id).map Treeval.void) id (p.map .void) =
      fun id' => (update pointer id p id').map .void := by
  funext id'
  by_cases hid : id' = id
  · rw [hid, update_self, update_self]
  · rw [update_of_ne hid, update_of_ne hid]

variable (h : Holds s m pointer)
include h

lemma Holds.link (session : CryptoSession) {tree : NpTree}
    (htree : HoldsKeyed dhkeyKind tree fun id' =>
      (update pointer id (some s.fresh) id').map .void) :
    Holds { allocate s session with crypto_tree := tree } (update m id (some session))
      (update pointer id (some s.fresh)) := by
  refine ⟨htree, fun id' p hp => ?_, fun id1 id2 p h1 h2 => ?_, fun id' => ?_⟩
  · by_cases hid : id' = id
    · subst hid
      rw [update_self] at hp
      cases hp
      exact Nat.lt_succ_self _
    · rw [update_of_ne hid] at hp
      exact Nat.lt_succ_of_lt (h.lt_fresh id' p hp)
  · by_cases hid1 : id1 = id <;> by_cases hid2 : id2 = id
    · rw [hid1, hid2]
    · subst hid1
      rw [update_self] at h1
      rw [update_of_ne hid2] at h2
      cases h1
      exact absurd (h.lt_fresh id2 _ h2) (lt_irrefl _)
    · subst hid2
      rw [update_self] at h2
      rw [update_of_ne hid1] at h1
      cases h2
      exact absurd (h.lt_fresh id1 _ h1) (lt_irrefl _)
    · rw [update_of_ne hid1] at h1
      rw [update_of_ne hid2] at h2
      exact h.unshared id1 id2 p h1 h2
  · by_cases hid : id' = id
    · subst hid
      simp [allocate]
    · rw [update_of_ne hid, update_of_ne hid, h.session]
      cases hp : pointer id' with
      | none => rfl
      | some p =>
        have hne : p ≠ s.fresh := (h.lt_fresh id' p hp).ne
        simp [allocate, update_of_ne hne]

lemma Holds.replace (id : Dhkey) (session : CryptoSession) :
    ∃ s', replaceSession s id session = .ok s' ∧
      ∃ pointer', Holds s' (update m id (some session)) pointer' := by
  obtain ⟨tree, htree, hh⟩ := h.tree.replace id
    (rfl : copyOfVal (.void s.fresh) = .ok (.void s.fresh))
  have ht' : treeReplace s.crypto_tree (.dhkey id) (.void s.fresh) = .ok tree := htree
  have hmap := update_void pointer id (some s.fresh)
  rw [map_some] at hmap
  rw [hmap] at hh
  exact ⟨_, by rw [replaceSession, ht']; rfl, _, h.link session hh⟩

lemma Holds.insert (hid : m id = none) (session : CryptoSession) :
    ∃ s', insertSession s id session = .ok s' ∧
      ∃ pointer', Holds s' (update m id (some session)) pointer' := by
  have hpoi : (pointer id).map Treeval.void = none := by
    rw [map_eq_none_iff]
    rwa [h.session, map_eq_none_iff] at hid
  obtain ⟨tree, htree, hh⟩ := h.tree.insert hpoi
    (rfl : copyOfVal (.void s.fresh) = .ok (.void s.fresh))
  have ht' : treeInsert s.crypto_tree (.dhkey id) (.void s.fresh) = .ok tree := htree
  have hmap := update_void pointer id (some s.fresh)
  rw [map_some] at hmap
  rw [hmap] at hh
  exact ⟨_, by rw [insertSession, ht']; rfl, _, h.link session hh⟩

lemma Holds.insert_present (hid : m id ≠ none) (session : CryptoSession) :
    ∃ s', insertSession s id session = .ok s' ∧ Holds s' m pointer := by
  have hpoi : (pointer id).map Treeval.void ≠ none := by
    rw [h.session] at hid
    simpa using hid
  have htree : treeInsert s.crypto_tree (.dhkey id) (.void s.fresh) = .ok s.crypto_tree :=
    h.tree.insert_present hpoi _
  refine ⟨allocate s session, by rw [insertSession, htree]; rfl, h.tree, fun id' p hp => ?_,
    h.unshared, fun id' => ?_⟩
  · exact Nat.lt_succ_of_lt (h.lt_fresh id' p hp)
  · rw [h.session]
    cases hp : pointer id' with
    | none => rfl
    | some p =>
      have hne : p ≠ s.fresh := (h.lt_fresh id' p hp).ne
      simp [allocate, update_of_ne hne]

lemma Holds.delete (id : Dhkey) :
    ∃ s', deleteSession s id = .ok s' ∧ ∃ pointer', Holds s' (update m id none) pointer' := by
  obtain ⟨tree, htree, hh⟩ := h.tree.del id
  have ht' : treeDel s.crypto_tree (.dhkey id) = .ok tree := htree
  have hmap := update_void pointer id none
  rw [map_none] at hmap
  rw [hmap] at hh
  have hkeep : ∀ id' p, update pointer id none id' = some p → pointer id' = some p := by
    intro id' p hp
    by_cases hid : id' = id
    · rw [hid, update_self] at hp
      cases hp
    · rwa [update_of_ne hid] at hp
  refine ⟨_, by rw [deleteSession, ht']; rfl, _, hh, fun id' p hp => ?_,
    fun id1 id2 p h1 h2 => ?_, fun id' => ?_⟩
  · exact h.lt_fresh id' p (hkeep id' p hp)
  · exact h.unshared id1 id2 p (hkeep id1 p h1) (hkeep id2 p h2)
  · by_cases hid : id' = id
    · rw [hid, update_self, update_self]
      rfl
    · rw [update_of_ne hid, update_of_ne hid, h.session]

lemma Holds.write {p : ℕ} (hp : pointer id = some p) (session : CryptoSession) :
    Holds (writeSession s p session) (update m id (some session)) pointer := by
  refine ⟨h.tree, h.lt_fresh, h.unshared, fun id' => ?_⟩
  by_cases hid : id' = id
  · subst hid
    simp [writeSession, hp]
  · rw [update_of_ne hid, h.session]
    cases hp' : pointer id' with
    | none => rfl
    | some p' =>
      have hne : p' ≠ p := by
        rintro rfl
        exact hid (h.unshared id' id p' hp' hp)
      simp [writeSession, update_of_ne hne]

end Neuropil.Intent.SessionStore
