import Neuropil.Key.Conditions
import Neuropil.Lib.Run
import Neuropil.Tree.Values

namespace Neuropil.Intent.Ledger

open Function List Lib.Buffer Lib.Run Tree.Values
open Key.Conditions (ackNone flagCmp)

section

variable {α : Type} (cmp_func : α → α → ℤ) (value : α)

/-- `pll_replace`: the list, and the value that was replaced. -/
def pllReplace : List α → Option α × List α
  | [] => (none, [])
  | current :: rest =>
    if cmp_func current value = 0 then (some current, value :: rest)
    else ((pllReplace rest).1, current :: (pllReplace rest).2)

def pllInsert (dups_ok : Bool) : List α → List α
  | [] => [value]
  | current :: rest =>
    if cmp_func current value < 0 then value :: current :: rest
    else if cmp_func current value = 0 ∧ dups_ok = false then current :: rest
    else current :: pllInsert dups_ok rest

def pllRemove : List α → List α
  | [] => []
  | current :: rest =>
    if cmp_func current value = 0 then rest else current :: pllRemove rest

variable {cmp_func value} {dups_ok : Bool} {values : List α} {a : α}

lemma mem_pllReplace (h : a ∈ (pllReplace cmp_func value values).2) : a = value ∨ a ∈ values := by
  induction values with
  | nil => cases h
  | cons current rest ih =>
    rw [pllReplace] at h
    split at h
    · obtain rfl | h := mem_cons.1 h
      · exact .inl rfl
      · exact .inr (mem_cons_of_mem _ h)
    · obtain rfl | h := mem_cons.1 h
      · exact .inr mem_cons_self
      · exact (ih h).imp_right (mem_cons_of_mem _)

lemma mem_of_replaced (h : (pllReplace cmp_func value values).1 = some a) : a ∈ values := by
  induction values with
  | nil => cases h
  | cons current rest ih =>
    rw [pllReplace] at h
    split at h
    · cases h
      exact mem_cons_self
    · exact mem_cons_of_mem _ (ih h)

lemma mem_pllInsert (h : a ∈ pllInsert cmp_func value dups_ok values) :
    a = value ∨ a ∈ values := by
  induction values with
  | nil => exact .inl (mem_singleton.1 h)
  | cons current rest ih =>
    rw [pllInsert] at h
    split at h
    · exact mem_cons.1 h
    · split at h
      · exact .inr h
      · obtain rfl | h := mem_cons.1 h
        · exact .inr mem_cons_self
        · exact (ih h).imp_right (mem_cons_of_mem _)

lemma mem_pllRemove (h : a ∈ pllRemove cmp_func value values) : a ∈ values := by
  induction values with
  | nil => cases h
  | cons current rest ih =>
    rw [pllRemove] at h
    split at h
    · exact mem_cons_of_mem _ h
    · obtain rfl | h := mem_cons.1 h
      · exact mem_cons_self
      · exact mem_cons_of_mem _ (ih h)

end

/-- An intent token as received. Texts are without terminators, and an attribute that is not in the
token is `none`. -/
structure IntentToken where
  uuid : Bytes
  issuer : Bytes
  subject : Bytes
  realm : Bytes
  ed25519_public_key : Bytes
  mep_type : Option UInt32
  ack_mode : Option UInt32
  max_threshold : Option UInt32
deriving DecidableEq

def toInt8 (n : ℤ) : ℤ := n.bmod (2 ^ 8)

def strncmp (a b : Bytes) (n : ℕ) : ℤ := byteCmp (a.take n) (b.take n)

def intentCmp (first second : IntentToken) : ℤ :=
  let by_uuid := toInt8 (byteCmp first.uuid second.uuid)
  let by_issuer := toInt8 (strncmp first.issuer second.issuer 65)
  let by_subject := toInt8 (strncmp first.subject second.subject (min first.subject.length 255))
  let by_realm := toInt8 (strncmp first.realm second.realm (min first.realm.length 255))
  if by_uuid = 0 then by_uuid
  else if by_issuer ≠ 0 then by_issuer
  else if by_subject ≠ 0 then by_subject
  else if by_realm ≠ 0 then by_realm
  else 0

def intentCmpExact (kx : Bytes → Bytes) (first second : IntentToken) : ℤ :=
  let by_key := if kx first.ed25519_public_key = kx second.ed25519_public_key then 0 else -1
  let by_uuid := toInt8 (byteCmp first.uuid second.uuid)
  if by_key ≠ 0 then by_key
  else if by_uuid ≠ 0 then by_uuid
  else intentCmp first second

/-- The two kinds of arriving tokens, and with them the ledger of their subject. -/
inductive Role
  | sender
  | receiver
deriving DecidableEq

/-- The arrived tokens that the property keys of a subject hold, by their addresses: sender tokens
at the key for inbound messages, receiver tokens at the one for outbound messages. -/
structure Subject where
  mep_type : UInt32
  ack_mode : UInt32
  ledger : Role → List ℕ

def mask : Role → UInt32
  | .sender => 0x0F0
  | .receiver => 0x00F

def single : Role → UInt32
  | .sender => 0x010
  | .receiver => 0x001

structure Context where
  tokens : List IntentToken
  /-- The flag AAA_AUTHORIZED of every token. -/
  authorized : ℕ → Bool
  subjects : Dhkey → Subject
  /-- Events that wait for a property key. -/
  intents : List (Role × ℕ)
  /-- Events that wait for the identity key. -/
  authorizations : List (Role × ℕ)
  enable_realm_client : Bool
  /-- The subjects and public keys of the tokens an authorise callback accepted. -/
  accepted : List (Dhkey × Bytes)
  /-- The subjects and public keys of the tokens given a crypto session. -/
  sessions : List (Dhkey × Bytes)

def cmpAt (tokens : List IntentToken) (cmp : IntentToken → IntentToken → ℤ)
    (first second : ℕ) : ℤ :=
  if first = second then 0
  else match tokens[first]?, tokens[second]? with
    | some a, some b => cmp a b
    | _, _ => -1

/-- The answers of the authorise callbacks of the two properties of a subject, if they have one, and
of the global one. -/
structure Answers where
  inbound : Option Bool
  outbound : Option Bool
  general : Bool

inductive Event
  | available (role : Role) (token : IntentToken)
  | intent (i : ℕ) (valid complies : Bool)
  | authorize (i : ℕ) (admitted : Bool) (answers : Answers)
  | check (role : Role) (subject : Dhkey) (valid : ℕ → Bool)

section

variable (strId : Bytes → Dhkey) (kx : Bytes → Bytes)

def patternWith (role : Role) (subject : Subject) (token : IntentToken) : UInt32 :=
  subject.mep_type ||| (token.mep_type.getD 0 &&& mask role)

def isSingle (role : Role) (subject : Subject) (token : IntentToken) : Bool :=
  flagCmp (patternWith role subject token &&& mask role) (single role)

def cmpReplace (role : Role) (subject : Subject) (token : IntentToken) :
    IntentToken → IntentToken → ℤ :=
  if isSingle role subject token then intentCmp else intentCmpExact kx

variable (role : Role) (s : Context) (addr : ℕ) (token : IntentToken)

def replaced : Option ℕ :=
  let subject := s.subjects (strId token.subject)
  (pllReplace (cmpAt s.tokens (cmpReplace kx role subject token)) addr (subject.ledger role)).1

def ledgerWith : List ℕ :=
  let subject := s.subjects (strId token.subject)
  match pllReplace (cmpAt s.tokens (cmpReplace kx role subject token)) addr
      (subject.ledger role) with
  | (some _, ledger) => ledger
  | (none, _) => pllInsert (cmpAt s.tokens intentCmp) addr (!isSingle role subject token)
      (subject.ledger role)

def authorizedWith : ℕ → Bool :=
  match replaced strId kx role s addr token with
  | some old => update s.authorized addr (s.authorized old)
  | none => s.authorized

/-- What _np_intent_add_sender and _np_intent_add_receiver have in common. A token takes over the
state of one it replaces, and with the flag it is given a crypto session. -/
def addIntent (role : Role) (ack_mode : UInt32) (s : Context) (addr : ℕ) (token : IntentToken) :
    Context :=
  let id := strId token.subject
  let subject := { s.subjects id with
    mep_type := patternWith role (s.subjects id) token
    ack_mode := ack_mode }
  if 0 < token.max_threshold.getD 0 then
    let authorized := authorizedWith strId kx role s addr token
    { s with
      authorized := authorized
      subjects := update s.subjects id { subject with
        ledger := update subject.ledger role (ledgerWith strId kx role s addr token) }
      sessions := if authorized addr then s.sessions ++ [(id, token.ed25519_public_key)]
        else s.sessions }
  else { s with subjects := update s.subjects id subject }

def addSender : Context := addIntent strId kx .sender (token.ack_mode.getD ackNone) s addr token

def addReceiver : Context :=
  addIntent strId kx .receiver (s.subjects (strId token.subject)).ack_mode s addr token

def addToken : Role → Context → ℕ → IntentToken → Context
  | .sender => addSender strId kx
  | .receiver => addReceiver strId kx

/-- `__np_property_handle_intent`; `complies` is the result of the policy and the audience check. -/
def handleIntent (complies : Bool) : Context :=
  if complies then
    let s := addToken strId kx role s addr token
    if s.authorized addr then s
    else { s with authorizations := s.authorizations ++ [(role, addr)] }
  else s

def handleAuthz (answers : Answers) : Context :=
  if s.authorized addr then s
  else
    let by_subject := answers.outbound.getD (answers.inbound.getD false)
    let access_allowed := by_subject || answers.general
    let accepting := answers.inbound == some true || answers.outbound == some true ||
      (!by_subject && answers.general)
    let s := { s with
      accepted := if accepting then
          s.accepted ++ [(strId token.subject, token.ed25519_public_key)]
        else s.accepted }
    if access_allowed ∧ s.enable_realm_client = false then
      { s with
        authorized := update s.authorized addr true
        intents := s.intents ++ [(role, addr)] }
    else s

/-- `__np_intent_check` for one of the lists: the first token not valid any more. -/
def intentCheck (role : Role) (s : Context) (id : Dhkey) (valid : ℕ → Bool) : Context :=
  match ((s.subjects id).ledger role).find? fun addr => !valid addr with
  | none => s
  | some addr =>
    { s with
      subjects := update s.subjects id { s.subjects id with
        ledger := update (s.subjects id).ledger role
          (pllRemove (cmpAt s.tokens (intentCmpExact kx)) addr ((s.subjects id).ledger role)) } }

def step (s : Context) : Event → Context
  | .available role token =>
    { s with
      tokens := s.tokens ++ [token]
      authorized := update s.authorized s.tokens.length false
      intents := s.intents ++ [(role, s.tokens.length)] }
  | .intent i valid complies =>
    match s.intents[i]? with
    | none => s
    | some (role, addr) =>
      let s := { s with intents := s.intents.eraseIdx i }
      match s.tokens[addr]? with
      | some token => if valid then handleIntent strId kx role s addr token complies else s
      | none => s
  | .authorize i admitted answers =>
    match s.authorizations[i]? with
    | none => s
    | some (role, addr) =>
      let s := { s with authorizations := s.authorizations.eraseIdx i }
      match s.tokens[addr]? with
      | some token => if admitted then handleAuthz strId role s addr token answers else s
      | none => s
  | .check role id valid => intentCheck kx role s id valid

/-- A token about to take the place of an authorized one has its public key. -/
def SameKey (s : Context) : Event → Prop
  | .intent i _ _ => ∀ event ∈ s.intents[i]?, ∀ token ∈ s.tokens[event.2]?,
      ∀ old ∈ replaced strId kx event.1 s event.2 token, ∀ oldToken ∈ s.tokens[old]?,
        s.authorized old → oldToken.ed25519_public_key = token.ed25519_public_key
  | _ => True

instance decidableSameKey (s : Context) : (e : Event) → Decidable (SameKey strId kx s e)
  | .intent i _ _ => inferInstanceAs (Decidable (∀ event ∈ s.intents[i]?,
      ∀ token ∈ s.tokens[event.2]?, ∀ old ∈ replaced strId kx event.1 s event.2 token,
        ∀ oldToken ∈ s.tokens[old]?,
          s.authorized old → oldToken.ed25519_public_key = token.ed25519_public_key))
  | .available _ _ => isTrue trivial
  | .authorize _ _ _ => isTrue trivial
  | .check _ _ _ => isTrue trivial

end

def start (subjects : Dhkey → Subject) (enable_realm_client : Bool) : Context where
  tokens := []
  authorized _ := false
  subjects id := { subjects id with ledger := fun _ => [] }
  intents := []
  authorizations := []
  enable_realm_client := enable_realm_client
  accepted := []
  sessions := []

section

variable {strId : Bytes → Dhkey} {kx : Bytes → Bytes} {s : Context} {role : Role} {addr : ℕ}
  {token : IntentToken}

structure Backed (strId : Bytes → Dhkey) (s : Context) : Prop where
  authorized : ∀ addr token, s.tokens[addr]? = some token → s.authorized addr →
    (strId token.subject, token.ed25519_public_key) ∈ s.accepted
  ledger : ∀ id role, ∀ addr ∈ (s.subjects id).ledger role,
    ∃ token, s.tokens[addr]? = some token ∧ strId token.subject = id
  sessions : s.sessions ⊆ s.accepted

lemma mem_ledgerWith {a : ℕ} (h : a ∈ ledgerWith strId kx role s addr token) :
    a = addr ∨ a ∈ (s.subjects (strId token.subject)).ledger role := by
  rw [ledgerWith] at h
  split at h
  · next heq => exact mem_pllReplace (by rw [heq]; exact h)
  · exact mem_pllInsert h

lemma mem_update_ledger {ledgers : Role → List ℕ} {new : List ℕ} {role' : Role} {a : ℕ}
    (h : a ∈ update ledgers role new role') : (role' = role ∧ a ∈ new) ∨ a ∈ ledgers role' := by
  by_cases hrole : role' = role
  · subst hrole
    rw [update_self] at h
    exact .inl ⟨rfl, h⟩
  · rw [update_of_ne hrole] at h
    exact .inr h

lemma forall_update_subject {P : Dhkey → ℕ → Prop} {subjects : Dhkey → Subject} {id : Dhkey}
    {subject : Subject} (hold : ∀ id role, ∀ addr ∈ (subjects id).ledger role, P id addr)
    (hnew : ∀ role, ∀ addr ∈ subject.ledger role, P id addr) :
    ∀ id' role, ∀ addr ∈ (update subjects id subject id').ledger role, P id' addr := by
  intro id' role addr ha
  by_cases hid : id' = id
  · subst hid
    rw [update_self] at ha
    exact hnew role addr ha
  · rw [update_of_ne hid] at ha
    exact hold id' role addr ha

section

variable (h : Backed strId s) (htoken : s.tokens[addr]? = some token)
  (hsame : ∀ old ∈ replaced strId kx role s addr token, ∀ oldToken ∈ s.tokens[old]?,
    s.authorized old → oldToken.ed25519_public_key = token.ed25519_public_key)
include h htoken hsame

lemma authorizedWith_backed {a : ℕ} {tok : IntentToken} (htok : s.tokens[a]? = some tok)
    (hauth : authorizedWith strId kx role s addr token a) :
    (strId tok.subject, tok.ed25519_public_key) ∈ s.accepted := by
  cases hold : replaced strId kx role s addr token with
  | none =>
    simp only [authorizedWith, hold] at hauth
    exact h.authorized a tok htok hauth
  | some old =>
    simp only [authorizedWith, hold] at hauth
    by_cases ha : a = addr
    · subst ha
      cases htok.symm.trans htoken
      rw [update_self] at hauth
      obtain ⟨oldToken, holdToken, hsub⟩ := h.ledger _ _ old (mem_of_replaced hold)
      rw [← hsame old hold oldToken holdToken hauth, ← hsub]
      exact h.authorized old oldToken holdToken hauth
    · rw [update_of_ne ha] at hauth
      exact h.authorized a tok htok hauth

lemma addIntent_backed {ack_mode : UInt32} :
    Backed strId (addIntent strId kx role ack_mode s addr token) := by
  rw [addIntent]
  split
  · refine ⟨fun a tok => authorizedWith_backed h htoken hsame, ?_, ?_⟩
    · refine forall_update_subject h.ledger fun role' a ha => ?_
      obtain ⟨-, ha⟩ | ha := mem_update_ledger ha
      · obtain rfl | ha := mem_ledgerWith ha
        · exact ⟨token, htoken, rfl⟩
        · exact h.ledger _ _ a ha
      · exact h.ledger _ _ a ha
    · intro entry he
      dsimp only at he
      split at he
      · next hauth =>
        obtain he | he := mem_append.1 he
        · exact h.sessions he
        · cases mem_singleton.1 he
          exact authorizedWith_backed h htoken hsame htoken hauth
      · exact h.sessions he
  · exact ⟨h.authorized, forall_update_subject h.ledger (h.ledger _), h.sessions⟩

lemma handleIntent_backed {complies : Bool} :
    Backed strId (handleIntent strId kx role s addr token complies) := by
  have hadd : Backed strId (addToken strId kx role s addr token) := by
    cases role with
    | sender | receiver => exact addIntent_backed h htoken hsame
  unfold handleIntent
  split
  · dsimp only
    split
    · exact hadd
    · exact ⟨hadd.authorized, hadd.ledger, hadd.sessions⟩
  · exact h

end

lemma accepting_of_allowed (answers : Answers)
    (h : answers.outbound.getD (answers.inbound.getD false) || answers.general) :
    answers.inbound == some true || answers.outbound == some true ||
      (!answers.outbound.getD (answers.inbound.getD false) && answers.general) := by
  obtain ⟨inbound, outbound, general⟩ := answers
  cases inbound <;> cases outbound <;> simp_all <;> grind

section

variable (h : Backed strId s)
include h

lemma handleAuthz_backed {answers : Answers} (htoken : s.tokens[addr]? = some token) :
    Backed strId (handleAuthz strId role s addr token answers) := by
  unfold handleAuthz
  split
  · exact h
  · have hsub : ∀ accepting : Bool, s.accepted ⊆
        if accepting then s.accepted ++ [(strId token.subject, token.ed25519_public_key)]
        else s.accepted := by
      intro accepting
      cases accepting
      · exact List.Subset.refl _
      · exact subset_append_left _ _
    dsimp only
    split
    · next hallo =>
      refine ⟨fun a tok htok hauth => ?_, h.ledger, List.Subset.trans h.sessions (hsub _)⟩
      dsimp only at htok hauth ⊢
      by_cases ha : a = addr
      · subst ha
        cases htok.symm.trans htoken
        rw [if_pos (accepting_of_allowed answers hallo.1)]
        simp
      · rw [update_of_ne ha] at hauth
        exact hsub _ (h.authorized a tok htok hauth)
    · exact ⟨fun a tok htok hauth => hsub _ (h.authorized a tok htok hauth), h.ledger,
        List.Subset.trans h.sessions (hsub _)⟩

lemma intentCheck_backed {id : Dhkey} {valid : ℕ → Bool} :
    Backed strId (intentCheck kx role s id valid) := by
  unfold intentCheck
  split
  · exact h
  · refine ⟨h.authorized, forall_update_subject h.ledger fun role' a ha => ?_, h.sessions⟩
    obtain ⟨rfl, ha⟩ | ha := mem_update_ledger ha
    · exact h.ledger _ _ a (mem_pllRemove ha)
    · exact h.ledger _ _ a ha

lemma available_backed (role : Role) (token : IntentToken) :
    Backed strId (step strId kx s (.available role token)) := by
  have hget : ∀ a < s.tokens.length, (s.tokens ++ [token])[a]? = s.tokens[a]? :=
    fun a ha => getElem?_append_left ha
  refine ⟨fun a tok htok hauth => ?_, fun id role' a ha => ?_, h.sessions⟩
  · dsimp only [step] at htok hauth
    by_cases ha : a = s.tokens.length
    · subst ha
      rw [update_self] at hauth
      cases hauth
    · have hlt : a < s.tokens.length := by
        have hlen := (List.getElem?_eq_some_iff.1 htok).1
        rw [length_append, length_singleton] at hlen
        omega
      rw [update_of_ne ha] at hauth
      rw [hget a hlt] at htok
      exact h.authorized a tok htok hauth
  · obtain ⟨tok, htok, hid⟩ := h.ledger id role' a ha
    refine ⟨tok, ?_, hid⟩
    rw [← htok]
    exact hget a (List.getElem?_eq_some_iff.1 htok).1

lemma step_backed {e : Event} (hsame : SameKey strId kx s e) :
    Backed strId (step strId kx s e) := by
  cases e with
  | available role token => exact available_backed h role token
  | intent i valid complies =>
    cases he : s.intents[i]? with
    | none => simpa only [step, he] using h
    | some event =>
      obtain ⟨role, addr⟩ := event
      have hrest : Backed strId { s with intents := s.intents.eraseIdx i } :=
        ⟨h.authorized, h.ledger, h.sessions⟩
      cases htoken : s.tokens[addr]? with
      | none => simpa only [step, he, htoken] using hrest
      | some token =>
        simp only [step, he, htoken]
        split
        · exact handleIntent_backed hrest htoken (hsame _ he token htoken)
        · exact hrest
  | authorize i admitted answers =>
    cases he : s.authorizations[i]? with
    | none => simpa only [step, he] using h
    | some event =>
      obtain ⟨role, addr⟩ := event
      have hrest : Backed strId { s with authorizations := s.authorizations.eraseIdx i } :=
        ⟨h.authorized, h.ledger, h.sessions⟩
      cases htoken : s.tokens[addr]? with
      | none => simpa only [step, he, htoken] using hrest
      | some token =>
        simp only [step, he, htoken]
        split
        · exact handleAuthz_backed hrest htoken
        · exact hrest
  | check role id valid => exact intentCheck_backed h

end

lemma start_backed (subjects : Dhkey → Subject) (enable_realm_client : Bool) :
    Backed strId (start subjects enable_realm_client) where
  authorized _ _ _ hauth := nomatch hauth
  ledger _ _ _ ha := nomatch ha
  sessions := List.Subset.refl _

/-- As long as authorized tokens are replaced only by tokens with their public key, the authorized
tokens of a ledger and those with a session are of keys that a callback has accepted for the
subject. -/
theorem authorized_tokens_accepted (strId : Bytes → Dhkey) (kx : Bytes → Bytes)
    (subjects : Dhkey → Subject) (enable_realm_client : Bool) (events : List Event)
    (hsame : Admitted (step strId kx) (start subjects enable_realm_client) (SameKey strId kx)
      events) :
    let s := run (step strId kx) (start subjects enable_realm_client) events
    (∀ id role, ∀ addr ∈ (s.subjects id).ledger role, s.authorized addr →
      ∃ token, s.tokens[addr]? = some token ∧ (id, token.ed25519_public_key) ∈ s.accepted) ∧
    s.sessions ⊆ s.accepted := by
  have h : Backed strId (run (step strId kx) (start subjects enable_realm_client) events) :=
    run_inv (fun _ s => Backed strId s) (start_backed subjects enable_realm_client)
      (fun _ _ _ h hok => step_backed h hok) events hsame
  refine ⟨fun id role addr haddr ha => ?_, h.sessions⟩
  obtain ⟨token, htoken, rfl⟩ := h.ledger id role addr haddr
  exact ⟨token, htoken, h.authorized addr token htoken ha⟩

end

def senderToken (key : UInt8) (mep_type : Option UInt32) : IntentToken where
  uuid := replicate 16 7
  issuer := [key]
  subject := [115]
  realm := []
  ed25519_public_key := [key]
  mep_type := mep_type
  ack_mode := none
  max_threshold := some 10

def plainSubjects (_ : Dhkey) : Subject := ⟨0, ackNone, fun _ => []⟩

def twoTokens (first second : IntentToken) : List Event :=
  [.available .sender first, .intent 0 true true, .authorize 0 true ⟨none, none, true⟩,
    .intent 0 true true, .available .sender second, .intent 0 true true]

theorem refreshed_token_accepted :
    let s := run (step (fun _ => Dhkey.zero) id) (start plainSubjects false)
      (twoTokens (senderToken 1 none) (senderToken 1 (some 0x010)))
    (∀ id role, ∀ addr ∈ (s.subjects id).ledger role, s.authorized addr →
      ∃ token, s.tokens[addr]? = some token ∧ (id, token.ed25519_public_key) ∈ s.accepted) ∧
    s.sessions ⊆ s.accepted :=
  authorized_tokens_accepted (fun _ => Dhkey.zero) id plainSubjects false
    (twoTokens (senderToken 1 none) (senderToken 1 (some 0x010))) (by decide +kernel)

/-- A token with another key and the pattern SINGLE_SENDER takes the place of an authorized one,
which no callback has seen. -/
theorem foreign_token_authorized :
    let s := run (step (fun _ => Dhkey.zero) id) (start plainSubjects false)
      (twoTokens (senderToken 1 none) (senderToken 2 (some 0x010)))
    (s.subjects Dhkey.zero).ledger .sender = [1] ∧
      s.tokens[1]? = some (senderToken 2 (some 0x010)) ∧ s.authorized 1 ∧
      s.accepted = [(Dhkey.zero, [1])] ∧
      s.sessions = [(Dhkey.zero, [1]), (Dhkey.zero, [2])] := by
  decide +kernel

end Neuropil.Intent.Ledger
