import Neuropil.Datablock.Block

namespace Neuropil.Aaa.Validity

open List Lib.Buffer Datablock.Objects Datablock.Block

inductive Scope
  | scopePrivate
  | scopePrivateAvailable
  | scopePublic
  | scopeUndefined
deriving DecidableEq

/-- np_aaatoken_t, as far as the check of its validity goes. Texts are arrays of characters and may
end before their array; dates are the bits of a double. -/
@[ext]
structure Token where
  uuid : Bytes
  realm : Bytes
  issuer : Bytes
  subject : Bytes
  audience : Bytes
  issuedAt : UInt64
  notBefore : UInt64
  expiresAt : UInt64
  attributes : Bytes
  attributesSignature : Bytes
  publicKey : Bytes
  signature : Bytes
  state : UInt8
  type : UInt16
  scope : Scope
  isSignatureVerified : Bool
  isSignatureAttributesVerified : Bool
  length_uuid : uuid.length = 16
  length_publicKey : publicKey.length = 32

instance : DecidableEq Token := fun _ _ => decidable_of_iff _ Token.ext_iff.symm

def text (n : ℕ) (chars : Bytes) : Bytes := (chars.take n).takeWhile (· ≠ 0)

/-- The bytes that `_np_aaatoken_get_hash` feeds to the hash, one field after the other. -/
def Token.hashedFields (t : Token) : Bytes :=
  t.uuid ++ (text 255 t.realm ++ (text 65 t.issuer ++ (text 255 t.subject ++
    (text 255 t.audience ++ (t.publicKey ++ (leBytes 8 t.expiresAt.toNat ++
      (leBytes 8 t.issuedAt.toNat ++ leBytes 8 t.notBefore.toNat)))))))

def isNaN (x : UInt64) : Bool := decide (x.toNat % 2 ^ 63 > 2047 * 2 ^ 52)

def doubleOrder (x : UInt64) : Int :=
  if x.toNat < 2 ^ 63 then x.toNat else -((x.toNat % 2 ^ 63 : ℕ) : Int)

def doubleGt (x y : UInt64) : Bool := !isNaN x && !isNaN y && decide (doubleOrder x > doubleOrder y)

def maxThreshold : Name :=
  ⟨[109, 97, 120, 95, 116, 104, 114, 101, 115, 104, 111, 108, 100], by simp, by simp⟩

def msgThreshold : Name :=
  ⟨[109, 115, 103, 95, 116, 104, 114, 101, 115, 104, 111, 108, 100], by simp, by simp⟩

def setValid (t : Token) : Token := { t with state := t.state ||| 1 }

def setInvalid (t : Token) : Token := { t with state := t.state &&& ~~~ 1 }

def messageIntent : UInt16 := 0x10

def hasType (t : Token) (expected : UInt16) : Bool := decide (t.type &&& expected = expected)

section

/-- What libsodium computes, what follows the attributes in memory, and the lower bits of a pointer
read as a number. -/
structure Surroundings where
  hash : Bytes → Bytes
  verify : Bytes → Bytes → Bytes → Bool
  beyond : Bytes
  pointerBits : Bytes → UInt32

variable (env : Surroundings)

def checkSignature (t : Token) : Option Token :=
  if t.isSignatureVerified then some t
  else if env.verify t.signature (env.hash t.hashedFields) t.publicKey then
    some { t with isSignatureVerified := true }
  else none

def checkAttributes (t : Token) : Option Token :=
  if t.isSignatureAttributesVerified then some t
  else
    match readHeader t.attributes with
    | .ok h =>
      if env.verify t.attributesSignature
          (env.hash ((t.attributes ++ env.beyond).take h.usedLength ++ t.signature))
          t.publicKey then
        some { t with isSignatureAttributesVerified := true }
      else none
    | .error _ => none

def unsignedInteger : Value → UInt32
  | .uint n => n
  | .int i => i.toUInt32
  | .bin bs | .str bs => env.pointerBits bs

def checkThresholds (fuel : ℕ) (t : Token) : Except Stop Bool :=
  match getData fuel t.attributes maxThreshold with
  | .ok max =>
    match getData fuel t.attributes msgThreshold with
    | .ok msg => .ok (decide (unsignedInteger env msg ≤ unsignedInteger env max))
    | .error (.ret _) => .ok false
    | .error e => .error e
  | .error (.ret _) => .ok false
  | .error e => .error e

def checkIntent (fuel : ℕ) (t : Token) : Except Stop (Bool × Token) := do
  let usable ← if hasType t messageIntent then checkThresholds env fuel t else .ok true
  .ok (usable, if usable then setValid t else setInvalid t)

def isValid (fuel : ℕ) (now : UInt64) (expected : UInt16) (t : Token) :
    Except Stop (Bool × Token) :=
  if hasType t expected = false then .ok (false, setInvalid t)
  else if doubleGt now t.expiresAt then .ok (false, setInvalid t)
  else if t.scope = .scopePrivate ∨ t.scope = .scopePrivateAvailable then checkIntent env fuel t
  else
    match checkSignature env t with
    | none => .ok (false, setInvalid t)
    | some t =>
      match checkAttributes env t with
      | none => .ok (false, setInvalid t)
      | some t => checkIntent env fuel t

end

/-- A token that came in, decoded and not checked before, and is accepted. -/
structure Accepted (env : Surroundings) (t : Token) : Prop where
  received : t.scope = .scopePublic ∧ t.isSignatureVerified = false
  accepted : ∃ fuel now expected t', isValid env fuel now expected t = .ok (true, t')

structure SameFields (t u : Token) : Prop where
  uuid : t.uuid = u.uuid
  realm : text 255 t.realm = text 255 u.realm
  issuer : text 65 t.issuer = text 65 u.issuer
  subject : text 255 t.subject = text 255 u.subject
  audience : text 255 t.audience = text 255 u.audience
  expiresAt : t.expiresAt = u.expiresAt
  issuedAt : t.issuedAt = u.issuedAt
  notBefore : t.notBefore = u.notBefore

structure SameLengths (t u : Token) : Prop where
  realm : (text 255 t.realm).length = (text 255 u.realm).length
  issuer : (text 65 t.issuer).length = (text 65 u.issuer).length
  subject : (text 255 t.subject).length = (text 255 u.subject).length

variable {env : Surroundings} {t u : Token}

lemma verified_of_accepted (h : Accepted env t) :
    env.verify t.signature (env.hash t.hashedFields) t.publicKey = true := by
  obtain ⟨⟨hscope, hver⟩, fuel, now, expected, t', hv⟩ := h
  by_contra hfail
  have hnone : checkSignature env t = none := by
    rw [checkSignature, hver, if_neg Bool.false_ne_true, if_neg hfail]
  rw [isValid] at hv
  split at hv
  · cases hv
  · split at hv
    · cases hv
    · rw [if_neg (by rw [hscope]; decide), hnone] at hv
      cases hv

lemma leBytes_inj {x y : UInt64} (h : leBytes 8 x.toNat = leBytes 8 y.toNat) : x = y := by
  have hval := congrArg leVal h
  have hx := x.toNat_lt
  have hy := y.toNat_lt
  rw [leVal_leBytes, leVal_leBytes] at hval
  exact UInt64.toNat.inj (by omega)

lemma sameFields_iff (h : t.hashedFields = u.hashedFields) :
    SameFields t u ↔ SameLengths t u := by
  constructor
  · intro hsame
    exact ⟨by rw [hsame.realm], by rw [hsame.issuer], by rw [hsame.subject]⟩
  · intro hlen
    have hkey : t.publicKey.length = u.publicKey.length :=
      t.length_publicKey.trans u.length_publicKey.symm
    have htot := congrArg length h
    simp only [Token.hashedFields, length_append, length_leBytes, t.length_uuid,
      u.length_uuid, hlen.realm, hlen.issuer, hlen.subject, hkey] at htot
    obtain ⟨hu, h⟩ := append_inj h (t.length_uuid.trans u.length_uuid.symm)
    obtain ⟨hrealm, h⟩ := append_inj h hlen.realm
    obtain ⟨hiss, h⟩ := append_inj h hlen.issuer
    obtain ⟨hsub, h⟩ := append_inj h hlen.subject
    obtain ⟨ha, h⟩ := append_inj h (by omega)
    obtain ⟨-, h⟩ := append_inj h hkey
    obtain ⟨he, h⟩ := append_inj h (by simp)
    obtain ⟨hissu, hnot⟩ := append_inj h (by simp)
    exact ⟨hu, hrealm, hiss, hsub, ha, leBytes_inj he, leBytes_inj hissu, leBytes_inj hnot⟩

/-- Two accepted tokens with one public key and one signature agree on the signed fields exactly if
their texts have the same lengths. -/
theorem signed_tokens_agree_iff (hhash : Function.Injective env.hash)
    (hverify : ∀ signature key hash hash', env.verify signature hash key = true →
      env.verify signature hash' key = true → hash = hash')
    (ht : Accepted env t) (hu : Accepted env u) (hkey : t.publicKey = u.publicKey)
    (hsignature : t.signature = u.signature) : SameFields t u ↔ SameLengths t u := by
  have hvt := verified_of_accepted ht
  have hvu := verified_of_accepted hu
  rw [hkey, hsignature] at hvt
  exact sameFields_iff (hhash (hverify _ _ _ _ hvt hvu))

def nodeToken (realm issuer : Bytes) : Token where
  uuid := replicate 16 5
  realm := realm
  issuer := issuer
  subject := [110]
  audience := []
  issuedAt := 0
  notBefore := 0
  expiresAt := 1
  attributes := encodeHeader ⟨10240, 21, 0⟩
  attributesSignature := replicate 64 2
  publicKey := replicate 32 7
  signature := replicate 64 1
  state := 0
  type := 2
  scope := .scopePublic
  isSignatureVerified := false
  isSignatureAttributesVerified := false
  length_uuid := rfl
  length_publicKey := rfl

/-- Bytes are their own hash, and two signatures were ever made: of a token of the realm "ab" and
the issuer "c", and of its attributes. -/
def oneSigner : Surroundings where
  hash := id
  verify := fun signature hash _ =>
    decide (signature = replicate 64 1 ∧ hash = (nodeToken [97, 98] [99]).hashedFields ∨
      signature = replicate 64 2 ∧ hash = encodeHeader ⟨10240, 21, 0⟩ ++ replicate 64 1)
  beyond := []
  pointerBits := fun _ => 0

lemma oneSigner_verify (signature key hash hash' : Bytes)
    (h : oneSigner.verify signature hash key = true)
    (h' : oneSigner.verify signature hash' key = true) : hash = hash' := by
  simp only [oneSigner, decide_eq_true_eq] at h h'
  obtain ⟨hsig, rfl⟩ | ⟨hsig, rfl⟩ := h <;> obtain ⟨hsig', rfl⟩ | ⟨hsig', rfl⟩ := h'
  · rfl
  · exact absurd (hsig.symm.trans hsig') (by decide)
  · exact absurd (hsig.symm.trans hsig') (by decide)
  · rfl

lemma accepted_nodeToken {realm issuer : Bytes}
    (h : isValid oneSigner 0 0 2 (nodeToken realm issuer) =
      .ok (true, { nodeToken realm issuer with
        state := 1, isSignatureVerified := true, isSignatureAttributesVerified := true })) :
    Accepted oneSigner (nodeToken realm issuer) :=
  ⟨⟨rfl, rfl⟩, 0, 0, 2, _, h⟩

/-- The realm "ab" and the issuer "c" are hashed to what the realm "a" and the issuer "bc" are. -/
theorem signature_of_other_fields :
    Function.Injective oneSigner.hash ∧
      (∀ signature key hash hash', oneSigner.verify signature hash key = true →
        oneSigner.verify signature hash' key = true → hash = hash') ∧
      Accepted oneSigner (nodeToken [97, 98] [99]) ∧
      Accepted oneSigner (nodeToken [97] [98, 99]) ∧
      (nodeToken [97, 98] [99]).publicKey = (nodeToken [97] [98, 99]).publicKey ∧
      (nodeToken [97, 98] [99]).signature = (nodeToken [97] [98, 99]).signature ∧
      ¬ SameFields (nodeToken [97, 98] [99]) (nodeToken [97] [98, 99]) := by
  refine ⟨fun _ _ h => h, oneSigner_verify, accepted_nodeToken (by decide +kernel),
    accepted_nodeToken (by decide +kernel), rfl, rfl, fun hsame => ?_⟩
  exact absurd hsame.realm (by decide)

theorem sample_tokens_agree :
    SameFields (nodeToken [97, 98] [99]) (nodeToken [97] [98, 99]) ↔
      SameLengths (nodeToken [97, 98] [99]) (nodeToken [97] [98, 99]) :=
  signed_tokens_agree_iff (fun _ _ h => h) oneSigner_verify
    (accepted_nodeToken (by decide +kernel)) (accepted_nodeToken (by decide +kernel)) rfl rfl

end Neuropil.Aaa.Validity
