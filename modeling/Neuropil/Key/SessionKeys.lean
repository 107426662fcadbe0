import Neuropil.Key.Conditions
import Neuropil.Lib.Fault

namespace Neuropil.Key.SessionKeys

open Lib.Fault
open Key.Conditions (flagCmp)

inductive Fault
  | mainInterface
  | nullInterface
deriving DecidableEq, Repr

def maskIp : UInt16 := 0x00F
def passive : UInt16 := 0x100

inductive InetAddress
  | ipv4 (addr : UInt32)
  | ipv6 (bytes : List UInt8)

/-- A key of type interface: its node, and the handshake token the node was made from. -/
structure Interface where
  ipString : List Char
  protocol : UInt16
  handshakePriority : UInt32
deriving DecidableEq

structure Remote where
  ipString : List Char
  protocol : UInt16

structure Session (Key : Type) where
  toRead : Option Key
  toWrite : Option Key

/-- The key exchange of libsodium: the keys to read and write with of a client and of a server. With
each other's public keys they agree. -/
structure KeyExchange (Secret Public Key : Type) where
  publicKey : Secret → Public
  clientSessionKeys : Public → Secret → Public → Option (Key × Key)
  serverSessionKeys : Public → Secret → Public → Option (Key × Key)
  agree : ∀ a b, ∃ rx tx,
    clientSessionKeys (publicKey a) a (publicKey b) = some (rx, tx) ∧
      serverSessionKeys (publicKey b) b (publicKey a) = some (tx, rx)

/-- One side of a handshake: its interfaces in the order of the key cache, the answers of its
operating system, and what it knows of its peer. The handshake goes to the node of one key, the
session belongs to that of the alias. -/
structure Side (Secret Key : Type) where
  interfaces : List Interface
  mainIp : List Char
  outgoingIp : Remote → List Char
  pton : List Char → Option InetAddress
  commonTuples : List Char → List Char → ℕ
  secretKey : Secret
  targetNode : Remote
  aliasNode : Remote
  session : Session Key

structure HandshakeToken (Public : Type) where
  publicKey : Public
  priority : Option UInt32

variable {Secret Public Key : Type} (s : Side Secret Key)

/-- _np_keycache_find_interface: strncmp looks at as many characters as the argument has. -/
def findInterface (ip : List Char) : Option Interface :=
  s.interfaces.find? fun i => ip.isPrefixOf i.ipString

def isLoopbackAddress (ip : List Char) : Bool :=
  ['1', '2', '7', '.', '0', '.', '0', '.', '1'].isPrefixOf ip || [':', ':', '1'].isPrefixOf ip

def isPrivateAddress (ip : List Char) : Bool :=
  match s.pton ip with
  | none => false
  | some (.ipv4 addr) =>
    decide (0x0A000000 ≤ addr ∧ addr ≤ 0x0AFFFFFF) ||
      decide (0xAC100000 ≤ addr ∧ addr ≤ 0xAC1FFFFF) ||
        decide (0xC0A80000 ≤ addr ∧ addr ≤ 0xC0A8FFFF)
  | some (.ipv6 (first :: second :: _)) =>
    first == 0xFC || first == 0xFD || (first == 0xFE && second == 0x80)
  | some (.ipv6 _) => false

def mainInterface : Except Fault Interface :=
  match findInterface s s.mainIp with
  | some i => .ok i
  | none => .error .mainInterface

def acceptsPassive (i : Interface) (remote : Remote) : Bool :=
  flagCmp i.protocol.toUInt32 (passive ||| (maskIp &&& remote.protocol)).toUInt32

def reachedFrom (remote : Remote) (i : Interface) (isMain : Bool) :
    Except Fault (Option Interface) :=
  let remoteIsPrivate := isPrivateAddress s remote.ipString
  let localIsPrivate := isPrivateAddress s i.ipString
  let localIsLocalhost := isLoopbackAddress i.ipString
  if localIsLocalhost && isLoopbackAddress remote.ipString &&
      flagCmp remote.protocol.toUInt32 (i.protocol &&& maskIp).toUInt32 then .ok (some i)
  else if remoteIsPrivate && localIsPrivate &&
      decide (0 < s.commonTuples remote.ipString i.ipString) then .ok (some i)
  else if remoteIsPrivate && localIsLocalhost || localIsPrivate && !remoteIsPrivate then
    if acceptsPassive i remote then .ok (some i)
    else if localIsPrivate && !isMain then
      -- the own interface is not in passive mode, the main interface may be
      (mainInterface s).map fun main => if acceptsPassive main remote then some main else none
    else .ok none
  else if !remoteIsPrivate && !localIsPrivate then .ok (some i)
  else .ok none

def nodeCanBeReached (remote : Remote) : Except Fault (Option Interface) :=
  match findInterface s (s.outgoingIp remote) with
  | some i => reachedFrom s remote i false
  | none => (mainInterface s).bind fun i => reachedFrom s remote i true

section

variable (kx : KeyExchange Secret Public Key)

/-- _np_out_handshake: the token that is sent, if the peer can be reached. All handshake tokens
share the public key of the one node token they are derived from. -/
def outHandshake (s : Side Secret Key) : Except Fault (Option (HandshakeToken Public)) :=
  (nodeCanBeReached s s.targetNode).map fun sent => sent.map fun i =>
    ⟨kx.publicKey s.secretKey, some i.handshakePriority⟩

def cryptoSession (mine : Secret) (session : Session Key)
    (remote : Public) (remoteIsClient : Bool) : Session Key :=
  match
    if remoteIsClient then kx.serverSessionKeys (kx.publicKey mine) mine remote
    else kx.clientSessionKeys (kx.publicKey mine) mine remote with
  | some (rx, tx) => ⟨some rx, some tx⟩
  | none => session

def sessionInterface : Option Interface :=
  match findInterface s (s.outgoingIp s.aliasNode) with
  | some i => some i
  | none => findInterface s s.mainIp

/-- The last argument of np_crypto_session in __np_create_session. A token without priority reads
as one with priority zero. -/
def remoteIsClient (received : HandshakeToken Public) : Except Fault Bool :=
  match sessionInterface s with
  | none => .error .nullInterface
  | some i => .ok (!decide (received.priority.getD 0 < i.handshakePriority))

def createSession (s : Side Secret Key)
    (received : HandshakeToken Public) : Except Fault (Session Key) :=
  (remoteIsClient s received).map fun r =>
    cryptoSession kx s.secretKey s.session received.publicKey r

end

/-- One side derives client keys and the other server keys, and each reads with the key that the
other writes with. -/
structure Paired (kx : KeyExchange Secret Public Key) (a b : Side Secret Key)
    (fromA fromB : HandshakeToken Public) : Prop where
  roles : ∃ r, remoteIsClient a fromB = .ok r ∧ remoteIsClient b fromA = .ok (!r)
  keys : ∃ sa sb rx tx, createSession kx a fromB = .ok sa ∧ createSession kx b fromA = .ok sb ∧
    sa = ⟨some rx, some tx⟩ ∧ sb = ⟨some tx, some rx⟩

section

variable {kx : KeyExchange Secret Public Key} {a b : Side Secret Key}
  {fromA fromB : HandshakeToken Public}

lemma cryptoSession_pair (kx : KeyExchange Secret Public Key) (mine yours : Secret)
    (old old' : Session Key) (r : Bool) : ∃ rx tx,
      cryptoSession kx mine old (kx.publicKey yours) r = ⟨some rx, some tx⟩ ∧
        cryptoSession kx yours old' (kx.publicKey mine) (!r) = ⟨some tx, some rx⟩ := by
  cases r with
  | false =>
    obtain ⟨rx, tx, hcli, hser⟩ := kx.agree mine yours
    exact ⟨rx, tx, by simp [cryptoSession, hcli], by simp [cryptoSession, hser]⟩
  | true =>
    obtain ⟨rx, tx, hcli, hser⟩ := kx.agree yours mine
    exact ⟨tx, rx, by simp [cryptoSession, hser], by simp [cryptoSession, hcli]⟩

lemma paired_iff_roles (hA : fromA.publicKey = kx.publicKey a.secretKey)
    (hB : fromB.publicKey = kx.publicKey b.secretKey) : Paired kx a b fromA fromB ↔
      ∃ r, remoteIsClient a fromB = .ok r ∧ remoteIsClient b fromA = .ok (!r) := by
  refine ⟨Paired.roles, fun hroles => ⟨hroles, ?_⟩⟩
  obtain ⟨r, ha, hb⟩ := hroles
  obtain ⟨rx, tx, hsa, hsb⟩ := cryptoSession_pair kx a.secretKey b.secretKey a.session b.session r
  refine ⟨_, _, rx, tx, ?_, ?_, rfl, rfl⟩
  · rw [createSession, ha, hB, ← hsa]
    rfl
  · rw [createSession, hb, hA, ← hsb]
    rfl

lemma remoteIsClient_eq_ok {s : Side Secret Key} {received : HandshakeToken Public} {r : Bool} :
    remoteIsClient s received = .ok r ↔ ∃ i, sessionInterface s = some i ∧
      r = !decide (received.priority.getD 0 < i.handshakePriority) := by
  rw [remoteIsClient]
  cases sessionInterface s with
  | none => simp
  | some i => simp [eq_comm]

lemma opposite_iff {sent own sent' own' : UInt32} :
    (!(!decide (sent < own))) = !decide (sent' < own') ↔ (sent < own ↔ own' ≤ sent') := by
  rw [← UInt32.not_lt]
  by_cases h : sent < own <;> by_cases h' : sent' < own' <;> simp [h, h']

lemma outHandshake_eq_ok {s : Side Secret Key} {token : HandshakeToken Public}
    (h : outHandshake kx s = .ok (some token)) :
    ∃ i, nodeCanBeReached s s.targetNode = .ok (some i) ∧
      token = ⟨kx.publicKey s.secretKey, some i.handshakePriority⟩ := by
  obtain ⟨sent, hsent, hmap⟩ := map_eq_ok h
  obtain ⟨i, rfl, htok⟩ := Option.map_eq_some_iff.mp hmap
  exact ⟨i, hsent, htok.symm⟩

end

/-- Of the two comparisons between the priority of the interface of a side's session and the one its
peer sent, exactly one holds. -/
def Ranked (a b : Side Secret Key) : Prop :=
  ∃ ownA ownB sentA sentB, sessionInterface a = some ownA ∧ sessionInterface b = some ownB ∧
    nodeCanBeReached a a.targetNode = .ok (some sentA) ∧
    nodeCanBeReached b b.targetNode = .ok (some sentB) ∧
    (sentB.handshakePriority < ownA.handshakePriority ↔
      ownB.handshakePriority ≤ sentA.handshakePriority)

/-- Two nodes that have sent a handshake to each other are paired exactly when their priorities
rank them. -/
theorem paired_iff_ranked (kx : KeyExchange Secret Public Key) {a b : Side Secret Key}
    {fromA fromB : HandshakeToken Public} (hA : outHandshake kx a = .ok (some fromA))
    (hB : outHandshake kx b = .ok (some fromB)) :
    Paired kx a b fromA fromB ↔ Ranked a b := by
  obtain ⟨sentA, hsentA, rfl⟩ := outHandshake_eq_ok hA
  obtain ⟨sentB, hsentB, rfl⟩ := outHandshake_eq_ok hB
  rw [paired_iff_roles rfl rfl]
  simp only [remoteIsClient_eq_ok, Option.getD_some]
  constructor
  · rintro ⟨r, ⟨ownA, hownA, hr⟩, ownB, hownB, hr'⟩
    refine ⟨ownA, ownB, sentA, sentB, hownA, hownB, hsentA, hsentB, ?_⟩
    rw [hr] at hr'
    exact opposite_iff.mp hr'
  · rintro ⟨ownA, ownB, sentA', sentB', hownA, hownB, hsentA', hsentB', hrank⟩
    cases hsentA.symm.trans hsentA'
    cases hsentB.symm.trans hsentB'
    exact ⟨_, ⟨ownA, hownA, rfl⟩, ownB, hownB, opposite_iff.mpr hrank⟩

def toyExchange : KeyExchange ℕ ℕ (ℕ × ℕ × Bool) where
  publicKey := id
  clientSessionKeys mine _ remote := some ((mine, remote, false), (mine, remote, true))
  serverSessionKeys mine _ remote := some ((remote, mine, true), (remote, mine, false))
  agree a b := ⟨(a, b, false), (a, b, true), rfl, rfl⟩

def publicSide (secretKey : ℕ) (priority : UInt32) : Side ℕ (ℕ × ℕ × Bool) where
  interfaces := [⟨['8', '.', '8'], 0x012, priority⟩]
  mainIp := ['8', '.', '8']
  outgoingIp _ := ['8', '.', '8']
  pton _ := none
  commonTuples _ _ := 0
  secretKey := secretKey
  targetNode := ⟨['9', '.', '9'], 0x012⟩
  aliasNode := ⟨['9', '.', '9'], 0x012⟩
  session := ⟨none, none⟩

theorem paired_iff_ranked_public :
    outHandshake toyExchange (publicSide 1 5) = .ok (some ⟨1, some 5⟩) ∧
      outHandshake toyExchange (publicSide 2 6) = .ok (some ⟨2, some 6⟩) ∧
      (Paired toyExchange (publicSide 1 5) (publicSide 2 6) ⟨1, some 5⟩ ⟨2, some 6⟩ ↔
        Ranked (publicSide 1 5) (publicSide 2 6)) :=
  ⟨rfl, rfl, paired_iff_ranked toyExchange rfl rfl⟩

/-- With the same priority on both sides, both derive server keys. -/
theorem tied_sides_are_not_paired :
    outHandshake toyExchange (publicSide 1 7) = .ok (some ⟨1, some 7⟩) ∧
      outHandshake toyExchange (publicSide 2 7) = .ok (some ⟨2, some 7⟩) ∧
      createSession toyExchange (publicSide 1 7) ⟨2, some 7⟩ =
        .ok ⟨some (2, 1, true), some (2, 1, false)⟩ ∧
      createSession toyExchange (publicSide 2 7) ⟨1, some 7⟩ =
        .ok ⟨some (1, 2, true), some (1, 2, false)⟩ ∧
      ¬ Paired toyExchange (publicSide 1 7) (publicSide 2 7) ⟨1, some 7⟩ ⟨2, some 7⟩ := by
  refine ⟨rfl, rfl, rfl, rfl, fun h => ?_⟩
  obtain ⟨r, ha, hb⟩ := h.roles
  have hser : remoteIsClient (publicSide 1 7) (⟨2, some 7⟩ : HandshakeToken ℕ) = .ok true := rfl
  have hs' : remoteIsClient (publicSide 2 7) (⟨1, some 7⟩ : HandshakeToken ℕ) = .ok true := rfl
  cases hser.symm.trans ha
  cases hs'.symm.trans hb

end Neuropil.Key.SessionKeys
