import Neuropil.Key.Authenticated
import Neuropil.Key.JoinRuns

namespace Neuropil.Key.JoinDenied

open Key.Conditions Key.Peers Key.JoinRuns
open Dhkey (ofWord)

def goesOn (w : World) (node : Token) (ident : Option Token) : Bool :=
  isValidAs node tokenNode && (w.keys node.fingerprint).isSome && ident.all fun i =>
    isValidAs i tokenIdentity && isPartner i node && isPartner node i

def joinEvents (me : Dhkey) (w : World) (node : Token) (ident : Option Token) (via : Dhkey) :
    List Pending :=
  (inJoin me w node ident via).pending.drop w.pending.length

def answered (r : Reads) (w : World) (p : Pending) (t : Token) (answer : Bool) : List Pending :=
  (identityHandleAuthn { r with answer := some answer } w p t).pending.drop w.pending.length

/-- A denied token shuts down the key that its authentication would have been forwarded to. -/
def ShutsDownNode (r : Reads) (w : World) (p : Pending) (t : Token) : Prop :=
  ∃ shutdown forward toAlias, answered r w p t false = [shutdown] ∧
    answered r w p t true = [forward, toAlias] ∧
    flagCmp shutdown.event.type evtShutdown = true ∧ isNodeAuthn forward.event = true ∧
    shutdown.key = forward.key ∧ shutdown.event.targetDhkey = forward.event.targetDhkey

section

variable (r : Reads) (w : World) (p : Pending) (t : Token)

lemma answered_false : answered r w p t false =
    [⟨t.fingerprint, ⟨t.fingerprint, t.fingerprint, evtInternal ||| evtShutdown, .null⟩,
      none⟩] := by
  simp [answered, identityHandleAuthn, World.queue]

lemma answered_true : answered r w p t true =
    [⟨nodeDhkeyOf t, authnEvent (nodeDhkeyOf t) t, p.joining⟩,
      ⟨p.event.targetDhkey, authnEvent p.event.targetDhkey t, p.joining⟩] := by
  simp [answered, identityHandleAuthn, World.queue]

lemma nodeDhkeyOf_eq_iff : t.fingerprint = nodeDhkeyOf t ↔
    flagCmp t.type tokenNode = true ∨ t.fingerprint = t.partnerFp := by
  unfold nodeDhkeyOf
  split_ifs with h <;> simp [h]

lemma isNodeAuthn_authnEvent (d : Dhkey) : isNodeAuthn (authnEvent d t) = true := by
  have hflags : (flagCmp (evtInternal ||| evtToken ||| evtAuthn) evtInternal &&
      flagCmp (evtInternal ||| evtToken ||| evtAuthn) evtToken &&
      flagCmp (evtInternal ||| evtToken ||| evtAuthn) evtAuthn) = true := by decide
  rw [isNodeAuthn, Bool.and_eq_true]
  exact ⟨hflags, rfl⟩

lemma shutsDownNode_iff :
    ShutsDownNode r w p t ↔ flagCmp t.type tokenNode = true ∨ t.fingerprint = t.partnerFp := by
  rw [← nodeDhkeyOf_eq_iff]
  constructor
  · rintro ⟨shutdown, forward, toAlias, hfalse, htrue, -, -, hkey, -⟩
    rw [answered_false] at hfalse
    rw [answered_true] at htrue
    cases hfalse
    cases htrue
    exact hkey
  · intro h
    have hflag : flagCmp (evtInternal ||| evtShutdown) evtShutdown = true := by decide
    exact ⟨_, _, _, answered_false r w p t, answered_true r w p t, hflag,
      isNodeAuthn_authnEvent t _, h, h⟩

end

section

variable {me via : Dhkey} {w : World} {node : Token} {ident : Option Token}

lemma joinEvents_node (h : goesOn w node none = true) : joinEvents me w node none via =
    [node.fingerprint, via, me].map fun d => ⟨d, authnRequest d via node, some node⟩ := by
  simp only [goesOn, Option.all_none, Bool.and_true, Bool.and_eq_true] at h
  have hkey : (w.keys node.fingerprint).isNone = false := by
    rw [Option.isNone_eq_false_iff]
    exact h.2
  simp [joinEvents, inJoin, h.1, hkey, World.queue]

lemma joinEvents_ident {i : Token} (h : goesOn w node (some i) = true) :
    joinEvents me w node (some i) via =
      [⟨node.fingerprint, handshakeEvent node.fingerprint node.fingerprint node, some node⟩,
        ⟨via, handshakeEvent via node.fingerprint node, some node⟩,
        ⟨me, authnRequest me via i, some node⟩] := by
  simp only [goesOn, Option.all_some, Bool.and_eq_true] at h
  obtain ⟨⟨hv, hsome⟩, ⟨hident, hpar⟩, hb⟩ := h
  have hkey : (w.keys node.fingerprint).isNone = false := by
    rw [Option.isNone_eq_false_iff]
    exact hsome
  simp [joinEvents, inJoin, hv, hident, hpar, hb, hkey, World.queue]

lemma not_isAuthnRequest_handshakeEvent (d target : Dhkey) (t : Token) :
    isAuthnRequest (handshakeEvent d target t) = false := by
  rw [isAuthnRequest, handshakeEvent_not_authn, Bool.false_and]

lemma isAuthnRequest_authnRequest {d target : Dhkey} {t : Token} (hv : t.valid = true)
    (htype : flagCmp t.type tokenIdentity = true ∨ flagCmp t.type tokenNode = true) :
    isAuthnRequest (authnRequest d target t) = true := by
  have hflags : (flagCmp (evtAuthn ||| evtExternal ||| evtToken) evtAuthn &&
      (flagCmp (evtAuthn ||| evtExternal ||| evtToken) evtToken &&
        flagCmp (evtAuthn ||| evtExternal ||| evtToken) evtExternal)) = true := by decide
  simp only [Bool.and_eq_true] at hflags
  have htok : tokenIn (authnRequest d target t) = some t := by
    simp [tokenIn, authnRequest, hflags.2, UserData.token?]
  rw [isAuthnRequest, htok]
  simp only [authnRequest, Option.any_some, hflags.1, hv, Bool.true_and, Bool.and_true,
    Bool.or_eq_true]
  exact htype

/-- For every join that goes on to the authentication, the denied token shuts down its node exactly
if it is a node token, or an identity token with the node's fingerprint. -/
theorem denied_join_shuts_down_iff (me : Dhkey) (w : World) (node : Token) (ident : Option Token)
    (via : Dhkey) (hjoin : goesOn w node ident = true) (r : Reads) (later : World) :
    (∀ p ∈ joinEvents me w node ident via, p.key = me → isAuthnRequest p.event = true →
        ∀ t ∈ p.event.userData.token?, ShutsDownNode r later p t) ↔
      ∀ i ∈ ident, flagCmp i.type tokenNode = true ∨ i.fingerprint = node.fingerprint := by
  simp only [shutsDownNode_iff]
  cases ident with
  | none =>
    have hnode : flagCmp node.type tokenNode = true := by
      simp only [goesOn, isValidAs, Bool.and_eq_true] at hjoin
      exact hjoin.1.1.2
    rw [joinEvents_node hjoin]
    refine ⟨fun _ i hi => by simp at hi, fun _ p hp _ _ t ht => ?_⟩
    obtain ⟨d, -, rfl⟩ := List.mem_map.1 hp
    cases ht
    exact .inl hnode
  | some i =>
    rw [joinEvents_ident hjoin]
    simp only [goesOn, isValidAs, isPartner, Option.all_some, Bool.and_eq_true,
      decide_eq_true_eq] at hjoin
    obtain ⟨-, ⟨⟨hv, htype⟩, -, hpar⟩, -⟩ := hjoin
    constructor
    · intro h j hj
      cases hj
      have hreq : isAuthnRequest (authnRequest me via i) = true :=
        isAuthnRequest_authnRequest hv (.inl htype)
      obtain hflag | heq := h ⟨me, authnRequest me via i, some node⟩ (by simp) rfl hreq i rfl
      · exact .inl hflag
      · exact .inr (heq.trans hpar)
    · intro h p hp _ hreq t ht
      simp only [List.mem_cons, List.not_mem_nil, or_false] at hp
      obtain rfl | rfl | rfl := hp
      · rw [not_isAuthnRequest_handshakeEvent] at hreq
        cases hreq
      · rw [not_isAuthnRequest_handshakeEvent] at hreq
        cases hreq
      · cases ht
        exact (h i rfl).imp_right fun heq => heq.trans hpar.symm

end

def nodeToken : Token := ⟨tokenNode, ofWord 8, [], ofWord 8, ofWord 7, false, true⟩

def identityToken : Token := ⟨tokenIdentity, ofWord 7, [], ofWord 7, ofWord 8, false, true⟩

def afterHandshake : World :=
  ⟨fun d => if d = ofWord 8 then some ⟨.inSetupNode, keyTypeNode, none, none, some 0⟩
    else none, fun _ => none, 1, []⟩

def noReads : Reads where
  view := Authenticated.plainView
  address := none
  sameAddress := false
  wildcard := Dhkey.zero
  answer := none

theorem denied_identity_leaves_node :
    let p : Pending := ⟨ofWord 9, authnRequest (ofWord 9) (ofWord 6)
      identityToken, some nodeToken⟩
    p ∈ joinEvents (ofWord 9) afterHandshake nodeToken (some identityToken) (ofWord 6) ∧
      (answered noReads afterHandshake p identityToken false).map Pending.key = [ofWord 7] ∧
      (answered noReads afterHandshake p identityToken true).map Pending.key =
        [ofWord 8, ofWord 6] ∧
      ¬ ShutsDownNode noReads afterHandshake p identityToken := by
  intro p
  have hdenied : (answered noReads afterHandshake p identityToken false).map Pending.key =
      [ofWord 7] := by decide
  have haccepted : (answered noReads afterHandshake p identityToken true).map Pending.key =
      [ofWord 8, ofWord 6] := by decide
  refine ⟨by decide, hdenied, haccepted, ?_⟩
  rintro ⟨shutdown, forward, toAlias, hfalse, htrue, -, -, hkey, -⟩
  rw [hfalse] at hdenied
  rw [htrue] at haccepted
  have hsame := (List.cons.inj hdenied).1.symm.trans (hkey.trans (List.cons.inj haccepted).1)
  exact absurd hsame (by decide)

theorem denied_node_shuts_down :
    goesOn afterHandshake nodeToken none = true ∧
      ∀ p ∈ joinEvents (ofWord 9) afterHandshake nodeToken none (ofWord 6),
        p.key = ofWord 9 → isAuthnRequest p.event = true →
        ∀ t ∈ p.event.userData.token?, ShutsDownNode noReads afterHandshake p t := by
  have hj : goesOn afterHandshake nodeToken none = true := by decide
  refine ⟨hj, ?_⟩
  exact (denied_join_shuts_down_iff (ofWord 9) afterHandshake nodeToken none
    (ofWord 6) hj noReads afterHandshake).2 (by simp)

end Neuropil.Key.JoinDenied
