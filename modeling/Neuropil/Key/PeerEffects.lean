import Neuropil.Key.Peers

namespace Neuropil.Key.PeerEffects

open Function Option Lib.Fault Lib.Statechart Key.Conditions Key.Peers

/-- How a key can differ after handling an event, unless it was set up as an alias. -/
structure Moves (p : Pending) (k k' : PeerKey) : Prop where
  unused : k'.state = .unused → k.state = .unused ∧ k'.handshakeToken = k.handshakeToken
  setup : k'.state = .inSetupAlias → k.state = .inSetupAlias
  promoted : k'.state = .inUseAlias →
    k.state = .inUseAlias ∨ k.state = .inSetupAlias ∧ isNodeAuthn p.event = true
  handshake : k.state ≠ .unused → k.handshakeToken.isSome → k'.handshakeToken = k.handshakeToken

def aliased (k : PeerKey) (t : Token) (n : ℕ) : PeerKey :=
  { k with
    state := .inSetupAlias
    type := k.type ||| keyTypeAlias
    handshakeToken := k.handshakeToken.orElse fun _ => some t
    nodeinfo := some n }

def derive (w : World) (n : ℕ) (k : PeerKey) : World :=
  { w with sessions := update w.sessions n (k.handshakeToken.map Token.publicKey) }

lemma derive_sessions (w : World) (n : ℕ) (k : PeerKey) :
    (derive w n k).sessions = update w.sessions n (k.handshakeToken.map Token.publicKey) := rfl

inductive Handled (p : Pending) (r : Reads) (w : World) : World → Prop
  | same : Handled p r w w
  | removed : Handled p r w { w with keys := update w.keys p.key none }
  | moved (k k' : PeerKey) (hk : w.keys p.key = some k) (hm : Moves p k k')
      (hn : k'.nodeinfo = k.nodeinfo) : Handled p r w (w.put p.key k')
  | fresh (k k' : PeerKey) (hk : w.keys p.key = some k) (hm : Moves p k k')
      (hn : k.nodeinfo = none) : Handled p r w (w.putNew p.key k')
  | taken (k k' : PeerKey) (t : Token) (n : ℕ) (hk : w.keys p.key = some k) (hm : Moves p k k')
      (hs : k'.state ≠ .unused) (ht : p.event.userData.token? = some t)
      (hflag : flagCmp t.type tokenHandshake = true)
      (hcond : isNodeHandshakeToken p.event = true ∨ isNodeToken p.event = true)
      (hpassive : r.address = some true)
      (hn : (w.keys p.event.targetDhkey).bind PeerKey.nodeinfo = some n)
      (hn' : k'.nodeinfo = some n) : Handled p r w (w.put p.key k')
  | session (k : PeerKey) (t : Token) (n : ℕ) (hk : w.keys p.key = some k)
      (hs : k.state = .unused) (ht : p.event.userData.token? = some t)
      (hcond : isAliasHandshakeToken p.event = true)
      (hn : (w.keys t.issuer).bind PeerKey.nodeinfo = some n ∨
        (w.keys t.issuer = none ∧ k.nodeinfo = some n)) :
      Handled p r w (derive (w.put p.key (aliased k t n)) n (aliased k t n))
  | freshSession (k : PeerKey) (t : Token) (hk : w.keys p.key = some k) (hs : k.state = .unused)
      (ht : p.event.userData.token? = some t) (hcond : isAliasHandshakeToken p.event = true)
      (hn : k.nodeinfo = none) :
      Handled p r w (derive (w.putNew p.key (aliased k t w.next)) w.next (aliased k t w.next))
  | queued (t : Token) (events : List Pending) (ht : p.event.userData.token? = some t)
      (hcond : isAuthnRequest p.event = true)
      (hev : ∀ q ∈ events, q.event.userData = .null ∨
        q.joining = p.joining ∧ q.event = authnEvent q.key t ∧
          (q.key = nodeDhkeyOf t ∨ q.key = p.event.targetDhkey)) : Handled p r w (w.queue events)

def quiet : Action → Bool
  | .wildcardSet | .nodeSetNode | .aliasSetNode | .createSession | .createClientNetwork
  | .keyDestroy
  | .nodeIdentityUpgrade | .nodeSet | .aliasSet | .nodeUpdateToken | .nodeUpgrade
  | .identityHandleAuthn => false
  | _ => true

lemma transition_cases {s : KeyState} {t : KeyTransition} (ht : t ∈ transitions s) :
    (t.target = s ∧ quiet t.action) ∨
    (s = .unused ∧ t.action = .aliasSetNode ∧ t.target = .unused) ∨
    (s = .unused ∧ (t.action = .wildcardSet ∨ t.action = .nodeSetNode) ∧
      (t.target = .inSetupNode ∨ t.target = .inSetupWildcard)) ∨
    (s = .unused ∧ t.action = .nodeSet ∧ t.target = .inSetupNode ∧
      (t.condition = .isNodeHandshakeToken ∨ t.condition = .isNodeToken)) ∨
    (s = .unused ∧ t.action = .aliasSet ∧ t.target = .inSetupAlias ∧
      t.condition = .isAliasHandshakeToken) ∨
    (t.action = .nodeUpdateToken ∧ t.target = s ∧ (s = .inSetupAlias ∨ s = .inSetupNode)) ∨
    (s = .inUseIdentity ∧ t.action = .identityHandleAuthn ∧ t.target = .inUseIdentity ∧
      t.condition = .isAuthnRequest) ∨
    ((t.action = .nodeUpgrade ∨ t.action = .nodeIdentityUpgrade) ∧
      (s = .inSetupAlias ∧ t.target = .inUseAlias ∧ t.condition = .isNodeAuthn ∨
        s = .inSetupNode ∧ t.target = .inUseNode)) ∨
    (quiet t.action ∧ t.target ≠ s ∧ (t.target = .inUseIdentity ∨ t.target = .inUseMsgproperty ∨
      t.target = .onHoldMsgproperty ∨ t.target = .inDestroy)) := by
  revert t
  cases s <;> decide

variable {k' : PeerKey}

section

variable {p : Pending} {r : Reads} {w w' : World} {k : PeerKey} {d : Dhkey}

lemma act_of_key (hk : w.keys p.key = some k) (a : Action) : act p r w a = actOn p r w k a := by
  rw [act, hk]

lemma act_quiet {a : Action} (h : quiet a = true) (w : World) : act p r w a = .ok w := by
  unfold act
  split
  · cases a <;> first | rfl | cases h
  · rfl

lemma act_onExit (s : KeyState) (w : World) : act p r w (onExit s) = .ok w :=
  act_quiet (by cases s <;> rfl) w

@[simp]
lemma put_keys_self (w : World) (d : Dhkey) (k : PeerKey) : (w.put d k).keys d = some k :=
  update_self _ _ _

lemma put_keys_of_ne (w : World) (k : PeerKey) {x : Dhkey} (hx : x ≠ d) :
    (w.put d k).keys x = w.keys x :=
  update_of_ne hx _ _

lemma keys_put_cases {x : Dhkey} (h : (w.put d k).keys x = some k') :
    x = d ∧ k' = k ∨ x ≠ d ∧ w.keys x = some k' := by
  by_cases hx : x = d
  · subst hx
    rw [put_keys_self, some.injEq] at h
    exact .inl ⟨rfl, h.symm⟩
  · rw [put_keys_of_ne w k hx] at h
    exact .inr ⟨hx, h⟩

lemma stateOf_of_key (hk : w.keys d = some k) {s : KeyState} (hs : k.state = s) :
    stateOf d w = some s := by
  rw [stateOf, hk, map_some, hs]

@[simp]
lemma putNew_keys_self (w : World) (d : Dhkey) (k : PeerKey) :
    (w.putNew d k).keys d = some { k with nodeinfo := some w.next } :=
  update_self _ _ _

lemma setState_of_key (hk : w.keys d = some k) (s : KeyState) :
    setState d w s = w.put d { k with state := s } := by
  rw [setState, hk]
  rfl

section

variable (w : World) (d : Dhkey) (k : PeerKey) (s : KeyState)

lemma setState_put : setState d (w.put d k) s = w.put d { k with state := s } := by
  rw [setState_of_key (put_keys_self w d k)]
  simp [World.put]

lemma setState_putNew : setState d (w.putNew d k) s = w.putNew d { k with state := s } := by
  rw [setState_of_key (putNew_keys_self w d k)]
  simp [World.put, World.putNew]

end

lemma eq_of_createClientNetwork (h : act p r w .createClientNetwork = .ok w') : w' = w := by
  unfold act at h
  split at h
  · simp only [actOn] at h
    split at h
    · cases h
      rfl
    · cases h
  · cases h
    rfl

inductive Acted (p : Pending) (r : Reads) (w : World) (k : PeerKey) : World → Prop
  | put (k' : PeerKey) (hs : k'.state = k.state) (hn : k'.nodeinfo = k.nodeinfo) :
      Acted p r w k (w.put p.key k')
  | fresh (k' : PeerKey) (hs : k'.state = k.state) (hn : k.nodeinfo = none) :
      Acted p r w k (w.putNew p.key k')
  | taken (k' : PeerKey) (t : Token) (n : ℕ) (hs : k'.state = k.state)
      (ht : p.event.userData.token? = some t) (hflag : flagCmp t.type tokenHandshake = true)
      (hcond : isNodeHandshakeToken p.event = true ∨ isNodeToken p.event = true)
      (hpassive : r.address = some true)
      (hn : (w.keys p.event.targetDhkey).bind PeerKey.nodeinfo = some n)
      (hn' : k'.nodeinfo = some n) : Acted p r w k (w.put p.key k')

lemma acted_setNode (k1 : PeerKey) (hs : k1.state = k.state) (hn : k1.nodeinfo = k.nodeinfo) :
    Acted p r w k (setNode w p.key k1) := by
  unfold setNode
  split_ifs with hnode
  · exact .put k1 hs hn
  · rw [hn] at hnode
    exact .fresh k1 hs (not_isSome_iff_eq_none.1 hnode)

lemma withToken_eq_ok {f : Token → Except Fault World} (h : actOn.withToken p f = .ok w') :
    ∃ t, p.event.userData.token? = some t ∧ f t = .ok w' := by
  unfold actOn.withToken at h
  split at h
  · rename_i t ht
    exact ⟨t, ht, h⟩
  · cases h

lemma acted_nodeSet {t : Token} (ht : p.event.userData.token? = some t)
    (hcond : isNodeHandshakeToken p.event = true ∨ isNodeToken p.event = true)
    (h : Peers.nodeSet r w p.key p.event.targetDhkey k t = .ok w') : Acted p r w k w' := by
  unfold Peers.nodeSet at h
  simp only at h
  split at h
  · cases h
    exact .put _ rfl rfl
  · rename_i passive ha
    obtain ⟨hflag, ha⟩ : flagCmp t.type tokenHandshake = true ∧ r.address = some passive := by
      split_ifs at ha with hflag
      exact ⟨hflag, ha⟩
    split at h
    · rename_i n hn
      obtain ⟨hpassive, hn⟩ :
          passive = true ∧ (w.keys p.event.targetDhkey).bind PeerKey.nodeinfo = some n := by
        split_ifs at hn with hpassive
        exact ⟨hpassive, hn⟩
      cases h
      exact .taken _ t n rfl ht hflag hcond (hpassive ▸ ha) hn rfl
    · by_cases hnone : k.nodeinfo.isNone = true
      · rw [if_pos hnone] at h
        cases h
        exact .fresh _ rfl (isNone_iff_eq_none.1 hnone)
      · rw [if_neg hnone] at h
        by_cases hsame : r.sameAddress = true
        · rw [if_pos hsame] at h
          cases h
          exact .put _ rfl rfl
        · rw [if_neg hsame] at h
          cases h

lemma Moves.of_unused (hs : k.state = .unused)
    (hs' : k'.state = .inSetupNode ∨ k'.state = .inSetupWildcard) : Moves p k k' := by
  obtain hs' | hs' := hs' <;>
    exact ⟨by simp [hs'], by simp [hs'], by simp [hs'], fun h => absurd hs h⟩

lemma Moves.of_same_state (hs : k'.state = k.state)
    (ht : k'.state = .unused ∨ k.handshakeToken.isSome → k'.handshakeToken = k.handshakeToken) :
    Moves p k k' :=
  ⟨fun h => ⟨hs ▸ h, ht (.inl h)⟩, fun h => hs ▸ h, fun h => .inl (hs ▸ h), fun _ h => ht (.inr h)⟩

lemma stateOf_acted (h : Acted p r w k w') : stateOf p.key w' = some k.state := by
  cases h with
  | put k' hs => simp [stateOf, hs]
  | fresh k' hs => simp [stateOf, hs]
  | taken k' t n hs => simp [stateOf, hs]

end

lemma aliasSet_cases {p : Pending} {r : Reads} {w w' : World} {k : PeerKey} {t : Token}
    (h : Peers.aliasSet r w p.key k t = .ok w') :
    (∃ n, ((w.keys t.issuer).bind PeerKey.nodeinfo = some n ∨
        w.keys t.issuer = none ∧ k.nodeinfo = some n) ∧
      w' = w.put p.key { aliased k t n with state := k.state }) ∨
    k.nodeinfo = none ∧ w' = w.putNew p.key { aliased k t w.next with state := k.state } := by
  unfold Peers.aliasSet at h
  simp only at h
  split at h
  · rename_i peer hpeer
    split at h
    · rename_i n hn
      cases h
      exact .inl ⟨n, .inl (by rw [hpeer, bind_some, hn]), rfl⟩
    · cases h
  · rename_i hnone
    split_ifs at h with hnode ha
    · cases h
      obtain ⟨n, hn⟩ := isSome_iff_exists.1 hnode
      refine .inl ⟨n, .inr ⟨hnone, hn⟩, ?_⟩
      simp only [aliased, ← hn]
    · cases h
      exact .inr ⟨not_isSome_iff_eq_none.1 hnode, rfl⟩

lemma act_createSession {p : Pending} {r : Reads} {w w' : World} {k : PeerKey} {n : ℕ}
    (hk : w.keys p.key = some k) (hn : k.nodeinfo = some n)
    (h : act p r w .createSession = .ok w') : w' = derive w n k := by
  rw [act_of_key hk] at h
  simp only [actOn, createSession, hn] at h
  split at h
  · rename_i m tok hm htok
    cases hm
    cases h
    rw [derive, htok]
    rfl
  · rename_i hm
    cases hm
  · cases h

section

variable {p : Pending} {r : Reads} {w w' : World} {k : PeerKey} {t : KeyTransition}

section

variable (hk : w.keys p.key = some k)
include hk

lemma handled_address (h : act p r w .aliasSetNode = .ok w') : Handled p r w w' := by
  rw [act_of_key hk] at h
  have hw : aliasSetNode w p.key k = w' := by simpa [actOn] using h
  unfold aliasSetNode at hw
  split_ifs at hw with hnode
  · cases hw
    exact .same
  · cases hw
    exact .fresh k _ hk (.of_same_state rfl fun _ => rfl) (not_isSome_iff_eq_none.1 hnode)

lemma handled_setUp (hst : k.state = .unused)
    (ha : ∀ w1, act p r w t.action = .ok w1 → Acted p r w k w1)
    (ht : t.target = .inSetupNode ∨ t.target = .inSetupWildcard)
    (h : take (act p r) (stateOf p.key) (setState p.key) onExit onEnter .unused t w = .ok w') :
    Handled p r w w' := by
  have hne : t.target ≠ .unused := by obtain ht | ht := ht <;> simp [ht]
  obtain ⟨w1, hw1, hw'⟩ := exists_of_take hne (act_onExit _)
    (fun w1 hw1 => hst ▸ stateOf_acted (ha w1 hw1)) h
  have he : onEnter t.target = .createClientNetwork := by
    obtain ht | ht := ht <;> simp [ht, onEnter]
  rw [he] at hw'
  cases eq_of_createClientNetwork hw'
  cases ha w1 hw1 with
  | put k1 hs hn =>
    rw [setState_put]
    exact .moved k _ hk (.of_unused hst ht) hn
  | fresh k1 hs hn =>
    rw [setState_putNew]
    exact .fresh k _ hk (.of_unused hst ht) hn
  | taken k1 tok n hs htok hflag hcond hpassive hn hn' =>
    rw [setState_put]
    exact .taken k _ tok n hk (.of_unused hst ht) hne htok hflag hcond hpassive hn hn'

lemma handled_aliasSet (hst : k.state = .unused) (ha : t.action = .aliasSet)
    (ht : t.target = .inSetupAlias) (hcond : isAliasHandshakeToken p.event = true)
    (h : take (act p r) (stateOf p.key) (setState p.key) onExit onEnter .unused t w = .ok w') :
    Handled p r w w' := by
  have hset : ∀ w1, act p r w t.action = .ok w1 → ∃ tok, p.event.userData.token? = some tok ∧
      Peers.aliasSet r w p.key k tok = .ok w1 := by
    intro w1 hw1
    rw [act_of_key hk, ha] at hw1
    exact withToken_eq_ok hw1
  have hcur : ∀ w1, act p r w t.action = .ok w1 → stateOf p.key w1 = some .unused := by
    intro w1 hw1
    obtain ⟨tok, _, hw1⟩ := hset w1 hw1
    obtain ⟨n, _, rfl⟩ | ⟨_, rfl⟩ := aliasSet_cases hw1 <;> simp [stateOf, hst]
  have hne : t.target ≠ .unused := by simp [ht]
  obtain ⟨w1, hw1, hw'⟩ := exists_of_take hne (act_onExit _) hcur h
  obtain ⟨tok, htok, hw1⟩ := hset w1 hw1
  rw [ht] at hw'
  obtain ⟨n, hn, rfl⟩ | ⟨hn, rfl⟩ := aliasSet_cases hw1
  · rw [setState_put] at hw'
    rw [act_createSession (put_keys_self _ _ _) rfl hw']
    exact .session k tok n hk hst htok hcond hn
  · rw [setState_putNew] at hw'
    rw [act_createSession (putNew_keys_self _ _ _) rfl hw']
    exact .freshSession k tok hk hst htok hcond hn

lemma handled_token (hs : k.state ≠ .unused) (h : act p r w .nodeUpdateToken = .ok w') :
    Handled p r w w' := by
  rw [act_of_key hk] at h
  obtain ⟨tok, htok, h⟩ := withToken_eq_ok h
  unfold nodeUpdateToken at h
  simp only at h
  split at h
  · cases h
    refine .moved k _ hk (.of_same_state rfl fun hcase => ?_) rfl
    have hsome : k.handshakeToken.isSome := hcase.resolve_left hs
    simp [isSome_iff_ne_none.1 hsome]
  · cases h

lemma handled_authn (hcond : isAuthnRequest p.event = true)
    (h : act p r w .identityHandleAuthn = .ok w') : Handled p r w w' := by
  rw [act_of_key hk] at h
  obtain ⟨tok, htok, h⟩ := withToken_eq_ok h
  have hw : identityHandleAuthn r w p tok = w' := by simpa using h
  subst hw
  unfold identityHandleAuthn
  split
  · exact .same
  · exact .queued tok _ htok hcond (by simp)
  · exact .queued tok _ htok hcond (by simp)

end

lemma Moves.upgrade
    (hs' : k.state = .inSetupAlias ∧ k'.state = .inUseAlias ∧ isNodeAuthn p.event = true ∨
      k'.state = .inUseNode) (ht : k'.handshakeToken = k.handshakeToken) : Moves p k k' := by
  obtain ⟨hk, hk', ha⟩ | hk' := hs'
  · exact ⟨by simp [hk'], by simp [hk'], fun _ => .inr ⟨hk, ha⟩, fun _ _ => ht⟩
  · exact ⟨by simp [hk'], by simp [hk'], by simp [hk'], fun _ _ => ht⟩

lemma handled_upgrade (hk : w.keys p.key = some k)
    (ha : t.action = .nodeUpgrade ∨ t.action = .nodeIdentityUpgrade)
    (ht : k.state = .inSetupAlias ∧ t.target = .inUseAlias ∧ isNodeAuthn p.event = true ∨
      k.state = .inSetupNode ∧ t.target = .inUseNode)
    (h : take (act p r) (stateOf p.key) (setState p.key) onExit onEnter k.state t w = .ok w') :
    Handled p r w w' := by
  have hacted : ∀ w1, act p r w t.action = .ok w1 → ∃ k1, w1 = w.put p.key k1 ∧
      k1.state = k.state ∧ k1.handshakeToken = k.handshakeToken ∧ k1.nodeinfo = k.nodeinfo := by
    intro w1 hw1
    rw [act_of_key hk] at hw1
    obtain ha | ha := ha
    · rw [ha] at hw1
      obtain ⟨tok, _, hw1⟩ := withToken_eq_ok hw1
      unfold nodeUpgrade at hw1
      split_ifs at hw1
      cases hw1
      exact ⟨_, rfl, rfl, rfl, rfl⟩
    · rw [ha] at hw1
      simp only [actOn] at hw1
      split_ifs at hw1
      cases hw1
      refine ⟨k, ?_, rfl, rfl, rfl⟩
      simp [World.put, ← hk]
  have hne : t.target ≠ k.state := by
    obtain ⟨hs, ht, _⟩ | ⟨hs, ht⟩ := ht <;> simp [hs, ht]
  obtain ⟨w1, hw1, hw'⟩ := exists_of_take hne (act_onExit _) (fun w1 hw1 => by
    obtain ⟨k1, rfl, hs, _⟩ := hacted w1 hw1
    simp [stateOf, hs]) h
  have he : quiet (onEnter t.target) = true := by
    obtain ⟨_, ht, _⟩ | ⟨_, ht⟩ := ht <;> rw [ht] <;> rfl
  obtain ⟨k1, rfl, hs, htok, hn⟩ := hacted w1 hw1
  rw [setState_put, act_quiet he] at hw'
  cases hw'
  exact .moved k _ hk (.upgrade (ht.imp_right And.right) htok) hn

lemma handled_leave (hk : w.keys p.key = some k) (ha : quiet t.action = true)
    (hne : t.target ≠ k.state)
    (ht : t.target = .inUseIdentity ∨ t.target = .inUseMsgproperty ∨
      t.target = .onHoldMsgproperty ∨ t.target = .inDestroy)
    (h : take (act p r) (stateOf p.key) (setState p.key) onExit onEnter k.state t w = .ok w') :
    Handled p r w w' := by
  obtain ⟨w1, hw1, hw'⟩ := exists_of_take hne (act_onExit _) (fun w1 hw1 => by
    rw [act_quiet ha] at hw1
    cases hw1
    exact stateOf_of_key hk rfl) h
  rw [act_quiet ha] at hw1
  cases hw1
  rw [setState_of_key hk] at hw'
  by_cases hd : t.target = .inDestroy
  · rw [hd, act_of_key (put_keys_self _ _ _)] at hw'
    cases hw'
    simp only [World.put, update_idem]
    exact .removed
  · have hkeep : quiet (onEnter t.target) = true ∧ t.target ≠ .unused ∧ t.target ≠ .inSetupAlias ∧
        t.target ≠ .inUseAlias := by
      obtain ht | ht | ht | ht := ht
      · simp [ht, onEnter, quiet]
      · simp [ht, onEnter, quiet]
      · simp [ht, onEnter, quiet]
      · exact absurd ht hd
    obtain ⟨he, h1, h2, h3⟩ := hkeep
    rw [act_quiet he] at hw'
    cases hw'
    refine .moved k _ hk ⟨fun h => absurd h h1, fun h => absurd h h2, fun h => absurd h h3, ?_⟩ rfl
    exact fun _ _ => rfl

lemma handled_of_handle (h : handle p r w = .ok w') : Handled p r w w' := by
  unfold handle at h
  split at h
  · cases h
    exact .same
  rename_i k hk
  split at h
  · cases h
    exact .same
  rename_i t hsel
  obtain ⟨hmem, hh⟩ := select_eq_some hsel
  obtain ⟨ht, ha⟩ | ⟨hs, ha, ht⟩ | ⟨hs, ha, ht⟩ | ⟨hs, ha, ht, hc⟩ | ⟨hs, ha, ht, hc⟩ |
    ⟨ha, ht, hs⟩ | ⟨hs, ha, ht, hc⟩ | ⟨ha, ht⟩ | ⟨ha, hne, ht⟩ := transition_cases hmem
  · rw [take_of_stay ht, act_quiet ha] at h
    cases h
    exact .same
  · rw [take_of_stay (ht.trans hs.symm), ha] at h
    exact handled_address hk h
  · refine handled_setUp hk hs (fun w1 hw1 => ?_) ht (hs ▸ h)
    rw [act_of_key hk] at hw1
    obtain ha | ha := ha <;> rw [ha] at hw1 <;> cases hw1 <;> exact acted_setNode _ rfl rfl
  · have hcond : isNodeHandshakeToken p.event = true ∨ isNodeToken p.event = true := by
      obtain hc | hc := hc <;> rw [hc] at hh
      · exact .inl hh
      · exact .inr hh
    refine handled_setUp hk hs (fun w1 hw1 => ?_) (.inl ht) (hs ▸ h)
    rw [act_of_key hk, ha] at hw1
    obtain ⟨tok, htok, hw1⟩ := withToken_eq_ok hw1
    exact acted_nodeSet htok hcond hw1
  · rw [hc] at hh
    exact handled_aliasSet hk hs ha ht hh (hs ▸ h)
  · rw [take_of_stay ht, ha] at h
    have hu : k.state ≠ .unused := by obtain hs | hs := hs <;> simp [hs]
    exact handled_token hk hu h
  · rw [take_of_stay (ht.trans hs.symm), ha] at h
    have hcond : isAuthnRequest p.event = true := by
      rw [hc] at hh
      simp only [holds, viewOf, Bool.and_eq_true] at hh
      simpa using hh.2
    exact handled_authn hk hcond h
  · refine handled_upgrade hk ha (ht.imp_left fun ⟨hs, ht, hc⟩ => ⟨hs, ht, ?_⟩) h
    rw [hc] at hh
    exact hh
  · exact handled_leave hk ha hne ht h

end

variable {w w' : World} {t : Token} {via : Dhkey} {r : Reads}

lemma inHandshake_cases (h : inHandshake w t via r = .ok w') :
    w' = w ∨ ∃ w1, handle ⟨t.issuer, handshakeEvent t.issuer via t, none⟩ r
        (w.findOrCreate t.issuer) = .ok w1 ∧
      (w' = w1 ∨ ∃ keys : List Dhkey, (∀ d ∈ keys, d = via ∨ d = r.wildcard) ∧
        w' = (w1.findOrCreate via).queue
          (keys.map fun d => ⟨d, handshakeEvent d via t, none⟩)) := by
  unfold inHandshake at h
  split_ifs at h
  · obtain ⟨w1, hw1, h⟩ := bind_eq_ok h
    refine .inr ⟨w1, hw1, ?_⟩
    split at h
    · cases h
      exact .inl rfl
    · simp only at h
      split at h
      · cases h
        exact .inr ⟨[via], by simp, rfl⟩
      · cases h
        exact .inr ⟨[via, r.wildcard], by simp, by simp [World.queue]⟩
  · cases h
    exact .inl rfl

lemma inJoin_cases (me : Dhkey) (w : World) (node : Token) (ident : Option Token) (via : Dhkey) :
    inJoin me w node ident via = w ∨ ∃ events, inJoin me w node ident via = w.queue events ∧
      ∀ p ∈ events, (∃ d target, p = ⟨d, handshakeEvent d target node, some node⟩) ∨
        ∃ d t, p = ⟨d, authnRequest d via t, some node⟩ ∧ t = ident.getD node ∧
          (t = node ∨ isPartner t node = true) := by
  unfold inJoin
  split_ifs
  · exact .inl rfl
  · cases ident with
    | none =>
      refine .inr ⟨_, rfl, fun p hp => ?_⟩
      obtain ⟨d, _, rfl⟩ := List.mem_map.1 hp
      exact .inr ⟨d, node, rfl, rfl, .inl rfl⟩
    | some ident =>
      simp only
      split_ifs with hpar
      · refine .inr ⟨_, rfl, fun p hp => ?_⟩
        simp only [Bool.and_eq_true] at hpar
        simp only [List.mem_cons, List.not_mem_nil, or_false] at hp
        obtain rfl | rfl | rfl := hp
        · exact .inl ⟨_, _, rfl⟩
        · exact .inl ⟨_, _, rfl⟩
        · exact .inr ⟨me, ident, rfl, rfl, .inr hpar.1.2⟩
      · exact .inl rfl

end Neuropil.Key.PeerEffects
