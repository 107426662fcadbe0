import Neuropil.Key.PeerEffects

namespace Neuropil.Key.JoinRuns

open Bool List Option Lib.Buffer Lib.Fault Lib.Run
open Dhkey (ofWord)
open Key.Conditions Key.Peers Key.PeerEffects

def Concerns (p : Pending) (d : Dhkey) : Prop :=
  isNodeAuthn p.event = true ∧ p.key = d ∨
    isAuthnRequest p.event = true ∧
      ∃ t ∈ p.event.userData.token?, d = nodeDhkeyOf t ∨ d = p.event.targetDhkey

/-- An alias key that waits for its authentication was set up with the public key of the node. -/
def SameKey (w : World) (d : Dhkey) (node : Token) : Prop :=
  ∀ k ∈ w.keys d, k.state = .inSetupAlias → ∀ h ∈ k.handshakeToken, h.publicKey = node.publicKey

/-- The token of an authentication is the node token of a join message or its partner, and the
keys that it concerns have the public key of this node token. -/
def Bound (w : World) (p : Pending) : Prop :=
  ∀ d, Concerns p d → ∃ t node, p.event.userData.token? = some t ∧ p.joining = some node ∧
    (t = node ∨ isPartner t node = true) ∧ SameKey w d node

/-- The messages that lead to an authentication fit the alias keys: a join message has the public
key of its alias, and an alias is not set up with another one while an authentication is pending for
it. -/
def Fits (w : World) : Step → Prop
  | .join node ident via =>
    SameKey w via node ∧ SameKey w (nodeDhkeyOf (ident.getD node)) node
  | .next n _ => ∀ p ∈ w.pending[n]?, ∀ t ∈ p.event.userData.token?,
      isAliasHandshakeToken p.event = true → stateOf p.key w = some .unused →
      ∀ q ∈ w.pending, Concerns q p.key → ∀ node ∈ q.joining, t.publicKey = node.publicKey
  | _ => True

instance (p : Pending) (d : Dhkey) : Decidable (Concerns p d) :=
  inferInstanceAs (Decidable (_ ∧ _ ∨ _ ∧ ∃ t ∈ p.event.userData.token?, _ ∨ _))

instance (w : World) (d : Dhkey) (node : Token) : Decidable (SameKey w d node) :=
  inferInstanceAs (Decidable (∀ k ∈ w.keys d, _ → ∀ h ∈ k.handshakeToken, _ = _))

instance (w : World) : (a : Step) → Decidable (Fits w a)
  | .join node ident via =>
    inferInstanceAs (Decidable
      (SameKey w via node ∧ SameKey w (nodeDhkeyOf (ident.getD node)) node))
  | .next n _ =>
    inferInstanceAs (Decidable (∀ p ∈ w.pending[n]?, ∀ t ∈ p.event.userData.token?,
      isAliasHandshakeToken p.event = true → stateOf p.key w = some .unused →
      ∀ q ∈ w.pending, Concerns q p.key → ∀ node ∈ q.joining, t.publicKey = node.publicKey))
  | .create _ | .handshake _ _ _ | .update _ | .plain _ _ _ => inferInstanceAs (Decidable True)

def Admissible : Except Fault World → Step → Prop
  | .ok w, a => Fits w a
  | .error _, _ => True

instance : (s : Except Fault World) → (a : Step) → Decidable (Admissible s a)
  | .ok w, a => inferInstanceAs (Decidable (Fits w a))
  | .error _, _ => inferInstanceAs (Decidable True)

/-- An event authenticates an alias with the token of a node, or of its partner, that has the
public key of the alias's handshake. -/
def Owns (w : World) (p : Pending) (d : Dhkey) : Prop :=
  ∃ t node k h, p.key = d ∧ p.event.userData.token? = some t ∧ p.joining = some node ∧
    (t = node ∨ isPartner t node = true) ∧ w.keys d = some k ∧ k.handshakeToken = some h ∧
    h.publicKey = node.publicKey

/-- Every alias key that a step takes into use is authenticated with its own token. -/
def OwnToken (w : World) (a : Step) (w' : World) : Prop :=
  ∀ d, stateOf d w' = some .inUseAlias → stateOf d w ≠ some .inUseAlias →
    ∃ n r p, a = .next n r ∧ w.pending[n]? = some p ∧ Owns w p d

structure Inv (w : World) : Prop where
  bound : ∀ p ∈ w.pending, Bound w p
  setup : ∀ d k, w.keys d = some k → k.state = .inSetupAlias → k.handshakeToken.isSome
  token : ∀ d k, w.keys d = some k → k.state = .unused → k.handshakeToken = none

section

variable {w : World} {d : Dhkey} {t : Token}

lemma handshakeEvent_not_authn (d target : Dhkey) (t : Token) :
    flagCmp (handshakeEvent d target t).type evtAuthn = false := by
  have hflag : flagCmp (evtExternal ||| evtToken) evtAuthn = false := by decide
  exact hflag

lemma not_isAuthnRequest_authnEvent (d : Dhkey) (t : Token) :
    isAuthnRequest (authnEvent d t) = false := by
  have hflag : flagCmp (authnEvent d t).type evtExternal = false := by
    have hflag : flagCmp (evtInternal ||| evtToken ||| evtAuthn) evtExternal = false := by decide
    exact hflag
  simp [isAuthnRequest, tokenIn, hflag]

lemma not_isNodeAuthn_authnRequest (d target : Dhkey) (t : Token) :
    isNodeAuthn (authnRequest d target t) = false := by
  have hflag : flagCmp (authnRequest d target t).type evtInternal = false := by
    have hflag : flagCmp (evtAuthn ||| evtExternal ||| evtToken) evtInternal = false := by decide
    exact hflag
  simp [isNodeAuthn, hflag]

lemma authn_of_concerns {p : Pending} (h : Concerns p d) :
    ∃ t, p.event.userData.token? = some t ∧ flagCmp p.event.type evtAuthn = true := by
  obtain ⟨ha, _⟩ | ⟨hreq, t, ht, _⟩ := h
  · simp only [isNodeAuthn, and_eq_true] at ha
    obtain ⟨t, ht⟩ := isSome_iff_exists.1 ha.2
    exact ⟨t, ht, ha.1.2⟩
  · rw [isAuthnRequest, and_eq_true] at hreq
    exact ⟨t, ht, hreq.1⟩

lemma not_concerns {p : Pending}
    (h : ∀ t, p.event.userData.token? = some t → flagCmp p.event.type evtAuthn = false) :
    ¬ Concerns p d := by
  intro hd
  obtain ⟨t, ht, hflag⟩ := authn_of_concerns hd
  rw [h t ht] at hflag
  cases hflag

variable {w' : World} {p : Pending} {r : Reads}

section

variable (h : Inv w)
include h

lemma Inv.of_keys {w' : World} (hpen : w'.pending = w.pending)
    (hkeys : ∀ d k', w'.keys d = some k' →
      (k'.state ≠ .inSetupAlias ∧ (k'.state = .unused → k'.handshakeToken = none)) ∨
      ∃ k, w.keys d = some k ∧ k'.state = k.state ∧ k'.handshakeToken = k.handshakeToken) :
    Inv w' := by
  refine ⟨?_, ?_, ?_⟩
  · intro q hq d hd
    rw [hpen] at hq
    obtain ⟨t, node, ht, hnode, hpar, hsame⟩ := h.bound q hq d hd
    refine ⟨t, node, ht, hnode, hpar, fun k' hk' hs h' htok => ?_⟩
    obtain ⟨hne, _⟩ | ⟨k, hk, hst, hh⟩ := hkeys d k' hk'
    · exact absurd hs hne
    · exact hsame k hk (hst ▸ hs) h' (hh ▸ htok)
  · intro d k' hk' hs
    obtain ⟨hne, _⟩ | ⟨k, hk, hst, hh⟩ := hkeys d k' hk'
    · exact absurd hs hne
    · rw [hh]
      exact h.setup d k hk (hst ▸ hs)
  · intro d k' hk' hs
    obtain ⟨_, htok⟩ | ⟨k, hk, hst, hh⟩ := hkeys d k' hk'
    · exact htok hs
    · rw [hh]
      exact h.token d k hk (hst ▸ hs)

lemma Inv.put_moves {k k' : PeerKey} (hk : w.keys p.key = some k)
    (hm : Moves p k k') : Inv (w.put p.key k') := by
  refine h.of_keys rfl fun d k2 hk2 => ?_
  obtain ⟨rfl, rfl⟩ | ⟨_, hk2⟩ := keys_put_cases hk2
  · by_cases hs : k2.state = .inSetupAlias
    · have hold := hm.setup hs
      refine .inr ⟨k, hk, hs.trans hold.symm, hm.handshake (by simp [hold]) ?_⟩
      exact h.setup p.key k hk hold
    · refine .inl ⟨hs, fun hu => ?_⟩
      obtain ⟨hu, htok⟩ := hm.unused hu
      exact htok.trans (h.token p.key k hk hu)
  · exact .inr ⟨k2, hk2, rfl, rfl⟩

lemma Inv.put_aliased {k : PeerKey} {t : Token} (n : ℕ) (hk : w.keys p.key = some k)
    (hs : k.state = .unused)
    (hfit : ∀ q node, q ∈ w.pending → Concerns q p.key → q.joining = some node →
      t.publicKey = node.publicKey) : Inv (w.put p.key (aliased k t n)) := by
  have htok : (aliased k t n).handshakeToken = some t := by
    simp [aliased, h.token p.key k hk hs]
  refine ⟨?_, ?_, ?_⟩
  · intro q hq d hd
    obtain ⟨tok, node, ht, hnode, hpar, hsame⟩ := h.bound q hq d hd
    refine ⟨tok, node, ht, hnode, hpar, fun k' hk' hs' h' htok' => ?_⟩
    obtain ⟨rfl, rfl⟩ | ⟨_, hk'⟩ := keys_put_cases hk'
    · cases htok.symm.trans htok'
      exact hfit q node hq hd hnode
    · exact hsame k' hk' hs' h' htok'
  · intro d k' hk' hs'
    obtain ⟨rfl, rfl⟩ | ⟨_, hk'⟩ := keys_put_cases hk'
    · rw [htok]
      rfl
    · exact h.setup d k' hk' hs'
  · intro d k' hk' hs'
    obtain ⟨rfl, rfl⟩ | ⟨_, hk'⟩ := keys_put_cases hk'
    · cases hs'
    · exact h.token d k' hk' hs'

lemma Inv.queue {events : List Pending} (hev : ∀ q ∈ events, Bound w q) :
    Inv (w.queue events) := by
  refine ⟨fun q hq => ?_, h.setup, h.token⟩
  obtain hq | hq := mem_append.1 hq
  · exact h.bound q hq
  · exact hev q hq

lemma handled_inv (hp : Bound w p)
    (hfit : ∀ t q node, p.event.userData.token? = some t → isAliasHandshakeToken p.event = true →
      stateOf p.key w = some .unused → q ∈ w.pending → Concerns q p.key → q.joining = some node →
      t.publicKey = node.publicKey) (hw : Handled p r w w') : Inv w' := by
  cases hw with
  | same => exact h
  | removed =>
    refine h.of_keys rfl fun d k' hk' => ?_
    by_cases hd : d = p.key
    · simp [hd] at hk'
    · exact .inr ⟨k', by simpa [hd] using hk', rfl, rfl⟩
  | moved k k' hk hm | taken k k' t n hk hm => exact h.put_moves hk hm
  | fresh k k' hk hm =>
    have hmoves : Moves p k { k' with nodeinfo := some w.next } := ⟨hm.1, hm.2, hm.3, hm.4⟩
    have hput := h.put_moves hk hmoves
    exact ⟨hput.bound, hput.setup, hput.token⟩
  | session k t n hk hs ht hcond hn =>
    have hput := h.put_aliased n hk hs fun q node => hfit t q node ht hcond (stateOf_of_key hk hs)
    exact ⟨hput.bound, hput.setup, hput.token⟩
  | freshSession k t hk hs ht hcond hn =>
    have hput := h.put_aliased w.next hk hs fun q node =>
      hfit t q node ht hcond (stateOf_of_key hk hs)
    exact ⟨hput.bound, hput.setup, hput.token⟩
  | queued t events ht hcond hev =>
    refine h.queue fun q hq => ?_
    obtain hnull | ⟨hj, he, hkey⟩ := hev q hq
    · exact fun d hd => absurd hd (not_concerns fun t ht => by simp [hnull, UserData.token?] at ht)
    · rintro d (⟨_, rfl⟩ | ⟨hreq, _⟩)
      · obtain ⟨t', node, ht', hnode, hpar, hsame⟩ := hp q.key (.inr ⟨hcond, t, ht, hkey⟩)
        cases ht.symm.trans ht'
        refine ⟨t, node, ?_, hj.trans hnode, hpar, hsame⟩
        rw [he]
        rfl
      · rw [he, not_isAuthnRequest_authnEvent] at hreq
        cases hreq

lemma promoted_of_handled (hp : Bound w p) (hw : Handled p r w w') {d : Dhkey}
    (hnew : stateOf d w' = some .inUseAlias) (hold : stateOf d w ≠ some .inUseAlias) :
    isNodeAuthn p.event = true ∧ Owns w p d := by
  -- a key that the event changed is the one that it was delivered to
  have hmoves : ∀ k k' : PeerKey, w.keys p.key = some k → Moves p k k' →
      stateOf d (w.put p.key k') = some .inUseAlias → isNodeAuthn p.event = true ∧ Owns w p d := by
    intro k k' hk hm hnew
    obtain ⟨k2, hk2, hs2⟩ := map_eq_some_iff.1 hnew
    obtain ⟨rfl, rfl⟩ | ⟨_, hk2⟩ := keys_put_cases hk2
    · obtain hs | ⟨hs, hauthn⟩ := hm.promoted hs2
      · exact absurd (stateOf_of_key hk hs) hold
      · obtain ⟨t, node, ht, hnode, hpar, hsame⟩ := hp p.key (.inl ⟨hauthn, rfl⟩)
        obtain ⟨h', hh'⟩ := isSome_iff_exists.1 (h.setup p.key k hk hs)
        exact ⟨hauthn, t, node, k, h', rfl, ht, hnode, hpar, hk, hh', hsame k hk hs h' hh'⟩
    · exact absurd (stateOf_of_key hk2 hs2) hold
  have ha : ∀ (k : PeerKey) (t : Token) (n : ℕ),
      stateOf d (w.put p.key (aliased k t n)) ≠ some .inUseAlias := by
    intro k t n hnew
    obtain ⟨k2, hk2, hs2⟩ := map_eq_some_iff.1 hnew
    obtain ⟨rfl, rfl⟩ | ⟨_, hk2⟩ := keys_put_cases hk2
    · cases hs2
    · exact absurd (stateOf_of_key hk2 hs2) hold
  cases hw with
  | same | queued t events => exact absurd hnew hold
  | removed =>
    by_cases hd : d = p.key
    · simp [stateOf, hd] at hnew
    · refine absurd ?_ hold
      simpa [stateOf, hd] using hnew
  | moved k k' hk hm | taken k k' t n hk hm => exact hmoves k k' hk hm hnew
  | fresh k k' hk hm =>
    exact hmoves k { k' with nodeinfo := some w.next } hk ⟨hm.1, hm.2, hm.3, hm.4⟩ hnew
  | session k t n => exact absurd hnew (ha k t n)
  | freshSession k t => exact absurd hnew (ha k t w.next)

end

variable {me : Dhkey}

lemma findOrCreate_inv (h : Inv w) (d : Dhkey) : Inv (w.findOrCreate d) := by
  unfold World.findOrCreate
  split
  · exact h
  · refine h.of_keys rfl fun x k hk => ?_
    obtain ⟨rfl, rfl⟩ | ⟨_, hk⟩ := keys_put_cases hk
    · exact .inl ⟨nofun, fun _ => rfl⟩
    · exact .inr ⟨k, hk, rfl, rfl⟩

def NoneTaken (w w' : World) : Prop :=
  ∀ d, stateOf d w' = some .inUseAlias → stateOf d w = some .inUseAlias

lemma safe_of_noneTaken (h : Inv w' ∧ NoneTaken w w') (a : Step) : Inv w' ∧ OwnToken w a w' :=
  ⟨h.1, fun d hnew hold => absurd (h.2 d hnew) hold⟩

lemma findOrCreate_noneTaken (w : World) (d : Dhkey) : NoneTaken w (w.findOrCreate d) := by
  intro x h
  unfold World.findOrCreate at h
  split at h
  · exact h
  · obtain ⟨k, hk, hs⟩ := map_eq_some_iff.1 h
    obtain ⟨rfl, rfl⟩ | ⟨_, hk⟩ := keys_put_cases hk
    · cases hs
    · exact stateOf_of_key hk hs

lemma handled_not_authn {p : Pending} {r : Reads} (h : Inv w)
    (ha : ∀ t, p.event.userData.token? = some t → flagCmp p.event.type evtAuthn = false)
    (halias : isAliasHandshakeToken p.event = false) (hw : Handled p r w w') :
    Inv w' ∧ NoneTaken w w' := by
  have hp : Bound w p := fun d hd => absurd hd (not_concerns ha)
  refine ⟨handled_inv h hp ?_ hw, fun d hnew => ?_⟩
  · intro t q node _ hcond
    rw [halias] at hcond
    cases hcond
  · by_contra hold
    obtain ⟨hnode, _, _, _, _, hkey, _⟩ := promoted_of_handled h hp hw hnew hold
    exact not_concerns ha (.inl ⟨hnode, hkey⟩)

lemma not_isAliasHandshakeToken_of_issuer (t : Token) (target : Dhkey) :
    isAliasHandshakeToken (handshakeEvent t.issuer target t) = false := by
  rw [← not_eq_true]
  intro ha
  obtain ⟨_, ⟨⟩, _, hiss⟩ := token_of_isAliasHandshakeToken ha
  exact hiss rfl

lemma not_concerns_handshake {d target x : Dhkey} {t : Token} {joining : Option Token} :
    ¬ Concerns ⟨d, handshakeEvent d target t, joining⟩ x :=
  not_concerns fun _ _ => handshakeEvent_not_authn d target t

variable {via : Dhkey}

lemma inHandshake_safe (h : Inv w) {t : Token} {r : Reads}
    (hw : inHandshake w t via r = .ok w') : Inv w' ∧ NoneTaken w w' := by
  obtain rfl | ⟨w1, hw1, hw⟩ := inHandshake_cases hw
  · exact ⟨h, fun _ hd => hd⟩
  obtain ⟨hinv, hnone⟩ := handled_not_authn
    (p := ⟨t.issuer, handshakeEvent t.issuer via t, none⟩) (findOrCreate_inv h t.issuer)
    (fun _ _ => handshakeEvent_not_authn t.issuer via t)
    (not_isAliasHandshakeToken_of_issuer t via) (handled_of_handle hw1)
  have hnone : NoneTaken w w1 := fun d hd => findOrCreate_noneTaken w t.issuer d (hnone d hd)
  obtain rfl | ⟨keys, _, rfl⟩ := hw
  · exact ⟨hinv, hnone⟩
  · refine ⟨(findOrCreate_inv hinv via).queue fun p hp => ?_,
      fun d hd => hnone d (findOrCreate_noneTaken w1 via d hd)⟩
    obtain ⟨d, _, rfl⟩ := mem_map.1 hp
    exact fun x hx => absurd hx not_concerns_handshake

lemma inUpdate_safe (h : Inv w) (t : Token) :
    Inv (inUpdate w t) ∧ NoneTaken w (inUpdate w t) := by
  unfold inUpdate
  split_ifs
  · refine ⟨(findOrCreate_inv h t.issuer).queue fun p hp => ?_, findOrCreate_noneTaken w t.issuer⟩
    rw [mem_singleton.1 hp]
    exact fun d hd => absurd hd not_concerns_handshake
  · exact ⟨h, fun _ hd => hd⟩

lemma bound_authnRequest {d : Dhkey} {t node : Token}
    (hpar : t = node ∨ isPartner t node = true) (hvia : SameKey w via node)
    (hnode : SameKey w (nodeDhkeyOf t) node) : Bound w ⟨d, authnRequest d via t, some node⟩ := by
  rintro x (⟨ha, _⟩ | ⟨_, t', ht', hx⟩)
  · rw [not_isNodeAuthn_authnRequest] at ha
    cases ha
  · cases ht'
    refine ⟨t, node, rfl, rfl, hpar, ?_⟩
    obtain rfl | rfl := hx
    · exact hnode
    · exact hvia

lemma inJoin_safe (h : Inv w) {node : Token} {ident : Option Token}
    (hfits : Fits w (.join node ident via)) :
    Inv (inJoin me w node ident via) ∧ NoneTaken w (inJoin me w node ident via) := by
  obtain ⟨hvia, hnode⟩ := hfits
  obtain hw | ⟨events, hw, he⟩ := inJoin_cases me w node ident via
  · rw [hw]
    exact ⟨h, fun _ hd => hd⟩
  · rw [hw]
    refine ⟨h.queue fun p hp => ?_, fun _ hd => hd⟩
    obtain ⟨d, target, rfl⟩ | ⟨d, _, rfl, rfl, hpar⟩ := he p hp
    · exact fun x hx => absurd hx not_concerns_handshake
    · exact bound_authnRequest hpar hvia hnode

lemma plain_safe (h : Inv w) {d : Dhkey} {e : PlainEvent} {r : Reads}
    (hw : handle ⟨d, { e.event with sourceDhkey := d }, none⟩ r w = .ok w') :
    Inv w' ∧ NoneTaken w w' := by
  have hpl : ∀ t, e.event.userData.token? = some t →
      flagCmp e.event.type evtAuthn = false ∧ flagCmp t.type tokenHandshake = false := by
    intro t ht
    have hpl := e.plain
    rw [ht, all_some, and_eq_true] at hpl
    exact ⟨by simpa using hpl.1, by simpa using hpl.2⟩
  refine handled_not_authn h (fun t ht => (hpl t ht).1) ?_ (handled_of_handle hw)
  rw [← not_eq_true]
  intro ha
  obtain ⟨t, ht, htype, _⟩ := token_of_isAliasHandshakeToken ha
  have hflag := (hpl t ht).2
  rw [htype, flagCmp_self] at hflag
  cases hflag

lemma next_safe (h : Inv w) {n : ℕ} {r : Reads} (hfits : Fits w (.next n r))
    (hw : advance me w (.next n r) = .ok w') : Inv w' ∧ OwnToken w (.next n r) w' := by
  simp only [advance] at hw
  split at hw
  · cases hw
    exact safe_of_noneTaken ⟨h, fun _ hd => hd⟩ _
  · rename_i p hp
    have he : Inv { w with pending := w.pending.eraseIdx n } :=
      ⟨fun q hq => h.bound q (mem_of_mem_eraseIdx hq), h.setup, h.token⟩
    have hb : Bound w p := h.bound p (mem_of_getElem? hp)
    have hh := handled_of_handle hw
    refine ⟨handled_inv he hb ?_ hh, fun d hnew hold => ?_⟩
    · intro t q node ht hcond hs hq hd hnode
      exact hfits p hp t ht hcond hs q (mem_of_mem_eraseIdx hq) hd node hnode
    · obtain ⟨_, ho⟩ := promoted_of_handled he hb hh hnew hold
      exact ⟨n, r, p, rfl, hp, ho⟩

lemma advance_safe (h : Inv w) {a : Step} (hfits : Fits w a) (hw : advance me w a = .ok w') :
    Inv w' ∧ OwnToken w a w' := by
  cases a with
  | create d =>
    cases hw
    exact safe_of_noneTaken ⟨findOrCreate_inv h d, findOrCreate_noneTaken w d⟩ _
  | handshake t via r => exact safe_of_noneTaken (inHandshake_safe h hw) _
  | update t =>
    cases hw
    exact safe_of_noneTaken (inUpdate_safe h t) _
  | join node ident via =>
    cases hw
    exact safe_of_noneTaken (inJoin_safe h hfits) _
  | next n r => exact next_safe h hfits hw
  | plain d e r => exact safe_of_noneTaken (plain_safe h hw) _

end

lemma inv_init (me : Dhkey) (own : Token) : Inv (init me own) := by
  have hkeys : ∀ d k, (init me own).keys d = some k → k.state = .inUseIdentity := by
    intro d k hk
    by_cases hd : d = me
    · subst hd
      simp only [init, Function.update_self, some.injEq] at hk
      rw [← hk]
    · simp [init, hd] at hk
  refine ⟨nofun, ?_, ?_⟩
  · intro d k hk hs
    rw [hkeys d k hk] at hs
    cases hs
  · intro d k hk hs
    rw [hkeys d k hk] at hs
    cases hs

/-- Every alias that is taken into use in a run is authenticated with its own token. -/
def OwnTokens (me : Dhkey) (own : Token) (steps : List Step) : Prop :=
  ∀ before a, before ++ [a] <+: steps → ∀ w w',
    run (step me) (.ok (init me own)) before = .ok w → advance me w a = .ok w' → OwnToken w a w'

/-- If join messages have the public key of the aliases they may authenticate, and no alias is set
up with another one meanwhile, an alias is only authenticated with its own token. -/
theorem own_tokens_of_fitting (me : Dhkey) (own : Token) (steps : List Step)
    (hsteps : Admitted (step me) (.ok (init me own)) Admissible steps) :
    OwnTokens me own steps := by
  intro before a hpre w w' hw hw'
  have hinv : Inv w := by
    have hrun := run_inv (fun _ s => ∀ w, s = .ok w → Inv w)
      (by rintro _ ⟨⟩; exact inv_init me own)
      (fun _ s a hs ha w' hw' => by
        obtain ⟨w, rfl, hw'⟩ := bind_eq_ok hw'
        exact (advance_safe (hs w rfl) ha hw').1)
      before (hsteps.of_prefix ((prefix_append before [a]).trans hpre))
    exact hrun w hw
  have hfits : Admissible (.ok w) a := hw ▸ hsteps before a hpre
  exact (advance_safe hinv hfits hw').2

def acceptingReads : Reads := plainReads fun c => decide (c = .isAuthnRequest)

def peerNode : Token := ⟨tokenNode, ofWord 1, [1], ofWord 1, Dhkey.zero, false, true⟩

def joinThrough (via : Dhkey) : List Step :=
  [.handshake (handshakeFrom (ofWord 1) [1]) (ofWord 2) acceptingReads, .next 0 acceptingReads,
    .handshake (handshakeFrom (ofWord 4) [2]) (ofWord 3) acceptingReads, .next 0 acceptingReads,
    .join peerNode none via,
    -- the own identity authenticates the token, and the alias hears of it
    .next 2 acceptingReads,
    .next 3 acceptingReads]

theorem own_tokens_joinThrough :
    Admitted (step Dhkey.zero) (.ok (init Dhkey.zero ownToken)) Admissible
        (joinThrough (ofWord 2)) ∧
      OwnTokens Dhkey.zero ownToken (joinThrough (ofWord 2)) := by
  have hfits : Admitted (step Dhkey.zero) (.ok (init Dhkey.zero ownToken)) Admissible
      (joinThrough (ofWord 2)) := by decide +kernel
  exact ⟨hfits, own_tokens_of_fitting _ _ _ hfits⟩

/-- The alias of the second peer is authenticated with the node token of the first one. -/
theorem replayed_token_authenticates :
    ¬ OwnTokens Dhkey.zero ownToken (joinThrough (ofWord 3)) := by
  intro h
  have hb : (run (step Dhkey.zero) (.ok (init Dhkey.zero ownToken))
      ((joinThrough (ofWord 3)).take 6)).toOption.any (fun w => decide
        ((w.keys (ofWord 3)).map (fun k => (k.state, k.handshakeToken)) =
          some (.inSetupAlias, some (handshakeFrom (ofWord 4) [2])) ∧
        w.pending[3]?.map Pending.joining = some (some peerNode) ∧
        ((advance Dhkey.zero w (.next 3 acceptingReads)).toOption.any fun w' =>
          decide (stateOf (ofWord 3) w' = some .inUseAlias)) = true)) = true := by
    decide +kernel
  obtain ⟨w, hw, hw3⟩ := exists_ok hb
  obtain ⟨hkey, hpen, haft⟩ := of_decide_eq_true hw3
  obtain ⟨w', hw', htaken⟩ := exists_ok haft
  obtain ⟨k, hk, hk'⟩ := map_eq_some_iff.1 hkey
  obtain ⟨hs, hh⟩ := Prod.mk.inj hk'
  obtain ⟨p, hp, hj⟩ := map_eq_some_iff.1 hpen
  have hold : stateOf (ofWord 3) w ≠ some .inUseAlias := by
    rw [stateOf_of_key hk hs]
    decide
  obtain ⟨n, r, p', ha, hp', _, node, k', t, _, _, hnode, _, hk', ht, hpk⟩ :=
    h ((joinThrough (ofWord 3)).take 6) (.next 3 acceptingReads) (prefix_refl _) w w' hw
      hw' (ofWord 3) (of_decide_eq_true htaken) hold
  cases ha
  cases hp.symm.trans hp'
  cases hk.symm.trans hk'
  cases hj.symm.trans hnode
  cases hh.symm.trans ht
  cases hpk

end Neuropil.Key.JoinRuns
