import Neuropil.Key.PeerEffects
import Neuropil.Lib.Table

namespace Neuropil.Key.SessionOwners

open Function Option Lib.Buffer Lib.Table Key.Conditions Key.Peers Key.PeerEffects

/-- What peers can agree on: which keys stand for addresses, the public key of each issuer, and the
issuer behind the address of a passive node. -/
structure Book where
  isAddress : Dhkey → Bool
  publicKeyOf : Dhkey → Bytes
  passiveIssuer : Dhkey → Option Dhkey

def Book.ownerOf (b : Book) (d : Dhkey) : Option Dhkey :=
  if b.isAddress d then b.passiveIssuer d else some d

structure Book.Speaks (b : Book) (d : Dhkey) (t : Token) : Prop where
  address : b.isAddress d = true
  issuer : ∀ i, b.passiveIssuer d = some i → t.issuer = i

/-- The token of an event, if a handshake token, is one that the key may get. -/
def Book.Delivers (b : Book) (r : Reads) (p : Pending) : Prop :=
  ∀ t, p.event.userData.token? = some t → flagCmp t.type tokenHandshake = true →
    t.type = tokenHandshake ∧ p.event.sourceDhkey = p.key ∧
      (b.Speaks p.key t ∧ t.publicKey = b.publicKeyOf t.issuer ∧ b.isAddress t.issuer = false ∨
        b.isAddress p.key = false ∧ t.issuer = p.key ∧
          (r.address = some true → b.ownerOf p.event.targetDhkey = some p.key))

/-- The messages do not contradict what was agreed on. -/
def Book.Agrees (b : Book) : Step → Prop
  | .handshake t via r =>
    t.type = tokenHandshake ∧ t.publicKey = b.publicKeyOf t.issuer ∧
      b.isAddress t.issuer = false ∧ b.Speaks via t ∧ b.Speaks r.wildcard t ∧
      (r.address = some true → b.passiveIssuer via = some t.issuer)
  | .update t => t.type = tokenHandshake ∧ b.isAddress t.issuer = false
  | .join node ident _ => flagCmp node.type tokenHandshake = false ∧
      ∀ t, ident = some t → flagCmp t.type tokenHandshake = false
  | _ => True

structure Inv (b : Book) (w : World) (owner : ℕ → Option Dhkey) : Prop where
  known : ∀ d k n i, w.keys d = some k → k.nodeinfo = some n → b.ownerOf d = some i →
    owner n = some i
  idle : ∀ d k n, w.keys d = some k → k.nodeinfo = some n → b.ownerOf d = none →
    k.state = .unused → owner n = none ∧
      ∀ d' k', w.keys d' = some k' → k'.nodeinfo = some n → d' = d
  token : ∀ d k, w.keys d = some k → k.state = .unused → k.handshakeToken = none
  session : ∀ n pk, w.sessions n = some pk → ∃ i, owner n = some i ∧ pk = b.publicKeyOf i
  bound : ∀ d k n, w.keys d = some k → k.nodeinfo = some n → n < w.next
  free : ∀ n, w.next ≤ n → owner n = none
  pending : ∀ p ∈ w.pending, ∀ r, b.Delivers r p

structure Grows (w : World) (owner : ℕ → Option Dhkey) (w' : World) (owner' : ℕ → Option Dhkey) :
    Prop where
  owner : ∀ n i, owner n = some i → owner' n = some i
  session : ∀ n, (w.sessions n).isSome → (w'.sessions n).isSome

lemma Grows.refl (w : World) (owner : ℕ → Option Dhkey) : Grows w owner w owner :=
  ⟨fun _ _ h => h, fun _ h => h⟩

lemma Grows.trans {w1 w2 w3 : World} {o1 o2 o3 : ℕ → Option Dhkey} (h : Grows w1 o1 w2 o2)
    (h' : Grows w2 o2 w3 o3) : Grows w1 o1 w3 o3 :=
  ⟨fun n i hi => h'.owner n i (h.owner n i hi), fun n hn => h'.session n (h.session n hn)⟩

variable {k : PeerKey} {n : ℕ} {d : Dhkey}

section

variable {b : Book} {w : World} {owner : ℕ → Option Dhkey}

section

variable (h : Inv b w owner)
include h

lemma Inv.put (d : Dhkey) (k : PeerKey) (hb : ∀ n, k.nodeinfo = some n → n < w.next)
    (hknown : ∀ n i, k.nodeinfo = some n → b.ownerOf d = some i → owner n = some i)
    (hidle : ∀ n, k.nodeinfo = some n → b.ownerOf d = none → k.state = .unused →
      owner n = none ∧ ∀ d' k', w.keys d' = some k' → k'.nodeinfo = some n → d' = d)
    (hshare : ∀ n, k.nodeinfo = some n → owner n ≠ none ∨
      (w.keys d).bind PeerKey.nodeinfo = some n ∨
      ∀ d' k', w.keys d' = some k' → k'.nodeinfo ≠ some n)
    (htok : k.state = .unused → k.handshakeToken = none) : Inv b (w.put d k) owner := by
  refine ⟨?_, ?_, ?_, h.session, ?_, h.free, h.pending⟩
  · intro d' k' n i hk' hn hi
    obtain ⟨rfl, rfl⟩ | ⟨_, hk'⟩ := keys_put_cases hk'
    · exact hknown n i hn hi
    · exact h.known d' k' n i hk' hn hi
  · intro d' k' n hk' hn hi hs
    obtain ⟨rfl, rfl⟩ | ⟨hd, hkd⟩ := keys_put_cases hk'
    · obtain ⟨ho, hsole⟩ := hidle n hn hi hs
      refine ⟨ho, fun d2 k2 hk2 hn2 => ?_⟩
      obtain ⟨hd2, _⟩ | ⟨_, hk2⟩ := keys_put_cases hk2
      · exact hd2
      · exact hsole d2 k2 hk2 hn2
    · obtain ⟨ho, hsole⟩ := h.idle d' k' n hkd hn hi hs
      refine ⟨ho, fun d2 k2 hk2 hn2 => ?_⟩
      obtain ⟨rfl, rfl⟩ | ⟨_, hk2⟩ := keys_put_cases hk2
      · -- the changed key cannot have got the node of an idle one
        obtain hsome | hold | hnew := hshare n hn2
        · exact absurd ho hsome
        · obtain ⟨k0, hk0, hn0⟩ := bind_eq_some_iff.1 hold
          exact hsole d2 k0 hk0 hn0
        · exact absurd hn (hnew d' k' hkd)
      · exact hsole d2 k2 hk2 hn2
  · intro d' k' hk' hs
    obtain ⟨rfl, rfl⟩ | ⟨_, hk'⟩ := keys_put_cases hk'
    · exact htok hs
    · exact h.token d' k' hk' hs
  · intro d' k' n hk' hn
    obtain ⟨rfl, rfl⟩ | ⟨_, hk'⟩ := keys_put_cases hk'
    · exact hb n hn
    · exact h.bound d' k' n hk' hn

lemma Inv.remove (d : Dhkey) : Inv b { w with keys := update w.keys d none } owner := by
  have hkeys : ∀ d' k', update w.keys d none d' = some k' → w.keys d' = some k' :=
    fun _ _ hk' => (mem_of_clear hk').1
  refine ⟨?_, ?_, ?_, h.session, ?_, h.free, h.pending⟩
  · exact fun d' k' n i hk' => h.known d' k' n i (hkeys d' k' hk')
  · intro d' k' n hk' hn hi hs
    obtain ⟨ho, hsole⟩ := h.idle d' k' n (hkeys d' k' hk') hn hi hs
    exact ⟨ho, fun d2 k2 hk2 => hsole d2 k2 (hkeys d2 k2 hk2)⟩
  · exact fun d' k' hk' => h.token d' k' (hkeys d' k' hk')
  · exact fun d' k' n hk' => h.bound d' k' n (hkeys d' k' hk')

lemma Inv.owner_next : owner w.next = none := h.free w.next le_rfl

lemma Inv.not_next (hk : w.keys d = some k) :
    k.nodeinfo ≠ some w.next := fun hn => lt_irrefl _ (h.bound d k _ hk hn)

omit h in
lemma owner_update {m : ℕ} {i : Dhkey} (hn : owner n = none) (hm : owner m = some i)
    (o : Option Dhkey) : update owner n o m = some i := by
  have hne : m ≠ n := by
    rintro rfl
    rw [hn] at hm
    cases hm
  rwa [update_of_ne hne]

lemma Inv.setOwner {next : ℕ} (ho : owner n = none)
    (hall : ∀ d k, w.keys d = some k → k.nodeinfo = some n →
      b.ownerOf d = none ∧ k.state ≠ .unused) (hn : n < next) (hnext : w.next ≤ next)
    (o : Option Dhkey) : Inv b { w with next := next } (update owner n o) := by
  refine ⟨?_, ?_, h.token, ?_, ?_, ?_, h.pending⟩
  · intro d k m j hk hm hj
    exact owner_update ho (h.known d k m j hk hm hj) o
  · intro d k m hk hm hi hs
    by_cases hmn : m = n
    · subst hmn
      exact absurd hs (hall d k hk hm).2
    · rw [update_of_ne hmn]
      exact h.idle d k m hk hm hi hs
  · intro m pk hpk
    obtain ⟨j, hj, hpk⟩ := h.session m pk hpk
    exact ⟨j, owner_update ho hj o, hpk⟩
  · exact fun d k m hk hm => (h.bound d k m hk hm).trans_le hnext
  · intro m hm
    rw [update_of_ne (hn.trans_le hm).ne']
    exact h.free m (hnext.trans hm)

omit h in
lemma grows_setOwner (ho : owner n = none) (o : Option Dhkey) {w' : World}
    (hw : ∀ m, (w.sessions m).isSome → (w'.sessions m).isSome) :
    Grows w owner w' (update owner n o) :=
  ⟨fun _ _ hi => owner_update ho hi o, hw⟩

lemma Inv.putNew (d : Dhkey) (k : PeerKey) (o : Option Dhkey)
    (hknown : ∀ i, b.ownerOf d = some i → o = some i)
    (hidle : b.ownerOf d = none → k.state = .unused → o = none)
    (htok : k.state = .unused → k.handshakeToken = none) :
    Inv b (w.putNew d k) (update owner w.next o) := by
  have ha := h.setOwner h.owner_next (fun d k hk hn => absurd hn (h.not_next hk))
    (Nat.lt_succ_self _) (Nat.le_succ _) o
  refine ha.put d { k with nodeinfo := some w.next } ?_ ?_ ?_ ?_ htok
  · rintro n hn
    cases hn
    exact Nat.lt_succ_self _
  · rintro n i hn hi
    cases hn
    rw [update_self]
    exact hknown i hi
  · rintro n hn hi hs
    cases hn
    rw [update_self]
    exact ⟨hidle hi hs, fun d' k' hk' hn' => absurd hn' (h.not_next hk')⟩
  · rintro n hn
    cases hn
    exact .inr (.inr fun d' k' hk' => h.not_next hk')

lemma Inv.derive {t : Token} (ht : k.handshakeToken = some t)
    (ho : owner n = some t.issuer) (hpk : t.publicKey = b.publicKeyOf t.issuer) :
    Inv b (derive w n k) owner := by
  refine ⟨h.known, h.idle, h.token, ?_, h.bound, h.free, h.pending⟩
  intro m pk hm
  rw [derive_sessions, ht] at hm
  by_cases hmn : m = n
  · subst hmn
    rw [update_self, map_some, some.injEq] at hm
    exact ⟨t.issuer, ho, hm.symm.trans hpk⟩
  · rw [update_of_ne hmn] at hm
    exact h.session m pk hm

end

lemma grows_derive (hk : k.handshakeToken.isSome) (n : ℕ) {w' : World}
    (hw : w'.sessions = w.sessions) : Grows w owner (derive w' n k) owner := by
  refine ⟨fun _ _ h => h, fun m hm => ?_⟩
  rw [derive_sessions]
  by_cases hmn : m = n
  · subst hmn
    rw [update_self, isSome_map]
    exact hk
  · rw [update_of_ne hmn, hw]
    exact hm

lemma Inv.queue (h : Inv b w owner) {events : List Pending}
    (hev : ∀ p ∈ events, ∀ r, b.Delivers r p) : Inv b (w.queue events) owner := by
  refine ⟨h.known, h.idle, h.token, h.session, h.bound, h.free, fun p hp => ?_⟩
  obtain hp | hp := List.mem_append.1 hp
  · exact h.pending p hp
  · exact hev p hp

end

variable {b : Book} {w w' : World} {owner : ℕ → Option Dhkey} {p : Pending} {r : Reads} {t : Token}

lemma issuer_of_node (ht : p.event.userData.token? = some t) (htype : t.type = tokenHandshake)
    (hsrc : p.event.sourceDhkey = p.key)
    (hcond : isNodeHandshakeToken p.event = true ∨ isNodeToken p.event = true) :
    t.issuer = p.key := by
  obtain hcond | hcond := hcond
  · simp only [isNodeHandshakeToken, tokenIn, ht] at hcond
    split_ifs at hcond
    · simp only [any_some, Bool.and_eq_true, decide_eq_true_eq] at hcond
      exact hcond.1.2.trans hsrc
    · cases hcond
  · simp only [isNodeToken, tokenIn, ht] at hcond
    split_ifs at hcond
    · simp only [any_some, htype] at hcond
      cases hcond
    · cases hcond

lemma request_type (ht : p.event.userData.token? = some t)
    (hcond : isAuthnRequest p.event = true) : t.type ≠ tokenHandshake := by
  rintro htype
  simp only [isAuthnRequest, tokenIn, ht, Bool.and_eq_true] at hcond
  obtain ⟨_, hcond⟩ := hcond
  split_ifs at hcond
  · simp only [any_some, htype, Bool.and_eq_true] at hcond
    cases hcond.1
  · cases hcond

lemma speaks_of_alias (hp : b.Delivers r p) (ht : p.event.userData.token? = some t)
    (hcond : isAliasHandshakeToken p.event = true) :
    b.Speaks p.key t ∧ t.publicKey = b.publicKeyOf t.issuer ∧ b.isAddress t.issuer = false := by
  obtain ⟨_, ht', htype, hiss⟩ := token_of_isAliasHandshakeToken hcond
  cases ht.symm.trans ht'
  obtain ⟨_, hsrc, hspk | ⟨_, hown, _⟩⟩ := hp t ht (htype ▸ flagCmp_self _)
  · exact hspk
  · exact absurd (hown.trans hsrc.symm) hiss

lemma Book.Speaks.issuer_eq (h : b.Speaks d t) {i : Dhkey}
    (hi : b.ownerOf d = some i) : t.issuer = i := by
  rw [Book.ownerOf, if_pos h.address] at hi
  exact h.issuer i hi

lemma ownerOf_issuer (h : b.isAddress d = false) : b.ownerOf d = some d := by
  simp [Book.ownerOf, h]

section

variable (h : Inv b w owner) (hk : w.keys p.key = some k) (hs : k.state = .unused)
include h hk hs

lemma aliased_token (t : Token) (n : ℕ) : (aliased k t n).handshakeToken = some t := by
  simp [aliased, h.token p.key k hk hs]

lemma owner_of_session (hspk : b.Speaks p.key t) (ha : b.isAddress t.issuer = false)
    (hn : (w.keys t.issuer).bind PeerKey.nodeinfo = some n ∨
      w.keys t.issuer = none ∧ k.nodeinfo = some n) :
    owner n = some t.issuer ∨ k.nodeinfo = some n ∧ b.ownerOf p.key = none ∧ owner n = none ∧
      ∀ d' k', w.keys d' = some k' → k'.nodeinfo = some n → d' = p.key := by
  obtain hn | ⟨_, hn⟩ := hn
  · obtain ⟨k2, hk2, hn2⟩ := bind_eq_some_iff.1 hn
    exact .inl (h.known _ k2 n _ hk2 hn2 (ownerOf_issuer ha))
  · cases hi : b.ownerOf p.key with
    | none => exact .inr ⟨hn, rfl, h.idle p.key k n hk hn hi hs⟩
    | some i =>
      rw [hspk.issuer_eq hi]
      exact .inl (h.known p.key k n i hk hn hi)

end

lemma session_inv (h : Inv b w owner) (hp : b.Delivers r p) (hk : w.keys p.key = some k)
    (hs : k.state = .unused) (ht : p.event.userData.token? = some t)
    (hcond : isAliasHandshakeToken p.event = true)
    (hn : (w.keys t.issuer).bind PeerKey.nodeinfo = some n ∨
      w.keys t.issuer = none ∧ k.nodeinfo = some n) :
    ∃ owner', Inv b (derive (w.put p.key (aliased k t n)) n (aliased k t n)) owner' ∧
      Grows w owner (derive (w.put p.key (aliased k t n)) n (aliased k t n)) owner' := by
  obtain ⟨hspk, hpk, ha⟩ := speaks_of_alias hp ht hcond
  have htok := aliased_token h hk hs t n
  have hcase := owner_of_session h hk hs hspk ha hn
  have hb : n < w.next := by
    obtain hn | ⟨_, hn⟩ := hn
    · obtain ⟨k2, hk2, hn2⟩ := bind_eq_some_iff.1 hn
      exact h.bound _ k2 n hk2 hn2
    · exact h.bound _ k n hk hn
  have hput : Inv b (w.put p.key (aliased k t n)) owner := by
    refine h.put p.key _ ?_ ?_ (fun _ _ _ hs => by cases hs) ?_ (fun hs => by cases hs)
    · rintro m hm
      cases hm
      exact hb
    · rintro m i hm hi
      cases hm
      obtain ho | ⟨_, hnone, _⟩ := hcase
      · rwa [← hspk.issuer_eq hi]
      · rw [hnone] at hi
        cases hi
    · rintro m hm
      cases hm
      obtain ho | ⟨hn, _⟩ := hcase
      · exact .inl (by simp [ho])
      · exact .inr (.inl (by rw [hk, bind_some, hn]))
  have hg : Grows w owner (derive (w.put p.key (aliased k t n)) n (aliased k t n)) owner :=
    grows_derive (by rw [htok]; rfl) n rfl
  obtain ho | ⟨_, hnone, ho, hsole⟩ := hcase
  · exact ⟨owner, hput.derive htok ho hpk, hg⟩
  · -- only this alias has the node, and it does not wait with it any more
    have hass := hput.setOwner ho (fun d k' hk' hn' => by
      obtain ⟨rfl, rfl⟩ | ⟨hd, hk'⟩ := keys_put_cases hk'
      · exact ⟨hnone, nofun⟩
      · exact absurd (hsole d k' hk' hn') hd) hb le_rfl (some t.issuer)
    exact ⟨_, hass.derive htok (update_self _ _ _) hpk, grows_setOwner ho _ hg.session⟩

lemma handled_inv (h : Inv b w owner) (hp : b.Delivers r p) (hw : Handled p r w w') :
    ∃ owner', Inv b w' owner' ∧ Grows w owner w' owner' := by
  cases hw with
  | same => exact ⟨owner, h, .refl w owner⟩
  | removed => exact ⟨owner, h.remove p.key, fun _ _ h => h, fun _ h => h⟩
  | moved k k' hk hm hn =>
    refine ⟨owner, h.put p.key k' ?_ ?_ ?_ ?_ ?_, fun _ _ h => h, fun _ h => h⟩
    · exact fun n hn' => h.bound p.key k n hk (hn ▸ hn')
    · exact fun n i hn' hi => h.known p.key k n i hk (hn ▸ hn') hi
    · exact fun n hn' hi hs => h.idle p.key k n hk (hn ▸ hn') hi (hm.unused hs).1
    · intro n hn'
      rw [hk, bind_some, ← hn]
      exact .inr (.inl hn')
    · intro hs
      obtain ⟨hs, htoken⟩ := hm.unused hs
      exact htoken.trans (h.token p.key k hk hs)
  | fresh k k' hk hm hn =>
    refine ⟨_, h.putNew p.key k' (b.ownerOf p.key) (fun i hi => hi) (fun hi _ => hi) ?_,
      grows_setOwner h.owner_next _ fun _ hm => hm⟩
    intro hs
    obtain ⟨hs, htoken⟩ := hm.unused hs
    exact htoken.trans (h.token p.key k hk hs)
  | taken k k' t n hk hm hs ht hflag hcond hpassive hn hn' =>
    obtain ⟨htype, hsrc, hcase⟩ := hp t ht hflag
    have hiss := issuer_of_node ht htype hsrc hcond
    obtain ⟨hspk, _, haddr⟩ | ⟨haddr, _, htar⟩ := hcase
    · rw [hiss, hspk.address] at haddr
      cases haddr
    · -- the node of the alias belongs to this issuer already
      obtain ⟨k2, hk2, hn2⟩ := bind_eq_some_iff.1 hn
      have hown : owner n = some p.key := h.known _ k2 n _ hk2 hn2 (htar hpassive)
      refine ⟨owner, h.put p.key k' ?_ ?_ ?_ ?_ ?_, fun _ _ h => h, fun _ h => h⟩
      · intro m hm'
        cases hn'.symm.trans hm'
        exact h.bound _ k2 n hk2 hn2
      · intro m i hm' hi
        cases hn'.symm.trans hm'
        rwa [← hi, ownerOf_issuer haddr]
      · exact fun _ _ _ hs' => absurd hs' hs
      · intro m hm'
        cases hn'.symm.trans hm'
        exact .inl (by simp [hown])
      · exact fun hs' => absurd hs' hs
  | session k t n hk hs ht hcond hn =>
    exact session_inv h hp hk hs ht hcond hn
  | freshSession k t hk hs ht hcond hn =>
    obtain ⟨hspk, hpk, haddr⟩ := speaks_of_alias hp ht hcond
    have htoken := aliased_token h hk hs t w.next
    have hinv := h.putNew p.key (aliased k t w.next) (some t.issuer)
      (fun i hi => by rw [hspk.issuer_eq hi]) (fun _ hs => by cases hs) (fun hs => by cases hs)
    refine ⟨_, hinv.derive htoken (update_self _ _ _) hpk, ?_⟩
    have hgr : Grows w owner (derive (w.putNew p.key (aliased k t w.next)) w.next _) owner :=
      grows_derive (by rw [htoken]; rfl) w.next rfl
    exact grows_setOwner h.owner_next _ hgr.session
  | queued t events ht hcond hev =>
    refine ⟨owner, h.queue fun q hq r' tok htok hflag => ?_, fun _ _ h => h, fun _ h => h⟩
    obtain hnull | ⟨_, hevent, _⟩ := hev q hq
    · rw [hnull] at htok
      cases htok
    · -- the token of an authentication is no handshake token
      rw [hevent] at htok
      cases htok
      exact absurd (hp t ht hflag).1 (request_type ht hcond)

end Neuropil.Key.SessionOwners
