import Neuropil.Key.SessionOwners

namespace Neuropil.Key.SessionRuns

open List Lib.Buffer Lib.Fault Lib.Run
open Dhkey (ofWord)
open Key.Conditions Key.Peers Key.PeerEffects Key.SessionOwners

section

variable {b : Book} {w w' : World} {owner : ℕ → Option Dhkey} {me : Dhkey}

lemma findOrCreate_inv (h : Inv b w owner) (d : Dhkey) : Inv b (w.findOrCreate d) owner := by
  unfold World.findOrCreate
  split
  · exact h
  · exact h.put d _ nofun nofun nofun nofun fun _ => rfl

lemma findOrCreate_sessions (w : World) (d : Dhkey) :
    (w.findOrCreate d).sessions = w.sessions := by
  unfold World.findOrCreate
  split <;> rfl

lemma grows_of_sessions (h : w'.sessions = w.sessions) : Grows w owner w' owner :=
  ⟨fun _ _ h => h, fun n hn => by rwa [h]⟩

lemma delivers_of_no_handshake {p : Pending} {r : Reads}
    (h : ∀ t, p.event.userData.token? = some t → flagCmp t.type tokenHandshake = false) :
    b.Delivers r p := by
  intro t ht hflag
  rw [h t ht] at hflag
  cases hflag

variable (h : Inv b w owner)
include h

lemma inHandshake_inv {t : Token} {via : Dhkey} {r : Reads}
    (ha : b.Agrees (.handshake t via r)) (hw : inHandshake w t via r = .ok w') :
    ∃ owner', Inv b w' owner' ∧ Grows w owner w' owner' := by
  obtain ⟨htype, hpk, hiss, hvia, hwild, hpassive⟩ := ha
  obtain rfl | ⟨w1, hw1, hw⟩ := inHandshake_cases hw
  · exact ⟨owner, h, .refl w' owner⟩
  have hdel : b.Delivers r ⟨t.issuer, handshakeEvent t.issuer via t, none⟩ := by
    rintro _ ⟨⟩ _
    refine ⟨htype, rfl, .inr ⟨hiss, rfl, fun haddr => ?_⟩⟩
    change b.ownerOf via = some t.issuer
    rw [Book.ownerOf, if_pos hvia.address, hpassive haddr]
  obtain ⟨owner', hinv, hg⟩ :=
    handled_inv (findOrCreate_inv h t.issuer) hdel (handled_of_handle hw1)
  have hg : Grows w owner w1 owner' :=
    (grows_of_sessions (findOrCreate_sessions w t.issuer)).trans hg
  obtain rfl | ⟨keys, hkeys, rfl⟩ := hw
  · exact ⟨owner', hinv, hg⟩
  · refine ⟨owner', (findOrCreate_inv hinv via).queue fun p hp r' => ?_,
      hg.trans (grows_of_sessions (findOrCreate_sessions w1 via))⟩
    obtain ⟨d, hd, rfl⟩ := mem_map.1 hp
    have hspk : b.Speaks d t := by
      obtain rfl | rfl := hkeys d hd
      · exact hvia
      · exact hwild
    rintro _ ⟨⟩ _
    exact ⟨htype, rfl, .inl ⟨hspk, hpk, hiss⟩⟩

lemma inUpdate_inv {t : Token} (ha : b.Agrees (.update t)) :
    Inv b (inUpdate w t) owner ∧ Grows w owner (inUpdate w t) owner := by
  obtain ⟨htype, hiss⟩ := ha
  unfold inUpdate
  split_ifs
  · refine ⟨(findOrCreate_inv h t.issuer).queue fun p hp r => ?_,
      grows_of_sessions (findOrCreate_sessions w t.issuer)⟩
    rw [mem_singleton.1 hp]
    rintro _ ⟨⟩ _
    exact ⟨htype, rfl, .inr ⟨hiss, rfl, fun _ => ownerOf_issuer hiss⟩⟩
  · exact ⟨h, .refl w owner⟩

lemma inJoin_inv {node : Token} {ident : Option Token} {via : Dhkey}
    (ha : b.Agrees (.join node ident via)) : Inv b (inJoin me w node ident via) owner ∧
      Grows w owner (inJoin me w node ident via) owner := by
  obtain ⟨hnode, hident⟩ := ha
  obtain hw | ⟨events, hw, he⟩ := inJoin_cases me w node ident via
  · rw [hw]
    exact ⟨h, .refl w owner⟩
  · rw [hw]
    refine ⟨h.queue fun p hp r => delivers_of_no_handshake fun t ht => ?_, grows_of_sessions rfl⟩
    obtain ⟨d, target, rfl⟩ | ⟨d, _, rfl, rfl, _⟩ := he p hp <;> cases ht
    · exact hnode
    · cases ident with
      | none => exact hnode
      | some ident => exact hident ident rfl

lemma advance_inv {a : Step} (ha : b.Agrees a)
    (hw : advance me w a = .ok w') : ∃ owner', Inv b w' owner' ∧ Grows w owner w' owner' := by
  cases a with
  | create d =>
    cases hw
    exact ⟨owner, findOrCreate_inv h d, grows_of_sessions (findOrCreate_sessions w d)⟩
  | handshake t via r => exact inHandshake_inv h ha hw
  | update t =>
    cases hw
    exact ⟨owner, inUpdate_inv h ha⟩
  | join node ident via =>
    cases hw
    exact ⟨owner, inJoin_inv h ha⟩
  | next n r =>
    simp only [advance] at hw
    split at hw
    · cases hw
      exact ⟨owner, h, .refl w owner⟩
    · rename_i p hp
      let w1 : World := { w with pending := w.pending.eraseIdx n }
      have he : Inv b w1 owner :=
        ⟨h.known, h.idle, h.token, h.session, h.bound, h.free,
          fun q hq => h.pending q (mem_of_mem_eraseIdx hq)⟩
      have hd := h.pending p (mem_of_getElem? hp) r
      obtain ⟨owner', hinv, hg⟩ := handled_inv he hd (handled_of_handle hw)
      exact ⟨owner', hinv, hg.owner, hg.session⟩
  | plain d e r =>
    refine handled_inv h (delivers_of_no_handshake fun t ht => ?_) (handled_of_handle hw)
    have hpl := e.plain
    rw [ht, Option.all_some, Bool.and_eq_true] at hpl
    exact Bool.not_eq_true' _ ▸ hpl.2

lemma run_inv_grows {steps : List Step} (hsteps : ∀ a ∈ steps, b.Agrees a)
    (hw : run (step me) (.ok w) steps = .ok w') :
    ∃ owner', Inv b w' owner' ∧ Grows w owner w' owner' := by
  induction steps using reverseRecOn generalizing w' with
  | nil =>
    cases hw
    exact ⟨owner, h, .refl w owner⟩
  | append_singleton before a ih =>
    rw [run_concat] at hw
    obtain ⟨w1, hw1, hw⟩ := bind_eq_ok hw
    obtain ⟨owner1, hinv1, hg1⟩ := ih (fun a ha => hsteps a (mem_append_left _ ha)) hw1
    have hlast := hsteps a (mem_append_right _ (mem_singleton_self a))
    obtain ⟨owner2, hinv2, hg2⟩ := advance_inv hinv1 hlast hw
    exact ⟨owner2, hinv2, hg1.trans hg2⟩

end

/-- A session is never replaced by one derived from the token of another public key. -/
def SessionsKept (me : Dhkey) (own : Token) (steps : List Step) : Prop :=
  ∀ before rest, before ++ rest <+: steps → ∀ w w',
    run (step me) (.ok (init me own)) before = .ok w →
    run (step me) (.ok (init me own)) (before ++ rest) = .ok w' →
    ∀ n pk, w.sessions n = some pk → w'.sessions n = some pk

lemma inv_init (me : Dhkey) (own : Token) {b : Book} (hme : b.isAddress me = false) :
    Inv b (init me own) (fun n => if n = 0 then some me else none) := by
  have hkeys : ∀ d k, (init me own).keys d = some k →
      d = me ∧ k = ⟨.inUseIdentity, keyTypeNode, none, some own, some 0⟩ := by
    intro d k hk
    by_cases hd : d = me
    · subst hd
      simpa [init, eq_comm] using hk
    · simp [init, hd] at hk
  refine ⟨?_, ?_, ?_, nofun, ?_, ?_, nofun⟩
  · intro d k n i hk hn hi
    obtain ⟨rfl, rfl⟩ := hkeys d k hk
    cases hn
    rw [if_pos rfl, ← ownerOf_issuer hme, hi]
  · intro d k n hk hn hi hs
    obtain ⟨rfl, rfl⟩ := hkeys d k hk
    cases hs
  · intro d k hk hs
    obtain ⟨rfl, rfl⟩ := hkeys d k hk
    cases hs
  · intro d k n hk hn
    obtain ⟨rfl, rfl⟩ := hkeys d k hk
    cases hn
    exact Nat.one_pos
  · intro n hn
    rw [if_neg]
    rintro rfl
    exact absurd hn (by simp [init])

/-- If each issuer has one public key, a passive node's address one issuer and no address is an
issuer, then a node's session is replaced only by sessions with the same public key. -/
theorem sessions_kept_of_agreed (me : Dhkey) (own : Token) (b : Book) (hme : b.isAddress me = false)
    (steps : List Step) (hsteps : ∀ a ∈ steps, b.Agrees a) : SessionsKept me own steps := by
  intro before rest hpre w w' hw hw' n pk hpk
  have hall : ∀ a ∈ before ++ rest, b.Agrees a :=
    fun a ha => hsteps a (List.IsPrefix.subset hpre ha)
  obtain ⟨owner, hinv, _⟩ :=
    run_inv_grows (inv_init me own hme) (fun a ha => hall a (mem_append_left _ ha)) hw
  have hrest : run (step me) (.ok w) rest = .ok w' := by
    rw [← hw', run_append, hw]
  obtain ⟨owner', hinv', hg⟩ :=
    run_inv_grows hinv (fun a ha => hall a (mem_append_right _ ha)) hrest
  obtain ⟨i, hi, rfl⟩ := hinv.session n pk hpk
  obtain ⟨pk', hpk'⟩ := Option.isSome_iff_exists.1 (hg.session n (by rw [hpk]; rfl))
  obtain ⟨i', hi', rfl⟩ := hinv'.session n pk' hpk'
  have hsame : i' = i := Option.some.inj (hi'.symm.trans (hg.owner n i hi))
  rw [hpk', hsame]

def refusingReads : Reads := plainReads fun _ => false

def twoHandshakes (first second : Bytes) : List Step :=
  [.handshake (handshakeFrom (ofWord 1) first) (ofWord 2) refusingReads, .next 0 refusingReads,
    .handshake (handshakeFrom (ofWord 1) second) (ofWord 3) refusingReads, .next 0 refusingReads]

def oneKeyBook : Book :=
  ⟨fun d => decide (d = ofWord 2 ∨ d = ofWord 3 ∨ d = ofWord 9), fun _ => [1], fun _ => none⟩

theorem sessions_kept_twoHandshakes :
    (∀ a ∈ twoHandshakes [1] [1], oneKeyBook.Agrees a) ∧
      SessionsKept Dhkey.zero ownToken (twoHandshakes [1] [1]) := by
  have hspk : ∀ d t, oneKeyBook.isAddress d = true → oneKeyBook.Speaks d t :=
    fun d t hd => ⟨hd, nofun⟩
  have ha : ∀ a ∈ twoHandshakes [1] [1], oneKeyBook.Agrees a := by
    simp only [twoHandshakes, forall_mem_cons, not_mem_nil, false_implies, implies_true, and_true]
    refine ⟨⟨rfl, rfl, by decide, hspk _ _ (by decide), hspk _ _ (by decide), nofun⟩, trivial,
      ⟨rfl, rfl, by decide, hspk _ _ (by decide), hspk _ _ (by decide), nofun⟩, trivial⟩
  exact ⟨ha, sessions_kept_of_agreed _ _ oneKeyBook (by decide) _ ha⟩

/-- Whoever names the same issuer takes over the session of its node. -/
theorem session_taken_over : ¬ SessionsKept Dhkey.zero ownToken (twoHandshakes [1] [2]) := by
  intro h
  have hfst : (run (step Dhkey.zero) (.ok (init Dhkey.zero ownToken))
      ((twoHandshakes [1] [2]).take 2)).toOption.any
      (fun w => decide (w.sessions 1 = some [1])) = true := by decide +kernel
  have hsec : (run (step Dhkey.zero) (.ok (init Dhkey.zero ownToken))
      (twoHandshakes [1] [2])).toOption.any
      (fun w => decide (w.sessions 1 = some [2])) = true := by decide +kernel
  obtain ⟨w, hw, hpk⟩ := exists_ok hfst
  obtain ⟨w', hw', hpk'⟩ := exists_ok hsec
  have hkept := h ((twoHandshakes [1] [2]).take 2) ((twoHandshakes [1] [2]).drop 2)
    (by rw [take_append_drop]) w w' hw
    (by rw [take_append_drop]; exact hw') 1 [1] (of_decide_eq_true hpk)
  rw [of_decide_eq_true hpk'] at hkept
  cases hkept

end Neuropil.Key.SessionRuns
