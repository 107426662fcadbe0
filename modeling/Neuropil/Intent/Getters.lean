import Neuropil.Datablock.Objects

namespace Neuropil.Intent.Getters

open List Lib.Buffer Lib.Fault Datablock.Objects

/-- A token of a ledger. `partner_fp` is what np_get_data gives for its attribute "_np.partner_fp";
texts are without their terminators. -/
structure Token where
  issuer : Bytes
  audience : Bytes
  partner_fp : Except DataReturn Bytes
  fingerprint : Dhkey
  state : UInt8
  references : ℕ

/-- The keys of the node, and what the hexadecimal text of a key stands for. -/
structure Node where
  createFromHash : Bytes → Dhkey
  my_identity : Dhkey
  my_node_key : Dhkey

def isAuthorized (t : Token) : Bool := 4 == 4 &&& t.state

def setState (valid : Bool) (t : Token) : Token :=
  { t with state := if valid then t.state ||| 1 else t.state &&& ~~~ 1 }

def refObj (t : Token) : Token := { t with references := t.references + 1 }

def keyOf (data : Bytes) : Dhkey := ⟨fun i => UInt32.ofNat (leVal (slice data (4 * i.val) 4))⟩

variable (node : Node) (valid : ℕ → Bool)

def getPartnerFp (t : Token) : Except Stop Dhkey :=
  match t.partner_fp with
  | .ok data => if data.length = 32 then .ok (keyOf data) else .error .assertion
  | .error .keyNotFound =>
    .ok (if t.issuer = [] then t.fingerprint else node.createFromHash t.issuer)
  | .error _ => .error .assertion

/-- The loop of the getters of one token. The check of the `n`-th token has the answer `valid n`,
`select` holds the tests behind it. -/
def getFirst (select : Token → Except Stop Bool) :
    ℕ → List Token → Except Stop (Option ℕ × List Token)
  | _, [] => .ok (none, [])
  | n, token :: rest =>
    let token := setState (valid n) token
    match if valid n then select token else .ok false with
    | .error e => .error e
    | .ok true => .ok (some n, refObj token :: rest)
    | .ok false => (getFirst select (n + 1) rest).map fun (found, rest) => (found, token :: rest)

variable (sender_dhkey : Dhkey)

def selectSender (t : Token) : Except Stop Bool := do
  let partner_token_dhkey ← getPartnerFp node t
  if sender_dhkey ≠ Dhkey.zero ∧ partner_token_dhkey ≠ sender_dhkey then .ok false
  else .ok (isAuthorized t)

def getSenderToken (ledger : Option (List Token)) : Except Stop (Option ℕ × List Token) :=
  match ledger with
  | none => .ok (none, [])
  | some send_tokens => getFirst valid (selectSender node sender_dhkey) 0 send_tokens

variable (target : Dhkey)

def selectReceiver (t : Token) : Bool :=
  let recvtoken_issuer_key := node.createFromHash t.issuer
  if recvtoken_issuer_key = node.my_identity ∨ recvtoken_issuer_key = node.my_node_key then false
  else if Dhkey.zero ≠ target ∧ recvtoken_issuer_key ≠ target then false
  else isAuthorized t

def getReceiver (recv_tokens : List Token) : Except Stop (Option ℕ × List Token) :=
  getFirst valid (fun t => .ok (selectReceiver node target t)) 0 recv_tokens

def includeToken (audience current_fp : Dhkey) (t : Token) : Bool :=
  audience = node.createFromHash t.issuer || audience = node.createFromHash t.audience ||
    audience = current_fp

/-- The loop of `_np_intent_get_all_receiver`, with the tokens appended to the list. -/
def getAll (audience current_fp : Dhkey) : ℕ → List Token → List ℕ × List Token
  | _, [] => ([], [])
  | n, token :: rest =>
    let token := setState (valid n) token
    let (result_list, rest) := getAll audience current_fp (n + 1) rest
    if valid n && (isAuthorized token && includeToken node audience current_fp token) then
      (n :: result_list, refObj token :: rest)
    else (result_list, token :: rest)

def getAllReceiver (audience current_fp : Dhkey) (recv_tokens : List Token) : List ℕ × List Token :=
  getAll node valid audience current_fp 0 recv_tokens

def passing (wanted : Token → Bool) (n : ℕ) (ledger : List Token) : List ℕ :=
  ((ledger.zipIdx n).filter fun x => valid x.2 && wanted x.1).map Prod.snd

def Gained (returned : List ℕ) (n : ℕ) (ledger after : List Token) : Prop :=
  after.map Token.references = (ledger.zipIdx n).map fun x => x.1.references + returned.count x.2

def ReturnsFirst (wanted : Token → Bool) (n : ℕ) (ledger : List Token)
    (result : Except Stop (Option ℕ × List Token)) : Prop :=
  ∃ after, result = .ok ((passing valid wanted n ledger).head?, after) ∧
    Gained (passing valid wanted n ledger).head?.toList n ledger after

def ReturnsAll (wanted : Token → Bool) (n : ℕ) (ledger : List Token)
    (result : List ℕ × List Token) : Prop :=
  result.1 = passing valid wanted n ledger ∧ Gained result.1 n ledger result.2

def wantedSender (t : Token) : Bool :=
  isAuthorized t && decide (sender_dhkey = Dhkey.zero ∨ getPartnerFp node t = .ok sender_dhkey)

def wantedReceiver (t : Token) : Bool :=
  isAuthorized t && decide (node.createFromHash t.issuer ≠ node.my_identity ∧
    node.createFromHash t.issuer ≠ node.my_node_key ∧
    (target = Dhkey.zero ∨ node.createFromHash t.issuer = target))

def wantedAudience (audience : Dhkey) (t : Token) : Bool :=
  isAuthorized t && decide (audience = node.createFromHash t.issuer ∨
    audience = node.createFromHash t.audience)

lemma isAuthorized_setState (v : Bool) (t : Token) :
    isAuthorized (setState v t) = isAuthorized t := by
  have hset : ∀ b : BitVec 8, 4 &&& (b ||| 1) = 4 &&& b := by decide
  have hclear : ∀ b : BitVec 8, 4 &&& (b &&& ~~~ 1) = 4 &&& b := by decide
  cases v with
  | false => exact congrArg (4 == UInt8.ofBitVec ·) (hclear t.state.toBitVec)
  | true => exact congrArg (4 == UInt8.ofBitVec ·) (hset t.state.toBitVec)

section

variable {valid} {wanted : Token → Bool} {n : ℕ} {token : Token} {rest after : List Token}
  {returned : List ℕ}

lemma passing_cons : passing valid wanted n (token :: rest) =
    if valid n && wanted token then n :: passing valid wanted (n + 1) rest
    else passing valid wanted (n + 1) rest := by
  rw [passing, zipIdx_cons, filter_cons]
  split <;> rfl

lemma le_of_passing {m : ℕ} (h : m ∈ passing valid wanted n rest) : n ≤ m := by
  obtain ⟨x, hx, rfl⟩ := mem_map.1 h
  exact le_snd_of_mem_zipIdx (mem_of_mem_filter hx)

lemma gained_cons_iff {token' : Token} : Gained returned n (token :: rest) (token' :: after) ↔
      token'.references = token.references + returned.count n ∧
        Gained returned (n + 1) rest after := by
  rw [Gained, zipIdx_cons, map_cons, map_cons, cons.injEq]
  rfl

lemma Gained.behind (h : Gained returned (n + 1) rest after) :
    Gained (n :: returned) (n + 1) rest after := by
  rw [Gained, h]
  refine map_congr_left fun x hx => ?_
  have hlt := le_snd_of_mem_zipIdx hx
  rw [count_cons_of_ne (by omega)]

lemma gained_nil : Gained [] n rest rest := by
  rw [Gained]
  induction rest generalizing n with
  | nil => rfl
  | cons token rest ih => rw [zipIdx_cons, map_cons, map_cons, ← ih]; rfl

end

section

variable {valid} {select : Token → Except Stop Bool} {wanted : Token → Bool} {n : ℕ}
  {token : Token} {rest : List Token}

lemma returnsFirst_skip {v : Bool} {result : Except Stop (Option ℕ × List Token)}
    (hnot : (valid n && wanted token) = false) :
    ReturnsFirst valid wanted n (token :: rest)
        (result.map fun r => (r.1, setState v token :: r.2)) ↔
      ReturnsFirst valid wanted (n + 1) rest result := by
  have hcount : (passing valid wanted (n + 1) rest).head?.toList.count n = 0 := by
    refine count_eq_zero.2 fun hn => ?_
    have hle := le_of_passing (mem_of_head? (Option.mem_toList.1 hn))
    omega
  rw [ReturnsFirst, ReturnsFirst, passing_cons, hnot, if_neg Bool.false_ne_true]
  constructor
  · rintro ⟨after, hres, hg⟩
    obtain ⟨⟨found, after'⟩, rfl, heq⟩ := map_eq_ok hres
    cases heq
    exact ⟨after', rfl, (gained_cons_iff.1 hg).2⟩
  · rintro ⟨after, rfl, hg⟩
    exact ⟨_, rfl, gained_cons_iff.2 ⟨by rw [hcount]; rfl, hg⟩⟩

lemma returnsFirst_take {v : Bool} (hw : (valid n && wanted token) = true) :
    ReturnsFirst valid wanted n (token :: rest)
      (.ok (some n, refObj (setState v token) :: rest)) := by
  rw [ReturnsFirst, passing_cons, hw, if_pos rfl]
  refine ⟨_, rfl, gained_cons_iff.2 ⟨?_, gained_nil.behind⟩⟩
  rw [head?_cons, Option.toList_some, count_singleton_self]
  rfl

lemma getFirst_iff (hset : ∀ v t, select (setState v t) = select t)
    (hok : ∀ t b, select t = .ok b → b = wanted t) (n : ℕ) (ledger : List Token) :
    ReturnsFirst valid wanted n ledger (getFirst valid select n ledger) ↔
      ∀ x ∈ ledger.zipIdx n, valid x.2 = true →
        (∃ m ∈ passing valid wanted n ledger, m < x.2) ∨ ∃ b, select x.1 = .ok b := by
  induction ledger generalizing n with
  | nil => exact ⟨fun _ x hx => absurd hx not_mem_nil, fun _ => ⟨[], rfl, gained_nil⟩⟩
  | cons token rest ih =>
    rw [zipIdx_cons, forall_mem_cons, getFirst]
    cases hv : valid n with
    | false =>
      have hnot : (valid n && wanted token) = false := by rw [hv, Bool.false_and]
      rw [if_neg Bool.false_ne_true, passing_cons, hnot, if_neg Bool.false_ne_true, ← ih,
        returnsFirst_skip hnot]
      exact ⟨fun h => ⟨fun h' => absurd h' Bool.false_ne_true, h⟩, fun h => h.2⟩
    | true =>
      rw [if_pos rfl, hset]
      cases hsel : select token with
      | error e =>
        constructor
        · rintro ⟨after, hres, -⟩
          cases hres
        · rintro ⟨hh, -⟩
          obtain ⟨m, hm, hlt⟩ | ⟨b, hb⟩ := hh rfl
          · exact absurd (le_of_passing hm) (by omega)
          · cases hb
      | ok b =>
        have hb := hok token b hsel
        have he : ∃ b', (.ok b : Except Stop Bool) = .ok b' := ⟨b, rfl⟩
        cases b with
        | false =>
          have hnot : (valid n && wanted token) = false := by rw [hv, ← hb]; rfl
          rw [passing_cons, hnot, if_neg Bool.false_ne_true, ← ih]
          exact (returnsFirst_skip hnot).trans ⟨fun h => ⟨fun _ => .inr he, h⟩, fun h => h.2⟩
        | true =>
          have hw : (valid n && wanted token) = true := by rw [hv, ← hb]; rfl
          refine ⟨fun _ => ⟨fun _ => .inr he, fun x hx _ => .inl ⟨n, ?_, ?_⟩⟩,
            fun _ => returnsFirst_take hw⟩
          · rw [passing_cons, hw, if_pos rfl]
            exact mem_cons_self
          · exact le_snd_of_mem_zipIdx hx

end

lemma selectSender_setState (v : Bool) (t : Token) :
    selectSender node sender_dhkey (setState v t) = selectSender node sender_dhkey t := by
  rw [selectSender, isAuthorized_setState]
  rfl

lemma selectReceiver_setState (v : Bool) (t : Token) :
    selectReceiver node target (setState v t) = selectReceiver node target t := by
  rw [selectReceiver, isAuthorized_setState]
  rfl

lemma selectSender_ok {sender_dhkey fp : Dhkey} {t : Token} (h : getPartnerFp node t = .ok fp) :
    selectSender node sender_dhkey t = .ok (wantedSender node sender_dhkey t) := by
  rw [selectSender, wantedSender, h, ok_bind]
  by_cases hzero : sender_dhkey = .zero
  · simp [hzero]
  · by_cases hfp : fp = sender_dhkey <;> simp [hzero, hfp]

lemma selectReceiver_eq (t : Token) :
    selectReceiver node target t = wantedReceiver node target t := by
  rw [selectReceiver, wantedReceiver]
  by_cases hid : node.createFromHash t.issuer = node.my_identity
  · simp [hid]
  · by_cases hkey : node.createFromHash t.issuer = node.my_node_key
    · simp [hkey]
    · by_cases hzero : .zero = target
      · simp [hid, hkey, hzero]
      · by_cases ht : node.createFromHash t.issuer = target
        · subst ht
          simp [hid, hkey, hzero]
        · simp [hid, hkey, hzero, ht, Ne.symm hzero]

variable {valid} in
lemma passing_eq_iff {w w' : Token → Bool} {n : ℕ} {ledger : List Token} :
    passing valid w n ledger = passing valid w' n ledger ↔
      ∀ x ∈ ledger.zipIdx n, valid x.2 = true → w x.1 = w' x.1 := by
  induction ledger generalizing n with
  | nil => exact ⟨fun _ x hx => absurd hx not_mem_nil, fun _ => rfl⟩
  | cons token rest ih =>
    have hnew : ∀ w, n ∉ passing valid w (n + 1) rest := fun w hn =>
      absurd (le_of_passing hn) (by omega)
    rw [zipIdx_cons, forall_mem_cons, ← ih, passing_cons, passing_cons]
    cases valid n <;> cases w token <;> cases w' token <;> simp
    · exact fun h => hnew w (h ▸ mem_cons_self)
    · exact fun h => hnew w' (h ▸ mem_cons_self)

lemma getAll_returns (audience current_fp : Dhkey) (n : ℕ) (ledger : List Token) :
    ReturnsAll valid (fun t => isAuthorized t && includeToken node audience current_fp t) n ledger
      (getAll node valid audience current_fp n ledger) := by
  induction ledger generalizing n with
  | nil => exact ⟨rfl, rfl⟩
  | cons token rest ih =>
    obtain ⟨hlist, hg⟩ := ih (n + 1)
    have hnew : n ∉ (getAll node valid audience current_fp (n + 1) rest).1 := fun hn =>
      absurd (le_of_passing (hlist ▸ hn)) (by omega)
    rw [ReturnsAll, passing_cons, getAll, isAuthorized_setState, ← hlist]
    dsimp only
    have hinc : includeToken node audience current_fp (setState (valid n) token) =
      includeToken node audience current_fp token := rfl
    rw [hinc]
    split
    · refine ⟨rfl, gained_cons_iff.2 ⟨?_, hg.behind⟩⟩
      rw [count_cons_self, count_eq_zero.2 hnew]
      rfl
    · refine ⟨rfl, gained_cons_iff.2 ⟨?_, hg⟩⟩
      rw [count_eq_zero.2 hnew]
      rfl

lemma include_eq_iff {audience current_fp : Dhkey} {t : Token} :
    (isAuthorized t && includeToken node audience current_fp t) = wantedAudience node audience t ↔
      (audience = current_fp → isAuthorized t = true → wantedAudience node audience t = true) := by
  rw [includeToken, wantedAudience]
  cases isAuthorized t
  · simp
  · by_cases hfp : audience = current_fp <;> simp [hfp]

/-- The getter of a sender is right exactly if no valid token up to the wanted one has an attribute
"_np.partner_fp" that is no key. The getter of all receivers is right exactly if, asked for the
fingerprint of the subject, it has only authorized tokens of that issuer or audience. -/
theorem getters_iff (sender_dhkey target audience current_fp : Dhkey)
    (send_tokens recv_tokens : List Token) :
    (ReturnsFirst valid (wantedSender node sender_dhkey) 0 send_tokens
        (getSenderToken node valid sender_dhkey (some send_tokens)) ↔
      ∀ x ∈ send_tokens.zipIdx, valid x.2 = true →
        (∃ m ∈ passing valid (wantedSender node sender_dhkey) 0 send_tokens, m < x.2) ∨
          ∃ fp, getPartnerFp node x.1 = .ok fp) ∧
    ReturnsFirst valid (wantedReceiver node target) 0 recv_tokens
      (getReceiver node valid target recv_tokens) ∧
    (ReturnsAll valid (wantedAudience node audience) 0 recv_tokens
        (getAllReceiver node valid audience current_fp recv_tokens) ↔
      (audience = current_fp → ∀ x ∈ recv_tokens.zipIdx, valid x.2 = true →
        isAuthorized x.1 = true → wantedAudience node audience x.1 = true)) := by
  refine ⟨?_, ?_, ?_⟩
  · have he : ∀ t, (∃ b, selectSender node sender_dhkey t = .ok b) ↔
        ∃ fp, getPartnerFp node t = .ok fp := by
      intro t
      constructor
      · rintro ⟨b, hb⟩
        obtain ⟨fp, hfp, -⟩ := bind_eq_ok hb
        exact ⟨fp, hfp⟩
      · rintro ⟨fp, hfp⟩
        exact ⟨_, selectSender_ok node hfp⟩
    rw [getSenderToken, getFirst_iff (selectSender_setState node sender_dhkey)]
    · simp only [he]
    · intro t b hb
      obtain ⟨fp, hfp, -⟩ := bind_eq_ok hb
      rw [selectSender_ok node hfp] at hb
      exact (Except.ok.inj hb).symm
  · refine (getFirst_iff (fun v t => ?_) (fun t b hb => ?_) 0 recv_tokens).2 fun x _ _ =>
      .inr ⟨_, rfl⟩
    · rw [selectReceiver_setState]
    · rw [selectReceiver_eq] at hb
      exact (Except.ok.inj hb).symm
  · obtain ⟨hlist, hg⟩ := getAll_returns node valid audience current_fp 0 recv_tokens
    rw [getAllReceiver, ReturnsAll, and_iff_left hg, hlist, passing_eq_iff]
    constructor
    · intro h heq x hx hv ha
      exact (include_eq_iff node).1 (h x hx hv) heq ha
    · intro h x hx hv
      exact (include_eq_iff node).2 fun heq ha => h heq x hx hv ha

def sampleNode : Node := ⟨fun text => .ofWord text.length.toUInt32, .ofWord 1, .ofWord 2⟩

def shortPartner : Token := ⟨[97, 97, 97], [], .ok [7, 0, 0, 0], .zero, 5, 1⟩

/-- A valid token with too short a partner stops the node, although no sender is requested. The
receivers for the fingerprint of a subject include a token of another issuer and audience. -/
theorem short_partner_aborts :
    ¬ ReturnsFirst (fun _ => true) (wantedSender sampleNode .zero) 0 [shortPartner]
        (getSenderToken sampleNode (fun _ => true) .zero (some [shortPartner])) ∧
      ¬ ReturnsAll (fun _ => true) (wantedAudience sampleNode (.ofWord 9)) 0 [shortPartner]
        (getAllReceiver sampleNode (fun _ => true) (.ofWord 9) (.ofWord 9) [shortPartner]) := by
  constructor
  · rintro ⟨after, hres, -⟩
    cases hres
  · rintro ⟨hlist, -⟩
    exact absurd hlist (by decide)

end Neuropil.Intent.Getters
