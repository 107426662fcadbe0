import Neuropil.Pheromone.Backing
import Neuropil.Pheromone.Filling

namespace Neuropil.Pheromone.Locking

open Function List Lib.Fault Bloom.Filter Pheromone.Peers Pheromone.Table Pheromone.Accounting
  Pheromone.Backing Pheromone.Filling

/-- How the block under the lock is left: at its end, or by a return statement. -/
inductive Exit
  | done (ret : Bool)
  | returned (ret : Bool)

/-- What a call leaves, and how often the thread then holds the lock of the module. -/
structure Outcome where
  table : PheromoneTable
  ret : Bool
  held : ℕ

/-- `_LOCK_MODULE` is a loop of one round that takes the lock in its condition and gives it back in
its last expression, which a return never comes to. -/
def lockModule (held : ℕ) : PheromoneTable × Exit → Outcome
  | (table, .done ret) => ⟨table, ret, held⟩
  | (table, .returned ret) => ⟨table, ret, held + 1⟩

variable (debug : Bool)

def inhaleBlock (me : Dhkey) (now : ℕ → ℚ) (intent : Intent) (scent : NeuropilBloom)
    (pheromones : List PheromoneSlot) : Except Fault (Entry × Exit) := do
  let (pheromones, top, update_filter) ← inhaleLoop me now intent scent 1 create false pheromones
  let i := pheromones.length + 1
  if i < 32 then
    if update_filter then return (⟨top, pheromones⟩, .done true)
    else
      let top ← unionChecked top scent
      let bloom ← unionChecked create scent
      return (⟨top, pheromones ++ [newPheromone me (now i) intent bloom]⟩, .done true)
  else if debug then .error .insertionIndex
  else return (⟨top, pheromones⟩, .returned false)

def inhaleLockedAt (me : Dhkey) (now : ℕ → ℚ) (held : ℕ) (table : PheromoneTable)
    (intent : Intent) (scent : NeuropilBloom) : Except Fault Outcome :=
  if intent.pos = 0 then .error .position
  else if h : intent.pos.natAbs - 1 < 257 then do
    let index : Fin 257 := ⟨intent.pos.natAbs - 1, h⟩
    let (entry, exit) ← inhaleBlock debug me now intent scent (pheromonesIn table index)
    return lockModule held (update table index (some entry), exit)
  else .error .index

def scentOf (intent : Intent) : Option NeuropilBloom :=
  match intent.subject, intent.subj_bloom with
  | none, none => none
  | some subject, _ => some (scent subject)
  | none, some bloom => some bloom

def inhaleLocked (me : Dhkey) (now : ℕ → ℚ) (held : ℕ) (table : PheromoneTable)
    (intent : Intent) : Except Fault Outcome :=
  match scentOf intent with
  | none => .ok ⟨table, false, held⟩
  | some scent => inhaleLockedAt debug me now held table intent scent

def Exit.ret : Exit → Bool
  | .done ret | .returned ret => ret

lemma inhaleBlock_eq (me : Dhkey) (now : ℕ → ℚ) (intent : Intent)
    (scent : NeuropilBloom) (pheromones : List PheromoneSlot) :
    (inhaleBlock debug me now intent scent pheromones).map (fun r => (r.1, r.2.ret)) =
      inhaleEntry debug me now intent scent pheromones := by
  simp only [inhaleBlock, inhaleEntry]
  cases inhaleLoop me now intent scent 1 create false pheromones with
  | error f => rfl
  | ok r =>
    obtain ⟨ps, top, updated⟩ := r
    simp only [ok_bind]
    split_ifs
    · rfl
    · cases unionChecked top scent with
      | error f => rfl
      | ok t => cases unionChecked create scent <;> rfl
    · rfl
    · rfl

lemma inhaleLocked_eq (me : Dhkey) (now : ℕ → ℚ) (held : ℕ)
    (table : PheromoneTable) (intent : Intent) :
    (inhaleLocked debug me now held table intent).map (fun o => (o.table, o.ret)) =
      inhale debug me now table intent := by
  have hat : ∀ s, (inhaleLockedAt debug me now held table intent s).map
      (fun o => (o.table, o.ret)) = inhaleAt debug me now table intent s := by
    intro s
    rw [inhaleLockedAt, inhaleAt]
    split_ifs with hpos hidx
    · rfl
    · simp only [← inhaleBlock_eq, pheromonesIn]
      cases inhaleBlock debug me now intent s _ with
      | error f => rfl
      | ok r =>
        obtain ⟨entry, exit⟩ := r
        cases exit <;> rfl
    · rfl
  rw [inhaleLocked, inhale, scentOf]
  cases intent.subject with
  | some subject => exact hat _
  | none =>
    cases intent.subj_bloom with
    | none => rfl
    | some bloom => exact hat _

def Carries (intent : Intent) (scent : NeuropilBloom) (p : PheromoneSlot) : Prop :=
  intersectTest p.subj_bloom scent = true ∧
    ((intent.pos < 0 ∧ intent.sender ≠ Dhkey.zero) ∨
      (intent.pos > 0 ∧ intent.receiver ≠ Dhkey.zero))

lemma carries_iff (intent : Intent) (scent : NeuropilBloom) (p : PheromoneSlot) :
    Carries intent scent p ↔ intersectTest p.subj_bloom scent = true ∧ side intent ≠ none := by
  have hside := exists_side intent fun _ => True
  simp only [and_true] at hside
  rw [Carries, ← hside]
  cases side intent <;> simp

variable (me : Dhkey)

def Inserts (now : ℚ) (peer : Dhkey) (list : List Details) : Prop :=
  (insertDhkey me now peer (removeDhkey peer list).2).length = (removeDhkey peer list).2.length + 1

def Refreshes (now : ℚ) (intent : Intent) (scent : NeuropilBloom) (p : PheromoneSlot) : Prop :=
  intersectTest p.subj_bloom scent = true ∧
    ((intent.pos < 0 ∧ intent.sender ≠ Dhkey.zero ∧ Inserts me now intent.sender p.send_list) ∨
      (intent.pos > 0 ∧ intent.receiver ≠ Dhkey.zero ∧ Inserts me now intent.receiver p.recv_list))

def PeerTaken (now : ℕ → ℚ) (table table' : PheromoneTable) (intent : Intent) : Prop :=
  ∃ scent, scentOf intent = some scent ∧ ∃ index : Fin 257, index.val + 1 = intent.pos.natAbs ∧
    ((∃ i p, (pheromonesIn table index)[i]? = some p ∧ Refreshes me (now (i + 1)) intent scent p) ∨
      (pheromonesIn table index).length < (pheromonesIn table' index).length)

/-- The entry has a free place, and not all peers that the call refreshes are tied. -/
def Roomy (table : PheromoneTable) (intent : Intent) : Prop :=
  ∀ scent, scentOf intent = some scent → ∀ index : Fin 257, index.val + 1 = intent.pos.natAbs →
    (pheromonesIn table index).length + 1 < 32 ∧
    ((∃ p ∈ pheromonesIn table index, Carries intent scent p) →
      ∃ p ∈ pheromonesIn table index, Carries intent scent p ∧ ¬ SlotTied me intent scent p)

lemma inserts_iff (now : ℚ) (peer : Dhkey) (list : List Details) :
    Inserts me now peer list ↔ ¬ Tied me peer (removeDhkey peer list).2 := by
  constructor
  · intro h htied
    rw [Inserts, insert_tied now htied] at h
    omega
  · intro h
    exact (insert_perm now h).length_eq

lemma refreshes_iff (now : ℚ) (intent : Intent) (scent : NeuropilBloom) (p : PheromoneSlot) :
    Refreshes me now intent scent p ↔ Carries intent scent p ∧ ¬ SlotTied me intent scent p := by
  have href : Refreshes me now intent scent p ↔ intersectTest p.subj_bloom scent = true ∧
      ∃ d ∈ side intent, Inserts me now (peerOf d intent) (hops d p) := by
    rw [exists_side]
    rfl
  rw [href, carries_iff, slotTied_iff]
  simp only [inserts_iff]
  by_cases htest : intersectTest p.subj_bloom scent = true <;>
    cases side intent <;> simp [htest]

lemma exists_refreshes_iff (now : ℕ → ℚ) (intent : Intent) (scent : NeuropilBloom)
    (ps : List PheromoneSlot) :
    (∃ i p, ps[i]? = some p ∧ Refreshes me (now (i + 1)) intent scent p) ↔
      ∃ p ∈ ps, Carries intent scent p ∧ ¬ SlotTied me intent scent p := by
  simp only [refreshes_iff, mem_iff_getElem?]
  constructor
  · rintro ⟨i, p, hp, h⟩
    exact ⟨p, ⟨i, hp⟩, h⟩
  · rintro ⟨p, ⟨i, hp⟩, h⟩
    exact ⟨i, p, hp, h⟩

variable {intent : Intent} {now : ℕ → ℚ} {ps : List PheromoneSlot} {scent : NeuropilBloom}

lemma inhaleLoop_updates {me : Dhkey} {i : ℕ} {top : NeuropilBloom} {update_filter : Bool}
    {r : List PheromoneSlot × NeuropilBloom × Bool}
    (h : inhaleLoop me now intent scent i top update_filter ps = .ok r) :
    r.2.2 = true ↔ update_filter = true ∨ ∃ p ∈ ps, Carries intent scent p := by
  induction ps generalizing i top update_filter r with
  | nil =>
    cases h
    simp
  | cons p ps ih =>
    obtain ⟨p', updated, u, ps', hone, -, hrest, -⟩ := inhaleLoop_inv h
    have hflag := ih hrest
    have hu : updated = true ↔ Carries intent scent p := by
      rw [carries_iff]
      obtain ⟨htest, d, u, hd, -, heq⟩ | ⟨hnot, heq⟩ := inhaleOne_inv hone
      · cases heq
        exact iff_of_true rfl ⟨htest, by simp [hd]⟩
      · cases heq
        exact iff_of_false Bool.false_ne_true fun h => h.2 (hnot h.1)
    rw [hflag, Bool.or_eq_true, hu, or_assoc, exists_mem_cons_iff]

lemma inhaleBlock_cases {me : Dhkey} {r : Entry × Exit}
    (h : inhaleBlock false me now intent scent ps = .ok r) :
    (ps.length + 1 < 32 ∧ (∃ p ∈ ps, Carries intent scent p) ∧ r.2 = .done true ∧
      r.1.pheromones.length = ps.length) ∨
    (ps.length + 1 < 32 ∧ (¬ ∃ p ∈ ps, Carries intent scent p) ∧ r.2 = .done true ∧
      r.1.pheromones.length = ps.length + 1) ∨
    (¬ ps.length + 1 < 32 ∧ r.2 = .returned false) := by
  obtain ⟨⟨ps', top, updated⟩, hloop, h⟩ := bind_eq_ok h
  have hlen := inhaleLoop_length hloop
  have hflag := inhaleLoop_updates hloop
  simp only [Bool.false_eq_true, false_or] at hlen hflag h
  rw [hlen] at h
  split_ifs at h with hroom hupd
  · cases h
    exact .inl ⟨hroom, hflag.1 hupd, rfl, hlen⟩
  · obtain ⟨t, -, h⟩ := bind_eq_ok h
    obtain ⟨b, -, h⟩ := bind_eq_ok h
    cases h
    exact .inr (.inl ⟨hroom, fun hc => hupd (hflag.2 hc), rfl, by simp [hlen]⟩)
  · cases h
    exact .inr (.inr ⟨hroom, rfl⟩)

lemma pheromonesIn_update (table : PheromoneTable) (index : Fin 257) (entry : Entry) :
    pheromonesIn (update table index (some entry)) index = entry.pheromones := by
  rw [pheromonesIn, update_self]
  rfl

variable {s : NeuropilBloom} {index : Fin 257}

lemma peerTaken_iff {me : Dhkey} {table table' : PheromoneTable}
    (hscent : scentOf intent = some s) (hidx : index.val + 1 = intent.pos.natAbs) :
    PeerTaken me now table table' intent ↔
      (∃ p ∈ pheromonesIn table index, Carries intent s p ∧ ¬ SlotTied me intent s p) ∨
        (pheromonesIn table index).length < (pheromonesIn table' index).length := by
  rw [← exists_refreshes_iff me now]
  constructor
  · rintro ⟨s', hs', j, hj, h⟩
    rw [hscent, Option.some.injEq] at hs'
    subst hs'
    obtain rfl : j = index := Fin.ext (by omega)
    exact h
  · exact fun h => ⟨s, hscent, index, hidx, h⟩

lemma roomy_iff {me : Dhkey} {table : PheromoneTable} (hscent : scentOf intent = some s)
    (hidx : index.val + 1 = intent.pos.natAbs) :
    Roomy me table intent ↔ (pheromonesIn table index).length + 1 < 32 ∧
      ((∃ p ∈ pheromonesIn table index, Carries intent s p) →
        ∃ p ∈ pheromonesIn table index, Carries intent s p ∧ ¬ SlotTied me intent s p) := by
  constructor
  · exact fun h => h s hscent index hidx
  · intro h s' hs' j hj
    rw [hscent, Option.some.injEq] at hs'
    subst hs'
    obtain rfl : j = index := Fin.ext (by omega)
    exact h

/-- In a release build, a call that comes back has released the lock and has told rightly whether it
took its peer in, exactly if its entry has a free place and one of the peers to be refreshed, if
any, is not tied. -/
theorem released_iff {me : Dhkey} {now : ℕ → ℚ} {held : ℕ} {table : PheromoneTable}
    {intent : Intent} {o : Outcome} (h : inhaleLocked false me now held table intent = .ok o) :
    (o.held = held ∧ (o.ret = true ↔ PeerTaken me now table o.table intent)) ↔
      Roomy me table intent := by
  cases hscent : scentOf intent with
  | none =>
    rw [inhaleLocked, hscent] at h
    cases h
    refine iff_of_true ⟨rfl, iff_of_false Bool.false_ne_true ?_⟩ ?_
    · rintro ⟨s, hs, -⟩
      rw [hscent] at hs
      cases hs
    · intro s hs
      rw [hscent] at hs
      cases hs
  | some s =>
    rw [inhaleLocked, hscent] at h
    simp only [inhaleLockedAt] at h
    split_ifs at h with hpos hidx
    obtain ⟨⟨entry, exit⟩, hb, h⟩ := bind_eq_ok h
    cases h
    generalize hi : (⟨intent.pos.natAbs - 1, hidx⟩ : Fin 257) = index at hb
    have hval : index.val + 1 = intent.pos.natAbs := by
      rw [← hi]
      simp only
      omega
    rw [roomy_iff hscent hval]
    obtain ⟨hroom, hcar, he, hlen⟩ | ⟨hroom, hcar, he, hlen⟩ | ⟨hroom, he⟩ :=
      inhaleBlock_cases hb
    · subst he
      simp only [lockModule, peerTaken_iff hscent hval, pheromonesIn_update, hlen, lt_irrefl,
        or_false, true_iff, true_and, hroom, hcar, forall_const]
    · subst he
      simp only [lockModule, peerTaken_iff hscent hval, pheromonesIn_update, hlen,
        Nat.lt_succ_self, or_true, and_self, hroom, true_and, true_iff]
      exact fun hc => absurd hc hcar
    · subst he
      refine iff_of_false ?_ (fun hc => hroom hc.1)
      rintro ⟨hh, -⟩
      simp only [lockModule] at hh
      omega

lemma inhaleLocked_speck (held : ℕ) (table : PheromoneTable) (c : Fin 1020) :
    inhaleLocked false me (fun _ => 0) held table (speckIntent c) =
      (inhaleBlock false me (fun _ => 0) (speckIntent c) (speck c)
        (pheromonesIn table firstIndex)).map
        fun r => lockModule held (update table firstIndex (some r.1), r.2) := by
  have hidx : (speckIntent c).pos.natAbs - 1 < 257 := Nat.zero_lt_succ 256
  have hpos : (speckIntent c).pos ≠ 0 := Int.one_ne_zero
  have hat : inhaleLocked false me (fun _ => 0) held table (speckIntent c) =
      inhaleLockedAt false me (fun _ => 0) held table (speckIntent c) (speck c) := rfl
  rw [hat, inhaleLockedAt, if_neg hpos, dif_pos hidx]
  have hfst : (⟨(speckIntent c).pos.natAbs - 1, hidx⟩ : Fin 257) = firstIndex := rfl
  simp only [hfst]
  cases inhaleBlock false me (fun _ => 0) (speckIntent c) (speck c) _ <;> rfl

/-- The second call, for another scent. -/
theorem second_call_released : ∃ table o, fillStep peer (fun _ => none) ⟨0, by decide⟩ = .ok table ∧
    inhaleLocked false peer (fun _ => 0) 0 table (speckIntent ⟨1, by decide⟩) = .ok o ∧
    o.held = 0 ∧ (o.ret = true ↔
      PeerTaken peer (fun _ => 0) table o.table (speckIntent ⟨1, by decide⟩)) := by
  have hne : (⟨0, by decide⟩ : Fin 1020) ≠ ⟨1, by decide⟩ := by decide
  obtain ⟨_, hboth, -⟩ := fill peer (nodup_cons.2 ⟨by simp, nodup_singleton _⟩ :
    [⟨0, by decide⟩, (⟨1, by decide⟩ : Fin 1020)].Nodup) (by simp) (fun _ => none) rfl
  obtain ⟨table, hfirst, hrest⟩ := bind_eq_ok hboth
  obtain ⟨_, hsecond, -⟩ := bind_eq_ok hrest
  obtain ⟨_, hone, hps⟩ := fill peer (nodup_singleton ⟨0, by decide⟩) (by simp) (fun _ => none) rfl
  rw [foldlM_cons, hfirst] at hone
  cases hone
  rw [fillStep, ← inhaleLocked_eq false peer (fun _ => 0) 0] at hsecond
  obtain ⟨r, hr, -⟩ := map_eq_ok hsecond
  obtain ⟨o, ho, -⟩ := map_eq_ok hr
  refine ⟨table, o, hfirst, ho, (released_iff ho).2 fun s hs index hindex => ?_⟩
  cases hs
  obtain rfl : index = firstIndex := Fin.ext (Nat.succ.inj hindex)
  rw [hps]
  refine ⟨by decide, ?_⟩
  rintro ⟨p, hp, hcarries⟩
  obtain rfl := mem_singleton.1 hp
  cases (intersectTest_speck hne).symm.trans ((carries_iff _ _ _).1 hcarries).1

/-- The call after those that have filled the entry keeps the lock. -/
theorem full_entry_stays_locked : ∃ table o,
    specks.foldlM (fillStep peer) (fun _ => none) = .ok table ∧
    inhaleLocked false peer (fun _ => 0) 0 table (speckIntent ⟨40, by decide⟩) = .ok o ∧
    o.held = 1 := by
  obtain ⟨table, htable, hps⟩ := filled peer
  have ho : ∀ p ∈ pheromonesIn table firstIndex,
      intersectTest p.subj_bloom (speck ⟨40, by decide⟩) = false := by
    rw [hps]
    intro p hp
    obtain ⟨c, hc, rfl⟩ := mem_map.1 hp
    refine intersectTest_speck ?_
    rintro rfl
    obtain ⟨i, hi, heq⟩ := mem_take_iff_getElem.1 hc
    rw [getElem_finRange] at heq
    have hval := congrArg Fin.val heq
    simp only [Fin.val_cast] at hval
    omega
  have hfree : ∀ p ∈ pheromonesIn table firstIndex, p.subj_bloom.free_items ≤ 64 := by
    rw [hps]
    intro p hp
    obtain ⟨c, -, rfl⟩ := mem_map.1 hp
    exact Nat.le_succ 63
  obtain ⟨top, hloop, -⟩ := inhaleLoop_other peer (fun _ => 0) (speckIntent ⟨40, by decide⟩) ho
    hfree 1 (rfl : create.free_items = 64)
  have hfull : ¬ (pheromonesIn table firstIndex).length + 1 < 32 := by
    rw [hps, length_map, length_specks]
    omega
  have hb : inhaleBlock false peer (fun _ => 0) (speckIntent ⟨40, by decide⟩)
      (speck ⟨40, by decide⟩) (pheromonesIn table firstIndex) =
      .ok (⟨top, pheromonesIn table firstIndex⟩, .returned false) := by
    simp only [inhaleBlock, hloop, ok_bind, if_neg hfull, Bool.false_eq_true, ↓reduceIte]
    rfl
  refine ⟨table, _, htable, by rw [inhaleLocked_speck, hb]; rfl, rfl⟩

end Neuropil.Pheromone.Locking
