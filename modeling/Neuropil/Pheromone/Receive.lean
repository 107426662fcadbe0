import Neuropil.Bloom.Deserialize
import Neuropil.Pheromone.Backing

namespace Neuropil.Pheromone.Receive

open List Lib.Buffer Lib.Fault Lib.Run Bloom.Filter Bloom.Deserialize Pheromone.Peers
  Pheromone.Table Pheromone.Accounting Pheromone.AccountingRuns Pheromone.Backing Tree.RedBlack
  Tree.Removal Tree.Values Tree.Operations Tree.Effects Tree.Read

inductive ReceiveFault
  | pointer
  | filter (f : DecodeFault)
  | slotPosition
  | inhale (f : Table.Fault)

/-- What stays the same while a message is handled. -/
structure Message where
  debug : Bool
  me : Dhkey
  last_hop : Dhkey
  audience : Dhkey
  raw : Treeval → UInt16 × UInt16
  fuel : ℕ

/-- An element of the body, with the rounds of the aging loop that the message's time stamp leads to
and the clock as the table reads it. -/
structure Element where
  key : Key
  val : Treeval
  rounds : ℕ
  now : ℕ → ℚ

/-- The variables of _np_in_pheromone, the filters that were received and the positions that
_np_pheromone_inhale was called with. -/
structure Handling where
  table : PheromoneTable
  forward_pheromone_update : Bool
  result_list : List Dhkey
  received : List NeuropilBloom
  positions : List ℤ

def slotOf (raw : Treeval → UInt16 × UInt16) (key : Key) : ℤ :=
  (wordsOf raw key.toTreeval).1.toInt16.toInt

def filterBytes : Treeval → Option Bytes
  | .bin b => some (b.bytes.take (b.bytes.length % 2 ^ 16))
  | _ => none

def aged (rounds : ℕ) (scent : NeuropilBloom) : NeuropilBloom := ageDecrement^[rounds] scent

section

variable (m : Message)

def pheromoneOf (pos : ℤ) (scent : NeuropilBloom) : Intent where
  subject := none
  subj_bloom := some scent
  pos := pos
  sender := if pos < 0 then m.last_hop else Dhkey.zero
  receiver := if pos < 0 then Dhkey.zero else m.last_hop

def inhaleScent (s : Handling) (e : Element) (scent : NeuropilBloom) :
    Except ReceiveFault Handling :=
  let pos := slotOf m.raw e.key
  if (pos < 0 ∧ pos ≥ -257) ∨ (0 < pos ∧ pos ≤ 257) then do
    let in_age := intersectAge scent scent
    let found := if pos < 0 then (snuffleReceiver s.table m.audience in_age).1
      else (snuffleSender s.table m.audience in_age).1
    let (table, ret) ←
      (inhale m.debug m.me e.now s.table (pheromoneOf m pos scent)).mapError .inhale
    .ok { s with
      table := table
      forward_pheromone_update := s.forward_pheromone_update || ret
      result_list := s.result_list ++ found
      positions := s.positions ++ [pos] }
  else .error .slotPosition

def receiveFilter (s : Handling) (e : Element) (sent : NeuropilBloom) :
    Except ReceiveFault Handling :=
  let s := { s with received := s.received ++ [sent] }
  let scent := aged e.rounds sent
  if intersectAge scent scent = 0 then .ok s else inhaleScent m s e scent

def receive (s : Handling) (e : Element) : Except ReceiveFault Handling :=
  match filterBytes e.val with
  | none => .error .pointer
  | some input => do
    let sent ← (deserialize m.raw m.fuel input).mapError .filter
    receiveFilter m s e sent

def step (s : Except ReceiveFault Handling) (e : Element) : Except ReceiveFault Handling :=
  s >>= fun h => receive m h e

def begun (table : PheromoneTable) : Handling := ⟨table, false, [], [], []⟩

def elements (body : NpTree) (rounds : ℕ → ℕ) (now : ℕ → ℕ → ℚ) : List Element :=
  (entries body.root).zipIdx.map fun (e, i) => ⟨e.1, e.2, rounds i, now i⟩

def forwarded (h : Handling) : List Dhkey :=
  if h.forward_pheromone_update then
    m.audience :: h.result_list.filter fun k => decide (k ≠ m.last_hop) && decide (k ≠ m.me)
  else []

def inPheromone (table : PheromoneTable) (body : NpTree) (rounds : ℕ → ℕ)
    (now : ℕ → ℕ → ℚ) : Except ReceiveFault (Handling × List Dhkey) :=
  (run (step m) (.ok (begun table)) (elements body rounds now)).map fun h => (h, forwarded m h)

/-- The filters and positions that a message led to are those the table is made for. -/
structure Sound (h : Handling) : Prop where
  items : ∀ bloom ∈ h.received, bloom.free_items ≤ 64
  positions : ∀ pos ∈ h.positions, 1 ≤ pos.natAbs ∧ pos.natAbs ≤ 257

/-- A pheromone of the table that an element adds to has room for the items of its filter. -/
def RoomFor (pos : ℤ) (scent : NeuropilBloom) (p : PheromoneSlot) : Prop :=
  intersectTest p.subj_bloom scent = true → m.last_hop ≠ Dhkey.zero →
    (64 - (refresh m.me 0 m.last_hop p.subj_bloom
      (if pos < 0 then p.send_list else p.recv_list)).1.free_items) + (64 - scent.free_items) ≤ 64

def slotsAt (table : PheromoneTable) (pos : ℤ) : List PheromoneSlot :=
  if h : pos.natAbs - 1 < 257 then
    ((table ⟨pos.natAbs - 1, h⟩).getD ⟨create, []⟩).pheromones
  else []

/-- The table can take a filter at a position. -/
structure SlotFits (m : Message) (table : PheromoneTable) (pos : ℤ) (scent : NeuropilBloom) :
    Prop where
  position : 1 ≤ pos.natAbs ∧ pos.natAbs ≤ 257
  room : ∀ p ∈ slotsAt table pos, RoomFor m pos scent p
  slots : m.debug = true → (slotsAt table pos).length + 1 < 32

/-- The tree of an element is a filter, too old or fitting into the table. -/
def TreeFits (table : PheromoneTable) (e : Element) (data : NpTree) : Prop :=
  ∃ f, treeFindElem data (.int (-1)) = some f ∧ (wordsOf m.raw f.val).1.toNat ≤ 64 ∧
    InArray m.raw f ∧
    let scent := aged e.rounds (sentFilter m.raw f)
    intersectAge scent scent = 0 ∨ SlotFits m table (slotOf m.raw e.key) scent

def decoded (val : Treeval) : Option NpTree := do
  let input ← filterBytes val
  (readMap m.fuel treeCreate input).toOption

def Fits (h : Handling) (e : Element) : Prop :=
  ∀ data, decoded m e.val = some data → TreeFits m h.table e data

end

section

variable (m : Message) {pos : ℤ} (scent : NeuropilBloom) (now : ℕ → ℚ)

lemma refresh_fst (me peer : Dhkey) (now now' : ℚ) (bloom : NeuropilBloom) (list : List Details) :
    (refresh me now peer bloom list).1 = (refresh me now' peer bloom list).1 := by
  have hlen : ∀ l, (insertDhkey me now peer l).length = (insertDhkey me now' peer l).length := by
    intro l
    by_cases ht : Tied me peer l
    · rw [insert_tied now ht, insert_tied now' ht]
    · rw [(insert_perm now ht).length_eq, (insert_perm now' ht).length_eq]
      rfl
  simp only [refresh, trim, hlen]
  split_ifs <;> rfl

lemma union_total (a b : NeuropilBloom) :
    (∃ u, union a b = .ok u) ↔ (64 - a.free_items) + (64 - b.free_items) ≤ 64 := by
  rw [union]
  split_ifs with h
  · exact iff_of_true ⟨_, rfl⟩ h
  · exact iff_of_false (by rintro ⟨u, ⟨⟩⟩) h

lemma inhaleOne_total (now : ℚ) (hpos : pos ≠ 0) (p : PheromoneSlot) :
    (∃ r, inhaleOne m.me now (pheromoneOf m pos scent) scent p = .ok r) ↔
      RoomFor m pos scent p := by
  by_cases hmatch : intersectTest p.subj_bloom scent = true
  case neg =>
    exact iff_of_true ⟨_, inhaleOne_keep fun h => absurd h hmatch⟩ fun h => absurd h hmatch
  by_cases hhop : m.last_hop = Dhkey.zero
  case pos =>
    have hside : side (pheromoneOf m pos scent) = none := by simp [side, pheromoneOf, hhop]
    exact iff_of_true ⟨_, inhaleOne_keep fun _ => hside⟩ fun _ h => absurd hhop h
  obtain ⟨d, hside, href⟩ : ∃ d, side (pheromoneOf m pos scent) = some d ∧
      refreshed m.me now (pheromoneOf m pos scent) d p =
        refresh m.me now m.last_hop p.subj_bloom
          (if pos < 0 then p.send_list else p.recv_list) := by
    obtain hneg | hgt := lt_or_gt_of_ne hpos
    · exact ⟨false, by simp [side, pheromoneOf, hneg, hhop],
        by simp [refreshed, peerOf, hops, pheromoneOf, hneg]⟩
    · have hnot : ¬ pos < 0 := by omega
      exact ⟨true, by simp [side, pheromoneOf, hnot, hgt, hhop],
        by simp [refreshed, peerOf, hops, pheromoneOf, hnot]⟩
  rw [inhaleOne_side hmatch hside, RoomFor, refresh_fst m.me m.last_hop 0 now, ← union_total, href]
  cases hu : union (refresh m.me now m.last_hop p.subj_bloom _).1 scent with
  | error f => exact iff_of_false (by rintro ⟨r, ⟨⟩⟩) fun h => by obtain ⟨u, ⟨⟩⟩ := h hmatch hhop
  | ok u => exact iff_of_true ⟨_, rfl⟩ fun _ _ => ⟨u, rfl⟩

lemma unionChecked_total (top : NeuropilBloom) (htop : top.free_items = 64)
    (bloom : NeuropilBloom) : ∃ u, unionChecked top bloom = .ok u := by
  rw [unionChecked, if_pos (by omega), union_ok (by omega)]
  exact ⟨_, rfl⟩

variable {m scent now} {top : NeuropilBloom} {i : ℕ} {update_filter : Bool}
  {ps : List PheromoneSlot} {r : List PheromoneSlot × NeuropilBloom × Bool}

lemma roomFor_of_inhaleLoop (hpos : pos ≠ 0)
    (h : inhaleLoop m.me now (pheromoneOf m pos scent) scent i top update_filter ps = .ok r) :
    ∀ p ∈ ps, RoomFor m pos scent p := by
  induction ps generalizing i top update_filter r with
  | nil => simp
  | cons p ps ih =>
    obtain ⟨p', updated, u, ps', hone, -, hrest, -⟩ := inhaleLoop_inv h
    exact forall_mem_cons.2 ⟨(inhaleOne_total m scent (now i) hpos p).1 ⟨_, hone⟩, ih hrest⟩

lemma inhaleLoop_total (now : ℕ → ℚ) (i : ℕ) (update_filter : Bool) (hpos : pos ≠ 0)
    (htop : top.free_items = 64) (h : ∀ p ∈ ps, RoomFor m pos scent p) :
    ∃ r, inhaleLoop m.me now (pheromoneOf m pos scent) scent i top update_filter ps = .ok r ∧
      r.2.1.free_items = 64 := by
  induction ps generalizing i top update_filter with
  | nil => exact ⟨_, rfl, htop⟩
  | cons p ps ih =>
    obtain ⟨hp, hps⟩ := forall_mem_cons.1 h
    obtain ⟨⟨p', updated⟩, hone⟩ := (inhaleOne_total m scent (now i) hpos p).2 hp
    obtain ⟨u, hu⟩ := unionChecked_total top htop p'.subj_bloom
    have hreset : ({ u with free_items := 64 } : NeuropilBloom).free_items = 64 := rfl
    obtain ⟨r, hr, htop'⟩ := ih (i + 1) (update_filter || updated) hreset hps
    refine ⟨(p' :: r.1, r.2), ?_, htop'⟩
    simp only [inhaleLoop, hone, hu, hr, bind, Except.bind, pure, Except.pure]

lemma inhaleEntry_total (now : ℕ → ℚ) (hpos : pos ≠ 0) (ps : List PheromoneSlot) :
    (∃ r, inhaleEntry m.debug m.me now (pheromoneOf m pos scent) scent ps = .ok r) ↔
      (∀ p ∈ ps, RoomFor m pos scent p) ∧ (m.debug = true → ps.length + 1 < 32) := by
  constructor
  · rintro ⟨r, hr⟩
    obtain ⟨⟨ps', top, updated⟩, hloop, hr⟩ := bind_eq_ok hr
    have hlen : ps'.length = ps.length := inhaleLoop_length hloop
    refine ⟨roomFor_of_inhaleLoop hpos hloop, fun hd => ?_⟩
    by_contra hfull
    simp only [hlen, if_neg hfull, if_pos hd] at hr
    cases hr
  · rintro ⟨hroom, hsls⟩
    obtain ⟨⟨ps', top, updated⟩, hloop, htop⟩ :=
      inhaleLoop_total now 1 false hpos (rfl : create.free_items = 64) hroom
    have hlen : ps'.length = ps.length := inhaleLoop_length hloop
    obtain ⟨t, ht⟩ := unionChecked_total top htop scent
    obtain ⟨b, hb⟩ := unionChecked_total create rfl scent
    simp only [inhaleEntry, hloop, ok_bind, hlen, ht, hb]
    split_ifs with hfull hupd hd
    · exact ⟨_, rfl⟩
    · exact ⟨_, rfl⟩
    · exact absurd (hsls hd) hfull
    · exact ⟨_, rfl⟩

lemma inhale_total (now : ℕ → ℚ) (table : PheromoneTable)
    (hpos : 1 ≤ pos.natAbs ∧ pos.natAbs ≤ 257) :
    (∃ r, inhale m.debug m.me now table (pheromoneOf m pos scent) = .ok r) ↔
      SlotFits m table pos scent := by
  have hne : pos ≠ 0 := by omega
  have hlt : pos.natAbs - 1 < 257 := by omega
  have hsls : slotsAt table pos = pheromonesIn table ⟨pos.natAbs - 1, hlt⟩ := dif_pos hlt
  have hidx : pos.natAbs - 1 + 1 = pos.natAbs := by omega
  have hat : inhale m.debug m.me now table (pheromoneOf m pos scent) = _ :=
    @inhaleAt_eq (pheromoneOf m pos scent) _ _ _ _ scent ⟨_, hlt⟩ hidx
  rw [← hsls] at hat
  rw [hat]
  constructor
  · rintro ⟨r, hr⟩
    obtain ⟨r', hr', -⟩ := map_eq_ok hr
    obtain ⟨hroom, hsls⟩ := (inhaleEntry_total now hne _).1 ⟨r', hr'⟩
    exact ⟨hpos, hroom, hsls⟩
  · intro h
    obtain ⟨r, hr⟩ := (inhaleEntry_total now hne _).2 ⟨h.room, h.slots⟩
    exact ⟨_, by rw [hr]; rfl⟩

end

section

variable {m : Message} {h h' : Handling} {e : Element} {scent sent : NeuropilBloom}

lemma inhaleScent_inv (hok : inhaleScent m h e scent = .ok h') :
    h'.received = h.received ∧ h'.positions = h.positions ++ [slotOf m.raw e.key] := by
  simp only [inhaleScent] at hok
  split at hok
  · obtain ⟨⟨table, ret⟩, -, hok⟩ := bind_eq_ok hok
    cases hok
    exact ⟨rfl, rfl⟩
  · cases hok

lemma inhaleScent_total (h : Handling) :
    (∃ h', inhaleScent m h e scent = .ok h') ↔ SlotFits m h.table (slotOf m.raw e.key) scent := by
  simp only [inhaleScent]
  split
  case isTrue hpos =>
    rw [← inhale_total e.now h.table (by omega)]
    cases inhale m.debug m.me e.now h.table (pheromoneOf m (slotOf m.raw e.key) scent) with
    | error f => exact iff_of_false (by rintro ⟨h', ⟨⟩⟩) (by rintro ⟨r, ⟨⟩⟩)
    | ok r => exact iff_of_true ⟨_, rfl⟩ ⟨_, rfl⟩
  case isFalse hpos =>
    refine iff_of_false (by rintro ⟨h', ⟨⟩⟩) (fun hfits => hpos ?_)
    have := hfits.position
    omega

lemma receiveFilter_inv (hok : receiveFilter m h e sent = .ok h') :
    h'.received = h.received ++ [sent] ∧
      (h'.positions = h.positions ∨ h'.positions = h.positions ++ [slotOf m.raw e.key]) := by
  simp only [receiveFilter] at hok
  split at hok
  · cases hok
    exact ⟨rfl, .inl rfl⟩
  · obtain ⟨hrec, hpos⟩ := inhaleScent_inv hok
    exact ⟨hrec, .inr hpos⟩

lemma Sound.of_receiveFilter (hok : receiveFilter m h e sent = .ok h') (hsnd : Sound h') :
    Sound h := by
  obtain ⟨hrec, hpos⟩ := receiveFilter_inv hok
  refine ⟨fun bloom hb => hsnd.items bloom (by simp [hrec, hb]), fun pos hp => ?_⟩
  apply hsnd.positions pos
  obtain hpos | hpos := hpos <;> simp [hpos, hp]

lemma receiveFilter_sound_iff (hsnd : Sound h) :
    (∃ h', receiveFilter m h e sent = .ok h' ∧ Sound h') ↔ sent.free_items ≤ 64 ∧
      (intersectAge (aged e.rounds sent) (aged e.rounds sent) = 0 ∨
        SlotFits m h.table (slotOf m.raw e.key) (aged e.rounds sent)) := by
  constructor
  · rintro ⟨h', hok, hs'⟩
    obtain ⟨hrec, -⟩ := receiveFilter_inv hok
    refine ⟨hs'.items sent (by simp [hrec]), ?_⟩
    by_cases hage : intersectAge (aged e.rounds sent) (aged e.rounds sent) = 0
    · exact .inl hage
    · rw [receiveFilter, if_neg hage] at hok
      exact .inr ((inhaleScent_total { h with received := h.received ++ [sent] }).1 ⟨h', hok⟩)
  · rintro ⟨hitems, hfits⟩
    have hrec : ∀ bloom ∈ h.received ++ [sent], bloom.free_items ≤ 64 := by
      simp only [forall_mem_append, forall_mem_singleton]
      exact ⟨hsnd.items, hitems⟩
    by_cases hage : intersectAge (aged e.rounds sent) (aged e.rounds sent) = 0
    · refine ⟨{ h with received := h.received ++ [sent] }, ?_, hrec, hsnd.positions⟩
      rw [receiveFilter, if_pos hage]
    · have hslot := hfits.resolve_left hage
      obtain ⟨h', hok⟩ := (inhaleScent_total { h with received := h.received ++ [sent] }).2 hslot
      obtain ⟨hr, hp⟩ := inhaleScent_inv hok
      refine ⟨h', by rwa [receiveFilter, if_neg hage], by rwa [hr], ?_⟩
      rw [hp]
      simp only [forall_mem_append, forall_mem_singleton]
      exact ⟨hsnd.positions, hslot.position⟩

lemma receive_decoded {data : NpTree} (hd : decoded m e.val = some data) :
    Fresh data ∧ receive m h e =
      (readFilter m.raw data).mapError .filter >>= receiveFilter m h e := by
  obtain ⟨input, hinput, hd⟩ := Option.bind_eq_some_iff.1 hd
  cases hmap : readMap m.fuel treeCreate input with
  | error err =>
    rw [hmap] at hd
    cases hd
  | ok data' =>
    rw [hmap] at hd
    cases hd
    refine ⟨readMap_fresh hmap, ?_⟩
    simp only [receive, hinput, deserialize, hmap]
    rfl

lemma receive_sound_iff {data : NpTree} (hsnd : Sound h) (hd : decoded m e.val = some data) :
    (∃ h', receive m h e = .ok h' ∧ Sound h') ↔ TreeFits m h.table e data := by
  obtain ⟨hfr, hrec⟩ := @receive_decoded m h e data hd
  rw [hrec]
  constructor
  · rintro ⟨h', hok, hs'⟩
    obtain ⟨sent, hsent, hok⟩ := bind_eq_ok hok
    obtain ⟨f, hf, hin, rfl⟩ := (readFilter_eq_ok_iff m.raw hfr _).1 (mapError_eq_ok hsent)
    obtain ⟨hitems, hfits⟩ := (receiveFilter_sound_iff hsnd).1 ⟨h', hok, hs'⟩
    exact ⟨f, hf, hitems, hin, hfits⟩
  · rintro ⟨f, hf, hitems, hin, hfits⟩
    obtain ⟨h', hok, hs'⟩ :=
      (@receiveFilter_sound_iff m h e (sentFilter m.raw f) hsnd).2 ⟨hitems, hfits⟩
    refine ⟨h', ?_, hs'⟩
    have hread := (readFilter_eq_ok_iff m.raw hfr _).2 ⟨f, hf, hin, rfl⟩
    rw [hread, Except.mapError, ok_bind, hok]

lemma Sound.of_receive (hok : receive m h e = .ok h') (hsnd : Sound h') : Sound h := by
  unfold receive at hok
  split at hok
  · cases hok
  · obtain ⟨sent, -, hok⟩ := bind_eq_ok hok
    exact hsnd.of_receiveFilter hok

lemma decoded_of_receive (hok : receive m h e = .ok h') : (decoded m e.val).isSome := by
  unfold receive at hok
  split at hok
  · cases hok
  case h_2 input hinput =>
    obtain ⟨sent, hsent, -⟩ := bind_eq_ok hok
    obtain ⟨data, hd, -⟩ := bind_eq_ok (mapError_eq_ok hsent)
    simp [decoded, hinput, mapError_eq_ok hd, Except.toOption]

end

def Fine (s : Except ReceiveFault Handling) : Prop := ∃ h, s = .ok h ∧ Sound h

def FitsIn (m : Message) (s : Except ReceiveFault Handling) (e : Element) : Prop :=
  ∀ h, s = .ok h → Fits m h e

variable {s : Except ReceiveFault Handling}

lemma Fine.of_step {m : Message} {e : Element} (h : Fine (step m s e)) : Fine s := by
  obtain ⟨h', hok, hsnd⟩ := h
  obtain ⟨h, rfl, hok⟩ := bind_eq_ok hok
  exact ⟨h, rfl, hsnd.of_receive hok⟩

lemma fine_step_iff {m : Message} {e : Element}
    (hs : Fine s) (hdec : (decoded m e.val).isSome) : Fine (step m s e) ↔ FitsIn m s e := by
  obtain ⟨h, rfl, hsnd⟩ := hs
  obtain ⟨data, hd⟩ := Option.isSome_iff_exists.1 hdec
  have hiff := @receive_sound_iff m h e data hsnd hd
  constructor
  · rintro hfine h' ⟨⟩ data' hd'
    cases hd.symm.trans hd'
    exact hiff.1 hfine
  · intro hfits
    exact hiff.2 (hfits h rfl data hd)

/-- Handling a message whose filters decode goes well exactly if each element of its body fits into
the table at its turn. -/
theorem pheromone_handled_iff (m : Message) (table : PheromoneTable) (body : NpTree)
    (rounds : ℕ → ℕ) (now : ℕ → ℕ → ℚ)
    (hdec : ∀ e ∈ entries body.root, (decoded m e.2).isSome) :
    (∃ h out, inPheromone m table body rounds now = .ok (h, out) ∧ Sound h) ↔
      Admitted (step m) (.ok (begun table)) (FitsIn m) (elements body rounds now) := by
  have hdec' : ∀ e ∈ elements body rounds now, (decoded m e.val).isSome := by
    intro e he
    obtain ⟨⟨e', i⟩, hmem, rfl⟩ := mem_map.1 he
    exact hdec e' (fst_mem_of_mem_zipIdx hmem)
  have hfine : (∃ h out, inPheromone m table body rounds now = .ok (h, out) ∧ Sound h) ↔
      Fine (run (step m) (.ok (begun table)) (elements body rounds now)) := by
    rw [inPheromone]
    cases run (step m) (.ok (begun table)) (elements body rounds now) with
    | error f => exact iff_of_false (by rintro ⟨h, out, ⟨⟩, -⟩) (by rintro ⟨h, ⟨⟩, -⟩)
    | ok h =>
      constructor
      · rintro ⟨h', out, hok, hsnd⟩
        cases hok
        exact ⟨h, rfl, hsnd⟩
      · rintro ⟨h', hok, hsnd⟩
        cases hok
        exact ⟨h, _, rfl, hsnd⟩
  have ha : Admitted (step m) (.ok (begun table)) (FitsIn m) (elements body rounds now) ↔
      Admitted (step m) (.ok (begun table)) (fun s e => (decoded m e.val).isSome ∧ FitsIn m s e)
        (elements body rounds now) := by
    constructor
    · intro h before e hb
      exact ⟨hdec' e (hb.subset (by simp)), h before e hb⟩
    · exact fun h before e hb => (h before e hb).2
  rw [hfine, ha]
  rw [← good_iff_admitted (fun _ s => Fine s) ⟨begun table, rfl, by simp [begun], by simp [begun]⟩
    (fun _ s e hs hok => (fine_step_iff hs hok.1).2 hok.2) (fun _ _ hs => hs) ?_]
  · constructor
    · exact fun h before hb => good_of_run _ (fun _ _ => Fine.of_step) hb h
    · exact fun h => h _ (prefix_refl _)
  · rintro - s e hs hno ⟨h', hok, hsnd⟩
    obtain ⟨h, rfl, hrec⟩ := bind_eq_ok hok
    have hd := decoded_of_receive hrec
    exact hno ⟨hd, (fine_step_iff hs hd).1 ⟨h', hok, hsnd⟩⟩

def plainMessage : Message :=
  ⟨false, Dhkey.ofWord 8, Dhkey.ofWord 7, Dhkey.ofWord 9, fun _ => (0, 0), 2⟩

def bodyOf (filter : Bytes) : NpTree :=
  ⟨.node .black .nil (.int 5) (.bin (blobOf filter)) .nil, 1, 0, ⟨false, false⟩⟩

def firstCell : Bytes :=
  [217, 122, 203, 162, 217, 122, 185, 32, 217, 122, 194, 24, 63, 217, 122, 185, 0, 217, 122, 197,
    130, 24, 128, 1]

def lastByte : Bytes :=
  [217, 122, 203, 162, 217, 122, 185, 32, 217, 122, 194, 24, 63, 217, 122, 185, 25, 7, 247, 217,
    122, 197, 130, 24, 128, 1]

lemma forall_bodyOf {filter : Bytes} {P : Key × Treeval → Prop}
    (h : P (.int 5, .bin (blobOf filter))) : ∀ e ∈ entries (bodyOf filter).root, P e := by
  intro e he
  obtain rfl : e = (.int 5, .bin (blobOf filter)) := by simpa [bodyOf, entries] using he
  exact h

lemma firstCell_filter : ∃ data, decoded plainMessage (.bin (blobOf firstCell)) = some data ∧
      ∃ f, treeFindElem data (.int (-1)) = some f ∧
        (wordsOf plainMessage.raw f.val).1.toNat ≤ 64 ∧ InArray plainMessage.raw f := by
  have hche : ((decoded plainMessage (.bin (blobOf firstCell))).any fun data =>
      (treeFindElem data (.int (-1))).any fun f =>
        decide ((wordsOf plainMessage.raw f.val).1.toNat ≤ 64) &&
          (others f).all fun e => decide (positionOf plainMessage.raw e.1 + 1 < 2040)) = true := by
    decide +kernel
  simpa [Option.any_eq_true, InArray] using hche

theorem firstCell_handled :
    ∃ h out, inPheromone plainMessage empty (bodyOf firstCell) (fun _ => 0) (fun _ _ => 0) =
      .ok (h, out) ∧ Sound h := by
  obtain ⟨data, hd, f, hf, hitems, hin⟩ := firstCell_filter
  refine (pheromone_handled_iff plainMessage empty (bodyOf firstCell) (fun _ => 0) (fun _ _ => 0)
    (forall_bodyOf (by rw [hd]; rfl))).2 ?_
  refine (admitted_cons_iff _ _ _ _ _).2 ⟨?_, fun before e hb => by simp [entries] at hb⟩
  rintro h ⟨⟩ data' hd'
  cases hd.symm.trans hd'
  refine ⟨f, hf, hitems, hin, .inr ⟨by decide, fun p hp => ?_, by decide⟩⟩
  cases hp

/-- The last byte of the array passes the assertion, and its successor is written as well. -/
theorem lastByte_writes_outside :
    (∀ e ∈ entries (bodyOf lastByte).root, (decoded plainMessage e.2).isSome) ∧
      inPheromone plainMessage empty (bodyOf lastByte) (fun _ => 0) (fun _ _ => 0) =
        .error (.filter .outOfBounds) :=
  ⟨forall_bodyOf rfl, rfl⟩

end Neuropil.Pheromone.Receive
