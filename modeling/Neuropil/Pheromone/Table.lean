import Neuropil.Bloom.Filter
import Neuropil.Pheromone.Peers

namespace Neuropil.Pheromone.Table

open Function Bloom.Filter Pheromone.Peers

inductive Fault
  | filter (f : FilterFault)
  | position
  | index
  | room
  | insertionIndex
deriving DecidableEq, Repr

def ofFilter {α : Type} : Except FilterFault α → Except Fault α
  | .ok a => .ok a
  | .error f => .error (.filter f)

structure PheromoneSlot where
  subj_bloom : NeuropilBloom
  send_list : List Details
  recv_list : List Details

structure Intent where
  subject : Option Dhkey
  subj_bloom : Option NeuropilBloom
  pos : ℤ
  sender : Dhkey
  receiver : Dhkey

/-- An entry of the table: the union of its filters, which the source keeps as the first of 32
pheromones, and the pheromones behind it. -/
structure Entry where
  union : NeuropilBloom
  pheromones : List PheromoneSlot

abbrev PheromoneTable := Fin 257 → Option Entry

inductive Direction
  | sender
  | receiver

def calcTablePosition (target : Dhkey) : Direction → ℤ
  | .receiver => -(((target.word 0).toNat % 257 : ℕ) : ℤ) - 1
  | .sender => (((target.word 0).toNat % 257 : ℕ) : ℤ) + 1

def maxNexthopKeys : ℕ := 19

def trim (bloom : NeuropilBloom) (list : List Details) : NeuropilBloom × List Details :=
  if list.length > maxNexthopKeys then (countDecrement bloom, removeOldestDhkey list)
  else (bloom, list)

def refresh (me : Dhkey) (now : ℚ) (peer : Dhkey) (bloom : NeuropilBloom) (list : List Details) :
    NeuropilBloom × List Details :=
  let removed := removeDhkey peer list
  trim (if removed.1 then countDecrement bloom else bloom) (insertDhkey me now peer removed.2)

/-- One round of the loop in `_np_pheromone_inhale`, and whether it updated
the pheromone. -/
def inhaleOne (me : Dhkey) (now : ℚ) (intent : Intent) (scent : NeuropilBloom)
    (pheromone : PheromoneSlot) : Except Fault (PheromoneSlot × Bool) :=
  if intersectTest pheromone.subj_bloom scent then
    if intent.pos < 0 ∧ intent.sender ≠ Dhkey.zero then do
      let r := refresh me now intent.sender pheromone.subj_bloom pheromone.send_list
      let bloom ← ofFilter (union r.1 scent)
      return ({ pheromone with subj_bloom := bloom, send_list := r.2 }, true)
    else if intent.pos > 0 ∧ intent.receiver ≠ Dhkey.zero then do
      let r := refresh me now intent.receiver pheromone.subj_bloom pheromone.recv_list
      let bloom ← ofFilter (union r.1 scent)
      return ({ pheromone with subj_bloom := bloom, recv_list := r.2 }, true)
    else return (pheromone, false)
  else return (pheromone, false)

def unionChecked (result to_add : NeuropilBloom) : Except Fault NeuropilBloom :=
  if result.free_items + to_add.free_items ≥ 64 then ofFilter (union result to_add)
  else .error .room

/-- The loop of `_np_pheromone_inhale`. The union is built anew, its item
counter is set back after each pheromone. -/
def inhaleLoop (me : Dhkey) (now : ℕ → ℚ) (intent : Intent) (scent : NeuropilBloom) :
    ℕ → NeuropilBloom → Bool → List PheromoneSlot →
      Except Fault (List PheromoneSlot × NeuropilBloom × Bool)
  | _, top, update_filter, [] => .ok ([], top, update_filter)
  | i, top, update_filter, pheromone :: rest => do
    let (pheromone, updated) ← inhaleOne me (now i) intent scent pheromone
    let top ← unionChecked top pheromone.subj_bloom
    let (rest, top, update_filter) ← inhaleLoop me now intent scent (i + 1)
      { top with free_items := 64 } (update_filter || updated) rest
    return (pheromone :: rest, top, update_filter)

def newPheromone (me : Dhkey) (now : ℚ) (intent : Intent) (bloom : NeuropilBloom) : PheromoneSlot :=
  if intent.pos > 0 then ⟨bloom, [], insertDhkey me now intent.receiver []⟩
  else ⟨bloom, insertDhkey me now intent.sender [], []⟩

lemma newPheromone_bloom (me : Dhkey) (now : ℚ) (intent : Intent) (bloom : NeuropilBloom) :
    (newPheromone me now intent bloom).subj_bloom = bloom := by
  simp only [newPheromone]
  split_ifs <;> rfl

variable {intent : Intent} {bloom : NeuropilBloom}

lemma newPheromone_recv {me : Dhkey} {now : ℚ} (h : intent.pos > 0) :
    (newPheromone me now intent bloom).recv_list = [⟨intent.receiver, now⟩] := by
  rw [newPheromone, if_pos h]
  rfl

lemma newPheromone_send {me : Dhkey} {now : ℚ} (h : intent.pos < 0) :
    (newPheromone me now intent bloom).send_list = [⟨intent.sender, now⟩] := by
  rw [newPheromone, if_neg (by omega)]
  rfl

def inhaleEntry (debug : Bool) (me : Dhkey) (now : ℕ → ℚ) (intent : Intent) (scent : NeuropilBloom)
    (pheromones : List PheromoneSlot) : Except Fault (Entry × Bool) := do
  let (pheromones, top, update_filter) ← inhaleLoop me now intent scent 1 create false pheromones
  let i := pheromones.length + 1
  if i < 32 then
    if update_filter then return (⟨top, pheromones⟩, true)
    else
      let top ← unionChecked top scent
      let bloom ← unionChecked create scent
      return (⟨top, pheromones ++ [newPheromone me (now i) intent bloom]⟩, true)
  else if debug then .error .insertionIndex
  else return (⟨top, pheromones⟩, false)

def inhaleAt (debug : Bool) (me : Dhkey) (now : ℕ → ℚ) (table : PheromoneTable) (intent : Intent)
    (scent : NeuropilBloom) : Except Fault (PheromoneTable × Bool) :=
  if intent.pos = 0 then .error .position
  else if h : intent.pos.natAbs - 1 < 257 then do
    let index : Fin 257 := ⟨intent.pos.natAbs - 1, h⟩
    let entry := (table index).getD ⟨create, []⟩
    let (entry, ret) ← inhaleEntry debug me now intent scent entry.pheromones
    return (update table index (some entry), ret)
  else .error .index

def inhale (debug : Bool) (me : Dhkey) (now : ℕ → ℚ) (table : PheromoneTable) (intent : Intent) :
    Except Fault (PheromoneTable × Bool) :=
  match intent.subject, intent.subj_bloom with
  | none, none => .ok (table, false)
  | some subject, _ => do
    let bloom ← ofFilter (add create subject)
    inhaleAt debug me now table intent bloom
  | none, some bloom => inhaleAt debug me now table intent bloom

def targetIntent (target pheromone_source : Dhkey) (scent : NeuropilBloom)
    (find_sender find_receiver : Bool) : Intent where
  subject := none
  subj_bloom := some scent
  pos := if find_receiver then calcTablePosition target .receiver
    else if find_sender then calcTablePosition target .sender else 0
  sender := if find_receiver then pheromone_source else Dhkey.zero
  receiver := if find_sender then pheromone_source else Dhkey.zero

def inhaleTarget (debug : Bool) (me : Dhkey) (now : ℕ → ℚ) (table : PheromoneTable)
    (target pheromone_source : Dhkey) (find_sender find_receiver : Bool) :
    Except Fault (PheromoneTable × Bool) := do
  let scent ← ofFilter (add create target)
  let (table, ret) ← inhale debug me now table
    (targetIntent target pheromone_source scent find_sender find_receiver)
  return (table, (find_sender || find_receiver) && ret)

def snuffle (table : PheromoneTable) (to_check : Dhkey) (target_probability : ℚ)
    (find_sender find_receiver : Bool) : List Dhkey × ℚ :=
  match table (Fin.ofNat 257 (to_check.word 0).toNat) with
  | none => ([], 0)
  | some entry =>
    if check entry.union to_check then
      if target_probability ≤ getHeuristic entry.union to_check then
        ((entry.pheromones.filter fun p => check p.subj_bloom to_check).flatMap fun p =>
          peers (if find_receiver then p.recv_list else if find_sender then p.send_list else []),
          getHeuristic entry.union to_check)
      else ([], getHeuristic entry.union to_check)
    else ([], 0)

def snuffleReceiver (table : PheromoneTable) (to_check : Dhkey) (target_probability : ℚ) :
    List Dhkey × ℚ :=
  snuffle table to_check target_probability false true

def snuffleSender (table : PheromoneTable) (to_check : Dhkey) (target_probability : ℚ) :
    List Dhkey × ℚ :=
  snuffle table to_check target_probability true false

def indexOf (target : Dhkey) : Fin 257 := Fin.ofNat 257 (target.word 0).toNat

def pheromonesAt (table : PheromoneTable) (target : Dhkey) : List PheromoneSlot :=
  ((table (indexOf target)).getD ⟨create, []⟩).pheromones

def pheromonesIn (table : PheromoneTable) (index : Fin 257) : List PheromoneSlot :=
  ((table index).getD ⟨create, []⟩).pheromones

lemma inhaleAt_eq {debug : Bool} {me : Dhkey} {now : ℕ → ℚ} {table : PheromoneTable}
    {scent : NeuropilBloom} {index : Fin 257} (hidx : index.val + 1 = intent.pos.natAbs) :
    inhaleAt debug me now table intent scent =
      (inhaleEntry debug me now intent scent (pheromonesIn table index)).map
        fun r => (update table index (some r.1), r.2) := by
  have hlt : intent.pos.natAbs - 1 < 257 := by
    rw [← hidx]
    exact index.isLt
  have hfin : (⟨_, hlt⟩ : Fin 257) = index := Fin.ext (by simp only; omega)
  rw [inhaleAt, if_neg (by omega), dif_pos hlt]
  simp only [hfin, pheromonesIn]
  cases inhaleEntry debug me now intent scent _ <;> rfl

section

variable {debug : Bool} {me : Dhkey} {now : ℕ → ℚ} {table : PheromoneTable}
  {target source : Dhkey} {find_sender find_receiver : Bool}

lemma pos_index
    (h : (targetIntent target source (scent target) find_sender find_receiver).pos ≠ 0) :
    (indexOf target).val + 1 =
      (targetIntent target source (scent target) find_sender find_receiver).pos.natAbs := by
  simp only [targetIntent, calcTablePosition, indexOf, Fin.ofNat] at h ⊢
  split_ifs at h ⊢
  · omega
  · omega
  · exact absurd rfl h

lemma inhaleTarget_bind :
    inhaleTarget debug me now table target source find_sender find_receiver =
      (inhaleAt debug me now table
        (targetIntent target source (scent target) find_sender find_receiver) (scent target)).map
          (fun r => (r.1, (find_sender || find_receiver) && r.2)) := by
  simp only [inhaleTarget, add_create, ofFilter, inhale, targetIntent, bind, Except.bind]
  cases inhaleAt debug me now table _ (scent target) <;> rfl

lemma inhaleTarget_position
    (h : (targetIntent target source (scent target) find_sender find_receiver).pos = 0) :
    inhaleTarget debug me now table target source find_sender find_receiver = .error .position := by
  rw [inhaleTarget_bind, inhaleAt, if_pos h]
  rfl

lemma inhaleTarget_eq
    (h : (targetIntent target source (scent target) find_sender find_receiver).pos ≠ 0) :
    inhaleTarget debug me now table target source find_sender find_receiver =
      (inhaleEntry debug me now
        (targetIntent target source (scent target) find_sender find_receiver) (scent target)
        (pheromonesAt table target)).map
          (fun r => (update table (indexOf target) (some r.1),
            (find_sender || find_receiver) && r.2)) := by
  have hat : pheromonesIn table (indexOf target) = pheromonesAt table target := rfl
  rw [inhaleTarget_bind, inhaleAt_eq (pos_index h), hat]
  cases inhaleEntry debug me now _ (scent target) _ <;> rfl

end

variable {P : PheromoneSlot → Prop} {table : PheromoneTable}
  (h : ∀ i entry, table i = some entry → ∀ p ∈ entry.pheromones, P p)

include h

lemma forall_pheromonesAt (target : Dhkey) : ∀ p ∈ pheromonesAt table target, P p := by
  intro p hp
  cases he : table (indexOf target) with
  | none => simp [pheromonesAt, he] at hp
  | some entry => exact h _ entry he p (by simpa [pheromonesAt, he] using hp)

lemma forall_update {i : Fin 257} {entry : Entry} (he : ∀ p ∈ entry.pheromones, P p) :
    ∀ j entry', update table i (some entry) j = some entry' → ∀ p ∈ entry'.pheromones, P p := by
  intro j entry' hj
  by_cases hne : j = i
  · subst hne
    rw [update_self, Option.some.injEq] at hj
    exact hj ▸ he
  · rw [update_of_ne hne] at hj
    exact h j entry' hj

end Neuropil.Pheromone.Table
