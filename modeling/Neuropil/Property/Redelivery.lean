import Neuropil.Response.Cleanup

namespace Neuropil.Property.Redelivery

open Function List Eventqueue Eventqueue.Chain Lib Response.Cleanup Tree.Values Tree.Operations
  Tree.Keyed
open Key.Conditions (evtInternal evtMessage)

/-- np_redelivery_data_t; a message is known by its address. -/
structure RedeliveryData where
  target : Dhkey
  redelivery_at : Double
  message : ℕ

/-- The tree `redelivery_messages` of a property, and the data its elements point to. -/
structure RedeliveryMessages where
  tree : NpTree
  data : ℕ → RedeliveryData
  fresh : ℕ

/-- What a property is configured with for redelivery; the interval is `msg_ttl / (retry + 1)`. -/
structure RedeliveryConf where
  subject_dhkey_out : Dhkey
  resend_interval : Double

def addInterval (conf : RedeliveryConf) (at_time : Double) : Double :=
  ⟨Binary64.add at_time.bits conf.resend_interval.bits⟩

def isLate (now : Double) (d : RedeliveryData) : Bool := Binary64.lt d.redelivery_at.bits now.bits

def redeliveryEvent (conf : RedeliveryConf) (d : RedeliveryData) : ChainedEvent :=
  ⟨conf.subject_dhkey_out, evtMessage ||| evtInternal, d.target, .cloneOf d.message⟩

def redeliver (conf : RedeliveryConf) (now : Double) :
    EventRuntime × (ℕ → RedeliveryData) → Uuid × ℕ →
      Except Chain.Fault (EventRuntime × (ℕ → RedeliveryData))
  | (runtime, data), (_, p) =>
    if isLate now (data p) then do
      let runtime ← addEvent runtime (redeliveryEvent conf (data p))
      return (runtime, update data p
        { data p with redelivery_at := addInterval conf (data p).redelivery_at })
    else return (runtime, data)

def redeliverMessages (conf : RedeliveryConf) (now : Double) (messages : RedeliveryMessages)
    (runtime : EventRuntime) : Except Chain.Fault (EventRuntime × RedeliveryMessages) := do
  let (runtime, data) ← (handlers messages.tree).foldlM (redeliver conf now)
    (runtime, messages.data)
  return (runtime, { messages with data := data })

def late (now : Double) (messages : RedeliveryMessages) : List (Uuid × ℕ) :=
  (handlers messages.tree).filter fun e => isLate now (messages.data e.2)

structure Registered (messages : RedeliveryMessages) (registered : Uuid → Option ℕ) : Prop where
  holds : HoldsKeyed uuidKind messages.tree fun uuid => (registered uuid).map .void
  lt_fresh : ∀ uuid p, registered uuid = some p → p < messages.fresh
  distinct : ∀ uuid uuid' p, registered uuid = some p → registered uuid' = some p → uuid = uuid'

variable {conf : RedeliveryConf} {now : Double} {messages : RedeliveryMessages}
  {registered : Uuid → Option ℕ}

lemma redeliver_each (conf : RedeliveryConf) (now : Double) (runtime : EventRuntime)
    (data : ℕ → RedeliveryData) {items : List (Uuid × ℕ)} (h : (items.map Prod.snd).Nodup) :
    ∃ data', items.foldlM (redeliver conf now) (runtime, data) =
      addEvents runtime ((items.filter fun e => isLate now (data e.2)).map fun e =>
        redeliveryEvent conf (data e.2)) >>= fun runtime => .ok (runtime, data') := by
  induction items generalizing runtime data with
  | nil => exact ⟨data, rfl⟩
  | cons e items ih =>
    obtain ⟨uuid, p⟩ := e
    obtain ⟨hp, hrest⟩ := nodup_cons.1 h
    cases hlate : isLate now (data p) with
    | false =>
      obtain ⟨data', hd'⟩ := ih runtime data hrest
      refine ⟨data', ?_⟩
      rw [foldlM_cons, redeliver, hlate, filter_cons_of_neg (by rw [hlate]; decide)]
      exact hd'
    | true =>
      rw [foldlM_cons, redeliver, hlate, filter_cons_of_pos (by rw [hlate]),
        map_cons, addEvents_cons]
      cases addEvent runtime (redeliveryEvent conf (data p)) with
      | error fault => exact ⟨data, rfl⟩
      | ok runtime1 =>
        obtain ⟨data', hd'⟩ := ih runtime1 (update data p
          { data p with redelivery_at := addInterval conf (data p).redelivery_at }) hrest
        have ho : ∀ e ∈ items, update data p
            { data p with redelivery_at := addInterval conf (data p).redelivery_at } e.2 =
            data e.2 := by
          intro e he
          have hne : e.2 ≠ p := fun heq => hp (mem_map.2 ⟨e, he, heq⟩)
          exact update_of_ne hne _ _
        rw [filter_congr fun e he => by rw [ho e he], map_congr_left fun e he => by
          rw [ho e (mem_of_mem_filter he)]] at hd'
        exact ⟨data', hd'⟩

variable (h : Registered messages registered)
include h

lemma Registered.nodup_data : ((handlers messages.tree).map Prod.snd).Nodup := by
  have hnd := (ResponseHandler.mk messages.tree registered h.holds).nodup_uuids
  have hmem := (ResponseHandler.mk messages.tree registered h.holds).mem_handlers
  rw [List.Nodup, pairwise_map] at hnd ⊢
  refine hnd.imp_of_mem ?_
  rintro ⟨uuid, p⟩ ⟨uuid', p'⟩ he he' hne heq
  cases heq
  exact hne (h.distinct uuid uuid' p ((hmem uuid p).1 he) ((hmem uuid' p).1 he'))

lemma Registered.redeliver (conf : RedeliveryConf) (now : Double) (runtime : EventRuntime) :
    ∃ data', redeliverMessages conf now messages runtime =
      addEvents runtime ((late now messages).map fun e => redeliveryEvent conf (messages.data e.2))
        >>= fun runtime => .ok (runtime, { messages with data := data' }) := by
  obtain ⟨data', hd'⟩ := redeliver_each conf now runtime messages.data h.nodup_data
  refine ⟨data', ?_⟩
  rw [redeliverMessages, hd', late]
  cases addEvents runtime (((handlers messages.tree).filter fun e =>
    isLate now (messages.data e.2)).map fun e => redeliveryEvent conf (messages.data e.2)) with
  | error fault => rfl
  | ok runtime1 => rfl

lemma Registered.insert {uuid : Uuid} (hnew : registered uuid = none) (entry : RedeliveryData) :
    ∃ tree, treeInsert messages.tree (.uuid uuid) (.void messages.fresh) = .ok tree ∧
      Registered ⟨tree, update messages.data messages.fresh entry, messages.fresh + 1⟩
        (update registered uuid (some messages.fresh)) := by
  obtain ⟨tree, hins, hh⟩ := h.holds.insert (by rw [hnew]; rfl)
    (rfl : copyOfVal (.void messages.fresh) = .ok (.void messages.fresh))
  have hcases : ∀ u p, update registered uuid (some messages.fresh) u = some p →
      (u = uuid ∧ p = messages.fresh) ∨ (u ≠ uuid ∧ registered u = some p) := by
    intro u p hp
    by_cases hu : u = uuid
    · subst hu
      rw [update_self] at hp
      exact .inl ⟨rfl, (Option.some.inj hp).symm⟩
    · rw [update_of_ne hu] at hp
      exact .inr ⟨hu, hp⟩
  refine ⟨tree, hins, ?_, ?_, ?_⟩
  · have hmap : update (fun u => (registered u).map Treeval.void) uuid
        (some (.void messages.fresh)) =
        fun u => (update registered uuid (some messages.fresh) u).map .void :=
      (comp_update (Option.map Treeval.void) registered uuid (some messages.fresh)).symm
    rw [← hmap]
    exact hh
  · intro u p hp
    obtain ⟨-, rfl⟩ | ⟨-, hp⟩ := hcases u p hp
    · exact Nat.lt_succ_self _
    · exact (h.lt_fresh u p hp).trans (Nat.lt_succ_self _)
  · intro u v p hu hv
    obtain ⟨rfl, rfl⟩ | ⟨-, hu⟩ := hcases u p hu
    · obtain ⟨rfl, -⟩ | ⟨-, hv⟩ := hcases v _ hv
      · rfl
      · exact absurd (h.lt_fresh v _ hv) (Nat.lt_irrefl _)
    · obtain ⟨-, rfl⟩ | ⟨-, hv⟩ := hcases v p hv
      · exact absurd (h.lt_fresh u _ hu) (Nat.lt_irrefl _)
      · exact h.distinct u v p hu hv

lemma Registered.delete (uuid : Uuid) : ∃ tree, treeDel messages.tree (.uuid uuid) = .ok tree ∧
      Registered { messages with tree := tree } (update registered uuid none) := by
  obtain ⟨tree, hdel, hh⟩ := h.holds.del uuid
  have hkept : ∀ u p, update registered uuid none u = some p → registered u = some p := by
    intro u p hp
    by_cases hu : u = uuid
    · subst hu
      rw [update_self] at hp
      cases hp
    · rwa [update_of_ne hu] at hp
  refine ⟨tree, hdel, ?_, ?_, ?_⟩
  · have hmap : update (fun u => (registered u).map Treeval.void) uuid none =
        fun u => (update registered uuid none u).map .void :=
      (comp_update (Option.map Treeval.void) registered uuid none).symm
    rw [← hmap]
    exact hh
  · exact fun u p hp => h.lt_fresh u p (hkept u p hp)
  · exact fun u v p hu hv => h.distinct u v p (hkept u p hu) (hkept v p hv)

lemma Registered.withData (data : ℕ → RedeliveryData) :
    Registered { messages with data := data } registered :=
  ⟨h.holds, h.lt_fresh, h.distinct⟩

end Neuropil.Property.Redelivery
