import Neuropil.Property.Redelivery
import Neuropil.Property.Uniqueness

namespace Neuropil.Property.Threshold

open Finset Function Nat Eventqueue.Chain Lib.Fault Lib.Run Response.Cleanup Property.Uniqueness
  Property.Redelivery Tree.Values Tree.Operations Tree.Keyed
open Key.Conditions (ackNone ackDestination flagCmp)

structure AckConf where
  property : PropertyConf
  ack_mode : UInt32
  redelivery : RedeliveryConf

structure State where
  run : PropertyRun
  response_handler : NpTree
  redelivery : RedeliveryMessages

def thresholdBreached (conf : PropertyConf) (run : PropertyRun) : Bool :=
  conf.max_threshold < run.msg_threshold

/-- What __is_receiver_token_available adds to the check of the event's type. -/
def sendAdmitted (conf : PropertyConf) (run : PropertyRun) (has_session : Bool) : Bool :=
  conf.is_internal || (!thresholdBreached conf run && has_session)

section

variable (conf : AckConf)

def handleOutMsg (run : PropertyRun) (answer : ℕ → Bool) : Handled :=
  let run := thresholdIncrease conf.property run
  let (user_result, called_by_user) :=
    if conf.property.audience_type ≠ .audVirtual ∧ conf.property.is_internal = false then
      invoke answer true (run.user_callbacks.map some)
    else (true, [])
  let (user_result, called) := invoke answer user_result run.callbacks
  let run := if flagCmp conf.ack_mode ackNone then thresholdDecrease run else run
  ⟨run, user_result, called_by_user ++ called⟩

structure Stored where
  uuid : Uuid
  message : ℕ
  send_at : Double
  target : Dhkey

def withStored (s : State) (msg : Stored) (tree : NpTree) : State :=
  { s with
    run := thresholdIncrease conf.property s.run
    redelivery :=
      { tree := tree
        data := update s.redelivery.data s.redelivery.fresh
          ⟨msg.target, addInterval conf.redelivery msg.send_at, msg.message⟩
        fresh := s.redelivery.fresh + 1 } }

def redeliverySet (s : State) (msg : Stored) : Except Response.Cleanup.Fault State :=
  match treeFind s.redelivery.tree (.uuid msg.uuid) with
  | some _ => .ok s
  | none => do
    let tree ←
      (treeInsert s.redelivery.tree (.uuid msg.uuid) (.void s.redelivery.fresh)).mapError .tree
    return withStored conf s msg tree

def responseHandlerSet (s : State) (uuid : Uuid) (p : ℕ) : Except Response.Cleanup.Fault State :=
  if conf.property.is_internal then
    match treeFind s.response_handler (.uuid uuid) with
    | some _ => .ok s
    | none => do
      let tree ← (treeInsert s.response_handler (.uuid uuid) (.void p)).mapError .tree
      return { s with response_handler := tree }
  else
    match treeFind s.redelivery.tree (.uuid uuid) with
    | none => .ok s
    | some _ => do
      let tree ← (treeDel s.redelivery.tree (.uuid uuid)).mapError .tree
      return { s with
        run := thresholdDecrease s.run
        redelivery := { s.redelivery with tree := tree } }

inductive Event
  | outgoing (has_session : Bool) (answer : ℕ → Bool)
  | store (msg : Stored)
  | redeliver (now : Double) (runtime : EventRuntime)
  -- an acknowledgement or a timeout
  | response (uuid : Uuid) (p : ℕ)

def handle (s : State) : Event → Except Response.Cleanup.Fault State
  | .outgoing has_session answer =>
    if sendAdmitted conf.property s.run has_session then
      .ok { s with run := (handleOutMsg conf s.run answer).run }
    -- the message goes to the cache
    else .ok s
  | .store msg => redeliverySet conf s msg
  | .redeliver now runtime => do
    let (_, redelivery) ←
      (redeliverMessages conf.redelivery now s.redelivery runtime).mapError .chain
    return { s with redelivery := redelivery }
  | .response uuid p => responseHandlerSet conf s uuid p

def step (s : Except Response.Cleanup.Fault State) (e : Event) :
    Except Response.Cleanup.Fault State :=
  s >>= fun s => handle conf s e

def start (callbacks : List (Option ℕ)) (user_callbacks : List ℕ) : State where
  run := ⟨treeCreate, 0, callbacks, user_callbacks⟩
  response_handler := treeCreate
  redelivery := ⟨treeCreate, fun _ => ⟨Dhkey.zero, ⟨0⟩, 0⟩, 0⟩

/-- The messages that are stored for redelivery, and neither acknowledged nor timed out. -/
def outstandingStep (outstanding : Finset Uuid) : Event → Finset Uuid
  | .store msg => insert msg.uuid outstanding
  | .response uuid _ => outstanding.erase uuid
  | _ => outstanding

def outstandingAfter (events : List Event) : Finset Uuid := Lib.Run.run outstandingStep ∅ events

/-- The threshold counts the messages that are outstanding, and no more of them are outstanding
than allowed while more can be sent. -/
structure Balanced (conf : AckConf) (outstanding : Finset Uuid) (s : State) : Prop where
  counted : s.run.msg_threshold = outstanding.card
  cleared : outstanding = ∅ → s.run.msg_threshold = 0
  limited : thresholdBreached conf.property s.run = false →
    outstanding.card ≤ conf.property.max_threshold

/-- The steps that the count survives: messages are sent at the limit only, and stored below it;
as many are late as there is room for, and no response is for a message of an internal property. -/
def Fits (s : State) : Event → Prop
  | .outgoing has_session _ => sendAdmitted conf.property s.run has_session = true →
    conf.property.max_threshold ≤ s.run.msg_threshold
  | .store msg => treeFind s.redelivery.tree (.uuid msg.uuid) = none →
    s.run.msg_threshold < conf.property.max_threshold
  | .redeliver now runtime => runtime.chained.length + (late now s.redelivery).length ≤ maxSize
  | .response uuid _ => conf.property.is_internal = true →
    treeFind s.redelivery.tree (.uuid uuid) = none

end

section

variable {conf : AckConf} {before : List Event} {s : State} {registered : Uuid → Option ℕ}

structure Counted (conf : AckConf) (before : List Event) (s : State)
    (registered : Uuid → Option ℕ) : Prop where
  stored : Registered s.redelivery registered
  responses : ∃ containers, HoldsKeyed uuidKind s.response_handler containers
  outstanding : ∀ uuid, registered uuid ≠ none ↔ uuid ∈ outstandingAfter before
  count : s.run.msg_threshold = (outstandingAfter before).card
  le_max : s.run.msg_threshold ≤ conf.property.max_threshold

lemma outstandingAfter_concat (before : List Event) (e : Event) :
    outstandingAfter (before ++ [e]) = outstandingStep (outstandingAfter before) e :=
  run_concat outstandingStep ∅ before e

lemma Counted.extend (h : Counted conf before s registered) {e : Event}
    (hsame : outstandingStep (outstandingAfter before) e = outstandingAfter before) :
    Counted conf (before ++ [e]) s registered := by
  rw [← outstandingAfter_concat] at hsame
  exact ⟨h.stored, h.responses, hsame ▸ h.outstanding, hsame ▸ h.count, h.le_max⟩

variable {run : PropertyRun}

lemma thresholdIncrease_of_lt {conf : PropertyConf} (h : run.msg_threshold < conf.max_threshold) :
    thresholdIncrease conf run = { run with msg_threshold := run.msg_threshold + 1 } := if_pos h

lemma thresholdIncrease_of_le {conf : PropertyConf} (h : conf.max_threshold ≤ run.msg_threshold) :
    thresholdIncrease conf run = run :=
  if_neg (not_lt.2 h)

lemma handleOutMsg_run (hack : flagCmp conf.ack_mode ackNone = false) (run : PropertyRun)
    (answer : ℕ → Bool) :
    (handleOutMsg conf run answer).run = thresholdIncrease conf.property run := by
  simp only [handleOutMsg, hack]
  rfl

section

variable (h : Counted conf before s registered)
include h

lemma Counted.find (uuid : Uuid) :
    treeFind s.redelivery.tree (.uuid uuid) = (registered uuid).map .void :=
  HoldsKeyed.find h.stored.holds uuid

lemma Counted.find_eq_none (uuid : Uuid) :
    treeFind s.redelivery.tree (.uuid uuid) = none ↔ uuid ∉ outstandingAfter before := by
  rw [h.find, Option.map_eq_none_iff, ← h.outstanding, not_not]

lemma Counted.balanced : Balanced conf (outstandingAfter before) s where
  counted := h.count
  cleared he := by rw [h.count, he, card_empty]
  limited _ := h.count ▸ h.le_max

end

lemma counted_start (conf : AckConf) (callbacks : List (Option ℕ)) (user_callbacks : List ℕ) :
    Counted conf [] (start callbacks user_callbacks) fun _ => none where
  stored := ⟨holdsKeyed_create, by simp, by simp⟩
  responses := ⟨fun _ => none, holdsKeyed_create⟩
  outstanding uuid := by simp [outstandingAfter, run_nil]
  count := rfl
  le_max := zero_le _

section

variable (h : Counted conf before s registered)
include h

lemma Counted.outgoing (hack : flagCmp conf.ack_mode ackNone = false) {has_session : Bool}
    {answer : ℕ → Bool} (hfits : Fits conf s (.outgoing has_session answer)) :
    ∃ s' registered', handle conf s (.outgoing has_session answer) = .ok s' ∧
      Counted conf (before ++ [.outgoing has_session answer]) s' registered' := by
  have hsame : handle conf s (.outgoing has_session answer) = .ok s := by
    rw [handle]
    split
    · next hsend =>
      rw [handleOutMsg_run hack, thresholdIncrease_of_le (hfits hsend)]
    · rfl
  exact ⟨s, registered, hsame, h.extend rfl⟩

lemma Counted.store {msg : Stored} (hfits : Fits conf s (.store msg)) :
    ∃ s' registered', handle conf s (.store msg) = .ok s' ∧
      Counted conf (before ++ [.store msg]) s' registered' := by
  have ha := outstandingAfter_concat before (.store msg)
  cases hfind : treeFind s.redelivery.tree (.uuid msg.uuid) with
  | some val =>
    have hmem : msg.uuid ∈ outstandingAfter before := by
      by_contra hnew
      rw [(h.find_eq_none msg.uuid).2 hnew] at hfind
      cases hfind
    refine ⟨s, registered, ?_, h.extend (insert_eq_of_mem hmem)⟩
    simp only [handle, redeliverySet, hfind]
  | none =>
    have hnew : msg.uuid ∉ outstandingAfter before := (h.find_eq_none msg.uuid).1 hfind
    have hnone : registered msg.uuid = none := by
      by_contra hsome
      exact hnew ((h.outstanding msg.uuid).1 hsome)
    obtain ⟨tree, hins, hreg⟩ := h.stored.insert hnone
      ⟨msg.target, addInterval conf.redelivery msg.send_at, msg.message⟩
    have hlt := hfits hfind
    refine ⟨withStored conf s msg tree, _, ?_, hreg, h.responses, fun uuid => ?_, ?_, ?_⟩
    · simp only [handle, redeliverySet, hfind, hins]
      rfl
    · rw [ha, outstandingStep, mem_insert, ← h.outstanding]
      by_cases hu : uuid = msg.uuid
      · rw [hu, update_self]
        simp
      · simp [hu]
    · rw [ha, outstandingStep, card_insert_of_notMem hnew, ← h.count, withStored,
        thresholdIncrease_of_lt hlt]
    · rw [withStored, thresholdIncrease_of_lt hlt]
      exact hlt

lemma Counted.redeliver {now : Double} {runtime : EventRuntime}
    (hfits : Fits conf s (.redeliver now runtime)) :
    ∃ s' registered', handle conf s (.redeliver now runtime) = .ok s' ∧
      Counted conf (before ++ [.redeliver now runtime]) s' registered' := by
  obtain ⟨data, hd⟩ := h.stored.redeliver conf.redelivery now runtime
  obtain ⟨-, runtime', hok, -⟩ | ⟨hfull, -⟩ := addEvents_spec runtime
    ((late now s.redelivery).map fun e => redeliveryEvent conf.redelivery (s.redelivery.data e.2))
  · refine ⟨{ s with redelivery := { s.redelivery with data := data } }, registered, ?_, ?_⟩
    · rw [handle, hd, hok]
      rfl
    · have hd : Counted conf before
          { s with redelivery := { s.redelivery with data := data } } registered :=
        ⟨h.stored.withData data, h.responses, h.outstanding, h.count, h.le_max⟩
      exact hd.extend rfl
  · rw [List.length_map] at hfull
    exact absurd hfits (not_le.2 hfull)

lemma Counted.handle_internal (hint : conf.property.is_internal = true) (uuid : Uuid) (p : ℕ) :
    ∃ response_handler,
      handle conf s (.response uuid p) = .ok { s with response_handler := response_handler } ∧
        ∃ containers, HoldsKeyed uuidKind response_handler containers := by
  obtain ⟨containers, hh⟩ := h.responses
  have hfind : treeFind s.response_handler (.uuid uuid) = containers uuid := HoldsKeyed.find hh uuid
  cases hc : containers uuid with
  | some val =>
    rw [hc] at hfind
    refine ⟨s.response_handler, ?_, containers, hh⟩
    simp only [handle, responseHandlerSet, hint, if_true, hfind]
  | none =>
    rw [hc] at hfind
    obtain ⟨tree, hins, hh'⟩ := hh.insert hc (rfl : copyOfVal (.void p) = .ok (.void p))
    have hi' : treeInsert s.response_handler (.uuid uuid) (.void p) = .ok tree := hins
    refine ⟨tree, ?_, _, hh'⟩
    simp only [handle, responseHandlerSet, hint, if_true, hfind, hi']
    rfl

lemma Counted.response {uuid : Uuid} {p : ℕ} (hfits : Fits conf s (.response uuid p)) :
    ∃ s' registered', handle conf s (.response uuid p) = .ok s' ∧
      Counted conf (before ++ [.response uuid p]) s' registered' := by
  have ha := outstandingAfter_concat before (.response uuid p)
  cases hint : conf.property.is_internal with
  | true =>
    have hnew : uuid ∉ outstandingAfter before := (h.find_eq_none uuid).1 (hfits hint)
    obtain ⟨response_handler, hh, hres⟩ := h.handle_internal hint uuid p
    have hkept : Counted conf before { s with response_handler := response_handler } registered :=
      ⟨h.stored, hres, h.outstanding, h.count, h.le_max⟩
    exact ⟨_, registered, hh, hkept.extend (erase_eq_of_notMem hnew)⟩
  | false =>
    cases hfind : treeFind s.redelivery.tree (.uuid uuid) with
    | none =>
      have hnew : uuid ∉ outstandingAfter before := (h.find_eq_none uuid).1 hfind
      refine ⟨s, registered, ?_, h.extend (erase_eq_of_notMem hnew)⟩
      simp only [handle, responseHandlerSet, hint, hfind]
      rfl
    | some val =>
      have hmem : uuid ∈ outstandingAfter before := by
        by_contra hnew
        rw [(h.find_eq_none uuid).2 hnew] at hfind
        cases hfind
      have hpos : 0 < s.run.msg_threshold := by
        rw [h.count]
        exact card_pos.2 ⟨uuid, hmem⟩
      obtain ⟨tree, hdel, hreg⟩ := h.stored.delete uuid
      refine ⟨{ s with run := thresholdDecrease s.run, redelivery := { s.redelivery with tree } },
        _, ?_, hreg, h.responses, fun u => ?_, ?_, ?_⟩
      · simp only [handle, responseHandlerSet, hint, hfind, hdel]
        rfl
      · rw [ha, outstandingStep, mem_erase, ← h.outstanding]
        by_cases hu : u = uuid
        · rw [hu, update_self]
          simp
        · simp [hu]
      · rw [ha, outstandingStep, card_erase_of_mem hmem, ← h.count, thresholdDecrease, if_pos hpos]
      · rw [thresholdDecrease, if_pos hpos]
        exact (sub_le _ _).trans h.le_max

end

def Good (conf : AckConf) (before : List Event) (res : Except Response.Cleanup.Fault State) :
    Prop :=
  ∃ s, res = .ok s ∧ Balanced conf (outstandingAfter before) s

def FitsRun (conf : AckConf) (res : Except Response.Cleanup.Fault State) (e : Event) : Prop :=
  ∀ s, res = .ok s → Fits conf s e

def Reached (conf : AckConf) (before : List Event) (res : Except Response.Cleanup.Fault State) :
    Prop :=
  ∃ s registered, res = .ok s ∧ Counted conf before s registered

section

variable (hack : flagCmp conf.ack_mode ackNone = false) (res : Except Response.Cleanup.Fault State)
  (e : Event) (h : Reached conf before res)
include hack res e h

lemma step_reached (hfits : FitsRun conf res e) :
    Reached conf (before ++ [e]) (step conf res e) := by
  obtain ⟨s, registered, rfl, h⟩ := h
  have hfits := hfits s rfl
  cases e with
  | outgoing has_session answer => exact h.outgoing hack hfits
  | store msg => exact h.store hfits
  | redeliver now runtime => exact h.redeliver hfits
  | response uuid p => exact h.response hfits

lemma step_not_good (hfits : ¬ FitsRun conf res e) :
    ¬ Good conf (before ++ [e]) (step conf res e) := by
  obtain ⟨s, registered, rfl, h⟩ := h
  have hfits : ¬ Fits conf s e := fun hs => hfits fun s' hs' => by cases hs'; exact hs
  rintro ⟨s', hs', hcnt, -, -⟩
  rw [outstandingAfter_concat] at hcnt
  have hs' : handle conf s e = .ok s' := hs'
  cases e with
  | outgoing has_session answer =>
    rw [Fits, Classical.not_imp, not_le] at hfits
    rw [handle, if_pos hfits.1, handleOutMsg_run hack, thresholdIncrease_of_lt hfits.2] at hs'
    cases hs'
    exact absurd (hcnt.trans h.count.symm) (succ_ne_self _)
  | store msg =>
    rw [Fits, Classical.not_imp, not_lt] at hfits
    obtain ⟨hfind, hle⟩ := hfits
    obtain ⟨tree, heq⟩ : ∃ tree, s' = withStored conf s msg tree := by
      simp only [handle, redeliverySet, hfind] at hs'
      obtain ⟨tree, -, htree⟩ := bind_eq_ok hs'
      exact ⟨tree, (Except.ok.inj htree).symm⟩
    rw [heq, withStored, thresholdIncrease_of_le hle, h.count, outstandingStep,
      card_insert_of_notMem ((h.find_eq_none msg.uuid).1 hfind)] at hcnt
    omega
  | redeliver now runtime =>
    obtain ⟨data, hd⟩ := h.stored.redeliver conf.redelivery now runtime
    obtain ⟨hroom, -⟩ | ⟨-, he⟩ := addEvents_spec runtime
      ((late now s.redelivery).map fun e => redeliveryEvent conf.redelivery (s.redelivery.data e.2))
    · rw [List.length_map] at hroom
      exact hfits hroom
    · rw [handle, hd, he] at hs'
      cases hs'
  | response uuid p =>
    rw [Fits, Classical.not_imp] at hfits
    obtain ⟨hint, hfind⟩ := hfits
    obtain ⟨response_handler, hh, -⟩ := h.handle_internal hint uuid p
    rw [hh] at hs'
    cases hs'
    have hmem : uuid ∈ outstandingAfter before := by
      by_contra hnew
      exact hfind ((h.find_eq_none uuid).2 hnew)
    have hpos : 0 < (outstandingAfter before).card := card_pos.2 ⟨uuid, hmem⟩
    rw [h.count, outstandingStep, card_erase_of_mem hmem] at hcnt
    omega

end

/-- For every run of a property whose messages are acknowledged: the threshold counts the
outstanding messages in every state exactly if all steps of the run fit. -/
theorem threshold_counts_iff (conf : AckConf) (callbacks : List (Option ℕ))
    (user_callbacks : List ℕ) (events : List Event)
    (hack : flagCmp conf.ack_mode ackNone = false) :
    (∀ before, before <+: events → Good conf before
        (Lib.Run.run (step conf) (.ok (start callbacks user_callbacks)) before)) ↔
      Admitted (step conf) (.ok (start callbacks user_callbacks)) (FitsRun conf) events := by
  refine good_iff_admitted (Reached conf) ?_ ?_ ?_ ?_ events
  · exact ⟨_, _, rfl, counted_start conf callbacks user_callbacks⟩
  · exact fun before res e h hfits => step_reached hack res e h hfits
  · rintro before res ⟨s, registered, rfl, h⟩
    exact ⟨s, rfl, h.balanced⟩
  · exact fun before res e h hfits => step_not_good hack res e h hfits

end

def acknowledgedConf : AckConf :=
  ⟨⟨false, false, .audPublic, 2⟩, ackDestination, ⟨Dhkey.ofWord 2, ⟨0⟩⟩⟩

def storedMessage (i : ℕ) : Stored := ⟨numberedUuid i, i, ⟨0⟩, Dhkey.ofWord 3⟩

theorem threshold_counts_stored :
    flagCmp acknowledgedConf.ack_mode ackNone = false ∧
    ((∀ before, before <+: [.store (storedMessage 1), .response (numberedUuid 1) 9] →
        Good acknowledgedConf before
          (Lib.Run.run (step acknowledgedConf) (.ok (start [] [])) before)) ↔
      Admitted (step acknowledgedConf) (.ok (start [] [])) (FitsRun acknowledgedConf)
        [.store (storedMessage 1), .response (numberedUuid 1) 9]) :=
  ⟨rfl, threshold_counts_iff acknowledgedConf [] [] _ rfl⟩

def sent (i : ℕ) : List Event := [.outgoing true fun _ => true, .store (storedMessage i)]

/-- A message sent, stored and acknowledged leaves the threshold at one, and with three messages
outstanding more can be sent although only two are allowed. -/
theorem threshold_miscounts :
    (∃ s, Lib.Run.run (step acknowledgedConf) (.ok (start [] []))
        (sent 1 ++ [.response (numberedUuid 1) 9]) = .ok s ∧ s.run.msg_threshold = 1 ∧
      outstandingAfter (sent 1 ++ [.response (numberedUuid 1) 9]) = ∅) ∧
    ∃ s, Lib.Run.run (step acknowledgedConf) (.ok (start [] [])) (sent 1 ++ sent 2 ++ sent 3) =
        .ok s ∧ thresholdBreached acknowledgedConf.property s.run = false ∧
      (outstandingAfter (sent 1 ++ sent 2 ++ sent 3)).card = 3 := by
  refine ⟨⟨_, rfl, rfl, ?_⟩, _, rfl, rfl, ?_⟩
  · decide
  · decide

end Neuropil.Property.Threshold
