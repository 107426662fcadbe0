import Neuropil.Lib.Binary64
import Neuropil.Lib.Run
import Neuropil.Tree.Keyed

namespace Neuropil.Property.Uniqueness

open Function List Lib Lib.Fault Lib.Run Tree.RedBlack Tree.Removal Tree.Values Tree.Operations
  Tree.Keyed

inductive AudienceType
  | audPublic
  | audVirtual
  | audProtected
  | audPrivate
deriving DecidableEq

structure PropertyConf where
  unique_uuids_check : Bool
  is_internal : Bool
  audience_type : AudienceType
  max_threshold : ℕ

structure PropertyRun where
  unique_uuids : NpTree
  msg_threshold : ℕ
  callbacks : List (Option ℕ)
  user_callbacks : List ℕ

structure Message where
  uuid : Uuid
  tstamp : Double
  ttl : UInt32

def getExpiry (msg : Message) : Double :=
  ⟨Binary64.add msg.tstamp.bits (Binary64.ofNat msg.ttl.toNat)⟩

def isExpired (now : Double) (msg : Message) : Bool :=
  let remaining_ttl := Binary64.sub (getExpiry msg).bits now.bits
  Binary64.le remaining_ttl 0

def checkMsgUniquety (conf : PropertyConf) (run : PropertyRun) (msg : Message) :
    Except Fault (Bool × PropertyRun) :=
  if conf.unique_uuids_check then
    match treeFind run.unique_uuids (.uuid msg.uuid) with
    | none => do
      let unique_uuids ← treeInsert run.unique_uuids (.uuid msg.uuid) (.double (getExpiry msg))
      return (true, { run with unique_uuids := unique_uuids })
    | some _ => return (false, run)
  else return (true, run)

def toRemove (now : Double) (tree : NpTree) : List Uuid :=
  (entries tree.root).filterMap fun
    | (.uuid uuid, .double d) => if Binary64.lt d.bits now.bits then some uuid else none
    | _ => none

def jobMsgUniquety (conf : PropertyConf) (run : PropertyRun) (now : Double) :
    Except Fault PropertyRun :=
  if conf.unique_uuids_check then do
    let unique_uuids ← (toRemove now run.unique_uuids).foldlM
      (fun tree uuid => treeDel tree (.uuid uuid)) run.unique_uuids
    return { run with unique_uuids := unique_uuids }
  else return run

def thresholdIncrease (conf : PropertyConf) (run : PropertyRun) : PropertyRun :=
  if run.msg_threshold < conf.max_threshold then
    { run with msg_threshold := run.msg_threshold + 1 }
  else run

def thresholdDecrease (run : PropertyRun) : PropertyRun :=
  if run.msg_threshold > 0 then { run with msg_threshold := run.msg_threshold - 1 } else run

/-- A list of callbacks is called until one answers with false. The second component lists those
that were called. -/
def invoke (answer : ℕ → Bool) : Bool → List (Option ℕ) → Bool × List ℕ
  | false, _ => (false, [])
  | true, [] => (true, [])
  | true, none :: rest => invoke answer true rest
  | true, some callback :: rest =>
    let (ret, called) := invoke answer (answer callback) rest
    (ret, callback :: called)

structure Handled where
  run : PropertyRun
  ret : Bool
  called : List ℕ

def handleInMsg (conf : PropertyConf) (run : PropertyRun) (msg : Message) (answer : ℕ → Bool) :
    Except Fault Handled := do
  let (ret, run) ← checkMsgUniquety conf run msg
  let run := thresholdIncrease conf run
  let (ret, called) := invoke answer ret run.callbacks
  let (ret, called_by_user) :=
    if conf.is_internal = false ∧ conf.audience_type ≠ .audVirtual ∧ ret = true then
      invoke answer ret (run.user_callbacks.map some)
    else (ret, [])
  return ⟨thresholdDecrease run, ret, called ++ called_by_user⟩

inductive Event
  | message (now : Double) (msg : Message) (answer : ℕ → Bool)
  | housekeeping (now : Double)

def Event.now : Event → Double
  | .message now _ _ => now
  | .housekeeping now => now

/-- A property, and the messages handed to callbacks with the time they arrived. -/
structure State where
  run : PropertyRun
  handed : List (Double × Message)

def handle (conf : PropertyConf) (s : State) : Event → Except Fault State
  | .message now msg answer => do
    let handled ← handleInMsg conf s.run msg answer
    return ⟨handled.run, if handled.called = [] then s.handed else s.handed ++ [(now, msg)]⟩
  | .housekeeping now => do
    let run ← jobMsgUniquety conf s.run now
    return ⟨run, s.handed⟩

def step (conf : PropertyConf) (s : Except Fault State) (e : Event) : Except Fault State :=
  s >>= fun s => handle conf s e

def start (callbacks : List (Option ℕ)) (user_callbacks : List ℕ) : State :=
  ⟨⟨treeCreate, 0, callbacks, user_callbacks⟩, []⟩

/-- The uuids handed over with a copy that had not expired on its arrival. -/
def unexpiredUuids (s : State) : List Uuid :=
  (s.handed.filter fun h => !isExpired h.1 h.2).map fun h => h.2.uuid

def recordedExpiry (s : State) (uuid : Uuid) : Option Double :=
  match treeFind s.run.unique_uuids (.uuid uuid) with
  | some (.double d) => some d
  | _ => none

def InOrder (events : List Event) : Prop :=
  events.Pairwise fun e e' => Binary64.le e.now.bits e'.now.bits

/-- No copy of a message expires later than an earlier one that had not expired on arrival. -/
def NoLater : Event → Event → Prop
  | .message now msg _, .message _ copy _ =>
    msg.uuid = copy.uuid → isExpired now msg = false →
      Binary64.isNan (getExpiry msg).bits ∨ Binary64.le (getExpiry copy).bits (getExpiry msg).bits
  | _, _ => True

section

variable {conf : PropertyConf} {run run' : PropertyRun} {msg : Message} {now : Double}
  {answer : ℕ → Bool} {recorded : Uuid → Option Double} {handled : Handled}

def Records (run : PropertyRun) (recorded : Uuid → Option Double) : Prop :=
  HoldsKeyed uuidKind run.unique_uuids fun uuid => (recorded uuid).map .double

lemma Records.find (h : Records run recorded) (uuid : Uuid) :
    treeFind run.unique_uuids (.uuid uuid) = (recorded uuid).map .double :=
  HoldsKeyed.find h uuid

lemma checkMsgUniquety_spec (hconf : conf.unique_uuids_check = true)
    (h : Records run recorded) (msg : Message) :
    (recorded msg.uuid ≠ none ∧ checkMsgUniquety conf run msg = .ok (false, run)) ∨
      recorded msg.uuid = none ∧ ∃ unique_uuids,
        checkMsgUniquety conf run msg = .ok (true, { run with unique_uuids := unique_uuids }) ∧
        Records { run with unique_uuids := unique_uuids }
          (update recorded msg.uuid (some (getExpiry msg))) := by
  have hfind := h.find msg.uuid
  cases hr : recorded msg.uuid with
  | some d =>
    rw [hr] at hfind
    refine .inl ⟨by simp, ?_⟩
    simp only [checkMsgUniquety, hconf, if_true, hfind, Option.map_some]
    rfl
  | none =>
    have hnone : (recorded msg.uuid).map Treeval.double = none := by rw [hr]; rfl
    obtain ⟨tree, htree, hh⟩ := HoldsKeyed.insert h hnone
      (rfl : copyOfVal (.double (getExpiry msg)) = .ok (.double (getExpiry msg)))
    refine .inr ⟨rfl, tree, ?_, ?_⟩
    · rw [hr] at hfind
      have ht' : treeInsert run.unique_uuids (.uuid msg.uuid) (.double (getExpiry msg)) =
        .ok tree := htree
      simp only [checkMsgUniquety, hconf, if_true, hfind, Option.map_none, ht']
      rfl
    · have hmap := comp_update (Option.map Treeval.double) recorded msg.uuid
      change HoldsKeyed uuidKind tree
        (Option.map .double ∘ update recorded msg.uuid (some (getExpiry msg)))
      rw [hmap]
      exact hh

lemma mem_toRemove (h : Records run recorded) (uuid : Uuid) :
    uuid ∈ toRemove now run.unique_uuids ↔
      ∃ d, recorded uuid = some d ∧ Binary64.lt d.bits now.bits := by
  have he : ∀ d, (Key.uuid uuid, Treeval.double d) ∈ entries run.unique_uuids.root ↔
      recorded uuid = some d := by
    intro d
    refine (HoldsKeyed.mem_iff h).trans ⟨?_, fun hd => ⟨uuid, rfl, by rw [hd]; rfl⟩⟩
    rintro ⟨u, hu, hd⟩
    obtain ⟨d', hd', hval⟩ := Option.map_eq_some_iff.1 hd
    cases hval
    cases hu
    exact hd'
  simp only [← he, toRemove, mem_filterMap]
  constructor
  · rintro ⟨⟨key, val⟩, hmem, hsome⟩
    split at hsome
    · next uuid' d heq =>
      cases heq
      split at hsome
      · next hlt =>
        cases hsome
        exact ⟨d, hmem, hlt⟩
      · cases hsome
    · cases hsome
  · rintro ⟨d, hmem, hlt⟩
    exact ⟨_, hmem, if_pos hlt⟩

def unpassed (now : Double) (recorded : Uuid → Option Double) (uuid : Uuid) : Option Double :=
  (recorded uuid).filter fun d => !Binary64.lt d.bits now.bits

lemma jobMsgUniquety_spec (hconf : conf.unique_uuids_check = true) (h : Records run recorded)
    (now : Double) :
    ∃ unique_uuids, jobMsgUniquety conf run now = .ok { run with unique_uuids := unique_uuids } ∧
      Records { run with unique_uuids := unique_uuids } (unpassed now recorded) := by
  obtain ⟨tree, hfold, hh⟩ := HoldsKeyed.delAll h (toRemove now run.unique_uuids)
  have hf' : (toRemove now run.unique_uuids).foldlM
      (fun tree uuid => treeDel tree (.uuid uuid)) run.unique_uuids = .ok tree := hfold
  refine ⟨tree, ?_, ?_⟩
  · simp only [jobMsgUniquety, hconf, if_true, hf']
    rfl
  · have hmap : (fun uuid => if uuid ∈ toRemove now run.unique_uuids then none
        else (recorded uuid).map Treeval.double) =
        fun uuid => (unpassed now recorded uuid).map .double := by
      funext uuid
      simp only [mem_toRemove h, unpassed]
      cases hr : recorded uuid with
      | none => simp
      | some d => by_cases hlt : Binary64.lt d.bits now.bits <;> simp [hlt]
    rw [Records, ← hmap]
    exact hh

lemma thresholdIncrease_unique_uuids :
    (thresholdIncrease conf run).unique_uuids = run.unique_uuids := by
  unfold thresholdIncrease
  split <;> rfl

lemma thresholdDecrease_unique_uuids :
    (thresholdDecrease run).unique_uuids = run.unique_uuids := by
  unfold thresholdDecrease
  split <;> rfl

lemma handleInMsg_refused (h : checkMsgUniquety conf run msg = .ok (false, run)) :
    handleInMsg conf run msg answer =
      .ok ⟨thresholdDecrease (thresholdIncrease conf run), false, []⟩ := by
  have hno : ¬ (conf.is_internal = false ∧ conf.audience_type ≠ .audVirtual ∧ false = true) :=
    fun h => Bool.false_ne_true h.2.2
  simp only [handleInMsg, h, ok_bind, invoke, if_neg hno]
  rfl

lemma handleInMsg_run (h : checkMsgUniquety conf run msg = .ok (true, run')) (answer : ℕ → Bool) :
    ∃ handled, handleInMsg conf run msg answer = .ok handled ∧
      handled.run = thresholdDecrease (thresholdIncrease conf run') :=
  ⟨_, by rw [handleInMsg, h]; rfl, rfl⟩

lemma threshold_records (h : Records run recorded) :
    Records (thresholdDecrease (thresholdIncrease conf run)) recorded := by
  rw [Records, thresholdDecrease_unique_uuids, thresholdIncrease_unique_uuids]
  exact h

lemma handleInMsg_spec (hconf : conf.unique_uuids_check = true) (h : Records run recorded)
    (msg : Message) (answer : ℕ → Bool) : ∃ handled, handleInMsg conf run msg answer = .ok handled ∧
      ((recorded msg.uuid ≠ none ∧ handled.called = [] ∧ Records handled.run recorded) ∨
        recorded msg.uuid = none ∧ Records handled.run
          (update recorded msg.uuid (some (getExpiry msg)))) := by
  obtain ⟨hr, hchk⟩ | ⟨hr, tree, hchk, hrec⟩ := checkMsgUniquety_spec hconf h msg
  · exact ⟨_, handleInMsg_refused hchk, .inl ⟨hr, rfl, threshold_records h⟩⟩
  · obtain ⟨handled, hh, hrun⟩ := handleInMsg_run hchk answer
    refine ⟨handled, hh, .inr ⟨hr, ?_⟩⟩
    rw [hrun]
    exact threshold_records hrec

end

section

variable {conf : PropertyConf} {events : List Event} {s : State} {e : Event}

structure Once (events : List Event) (s : State) (recorded : Uuid → Option Double) : Prop where
  records : Records s.run recorded
  arrived : ∀ h ∈ s.handed, ∃ answer, Event.message h.1 h.2 answer ∈ events
  kept : ∀ h ∈ s.handed, isExpired h.1 h.2 = false →
    recorded h.2.uuid = some (getExpiry h.2) ∨
      ∃ e ∈ events, Binary64.lt (getExpiry h.2).bits e.now.bits
  nodup : (unexpiredUuids s).Nodup

lemma mem_unexpiredUuids {uuid : Uuid} :
    uuid ∈ unexpiredUuids s ↔ ∃ h ∈ s.handed, isExpired h.1 h.2 = false ∧ h.2.uuid = uuid := by
  simp [unexpiredUuids, and_assoc]

variable {recorded : Uuid → Option Double} {answer : ℕ → Bool}

section

variable (h : Once events s recorded)
include h

lemma Once.not_mem {now : Double} {msg : Message}
    (ho : ∀ e ∈ events, Binary64.le e.now.bits now.bits)
    (hltr : ∀ e ∈ events, NoLater e (.message now msg answer)) (hr : recorded msg.uuid = none)
    (hfr : isExpired now msg = false) : msg.uuid ∉ unexpiredUuids s := by
  rw [mem_unexpiredUuids]
  rintro ⟨handed, hmem, hu, huuid⟩
  obtain ⟨answer', ha⟩ := h.arrived handed hmem
  obtain hrec | ⟨e, he, hps⟩ := h.kept handed hmem hu
  · rw [huuid, hr] at hrec
    cases hrec
  · have hlt := Binary64.lt_of_lt_of_le hps (ho e he)
    obtain hnan | hle := hltr _ ha huuid hu
    · rw [(Binary64.lt_iff.1 hlt).1] at hnan
      cases hnan
    · have hcopy := Binary64.sub_le_zero_of_lt (Binary64.lt_of_le_of_lt hle hlt)
      rw [isExpired, hcopy] at hfr
      cases hfr

lemma Once.extend {run : PropertyRun} (hrcr : Records run recorded) (e : Event) :
    Once (events ++ [e]) { s with run := run } recorded := by
  refine ⟨hrcr, ?_, ?_, h.nodup⟩
  · intro handed hmem
    obtain ⟨answer, he⟩ := h.arrived handed hmem
    exact ⟨answer, mem_append_left _ he⟩
  · intro handed hmem hu
    obtain hrec | ⟨e', he', hps⟩ := h.kept handed hmem hu
    · exact .inl hrec
    · exact .inr ⟨e', mem_append_left _ he', hps⟩

lemma Once.record {run : PropertyRun} {uuid : Uuid} {expiry : Double} (hr : recorded uuid = none)
    (hrcr : Records run (update recorded uuid (some expiry))) :
    Once events { s with run := run } (update recorded uuid (some expiry)) := by
  refine ⟨hrcr, h.arrived, fun handed hmem hu => ?_, h.nodup⟩
  obtain hrec | hps := h.kept handed hmem hu
  · have hne : handed.2.uuid ≠ uuid := by
      intro heq
      rw [heq, hr] at hrec
      cases hrec
    exact .inl (by rw [update_of_ne hne, hrec])
  · exact .inr hps

lemma Once.hand {now : Double} {msg : Message} (he : .message now msg answer ∈ events)
    (hrec : recorded msg.uuid = some (getExpiry msg))
    (hnot : isExpired now msg = false → msg.uuid ∉ unexpiredUuids s) :
    Once events { s with handed := s.handed ++ [(now, msg)] } recorded := by
  refine ⟨h.records, ?_, ?_, ?_⟩
  · intro handed hmem
    obtain hmem | hmem := mem_append.1 hmem
    · exact h.arrived handed hmem
    · cases mem_singleton.1 hmem
      exact ⟨answer, he⟩
  · intro handed hmem hu
    obtain hmem | hmem := mem_append.1 hmem
    · exact h.kept handed hmem hu
    · cases mem_singleton.1 hmem
      exact .inl hrec
  · by_cases hfr : isExpired now msg = false
    · have ha : unexpiredUuids { s with handed := s.handed ++ [(now, msg)] } =
          unexpiredUuids s ++ [msg.uuid] := by
        simp [unexpiredUuids, hfr]
      rw [ha]
      rw [← concat_eq_append]
      exact h.nodup.concat (hnot hfr)
    · have ha : unexpiredUuids { s with handed := s.handed ++ [(now, msg)] } =
          unexpiredUuids s := by
        simp [unexpiredUuids, hfr]
      rw [ha]
      exact h.nodup

end

section

variable (hconf : conf.unique_uuids_check = true) (h : Once events s recorded)
include hconf h

lemma message_once {now : Double} {msg : Message}
    (ho : ∀ e ∈ events, Binary64.le e.now.bits now.bits)
    (hltr : ∀ e ∈ events, NoLater e (.message now msg answer)) :
    ∃ s' recorded', handle conf s (.message now msg answer) = .ok s' ∧
      Once (events ++ [.message now msg answer]) s' recorded' := by
  obtain ⟨handled, hh, hcases⟩ := handleInMsg_spec hconf h.records msg answer
  refine ⟨⟨handled.run, if handled.called = [] then s.handed else s.handed ++ [(now, msg)]⟩, ?_⟩
  obtain ⟨-, hcal, hrec⟩ | ⟨hr, hrec⟩ := hcases
  · refine ⟨recorded, by rw [handle, hh]; rfl, ?_⟩
    rw [if_pos hcal]
    exact h.extend hrec _
  · refine ⟨update recorded msg.uuid (some (getExpiry msg)), by rw [handle, hh]; rfl, ?_⟩
    have hrcr := (h.extend h.records (.message now msg answer)).record hr hrec
    by_cases hcal : handled.called = []
    · rw [if_pos hcal]
      exact hrcr
    · rw [if_neg hcal]
      exact hrcr.hand (mem_append_right events mem_cons_self)
        (update_self ..)
        (fun hfr => h.not_mem ho hltr hr hfr)

lemma housekeeping_once (now : Double) : ∃ s', handle conf s (.housekeeping now) = .ok s' ∧
      Once (events ++ [.housekeeping now]) s' (unpassed now recorded) := by
  obtain ⟨tree, hjob, hrcr⟩ := jobMsgUniquety_spec hconf h.records now
  refine ⟨⟨{ s.run with unique_uuids := tree }, s.handed⟩, by rw [handle, hjob]; rfl, hrcr,
    ?_, ?_, h.nodup⟩
  · intro handed hmem
    obtain ⟨answer, hevent⟩ := h.arrived handed hmem
    exact ⟨answer, mem_append_left _ hevent⟩
  · intro handed hmem hu
    obtain hrec | ⟨e, he, hps⟩ := h.kept handed hmem hu
    · by_cases hlt : Binary64.lt (getExpiry handed.2).bits now.bits
      · exact .inr ⟨.housekeeping now, by simp, hlt⟩
      · exact .inl (by simp [unpassed, hrec, hlt])
    · exact .inr ⟨e, mem_append_left _ he, hps⟩

end

lemma start_once (callbacks : List (Option ℕ)) (user_callbacks : List ℕ) :
    Once [] (start callbacks user_callbacks) fun _ => none where
  records := holdsKeyed_create
  arrived _ hmem := nomatch hmem
  kept _ hmem := nomatch hmem
  nodup := nodup_nil

def Reached (events : List Event) (r : Except Fault State) : Prop :=
  InOrder events → events.Pairwise NoLater → ∃ s recorded, r = .ok s ∧ Once events s recorded

lemma step_reached (hconf : conf.unique_uuids_check = true) (events : List Event)
    (r : Except Fault State) (e : Event) (h : Reached events r) :
    Reached (events ++ [e]) (step conf r e) := by
  intro ho hltr
  obtain ⟨ho, -, hb⟩ := pairwise_append.1 ho
  obtain ⟨hltr, -, hcps⟩ := pairwise_append.1 hltr
  obtain ⟨s, recorded, rfl, honce⟩ := h ho hltr
  cases e with
  | message now msg answer =>
    have hnow : ∀ e ∈ events, Binary64.le e.now.bits now.bits :=
      fun e he => hb e he (.message now msg answer) mem_cons_self
    have hcopy : ∀ e ∈ events, NoLater e (.message now msg answer) :=
      fun e he => hcps e he (.message now msg answer) mem_cons_self
    exact message_once hconf honce hnow hcopy
  | housekeeping now =>
    obtain ⟨s', hs', ho'⟩ := housekeeping_once hconf honce now
    exact ⟨s', _, hs', ho'⟩

lemma reached (hconf : conf.unique_uuids_check = true) (callbacks : List (Option ℕ))
    (user_callbacks : List ℕ) (events : List Event) :
    Reached events (run (step conf) (.ok (start callbacks user_callbacks)) events) :=
  run_inv_always Reached (fun _ _ => ⟨_, _, rfl, start_once callbacks user_callbacks⟩)
    (step_reached hconf) events

lemma Once.recordedExpiry_eq (h : Once events s recorded) (uuid : Uuid) :
    recordedExpiry s uuid = recorded uuid := by
  rw [recordedExpiry, h.records.find]
  cases recorded uuid <;> rfl

/-- As long as no copy of a message expires later than the first one, at most one unexpired copy is
handed to the callbacks, and housekeeping forgets the uuids whose expiry has passed. -/
theorem unexpired_copy_handed_once (hconf : conf.unique_uuids_check = true)
    (callbacks : List (Option ℕ)) (user_callbacks : List ℕ) (events : List Event)
    (horder : InOrder events) (hlater : events.Pairwise NoLater) :
    (∃ s, run (step conf) (.ok (start callbacks user_callbacks)) events = .ok s ∧
      (unexpiredUuids s).Nodup) ∧
    ∀ before now, before ++ [.housekeeping now] <+: events → ∃ s s',
      run (step conf) (.ok (start callbacks user_callbacks)) before = .ok s ∧
      run (step conf) (.ok (start callbacks user_callbacks)) (before ++ [.housekeeping now]) =
        .ok s' ∧
      ∀ uuid, recordedExpiry s' uuid =
        (recordedExpiry s uuid).filter fun d => !Binary64.lt d.bits now.bits := by
  have hrch := reached hconf callbacks user_callbacks
  constructor
  · obtain ⟨s, recorded, hs, ho⟩ := hrch events horder hlater
    exact ⟨s, hs, ho.nodup⟩
  · intro before now hpre
    have hb : before <+: events := (prefix_append _ _).trans hpre
    obtain ⟨s, recorded, hs, ho⟩ :=
      hrch before (horder.sublist hb.sublist) (hlater.sublist hb.sublist)
    obtain ⟨s', hs', ho'⟩ := housekeeping_once hconf ho now
    refine ⟨s, s', hs, ?_, fun uuid => ?_⟩
    · rw [run_concat, hs]
      exact hs'
    · rw [ho.recordedExpiry_eq, ho'.recordedExpiry_eq]
      rfl

end

def sampleConf : PropertyConf := ⟨true, false, .audPublic, 2⟩

def sampleUuid : Uuid := ⟨replicate 16 7, by decide⟩

def copyAt (tstamp : Double) : Message := ⟨sampleUuid, tstamp, 10⟩

def seconds (n : ℕ) : Double := ⟨Binary64.ofNat n⟩

def sameCopies : List Event :=
  [.message (seconds 1) (copyAt (seconds 0)) fun _ => true,
    .message (seconds 6) (copyAt (seconds 0)) fun _ => true, .housekeeping (seconds 11)]

theorem same_copies_handed_once :
    ∃ s, run (step sampleConf) (.ok (start [some 1] [])) sameCopies = .ok s ∧
      (unexpiredUuids s).Nodup := by
  have ho : InOrder sameCopies := by
    unfold InOrder
    decide +kernel
  have hltr : sameCopies.Pairwise NoLater := by
    simp only [sameCopies, pairwise_cons, List.Pairwise.nil, mem_cons, not_mem_nil,
      or_false, forall_eq_or_imp, forall_eq, NoLater, and_true, IsEmpty.forall_iff, implies_true]
    exact fun _ _ => .inr (by decide +kernel)
  exact (unexpired_copy_handed_once rfl [some 1] [] sameCopies ho hltr).1

/-- The message is redelivered with a timestamp five seconds later. Its first copy is forgotten when
the second one arrives, two seconds after the first expired. -/
theorem redelivered_copy_handed_again :
    ∃ s, run (step sampleConf) (.ok (start [some 1] []))
        [.message (seconds 1) (copyAt (seconds 0)) fun _ => true,
          .housekeeping (seconds 11),
          .message (seconds 12) (copyAt (seconds 5)) fun _ => true] = .ok s ∧
      unexpiredUuids s = [sampleUuid, sampleUuid] := by
  obtain ⟨s, hrun, hu⟩ := exists_ok (by decide +kernel :
    (run (step sampleConf) (.ok (start [some 1] []))
      [.message (seconds 1) (copyAt (seconds 0)) fun _ => true,
        .housekeeping (seconds 11),
        .message (seconds 12) (copyAt (seconds 5)) fun _ => true]).toOption.any fun s =>
          unexpiredUuids s == [sampleUuid, sampleUuid])
  exact ⟨s, hrun, eq_of_beq hu⟩

end Neuropil.Property.Uniqueness
