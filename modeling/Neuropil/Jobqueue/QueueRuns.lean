import Mathlib.Algebra.GroupWithZero.Nat
import Neuropil.Jobqueue.Ledger

namespace Neuropil.Jobqueue.QueueRuns

open Function List Lib.Run Lib.Fault Jobqueue.Heap Jobqueue.Ledger

variable {T : Type}

def InsertCall.view (call : InsertCall T) : Job T × Bool := (call.job, call.rerun)

def calledFor (calls : List (InsertCall T)) : Multiset (Job T × Bool) :=
  (calls.map InsertCall.view : List _)

def heldJobs (s : State T) (priority : ℕ) : Multiset (Job T) :=
  (contents (s.queue.job_queues priority)).map BinheapNode.data + s.running +
    (calledFor s.calls).map Prod.fst

def submittedBy (n_threads priority : ℕ) : Event T → Multiset (ℕ × T)
  | .submitEventPeriodic work _ interval p =>
    if routed n_threads p = priority then {(work, interval)} else 0
  | _ => 0

def submitted (n_threads : ℕ) (events : List (Event T)) (priority : ℕ) : Multiset (ℕ × T) :=
  (events.map (submittedBy n_threads priority)).sum

structure Accounted (n_threads size : ℕ) (submitted : ℕ → Multiset (ℕ × T))
    (queued : ℕ → Multiset (Job T)) (s : State T) : Prop where
  holds : ∀ q, Holds (s.queue.job_queues q) (queued q)
  sizes : ∀ q, (s.queue.job_queues q).size = size
  sound : Sound n_threads size submitted queued s.running (calledFor s.calls)

/-- A fault of a submission, or of a worker with a priority that no queue has. -/
inductive Fault.OfSubmission : Fault → Prop
  | priority : OfSubmission (.priority false)
  | insert (fault : HeapFault) : OfSubmission (.insert false fault)
  | maxPrio : OfSubmission .maxPrio

variable {n_threads size : ℕ} {subs : ℕ → Multiset (ℕ × T)} {queued : ℕ → Multiset (Job T)}
  {s : State T}

section

variable (h : Accounted n_threads size subs queued s) (q : ℕ)
include h q

lemma Accounted.count_eq : (s.queue.job_queues q).count = (queued q).card := (h.holds q).count_eq

lemma Accounted.count_le : (s.queue.job_queues q).count ≤ 32767 := by
  have hroom := h.sound.room q
  rw [h.count_eq]
  omega

lemma Accounted.kept : periodicOf q (heldJobs s q) = subs q := by
  rw [heldJobs, (h.holds q).data_eq]
  exact h.sound.kept q

end

variable {heap : Binheap (Job T)} {jobs : Multiset (Job T)}

lemma holds_setQueue (h : ∀ q, Holds (s.queue.job_queues q) (queued q)) (priority : ℕ)
    (hh : Holds heap jobs) (q : ℕ) :
    Holds ((setQueue s priority heap).queue.job_queues q) (update queued priority jobs q) := by
  by_cases hq : q = priority
  · subst hq
    simpa only [setQueue, update_self] using hh
  · simpa only [setQueue, update_of_ne hq] using h q

lemma sizes_setQueue (h : ∀ q, (s.queue.job_queues q).size = size) (priority : ℕ)
    (hh : heap.size = size) (q : ℕ) :
    ((setQueue s priority heap).queue.job_queues q).size = size := by
  by_cases hq : q = priority
  · subst hq
    simpa only [setQueue, update_self] using hh
  · simpa only [setQueue, update_of_ne hq] using h q

lemma coe_concat {α : Type} (l : List α) (a : α) :
    ((l ++ [a] : List α) : Multiset α) = a ::ₘ (l : Multiset α) :=
  Multiset.coe_eq_coe.mpr (perm_append_singleton a l)

lemma calledFor_append (calls : List (InsertCall T)) (call : InsertCall T) :
    calledFor (calls ++ [call]) = (call.job, call.rerun) ::ₘ calledFor calls := by
  rw [calledFor, map_append, map_singleton, coe_concat]
  rfl

variable {i : ℕ}

lemma coe_eq_cons_eraseIdx {α : Type} {l : List α} {a : α} (h : l[i]? = some a) :
    (l : Multiset α) = a ::ₘ (l.eraseIdx i : List α) := by
  obtain ⟨hi, rfl⟩ := List.getElem?_eq_some_iff.mp h
  exact Multiset.coe_eq_coe.mpr (getElem_cons_eraseIdx_perm hi).symm

lemma calledFor_erase {calls : List (InsertCall T)} {call : InsertCall T}
    (h : calls[i]? = some call) :
    calledFor calls = (call.job, call.rerun) ::ₘ calledFor (calls.eraseIdx i) := by
  have hmap := congrArg (Multiset.map InsertCall.view) (coe_eq_cons_eraseIdx h)
  exact hmap

lemma map_modify_eq {α β : Type} (g : α → β) (f : α → α) (hf : ∀ a, g (f a) = g a) (l : List α)
    (i : ℕ) : (l.modify i f).map g = l.map g := by
  induction l generalizing i with
  | nil => simp
  | cons a l ih => cases i <;> simp [hf, ih]

lemma enterInsert_submit (h : Accounted n_threads size subs queued s) (job : Job T) :
    (∃ s', enterInsert n_threads s job false = .ok s' ∧
      Accounted n_threads size (fun q =>
        (if job.is_periodic ∧ routed n_threads job.priority = q then
        {(job.work, job.interval)} else 0) + subs q) queued s') ∨
    enterInsert n_threads s job false = .error (.priority false) := by
  unfold enterInsert
  by_cases hprio : job.priority ≤ 4
  · rw [if_pos hprio]
    refine .inl ⟨_, rfl, h.holds, h.sizes, ?_⟩
    have hjob : Placed n_threads
        (if n_threads = 0 then { job with priority := 0 } else job : Job T) := by
      by_cases hn : n_threads = 0
      · simp [hn, Placed, routed]
      · simp [hn, Placed, routed, hprio]
    have hsnd := h.sound.submit hjob
    rw [calledFor_append]
    by_cases hn : n_threads = 0
    · simpa [hn, PeriodicIn, routed] using hsnd
    · simpa [hn, PeriodicIn, routed] using hsnd
  · exact .inr (if_neg hprio)

lemma enterInsert_rerun {job : Job T} {running : List (Job T)} (tstamp : T)
    (holds : ∀ q, Holds (s.queue.job_queues q) (queued q))
    (sizes : ∀ q, (s.queue.job_queues q).size = size)
    (sound : Sound n_threads size subs queued (job ::ₘ running) (calledFor s.calls))
    (hjob : job.is_periodic = true) : ∃ s', enterInsert n_threads { s with running := running }
        { job with exec_not_before_tstamp := tstamp } true = .ok s' ∧
      Accounted n_threads size subs queued s' := by
  obtain ⟨hprio, hroute⟩ := sound.placed_running job (Multiset.mem_cons_self _ _)
  refine ⟨_, if_pos hprio, holds, sizes, ?_⟩
  rw [calledFor_append]
  have hsnd := sound.rerun tstamp hjob
  by_cases hn : n_threads = 0
  · rw [routed, if_pos hn] at hroute
    simpa [hn, hroute] using hsnd
  · simpa [hn] using hsnd

variable [LinearOrder T]

lemma lockedInsert_cases (h : Holds heap jobs) (job : Job T) (periodic_jobs : ℕ) :
    (∃ heap', lockedInsert heap job periodic_jobs = .ok (some heap') ∧
      Holds heap' (job ::ₘ jobs) ∧ heap'.size = heap.size ∧ heap.count < heap.size ∧
      (job.is_periodic ∨ discards heap periodic_jobs = false)) ∨
    (lockedInsert heap job periodic_jobs = .ok none ∧ job.is_periodic = false) ∨
    (lockedInsert heap job periodic_jobs = .error .full ∧ heap.size ≤ heap.count) := by
  have hins : (∃ heap', binheapInsert jobCompare heap job = .ok heap' ∧
      Holds heap' (job ::ₘ jobs) ∧ heap'.size = heap.size ∧ heap.count < heap.size) ∨
      (binheapInsert jobCompare heap job = .error .full ∧ heap.size ≤ heap.count) := by
    by_cases hroom : heap.count < heap.size
    · obtain ⟨heap', hok, hh, hsize⟩ := binheapInsert_holds jobCompare h hroom job
      exact .inl ⟨heap', hok, hh, hsize, hroom⟩
    · exact .inr ⟨binheapInsert_full job hroom, by omega⟩
  unfold lockedInsert
  by_cases hper : job.is_periodic
  · obtain ⟨heap', hok, hh, hsize, hroom⟩ | ⟨herr, hfull⟩ := hins
    · exact .inl ⟨heap', by simp [hper, hok, Except.map], hh, hsize, hroom, .inl hper⟩
    · exact .inr (.inr ⟨by simp [hper, herr, Except.map], hfull⟩)
  · by_cases hdis : discards heap periodic_jobs
    · exact .inr (.inl ⟨by simp [hper, hdis], by simpa using hper⟩)
    · have hdis' : discards heap periodic_jobs = false := by simpa using hdis
      obtain ⟨heap', hok, hh, hsize, hroom⟩ | ⟨herr, hfull⟩ := hins
      · exact .inl ⟨heap', by simp [hper, hdis', hok, Except.map], hh, hsize, hroom, .inr hdis'⟩
      · exact .inr (.inr ⟨by simp [hper, hdis', herr, Except.map], hfull⟩)

/-- If the job is put into its queue, there is still room for the periodic jobs
of this queue that are in flight. -/
def LeavesRoom (s : State T) (job : Job T) (periodic_jobs : ℕ) : Prop :=
  let heap := s.queue.job_queues job.priority
  (job.is_periodic ∨ discards heap periodic_jobs = false) → heap.count < heap.size →
    heap.count + inFlight job.priority s.running (calledFor s.calls) < min heap.size 32767

def Admissible : Except Fault (State T) → Event T → Prop
  | .ok s, .insert i => ∀ c ∈ s.calls[i]?, c.rerun = false →
      ∀ periodic_jobs ∈ c.periodic_jobs, LeavesRoom s c.job periodic_jobs
  | _, _ => True

lemma insert_accounted (h : Accounted n_threads size subs queued s)
    (hadm : Admissible (.ok s) (.insert i)) {job : Job T} {rerun : Bool} {periodic_jobs : ℕ}
    (hcall : s.calls[i]? = some ⟨job, rerun, some periodic_jobs⟩) :
    (∃ s' queued', finishInsert { s with calls := s.calls.eraseIdx i }
        ⟨job, rerun, some periodic_jobs⟩ periodic_jobs = .ok s' ∧
      Accounted n_threads size subs queued' s') ∨
    (∃ fault, finishInsert { s with calls := s.calls.eraseIdx i }
        ⟨job, rerun, some periodic_jobs⟩ periodic_jobs = .error (.insert false fault)) := by
  have hsnd := h.sound
  rw [calledFor_erase hcall] at hsnd
  have hfli := inFlight_call (s.running : Multiset (Job T)) (calledFor (s.calls.eraseIdx i))
  unfold finishInsert
  obtain ⟨heap', hok, hh, hsize, hroom, ha⟩ | ⟨hok, hper⟩ | ⟨herr, hfull⟩ :=
    lockedInsert_cases (h.holds job.priority) job periodic_jobs
  · left
    simp only [hok]
    refine ⟨_, _, rfl, holds_setQueue h.holds job.priority hh,
      sizes_setQueue h.sizes job.priority (hsize.trans (h.sizes _)), hsnd.enqueue ?_⟩
    rintro rfl
    have hlt := hadm _ hcall rfl periodic_jobs rfl ha hroom
    rw [calledFor_erase hcall, hfli, h.count_eq, h.sizes] at hlt
    simpa using hlt
  · cases rerun with
    | true =>
      have hper' := (hsnd.placed_calls _ (Multiset.mem_cons_self _ _)).2 rfl
      simp [hper] at hper'
    | false =>
      left
      simp only [hok]
      exact ⟨_, _, rfl, h.holds, h.sizes, hsnd.discard hper⟩
  · cases rerun with
    | true =>
      -- the place of the job is still reserved, so the queue is not full
      have hroom := hsnd.room job.priority
      rw [hfli, ← h.count_eq] at hroom
      rw [h.sizes] at hfull
      simp only [and_self, if_true] at hroom
      omega
    | false =>
      right
      simp only [herr]
      exact ⟨_, rfl⟩

variable [Zero T]

lemma selectFrom_accounted (h : Accounted n_threads size subs queued s) (locked : ℕ → Bool)
    (now : T) (n queue_idx : ℕ) (due : Bool) :
    ∃ s' queued', selectFrom locked now n queue_idx due s = .ok s' ∧
      Accounted n_threads size subs queued' s' := by
  induction n generalizing queue_idx due with
  | zero =>
    refine ⟨_, queued, rfl, ?_⟩
    cases due with
    | true =>
      refine ⟨h.holds, h.sizes, ?_⟩
      simpa only [if_true, coe_concat] using h.sound.idle
    | false => exact h
  | succ n ih =>
    simp only [selectFrom]
    split
    · exact ih (queue_idx + 1) due
    · rename_i ho
      simp only [binheapIsEmpty, Bool.or_eq_true, beq_iff_eq, not_or] at ho
      simp only [(binheapFirst_holds (h.holds queue_idx) ho.2).1, ok_bind]
      split
      · exact ih (queue_idx + 1) _
      · obtain ⟨heap', rest, hhead, hrest, hh, hsize⟩ := binheapHead_holds jobCompare
          (h.holds queue_idx) ho.2 (h.count_le queue_idx)
        simp only [hhead, ok_bind]
        refine ⟨_, _, rfl, holds_setQueue h.holds queue_idx hh,
          sizes_setQueue h.sizes queue_idx (hsize.trans (h.sizes _)), ?_⟩
        simpa only [setQueue, coe_concat] using h.sound.take hrest

variable [Add T]

lemma step_accounted (stored : ℕ → ℕ) (h : Accounted n_threads size subs queued s) (e : Event T)
    (hadm : Admissible (.ok s) e) :
    (∃ s' queued', step n_threads stored s e = .ok s' ∧
      Accounted n_threads size (fun q => submittedBy n_threads q e + subs q) queued' s') ∨
    (∃ fault, step n_threads stored s e = .error fault ∧ Fault.OfSubmission fault) := by
  have hkeep : ∀ {s' queued'}, (∀ q, submittedBy n_threads q e = 0) →
      Accounted n_threads size subs queued' s' →
      Accounted n_threads size (fun q => submittedBy n_threads q e + subs q) queued' s' := by
    intro s' queued' hnone hacc
    simpa only [hnone, zero_add] using hacc
  cases e with
  | submitEvent work tstamp interval priority =>
    obtain ⟨s', hok, hacc⟩ | herr := enterInsert_submit h ⟨work, tstamp, interval, false, priority⟩
    · exact .inl ⟨s', queued, hok, by simpa [submittedBy] using hacc⟩
    · exact .inr ⟨_, herr, .priority⟩
  | submitEventPeriodic work tstamp interval priority =>
    have hcount : Accounted n_threads size subs queued
        { s with queue :=
          { s.queue with periodic_jobs := stored s.queue.periodic_jobs % 65536 } } :=
      ⟨h.holds, h.sizes, h.sound⟩
    obtain ⟨s', hok, hacc⟩ | herr :=
      enterInsert_submit hcount ⟨work, tstamp, interval, true, priority⟩
    · exact .inl ⟨s', queued, hok, by simpa [submittedBy] using hacc⟩
    · exact .inr ⟨_, herr, .priority⟩
  | readPeriodicJobs i =>
    refine .inl ⟨_, queued, rfl, hkeep (fun _ => rfl) ⟨h.holds, h.sizes, ?_⟩⟩
    have hv : ∀ c : InsertCall T, InsertCall.view (if c.periodic_jobs.isNone then
        { c with periodic_jobs := some s.queue.periodic_jobs } else c) = InsertCall.view c := by
      intro c
      split <;> rfl
    simpa only [calledFor, map_modify_eq InsertCall.view _ hv] using h.sound
  | insert i =>
    simp only [step]
    split
    · rename_i job rerun periodic_jobs hcall
      obtain ⟨s', queued', hok, hacc⟩ | ⟨fault, herr⟩ := insert_accounted h hadm hcall
      · exact .inl ⟨s', queued', hok, hkeep (fun _ => rfl) hacc⟩
      · exact .inr ⟨_, herr, .insert fault⟩
    · exact .inl ⟨s, queued, rfl, hkeep (fun _ => rfl) h⟩
  | select max_prio locked now =>
    simp only [step, selectJobToRun]
    split
    · obtain ⟨s', queued', hok, hacc⟩ := selectFrom_accounted h locked now (max_prio + 1) 0 false
      simp only [hok]
      exact .inl ⟨s', queued', rfl, hkeep (fun _ => rfl) hacc⟩
    · exact .inr ⟨_, rfl, .maxPrio⟩
  | runOnce i started_at now =>
    simp only [step]
    split
    · rename_i job hjob
      have hsnd := h.sound
      rw [coe_eq_cons_eraseIdx hjob] at hsnd
      split
      · rename_i hper
        obtain ⟨s', hok, hacc⟩ := enterInsert_rerun (max (started_at + job.interval) now) h.holds
          h.sizes hsnd hper
        exact .inl ⟨s', queued, hok, hkeep (fun _ => rfl) hacc⟩
      · rename_i hper
        exact .inl ⟨_, queued, rfl,
          hkeep (fun _ => rfl) ⟨h.holds, h.sizes, hsnd.finish (by simpa using hper)⟩⟩
    · exact .inl ⟨s, queued, rfl, hkeep (fun _ => rfl) h⟩

/-- The periodic jobs are those submitted, each in its queue, being run or on its way back. If the
program stopped, then in a submission and not for want of room after a run. -/
inductive Good (n_threads : ℕ) (events : List (Event T)) : Except Fault (State T) → Prop
  | running {s : State T}
      (h : ∀ q, periodicOf q (heldJobs s q) = submitted n_threads events q) :
      Good n_threads events (.ok s)
  | aborted {fault : Fault} (h : Fault.OfSubmission fault) : Good n_threads events (.error fault)

inductive Reached (n_threads size : ℕ) (events : List (Event T)) : Except Fault (State T) → Prop
  | running {s : State T} {queued : ℕ → Multiset (Job T)}
      (h : Accounted n_threads size (submitted n_threads events) queued s) :
      Reached n_threads size events (.ok s)
  | aborted {fault : Fault} (h : Fault.OfSubmission fault) :
      Reached n_threads size events (.error fault)

omit [LinearOrder T] [Zero T] [Add T] in
lemma Reached.good {events : List (Event T)} {r : Except Fault (State T)}
    (h : Reached n_threads size events r) : Good n_threads events r := by
  cases h with
  | running h => exact .running h.kept
  | aborted h => exact .aborted h

omit [LinearOrder T] [Add T] in
lemma reached_init : Reached n_threads size [] (.ok (init size : State T)) := by
  have hsnd : Accounted n_threads size (submitted n_threads []) (fun _ => 0)
      (init size : State T) := by
    refine ⟨fun _ => holds_init _ _, fun _ => rfl, ?_⟩
    exact sound_init
  exact .running hsnd

lemma step_reached (stored : ℕ → ℕ) (events : List (Event T)) (r : Except Fault (State T))
    (e : Event T) (h : Reached n_threads size events r) (hadm : Admissible r e) :
    Reached n_threads size (events ++ [e]) (r >>= (step n_threads stored · e)) := by
  cases h with
  | running h =>
    have hsub : (fun q => submittedBy n_threads q e + submitted n_threads events q) =
        submitted n_threads (events ++ [e]) := by
      funext q
      simp [submitted, add_comm]
    rw [ok_bind]
    obtain ⟨s', queued', hok, hacc⟩ | ⟨fault, herr, hfault⟩ := step_accounted stored h e hadm
    · rw [hok]
      exact .running (hsub ▸ hacc)
    · rw [herr]
      exact .aborted hfault
  | aborted h => exact .aborted h

/-- If every submission put into a queue leaves room for the periodic jobs in flight, no periodic
job is lost and none lacks room after its run. -/
theorem periodic_jobs_kept (n_threads jobqueue_size : ℕ) (stored : ℕ → ℕ) (events : List (Event T))
    (hadm : Admitted (fun s e => s >>= (step n_threads stored · e)) (.ok (init jobqueue_size))
      Admissible events) :
    Good n_threads events (after n_threads jobqueue_size stored events) := by
  have hrch := run_inv _ reached_init (step_reached stored) events hadm
  exact hrch.good

instance (s : State T) (job : Job T) (periodic_jobs : ℕ) :
    Decidable (LeavesRoom s job periodic_jobs) :=
  inferInstanceAs (Decidable (_ → _ → _))

instance : (r : Except Fault (State T)) → (e : Event T) → Decidable (Admissible r e)
  | .ok s, .insert i => inferInstanceAs (Decidable (∀ c ∈ s.calls[i]?, _))
  | .ok _, .submitEvent _ _ _ _ => isTrue trivial
  | .ok _, .submitEventPeriodic _ _ _ _ => isTrue trivial
  | .ok _, .readPeriodicJobs _ => isTrue trivial
  | .ok _, .select _ _ _ => isTrue trivial
  | .ok _, .runOnce _ _ _ => isTrue trivial
  | .error _, _ => isTrue trivial

def twoPeriodic : List (Event ℕ) :=
  [.submitEventPeriodic 1 0 5 4, .readPeriodicJobs 0, .insert 0,
    .submitEventPeriodic 2 0 5 4, .readPeriodicJobs 0, .insert 0,
    .select 4 (fun _ => false) 1, .select 4 (fun _ => false) 1]

def putBack : List (Event ℕ) :=
  [.runOnce 0 1 2, .readPeriodicJobs 0, .insert 0, .runOnce 0 1 2, .readPeriodicJobs 0, .insert 0]

theorem two_periodic_jobs_kept :
    Good 2 (twoPeriodic ++ putBack) (after 2 3 id (twoPeriodic ++ putBack)) :=
  periodic_jobs_kept 2 3 id (twoPeriodic ++ putBack) (by decide)

/-- While the two jobs are run, one-shot jobs take their places in a queue of size 3, as the counter
of periodic jobs still is 0. -/
def oneShots : List (Event ℕ) :=
  [.submitEvent 3 9 0 4, .readPeriodicJobs 0, .insert 0,
    .submitEvent 4 9 0 4, .readPeriodicJobs 0, .insert 0]

def morePeriodic : List (Event ℕ) :=
  [.submitEventPeriodic 3 9 5 4, .readPeriodicJobs 0, .insert 0,
    .submitEventPeriodic 4 9 5 4, .readPeriodicJobs 0, .insert 0]

def faultOf {ε α : Type} : Except ε α → Option ε
  | .ok _ => none
  | .error fault => some fault

theorem periodic_job_finds_no_room :
    faultOf (after 2 3 id (twoPeriodic ++ oneShots ++ putBack)) = some (.insert true .full) ∧
      ∀ stored ∈ [id, Nat.succ],
        faultOf (after 2 3 stored (twoPeriodic ++ morePeriodic ++ putBack)) =
          some (.insert true .full) := by
  decide

end Neuropil.Jobqueue.QueueRuns
