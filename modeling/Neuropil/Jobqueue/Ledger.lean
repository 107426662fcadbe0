import Neuropil.Jobqueue.Heap
import Neuropil.Lib.Run

namespace Neuropil.Jobqueue.Ledger

open Function Multiset Jobqueue.Heap Lib.Run

section

/-- A job of `np_jobqueue.h`. What it runs (event, target and callbacks) is a number. -/
structure Job (T : Type) where
  work : ℕ
  exec_not_before_tstamp : T
  interval : T
  is_periodic : Bool
  priority : ℕ

variable {T : Type} [LinearOrder T] [Zero T] [Add T]

def compareJobScheduling (job1 new_job : Job T) : Int :=
  if job1.exec_not_before_tstamp > new_job.exec_not_before_tstamp then -1
  else if job1.exec_not_before_tstamp < new_job.exec_not_before_tstamp then 1
  else if job1.priority > new_job.priority then -1
  else if job1.priority < new_job.priority then 1
  else 0

def jobCompare (i j : Job T) : Bool := compareJobScheduling j i == -1

def zeroJob : Job T := ⟨0, 0, 0, false, 0⟩

structure JobqueueModule (T : Type) where
  job_queues : ℕ → Binheap (Job T)
  periodic_jobs : ℕ

/-- A call of `_np_jobqueue_insert`. It reads the counter of periodic jobs
before it takes the lock of the queue. -/
structure InsertCall (T : Type) where
  job : Job T
  rerun : Bool
  periodic_jobs : Option ℕ

structure State (T : Type) where
  queue : JobqueueModule T
  running : List (Job T)
  calls : List (InsertCall T)

/-- A failed assertion. Of an insertion it is known whether it puts a job back after a run. -/
inductive Fault
  | priority (rerun : Bool)
  | insert (rerun : Bool) (fault : HeapFault)
  | maxPrio
  | select (fault : HeapFault)
  | catastrophic
  deriving DecidableEq

def init (jobqueue_size : ℕ) : State T := ⟨⟨fun _ => binheapInit jobqueue_size zeroJob, 0⟩, [], []⟩

/-- The entry of `_np_jobqueue_insert`: without worker threads every job goes to one queue. -/
def enterInsert (n_threads : ℕ) (s : State T) (job : Job T) (rerun : Bool) :
    Except Fault (State T) :=
  if job.priority ≤ 4 then
    let job := if n_threads = 0 then { job with priority := 0 } else job
    .ok { s with calls := s.calls ++ [⟨job, rerun, none⟩] }
  else .error (.priority rerun)

-- The subtraction is in `int`.
def discards (heap : Binheap (Job T)) (periodic_jobs : ℕ) : Bool :=
  (heap.count : ℤ) + 1 ≥ (heap.size : ℤ) - periodic_jobs

def lockedInsert (heap : Binheap (Job T)) (job : Job T) (periodic_jobs : ℕ) :
    Except HeapFault (Option (Binheap (Job T))) :=
  if job.is_periodic then (binheapInsert jobCompare heap job).map some
  else if discards heap periodic_jobs then .ok none
  else (binheapInsert jobCompare heap job).map some

def setQueue (s : State T) (priority : ℕ) (heap : Binheap (Job T)) : State T :=
  { s with queue := { s.queue with
      job_queues := Function.update s.queue.job_queues priority heap } }

def finishInsert (s : State T) (call : InsertCall T) (periodic_jobs : ℕ) : Except Fault (State T) :=
  match lockedInsert (s.queue.job_queues call.job.priority) call.job periodic_jobs with
  | .error fault => .error (.insert call.rerun fault)
  | .ok (some heap) => .ok (setQueue s call.job.priority heap)
  | .ok none => if call.rerun then .error .catastrophic else .ok s

/-- The search of `__np_jobqueue_select_job_to_run` from a queue on. A locked queue is skipped. A
first job due exactly now stays in its queue, but the time to sleep is zero and the zeroed buffer is
run. -/
def selectFrom (locked : ℕ → Bool) (now : T) :
    ℕ → ℕ → (due : Bool) → State T → Except HeapFault (State T)
  | 0, _, due, s => .ok (if due then { s with running := s.running ++ [zeroJob] } else s)
  | n + 1, queue_idx, due, s =>
    let heap := s.queue.job_queues queue_idx
    if locked queue_idx || binheapIsEmpty heap then selectFrom locked now n (queue_idx + 1) due s
    else do
      let next_job ← binheapFirst heap
      if now ≤ next_job.exec_not_before_tstamp then
        selectFrom locked now n (queue_idx + 1) (due || now == next_job.exec_not_before_tstamp) s
      else
        let (job, heap) ← binheapHead jobCompare heap
        let s := setQueue s queue_idx heap
        return { s with running := s.running ++ [job] }

def selectJobToRun (s : State T) (max_prio : ℕ) (locked : ℕ → Bool) (now : T) :
    Except Fault (State T) :=
  if max_prio ≤ 4 then
    match selectFrom locked now (max_prio + 1) 0 false s with
    | .error fault => .error (.select fault)
    | .ok s => .ok s
  else .error .maxPrio

inductive Event (T : Type)
  | submitEvent (work : ℕ) (tstamp interval : T) (priority : ℕ)
  | submitEventPeriodic (work : ℕ) (tstamp interval : T) (priority : ℕ)
  | readPeriodicJobs (i : ℕ)
  | insert (i : ℕ)
  | select (max_prio : ℕ) (locked : ℕ → Bool) (now : T)
  | runOnce (i : ℕ) (started_at now : T)

/-- One step of any producer or worker. `stored` is what `x = x++` leaves in the
counter: the assignment and the increment are unsequenced. -/
def step (n_threads : ℕ) (stored : ℕ → ℕ) (s : State T) : Event T → Except Fault (State T)
  | .submitEvent work tstamp interval priority =>
    enterInsert n_threads s ⟨work, tstamp, interval, false, priority⟩ false
  | .submitEventPeriodic work tstamp interval priority =>
    enterInsert n_threads
      { s with queue := { s.queue with periodic_jobs := stored s.queue.periodic_jobs % 65536 } }
      ⟨work, tstamp, interval, true, priority⟩ false
  | .readPeriodicJobs i => .ok { s with calls := s.calls.modify i (fun c =>
      if c.periodic_jobs.isNone then { c with periodic_jobs := some s.queue.periodic_jobs }
      else c) }
  | .insert i => match s.calls[i]? with
    | some ⟨job, rerun, some periodic_jobs⟩ =>
      finishInsert { s with calls := s.calls.eraseIdx i } ⟨job, rerun, some periodic_jobs⟩
        periodic_jobs
    | _ => .ok s
  | .select max_prio locked now => selectJobToRun s max_prio locked now
  | .runOnce i started_at now => match s.running[i]? with
    | some job =>
      let s := { s with running := s.running.eraseIdx i }
      if job.is_periodic then
        enterInsert n_threads s
          { job with exec_not_before_tstamp := max (started_at + job.interval) now } true
      else .ok s
    | none => .ok s

def after (n_threads jobqueue_size : ℕ) (stored : ℕ → ℕ) (events : List (Event T)) :
    Except Fault (State T) :=
  run (fun s e => s >>= (step n_threads stored · e)) (.ok (init jobqueue_size)) events

end

variable {T : Type}

def routed (n_threads priority : ℕ) : ℕ := if n_threads = 0 then 0 else priority

def Placed (n_threads : ℕ) (job : Job T) : Prop :=
  job.priority ≤ 4 ∧ routed n_threads job.priority = job.priority

variable (priority : ℕ)

def PeriodicIn (job : Job T) : Prop := job.is_periodic ∧ job.priority = priority

instance (q : ℕ) : DecidablePred (PeriodicIn (T := T) q) :=
  fun _ => inferInstanceAs (Decidable (_ ∧ _))

def periodicOf (jobs : Multiset (Job T)) : Multiset (ℕ × T) :=
  (jobs.filter (PeriodicIn priority)).map (fun j => (j.work, j.interval))

def inFlight (running : Multiset (Job T)) (calls : Multiset (Job T × Bool)) : ℕ :=
  running.countP (PeriodicIn priority) + calls.countP (fun c => c.2 ∧ c.1.priority = priority)

/-- The account of all jobs: in the queues, being run or in a call of the insertion. Every periodic
job in flight has a place reserved, and the periodic jobs are the submitted ones. -/
structure Sound (n_threads size : ℕ) (submitted : ℕ → Multiset (ℕ × T))
    (queued : ℕ → Multiset (Job T)) (running : Multiset (Job T))
    (calls : Multiset (Job T × Bool)) : Prop where
  placed_queued : ∀ q, ∀ j ∈ queued q, j.priority = q ∧ Placed n_threads j
  placed_running : ∀ j ∈ running, Placed n_threads j
  placed_calls : ∀ c ∈ calls, Placed n_threads c.1 ∧ (c.2 → c.1.is_periodic)
  room : ∀ q, (queued q).card + inFlight q running calls ≤ min size 32767
  kept : ∀ q, periodicOf q (queued q + running + calls.map Prod.fst) = submitted q

variable {n_threads size : ℕ} {submitted : ℕ → Multiset (ℕ × T)}
  {queued : ℕ → Multiset (Job T)} {running : Multiset (Job T)} {calls : Multiset (Job T × Bool)}

lemma periodicOf_add (s t : Multiset (Job T)) :
    periodicOf priority (s + t) = periodicOf priority s + periodicOf priority t := by
  simp [periodicOf]

lemma periodicOf_cons (job : Job T) (s : Multiset (Job T)) : periodicOf priority (job ::ₘ s) =
      (if PeriodicIn priority job then {(job.work, job.interval)} else 0) +
        periodicOf priority s := by
  by_cases h : PeriodicIn priority job
  · rw [periodicOf, filter_cons_of_pos _ h, map_cons, if_pos h, singleton_add, periodicOf]
  · rw [periodicOf, filter_cons_of_neg _ h, if_neg h, zero_add, periodicOf]

lemma inFlight_call (running : Multiset (Job T)) (calls : Multiset (Job T × Bool)) (priority : ℕ)
    (job : Job T) (rerun : Bool) : inFlight priority running ((job, rerun) ::ₘ calls) =
      (if rerun ∧ job.priority = priority then 1 else 0) + inFlight priority running calls := by
  simp only [inFlight, countP_cons]
  omega

lemma inFlight_run (job : Job T) : inFlight priority (job ::ₘ running) calls =
      (if PeriodicIn priority job then 1 else 0) + inFlight priority running calls := by
  simp only [inFlight, countP_cons]
  omega

lemma sound_init : Sound n_threads size (fun _ => 0) (fun _ => (0 : Multiset (Job T))) 0 0 := by
  constructor <;> simp [inFlight, periodicOf]

variable {job : Job T}

lemma Sound.submit (h : Sound n_threads size submitted queued running calls)
    (hjob : Placed n_threads job) :
    Sound n_threads size (fun q => (if PeriodicIn q job then
      {(job.work, job.interval)} else 0) + submitted q) queued running
      ((job, false) ::ₘ calls) where
  placed_queued := h.placed_queued
  placed_running := h.placed_running
  placed_calls := by
    intro c hc
    obtain rfl | hc := mem_cons.mp hc
    · exact ⟨hjob, by simp⟩
    · exact h.placed_calls c hc
  room := by
    intro q
    rw [inFlight_call]
    simpa using h.room q
  kept := by
    intro q
    rw [← h.kept q, map_cons, periodicOf_add, periodicOf_cons, periodicOf_add,
      periodicOf_add, periodicOf_add, add_left_comm]

lemma Sound.enqueue {rerun : Bool}
    (h : Sound n_threads size submitted queued running ((job, rerun) ::ₘ calls))
    (hroom : rerun = false →
      (queued job.priority).card + inFlight job.priority running calls < min size 32767) :
    Sound n_threads size submitted
      (update queued job.priority (job ::ₘ queued job.priority)) running calls where
  placed_queued := by
    intro q j hj
    by_cases hq : q = job.priority
    · subst hq
      rw [update_self, mem_cons] at hj
      obtain rfl | hj := hj
      · exact ⟨rfl, (h.placed_calls _ (mem_cons_self _ _)).1⟩
      · exact h.placed_queued _ j hj
    · rw [update_of_ne hq] at hj
      exact h.placed_queued q j hj
  placed_running := h.placed_running
  placed_calls := fun c hc => h.placed_calls c (mem_cons_of_mem hc)
  room := by
    intro q
    have hr := h.room q
    rw [inFlight_call] at hr
    by_cases hq : q = job.priority
    · subst hq
      rw [update_self, card_cons]
      cases rerun with
      | true =>
        simp only [and_self, if_true] at hr
        omega
      | false =>
        have := hroom rfl
        omega
    · rw [update_of_ne hq]
      omega
  kept := by
    intro q
    rw [← h.kept q, map_cons]
    by_cases hq : q = job.priority
    · subst hq
      rw [update_self, add_cons, cons_add, cons_add]
    · rw [update_of_ne hq, add_cons, periodicOf_cons, if_neg (fun hj => hq hj.2.symm), zero_add]

lemma Sound.discard (h : Sound n_threads size submitted queued running ((job, false) ::ₘ calls))
    (hjob : job.is_periodic = false) : Sound n_threads size submitted queued running calls where
  placed_queued := h.placed_queued
  placed_running := h.placed_running
  placed_calls := fun c hc => h.placed_calls c (mem_cons_of_mem hc)
  room := by
    intro q
    have hr := h.room q
    rw [inFlight_call] at hr
    omega
  kept := by
    intro q
    rw [← h.kept q, map_cons, add_cons, periodicOf_cons,
      if_neg (by simp [PeriodicIn, hjob]), zero_add]

section

variable (h : Sound n_threads size submitted queued running calls)
include h

lemma Sound.take {q : ℕ} {rest : Multiset (Job T)} (hq : queued q = job ::ₘ rest) :
    Sound n_threads size submitted (update queued q rest) (job ::ₘ running) calls := by
  have hjob := h.placed_queued q job (hq ▸ mem_cons_self job rest)
  constructor
  · intro p j hj
    by_cases hp : p = q
    · subst hp
      rw [update_self] at hj
      exact h.placed_queued p j (hq ▸ mem_cons_of_mem hj)
    · rw [update_of_ne hp] at hj
      exact h.placed_queued p j hj
  · intro j hj
    obtain rfl | hj := mem_cons.mp hj
    · exact hjob.2
    · exact h.placed_running j hj
  · exact h.placed_calls
  · intro p
    have hr := h.room p
    rw [inFlight_run]
    by_cases hp : p = q
    · subst hp
      rw [hq, card_cons] at hr
      rw [update_self]
      split <;> omega
    · rw [update_of_ne hp, if_neg (fun hj => hp (hj.2.symm.trans hjob.1))]
      omega
  · intro p
    rw [← h.kept p]
    by_cases hp : p = q
    · subst hp
      rw [update_self, hq, add_cons, cons_add, cons_add, cons_add]
    · rw [update_of_ne hp, add_cons, cons_add, periodicOf_cons,
        if_neg (fun hj => hp (hj.2.symm.trans hjob.1)), zero_add]

lemma Sound.idle [Zero T] :
    Sound n_threads size submitted queued (zeroJob ::ₘ running) calls where
  placed_queued := h.placed_queued
  placed_running := by
    intro j hj
    obtain rfl | hj := mem_cons.mp hj
    · exact ⟨by simp [zeroJob], by simp [zeroJob, routed]⟩
    · exact h.placed_running j hj
  placed_calls := h.placed_calls
  room := by
    intro q
    rw [inFlight_run, if_neg (by simp [PeriodicIn, zeroJob]), zero_add]
    exact h.room q
  kept := by
    intro q
    rw [← h.kept q, add_cons, cons_add, periodicOf_cons,
      if_neg (by simp [PeriodicIn, zeroJob]), zero_add]

end

lemma Sound.rerun (tstamp : T) (h : Sound n_threads size submitted queued (job ::ₘ running) calls)
    (hjob : job.is_periodic = true) :
    Sound n_threads size submitted queued running
      (({ job with exec_not_before_tstamp := tstamp }, true) ::ₘ calls) where
  placed_queued := h.placed_queued
  placed_running := fun j hj => h.placed_running j (mem_cons_of_mem hj)
  placed_calls := by
    intro c hc
    obtain rfl | hc := mem_cons.mp hc
    · exact ⟨h.placed_running job (mem_cons_self _ _), fun _ => hjob⟩
    · exact h.placed_calls c hc
  room := by
    intro q
    have hr := h.room q
    rw [inFlight_run] at hr
    rw [inFlight_call]
    simpa only [PeriodicIn, hjob] using hr
  kept := by
    intro q
    rw [← h.kept q, map_cons, add_cons, add_cons, cons_add, periodicOf_cons, periodicOf_cons]
    rfl

lemma Sound.finish (h : Sound n_threads size submitted queued (job ::ₘ running) calls)
    (hjob : job.is_periodic = false) : Sound n_threads size submitted queued running calls where
  placed_queued := h.placed_queued
  placed_running := fun j hj => h.placed_running j (mem_cons_of_mem hj)
  placed_calls := h.placed_calls
  room := by
    intro q
    have hr := h.room q
    rw [inFlight_run] at hr
    omega
  kept := by
    intro q
    rw [← h.kept q, add_cons, cons_add, periodicOf_cons,
      if_neg (by simp [PeriodicIn, hjob]), zero_add]

end Neuropil.Jobqueue.Ledger
