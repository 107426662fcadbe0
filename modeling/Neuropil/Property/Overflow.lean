import Mathlib.Algebra.Order.BigOperators.Group.List
import Neuropil.Property.Cache
import Neuropil.Util.Dll

namespace Neuropil.Property.Overflow

open List Lib.Fault Lib.LinkedList Util.Dll
open Key.Conditions (flagCmp)
open Property.Cache (PropertyConf policyFifo policyLifo)

def overflowReject : UInt32 := 0x10
def overflowPurge : UInt32 := 0x20

/-- A reference that is taken or released with `ref_msgproperty_msgcache`. -/
inductive RefOp
  | ref (msg : ℕ)
  | unref (msg : ℕ)
deriving DecidableEq

structure CacheRun where
  msg_cache : DllT ℕ
  refs : List RefOp

def newRun : CacheRun := ⟨dllInit, []⟩

/-- The message that has to go when the cache is full, and the reference to it. -/
def discardOld (conf : PropertyConf) (run : CacheRun) : Except Fault CacheRun := do
  let (old_msg, msg_cache) ←
    if flagCmp conf.cache_policy policyFifo then dllHead run.msg_cache
    else if flagCmp conf.cache_policy policyLifo then dllTail run.msg_cache
    else .ok (none, run.msg_cache)
  return ⟨msg_cache, run.refs ++ (old_msg.map RefOp.unref).toList⟩

def appendMsg (calloc : List ℕ → ℕ) (run : CacheRun) (message : ℕ) : Except Fault CacheRun := do
  let msg_cache ← dllAppend calloc run.msg_cache message
  return ⟨msg_cache, run.refs ++ [.ref message]⟩

def addMsgToCache (calloc : List ℕ → ℕ) (conf : PropertyConf) (run : CacheRun) (message : ℕ) :
    Except Fault CacheRun :=
  if conf.cache_size ≤ run.msg_cache.size.toNat then do
    let run ← if flagCmp conf.cache_policy overflowPurge then discardOld conf run else .ok run
    if flagCmp conf.cache_policy overflowReject then return run
    else appendMsg calloc run message
  else appendMsg calloc run message

inductive Order
  | fifo
  | lifo

inductive Excess
  | reject
  | purge

def cachePolicy : Order → Excess → UInt32
  | .fifo, .reject => policyFifo ||| overflowReject
  | .fifo, .purge => policyFifo ||| overflowPurge
  | .lifo, .reject => policyLifo ||| overflowReject
  | .lifo, .purge => policyLifo ||| overflowPurge

def clearPlace : Order → List ℕ → List ℕ
  | .fifo, cache => cache.tail
  | .lifo, cache => cache.dropLast

def insertMsg (order : Order) (excess : Excess) (size : ℕ) (cache : List ℕ) (message : ℕ) :
    List ℕ :=
  if cache.length < size then cache ++ [message]
  else
    match excess with
    | .reject => cache
    | .purge => clearPlace order cache ++ [message]

/-- The messages of an arrival sequence that a cache holds in the end: the oldest, the newest, or
the oldest with the newest one in the last place. -/
def kept (order : Order) (excess : Excess) (size : ℕ) (msgs : List ℕ) : List ℕ :=
  match excess, order with
  | .reject, _ => msgs.take size
  | .purge, .fifo => msgs.drop (msgs.length - size)
  | .purge, .lifo => msgs.take (size - 1) ++ (msgs.drop (size - 1)).getLast?.toList

def taken (run : CacheRun) (msg : ℕ) : ℕ := run.refs.count (.ref msg)
def released (run : CacheRun) (msg : ℕ) : ℕ := run.refs.count (.unref msg)

structure Holds (run : CacheRun) (cache : List ℕ) : Prop where
  listed : ∃ nodes, Represents run.msg_cache nodes ∧ nodes.map Node.val = cache
  balanced : ∀ msg, taken run msg = released run msg + cache.count msg

section

variable {order : Order} {excess : Excess} {size : ℕ}

lemma insertMsg_room {cache : List ℕ} (h : cache.length < size) (message : ℕ) :
    insertMsg order excess size cache message = cache ++ [message] :=
  if_pos h

lemma length_kept (hsize : 1 ≤ size) (msgs : List ℕ) :
    (kept order excess size msgs).length = min size msgs.length := by
  cases excess with
  | reject => rw [kept, length_take]
  | purge =>
    cases order with
    | fifo =>
      rw [kept, length_drop]
      omega
    | lifo =>
      rw [kept, length_append, length_take]
      by_cases hlen : msgs.length ≤ size - 1
      · rw [drop_eq_nil_of_le hlen]
        simp only [getLast?_nil, Option.toList_none, length_nil]
        omega
      · have hne : msgs.drop (size - 1) ≠ [] := by
          rw [ne_eq, drop_eq_nil_iff]
          exact hlen
        rw [getLast?_eq_getLast_of_ne_nil hne]
        simp only [Option.toList_some, length_singleton]
        omega

lemma kept_of_le (hsize : 1 ≤ size) {msgs : List ℕ} (hlen : msgs.length ≤ size) :
    kept order excess size msgs = msgs := by
  cases excess with
  | reject => exact take_of_length_le hlen
  | purge =>
    cases order with
    | fifo => rw [kept, Nat.sub_eq_zero_of_le hlen, drop_zero]
    | lifo =>
      by_cases hfull : msgs.length ≤ size - 1
      · rw [kept, take_of_length_le hfull, drop_eq_nil_of_le hfull]
        exact append_nil _
      · have hlen' : (msgs.drop (size - 1)).length = 1 := by
          rw [length_drop]
          omega
        obtain ⟨msg, hlast⟩ := length_eq_one_iff.1 hlen'
        rw [kept, hlast]
        change msgs.take (size - 1) ++ [msg] = msgs
        rw [← hlast, take_append_drop]

lemma kept_concat (hsize : 1 ≤ size) (msgs : List ℕ) (msg : ℕ) :
    kept order excess size (msgs ++ [msg]) =
      insertMsg order excess size (kept order excess size msgs) msg := by
  by_cases hfull : size ≤ msgs.length
  · have hlen : ¬ (kept order excess size msgs).length < size := by
      rw [length_kept hsize]
      omega
    simp only [insertMsg, if_neg hlen]
    cases excess with
    | reject => rw [kept, kept, take_append_of_le_length hfull]
    | purge =>
      cases order with
      | fifo =>
        have hd : (msgs ++ [msg]).length - size = msgs.length - size + 1 := by
          rw [length_append, length_singleton]
          omega
        change (msgs ++ [msg]).drop _ = (msgs.drop _).tail ++ [msg]
        rw [hd, tail_drop, drop_append_of_le_length (by omega)]
      | lifo =>
        have hne : msgs.drop (size - 1) ≠ [] := by
          rw [ne_eq, drop_eq_nil_iff]
          omega
        simp only [kept, clearPlace]
        rw [take_append_of_le_length (by omega), drop_append_of_le_length (by omega),
          getLast?_concat, getLast?_eq_getLast_of_ne_nil hne]
        simp only [Option.toList_some, dropLast_concat]
  · have hmore : (msgs ++ [msg]).length ≤ size := by
      rw [length_append, length_singleton]
      omega
    rw [kept_of_le hsize hmore, kept_of_le hsize (Nat.le_of_not_le hfull),
      insertMsg_room (Nat.lt_of_not_le hfull)]

end

section

variable {calloc : List ℕ → ℕ} {conf : PropertyConf} {order : Order} {excess : Excess}
  {run : CacheRun} {cache : List ℕ}

lemma holds_new : Holds newRun [] := ⟨⟨[], represents_init, rfl⟩, fun _ => rfl⟩

lemma Holds.size (h : Holds run cache) (hlen : cache.length < 2 ^ 32) :
    run.msg_cache.size.toNat = cache.length := by
  obtain ⟨nodes, hrep, rfl⟩ := h.listed
  rw [length_map] at hlen ⊢
  rw [hrep.size]
  exact UInt32.toNat_ofNat_of_lt' hlen

lemma holds_appendMsg (hcal : ∀ keys, calloc keys ∉ keys) (h : Holds run cache) (message : ℕ) :
    ∃ run', appendMsg calloc run message = .ok run' ∧ Holds run' (cache ++ [message]) := by
  obtain ⟨nodes, hrep, hcache⟩ := h.listed
  obtain ⟨msg_cache, addr, ha, hrep'⟩ := represents_append hcal hrep message
  refine ⟨⟨msg_cache, run.refs ++ [.ref message]⟩, ?_, ⟨_, hrep', ?_⟩, ?_⟩
  · rw [appendMsg, ha, ok_bind]
    rfl
  · rw [map_append, hcache]
    rfl
  · intro msg
    have hb := h.balanced msg
    simp only [taken, released, count_append, count_singleton, beq_iff_eq,
      RefOp.ref.injEq, reduceCtorEq, if_false] at hb ⊢
    omega

lemma holds_discardOld (hpol : conf.cache_policy = cachePolicy order .purge)
    (hne : cache ≠ []) (h : Holds run cache) :
    ∃ run', discardOld conf run = .ok run' ∧ Holds run' (clearPlace order cache) := by
  obtain ⟨nodes, hrep, rfl⟩ := h.listed
  cases order with
  | fifo =>
    have hfifo : flagCmp conf.cache_policy policyFifo = true := by
      rw [hpol]
      decide
    cases nodes with
    | nil => exact absurd rfl hne
    | cons n rest =>
      obtain ⟨msg_cache, hh, hrep'⟩ := represents_head hrep
      refine ⟨⟨msg_cache, run.refs ++ [.unref n.val]⟩, ?_, ⟨rest, hrep', rfl⟩, ?_⟩
      · rw [discardOld, if_pos hfifo, hh, ok_bind]
        rfl
      · intro msg
        have hb := h.balanced msg
        simp only [taken, released, clearPlace, count_append, map_cons,
          count_cons, count_nil, tail_cons, beq_iff_eq, RefOp.unref.injEq,
          reduceCtorEq, if_false] at hb ⊢
        omega
  | lifo =>
    have hfifo : ¬ flagCmp conf.cache_policy policyFifo = true := by
      rw [hpol]
      decide
    have hlifo : flagCmp conf.cache_policy policyLifo = true := by
      rw [hpol]
      decide
    obtain rfl | ⟨init, n, rfl⟩ := nodes.eq_nil_or_concat'
    · exact absurd rfl hne
    · obtain ⟨msg_cache, htail, hrep'⟩ := represents_tail hrep
      refine ⟨⟨msg_cache, run.refs ++ [.unref n.val]⟩, ?_, ⟨init, hrep', ?_⟩, ?_⟩
      · rw [discardOld, if_neg hfifo, if_pos hlifo, htail, ok_bind]
        rfl
      · rw [clearPlace, map_append, map_singleton, dropLast_concat]
      · intro msg
        have hb := h.balanced msg
        simp only [taken, released, clearPlace, count_append, count_singleton,
          map_append, map_singleton, dropLast_concat, beq_iff_eq, RefOp.unref.injEq,
          reduceCtorEq, if_false] at hb ⊢
        omega

lemma holds_addMsgToCache (hcal : ∀ keys, calloc keys ∉ keys)
    (hpol : conf.cache_policy = cachePolicy order excess) (hsize : 1 ≤ conf.cache_size)
    (hlen : cache.length < 2 ^ 32) (h : Holds run cache) (message : ℕ) :
    ∃ run', addMsgToCache calloc conf run message = .ok run' ∧
      Holds run' (insertMsg order excess conf.cache_size cache message) := by
  rw [addMsgToCache, h.size hlen]
  by_cases hfull : conf.cache_size ≤ cache.length
  · simp only [insertMsg, if_pos hfull, if_neg (Nat.not_lt.2 hfull)]
    cases excess with
    | reject =>
      have hpurge : ¬ flagCmp conf.cache_policy overflowPurge = true := by
        rw [hpol]
        cases order <;> decide
      have hrej : flagCmp conf.cache_policy overflowReject = true := by
        rw [hpol]
        cases order <;> decide
      refine ⟨run, ?_, h⟩
      rw [if_neg hpurge, ok_bind, if_pos hrej]
      rfl
    | purge =>
      have hpurge : flagCmp conf.cache_policy overflowPurge = true := by
        rw [hpol]
        cases order <;> decide
      have hrej : ¬ flagCmp conf.cache_policy overflowReject = true := by
        rw [hpol]
        cases order <;> decide
      have hne : cache ≠ [] := by
        intro hnil
        rw [hnil, length_nil] at hfull
        omega
      obtain ⟨run1, hd, hrun1⟩ := holds_discardOld hpol hne h
      obtain ⟨run2, ha, hrun2⟩ := holds_appendMsg hcal hrun1 message
      refine ⟨run2, ?_, ?_⟩
      · rw [if_pos hpurge, hd, ok_bind, if_neg hrej, ha]
      · exact hrun2
  · rw [insertMsg_room (Nat.lt_of_not_le hfull), if_neg hfull]
    exact holds_appendMsg hcal h message

end

/-- After any arrivals a cache holds what its policy keeps of them, no more than its size, and every
reference taken for a message is released or stands for its place in the cache. -/
theorem cache_keeps_by_policy {calloc : List ℕ → ℕ} (hcalloc : ∀ keys, calloc keys ∉ keys)
    {conf : PropertyConf} {order : Order} {excess : Excess}
    (hpolicy : conf.cache_policy = cachePolicy order excess) (hsize : 1 ≤ conf.cache_size)
    (hwidth : conf.cache_size < 2 ^ 16) (msgs : List ℕ) :
    ∃ run nodes, msgs.foldlM (addMsgToCache calloc conf) newRun = .ok run ∧
      Represents run.msg_cache nodes ∧ nodes.length ≤ conf.cache_size ∧
      nodes.map Node.val = kept order excess conf.cache_size msgs ∧
      ∀ msg, taken run msg = released run msg + (nodes.map Node.val).count msg := by
  have hrun : ∃ run, msgs.foldlM (addMsgToCache calloc conf) newRun = .ok run ∧
      Holds run (kept order excess conf.cache_size msgs) := by
    induction msgs using reverseRecOn with
    | nil => exact ⟨newRun, rfl, by rw [kept_of_le hsize (Nat.zero_le _)]; exact holds_new⟩
    | append_singleton msgs msg ih =>
      obtain ⟨run, hfold, hh⟩ := ih
      have hlen : (kept order excess conf.cache_size msgs).length < 2 ^ 32 := by
        rw [length_kept hsize]
        omega
      obtain ⟨run', hadd, hh'⟩ := holds_addMsgToCache hcalloc hpolicy hsize hlen hh msg
      refine ⟨run', ?_, ?_⟩
      · rw [foldlM_append, hfold, ok_bind, foldlM_cons, hadd, ok_bind]
        rfl
      · rwa [kept_concat hsize]
  obtain ⟨run, hfold, hh⟩ := hrun
  obtain ⟨nodes, hrep, hnds⟩ := hh.listed
  refine ⟨run, nodes, hfold, hrep, ?_, hnds, ?_⟩
  · rw [← length_map, hnds, length_kept hsize]
    exact Nat.min_le_left _ _
  · rw [hnds]
    exact hh.balanced

def nextAddr (keys : List ℕ) : ℕ := keys.sum + 1

lemma nextAddr_not_mem (keys : List ℕ) : nextAddr keys ∉ keys := by
  intro hmem
  have hle := le_sum_of_mem hmem
  rw [nextAddr] at hle
  omega

def smallStack : PropertyConf := ⟨policyLifo ||| overflowPurge, 2, 1, .ofWord 501, .ofWord 502⟩

theorem small_stack_keeps_by_policy :
    ∃ run nodes, [11, 12, 13, 14].foldlM (addMsgToCache nextAddr smallStack) newRun = .ok run ∧
      Represents run.msg_cache nodes ∧ nodes.map Node.val = [11, 14] ∧
      ∀ msg, taken run msg = released run msg + (nodes.map Node.val).count msg := by
  have hpol : smallStack.cache_policy = cachePolicy .lifo .purge := rfl
  obtain ⟨run, nodes, hfold, hrep, -, hnds, hb⟩ :=
    cache_keeps_by_policy nextAddr_not_mem hpol (by decide) (by decide) [11, 12, 13, 14]
  exact ⟨run, nodes, hfold, hrep, hnds, hb⟩

end Neuropil.Property.Overflow
