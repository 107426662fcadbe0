import Neuropil.Eventqueue.Chain
import Neuropil.Key.Conditions
import Neuropil.Lib.LinkedList

namespace Neuropil.Property.Cache

open List Eventqueue.Chain Lib.Fault Lib.LinkedList
open Dhkey (ofWord)
open Key.Conditions (flagCmp evtInternal evtExternal evtMessage)

/-- `np_msgcache_policy_type`, as far as it orders the messages. -/
def policyFifo : UInt32 := 0x01
def policyLifo : UInt32 := 0x02

def evtUserspace : UInt32 := 0x0008

structure PropertyConf where
  cache_policy : UInt32
  cache_size : ℕ
  max_threshold : ℕ
  subject_dhkey_in : Dhkey
  subject_dhkey_out : Dhkey

/-- The key of a property that np_msgproperty_register has made for one direction. -/
structure PropertyKey where
  dhkey : Dhkey
  conf : PropertyConf
  own : dhkey = conf.subject_dhkey_out ∨ dhkey = conf.subject_dhkey_in
  in_ne_out : conf.subject_dhkey_in ≠ conf.subject_dhkey_out

structure PropertyRun where
  msg_cache : Dll ℕ
  msg_threshold : ℕ

/-- The end of the cache that a policy begins with, and the way it goes from there. -/
def cacheDirection (cache_policy : UInt32) : Option Direction :=
  if flagCmp cache_policy policyFifo then some .forward
  else if flagCmp cache_policy policyLifo then some .backward
  else none

def deref {α : Type} : Option α → Except Fault α
  | some a => .ok a
  | none => .error .useAfterFree

def takeMessage (dir : Option Direction) (select : ℕ → Bool) (cache : Dll ℕ) (peek : Option ℕ) :
    Except Fault (Option ℕ × Option ℕ) :=
  match dir with
  | none => .ok (none, peek)
  | some dir =>
    match peek.or (cache.start dir) with
    | none => .ok (none, none)
    | some p => do
      let msg ← deref (cache.val p)
      if select msg then
        let next ← deref (cache.link dir p)
        return (some msg, next)
      -- the cursor is not moved on from a message that is not taken
      else return (none, some p)

def release (emit : ℕ → List ChainedEvent) (runtime : EventRuntime) (cache : Dll ℕ) :
    Option ℕ → Except Fault (EventRuntime × Dll ℕ)
  | none => .ok (runtime, cache)
  | some msg => do
    let runtime ← addEvents runtime (emit msg)
    return (runtime, cache.remove msg)

def visitMessages (conf : PropertyConf) (select : ℕ → Bool) (emit : ℕ → List ChainedEvent)
    (stop : Bool) : ℕ → Option ℕ → EventRuntime → Dll ℕ → Except Fault (EventRuntime × Dll ℕ)
  | 0, _, runtime, cache => .ok (runtime, cache)
  | msg_visit_counter + 1, peek, runtime, cache =>
    if msg_visit_counter + 1 ≤ conf.cache_size then do
      let (msg_out, peek) ← takeMessage (cacheDirection conf.cache_policy) select cache peek
      let (runtime, cache) ← release emit runtime cache msg_out
      if peek = none then return (runtime, cache)
      else if stop then return (runtime, cache)
      else visitMessages conf select emit stop msg_visit_counter peek runtime cache
    else .ok (runtime, cache)

variable (key : PropertyKey)

def messageEvents (sessionid : ℕ → Dhkey) (msg : ℕ) : List ChainedEvent :=
  (if key.dhkey = key.conf.subject_dhkey_out then
    [⟨key.conf.subject_dhkey_out, evtInternal ||| evtUserspace ||| evtMessage, sessionid msg,
      .message msg⟩] else []) ++
  (if key.dhkey = key.conf.subject_dhkey_in then
    [⟨key.conf.subject_dhkey_in, evtExternal ||| evtMessage, sessionid msg, .message msg⟩] else [])

def messageEvent (sessionid : ℕ → Dhkey) (msg : ℕ) : ChainedEvent :=
  if key.dhkey = key.conf.subject_dhkey_out then
    ⟨key.conf.subject_dhkey_out, evtInternal ||| evtUserspace ||| evtMessage, sessionid msg,
      .message msg⟩
  else ⟨key.conf.subject_dhkey_in, evtExternal ||| evtMessage, sessionid msg, .message msg⟩

/-- _np_msgproperty_check_msgcache; `has_session` are the answers of
_np_intent_has_crypto_session. -/
def checkMsgcache (run : PropertyRun) (sessionid : ℕ → Dhkey)
    (has_session : Dhkey → Bool) (runtime : EventRuntime) :
    Except Fault (EventRuntime × Dll ℕ) :=
  visitMessages key.conf (fun msg => has_session (sessionid msg)) (messageEvents key sessionid)
    false run.msg_cache.nodes.length none runtime run.msg_cache

def messageInEvent (sessionid : ℕ → Dhkey) (msg : ℕ) : ChainedEvent :=
  ⟨key.conf.subject_dhkey_in, evtExternal ||| evtMessage, sessionid msg, .message msg⟩

def checkMsgcacheFor (run : PropertyRun) (sessionid : ℕ → Dhkey)
    (has_session : Dhkey → Bool) (target_dhkey : Dhkey) (runtime : EventRuntime) :
    Except Fault (EventRuntime × Dll ℕ) :=
  if has_session target_dhkey then
    visitMessages key.conf (fun msg => sessionid msg = target_dhkey)
      (fun msg => [messageInEvent key sessionid msg])
      (key.conf.max_threshold < run.msg_threshold) run.msg_cache.nodes.length none runtime
      run.msg_cache
  else .ok (runtime, run.msg_cache)

/-- The messages to be taken are in the chain of events, each once and in the order of the policy,
and the others are in the cache as before. -/
def Released (dir : Direction) (select : ℕ → Bool) (event : ℕ → ChainedEvent)
    (runtime : EventRuntime) (cache : Dll ℕ) (res : Except Fault (EventRuntime × Dll ℕ)) : Prop :=
  ∃ runtime' cache', res = .ok (runtime', cache') ∧
    runtime'.chained = runtime.chained ++
      ((along dir cache.nodes).filter fun n => select n.val).map (fun n => event n.val) ∧
    cache'.nodes = cache.nodes.filter fun n => !select n.val

/-- No message that has to wait stands before one to be taken, the chain of events has room for all
of these, and a cache read from its end has none of them twice. -/
structure Unblocked (dir : Direction) (select : ℕ → Bool) (chained : ℕ) (nodes : List (Node ℕ)) :
    Prop where
  order : nodes.Pairwise fun n m => select m.val → select n.val
  room : chained + (nodes.filter fun n => select n.val).length ≤ maxSize
  once : dir = .backward → ((nodes.filter fun n => select n.val).map Node.val).Nodup

section

variable {conf : PropertyConf} {dir : Direction} {select : ℕ → Bool}
  {emit : ℕ → List ChainedEvent} {event : ℕ → ChainedEvent} {stop : Bool} {counter : ℕ}
  {runtime runtime' : EventRuntime} {cache cache' : Dll ℕ} {n : Node ℕ}
  {before rest : List (Node ℕ)}

lemma takeMessage_none (dir : Direction) (select : ℕ → Bool) (cache : Dll ℕ) :
    takeMessage (some dir) select cache none =
      takeMessage (some dir) select cache (cache.start dir) := by
  simp only [takeMessage, Option.none_or, Option.or_self]

lemma takeMessage_waiting (h : n ∈ cache.nodes) (hsel : select n.val = false) :
    takeMessage (some dir) select cache (some n.addr) = .ok (none, some n.addr) := by
  simp only [takeMessage, Option.some_or, Dll.val_eq h, deref, ok_bind, hsel]
  rfl

lemma takeMessage_selected (h : along dir cache.nodes = before ++ n :: rest)
    (hsel : select n.val = true) : takeMessage (some dir) select cache (some n.addr) =
      .ok (some n.val, rest.head?.map Node.addr) := by
  have hmem : n ∈ cache.nodes := mem_of_along h
  simp only [takeMessage, Option.some_or, Dll.val_eq hmem, Dll.link_eq h, deref, ok_bind, hsel,
    if_true]
  rfl

section

variable (hdir : cacheDirection conf.cache_policy = some dir)
include hdir

lemma visit_none : visitMessages conf select emit stop counter none runtime cache =
      visitMessages conf select emit stop counter (cache.start dir) runtime cache := by
  cases counter with
  | zero => rfl
  | succ counter => rw [visitMessages, visitMessages, hdir, takeMessage_none]

lemma visit_waiting (h : n ∈ cache.nodes) (hsel : select n.val = false) :
    visitMessages conf select emit stop counter (some n.addr) runtime cache =
      .ok (runtime, cache) := by
  induction counter with
  | zero => rfl
  | succ counter ih =>
    rw [visitMessages, hdir, takeMessage_waiting h hsel, ok_bind]
    simp only [release, ok_bind, ih]
    split
    · cases stop <;> rfl
    · rfl

lemma visit_selected (hsize : counter + 1 ≤ conf.cache_size)
    (h : along dir cache.nodes = before ++ n :: rest) (hsel : select n.val = true) :
    visitMessages conf select emit stop (counter + 1) (some n.addr) runtime cache =
      addEvents runtime (emit n.val) >>= fun runtime =>
        if rest = [] ∨ stop = true then .ok (runtime, cache.remove n.val)
        else visitMessages conf select emit stop counter (rest.head?.map Node.addr) runtime
          (cache.remove n.val) := by
  rw [visitMessages, if_pos hsize, hdir, takeMessage_selected h hsel, ok_bind]
  cases hadd : addEvents runtime (emit n.val) with
  | error fault =>
    simp only [release, hadd]
    rfl
  | ok runtime' =>
    simp only [release, hadd, ok_bind]
    cases rest with
    | nil => simp [pure, Except.pure, bind, Except.bind]
    | cons m rest => cases stop <;> simp [pure, Except.pure, bind, Except.bind]

end

lemma visit_suffix (hdir : cacheDirection conf.cache_policy = some .backward) {p : ℕ}
    (hrest : rest <:+ cache.nodes) (hp : p ∉ rest.map Node.addr)
    (h : visitMessages conf select emit stop counter (some p) runtime cache =
      .ok (runtime', cache')) : rest <:+ cache'.nodes := by
  induction counter generalizing p runtime cache with
  | zero =>
    cases h
    exact hrest
  | succ counter ih =>
    by_cases hsize : counter + 1 ≤ conf.cache_size
    swap
    · rw [visitMessages, if_neg hsize] at h
      cases h
      exact hrest
    cases hval : cache.val p with
    | none =>
      -- the node under the cursor was freed
      simp only [visitMessages, if_pos hsize, hdir, takeMessage, Option.some_or, hval, deref] at h
      cases h
    | some msg =>
      obtain ⟨n, hn, rfl, -⟩ := Dll.exists_of_val hval
      cases hsel : select n.val with
      | false =>
        rw [visit_waiting hdir hn hsel] at h
        cases h
        exact hrest
      | true =>
        obtain ⟨before, hb⟩ := hrest
        have hmem : n ∈ before := by
          rw [← hb] at hn
          obtain hn | hn := mem_append.1 hn
          · exact hn
          · exact absurd (mem_map_of_mem hn) hp
        obtain ⟨before, between, rfl⟩ := append_of_mem hmem
        have hnds : cache.nodes = before ++ n :: (between ++ rest) := by
          rw [← hb, append_assoc]
          rfl
        have ha : along .backward cache.nodes =
            (between ++ rest).reverse ++ n :: before.reverse := by
          rw [along, hnds, reverse_append, reverse_cons, append_assoc]
          rfl
        rw [visit_selected hdir hsize ha hsel] at h
        obtain ⟨runtime1, -, h⟩ := bind_eq_ok h
        have hkept : rest <:+ (cache.remove n.val).nodes :=
          (suffix_append between rest).trans (Dll.remove_suffix hnds)
        by_cases hend : before.reverse = [] ∨ stop = true
        · rw [if_pos hend] at h
          cases h
          exact hkept
        · rw [if_neg hend] at h
          obtain ⟨m, hm⟩ := Option.ne_none_iff_exists'.1
            (fun hnil => hend (.inl (head?_eq_none_iff.1 hnil)))
          rw [hm, Option.map_some] at h
          refine ih hkept ?_ h
          have hmbe : m ∈ before := mem_reverse.1 (mem_of_mem_head? hm)
          have hnd := cache.nodup
          rw [hnds, map_append, nodup_append] at hnd
          intro hmrest
          refine hnd.2.2 _ (mem_map_of_mem hmbe) m.addr ?_ rfl
          rw [map_cons, map_append]
          exact mem_cons_of_mem _ (mem_append_right _ hmrest)

variable {nodes : List (Node ℕ)}

lemma selected_eq_nil (h : ∀ m ∈ nodes, select m.val = false) :
    nodes.filter (fun n => select n.val) = [] := by
  apply filter_eq_nil_iff.2
  intro m hm hsel
  rw [h m hm] at hsel
  cases hsel

lemma released_ok : Released dir select event runtime cache (.ok (runtime', cache')) ↔
      runtime'.chained = runtime.chained ++
        ((along dir cache.nodes).filter fun n => select n.val).map (fun n => event n.val) ∧
      along dir cache'.nodes = (along dir cache.nodes).filter fun n => !select n.val := by
  rw [along_filter dir fun n => !select n.val]
  constructor
  · rintro ⟨runtime', cache', hres, hchn, hnds⟩
    cases hres
    exact ⟨hchn, by rw [hnds]⟩
  · rintro ⟨hchn, hnds⟩
    exact ⟨runtime', cache', rfl, hchn, along_inj hnds⟩

lemma released_same : Released dir select event runtime cache (.ok (runtime, cache)) ↔
      ∀ m ∈ along dir cache.nodes, select m.val = false := by
  rw [released_ok]
  constructor
  · rintro ⟨-, hnds⟩ m hm
    rw [hnds, mem_filter, Bool.not_eq_true'] at hm
    exact hm.2
  · intro hnone
    refine ⟨by rw [selected_eq_nil hnone, map_nil, append_nil], ?_⟩
    exact (filter_eq_self.2 fun m hm => by rw [hnone m hm]; rfl).symm

lemma selected_cons (hsel : select n.val = true) :
    (n :: rest).filter (fun n => select n.val) = n :: rest.filter fun n => select n.val :=
  filter_cons_of_pos hsel

variable {runtime1 : EventRuntime}

lemma released_step {cache1 : Dll ℕ}
    {res : Except Fault (EventRuntime × Dll ℕ)} (h : along dir cache.nodes = n :: rest)
    (h1 : along dir cache1.nodes = rest) (hsel : select n.val = true)
    (hchn : runtime1.chained = runtime.chained ++ [event n.val]) :
    Released dir select event runtime cache res ↔
      Released dir select event runtime1 cache1 res := by
  cases res with
  | error fault => constructor <;> (rintro ⟨_, _, hres, -⟩; cases hres)
  | ok res =>
    have hneg : (n :: rest).filter (fun n => !select n.val) = rest.filter fun n => !select n.val :=
      filter_cons_of_neg (by rw [hsel]; decide)
    rw [released_ok, released_ok, h, h1, hchn, selected_cons hsel, hneg, map_cons, append_assoc]
    rfl

lemma unblocked_of_none (h : ∀ m ∈ nodes, select m.val = false)
    (runtime : EventRuntime) : Unblocked dir select runtime.chained.length nodes where
  order := by
    apply pairwise_of_forall_mem_list
    intro m _ m' hm' hsel
    rw [h m' hm'] at hsel
    cases hsel
  room := by
    rw [selected_eq_nil h]
    exact runtime.length_le
  once _ := by
    rw [selected_eq_nil h]
    exact nodup_nil

lemma unblocked_waiting (hsel : select n.val = false) :
    Unblocked dir select runtime.chained.length (n :: rest) ↔
      ∀ m ∈ n :: rest, select m.val = false := by
  refine ⟨?_, fun hnone => unblocked_of_none hnone runtime⟩
  rintro ⟨order, -, -⟩ m hm
  obtain rfl | hm := mem_cons.1 hm
  · exact hsel
  · have hltr := (pairwise_cons.1 order).1 m hm
    rw [hsel] at hltr
    exact Bool.eq_false_iff.2 fun h => Bool.false_ne_true (hltr h)

lemma unblocked_cons {chained : ℕ} (hsel : select n.val = true) :
    Unblocked dir select chained (n :: rest) ↔
      (dir = .backward → n.val ∉ rest.map Node.val) ∧ Unblocked dir select (chained + 1) rest := by
  have hmem : n.val ∈ (rest.filter fun n => select n.val).map Node.val ↔
      n.val ∈ rest.map Node.val := by
    simp only [mem_map, mem_filter]
    constructor
    · rintro ⟨m, ⟨hm, -⟩, hval⟩
      exact ⟨m, hm, hval⟩
    · rintro ⟨m, hm, hval⟩
      exact ⟨m, ⟨hm, by rw [hval, hsel]⟩, hval⟩
  constructor
  · rintro ⟨order, room, once⟩
    rw [selected_cons hsel] at room once
    refine ⟨fun hdir => ?_, (pairwise_cons.1 order).2, ?_, fun hdir => ?_⟩
    · exact fun h => (nodup_cons.1 (once hdir)).1 (hmem.2 h)
    · rw [length_cons] at room
      omega
    · exact (nodup_cons.1 (once hdir)).2
  · rintro ⟨hnew, order, room, once⟩
    refine ⟨pairwise_cons.2 ⟨fun m _ _ => hsel, order⟩, ?_, fun hdir => ?_⟩
    · rw [selected_cons hsel, length_cons]
      omega
    · rw [selected_cons hsel]
      exact nodup_cons.2 ⟨fun h => hnew hdir (hmem.1 h), once hdir⟩

lemma not_released_again (hdir : cacheDirection conf.cache_policy = some .backward)
    (h : along .backward cache.nodes = n :: rest) (hsel : select n.val = true)
    (ha : n.val ∈ rest.map Node.val) :
    ¬ Released .backward select event runtime cache
      (if rest = [] ∨ stop = true then .ok (runtime1, cache.remove n.val)
        else visitMessages conf select emit stop counter (rest.head?.map Node.addr) runtime1
          (cache.remove n.val)) := by
  rintro ⟨runtime', cache', hres, -, hnds⟩
  have hcache : cache.nodes = rest.reverse ++ n :: [] := by
    rw [← reverse_cons, ← h, along, reverse_reverse]
  have hkept : [n] <:+ (cache.remove n.val).nodes := by
    have hb : n.val ∈ rest.reverse.map Node.val := by
      rw [map_reverse]
      exact mem_reverse.2 ha
    obtain ⟨before, hb⟩ := Dll.remove_again hcache hb
    exact ⟨before, hb.symm⟩
  have hstays : [n] <:+ cache'.nodes := by
    by_cases hend : rest = [] ∨ stop = true
    · rw [if_pos hend] at hres
      cases hres
      exact hkept
    · rw [if_neg hend] at hres
      cases rest with
      | nil => exact absurd (.inl rfl) hend
      | cons m rest =>
        refine visit_suffix hdir hkept ?_ hres
        rw [map_singleton, mem_singleton]
        have hnd := nodup_along cache .backward
        rw [h, map_cons] at hnd
        exact fun heq => (nodup_cons.1 hnd).1 (heq ▸ mem_cons_self)
  have hmem : n ∈ cache'.nodes := hstays.subset (mem_singleton_self n)
  rw [hnds, mem_filter, hsel] at hmem
  exact Bool.false_ne_true hmem.2

def RestReleased (conf : PropertyConf) (dir : Direction) (select : ℕ → Bool)
    (emit : ℕ → List ChainedEvent) (event : ℕ → ChainedEvent) (stop : Bool)
    (rest : List (Node ℕ)) : Prop :=
  ∀ runtime cache, along dir cache.nodes = rest →
    (Released dir select event runtime cache
        (if rest = [] ∨ stop = true then .ok (runtime, cache)
          else visitMessages conf select emit stop rest.length (rest.head?.map Node.addr) runtime
            cache) ↔
      Unblocked dir select runtime.chained.length rest ∧
        (stop = true → ∀ m ∈ rest, select m.val = false))

section

variable (hdir : cacheDirection conf.cache_policy = some dir)
  (hemit : ∀ msg, emit msg = [event msg])
include hdir hemit

lemma round_released_iff (hsize : rest.length + 1 ≤ conf.cache_size)
    (h : along dir cache.nodes = n :: rest)
    (hrest : RestReleased conf dir select emit event stop rest) :
    Released dir select event runtime cache
        (visitMessages conf select emit stop (rest.length + 1) (some n.addr) runtime cache) ↔
      Unblocked dir select runtime.chained.length (n :: rest) ∧
        (stop = true → ((n :: rest).filter fun n => select n.val).length ≤ 1) := by
  have hn : n ∈ cache.nodes := mem_of_along (h.trans (nil_append _).symm)
  cases hsel : select n.val with
  | false =>
    rw [visit_waiting hdir hn hsel, released_same, h, unblocked_waiting hsel]
    refine ⟨fun hnone => ⟨hnone, fun _ => ?_⟩, And.left⟩
    rw [selected_eq_nil hnone]
    exact Nat.zero_le 1
  | true =>
    have hfst : along dir cache.nodes = [] ++ n :: rest := h
    rw [visit_selected hdir hsize hfst hsel, hemit, unblocked_cons hsel]
    obtain ⟨-, runtime1, hok, hchn⟩ | ⟨hfull, herr⟩ := addEvents_spec runtime [event n.val]
    · rw [hok, ok_bind]
      by_cases hagain : dir = .backward ∧ n.val ∈ rest.map Node.val
      · obtain ⟨rfl, hagain⟩ := hagain
        apply iff_of_false
        · exact not_released_again hdir h hsel hagain
        · exact fun hun => hun.1.1 rfl hagain
      · have hnew : dir = .backward → n.val ∉ rest.map Node.val :=
          fun hback hmem => hagain ⟨hback, hmem⟩
        have hrem : along dir (cache.remove n.val).nodes = rest := by
          apply Dll.along_remove h
          cases dir with
          | forward => exact .inl rfl
          | backward => exact .inr (hnew rfl)
        have hlen : runtime1.chained.length = runtime.chained.length + 1 := by
          rw [hchn, length_append]
          rfl
        have hstop : ((n :: rest).filter fun n => select n.val).length ≤ 1 ↔
            ∀ m ∈ rest, select m.val = false := by
          have hzero (k : ℕ) : k + 1 ≤ 1 ↔ k = 0 := by omega
          rw [selected_cons hsel, length_cons, hzero, length_eq_zero_iff, filter_eq_nil_iff]
          simp only [Bool.not_eq_true]
        rw [released_step h hrem hsel hchn, hrest _ _ hrem, hlen, hstop]
        exact ⟨fun hun => ⟨⟨hnew, hun.1⟩, hun.2⟩, fun hun => ⟨hun.1.2, hun.2⟩⟩
    · rw [herr]
      apply iff_of_false
      · rintro ⟨_, _, hres, -⟩
        cases hres
      · rintro ⟨⟨-, -, room, -⟩, -⟩
        rw [length_singleton] at hfull
        omega

lemma restReleased (hsize : rest.length ≤ conf.cache_size) :
    RestReleased conf dir select emit event stop rest := by
  induction rest with
  | nil =>
    intro runtime cache h
    rw [if_pos (.inl rfl), released_same, h]
    exact ⟨fun hnone => ⟨unblocked_of_none hnone runtime, fun _ => hnone⟩,
      fun _ m hm => absurd hm not_mem_nil⟩
  | cons n rest ih =>
    intro runtime cache h
    cases stop with
    | true =>
      rw [if_pos (.inr rfl), released_same, h]
      exact ⟨fun hnone => ⟨unblocked_of_none hnone runtime, fun _ => hnone⟩, fun hun => hun.2 rfl⟩
    | false =>
      have hgo : ¬ (n :: rest = [] ∨ false = true) := by simp
      rw [if_neg hgo, head?_cons, Option.map_some, length_cons,
        round_released_iff hdir hemit hsize h (ih (Nat.le_of_succ_le hsize))]
      exact ⟨fun hun => ⟨hun.1, fun hf => absurd hf Bool.false_ne_true⟩,
        fun hun => ⟨hun.1, fun hf => absurd hf Bool.false_ne_true⟩⟩

lemma visit_released_iff (hsize : cache.nodes.length ≤ conf.cache_size) :
    Released dir select event runtime cache
        (visitMessages conf select emit stop cache.nodes.length none runtime cache) ↔
      Unblocked dir select runtime.chained.length (along dir cache.nodes) ∧
        (stop = true → (cache.nodes.filter fun n => select n.val).length ≤ 1) := by
  rw [visit_none hdir, ← along_length dir (cache.nodes.filter _), ← along_filter]
  rw [← along_length dir] at hsize ⊢
  cases h : along dir cache.nodes with
  | nil =>
    have hnone : ∀ m ∈ along dir cache.nodes, select m.val = false := by
      rw [h]
      exact fun m hm => absurd hm not_mem_nil
    refine iff_of_true (released_same.2 hnone) ⟨?_, fun _ => Nat.zero_le 1⟩
    rw [← h]
    exact unblocked_of_none hnone runtime
  | cons n rest =>
    rw [h] at hsize
    rw [Dll.start_eq h]
    exact round_released_iff hdir hemit hsize h (restReleased hdir hemit (Nat.le_of_succ_le hsize))

def leading (conf : PropertyConf) (select : ℕ → Bool) (cache : Dll ℕ) : List (Node ℕ) :=
  match cacheDirection conf.cache_policy with
  | none => []
  | some dir =>
    if cache.nodes.length ≤ conf.cache_size then
      (along dir cache.nodes).takeWhile fun n => select n.val
    else []

variable (hsize : rest.length + 1 ≤ conf.cache_size) (h : along dir cache.nodes = n :: rest)
include hsize h

lemma leading_round
    (hrest : rest ≠ [] → ∀ runtime, ∃ cache', visitMessages conf select emit false rest.length
        (rest.head?.map Node.addr) runtime (cache.remove n.val) =
      addEvents runtime ((rest.takeWhile fun n => select n.val).map fun n => event n.val)
        >>= fun runtime => .ok (runtime, cache')) :
    ∃ cache', visitMessages conf select emit false (rest.length + 1) (some n.addr) runtime cache =
      addEvents runtime (((n :: rest).takeWhile fun n => select n.val).map fun n => event n.val)
        >>= fun runtime => .ok (runtime, cache') := by
  have hn : n ∈ cache.nodes := mem_of_along (h.trans (nil_append _).symm)
  cases hsel : select n.val with
  | false =>
    refine ⟨cache, ?_⟩
    rw [visit_waiting hdir hn hsel, takeWhile_cons, hsel]
    rfl
  | true =>
    have hfst : along dir cache.nodes = [] ++ n :: rest := h
    rw [visit_selected hdir hsize hfst hsel, hemit, takeWhile_cons, hsel, if_pos rfl,
      map_cons, addEvents_cons, addEvents_cons]
    cases addEvent runtime (event n.val) with
    | error fault => exact ⟨cache, rfl⟩
    | ok runtime1 =>
      by_cases hnil : rest = []
      · subst hnil
        exact ⟨cache.remove n.val, rfl⟩
      · obtain ⟨cache', hc'⟩ := hrest hnil runtime1
        have hgo : ¬ (rest = [] ∨ false = true) := by simp [hnil]
        refine ⟨cache', ?_⟩
        rw [ok_bind, ok_bind, ← hc']
        exact if_neg hgo

lemma visit_leading_from (ho : ((n :: rest).map Node.val).Nodup) :
    ∃ cache', visitMessages conf select emit false (rest.length + 1) (some n.addr) runtime cache =
      addEvents runtime (((n :: rest).takeWhile fun n => select n.val).map fun n => event n.val)
        >>= fun runtime => .ok (runtime, cache') := by
  induction rest generalizing n runtime cache with
  | nil => exact leading_round hdir hemit hsize h fun hnil => absurd rfl hnil
  | cons m rest ih =>
    apply leading_round hdir hemit hsize h
    intro _ runtime
    obtain ⟨hnew, ho⟩ := nodup_cons.1 ho
    exact ih (Nat.le_of_succ_le hsize) (Dll.along_remove h (.inr hnew)) ho

end

lemma visit_leading (hemit : ∀ msg, emit msg = [event msg]) (runtime : EventRuntime)
    (ho : (cache.nodes.map Node.val).Nodup) :
    ∃ cache', visitMessages conf select emit false cache.nodes.length none runtime cache =
      addEvents runtime ((leading conf select cache).map fun n => event n.val)
        >>= fun runtime => .ok (runtime, cache') := by
  cases hdir : cacheDirection conf.cache_policy with
  | none =>
    refine ⟨cache, ?_⟩
    rw [leading, hdir]
    cases cache.nodes.length with
    | zero => rfl
    | succ counter =>
      rw [visitMessages, hdir]
      split <;> rfl
  | some dir =>
    by_cases hsize : cache.nodes.length ≤ conf.cache_size
    · have hlea : leading conf select cache =
          (along dir cache.nodes).takeWhile fun n => select n.val := by
        rw [leading, hdir]
        exact if_pos hsize
      rw [hlea, visit_none hdir]
      rw [← along_length dir] at hsize ⊢
      cases h : along dir cache.nodes with
      | nil => exact ⟨cache, rfl⟩
      | cons n rest =>
        rw [h] at hsize
        rw [Dll.start_eq h]
        have ho' : ((n :: rest).map Node.val).Nodup := by
          rw [← h]
          cases dir with
          | forward => exact ho
          | backward =>
            rw [along, map_reverse]
            exact nodup_reverse.2 ho
        exact visit_leading_from hdir hemit hsize h ho'
    · refine ⟨cache, ?_⟩
      have hlea : leading conf select cache = [] := by
        rw [leading, hdir]
        exact if_neg hsize
      rw [hlea]
      cases hlen : cache.nodes.length with
      | zero => rfl
      | succ counter =>
        rw [hlen] at hsize
        rw [visitMessages, if_neg hsize]
        rfl

end

lemma messageEvents_eq (sessionid : ℕ → Dhkey) (msg : ℕ) :
    messageEvents key sessionid msg = [messageEvent key sessionid msg] := by
  obtain hout | hin := key.own
  · have hin : key.dhkey ≠ key.conf.subject_dhkey_in := hout ▸ key.in_ne_out.symm
    rw [messageEvents, messageEvent, if_pos hout, if_pos hout, if_neg hin, append_nil]
  · have hout : key.dhkey ≠ key.conf.subject_dhkey_out := hin ▸ key.in_ne_out
    rw [messageEvents, messageEvent, if_neg hout, if_neg hout, if_pos hin, nil_append]

/-- A check of any cache releases the messages with a session, and no others, exactly if none
without a session stands before one with it, the chain of events has room and a cache read from its
end holds no such message twice. A check for one session must also not be ended too early by the
session and the threshold of the property. -/
theorem cache_released_iff (key : PropertyKey) (run : PropertyRun) (sessionid : ℕ → Dhkey)
    (has_session : Dhkey → Bool) (target_dhkey : Dhkey) (runtime : EventRuntime) (dir : Direction)
    (hdir : cacheDirection key.conf.cache_policy = some dir)
    (hsize : run.msg_cache.nodes.length ≤ key.conf.cache_size) :
    (Released dir (fun msg => has_session (sessionid msg)) (messageEvent key sessionid) runtime
        run.msg_cache (checkMsgcache key run sessionid has_session runtime) ↔
      Unblocked dir (fun msg => has_session (sessionid msg)) runtime.chained.length
        (along dir run.msg_cache.nodes)) ∧
    (Released dir (fun msg => sessionid msg = target_dhkey) (messageInEvent key sessionid) runtime
        run.msg_cache (checkMsgcacheFor key run sessionid has_session target_dhkey runtime) ↔
      if has_session target_dhkey then
        Unblocked dir (fun msg => sessionid msg = target_dhkey) runtime.chained.length
            (along dir run.msg_cache.nodes) ∧
          (key.conf.max_threshold < run.msg_threshold →
            (run.msg_cache.nodes.filter fun n => sessionid n.val = target_dhkey).length ≤ 1)
      else ∀ n ∈ run.msg_cache.nodes, sessionid n.val ≠ target_dhkey) := by
  constructor
  · rw [checkMsgcache, visit_released_iff hdir (messageEvents_eq key sessionid) hsize]
    exact and_iff_left fun h => absurd h Bool.false_ne_true
  · rw [checkMsgcacheFor]
    split
    · rw [visit_released_iff hdir (fun _ => rfl) hsize, decide_eq_true_iff]
    · rw [released_same]
      simp only [mem_along, decide_eq_false_iff_not, ne_eq]

def senderKey : PropertyKey where
  dhkey := ofWord 2
  conf := ⟨policyFifo, 10, 10, ofWord 1, ofWord 2⟩
  own := .inl rfl
  in_ne_out := by decide

def twoMessages : PropertyRun := ⟨⟨[⟨100, 7⟩, ⟨101, 8⟩], by decide⟩, 0⟩

def sessionOf (msg : ℕ) : Dhkey := if msg = 7 then ofWord 3 else ofWord 4

theorem cache_released_twoMessages :
    (Released .forward (fun msg => decide (sessionOf msg = ofWord 3))
        (messageEvent senderKey sessionOf) startedRuntime twoMessages.msg_cache
        (checkMsgcache senderKey twoMessages sessionOf (fun s => s = ofWord 3) startedRuntime) ↔
      Unblocked .forward (fun msg => decide (sessionOf msg = ofWord 3))
        startedRuntime.chained.length (along .forward twoMessages.msg_cache.nodes)) ∧
    (Released .forward (fun msg => decide (sessionOf msg = ofWord 3))
        (messageInEvent senderKey sessionOf) startedRuntime twoMessages.msg_cache
        (checkMsgcacheFor senderKey twoMessages sessionOf (fun s => s = ofWord 3)
          (ofWord 3) startedRuntime) ↔
      if decide (ofWord 3 = ofWord 3) = true then
        Unblocked .forward (fun msg => decide (sessionOf msg = ofWord 3))
            startedRuntime.chained.length (along .forward twoMessages.msg_cache.nodes) ∧
          (senderKey.conf.max_threshold < twoMessages.msg_threshold →
            (twoMessages.msg_cache.nodes.filter fun n =>
              sessionOf n.val = ofWord 3).length ≤ 1)
      else ∀ n ∈ twoMessages.msg_cache.nodes, sessionOf n.val ≠ ofWord 3) :=
  cache_released_iff senderKey twoMessages sessionOf (fun s => s = ofWord 3) (ofWord 3)
    startedRuntime .forward rfl (by decide)

/-- A message without a session keeps the one behind it, which has one, in the cache. -/
theorem message_blocked :
    (∃ n ∈ twoMessages.msg_cache.nodes, sessionOf n.val = ofWord 4) ∧
    checkMsgcache senderKey twoMessages sessionOf (fun s => s = ofWord 4) startedRuntime =
      .ok (startedRuntime, twoMessages.msg_cache) ∧
    checkMsgcacheFor senderKey twoMessages sessionOf (fun s => s = ofWord 4)
        (ofWord 4) startedRuntime = .ok (startedRuntime, twoMessages.msg_cache) :=
  ⟨by decide, rfl, rfl⟩

end Neuropil.Property.Cache
