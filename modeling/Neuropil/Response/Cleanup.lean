import Neuropil.Eventqueue.Chain
import Neuropil.Key.Conditions
import Neuropil.Tree.Keyed

namespace Neuropil.Response.Cleanup

open List Option Eventqueue Eventqueue.Chain Lib Lib.Fault Tree.Removal Tree.Values Tree.Operations
  Tree.Keyed
open Key.Conditions (evtInternal)

inductive Fault
  | chain (fault : Chain.Fault)
  | tree (fault : Tree.RedBlack.Fault)
deriving DecidableEq

def evtTimeout : UInt32 := 0x0004
def evtResponse : UInt32 := 0x0080

structure Responsecontainer where
  dest_dhkey : Dhkey
  msg_dhkey : Dhkey
  received_at : Double
  expires_at : Double

def handlers (tree : NpTree) : List (Uuid × ℕ) :=
  (entries tree.root).filterMap fun
    | (.uuid uuid, .void p) => some (uuid, p)
    | _ => none

def dueEvent (now : Double) (c : Responsecontainer) : Option UInt32 :=
  if Binary64.lt c.expires_at.bits now.bits then some (evtTimeout ||| evtResponse)
  else if Binary64.magnitude c.received_at.bits ≠ 0 then some (evtInternal ||| evtResponse)
  else none

def targetEvents (key_exists : Dhkey → Bool) (p : ℕ) (c : Responsecontainer) (type : UInt32) :
    List ChainedEvent :=
  (if c.msg_dhkey ≠ Dhkey.zero then
    [⟨c.msg_dhkey, type, c.msg_dhkey, .responsecontainer p⟩] else []) ++
  (if c.dest_dhkey ≠ Dhkey.zero ∧ key_exists c.dest_dhkey then
    [⟨c.dest_dhkey, type, c.dest_dhkey, .responsecontainer p⟩] else [])

/-- The memory of the containers, the clock and the answers of _np_keycache_exists in a run. -/
structure Setting where
  containers : ℕ → Responsecontainer
  now : Double
  key_exists : Dhkey → Bool

def handleContainers (setting : Setting) : ℕ → List (Uuid × ℕ) → EventRuntime → List Uuid →
    Except Chain.Fault (EventRuntime × List Uuid)
  | _, [], runtime, to_remove => .ok (runtime, to_remove)
  | max_events, (uuid, p) :: rest, runtime, to_remove => do
    let current := setting.containers p
    let (runtime, to_remove) ← match dueEvent setting.now current with
      | some type => do
        let runtime ← addEvents runtime (targetEvents setting.key_exists p current type)
        pure (runtime, to_remove ++ [uuid])
      | none => pure (runtime, to_remove)
    -- the budget is spent by every container that is visited, due or not
    if max_events = 0 then return (runtime, to_remove)
    else handleContainers setting (max_events - 1) rest runtime to_remove

def maxEvents : ℕ := 3 * 10

def cleanupResponseHandler (setting : Setting) (response_handler : NpTree)
    (runtime : EventRuntime) : Except Fault (EventRuntime × NpTree) := do
  let (runtime, to_remove) ←
    (handleContainers setting maxEvents (handlers response_handler) runtime []).mapError .chain
  let response_handler ← (to_remove.foldlM (fun tree uuid => treeDel tree (.uuid uuid))
    response_handler).mapError .tree
  return (runtime, response_handler)

def entryEvents (setting : Setting) (e : Uuid × ℕ) : List ChainedEvent :=
  match dueEvent setting.now (setting.containers e.2) with
  | some type => targetEvents setting.key_exists e.2 (setting.containers e.2) type
  | none => []

def isDue (setting : Setting) (e : Uuid × ℕ) : Bool :=
  (dueEvent setting.now (setting.containers e.2)).isSome

section

variable {setting : Setting} {runtime : EventRuntime}

lemma handleContainers_eq (setting : Setting) (max_events : ℕ) (items : List (Uuid × ℕ))
    (runtime : EventRuntime) (to_remove : List Uuid) :
    handleContainers setting max_events items runtime to_remove =
      addEvents runtime ((items.take (max_events + 1)).flatMap (entryEvents setting)) >>=
        fun runtime => .ok (runtime, to_remove ++
          ((items.take (max_events + 1)).filter (isDue setting)).map Prod.fst) := by
  induction items generalizing max_events runtime to_remove with
  | nil =>
    rw [take_nil, flatMap_nil, filter_nil, map_nil, append_nil]
    rfl
  | cons e rest ih =>
    obtain ⟨uuid, p⟩ := e
    have htail (runtime : EventRuntime) (to_remove : List Uuid) :
        (if max_events = 0 then .ok (runtime, to_remove)
          else handleContainers setting (max_events - 1) rest runtime to_remove) =
        addEvents runtime ((rest.take max_events).flatMap (entryEvents setting)) >>=
          fun runtime => .ok (runtime, to_remove ++
            ((rest.take max_events).filter (isDue setting)).map Prod.fst) := by
      cases max_events with
      | zero =>
        rw [if_pos rfl, take_zero, flatMap_nil, filter_nil, map_nil, append_nil]
        rfl
      | succ max_events =>
        exact ih max_events runtime to_remove
    rw [take_succ_cons, flatMap_cons, addEvents_append]
    cases hdue : dueEvent setting.now (setting.containers p) with
    | none =>
      have hnot : ¬ isDue setting (uuid, p) = true := by simp [isDue, hdue]
      have he : entryEvents setting (uuid, p) = [] := by simp only [entryEvents, hdue]
      rw [handleContainers, he, filter_cons_of_neg hnot]
      simp only [hdue]
      exact htail runtime to_remove
    | some type =>
      have hpos : isDue setting (uuid, p) = true := by simp [isDue, hdue]
      have he : entryEvents setting (uuid, p) =
        targetEvents setting.key_exists p (setting.containers p) type := by
          simp only [entryEvents, hdue]
      rw [handleContainers, he, filter_cons_of_pos hpos]
      simp only [hdue]
      cases addEvents runtime (targetEvents setting.key_exists p (setting.containers p) type) with
      | error fault => rfl
      | ok runtime =>
        have h := htail runtime (to_remove ++ [uuid])
        rw [append_assoc] at h
        exact h

lemma entryEvents_of_not_due {e : Uuid × ℕ} (h : isDue setting e = false) :
    entryEvents setting e = [] := by
  have hnone : dueEvent setting.now (setting.containers e.2) = none := by
    rw [← not_isSome_iff_eq_none]
    exact Bool.eq_false_iff.1 h
  simp only [entryEvents, hnone]

end

/-- A tree of response handlers, and the addresses of the containers registered in it. -/
structure ResponseHandler where
  tree : NpTree
  registered : Uuid → Option ℕ
  holds : HoldsKeyed uuidKind tree fun uuid => (registered uuid).map .void

/-- The events for all targets of an entry, whether their keys exist or not. -/
def wantedEvents (setting : Setting) : Uuid × ℕ → List ChainedEvent :=
  entryEvents { setting with key_exists := fun _ => true }

variable (setting : Setting) (handler : ResponseHandler) (runtime : EventRuntime)

/-- Each target of a due container is notified once, and just these containers are gone. -/
def CleanedUp (res : Except Fault (EventRuntime × NpTree)) : Prop :=
  ∃ runtime' tree', res = .ok (runtime', tree') ∧
    runtime'.chained = runtime.chained ++ (handlers handler.tree).flatMap (wantedEvents setting) ∧
    HoldsKeyed uuidKind tree' fun uuid =>
      ((handler.registered uuid).filter fun p => !isDue setting (uuid, p)).map .void

section

variable {setting handler runtime} {e : Uuid × ℕ}

lemma ResponseHandler.mem_handlers (handler : ResponseHandler) (uuid : Uuid) (p : ℕ) :
    (uuid, p) ∈ handlers handler.tree ↔ handler.registered uuid = some p := by
  have he : (Key.uuid uuid, Treeval.void p) ∈ entries handler.tree.root ↔
      handler.registered uuid = some p := by
    refine (HoldsKeyed.mem_iff handler.holds).trans ⟨?_, fun hp => ⟨uuid, rfl, by rw [hp]; rfl⟩⟩
    rintro ⟨u, hu, hp⟩
    obtain ⟨q, hq, hval⟩ := map_eq_some_iff.1 hp
    cases hval
    cases hu
    exact hq
  rw [← he, handlers, mem_filterMap]
  constructor
  · rintro ⟨⟨key, val⟩, hmem, hsome⟩
    split at hsome
    · next heq =>
      cases heq
      cases hsome
      exact hmem
    · cases hsome
  · exact fun hmem => ⟨_, hmem, rfl⟩

lemma ResponseHandler.nodup_uuids (handler : ResponseHandler) :
    ((handlers handler.tree).map Prod.fst).Nodup := by
  rw [List.Nodup, pairwise_map]
  refine handler.holds.represents.sorted.filterMap _ ?_
  rintro ⟨key, val⟩ ⟨key', val'⟩ hlt e he e' he' heq
  split at he
  · next hent =>
    split at he'
    · next hent' =>
      cases hent
      cases hent'
      cases he
      cases he'
      cases heq
      exact lt_irrefl _ hlt
    · cases he'
  · cases he

lemma entryEvents_sublist (setting : Setting) (e : Uuid × ℕ) :
    (entryEvents setting e).Sublist (wantedEvents setting e) := by
  rw [wantedEvents, entryEvents, entryEvents]
  cases dueEvent setting.now (setting.containers e.2) with
  | none => exact List.Sublist.slnil
  | some type =>
    refine List.Sublist.append (List.Sublist.refl _) ?_
    split
    · next h => rw [if_pos ⟨h.1, rfl⟩]
    · exact nil_sublist _

lemma entryEvents_eq_iff : entryEvents setting e = wantedEvents setting e ↔
      (isDue setting e = true → (setting.containers e.2).dest_dhkey ≠ .zero →
        setting.key_exists (setting.containers e.2).dest_dhkey = true) := by
  rw [wantedEvents, entryEvents, entryEvents, isDue]
  cases dueEvent setting.now (setting.containers e.2) with
  | none => simp
  | some type =>
    by_cases hd : (setting.containers e.2).dest_dhkey = .zero
    · simp [targetEvents, hd]
    · cases hkey : setting.key_exists (setting.containers e.2).dest_dhkey <;>
        simp [targetEvents, hd, hkey]

lemma flatMap_eq_iff {α β : Type} {f g : α → List β} {l : List α}
    (h : ∀ x ∈ l, (f x).Sublist (g x)) : l.flatMap f = l.flatMap g ↔ ∀ x ∈ l, f x = g x := by
  induction l with
  | nil => simp
  | cons x l ih =>
    obtain ⟨hx, hl⟩ := forall_mem_cons.1 h
    rw [flatMap_cons, flatMap_cons, forall_mem_cons, ← ih hl]
    constructor
    · intro heq
      have hlen := congrArg length heq
      rw [length_append, length_append] at hlen
      have hrest := (List.Sublist.flatMap_right l hl).length_le
      have hfst : f x = g x := hx.eq_of_length (by have := hx.length_le; omega)
      rw [hfst] at heq
      exact ⟨hfst, append_cancel_left heq⟩
    · rintro ⟨hfst, hrest⟩
      rw [hfst, hrest]

def visited (handler : ResponseHandler) : List (Uuid × ℕ) :=
  (handlers handler.tree).take (maxEvents + 1)

abbrev emitted (setting : Setting) (handler : ResponseHandler) : List ChainedEvent :=
  (visited handler).flatMap (entryEvents setting)

abbrev removed (setting : Setting) (handler : ResponseHandler) : List Uuid :=
  ((visited handler).filter (isDue setting)).map Prod.fst

/-- All due containers are among the first ones of the tree, the key of each destination asked for
exists, and the chain of events has room. -/
structure Reachable (setting : Setting) (handler : ResponseHandler) (runtime : EventRuntime) :
    Prop where
  due : ∀ e ∈ (handlers handler.tree).drop (maxEvents + 1), isDue setting e = false
  destination : ∀ e ∈ handlers handler.tree, isDue setting e = true →
    (setting.containers e.2).dest_dhkey ≠ Dhkey.zero →
      setting.key_exists (setting.containers e.2).dest_dhkey = true
  room : runtime.chained.length +
    ((handlers handler.tree).flatMap (wantedEvents setting)).length ≤ maxSize

lemma removed_eq_iff :
    (∀ uuid, (if uuid ∈ removed setting handler then none
        else (handler.registered uuid).map Treeval.void) =
      ((handler.registered uuid).filter fun p => !isDue setting (uuid, p)).map .void) ↔
    ∀ e ∈ (handlers handler.tree).drop (maxEvents + 1), isDue setting e = false := by
  have hspl : visited handler ++ (handlers handler.tree).drop (maxEvents + 1) =
    handlers handler.tree := take_append_drop _ _
  constructor
  · rintro hall ⟨uuid, p⟩ hmem
    by_contra hdue
    rw [Bool.not_eq_false] at hdue
    have hp : handler.registered uuid = some p := by
      rw [← handler.mem_handlers, ← hspl]
      exact mem_append_right _ hmem
    have hu := hall uuid
    rw [hp, filter_some_neg (by rw [hdue]; decide)] at hu
    by_cases hrem : uuid ∈ removed setting handler
    · -- the same uuid would be in the tree twice
      obtain ⟨e, he, heq⟩ := mem_map.1 hrem
      have hnd := handler.nodup_uuids
      rw [← hspl, map_append, nodup_append] at hnd
      refine hnd.2.2 uuid ?_ uuid (mem_map_of_mem hmem) rfl
      exact heq ▸ mem_map_of_mem (mem_of_mem_filter he)
    · rw [if_neg hrem] at hu
      cases hu
  · intro hnone uuid
    cases hp : handler.registered uuid with
    | none => simp
    | some p =>
      have hmem := (handler.mem_handlers uuid p).2 hp
      rw [← hspl] at hmem
      cases hdue : isDue setting (uuid, p) with
      | true =>
        have hv : (uuid, p) ∈ visited handler := by
          obtain h | h := mem_append.1 hmem
          · exact h
          · rw [hnone _ h] at hdue
            cases hdue
        rw [if_pos (mem_map.2 ⟨_, mem_filter.2 ⟨hv, hdue⟩, rfl⟩),
          filter_some_neg (by rw [hdue]; decide)]
        rfl
      | false =>
        have hkept : uuid ∉ removed setting handler := by
          rintro hrem
          obtain ⟨⟨u, q⟩, he, rfl⟩ := mem_map.1 hrem
          obtain ⟨he, hq⟩ := mem_filter.1 he
          have hq' := (handler.mem_handlers u q).1 (mem_of_mem_take he)
          rw [hp] at hq'
          cases hq'
          rw [hq] at hdue
          cases hdue
        rw [if_neg hkept, filter_some_pos (by rw [hdue]; rfl)]

lemma visited_events_eq_iff
    (hdue : ∀ e ∈ (handlers handler.tree).drop (maxEvents + 1), isDue setting e = false) :
    emitted setting handler = (handlers handler.tree).flatMap (wantedEvents setting) ↔
      ∀ e ∈ handlers handler.tree, isDue setting e = true →
        (setting.containers e.2).dest_dhkey ≠ .zero →
          setting.key_exists (setting.containers e.2).dest_dhkey = true := by
  have hspl : visited handler ++ (handlers handler.tree).drop (maxEvents + 1) =
    handlers handler.tree := take_append_drop _ _
  have hnone :
      ((handlers handler.tree).drop (maxEvents + 1)).flatMap (entryEvents setting) = [] := by
    rw [flatMap_eq_nil_iff]
    exact fun e he => entryEvents_of_not_due (hdue e he)
  have hall : emitted setting handler = (handlers handler.tree).flatMap (entryEvents setting) := by
    rw [← hspl, flatMap_append, hnone, append_nil]
  rw [hall, flatMap_eq_iff fun e _ => entryEvents_sublist setting e]
  exact forall₂_congr fun e _ => entryEvents_eq_iff

lemma loop_eq : handleContainers setting maxEvents (handlers handler.tree) runtime [] =
      addEvents runtime (emitted setting handler) >>= fun runtime =>
        .ok (runtime, removed setting handler) :=
  handleContainers_eq setting maxEvents (handlers handler.tree) runtime []

lemma cleanup_ok {runtime1 : EventRuntime}
    (hok : addEvents runtime (emitted setting handler) = .ok runtime1) :
    ∃ tree1, cleanupResponseHandler setting handler.tree runtime = .ok (runtime1, tree1) ∧
      HoldsKeyed uuidKind tree1 fun uuid =>
        if uuid ∈ removed setting handler then none
        else (handler.registered uuid).map Treeval.void := by
  obtain ⟨tree1, hdel, hh⟩ := HoldsKeyed.delAll handler.holds (removed setting handler)
  have hdel' : (removed setting handler).foldlM
    (fun tree uuid => treeDel tree (.uuid uuid)) handler.tree = .ok tree1 := hdel
  refine ⟨tree1, ?_, hh⟩
  rw [cleanupResponseHandler, loop_eq, hok, ok_bind]
  simp only [Except.mapError, ok_bind, hdel']
  rfl

lemma cleanup_error (he : addEvents runtime (emitted setting handler) = .error .assertion) :
    cleanupResponseHandler setting handler.tree runtime = .error (.chain .assertion) := by
  rw [cleanupResponseHandler, loop_eq, he]
  rfl

lemma cleanup_emits (setting : Setting) (handler : ResponseHandler) (runtime : EventRuntime) :
    Emits (.chain .assertion) runtime (emitted setting handler)
      (cleanupResponseHandler setting handler.tree runtime) := by
  obtain ⟨hroom, runtime1, hok, hchn⟩ | ⟨hfull, he⟩ :=
    addEvents_spec runtime (emitted setting handler)
  · obtain ⟨tree1, hres, -⟩ := cleanup_ok hok
    exact .inl ⟨hroom, runtime1, tree1, hres, hchn⟩
  · exact .inr ⟨hfull, cleanup_error he⟩

lemma reachable_of_cleanedUp
    (h : CleanedUp setting handler runtime (cleanupResponseHandler setting handler.tree runtime)) :
    Reachable setting handler runtime := by
  obtain ⟨runtime', tree', hres, he, hh⟩ := h
  obtain ⟨hroom, runtime1, hok, hchn⟩ | ⟨-, herr⟩ :=
    addEvents_spec runtime (emitted setting handler)
  · obtain ⟨tree1, hres1, hh1⟩ := cleanup_ok hok
    rw [hres1] at hres
    cases hres
    have hdue := removed_eq_iff.1 fun uuid => (hh1.find uuid).symm.trans (hh.find uuid)
    rw [hchn] at he
    have heq := append_cancel_left he
    exact ⟨hdue, (visited_events_eq_iff hdue).1 heq, heq ▸ hroom⟩
  · rw [cleanup_error herr] at hres
    cases hres

lemma cleanedUp_of_reachable (h : Reachable setting handler runtime) :
    CleanedUp setting handler runtime (cleanupResponseHandler setting handler.tree runtime) := by
  obtain ⟨hdue, hd, hroom⟩ := h
  have he := (visited_events_eq_iff hdue).2 hd
  obtain ⟨-, runtime1, hok, hchn⟩ | ⟨hfull, -⟩ := addEvents_spec runtime (emitted setting handler)
  · obtain ⟨tree1, hres1, hh1⟩ := cleanup_ok hok
    refine ⟨runtime1, tree1, hres1, by rw [hchn, he], ?_⟩
    rw [← funext (removed_eq_iff.2 hdue)]
    exact hh1
  · rw [he] at hfull
    omega

/-- For any containers in the tree: a run notifies the targets of the due ones and takes just these
out of the tree, exactly if it reaches all of them. -/
theorem cleaned_up_iff (setting : Setting) (handler : ResponseHandler) (runtime : EventRuntime) :
    CleanedUp setting handler runtime (cleanupResponseHandler setting handler.tree runtime) ↔
      Reachable setting handler runtime :=
  ⟨reachable_of_cleanedUp, cleanedUp_of_reachable⟩

end

def numberedUuid (i : ℕ) : Uuid := ⟨replicate 15 0 ++ [UInt8.ofNat i], by simp⟩

def numbered (n : ℕ) : Except Tree.RedBlack.Fault NpTree :=
  (range n).foldlM (fun tree i => treeInsert tree (.uuid (numberedUuid i)) (.void i)) treeCreate

lemma numberedUuid_inj {i j : ℕ} (hi : i < 256) (hj : j < 256)
    (h : numberedUuid i = numberedUuid j) : i = j := by
  have hbytes := congrArg Uuid.bytes h
  have hlast : UInt8.ofNat i = UInt8.ofNat j := singleton_inj.1 (append_cancel_left hbytes)
  have hnat := congrArg UInt8.toNat hlast
  rwa [UInt8.toNat_ofNat_of_lt' hi, UInt8.toNat_ofNat_of_lt' hj] at hnat

lemma numbered_holds {n : ℕ} (hn : n ≤ 256) :
    ∃ tree, numbered n = .ok tree ∧ HoldsKeyed uuidKind tree fun uuid =>
      ((range n).find? fun i => numberedUuid i = uuid).map .void := by
  induction n with
  | zero => exact ⟨treeCreate, rfl, holdsKeyed_create⟩
  | succ n ih =>
    obtain ⟨tree, htree, hh⟩ := ih (Nat.le_of_succ_le hn)
    have hnew : (range n).find? (fun i => numberedUuid i = numberedUuid n) = none := by
      rw [find?_eq_none]
      intro i hi heq
      have hlt := mem_range.1 hi
      exact hlt.ne (numberedUuid_inj (hlt.trans hn) hn (of_decide_eq_true heq))
    obtain ⟨tree', hins, hh'⟩ := hh.insert
      (by rw [hnew]; rfl) (rfl : copyOfVal (.void n) = .ok (.void n))
    refine ⟨tree', ?_, ?_⟩
    · rw [numbered, range_succ, foldlM_append]
      rw [numbered] at htree
      rw [htree, ok_bind, foldlM_cons]
      have hi' : treeInsert tree (.uuid (numberedUuid n)) (.void n) = .ok tree' := hins
      rw [hi']
      rfl
    · have hmap : Function.update (fun uuid =>
            ((range n).find? fun i => numberedUuid i = uuid).map Treeval.void)
            (numberedUuid n) (some (.void n)) =
          fun uuid => ((range (n + 1)).find? fun i => numberedUuid i = uuid).map .void := by
        funext uuid
        rw [range_succ, find?_append]
        by_cases hu : uuid = numberedUuid n
        · subst hu
          rw [Function.update_self, hnew, none_or, find?_cons_of_pos]
          · rfl
          · exact decide_eq_true rfl
        · rw [Function.update_of_ne hu, find?_cons_of_neg, find?_nil, or_none]
          exact fun h => hu (of_decide_eq_true h).symm
      rw [← hmap]
      exact hh'

def lastAcknowledged : Setting where
  containers p := ⟨Dhkey.zero, Dhkey.ofWord 5, ⟨if p = 31 then 1 else 0⟩, ⟨0⟩⟩
  now := ⟨0⟩
  key_exists _ := true

/-- Among 32 containers only the last one is due, and it is neither handled nor removed. -/
theorem last_container_missed :
    ∃ handler : ResponseHandler,
      ((handlers handler.tree).filter (isDue lastAcknowledged)).length = 1 ∧
      ¬ CleanedUp lastAcknowledged handler startedRuntime
        (cleanupResponseHandler lastAcknowledged handler.tree startedRuntime) := by
  obtain ⟨tree, htree, hhs⟩ := numbered_holds (by decide : 32 ≤ 256)
  have hh : handlers tree = (range 32).map fun i => (numberedUuid i, i) := by
    have he : (numbered 32).toOption.map handlers =
      some ((range 32).map fun i => (numberedUuid i, i)) := by decide +kernel
    rw [htree] at he
    exact some.inj he
  refine ⟨⟨tree, _, hhs⟩, ?_, ?_⟩
  · have hcount : (((range 32).map fun i => (numberedUuid i, i)).filter
      (isDue lastAcknowledged)).length = 1 := by decide +kernel
    exact hh ▸ hcount
  · intro hclean
    have hlast : (numberedUuid 31, 31) ∈ (handlers tree).drop (maxEvents + 1) := by
      rw [hh]
      decide +kernel
    have hdue := (reachable_of_cleanedUp hclean).due _ hlast
    cases hdue

end Neuropil.Response.Cleanup
