import Neuropil.Lib.Run
import Neuropil.Message.Receiver

namespace Neuropil.Message.PartCacheRuns

open List Option Bloom Lib.Buffer Lib.Fault Lib.Run Message.Packet Message.Sender Message.Receiver

/-- The uuid of a message, and its mac without the bytes that differ between its parts. -/
structure Identity where
  uuid : Bytes
  mac : Bytes
deriving DecidableEq

def identity (part : MessagePart) : Identity :=
  ⟨part.e2e_msg_part.uuid, slice part.e2e_msg_part.mac_e 2 14⟩

/-- A locked section of `_np_alias_check_msgpart_cache`: a call looks for its part in the filter, or
one of the calls that did not find theirs goes on. -/
inductive Section
  | check (part : MessagePart)
  | proceed (call : ℕ)

/-- The parts of the calls that have looked into the filter, and what the ended calls returned. -/
structure Calls where
  context : PartCache
  pending : List MessagePart
  returned : List (Identity × E2eMessage)

def newCalls : Calls := ⟨newCache, [], []⟩

section

variable (hash : Bytes → Dhkey)

def keyOf (id : Identity) : Dhkey :=
  generateSubject hash (generateSubject hash Dhkey.zero id.uuid) id.mac

def lookUp (s : Calls) (part : MessagePart) : Except ReceiverFault Calls := do
  let seen_before ← (Decaying.check s.context.msg_part_filter
    (checkDhkey hash part.e2e_msg_part.toPointers)).mapError .filter
  return if seen_before then s else { s with pending := s.pending ++ [part] }

def proceed (s : Calls) (call : ℕ) : Except ReceiverFault Calls :=
  match s.pending[call]? with
  | none => .ok s
  | some part => do
    let (ret, context) ← addPart s.context (checkDhkey hash part.e2e_msg_part.toPointers) part
    return ⟨context, s.pending.eraseIdx call,
      s.returned ++ ret.toList.map fun msg => (identity part, msg)⟩

def step (s : Except ReceiverFault Calls) : Section → Except ReceiverFault Calls
  | .check part => s >>= fun s => lookUp hash s part
  | .proceed call => s >>= fun s => proceed hash s call

def Current : Except ReceiverFault Calls → Section → Prop
  | .ok s, .proceed call => ∀ part ∈ s.pending[call]?,
      Decaying.check s.context.msg_part_filter (keyOf hash (identity part)) = .ok false
  | _, _ => True

end

instance decidableCurrent (hash : Bytes → Dhkey) :
    (s : Except ReceiverFault Calls) → (a : Section) → Decidable (Current hash s a)
  | .ok s, .proceed call => inferInstanceAs (Decidable (∀ part ∈ s.pending[call]?,
      Decaying.check s.context.msg_part_filter (keyOf hash (identity part)) = .ok false))
  | .ok _, .check _ => isTrue trivial
  | .error _, .check _ => isTrue trivial
  | .error _, .proceed _ => isTrue trivial

structure Once (hash : Bytes → Dhkey) (s : Calls) : Prop where
  allocated : Decaying.Allocated s.context.msg_part_filter
  marked : ∀ id ∈ s.returned.map Prod.fst,
    Decaying.check s.context.msg_part_filter (keyOf hash id) = .ok true
  nodup : (s.returned.map Prod.fst).Nodup

variable {hash : Bytes → Dhkey} {s s' : Calls} {context context' : PartCache} {key : Dhkey}
  {part : MessagePart} {ret : Option E2eMessage}

lemma addToFilter_eq_ok (h : addToFilter context key = .ok context') :
    Decaying.add context.msg_part_filter key = .ok context'.msg_part_filter := by
  obtain ⟨bloom, hadd, h⟩ := bind_eq_ok h
  cases h
  cases hb : Decaying.add context.msg_part_filter key with
  | error e =>
    rw [hb] at hadd
    cases hadd
  | ok found =>
    rw [hb] at hadd
    cases hadd
    rfl

lemma addPart_cases (h : addPart context key part = .ok (ret, context')) :
    (ret = none ∧ context'.msg_part_filter = context.msg_part_filter) ∨ (∃ msg, ret = some msg) ∧
        Decaying.add context.msg_part_filter key = .ok context'.msg_part_filter := by
  rw [addPart] at h
  split at h
  · split at h
    · obtain ⟨added, -, h⟩ := bind_eq_ok h
      split at h
      · cases h
        exact .inl ⟨rfl, rfl⟩
      · obtain ⟨middle, hfil, h⟩ := bind_eq_ok h
        cases h
        have hadd := addToFilter_eq_ok hfil
        exact .inr ⟨⟨_, rfl⟩, hadd⟩
    · obtain ⟨added, -, h⟩ := bind_eq_ok h
      cases h
      exact .inl ⟨rfl, rfl⟩
  · obtain ⟨added, -, h⟩ := bind_eq_ok h
    obtain ⟨middle, hfil, h⟩ := bind_eq_ok h
    cases h
    exact .inr ⟨⟨_, rfl⟩, addToFilter_eq_ok hfil⟩

lemma lookUp_once (h : Once hash s) (hlook : lookUp hash s part = .ok s') : Once hash s' := by
  obtain ⟨seen, -, hlook⟩ := bind_eq_ok hlook
  cases hlook
  cases seen with
  | true => exact h
  | false => exact ⟨h.allocated, h.marked, h.nodup⟩

lemma proceed_once {call : ℕ} (h : Once hash s)
    (hcur : Current hash (.ok s) (.proceed call)) (hprc : proceed hash s call = .ok s') :
    Once hash s' := by
  rw [proceed] at hprc
  split at hprc
  · cases hprc
    exact h
  · next part hpart =>
    obtain ⟨⟨ret, context⟩, hadd, hprc⟩ := bind_eq_ok hprc
    cases hprc
    have hunseen := hcur part (by rw [hpart]; rfl)
    obtain ⟨rfl, hfil⟩ | ⟨⟨msg, rfl⟩, hfil⟩ := addPart_cases hadd
    · refine ⟨?_, ?_, ?_⟩
      · rw [hfil]
        exact h.allocated
      · simp only [toList_none, map_nil, append_nil, hfil]
        exact h.marked
      · simp only [toList_none, map_nil, append_nil]
        exact h.nodup
    · have hfree : 0 < s.context.msg_part_filter.free_items := by
        rw [Nat.pos_iff_ne_zero]
        intro hzero
        rw [Decaying.add, if_pos hzero] at hfil
        cases hfil
      obtain ⟨bloom, hb, ha, hmar, hkept⟩ :=
        Decaying.add_spec h.allocated hfree (keyOf hash (identity part))
      obtain rfl : bloom = context.msg_part_filter := Except.ok.inj (hb.symm.trans hfil)
      refine ⟨ha, ?_, ?_⟩
      · intro id hid
        simp only [toList_some, map_append, map_cons, map_nil, mem_append, mem_singleton] at hid
        obtain hid | rfl := hid
        · exact hkept _ (h.marked id hid)
        · exact hmar
      · simp only [toList_some, map_append, map_cons, map_nil,
          nodup_append, nodup_singleton, true_and, mem_singleton]
        refine ⟨h.nodup, ?_⟩
        rintro id hid _ rfl rfl
        have hseen := h.marked _ hid
        rw [hunseen] at hseen
        cases hseen

lemma newCalls_once : Once hash newCalls :=
  ⟨Decaying.create_allocated (by decide) (by decide) 1, (fun _ hid => nomatch hid), nodup_nil⟩

/-- In every interleaving in which no call goes on with an outdated answer of the filter, no message
is returned twice. -/
theorem returned_at_most_once {sections : List Section}
    (hcurrent : Admitted (step hash) (.ok newCalls) (Current hash) sections)
    (hrun : run (step hash) (.ok newCalls) sections = .ok s) :
    (s.returned.map Prod.fst).Nodup := by
  have hinv : ∀ s, run (step hash) (.ok newCalls) sections = .ok s → Once hash s := by
    refine run_inv (fun _ r => ∀ s, r = .ok s → Once hash s) ?_ ?_ sections hcurrent
    · intro s hs
      cases hs
      exact newCalls_once
    · intro before r a ih hok s' hstep
      cases a with
      | check part =>
        obtain ⟨s, rfl, hlook⟩ := bind_eq_ok hstep
        exact lookUp_once (ih s rfl) hlook
      | proceed call =>
        obtain ⟨s, rfl, hprc⟩ := bind_eq_ok hstep
        exact proceed_once (ih s rfl) hok hprc
  exact (hinv s hrun).nodup

def onlyPart : MessagePart :=
  { newPart with e2e_msg_part := { newPart.e2e_msg_part with parts := [1, 0] } }

theorem only_part_returned_once :
    ∃ s, run (step fun _ => Dhkey.zero) (.ok newCalls)
        [.check onlyPart, .proceed 0, .check onlyPart] = .ok s ∧
      (s.returned.map Prod.fst).Nodup := by
  obtain ⟨s, hrun, -⟩ := exists_ok (by decide +kernel :
    (run (step fun _ => Dhkey.zero) (.ok newCalls)
      [.check onlyPart, .proceed 0, .check onlyPart]).toOption.any fun _ => true)
  exact ⟨s, hrun, returned_at_most_once (by decide +kernel) hrun⟩

/-- Both copies of a packet are looked up before either call marks its message. -/
theorem two_copies_both_returned :
    ∃ s, run (step fun _ => Dhkey.zero) (.ok newCalls)
        [.check onlyPart, .check onlyPart, .proceed 0, .proceed 0] = .ok s ∧
      s.returned.map Prod.fst = [identity onlyPart, identity onlyPart] := by
  obtain ⟨s, hrun, hret⟩ := exists_ok (by decide +kernel :
    (run (step fun _ => Dhkey.zero) (.ok newCalls)
      [.check onlyPart, .check onlyPart, .proceed 0, .proceed 0]).toOption.any fun s =>
        s.returned.map Prod.fst == [identity onlyPart, identity onlyPart])
  exact ⟨s, hrun, eq_of_beq hret⟩

end Neuropil.Message.PartCacheRuns
