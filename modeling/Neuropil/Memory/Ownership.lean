import Mathlib.Data.UInt
import Neuropil.Lib.Run
import Neuropil.Memory.Sections

namespace Neuropil.Memory.Ownership

open List Lib.Fault Lib.Run Memory.Sections

def unusedConf (conf : Itemconf) : ℕ := if conf.in_use then 0 else 1

def usedConf (conf : Itemconf) : ℕ := if conf.in_use then 1 else 0

def unused (m : Container) (a : ℕ) : ℕ := (m.items a).elim 0 unusedConf

def used (m : Container) (a : ℕ) : ℕ := (m.items a).elim 0 usedConf

/-- Every item is in one place. Beside what the container knows, `idle` tells how often an unused
item is in somebody's hands, `busy` how often one in use is, and `pending` how many items are
counted but not held. -/
structure Accounted (m : Container) (idle busy : ℕ → ℕ) (pending : ℕ) : Prop where
  total : ∀ a, m.total_items.count a = unused m a + used m a
  unused : ∀ a, m.free_items.count a + m.refreshed_items.count a + idle a = unused m a
  used : ∀ a, m.held.count a + busy a = used m a
  counted : m.current_in_use = UInt32.ofNat (m.held.length + pending)

namespace Accounted

variable {m m' : Container} {idle idle' busy busy' : ℕ → ℕ} {pending pending' : ℕ}

section

variable (h : Accounted m idle busy pending)
include h

lemma unused_item (item : ℕ) (hitem : 0 < idle item) :
    ∃ conf, m.items item = some conf ∧ conf.in_use = false := by
  have hcount := h.unused item
  have hpos : 0 < Ownership.unused m item := by omega
  cases hconf : m.items item with
  | none => simp [Ownership.unused, hconf] at hpos
  | some conf =>
    cases huse : conf.in_use with
    | false => exact ⟨conf, rfl, huse⟩
    | true => simp [Ownership.unused, hconf, unusedConf, huse] at hpos

lemma used_item (item : ℕ) (hitem : 0 < m.held.count item + busy item) :
    ∃ conf, m.items item = some conf ∧ conf.in_use = true := by
  have hcount := h.used item
  have hpos : 0 < Ownership.used m item := by omega
  cases hconf : m.items item with
  | none => simp [Ownership.used, hconf] at hpos
  | some conf =>
    cases huse : conf.in_use with
    | true => exact ⟨conf, rfl, huse⟩
    | false => simp [Ownership.used, hconf, usedConf, huse] at hpos

lemma move (hitems : m'.items = m.items) (htot : m'.total_items = m.total_items)
    (hidle : ∀ a, m'.free_items.count a + m'.refreshed_items.count a + idle' a =
      m.free_items.count a + m.refreshed_items.count a + idle a)
    (hb : ∀ a, m'.held.count a + busy' a = m.held.count a + busy a)
    (hcnt : m'.current_in_use = UInt32.ofNat (m'.held.length + pending')) :
    Accounted m' idle' busy' pending' where
  total a := by simpa only [htot, Ownership.unused, Ownership.used, hitems] using h.total a
  unused a := by simpa only [hidle a, Ownership.unused, hitems] using h.unused a
  used a := by simpa only [hb a, Ownership.used, hitems] using h.used a
  counted := hcnt

variable {item : ℕ} {rest : List ℕ}

lemma popFree (hfree : m.free_items = item :: rest) :
    Accounted { m with free_items := rest } (fun a => idle a + [item].count a) busy pending := by
  refine h.move rfl rfl ?_ (fun _ => rfl) h.counted
  simp only [hfree, count_cons, count_nil]
  omega

lemma popRefreshed (href : m.refreshed_items = item :: rest) :
    Accounted { m with refreshed_items := rest } (fun a => idle a + [item].count a) busy
      pending := by
  refine h.move rfl rfl ?_ (fun _ => rfl) h.counted
  simp only [href, count_cons, count_nil]
  omega

end

section

variable (h : Accounted m (fun a => idle a + [item].count a) busy pending)
include h

lemma pushFree : Accounted { m with free_items := m.free_items ++ [item] } idle busy pending := by
  refine h.move rfl rfl ?_ (fun _ => rfl) h.counted
  simp only [count_append]
  omega

lemma pushRefreshed :
    Accounted { m with refreshed_items := m.refreshed_items ++ [item] } idle busy pending := by
  refine h.move rfl rfl ?_ (fun _ => rfl) h.counted
  simp only [count_append]
  omega

end

lemma hold (h : Accounted m idle (fun a => busy a + [item].count a) pending)
    {current_in_use : UInt32}
    (hcnt : current_in_use = UInt32.ofNat (m.held.length + 1 + pending')) :
    Accounted { m with current_in_use := current_in_use, held := item :: m.held } idle busy
      pending' := by
  refine h.move rfl rfl (fun _ => rfl) ?_ hcnt
  simp only [count_cons, count_nil]
  omega

lemma setItem (h : Accounted m idle busy pending) {conf conf' : Itemconf}
    (hconf : m.items item = some conf)
    (hidle : ∀ a, idle' a + (if a = item then unusedConf conf else 0) =
      idle a + if a = item then unusedConf conf' else 0)
    (hb : ∀ a, busy' a + (if a = item then usedConf conf else 0) =
      busy a + if a = item then usedConf conf' else 0) :
    Accounted (setItem m item conf') idle' busy' pending := by
  have hu : ∀ a, Ownership.unused (Sections.setItem m item conf') a +
      (if a = item then unusedConf conf else 0) =
        Ownership.unused m a + if a = item then unusedConf conf' else 0 := by
    intro a
    by_cases ha : a = item
    · simp [Ownership.unused, Sections.setItem, ha, hconf, Nat.add_comm]
    · simp [Ownership.unused, Sections.setItem, ha]
  have hused : ∀ a, Ownership.used (Sections.setItem m item conf') a +
      (if a = item then usedConf conf else 0) =
        Ownership.used m a + if a = item then usedConf conf' else 0 := by
    intro a
    by_cases ha : a = item
    · simp [Ownership.used, Sections.setItem, ha, hconf, Nat.add_comm]
    · simp [Ownership.used, Sections.setItem, ha]
  have hone : ∀ conf, unusedConf conf + usedConf conf = 1 := by
    intro conf
    cases huse : conf.in_use <;> simp [unusedConf, usedConf, huse]
  constructor
  · intro a
    have htot := h.total a
    have h1 := hu a
    have h2 := hused a
    have h3 := hone conf
    have h4 := hone conf'
    change m.total_items.count a = _
    split at h1 <;> split at h2 <;> omega
  · intro a
    have h1 := hu a
    have h2 := hidle a
    have h3 := h.unused a
    change m.free_items.count a + m.refreshed_items.count a + _ = _
    omega
  · intro a
    have h1 := hused a
    have h2 := hb a
    have h3 := h.used a
    change m.held.count a + _ = _
    omega
  · exact h.counted

lemma count_gained (n a item : ℕ) :
    n + [item].count a + (if a = item then 0 else 0) = n + if a = item then 1 else 0 := by
  by_cases ha : a = item
  · simp [ha]
  · simp [ha, Ne.symm ha]

lemma use (h : Accounted m (fun a => idle a + [item].count a) busy pending)
    {conf conf' : Itemconf} (hconf : m.items item = some conf) (hu : conf.in_use = false)
    (hused : conf'.in_use = true) :
    Accounted (Sections.setItem m item conf') idle (fun a => busy a + [item].count a) pending := by
  refine h.setItem hconf ?_ ?_
  · intro a
    simp only [unusedConf, hu, hused]
    exact (count_gained (idle a) a item).symm
  · intro a
    simp only [usedConf, hu, hused]
    exact count_gained (busy a) a item

lemma giveBack (h : Accounted m idle (fun a => busy a + [item].count a) pending)
    {conf conf' : Itemconf} (hconf : m.items item = some conf) (hused : conf.in_use = true)
    (hu : conf'.in_use = false) :
    Accounted (Sections.setItem m item conf') (fun a => idle a + [item].count a) busy pending := by
  refine h.setItem hconf ?_ ?_
  · intro a
    simp only [unusedConf, hu, hused]
    exact count_gained (idle a) a item
  · intro a
    simp only [usedConf, hu, hused]
    exact (count_gained (busy a) a item).symm

section

variable (h : Accounted m idle busy pending)
include h

lemma refreshSpace (item : ℕ) (hitem : 0 < idle item) :
    ∃ m', refreshSpace m item = .ok m' ∧ Accounted m' idle busy pending := by
  obtain ⟨conf, hconf, -⟩ := h.unused_item item hitem
  rw [Sections.refreshSpace, access, hconf]
  dsimp only [ok_bind]
  split
  · exact ⟨_, rfl, h.setItem hconf (fun _ => rfl) (fun _ => rfl)⟩
  · exact ⟨m, rfl, h⟩

lemma resize (hfree : m'.free_items = m.free_items)
    (href : m'.refreshed_items = m.refreshed_items) (hh : m'.held = m.held)
    (hcur : m'.current_in_use = m.current_in_use)
    (hused : ∀ a, Ownership.used m' a = Ownership.used m a)
    (hu : ∀ a, Ownership.unused m' a + idle a = Ownership.unused m a + idle' a)
    (htot : ∀ a, m'.total_items.count a + idle a = m.total_items.count a + idle' a) :
    Accounted m' idle' busy pending := by
  constructor
  · intro a
    have h1 := h.total a
    have h2 := hused a
    have h3 := hu a
    have h4 := htot a
    omega
  · intro a
    have h1 := h.unused a
    have h2 := hu a
    rw [hfree, href]
    omega
  · intro a
    rw [hh, hused]
    exact h.used a
  · rw [hcur, hh]
    exact h.counted

lemma insert (hnew : m.items item = none) :
    Accounted { Sections.setItem m item ⟨false, true, 0, false⟩ with
      total_items := m.total_items ++ [item] } (fun a => idle a + [item].count a) busy pending := by
  refine h.resize rfl rfl rfl rfl ?_ ?_ ?_
  · intro a
    by_cases ha : a = item <;> simp [Ownership.used, Sections.setItem, ha, hnew, usedConf]
  · intro a
    by_cases ha : a = item
    · simp [Ownership.unused, Sections.setItem, ha, hnew, unusedConf, Nat.add_comm]
    · simp [Ownership.unused, Sections.setItem, ha, Ne.symm ha]
  · intro a
    rw [count_append]
    omega

end

lemma delete (h : Accounted m (fun a => idle a + [item].count a) busy pending) :
    Accounted { m with
      total_items := m.total_items.erase item
      items := Function.update m.items item none } idle busy pending := by
  obtain ⟨conf, hconf, huse⟩ := h.unused_item item (by simp)
  refine h.resize rfl rfl rfl rfl ?_ ?_ ?_
  · intro a
    by_cases ha : a = item <;> simp [Ownership.used, ha, hconf, huse, usedConf]
  · intro a
    by_cases ha : a = item
    · simp [Ownership.unused, ha, hconf, huse, unusedConf, Nat.add_comm]
    · simp [Ownership.unused, ha, Ne.symm ha]
  · intro a
    have hcount := h.total item
    simp only [Ownership.unused, Ownership.used, hconf, Option.elim_some, unusedConf, usedConf,
      huse] at hcount
    simp only [count_erase, count_singleton]
    by_cases ha : item = a
    · subst ha
      simp only [beq_self_eq_true, if_true]
      simp at hcount
      omega
    · simp [ha]

end Accounted

def idleItems : Call → List ℕ
  | .listNew item _ _ | .refresh item | .take item | .list item => [item]
  | _ => []

def busyItems : Call → List ℕ
  | .count item | .release item => [item]
  | _ => []

def isCounted : Call → Bool
  | .release _ | .list _ | .uncount => true
  | _ => false

def jobItems : Job → List ℕ
  | .check item _ | .delete item _ => [item]
  | .renew list => list
  | .relist item list => item :: list
  | _ => []

def Accounts (m : Container) (idle busy : ℕ → ℕ) (pending : ℕ) (calls : List Call) : Prop :=
  Accounted m (fun a => idle a + (calls.flatMap idleItems).count a)
    (fun a => busy a + (calls.flatMap busyItems).count a) (pending + calls.countP isCounted)

variable (conf : ContainerConf)

section

variable {m : Container} {idle busy : ℕ → ℕ} {pending : ℕ}

lemma callSection_accounts (locked : Bool) (address : ℕ) {call : Call}
    (h : Accounts m idle busy pending [call]) :
    ∃ m' next, callSection conf locked address m call = .ok (m', next) ∧
      Accounts m' idle busy pending next := by
  cases call with
  | search =>
    rw [callSection]
    split
    · exact ⟨m, _, rfl, h⟩
    · cases href : m.refreshed_items with
      | nil => exact ⟨m, _, rfl, h⟩
      | cons item rest => exact ⟨_, _, rfl, Accounted.popRefreshed h href⟩
  | searchFree =>
    rw [callSection]
    cases hfree : m.free_items with
    | nil => exact ⟨m, _, rfl, h⟩
    | cons item rest => exact ⟨_, _, rfl, Accounted.popFree h hfree⟩
  | grow increase_mod left =>
    cases left with
    | zero =>
      rw [callSection]
      cases hfree : m.free_items with
      | nil => exact ⟨m, _, rfl, h⟩
      | cons item rest => exact ⟨_, _, rfl, Accounted.popFree h hfree⟩
    | succ left =>
      rw [callSection]
      cases hnew : m.items address with
      | some conf => exact ⟨m, _, rfl, h⟩
      | none => exact ⟨_, _, rfl, Accounted.insert h hnew⟩
  | listNew item increase_mod left => exact ⟨_, _, rfl, Accounted.pushFree h⟩
  | refresh item =>
    obtain ⟨m', hm', hacc⟩ := Accounted.refreshSpace h item (by simp [idleItems])
    refine ⟨m', [.take item], ?_, hacc⟩
    rw [callSection, hm', ok_bind]
    rfl
  | take item =>
    obtain ⟨c, hc, huse⟩ := Accounted.unused_item h item (by simp [idleItems])
    simp only [callSection, access, hc, ok_bind, huse, if_true]
    exact ⟨_, [.count item], rfl, Accounted.use h hc huse rfl⟩
  | count item =>
    refine ⟨_, [], rfl, Accounted.hold h ?_⟩
    have hsum : m.held.length + 1 + (pending + [].countP isCounted) =
        m.held.length + (pending + [Call.count item].countP isCounted) + 1 := Nat.add_right_comm ..
    rw [h.counted, hsum]
    exact (UInt32.ofNat_add _ 1).symm
  | release item =>
    obtain ⟨c, hc, huse⟩ := Accounted.used_item h item (Nat.add_pos_right _ (by simp [busyItems]))
    simp only [callSection, access, hc, ok_bind]
    split
    · exact ⟨_, [.list item], rfl, Accounted.giveBack h hc huse rfl⟩
    · refine ⟨_, [], rfl, Accounted.hold h ?_⟩
      have hsum : m.held.length + (pending + [Call.release item].countP isCounted) =
          m.held.length + 1 + (pending + [].countP isCounted) :=
        (Nat.add_right_comm m.held.length 1 pending).symm
      rw [h.counted, hsum]
  | list item =>
    rw [callSection]
    split
    · exact ⟨_, _, rfl, Accounted.pushFree h⟩
    · split
      · exact ⟨m, _, rfl, h⟩
      · exact ⟨_, _, rfl, Accounted.pushRefreshed h⟩
  | uncount =>
    refine ⟨_, _, rfl, h.move rfl rfl (fun _ => rfl) (fun _ => rfl) ?_⟩
    have hsum : m.held.length + (pending + [Call.uncount].countP isCounted) =
        m.held.length + (pending + [].countP isCounted) + 1 := rfl
    rw [h.counted, hsum, UInt32.ofNat_add]
    exact add_sub_cancel_right _ _

lemma jobSection_accounts (locked shrinking : Bool) {job : Job}
    (h : Accounted m (fun a => idle a + (jobItems job).count a) busy pending) :
    ∃ m' job', jobSection conf locked shrinking m job = .ok (m', job') ∧
      Accounted m' (fun a => idle a + (jobItems job').count a) busy pending := by
  cases job with
  | idle | measure =>
    rw [jobSection]
    split <;> exact ⟨m, _, rfl, h⟩
  | decrease =>
    rw [jobSection]
    split
    · exact ⟨m, _, rfl, h⟩
    · split <;> exact ⟨m, _, rfl, h⟩
  | shrink left =>
    cases left with
    | zero => exact ⟨m, _, rfl, h⟩
    | succ left =>
      rw [jobSection]
      cases hfree : m.free_items with
      | nil => exact ⟨m, _, rfl, h⟩
      | cons item rest => exact ⟨_, _, rfl, h.popFree hfree⟩
  | shrinkRefreshed left =>
    rw [jobSection]
    split
    · exact ⟨m, _, rfl, h⟩
    · cases href : m.refreshed_items with
      | nil => exact ⟨m, _, rfl, h⟩
      | cons item rest => exact ⟨_, _, rfl, h.popRefreshed href⟩
  | check item left =>
    obtain ⟨c, hc, huse⟩ := h.unused_item item (by simp [jobItems])
    simp only [jobSection, access, hc, ok_bind, huse, if_true]
    exact ⟨m, _, rfl, h⟩
  | delete item left => exact ⟨_, _, rfl, h.delete⟩
  | collect list_size =>
    refine ⟨_, _, rfl, h.move rfl rfl ?_ (fun _ => rfl) h.counted⟩
    intro a
    have hcount : m.free_items.count a =
        (m.free_items.take list_size).count a + (m.free_items.drop list_size).count a := by
      rw [← count_append, take_append_drop]
    simp only [jobItems, count_nil]
    omega
  | renew list =>
    cases list with
    | nil => exact ⟨m, _, rfl, h⟩
    | cons item list =>
      obtain ⟨m', hm', hacc⟩ := h.refreshSpace item (Nat.add_pos_right _ (by simp [jobItems]))
      refine ⟨m', .relist item list, ?_, hacc⟩
      rw [jobSection, hm', ok_bind]
      rfl
  | relist item list =>
    rw [jobSection]
    split
    · exact ⟨m, _, rfl, h⟩
    · refine ⟨_, _, rfl, h.move rfl rfl ?_ (fun _ => rfl) h.counted⟩
      simp only [jobItems, count_append, count_cons, count_nil]
      omega

end

def Consistent (s : State) : Prop :=
  Accounted s.container
    (fun a => (s.calls.flatMap idleItems).count a + (jobItems s.job).count a)
    (fun a => (s.calls.flatMap busyItems).count a) (s.calls.countP isCounted)

lemma consistent_iff_accounts (m : Container) (before mid after : List Call) (job : Job) :
    Consistent ⟨m, before ++ mid ++ after, job⟩ ↔ Accounts m
        (fun a => (before.flatMap idleItems).count a + (after.flatMap idleItems).count a +
          (jobItems job).count a)
        (fun a => (before.flatMap busyItems).count a + (after.flatMap busyItems).count a)
        (before.countP isCounted + after.countP isCounted) mid := by
  rw [Consistent, Accounts]
  congr! 1
  · funext a
    simp only [flatMap_append, count_append]
    omega
  · funext a
    simp only [flatMap_append, count_append]
    omega
  · simp only [countP_append]
    omega

lemma consistent_start : Consistent (start conf) := by
  have hcount : ∀ n a : ℕ, (range n).count a = if a ∈ range n then 1 else 0 := by
    intro n a
    exact List.Nodup.count nodup_range
  constructor
  · intro a
    simp only [start, hcount, unused, used]
    split <;> simp [unusedConf, usedConf]
  · intro a
    simp only [start, hcount, unused]
    split <;> simp [unusedConf, jobItems]
  · intro a
    simp only [start, used]
    split <;> simp [usedConf]
  · rfl

namespace Consistent

variable {s : State}

lemma callNew (h : Consistent s) : Consistent { s with calls := s.calls ++ [.search] } := by
  simpa [Consistent, flatMap_append, idleItems, busyItems, isCounted] using h

lemma callFree (h : Consistent s) {item : ℕ} (hitem : item ∈ s.container.held) :
    Consistent { s with
      container := { s.container with held := s.container.held.erase item }
      calls := s.calls ++ [.release item] } := by
  refine h.move rfl rfl ?_ ?_ ?_
  · simp [flatMap_append, idleItems]
  · intro a
    have hpos : 0 < s.container.held.count item := count_pos_iff.mpr hitem
    simp only [flatMap_append, flatMap_cons, flatMap_nil, busyItems,
      count_append, count_erase, append_nil, count_singleton]
    by_cases ha : item = a
    · subst ha
      simp only [beq_self_eq_true, if_true]
      omega
    · simp [ha]
  · have hpos : 0 < s.container.held.length := length_pos_of_mem hitem
    refine h.counted.trans (congrArg UInt32.ofNat ?_)
    simp only [length_erase_of_mem hitem, countP_append, countP_cons,
      countP_nil, isCounted, if_true]
    omega

lemma handle (h : Consistent s) (conf : ContainerConf) (a : Action) :
    ∃ s', handle conf s a = .ok s' ∧ Consistent s' := by
  cases a with
  | callNew => exact ⟨_, rfl, h.callNew⟩
  | callFree item =>
    rw [Sections.handle]
    split
    · next hitem => exact ⟨_, rfl, h.callFree hitem⟩
    · exact ⟨s, rfl, h⟩
  | proceed i address =>
    rw [Sections.handle]
    cases hcall : s.calls[i]? with
    | none => exact ⟨s, rfl, h⟩
    | some call =>
      have hcls : s.calls = s.calls.take i ++ [call] ++ s.calls.drop (i + 1) := by
        obtain ⟨hi, rfl⟩ := List.getElem?_eq_some_iff.mp hcall
        simp
      have hmid : Consistent
          ⟨s.container, s.calls.take i ++ [call] ++ s.calls.drop (i + 1), s.job⟩ := by
        rw [← hcls]
        exact h
      rw [consistent_iff_accounts] at hmid
      obtain ⟨m', next, hok, hnext⟩ := callSection_accounts conf s.locked address hmid
      refine ⟨⟨m', s.calls.take i ++ next ++ s.calls.drop (i + 1), s.job⟩, ?_, ?_⟩
      · simp only [hok, ok_bind]
        rfl
      · rw [consistent_iff_accounts]
        exact hnext
  | reference item ref_count persistent =>
    rw [Sections.handle]
    split
    · next hitem =>
      obtain ⟨c, hc, huse⟩ := h.used_item item (Nat.add_pos_left (count_pos_iff.mpr hitem) _)
      simp only [access, hc, ok_bind]
      exact ⟨_, rfl, h.setItem hc (fun _ => rfl) (fun _ => rfl)⟩
    · exact ⟨s, rfl, h⟩
  | job shrinking =>
    obtain ⟨m', job', hok, hnext⟩ := jobSection_accounts conf s.locked shrinking h
    refine ⟨⟨m', s.calls, job'⟩, ?_, hnext⟩
    simp only [Sections.handle, hok, ok_bind]
    rfl

end Consistent

lemma run_consistent (actions : List Action) :
    ∃ s, run (step conf) (.ok (start conf)) actions = .ok s ∧ Consistent s := by
  apply run_inv_always (fun _ (r : Except Fault State) => ∃ s, r = .ok s ∧ Consistent s)
  · exact ⟨start conf, rfl, consistent_start conf⟩
  · rintro before r a ⟨s, rfl, hs⟩
    exact hs.handle conf a

/-- The items that somebody has from np_memory_new: those held by callers, those that np_memory_new
is about to hand out, and those that np_memory_free has yet to look at. -/
def owned (s : State) : List ℕ := s.container.held ++ s.calls.flatMap busyItems

def inUseItems (m : Container) : List ℕ :=
  m.total_items.filter fun a => (m.items a).any Itemconf.in_use

lemma unused_add_used_le (m : Container) (a : ℕ) : unused m a + used m a ≤ 1 := by
  cases hconf : m.items a with
  | none => simp [unused, used, hconf]
  | some conf => cases huse : conf.in_use <;> simp [unused, used, hconf, unusedConf, usedConf, huse]

lemma Consistent.owned_nodup {s : State} (h : Consistent s) : (owned s).Nodup := by
  rw [nodup_iff_count_le_one]
  intro a
  have hu := h.used a
  have hle := unused_add_used_le s.container a
  rw [owned, count_append]
  omega

lemma Consistent.inUseItems_perm {s : State} (h : Consistent s) :
    (inUseItems s.container).Perm (owned s) := by
  rw [perm_iff_count]
  intro a
  have hu := h.used a
  have htot := h.total a
  rw [owned, count_append, hu]
  cases hconf : s.container.items a with
  | none =>
    have hnot : a ∉ inUseItems s.container := by simp [inUseItems, hconf]
    rw [count_eq_zero.mpr hnot, used, hconf, Option.elim_none]
  | some conf =>
    cases huse : conf.in_use with
    | false =>
      have hnot : a ∉ inUseItems s.container := by simp [inUseItems, hconf, huse]
      simp [count_eq_zero.mpr hnot, used, hconf, usedConf, huse]
    | true =>
      have hcount : (inUseItems s.container).count a = s.container.total_items.count a :=
        count_filter (by simp [hconf, huse])
      rw [hcount, htot]
      simp [unused, hconf, unusedConf, huse]

/-- In every interleaving, np_memory_new hands out no item that somebody has, and no assertion
fails. When nothing is going on, every item is in one place, and current_in_use counts those in use.
-/
theorem items_in_one_place (conf : ContainerConf) (actions : List Action) :
    ∃ s, run (step conf) (.ok (start conf)) actions = .ok s ∧ (owned s).Nodup ∧
      (s.calls = [] → s.job = .idle →
        (∀ a ∈ s.container.total_items,
          s.container.free_items.count a + s.container.refreshed_items.count a +
            (inUseItems s.container).count a = 1) ∧
        s.container.current_in_use.toNat = (inUseItems s.container).length % 2 ^ 32) := by
  obtain ⟨s, hs, h⟩ := run_consistent conf actions
  refine ⟨s, hs, h.owned_nodup, fun hcls hjob => ⟨fun a ha => ?_, ?_⟩⟩
  · have htot := h.total a
    have hu := h.unused a
    have hcount := h.inUseItems_perm.count_eq a
    have hpos := count_pos_iff.mpr ha
    have hle := unused_add_used_le s.container a
    have hused := h.used a
    rw [owned, count_append] at hcount
    simp only [hcls, hjob, jobItems, flatMap_nil, count_nil] at *
    omega
  · have hlen := h.inUseItems_perm.length_eq
    have hcnt := h.counted
    simp only [owned, hcls, flatMap_nil, append_nil] at hlen
    rw [hcnt, hcls, hlen]
    exact UInt32.toNat_ofNat

end Neuropil.Memory.Ownership
