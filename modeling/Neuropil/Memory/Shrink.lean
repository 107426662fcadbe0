import Neuropil.Memory.Ownership

namespace Neuropil.Memory.Shrink

open List Nat UInt32 Lib.Fault Lib.Run Memory.Sections Memory.Ownership

/-- The calls of np_memory_new with an item that is in no list and not yet counted. -/
def isUnderway : Call → Bool
  | .listNew _ _ _ | .refresh _ | .take _ | .count _ => true
  | _ => false

/-- The calls of np_memory_free whose item is in a list, and still counted. -/
def isRelisted : Call → Bool
  | .uncount => true
  | _ => false

lemma hands_length (calls : List Call) :
    (calls.flatMap idleItems).length + (calls.flatMap busyItems).length + calls.countP isRelisted =
      calls.countP isCounted + calls.countP isUnderway := by
  induction calls with
  | nil => rfl
  | cons call calls ih =>
    have hcall : (idleItems call).length + (busyItems call).length +
        (if isRelisted call then 1 else 0) =
          (if isCounted call then 1 else 0) + if isUnderway call then 1 else 0 := by
      cases call <;> rfl
    simp only [flatMap_cons, length_append, countP_cons]
    omega

variable {s : State}

lemma total_length (h : Consistent s) : s.container.total_items.length =
      s.container.free_items.length + s.container.refreshed_items.length +
        s.container.held.length + (s.calls.flatMap idleItems).length +
        (s.calls.flatMap busyItems).length + (jobItems s.job).length := by
  have hperm : s.container.total_items.Perm
      (s.container.free_items ++ s.container.refreshed_items ++ s.container.held ++
        s.calls.flatMap idleItems ++ s.calls.flatMap busyItems ++ jobItems s.job) := by
    rw [perm_iff_count]
    intro a
    have htot := h.total a
    have hu := h.unused a
    have hused := h.used a
    simp only [count_append]
    omega
  simpa only [length_append] using hperm.length_eq

lemma available_eq (h : Consistent s) (hjob : s.job = .decrease) :
    UInt32.ofNat s.container.free_items.length + UInt32.ofNat s.container.refreshed_items.length +
        s.container.current_in_use =
      UInt32.ofNat (s.container.total_items.length + s.calls.countP isRelisted -
        s.calls.countP isUnderway) := by
  have hh := hands_length s.calls
  have htot := total_length h
  have hnone : (jobItems s.job).length = 0 := by
    rw [hjob]
    rfl
  rw [h.counted, ← ofNat_add, ← ofNat_add]
  congr 1
  omega

/-- The items that the job may still delete. -/
def removals : Job → ℕ
  | .shrink left => left
  | .shrinkRefreshed left | .check _ left | .delete _ left => left + 1
  | _ => 0

lemma refreshSpace_total {m m' : Container} {item : ℕ} (h : refreshSpace m item = .ok m') :
    m'.total_items = m.total_items := by
  obtain ⟨conf, -, h⟩ := bind_eq_ok h
  split at h <;> cases h <;> rfl

variable {conf : ContainerConf}

lemma callSection_total {locked : Bool} {address : ℕ} {m m' : Container} {call : Call}
    {next : List Call} (h : callSection conf locked address m call = .ok (m', next)) :
    m.total_items.length ≤ m'.total_items.length := by
  -- every section but the one that makes an item leaves the total items alone
  cases call with
  | search | list item =>
    rw [callSection] at h
    split at h
    · cases h
      exact le_refl _
    · split at h <;> cases h <;> exact le_refl _
  | searchFree =>
    rw [callSection] at h
    split at h <;> cases h <;> exact le_refl _
  | grow increase_mod left =>
    cases left with
    | zero =>
      rw [callSection] at h
      split at h <;> cases h <;> exact le_refl _
    | succ left =>
      rw [callSection] at h
      split at h
      · cases h
        exact le_refl _
      · cases h
        simp
  | refresh item =>
    obtain ⟨m1, hm1, h⟩ := bind_eq_ok h
    cases h
    rw [refreshSpace_total hm1]
  | take item | release item =>
    obtain ⟨c, -, h⟩ := bind_eq_ok h
    split at h <;> cases h <;> exact le_refl _
  | listNew _ _ _ | count _ | uncount =>
    cases h
    exact le_refl _

lemma jobSection_total {locked shrinking : Bool} {m m' : Container} {job job' : Job}
    (h : jobSection conf locked shrinking m job = .ok (m', job')) (hjob : job ≠ .decrease) :
    m.total_items.length + removals job' ≤ m'.total_items.length + removals job := by
  cases job with
  | decrease => exact absurd rfl hjob
  | idle | measure | relist item list =>
    rw [jobSection] at h
    split at h <;> cases h <;> exact le_refl _
  | shrink left =>
    cases left with
    | zero =>
      cases h
      exact le_refl _
    | succ left =>
      rw [jobSection] at h
      split at h <;> cases h <;> exact le_refl _
  | shrinkRefreshed left =>
    rw [jobSection] at h
    split at h
    · cases h
      exact le_refl _
    · split at h
      · cases h
        exact le_refl _
      · cases h
        exact le_add_right _ _
  | check item left =>
    obtain ⟨c, -, h⟩ := bind_eq_ok h
    split at h
    · cases h
      exact le_refl _
    · cases h
  | delete item left =>
    cases h
    have he := le_length_erase (a := item) (l := m.total_items)
    simp only [removals]
    omega
  | collect list_size =>
    cases h
    exact le_refl _
  | renew list =>
    cases list with
    | nil =>
      cases h
      exact le_refl _
    | cons item list =>
      obtain ⟨m1, hm1, h⟩ := bind_eq_ok h
      cases h
      rw [refreshSpace_total hm1]
      exact le_refl _

/-- Whenever the job decides about the size, at most as many calls of np_memory_free stand between
the list and the count of their item as calls of np_memory_new have an item not yet counted. -/
def settled : Except Fault State → Action → Bool
  | .ok s, .job _ =>
    decide (s.job = .decrease → s.calls.countP isRelisted ≤ s.calls.countP isUnderway)
  | _, _ => true

structure Provided (conf : ContainerConf) (s : State) : Prop where
  consistent : Consistent s
  minimum : conf.min_count_of_items.toNat + removals s.job ≤ s.container.total_items.length

lemma provided_start (conf : ContainerConf) : Provided conf (start conf) := by
  refine ⟨consistent_start conf, ?_⟩
  have he := UInt32.le_iff_toNat_le.mp conf.ended
  rw [UInt32.toNat_mul] at he
  calc
    conf.min_count_of_items.toNat ≤ _ := he
    _ ≤ conf.count_of_items_per_block.toNat * (UInt32.ofNat conf.rounds).toNat := mod_le _ _
    _ ≤ conf.count_of_items_per_block.toNat * conf.rounds := by
      apply Nat.mul_le_mul_left
      rw [toNat_ofNat']
      exact mod_le _ _
    _ = (start conf).container.total_items.length := by simp [start]

section

variable (hfits : conf.min_count_of_items.toNat + conf.count_of_items_per_block.toNat < 2 ^ 32)
include hfits

lemma spaceDecrease_total {shrinking : Bool} (h : Consistent s) (hjob : s.job = .decrease)
    (hsettled : s.calls.countP isRelisted ≤ s.calls.countP isUnderway)
    (hd : spaceDecreaseNessecary conf s.container shrinking = true) :
    conf.min_count_of_items.toNat + conf.count_of_items_per_block.toNat ≤
      s.container.total_items.length := by
  simp only [spaceDecreaseNessecary, Bool.and_eq_true, decide_eq_true_eq] at hd
  have ha := hd.1
  rw [available_eq h hjob, UInt32.le_iff_toNat_le, UInt32.toNat_add, mod_eq_of_lt hfits] at ha
  have hmod := mod_le (s.container.total_items.length + s.calls.countP isRelisted -
    s.calls.countP isUnderway) (2 ^ 32)
  have hofNat : (UInt32.ofNat (s.container.total_items.length + s.calls.countP isRelisted -
    s.calls.countP isUnderway)).toNat = _ := toNat_ofNat
  omega

lemma Provided.handle {a : Action} (h : Provided conf s) (hset : settled (.ok s) a = true) :
    ∃ s', handle conf s a = .ok s' ∧ Provided conf s' := by
  obtain ⟨s', hs', hcon⟩ := h.consistent.handle conf a
  refine ⟨s', hs', hcon, ?_⟩
  have hmin := h.minimum
  cases a with
  | callNew =>
    cases hs'
    exact hmin
  | callFree item =>
    rw [Sections.handle] at hs'
    split at hs' <;> cases hs' <;> exact hmin
  | proceed i address =>
    rw [Sections.handle] at hs'
    split at hs'
    · cases hs'
      exact hmin
    · obtain ⟨⟨m', next⟩, hsec, hs'⟩ := bind_eq_ok hs'
      cases hs'
      exact hmin.trans (callSection_total hsec)
  | reference item ref_count persistent =>
    rw [Sections.handle] at hs'
    split at hs'
    · obtain ⟨c, -, hs'⟩ := bind_eq_ok hs'
      cases hs'
      exact hmin
    · cases hs'
      exact hmin
  | job shrinking =>
    obtain ⟨⟨m', job'⟩, hsec, hs'⟩ := bind_eq_ok hs'
    cases hs'
    by_cases hjob : s.job = .decrease
    · rw [hjob, jobSection] at hsec
      have hcls := of_decide_eq_true hset hjob
      split at hsec
      · cases hsec
        rwa [hjob] at hmin
      · split at hsec
        · next hd =>
          have htot := spaceDecrease_total hfits h.consistent hjob hcls hd
          cases hsec
          exact htot
        · cases hsec
          rwa [hjob] at hmin
    · have htot := jobSection_total hsec hjob
      dsimp only
      omega

end

/-- The container keeps its minimum of items in every interleaving in which the job decides only in
settled states, if the minimum and a block fit their type. -/
theorem total_items_ge_minimum (conf : ContainerConf) (actions : List Action)
    (hfits : conf.min_count_of_items.toNat + conf.count_of_items_per_block.toNat < 2 ^ 32)
    (hsettled : Admitted (step conf) (.ok (start conf)) (fun r a => settled r a = true) actions)
    (before : List Action) (hbefore : before <+: actions) :
    ∃ s, run (step conf) (.ok (start conf)) before = .ok s ∧
      conf.min_count_of_items.toNat ≤ s.container.total_items.length := by
  have hrun : ∃ s, run (step conf) (.ok (start conf)) before = .ok s ∧ Provided conf s := by
    apply run_inv (fun _ r => ∃ s, r = .ok s ∧ Provided conf s) _ _ before
      (hsettled.of_prefix hbefore)
    · exact ⟨start conf, rfl, provided_start conf⟩
    · rintro _ r a ⟨s, rfl, hs⟩ ha
      exact hs.handle hfits ha
  obtain ⟨s, hs, hpro⟩ := hrun
  exact ⟨s, hs, le_trans (le_add_right _ _) hpro.minimum⟩

def twoItems : ContainerConf := ⟨2, 2, true, 1, by decide, by decide⟩

def fourItems : ContainerConf := ⟨4, 4, true, 1, by decide, by decide⟩

def newItem : List Action := .callNew :: replicate 5 (.proceed 0 0)

def newItemAt (address : ℕ) : List Action := .callNew :: replicate 8 (.proceed 0 address)

def freeItem (item : ℕ) : List Action := .callFree item :: replicate 3 (.proceed 0 0)

def fourTaken : List Action :=
  newItem ++ newItem ++ newItemAt 2 ++ newItemAt 3 ++
    freeItem 0 ++ freeItem 1 ++ freeItem 2 ++ freeItem 3 ++ replicate 8 (.job false)

theorem total_items_ge_minimum_fourTaken :
    ∃ s, run (step twoItems) (.ok (start twoItems)) fourTaken = .ok s ∧
      2 ≤ s.container.total_items.length :=
  total_items_ge_minimum twoItems fourTaken (by decide) (by decide +kernel) fourTaken
    (prefix_refl _)

/-- The calls of np_memory_free are interrupted when their items are listed and not yet counted
down, so that the job sees every item twice. -/
def allRelisted : List Action :=
  newItem ++ newItem ++ newItem ++ newItem ++
    [.callFree 0, .callFree 1, .callFree 2, .callFree 3,
      .proceed 0 0, .proceed 0 0, .proceed 1 0, .proceed 1 0,
      .proceed 2 0, .proceed 2 0, .proceed 3 0, .proceed 3 0] ++
    replicate 14 (.job false)

/-- The job deletes all the items of a container that has to keep four. -/
theorem all_items_deleted :
    (run (step fourItems) (.ok (start fourItems)) allRelisted).toOption.map
        (fun s => s.container.total_items) = some [] ∧
      fourItems.min_count_of_items = 4 := by
  decide +kernel

end Neuropil.Memory.Shrink
