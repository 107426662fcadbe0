import Neuropil.Policy.Compliance

namespace Neuropil.Policy.Completeness

open List Lib.Buffer Bloom.Filter Bloom.Containment Datablock.Objects Datablock.Block
  Datablock.BlockRuns
open Datablock.Iterate Policy.Compliance

def Present (block : Bytes) : Requirement → Prop
  | .key key => ∃ fuel v, getData fuel block key = .ok v
  | .bin key value => Stored block key value

/-- The check returns, and returns true if everything required is there. -/
structure Completes (hash : Bytes → Dhkey) (policy : NeuropilBloom)
    (requirements : List Requirement) (block beyond : Bytes) : Prop where
  returns : ∃ result n, ∀ fuel ≥ n,
    policyCheckCompliance hash fuel (some policy) (block ++ beyond) = .ok result
  complies : (∀ r ∈ requirements, Present block r) → ∃ n, ∀ fuel ≥ n,
    policyCheckCompliance hash fuel (some policy) (block ++ beyond) = .ok true

section

variable {hash : Bytes → Dhkey} {policy : NeuropilBloom} {requirements : List Requirement}
  {block beyond : Bytes} {objects : List KvPair}

lemma requiredTexts_eq_nil_iff : requiredTexts requirements = [] ↔ requirements = [] := by
  rw [requiredTexts, flatMap_eq_nil_iff, eq_nil_iff_forall_not_mem]
  refine forall_congr' fun r => ?_
  cases r <;> simp [Requirement.texts]

lemma provided_of_present (h : ∀ r ∈ requirements, Present block r) :
    ∀ text ∈ requiredTexts requirements, Provided block text := by
  intro text htext
  obtain ⟨r, hr, htext⟩ := mem_flatMap.1 htext
  have hpre := h r hr
  cases r with
  | key key =>
    obtain ⟨fuel, v, hget⟩ := hpre
    exact ⟨fuel, key, v, hget, .inl (by simpa [Requirement.texts] using htext)⟩
  | bin key value =>
    obtain ⟨fuel, v, hget, rfl⟩ := hpre
    exact ⟨fuel, key, v, hget, by simpa [Requirement.texts] using htext⟩

section

variable (hlayout : Layout block objects)
  (hpolicy : Holds policy ((requiredTexts requirements).map hash))
  (hsome : requiredTexts requirements ≠ [])
include hlayout hpolicy hsome

lemma check_returns (hroom : 3 * objects.length + (requiredTexts requirements).length ≤ 64) :
    ∃ result n, (∀ fuel ≥ n,
        policyCheckCompliance hash fuel (some policy) (block ++ beyond) = .ok result) ∧
      ((∀ text ∈ requiredTexts requirements, Provided block text) → result = true) := by
  obtain ⟨attributes, hh, hb⟩ := build_ok hlayout (by omega)
  have hlen : ((requiredTexts requirements).map hash).length +
      ((objects.flatMap attributeTexts).map hash).length ≤ 64 := by
    rw [length_attributeTexts, length_map]
    omega
  obtain ⟨relevant, hrel, hcmp⟩ := cmp_intersect_iff hpolicy hh hlen
  refine ⟨decide (cmp policy relevant = 0), objects.length + 1, fun fuel hfuel => ?_, ?_⟩
  · obtain ⟨k, rfl⟩ := Nat.exists_eq_add_of_le hfuel
    have ha := hb k beyond
    rw [Nat.add_comm k 1, ← Nat.add_assoc] at ha
    rw [check_of_build hpolicy hsome ha, hrel]
    rfl
  · intro hpro
    rw [decide_eq_true_iff, hcmp]
    simp only [forall_mem_map, covered_iff hlayout]
    exact fun text htext k => ⟨text, hpro text htext, k, rfl⟩

lemma check_aborts (hfull : 64 < 3 * objects.length + (requiredTexts requirements).length)
    (fuel : ℕ) :
    policyCheckCompliance hash (objects.length + (fuel + 1)) (some policy) (block ++ beyond) =
      .error (.filter .abort) := by
  have hcmp := cmp_ne_zero hpolicy hsome
  by_cases hroom : 3 * objects.length ≤ 64
  · obtain ⟨attributes, hh, hb⟩ := build_ok hlayout hroom
    have hlen : 64 < ((requiredTexts requirements).map hash).length +
        ((objects.flatMap attributeTexts).map hash).length := by
      rw [length_attributeTexts, length_map]
      omega
    rw [check_of_build hpolicy hsome (hb fuel beyond), intersect_full hpolicy hh hlen]
    rfl
  · have he : objects.foldlM (fun bloom kv =>
        (classicBuildAttributeBloom hash bloom kv).mapError PolicyFault.filter) create =
        .error (.filter .abort) := by
      rw [foldlM_attributes, holds_create.add_all_full _ (by
        rw [nil_append, length_attributeTexts]
        omega)]
      rfl
    have hb : attributeBuildBloom hash (objects.length + (fuel + 1)) create
        (block ++ beyond) = .error (.filter .abort) :=
      iterateData_error hlayout he (fuel + 1)
    rw [policyCheckCompliance]
    simp only [if_neg hcmp, hb]

end

lemma completes_empty (hpolicy : Holds policy ((requiredTexts requirements).map hash))
    (he : requiredTexts requirements = []) : Completes hash policy requirements block beyond := by
  have hcmp : cmp create policy = 0 := by
    rw [cmp_create_iff hpolicy, he, map_nil]
  have hchk : ∀ fuel, policyCheckCompliance hash fuel (some policy) (block ++ beyond) =
      .ok true := by
    intro fuel
    rw [policyCheckCompliance]
    simp only [if_pos hcmp]
  exact ⟨⟨true, 0, fun fuel _ => hchk fuel⟩, fun _ => ⟨0, fun fuel _ => hchk fuel⟩⟩

end

/-- A check returns, and passes if everything required is there, exactly if nothing is required or
the filter has room for three texts per attribute and the texts of the policy. -/
theorem compliance_complete_iff {hash : Bytes → Dhkey} {fuel id : ℕ} {calls : List AttrCall}
    {store : Store} {block : Bytes} {requirements : List Requirement} {policy : NeuropilBloom}
    (hrun : attrRun fuel calls = .ok store) (hblock : store id = some block)
    (hpolicy : buildPolicy hash requirements = .ok policy) (beyond : Bytes) :
    Completes hash policy requirements block beyond ↔
      requirements = [] ∨ 3 * getObjectCount block + (requiredTexts requirements).length ≤ 64 := by
  obtain ⟨maps, href⟩ := attrRun_refines hrun
  obtain ⟨objects, hlayout, -⟩ := href id block hblock
  have hh := holds_policy hpolicy
  rw [getObjectCount_eq hlayout, ← requiredTexts_eq_nil_iff]
  constructor
  · intro hcom
    by_contra hnot
    push Not at hnot
    obtain ⟨hsome, hfull⟩ := hnot
    obtain ⟨result, n, hn⟩ := hcom.returns
    have hchk := hn (objects.length + (n + 1)) (by omega)
    rw [check_aborts hlayout hh hsome hfull] at hchk
    cases hchk
  · intro hcond
    by_cases he : requiredTexts requirements = []
    · exact completes_empty hh he
    · obtain ⟨result, n, hn, htrue⟩ :=
        check_returns hlayout hh he (hcond.resolve_left he)
      refine ⟨⟨result, n, hn⟩, fun hpre => ⟨n, fun fuel hfuel => ?_⟩⟩
      rw [hn fuel hfuel, htrue (provided_of_present hpre)]

def sevens (n : ℕ) : List KvPair := (range n).map fun i => ⟨nameOf i, .bin [7]⟩

def sevenCalls (n : ℕ) : List AttrCall :=
  .data (.init 0 10240) :: (range n).map fun i => .ident (some 0) none (nameOf i) [7]

lemma length_objectBytes_sevens (n : ℕ) : (objectBytes (sevens n)).length = 6 * n := by
  have hlen : ∀ i, (writeObject ⟨nameOf i, .bin [7]⟩).length = 6 := fun i => rfl
  rw [length_objectBytes, sevens, map_map]
  simp [Function.comp_def, hlen, Nat.mul_comm]

lemma run_sevenCalls {n : ℕ} (h : n ≤ 1000) :
    ∃ store block, attrRun 1001 (sevenCalls n) = .ok store ∧ store 0 = some block ∧
      Layout block (sevens n) := by
  have hcls : attrRun 1001 (sevenCalls n) =
      run 1001 (.init 0 10240 :: (sevens n).map (.set 0 · none)) := by
    rw [attrRun, run, sevenCalls, sevens, map_map, foldlM_cons, foldlM_cons]
    simp only [foldlM_map, Function.comp_apply, call_set_none]
    rfl
  have hkeys : ((sevens n).map KvPair.key).Nodup := by
    rw [sevens, map_map]
    refine List.Nodup.map_on ?_ nodup_range
    intro i hi j hj hname
    rw [mem_range] at hi hj
    exact nameOf_inj (by omega) (by omega) hname
  have hsizes : ∀ kv ∈ sevens n, calculateObjectSize kv = (writeObject kv).length := by
    intro kv hkv
    obtain ⟨i, -, rfl⟩ := mem_map.1 hkv
    rfl
  have hlen : (10240 : UInt32).toNat = 10240 := rfl
  have hcount : (sevens n).length = n := by simp [sevens]
  obtain ⟨store, block, hrun, hb, -, hlayout⟩ := run_stores hkeys hsizes
    (by rw [length_objectBytes_sevens, hlen]; omega) (by omega)
    (by omega : (sevens n).length < 1001)
  exact ⟨store, block, hcls.trans hrun, hb, hlayout⟩

/-- With 22 attributes the check aborts, although the required key is there. -/
theorem many_attributes_abort :
    ∃ store block policy, attrRun 1001 (sevenCalls 22) = .ok store ∧ store 0 = some block ∧
      buildPolicy firstByteHash [.key (nameOf 0)] = .ok policy ∧
      Present block (.key (nameOf 0)) ∧
      policyCheckCompliance firstByteHash 23 (some policy) block = .error (.filter .abort) := by
  obtain ⟨store, block, hrun, hb, hlayout⟩ := run_sevenCalls (by decide : 22 ≤ 1000)
  obtain ⟨policy, hpolicy⟩ := buildPolicy_ok firstByteHash
    (by decide : (requiredTexts [.key (nameOf 0)]).length ≤ 64)
  have hchk : policyCheckCompliance firstByteHash 23 (some policy) (block ++ []) =
      .error (.filter .abort) :=
    check_aborts hlayout (holds_policy hpolicy) (cons_ne_nil _ _) (by decide) 0
  rw [append_nil] at hchk
  obtain ⟨fuel, hget⟩ := (getData_ok_iff hlayout).2 (mem_map.2 ⟨0, mem_range.2 (by decide), rfl⟩)
  exact ⟨store, block, policy, hrun, hb, hpolicy, ⟨fuel, _, hget⟩, hchk⟩

/-- With 20 attributes it passes. -/
theorem sample_compliance_complete :
    ∃ store block policy, attrRun 1001 (sevenCalls 20) = .ok store ∧ store 0 = some block ∧
      buildPolicy firstByteHash [.bin (nameOf 3) [7]] = .ok policy ∧
      Completes firstByteHash policy [.bin (nameOf 3) [7]] block [] := by
  obtain ⟨store, block, hrun, hb, hlayout⟩ := run_sevenCalls (by decide : 20 ≤ 1000)
  obtain ⟨policy, hpolicy⟩ := buildPolicy_ok firstByteHash
    (by decide : (requiredTexts [.bin (nameOf 3) [7]]).length ≤ 64)
  refine ⟨store, block, policy, hrun, hb, hpolicy,
    (compliance_complete_iff hrun hb hpolicy []).2 (.inr ?_)⟩
  rw [getObjectCount_eq hlayout]
  decide

end Neuropil.Policy.Completeness
