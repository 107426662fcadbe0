import Neuropil.Bloom.Containment
import Neuropil.Datablock.BlockRuns
import Neuropil.Datablock.Iterate

namespace Neuropil.Policy.Compliance

open List Bloom.Containment Bloom.Filter Lib.Buffer Lib.Fault Datablock.Block Datablock.BlockRuns
  Datablock.Iterate Datablock.Objects

section

/-- Calls that change blocks of attributes: the data functions, np_set_ident_attr_bin and
np_set_mxp_attr_bin. A missing target is `none`. -/
inductive AttrCall
  | data (call : Call)
  | ident (ident inheritance : Option ℕ) (key : Name) (bin : Bytes)
  | mxp (inbound outbound inheritance : Option ℕ) (key : Name) (bin : Bytes)

def setEach (fuel : ℕ) (kv : KvPair) : Store → List ℕ → Except Stop Store
  | _, [] => .error (.ret .invalidArguments)
  | store, [id] => setAt fuel store id kv none
  | store, id :: next :: ids =>
    match setAt fuel store id kv none with
    | .ok store => setEach fuel kv store (next :: ids)
    | .error (.ret .couldNotWriteTotalLength) =>
      -- an object whose size is wrong fails in the other blocks too
      .error (.ret .couldNotWriteTotalLength)
    | .error (.ret _) => setEach fuel kv store (next :: ids)
    | .error e => .error e

def attrCall (fuel : ℕ) (store : Store) : AttrCall → Except Stop Store
  | .data c => call fuel store c
  | .ident ident inheritance key bin =>
    setEach fuel ⟨key, .bin bin⟩ store (ident.toList ++ inheritance.toList)
  | .mxp inbound outbound inheritance key bin =>
    setEach fuel ⟨key, .bin bin⟩ store (inbound.toList ++ outbound.toList ++ inheritance.toList)

def attrRun (fuel : ℕ) (calls : List AttrCall) : Except Stop Store :=
  calls.foldlM (attrCall fuel) (fun _ => none)

variable {fuel : ℕ} {store store' : Store} {maps : ℕ → Contents}

lemma setEach_refines {kv : KvPair} {ids : List ℕ} (href : Refines store maps)
    (hset : setEach fuel kv store ids = .ok store') : ∃ maps', Refines store' maps' := by
  induction ids generalizing store maps with
  | nil => cases hset
  | cons id ids ih =>
    cases ids with
    | nil => exact setAt_refines href hset
    | cons next ids =>
      rw [setEach] at hset
      split at hset
      · next hat =>
        obtain ⟨maps', href'⟩ := setAt_refines href hat
        exact ih href' hset
      · cases hset
      · exact ih href hset
      · cases hset

lemma attrRun_refines {calls : List AttrCall} (hrun : attrRun fuel calls = .ok store) :
    ∃ maps, Refines store maps := by
  refine foldlM_kept (fun _ store => ∃ maps, Refines store maps) ?_ ?_ hrun
  · exact ⟨fun _ _ => none, fun id block hb => nomatch hb⟩
  · rintro _ s c s' ⟨maps, href⟩ hcall
    cases c with
    | data c => exact call_refines_some href hcall
    | ident ident inheritance key bin | mxp inbound outbound inheritance key bin =>
      exact setEach_refines href hcall

end

inductive PolicyFault
  | data (stop : Stop)
  | filter (fault : FilterFault)
deriving DecidableEq

/-- What np_dhkey_create_from_hostport hashes for a key and the port "required". -/
def keyText (key : Name) : Bytes :=
  (key.bytes ++ [58, 114, 101, 113, 117, 105, 114, 101, 100]).take 254

def valueText : Value → Bytes
  | .bin bin => bin
  | .str str => str
  | .int integer => leBytes 4 integer.toUInt32.toNat
  | .uint unsignedInteger => leBytes 4 unsignedInteger.toNat

section

variable (hash : Bytes → Dhkey) (bloom : NeuropilBloom)

def policySetKey (key : Name) : Except FilterFault NeuropilBloom := add bloom (hash (keyText key))

def policySetBin (key : Name) (value : Bytes) : Except FilterFault NeuropilBloom := do
  let bloom ← policySetKey hash bloom key
  add bloom (hash value)

def classicBuildAttributeBloom (kv : KvPair) : Except FilterFault NeuropilBloom := do
  let bloom ← policySetKey hash bloom kv.key
  policySetBin hash bloom kv.key (valueText kv.value)

/-- `_np_attribute_build_bloom`; a result other than np_data_ok is the fault it came with. -/
def attributeBuildBloom (fuel : ℕ) (target : NeuropilBloom) (memory : Bytes) :
    Except PolicyFault NeuropilBloom :=
  iterateData .data
    (always fun bloom kv => (classicBuildAttributeBloom hash bloom kv).mapError .filter)
    fuel memory target

/-- `_np_policy_check_compliance` of attributes that lie at the beginning of the memory. -/
def policyCheckCompliance (fuel : ℕ) (policy : Option NeuropilBloom) (memory : Bytes) :
    Except PolicyFault Bool :=
  match policy with
  | none => .ok true
  | some policy =>
    if cmp create policy = 0 then .ok true
    else
      match attributeBuildBloom hash fuel create memory with
      | .ok attributes => do
        let relevant ← (union create policy).mapError .filter
        let relevant ← (intersectIgnoreAge relevant attributes).mapError .filter
        .ok (decide (cmp policy relevant = 0))
      | .error (.data (.ret _)) => .ok false
      | .error e => .error e

inductive Requirement
  | key (key : Name)
  | bin (key : Name) (value : Bytes)

def setRequirement : Requirement → Except FilterFault NeuropilBloom
  | .key key => policySetKey hash bloom key
  | .bin key value => policySetBin hash bloom key value

def buildPolicy (requirements : List Requirement) : Except FilterFault NeuropilBloom :=
  requirements.foldlM (setRequirement hash) create

end

def Requirement.texts : Requirement → List Bytes
  | .key name => [keyText name]
  | .bin name value => [keyText name, value]

def requiredTexts (requirements : List Requirement) : List Bytes :=
  requirements.flatMap Requirement.texts

def attributeTexts (kv : KvPair) : List Bytes :=
  [keyText kv.key, keyText kv.key, valueText kv.value]

def Stored (block : Bytes) (key : Name) (value : Bytes) : Prop :=
  ∃ fuel v, getData fuel block key = .ok v ∧ valueText v = value

def Provided (block : Bytes) (text : Bytes) : Prop :=
  ∃ fuel key v, getData fuel block key = .ok v ∧ (text = keyText key ∨ text = valueText v)

/-- Hashing is free of collisions: where all positions of a required text are positions of texts of
the attributes, it is one of them. -/
def CollisionFree (hash : Bytes → Dhkey) (requirements : List Requirement) (block : Bytes) : Prop :=
  ∀ text ∈ requiredTexts requirements,
    (∀ k, ∃ other, Provided block other ∧ ∃ j, cellOf (hash other) j = cellOf (hash text) k) →
      Provided block text

variable {key : Name}

section

variable {hash : Bytes → Dhkey} {policy : NeuropilBloom} {requirements : List Requirement}
  {block beyond : Bytes} {objects : List KvPair} {fuel : ℕ}

lemma setRequirement_eq :
    setRequirement hash = fun bloom r => addAll bloom (r.texts.map hash) := by
  funext bloom r
  cases r with
  | key key => simp [setRequirement, policySetKey, Requirement.texts, addAll]
  | bin key value => simp [setRequirement, policySetBin, policySetKey, Requirement.texts, addAll]

lemma classicBuildAttributeBloom_eq : classicBuildAttributeBloom hash =
      fun bloom kv => addAll bloom ((attributeTexts kv).map hash) := by
  funext bloom kv
  simp [classicBuildAttributeBloom, policySetBin, policySetKey, attributeTexts, addAll]

lemma buildPolicy_eq :
    buildPolicy hash requirements = addAll create ((requiredTexts requirements).map hash) := by
  rw [buildPolicy, requiredTexts, map_flatMap, setRequirement_eq, foldlM_addAll]

lemma holds_policy (hpolicy : buildPolicy hash requirements = .ok policy) :
    Holds policy ((requiredTexts requirements).map hash) := by
  rw [buildPolicy_eq] at hpolicy
  by_cases hlen : ((requiredTexts requirements).map hash).length ≤ 64
  · obtain ⟨bloom, hall, hh⟩ := holds_create.add_all _ hlen
    rw [hall] at hpolicy
    cases hpolicy
    exact hh
  · rw [holds_create.add_all_full _ (by simpa using hlen)] at hpolicy
    cases hpolicy

lemma buildPolicy_ok (hash : Bytes → Dhkey) (hlen : (requiredTexts requirements).length ≤ 64) :
    ∃ policy, buildPolicy hash requirements = .ok policy := by
  obtain ⟨policy, hall, -⟩ := holds_create.add_all ((requiredTexts requirements).map hash)
    (by rwa [nil_append, length_map])
  exact ⟨policy, buildPolicy_eq.trans hall⟩

lemma foldlM_attributes (objects : List KvPair) :
    objects.foldlM (fun bloom kv =>
        (classicBuildAttributeBloom hash bloom kv).mapError PolicyFault.filter) create =
      (addAll create ((objects.flatMap attributeTexts).map hash)).mapError .filter := by
  rw [foldlM_mapError, map_flatMap, classicBuildAttributeBloom_eq, foldlM_addAll]

lemma length_attributeTexts (objects : List KvPair) :
    ((objects.flatMap attributeTexts).map hash).length = 3 * objects.length := by
  simp [attributeTexts, Nat.mul_comm]

section

variable (hlayout : Layout block objects)
include hlayout

lemma getData_ok_iff {value : Value} :
    (∃ fuel, getData fuel block key = .ok value) ↔ ⟨key, value⟩ ∈ objects := by
  constructor
  · rintro ⟨fuel, hget⟩
    obtain ⟨found, hsr, hget⟩ := bind_eq_ok hget
    obtain ⟨pre, kv, post, rfl, rfl, rfl⟩ | ⟨-, -, rfl⟩ := hlayout.toWellFormed.search_ok hsr
    · cases hget
      exact mem_append_right _ mem_cons_self
    · cases hget
  · intro hmem
    obtain ⟨n, hget⟩ := getData_present hlayout.toWellFormed hmem
    exact ⟨n, hget n le_rfl⟩

lemma getData_unique {fuel' : ℕ} {value value' : Value}
    (hget : getData fuel block key = .ok value) (hget' : getData fuel' block key = .ok value') :
    value = value' := by
  have hmem := (getData_ok_iff hlayout).1 ⟨fuel, hget⟩
  have hmem' := (getData_ok_iff hlayout).1 ⟨fuel', hget'⟩
  exact congrArg KvPair.value (inj_on_of_nodup_map hlayout.distinct hmem hmem' rfl)

lemma provided_iff (text : Bytes) :
    Provided block text ↔ text ∈ objects.flatMap attributeTexts := by
  rw [mem_flatMap]
  constructor
  · rintro ⟨fuel, key, v, hget, htext⟩
    refine ⟨⟨key, v⟩, (getData_ok_iff hlayout).1 ⟨fuel, hget⟩, ?_⟩
    simp only [attributeTexts, mem_cons, not_mem_nil, or_false]
    tauto
  · rintro ⟨⟨key, v⟩, hmem, htext⟩
    obtain ⟨fuel, hget⟩ := (getData_ok_iff hlayout).2 hmem
    refine ⟨fuel, key, v, hget, ?_⟩
    simp only [attributeTexts, mem_cons, not_mem_nil, or_false] at htext
    tauto

lemma covered_iff (text : Bytes) :
    Covered ((objects.flatMap attributeTexts).map hash) (hash text) ↔
      ∀ k, ∃ other, Provided block other ∧ ∃ j, cellOf (hash other) j = cellOf (hash text) k := by
  simp only [Covered, provided_iff hlayout, mem_map, exists_exists_and_eq_and]

lemma build_full (hfull : 64 < 3 * objects.length) (attributes : NeuropilBloom) :
    attributeBuildBloom hash fuel create (block ++ beyond) ≠ .ok attributes := by
  intro hb
  have he : objects.foldlM (fun bloom kv =>
      (classicBuildAttributeBloom hash bloom kv).mapError PolicyFault.filter) create =
      .error (.filter .abort) := by
    rw [foldlM_attributes, holds_create.add_all_full _ (by rwa [nil_append, length_attributeTexts])]
    rfl
  have hmono := iterateData_mono _ _ (Nat.le_add_left fuel objects.length) hb
  rw [iterateData_error hlayout he] at hmono
  cases hmono

lemma build_ok (hroom : 3 * objects.length ≤ 64) :
    ∃ attributes, Holds attributes ((objects.flatMap attributeTexts).map hash) ∧
      ∀ fuel beyond, attributeBuildBloom hash (objects.length + (fuel + 1)) create
        (block ++ beyond) = .ok attributes := by
  obtain ⟨attributes, hall, hh⟩ := holds_create.add_all
    ((objects.flatMap attributeTexts).map hash) (by rwa [nil_append, length_attributeTexts])
  refine ⟨attributes, hh, fun fuel beyond => ?_⟩
  rw [attributeBuildBloom, iterateData_eq hlayout (by omega), foldlM_attributes, hall]
  rfl

end

section

variable (hpolicy : Holds policy ((requiredTexts requirements).map hash))
  (hsome : requiredTexts requirements ≠ [])
include hpolicy hsome

lemma cmp_ne_zero : cmp create policy ≠ 0 := by
  rwa [Ne, cmp_create_iff hpolicy, map_eq_nil_iff]

variable {attributes : NeuropilBloom}

lemma check_of_build
    (hb : attributeBuildBloom hash fuel create (block ++ beyond) = .ok attributes) :
    policyCheckCompliance hash fuel (some policy) (block ++ beyond) =
      (intersectIgnoreAge policy attributes).mapError .filter >>= fun relevant =>
        .ok (decide (cmp policy relevant = 0)) := by
  have hunion : union create policy = .ok policy := by
    have hfree := hpolicy.free_eq
    exact union_create (by omega)
  rw [policyCheckCompliance]
  simp only [if_neg (cmp_ne_zero hpolicy hsome), hb, hunion]
  rfl

lemma check_true_iff (hlayout : Layout block objects)
    (hfree : CollisionFree hash requirements block)
    (hh : Holds attributes ((objects.flatMap attributeTexts).map hash))
    (hb : attributeBuildBloom hash fuel create (block ++ beyond) = .ok attributes) :
    policyCheckCompliance hash fuel (some policy) (block ++ beyond) = .ok true ↔
      3 * objects.length + (requiredTexts requirements).length ≤ 64 ∧
        ∀ text ∈ requiredTexts requirements, Provided block text := by
  have hlen : ((requiredTexts requirements).map hash).length +
      ((objects.flatMap attributeTexts).map hash).length =
      3 * objects.length + (requiredTexts requirements).length := by
    rw [length_attributeTexts, length_map, Nat.add_comm]
  rw [check_of_build hpolicy hsome hb]
  by_cases hroom : 3 * objects.length + (requiredTexts requirements).length ≤ 64
  · obtain ⟨relevant, hrel, hcmp⟩ := cmp_intersect_iff hpolicy hh (hlen.trans_le hroom)
    have hchk : ((intersectIgnoreAge policy attributes).mapError PolicyFault.filter >>=
        fun relevant => .ok (decide (cmp policy relevant = 0))) =
        .ok (decide (cmp policy relevant = 0)) := by
      rw [hrel]
      rfl
    rw [hchk, and_iff_right hroom, Except.ok.injEq, decide_eq_true_iff, hcmp]
    simp only [forall_mem_map, covered_iff hlayout]
    constructor
    · exact fun hcov text htext => hfree text htext (hcov text htext)
    · exact fun hpro text htext k => ⟨text, hpro text htext, k, rfl⟩
  · have hfull := intersect_full hpolicy hh (by omega)
    rw [hfull]
    constructor
    · intro hchk
      cases hchk
    · exact fun h => absurd h.1 hroom

lemma build_of_check
    (hchk : policyCheckCompliance hash fuel (some policy) (block ++ beyond) = .ok true) :
    ∃ attributes, attributeBuildBloom hash fuel create (block ++ beyond) = .ok attributes := by
  rw [policyCheckCompliance] at hchk
  simp only [if_neg (cmp_ne_zero hpolicy hsome)] at hchk
  split at hchk
  · next attributes hb => exact ⟨attributes, hb⟩
  · cases hchk
  · cases hchk

end

lemma complies_iff (hlayout : Layout block objects)
    (hpolicy : Holds policy ((requiredTexts requirements).map hash))
    (hfree : CollisionFree hash requirements block) :
    (∃ fuel, policyCheckCompliance hash fuel (some policy) (block ++ beyond) = .ok true) ↔
      requiredTexts requirements = [] ∨
        3 * objects.length + (requiredTexts requirements).length ≤ 64 ∧
          ∀ text ∈ requiredTexts requirements, Provided block text := by
  by_cases he : requiredTexts requirements = []
  · have hcmp : cmp create policy = 0 := by
      rw [cmp_create_iff hpolicy, he, map_nil]
    refine ⟨fun _ => .inl he, fun _ => ⟨0, ?_⟩⟩
    rw [policyCheckCompliance]
    simp only [if_pos hcmp]
  · rw [or_iff_right he]
    constructor
    · rintro ⟨fuel, hchk⟩
      obtain ⟨found, hfnd⟩ := build_of_check hpolicy he hchk
      have hroom : 3 * objects.length ≤ 64 := by
        by_contra hfull
        exact build_full hlayout (by omega) found hfnd
      obtain ⟨attributes, hh, hb⟩ := build_ok hlayout hroom
      have hmono := iterateData_mono _ _ (by omega : fuel ≤ objects.length + (fuel + 1)) hfnd
      obtain rfl : attributes = found := Except.ok.inj ((hb fuel beyond).symm.trans hmono)
      exact (check_true_iff hpolicy he hlayout hfree hh hfnd).1 hchk
    · intro hall
      obtain ⟨attributes, hh, hb⟩ := build_ok hlayout (by omega)
      exact ⟨_, (check_true_iff hpolicy he hlayout hfree hh (hb 0 beyond)).2 hall⟩

end

/-- A check that passes shows that every required value is stored under its key exactly if some
required text is not in the attributes, the values are stored so, or the filters lack the room to
tell. -/
theorem compliance_sound_iff {hash : Bytes → Dhkey} {fuel id : ℕ} {calls : List AttrCall}
    {store : Store} {block : Bytes} {requirements : List Requirement} {policy : NeuropilBloom}
    (hrun : attrRun fuel calls = .ok store) (hblock : store id = some block)
    (hpolicy : buildPolicy hash requirements = .ok policy)
    (hfree : CollisionFree hash requirements block) (beyond : Bytes) :
    (∀ fuel, policyCheckCompliance hash fuel (some policy) (block ++ beyond) = .ok true →
        ∀ key value, .bin key value ∈ requirements → Stored block key value) ↔
      64 < 3 * getObjectCount block + (requiredTexts requirements).length ∨
        (∃ text ∈ requiredTexts requirements, ¬ Provided block text) ∨
        ∀ key value, .bin key value ∈ requirements → Stored block key value := by
  obtain ⟨maps, href⟩ := attrRun_refines hrun
  obtain ⟨objects, hlayout, -⟩ := href id block hblock
  have hcom : (∃ fuel, policyCheckCompliance hash fuel (some policy) (block ++ beyond) =
      .ok true) ↔ _ := complies_iff hlayout (holds_policy hpolicy) hfree
  rw [getObjectCount_eq hlayout]
  constructor
  · intro hsnd
    by_contra hnot
    push Not at hnot
    obtain ⟨hroom, hpro, key, value, hmem, hstd⟩ := hnot
    obtain ⟨fuel, hchk⟩ := hcom.2 (.inr ⟨hroom, hpro⟩)
    exact hstd (hsnd fuel hchk key value hmem)
  · intro hcond fuel hchk key value hmem
    have hsome : requiredTexts requirements ≠ [] := by
      intro he
      have htext : value ∈ requiredTexts requirements :=
        mem_flatMap.2 ⟨_, hmem, by simp [Requirement.texts]⟩
      rw [he] at htext
      cases htext
    obtain he | ⟨hroom, hpro⟩ := hcom.1 ⟨fuel, hchk⟩
    · exact absurd he hsome
    · obtain hfull | ⟨text, htext, hnot⟩ | hstd := hcond
      · omega
      · exact absurd (hpro text htext) hnot
      · exact hstd key value hmem

def firstByteHash (text : Bytes) : Dhkey := ⟨fun _ => (text.head?.getD 0).toUInt32⟩

def twoAttributes : List AttrCall :=
  [.data (.init 0 10240), .ident (some 0) none (nameOf 0) [7], .ident (some 0) none (nameOf 1) [9]]

lemma run_twoAttributes : ∃ store block, attrRun 4 twoAttributes = .ok store ∧
    store 0 = some block ∧ getData 4 block (nameOf 0) = .ok (.bin [7]) ∧
    getData 4 block (nameOf 1) = .ok (.bin [9]) ∧ getObjectCount block = 2 := by
  obtain ⟨store, block, hrun, hb, hd⟩ := exists_block (by decide +kernel :
    ((attrRun 4 twoAttributes).toOption.bind fun store => store 0).any fun block =>
      decide (getData 4 block (nameOf 0) = .ok (.bin [7]) ∧
        getData 4 block (nameOf 1) = .ok (.bin [9]) ∧ getObjectCount block = 2))
  exact ⟨store, block, hrun, hb, of_decide_eq_true hd⟩

lemma not_stored {block : Bytes} {objects : List KvPair} {fuel : ℕ} {v : Value}
    {value : Bytes} (hlayout : Layout block objects) (hget : getData fuel block key = .ok v)
    (hne : valueText v ≠ value) : ¬ Stored block key value := by
  rintro ⟨fuel', v', hget', rfl⟩
  exact hne (congrArg valueText (getData_unique hlayout hget hget'))

/-- The first key is required with the value that is stored under the second one. -/
theorem value_under_other_key_complies :
    ∃ store block policy, attrRun 4 twoAttributes = .ok store ∧ store 0 = some block ∧
      buildPolicy firstByteHash [.bin (nameOf 0) [9]] = .ok policy ∧
      CollisionFree firstByteHash [.bin (nameOf 0) [9]] block ∧
      (∃ fuel, policyCheckCompliance firstByteHash fuel (some policy) block = .ok true) ∧
      ¬ Stored block (nameOf 0) [9] := by
  obtain ⟨store, block, hrun, hb, hfst, hsec, hcount⟩ := run_twoAttributes
  obtain ⟨policy, hpolicy⟩ := buildPolicy_ok firstByteHash
    (by decide : (requiredTexts [.bin (nameOf 0) [9]]).length ≤ 64)
  obtain ⟨maps, href⟩ := attrRun_refines hrun
  obtain ⟨objects, hlayout, -⟩ := href 0 block hb
  have hpro : ∀ text ∈ requiredTexts [.bin (nameOf 0) [9]], Provided block text := by
    intro text htext
    obtain rfl | rfl : text = keyText (nameOf 0) ∨ text = [9] := by
      simpa [requiredTexts, Requirement.texts] using htext
    · exact ⟨4, _, _, hfst, .inl rfl⟩
    · exact ⟨4, _, _, hsec, .inr rfl⟩
  have hfree : CollisionFree firstByteHash [.bin (nameOf 0) [9]] block :=
    fun text htext _ => hpro text htext
  have hroom : 3 * objects.length + (requiredTexts [.bin (nameOf 0) [9]]).length ≤ 64 := by
    rw [← getObjectCount_eq hlayout, hcount]
    decide
  have hchk : ∃ fuel, policyCheckCompliance firstByteHash fuel (some policy) (block ++ []) =
      .ok true := (complies_iff hlayout (holds_policy hpolicy) hfree).2 (.inr ⟨hroom, hpro⟩)
  rw [append_nil] at hchk
  exact ⟨store, block, policy, hrun, hb, hpolicy, hfree, hchk, not_stored hlayout hfst (by decide)⟩

theorem sample_compliance_sound :
    ∃ store block policy, attrRun 4 twoAttributes = .ok store ∧ store 0 = some block ∧
      buildPolicy firstByteHash [.bin (nameOf 0) [7]] = .ok policy ∧
      CollisionFree firstByteHash [.bin (nameOf 0) [7]] block ∧
      ∀ fuel, policyCheckCompliance firstByteHash fuel (some policy) (block ++ []) = .ok true →
        ∀ key value, .bin key value ∈ [Requirement.bin (nameOf 0) [7]] →
          Stored block key value := by
  obtain ⟨store, block, hrun, hb, hfst, -, -⟩ := run_twoAttributes
  obtain ⟨policy, hpolicy⟩ := buildPolicy_ok firstByteHash
    (by decide : (requiredTexts [.bin (nameOf 0) [7]]).length ≤ 64)
  have hfree : CollisionFree firstByteHash [.bin (nameOf 0) [7]] block := by
    intro text htext _
    obtain rfl | rfl : text = keyText (nameOf 0) ∨ text = [7] := by
      simpa [requiredTexts, Requirement.texts] using htext
    · exact ⟨4, _, _, hfst, .inl rfl⟩
    · exact ⟨4, _, _, hfst, .inr rfl⟩
  refine ⟨store, block, policy, hrun, hb, hpolicy, hfree,
    (compliance_sound_iff hrun hb hpolicy hfree []).2 (.inr (.inr ?_))⟩
  intro key value hmem
  obtain ⟨rfl, rfl⟩ : key = nameOf 0 ∧ value = [7] := by simpa using hmem
  exact ⟨4, _, hfst, rfl⟩

end Neuropil.Policy.Compliance
