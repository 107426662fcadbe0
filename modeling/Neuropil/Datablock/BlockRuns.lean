import Neuropil.Datablock.Placement

namespace Neuropil.Datablock.BlockRuns

open Function List Lib.Buffer Lib.Fault Datablock.Objects Datablock.Block Datablock.Placement

abbrev Store := ℕ → Option Bytes

/-- A call; `inside` is the offset of a value that is given as a pointer into the block itself. -/
inductive Call
  | init (block : ℕ) (blockLength : UInt32)
  | set (block : ℕ) (kv : KvPair) (inside : Option ℕ)
  | merge (dest src : ℕ)

def blockAt (store : Store) (id : ℕ) : Except Stop Bytes :=
  match store id with
  | some block => .ok block
  | none => .error .undefined

lemma blockAt_eq_ok {block : Bytes} {store : Store} {id : ℕ}
    (hb : blockAt store id = .ok block) : store id = some block := by
  rw [blockAt] at hb
  cases hid : store id with
  | none =>
    rw [hid] at hb
    cases hb
  | some found =>
    rw [hid] at hb
    cases hb
    rfl

section

variable [Qcbor]

def setAt (fuel : ℕ) (store : Store) (id : ℕ) (kv : KvPair) (inside : Option ℕ) :
    Except Stop Store := do
  let block ← blockAt store id
  let block ← setData fuel block kv inside
  .ok (update store id (some block))

/-- The loop of np_merge_data. The source is read in place, and may be the destination. Then the
value is the end of the object that was read. -/
def mergeLoop (fuel dest src : ℕ) (h : Header) : ℕ → ℕ → ℕ → Store → Except Stop Store
  | 0, _, _, _ => .error .outOfFuel
  | n + 1, objectsRead, start, store =>
    if objectsRead < h.objectCount then do
      let block ← blockAt store src
      let input := slice block start (readLength h start)
      match readObject (overlong block h) input with
      | .ok (kv, rest) => do
        let stop := start + (input.length - rest.length)
        let store ← setAt fuel store dest kv
          (if dest = src then some (stop - kv.value.bytes.length) else none)
        mergeLoop fuel dest src h n ((objectsRead + 1) % 2 ^ 16) stop store
      | .error (.ret _) => .error (.ret .invalidStructure)
      | .error e => .error e
    else .ok store

def mergeData (fuel : ℕ) (store : Store) (dest src : ℕ) : Except Stop Store := do
  let block ← blockAt store src
  let h ← readHeader block
  mergeLoop fuel dest src h fuel 0 21 store

lemma setAt_eq_ok {store store' : Store} {fuel id : ℕ} {kv : KvPair} {inside : Option ℕ}
    (hset : setAt fuel store id kv inside = .ok store') :
    ∃ block block', store id = some block ∧ setData fuel block kv inside = .ok block' ∧
      store' = update store id (some block') := by
  obtain ⟨block, hb, hset⟩ := bind_eq_ok hset
  obtain ⟨block', hd, hset⟩ := bind_eq_ok hset
  cases hset
  exact ⟨block, block', blockAt_eq_ok hb, hd, rfl⟩

lemma mergeLoop_succ {block : Bytes} {store : Store} {dest src objectsRead start : ℕ} {h : Header}
    (hcount : objectsRead < h.objectCount) (hb : store src = some block) (fuel n : ℕ) :
    mergeLoop fuel dest src h (n + 1) objectsRead start store =
      match readObject (overlong block h) (slice block start (readLength h start)) with
      | .ok (kv, rest) => do
        let stop := start + ((slice block start (readLength h start)).length - rest.length)
        let store ← setAt fuel store dest kv
          (if dest = src then some (stop - kv.value.bytes.length) else none)
        mergeLoop fuel dest src h n ((objectsRead + 1) % 2 ^ 16) stop store
      | .error (.ret _) => .error (.ret .invalidStructure)
      | .error e => .error e := by
  rw [mergeLoop, if_pos hcount, blockAt, hb, ok_bind]

/-- The value is what the pointer points at. -/
def Holds (block : Bytes) (kv : KvPair) (inside : Option ℕ) : Prop :=
  ∀ offset ∈ inside, slice block offset kv.value.bytes.length = kv.value.bytes

instance (block : Bytes) (kv : KvPair) (inside : Option ℕ) : Decidable (Holds block kv inside) :=
  inferInstanceAs (Decidable (∀ offset ∈ inside, _))

def call (fuel : ℕ) (store : Store) : Call → Except Stop Store
  | .init id blockLength => do
    let block ← initDatablock blockLength
    .ok (update store id (some block))
  | .set id kv inside => do
    let block ← blockAt store id
    if Holds block kv inside then setAt fuel store id kv inside else .error .undefined
  | .merge dest src => mergeData fuel store dest src

lemma call_set_none (fuel : ℕ) (store : Store) (id : ℕ) (kv : KvPair) :
    call fuel store (.set id kv none) = setAt fuel store id kv none := by
  cases hb : blockAt store id with
  | error e => rw [call, setAt, hb]; rfl
  | ok block =>
    have hholds : Holds block kv none := fun _ ho => nomatch ho
    rw [call, hb, ok_bind, if_pos hholds]

def run (fuel : ℕ) (calls : List Call) : Except Stop Store :=
  calls.foldlM (call fuel) (fun _ => none)

end

/-- What a block stands for: the last value that was stored under each key. -/
abbrev Contents := Name → Option Value

def Contents.store (m : Contents) (kv : KvPair) : Contents := update m kv.key (some kv.value)

def Call.apply (maps : ℕ → Contents) : Call → ℕ → Contents
  | .init id _ => update maps id (fun _ => none)
  | .set id kv _ => update maps id ((maps id).store kv)
  | .merge dest src => update maps dest (fun key => (maps src key).or (maps dest key))

def mapAfter (calls : List Call) : ℕ → Contents := calls.foldl Call.apply (fun _ _ => none)

def storedKeys (m : Contents) : Set Name := {key | m key ≠ none}

/-- A block behaves as a finite map: np_get_data answers by the map, and the header counts the keys
and the bytes of the stored objects. -/
structure BehavesAs (block : Bytes) (m : Contents) : Prop where
  get : ∀ key, ∃ n, ∀ fuel ≥ n, getData fuel block key =
    match m key with
    | some value => .ok value
    | none => .error (.ret .keyNotFound)
  header : ∃ (h : Header) (objects : List KvPair), readHeader block = .ok h ∧
    (objects.map KvPair.key).Nodup ∧
    (∀ kv, kv ∈ objects ↔ m kv.key = some kv.value) ∧
    h.objectCount = (storedKeys m).ncard ∧
    h.usedLength = 21 + (objects.map fun kv => (writeObject kv).length).sum ∧
    h.usedLength ≤ h.totalLength

/-- A value given as a pointer into the block is not moved or overwritten before it is copied. -/
def Clear (store : Store) : Call → Prop
  | .set id kv inside => ∀ offset ∈ inside, ∀ fuel block h found, store id = some block →
      readHeader block = .ok h → searchObject fuel block kv.key = .ok found →
      Untouched h found kv offset
  | _ => True

def Represents (block : Bytes) (m : Contents) : Prop :=
  ∃ objects, Layout block objects ∧ ∀ kv, kv ∈ objects ↔ m kv.key = some kv.value

section

variable {block block' : Bytes} {objects done todo : List KvPair} {kv : KvPair} {key : Name}
  {m : Contents} {fuel n dest src id : ℕ} {store store' : Store} {h : Header}

lemma key_stored_iff (hmem : ∀ kv, kv ∈ objects ↔ m kv.key = some kv.value) :
    key ∈ objects.map KvPair.key ↔ m key ≠ none := by
  rw [mem_map, Option.ne_none_iff_exists']
  constructor
  · rintro ⟨kv, hkv, rfl⟩
    exact ⟨kv.value, (hmem kv).1 hkv⟩
  · rintro ⟨value, hv⟩
    exact ⟨⟨key, value⟩, (hmem _).2 hv, rfl⟩

lemma ncard_storedKeys (hd : (objects.map KvPair.key).Nodup)
    (hmem : ∀ kv, kv ∈ objects ↔ m kv.key = some kv.value) :
    (storedKeys m).ncard = objects.length := by
  have hkeys : storedKeys m = ((objects.map KvPair.key).toFinset : Set Name) := by
    ext key
    rw [coe_toFinset]
    exact (key_stored_iff hmem).symm
  rw [hkeys, Set.ncard_coe_finset, toFinset_card_of_nodup hd, length_map]

variable {inside : Option ℕ}

/-- The map has the object that was written, which is the one given unless its value was touched. -/
lemma setData_represents (hb : Represents block m)
    (hset : setData fuel block kv inside = .ok block') :
    ∃ h found, readHeader block = .ok h ∧ searchObject fuel block kv.key = .ok found ∧
      (Holds block kv inside → (∀ offset ∈ inside, Untouched h found kv offset) →
        copied block h found kv inside = kv) ∧
      Represents block' (m.store (copied block h found kv inside)) := by
  obtain ⟨objects, hlayout, hmem⟩ := hb
  obtain ⟨found, pre, post, objects', hsr, hbetween, hfit, hl', hmem'⟩ :=
    setData_layout hlayout hset
  refine ⟨_, found, hlayout.readHeader_eq, hsr, fun hholds hclear => ?_, objects', hl', fun d => ?_⟩
  · cases inside with
    | none => rfl
    | some offset =>
      exact copied_untouched hbetween hfit (hholds offset rfl) (hclear offset rfl)
  · rw [← copied_key block (headerOf block objects) found kv inside] at hmem'
    generalize copied block (headerOf block objects) found kv inside = new at hmem' ⊢
    rw [hmem', hmem, Contents.store, update_apply]
    by_cases hkey : d.key = new.key
    · rw [if_pos hkey]
      constructor
      · rintro (rfl | ⟨-, hne⟩)
        · rfl
        · exact absurd hkey hne
      · intro hv
        refine .inl ?_
        obtain ⟨key, value⟩ := d
        obtain ⟨key', value'⟩ := new
        simp only [Option.some.injEq] at hkey hv
        rw [hkey, hv]
    · rw [if_neg hkey]
      constructor
      · rintro (rfl | ⟨hd, -⟩)
        · exact absurd rfl hkey
        · exact hd
      · exact fun hd => .inr ⟨hd, hkey⟩

lemma setData_same (hlayout : Layout block objects) (hkv : kv ∈ objects)
    (hset : setData fuel block kv none = .ok block') : Layout block' objects := by
  rw [setData, hlayout.readHeader_eq, ok_bind] at hset
  obtain ⟨found, hsr, hplc⟩ := bind_eq_ok hset
  obtain ⟨pre, old, post, rfl, hkey, rfl⟩ | ⟨hkey, -, -⟩ := hlayout.search_ok hsr
  · obtain ⟨hfit, rfl⟩ := (placeObject_found_iff hlayout).1 hplc
    have hsame : old = kv := inj_on_of_nodup_map hlayout.distinct (by simp) hkv hkey
    subst hsame
    exact layout_replaced hlayout rfl hfit
  · exact absurd (mem_map_of_mem hkv) hkey

/-- In a merge of a block with itself, each object is set to its own value. -/
lemma setAt_merge (hsrc : store src = some block) (hlayout : Layout block (done ++ kv :: todo))
    (hset : setAt fuel store dest kv (if dest = src then some (21 + (objectBytes done).length +
      (writeObject kv).length - kv.value.bytes.length) else none) = .ok store') :
    setAt fuel store dest kv none = .ok store' := by
  by_cases heq : dest = src
  · subst heq
    rw [if_pos rfl] at hset
    obtain ⟨old, new, hold, hd, rfl⟩ := setAt_eq_ok hset
    obtain rfl : old = block := Option.some.inj (hold.symm.trans hsrc)
    rw [setAt, blockAt, hold]
    simp only [ok_bind, setData_own hlayout hd]
  · rwa [if_neg heq] at hset

section

variable (hset : setAt fuel store dest kv none = .ok store')
include hset

lemma setAt_source (hsrc : store src = some block) (hlayout : Layout block objects)
    (hkv : kv ∈ objects) : ∃ block', store' src = some block' ∧ Layout block' objects := by
  obtain ⟨old, new, hold, hd, rfl⟩ := setAt_eq_ok hset
  by_cases heq : src = dest
  · subst heq
    obtain rfl : old = block := Option.some.inj (hold.symm.trans hsrc)
    exact ⟨new, update_self .., setData_same hlayout hkv hd⟩
  · exact ⟨block, by rw [update_of_ne heq, hsrc], hlayout⟩

lemma setAt_dest (hd : ∀ block, store dest = some block → Represents block m) :
    ∀ block, store' dest = some block → Represents block (m.store kv) := by
  obtain ⟨old, new, hold, hdata, rfl⟩ := setAt_eq_ok hset
  intro block hb
  rw [update_self] at hb
  obtain rfl := Option.some.inj hb
  obtain ⟨h, found, -, -, -, hnew⟩ := setData_represents (hd old hold) hdata
  exact hnew

lemma setAt_other (hne : id ≠ dest) : store' id = store id := by
  obtain ⟨old, new, hold, hd, rfl⟩ := setAt_eq_ok hset
  exact update_of_ne hne ..

end

lemma readObject_next {start : ℕ} (hlayout : Layout block (done ++ kv :: todo))
    (hst : start = 21 + (objectBytes done).length)
    (hu : h.usedLength = 21 + (objectBytes (done ++ kv :: todo)).length) :
    ∃ input, slice block start (readLength h start) = input ∧
      readObject (overlong block h) input = .ok (kv, objectBytes todo) ∧
      start + (input.length - (objectBytes todo).length) =
        21 + (objectBytes done).length + (writeObject kv).length ∧
      21 + (objectBytes done).length + (writeObject kv).length =
        21 + (objectBytes (done ++ [kv])).length := by
  have hslice : slice block start (readLength h start) = objectBytes (kv :: todo) := by
    obtain ⟨rest, hd⟩ := hlayout.drop_header
    have hlt := hlayout.used_le.trans_lt hlayout.length_lt
    have hlen : readLength h start = (objectBytes (kv :: todo)).length := by
      simp only [headerOf, objectBytes_append, length_append] at hlt
      rw [objectBytes_append, length_append] at hu
      rw [readLength, hu, hst]
      omega
    rw [objectBytes_append, append_assoc] at hd
    rw [slice, hst, ← drop_drop, hd, drop_left, ← hst, hlen, take_left]
  refine ⟨_, hslice, ?_, ?_, ?_⟩
  · rw [objectBytes_cons, readObject_writeObject (hlayout.small kv (by simp))]
  · rw [objectBytes_cons, length_append, Nat.add_sub_cancel, hst]
  · rw [objectBytes_append, objectBytes_cons, length_append, length_append]
    simp only [objectBytes, flatMap_nil, length_nil]
    omega

lemma mergeLoop_stores (hsrc : ∃ block, store src = some block ∧ Layout block (done ++ todo))
    (hd : ∀ block, store dest = some block → Represents block m)
    (hu : h.usedLength = 21 + (objectBytes (done ++ todo)).length)
    (hcount : h.objectCount = (done ++ todo).length)
    (hmrg : mergeLoop fuel dest src h n (done.length % 2 ^ 16)
      (21 + (objectBytes done).length) store = .ok store') :
    (∀ id, id ≠ dest → store' id = store id) ∧
      ∀ block, store' dest = some block → Represents block (todo.foldl Contents.store m) := by
  induction todo generalizing done store n m with
  | nil =>
    obtain ⟨block, hb, hlayout⟩ := hsrc
    rw [append_nil] at hlayout hu hcount
    cases n with
    | zero => cases hmrg
    | succ n =>
      by_cases hmore : done.length % 2 ^ 16 < h.objectCount
      · -- the counter wrapped, and there is nothing left to read
        have hlt := hlayout.used_le.trans_lt hlayout.length_lt
        have hle := hlayout.used_le
        simp only [headerOf] at hlt hle
        have hinput : slice block (21 + (objectBytes done).length)
            (readLength h (21 + (objectBytes done).length)) = [] := by
          have hzero : readLength h (21 + (objectBytes done).length) = 0 := by
            rw [readLength, hu]
            omega
          rw [hzero, slice, take_zero]
        have hshort : overlong block h = false := decide_eq_false (by omega)
        rw [mergeLoop_succ hmore hb, hinput, hshort, readObject_nil] at hmrg
        cases hmrg
      · rw [mergeLoop, if_neg hmore] at hmrg
        cases hmrg
        exact ⟨fun id _ => rfl, hd⟩
  | cons kv todo ih =>
    obtain ⟨block, hb, hlayout⟩ := hsrc
    have hle := hlayout.count_le
    simp only [length_append, length_cons] at hcount hle
    obtain ⟨input, hinput, hread, hnext, hstop⟩ := readObject_next hlayout rfl hu
    cases n with
    | zero => cases hmrg
    | succ n =>
      have hread' : done.length % 2 ^ 16 = done.length := Nat.mod_eq_of_lt (by omega)
      have hmore : done.length < h.objectCount := by omega
      rw [hread', mergeLoop_succ hmore hb, hinput, hread] at hmrg
      simp only [hnext] at hmrg
      obtain ⟨middle, hset, hmrg⟩ := bind_eq_ok hmrg
      have hset := setAt_merge hb hlayout hset
      rw [hstop] at hmrg
      have ha : done ++ kv :: todo = (done ++ [kv]) ++ todo := by simp
      have hlen : done.length + 1 = (done ++ [kv]).length := by simp
      rw [hlen] at hmrg
      rw [ha] at hlayout hu
      have hc' : h.objectCount = (done ++ [kv] ++ todo).length := by
        simp only [length_append, length_cons, length_nil]
        omega
      obtain ⟨ho, hfinal⟩ := ih (setAt_source hset hb hlayout (by simp))
        (setAt_dest hset hd) hu hc' hmrg
      exact ⟨fun id hid => (ho id hid).trans (setAt_other hset hid), hfinal⟩

lemma foldl_store (hd : (objects.map KvPair.key).Nodup) (m : Contents) (key : Name)
    (value : Value) : objects.foldl Contents.store m key = some value ↔
      ⟨key, value⟩ ∈ objects ∨ key ∉ objects.map KvPair.key ∧ m key = some value := by
  induction objects generalizing m with
  | nil => simp
  | cons kv objects ih =>
    rw [map_cons, nodup_cons] at hd
    rw [foldl_cons, ih hd.2, Contents.store, update_apply, map_cons, mem_cons, mem_cons]
    by_cases hkey : key = kv.key
    · subst hkey
      have ho : (⟨kv.key, value⟩ : KvPair) ∉ objects := fun hmem => hd.1 (mem_map.2 ⟨_, hmem, rfl⟩)
      have hsame : (⟨kv.key, value⟩ : KvPair) = kv ↔ kv.value = value := by
        obtain ⟨key, value'⟩ := kv
        simp [eq_comm]
      simp [hd.1, ho, hsame]
    · have ho : (⟨key, value⟩ : KvPair) ≠ kv := fun heq => hkey (heq ▸ rfl)
      simp [hkey, ho]

lemma foldl_store_eq {source : Contents} (hd : (objects.map KvPair.key).Nodup)
    (hmem : ∀ kv, kv ∈ objects ↔ source kv.key = some kv.value) (m : Contents) :
    objects.foldl Contents.store m = fun key => (source key).or (m key) := by
  funext key
  refine Option.ext fun value => ?_
  have hkeys : key ∈ objects.map KvPair.key ↔ source key ≠ none := key_stored_iff hmem
  rw [foldl_store hd, hmem, hkeys, not_not]
  cases hsrc : source key with
  | none => simp
  | some v => simp

end

def Refines (store : Store) (maps : ℕ → Contents) : Prop :=
  ∀ id block, store id = some block → Represents block (maps id)

variable {store : Store} {maps : ℕ → Contents}

section

variable (hrefines : Refines store maps)
include hrefines

lemma Refines.update {id : ℕ} {block : Bytes} {m : Contents} (hb : Represents block m) :
    Refines (update store id (some block)) (update maps id m) := by
  intro other found hfnd
  by_cases heq : other = id
  · subst heq
    rw [update_self] at hfnd ⊢
    cases hfnd
    exact hb
  · rw [update_of_ne heq] at hfnd ⊢
    exact hrefines other found hfnd

lemma merge_refines {fuel dest src : ℕ} {store' : Store}
    (hmrg : mergeData fuel store dest src = .ok store') :
    Refines store' ((Call.merge dest src).apply maps) := by
  obtain ⟨block, hb, hmrg⟩ := bind_eq_ok hmrg
  have hsrc := blockAt_eq_ok hb
  obtain ⟨objects, hlayout, hmem⟩ := hrefines src block hsrc
  rw [hlayout.readHeader_eq, ok_bind] at hmrg
  have hst : ∃ block, store src = some block ∧ Layout block ([] ++ objects) :=
    ⟨block, hsrc, hlayout⟩
  obtain ⟨ho, hd⟩ := mergeLoop_stores hst (hrefines dest) rfl rfl hmrg
  rw [foldl_store_eq hlayout.distinct hmem] at hd
  intro id found hfnd
  rw [Call.apply]
  by_cases heq : id = dest
  · subst heq
    rw [update_self]
    exact hd found hfnd
  · rw [update_of_ne heq]
    rw [ho id heq] at hfnd
    exact hrefines id found hfnd

lemma setAt_refines {fuel id : ℕ} {kv : KvPair} {inside : Option ℕ} {store' : Store}
    (hset : setAt fuel store id kv inside = .ok store') : ∃ maps', Refines store' maps' := by
  obtain ⟨block, block', hb, hd, rfl⟩ := setAt_eq_ok hset
  obtain ⟨h, found, -, -, -, hnew⟩ := setData_represents (hrefines id block hb) hd
  exact ⟨_, hrefines.update hnew⟩

lemma call_refines {fuel : ℕ} {store' : Store} {c : Call} (hclear : Clear store c)
    (hcall : call fuel store c = .ok store') : Refines store' (c.apply maps) := by
  cases c with
  | init id blockLength =>
    obtain ⟨block, hinit, hcall⟩ := bind_eq_ok hcall
    cases hcall
    exact hrefines.update ⟨[], (layout_init hinit).1, fun kv => by simp⟩
  | set id kv inside =>
    obtain ⟨block, hb, hcall⟩ := bind_eq_ok hcall
    have hb := blockAt_eq_ok hb
    split_ifs at hcall with hholds
    obtain ⟨old, block', hold, hset, rfl⟩ := setAt_eq_ok hcall
    obtain rfl : old = block := Option.some.inj (hold.symm.trans hb)
    obtain ⟨h, found, hh, hsr, hsame, hnew⟩ := setData_represents (hrefines id old hb) hset
    rw [hsame hholds fun offset ho => hclear offset ho fuel old h found hb hh hsr] at hnew
    exact hrefines.update hnew
  | merge dest src => exact merge_refines hrefines hcall

lemma call_refines_some {fuel : ℕ} {store' : Store} {c : Call}
    (hcall : call fuel store c = .ok store') : ∃ maps', Refines store' maps' := by
  cases c with
  | init id blockLength =>
    exact ⟨(Call.init id blockLength).apply maps, call_refines hrefines trivial hcall⟩
  | merge dest src => exact ⟨(Call.merge dest src).apply maps, merge_refines hrefines hcall⟩
  | set id kv inside =>
    obtain ⟨block, -, hcall⟩ := bind_eq_ok hcall
    split_ifs at hcall
    exact setAt_refines hrefines hcall

end

/-- Every call of a run is clear in the state it finds. -/
def ClearRun (fuel : ℕ) (calls : List Call) : Prop :=
  ∀ before c, before ++ [c] <+: calls → ∀ s, run fuel before = .ok s → Clear s c

lemma run_refines {fuel : ℕ} {calls : List Call} (hclear : ClearRun fuel calls)
    (hrun : run fuel calls = .ok store) : Refines store (mapAfter calls) := by
  induction calls using reverseRecOn generalizing store with
  | nil =>
    cases hrun
    intro id block hb
    cases hb
  | append_singleton before c ih =>
    rw [run, foldlM_append] at hrun
    obtain ⟨s, hbefore, hrun⟩ := bind_eq_ok hrun
    obtain ⟨s', hcall, hrun⟩ := bind_eq_ok hrun
    cases hrun
    have hrefines := ih (fun pre d hpre => hclear pre d (hpre.trans (prefix_append _ _))) hbefore
    rw [mapAfter, foldl_concat]
    exact call_refines hrefines (hclear before c (prefix_refl _) s hbefore) hcall

lemma byte_ne_zero (i : ℕ) : UInt8.ofNat (1 + i % 128) ≠ 0 := by
  intro h
  have hnat := congrArg UInt8.toNat h
  rw [UInt8.toNat_ofNat', Nat.mod_eq_of_lt (by omega)] at hnat
  exact absurd hnat (by simp)

lemma byte_inj {i j : ℕ} (h : UInt8.ofNat (1 + i % 128) = UInt8.ofNat (1 + j % 128)) :
    i % 128 = j % 128 := by
  have hnat := congrArg UInt8.toNat h
  rw [UInt8.toNat_ofNat', UInt8.toNat_ofNat'] at hnat
  omega

def nameOf (i : ℕ) : Name where
  bytes := [UInt8.ofNat (1 + i % 128), UInt8.ofNat (1 + i / 128 % 128),
    UInt8.ofNat (1 + i / 16384 % 128)]
  no_nul := by
    simp only [mem_cons, not_mem_nil, not_or]
    exact ⟨(byte_ne_zero _).symm, (byte_ne_zero _).symm, (byte_ne_zero _).symm, id⟩
  length_lt := Nat.lt_of_sub_eq_succ rfl

lemma nameOf_inj {i j : ℕ} (hi : i < 2 ^ 21) (hj : j < 2 ^ 21) (h : nameOf i = nameOf j) :
    i = j := by
  have hbytes := congrArg Name.bytes h
  simp only [nameOf, cons.injEq, and_true] at hbytes
  obtain ⟨h0, h1, h2⟩ := hbytes
  have h0 := byte_inj h0
  have h1 := byte_inj h1
  have h2 := byte_inj h2
  omega

lemma exists_absent {objects : List KvPair} (hcount : objects.length ≤ 2 ^ 16) :
    ∃ key, key ∉ objects.map KvPair.key := by
  have hcard : ((objects.map KvPair.key).toFinset).card <
      ((Finset.range (2 ^ 16 + 1)).image nameOf).card := by
    have hinj : Set.InjOn nameOf (Finset.range (2 ^ 16 + 1)) := by
      intro i hi j hj hij
      simp only [Finset.coe_range, Set.mem_Iio] at hi hj
      exact nameOf_inj (by omega) (by omega) hij
    rw [Finset.card_image_of_injOn hinj, Finset.card_range]
    have hle := toFinset_card_le (objects.map KvPair.key)
    rw [length_map] at hle
    omega
  obtain ⟨key, -, hkey⟩ := Finset.exists_mem_notMem_of_card_lt_card hcard
  exact ⟨key, fun hmem => hkey (mem_toFinset.2 hmem)⟩

section

variable {block : Bytes} {objects : List KvPair} {m : Contents} {key : Name}

lemma getData_present {value : Value} (hb : WellFormed block objects)
    (hmem : ⟨key, value⟩ ∈ objects) : ∃ n, ∀ fuel ≥ n, getData fuel block key = .ok value := by
  obtain ⟨pre, post, rfl⟩ := append_of_mem hmem
  refine ⟨pre.length + 1, fun fuel hfuel => ?_⟩
  obtain ⟨k, rfl⟩ := Nat.exists_eq_add_of_le hfuel
  have hsr := hb.search_present k
  rw [getData, Nat.add_assoc, Nat.add_comm 1 k, hsr]
  rfl

section

variable (hlayout : Layout block objects) (hkey : key ∉ objects.map KvPair.key)
include hlayout hkey

lemma getData_absent (hlt : objects.length < 2 ^ 16) :
    ∃ n, ∀ fuel ≥ n, getData fuel block key = .error (.ret .keyNotFound) := by
  refine ⟨objects.length + 1, fun fuel hfuel => ?_⟩
  obtain ⟨k, rfl⟩ := Nat.exists_eq_add_of_le hfuel
  rw [getData, Nat.add_assoc, Nat.add_comm 1 k, hlayout.search_absent hkey hlt]
  rfl

lemma getData_never (hfull : objects.length = 2 ^ 16) (fuel : ℕ) :
    getData fuel block key = .error .outOfFuel := by
  rw [getData, hlayout.search_never hkey hfull.ge]
  rfl

end

lemma length_objectBytes (objects : List KvPair) :
    (objectBytes objects).length = (objects.map fun kv => (writeObject kv).length).sum := by
  rw [objectBytes, length_flatMap]

/-- A block that stands for a map behaves as it exactly if it has at most 65535 keys. -/
lemma behavesAs_iff (hblk : Represents block m) :
    BehavesAs block m ↔ (storedKeys m).ncard ≤ 65535 := by
  obtain ⟨objects, hlayout, hmem⟩ := hblk
  have hcard := ncard_storedKeys hlayout.distinct hmem
  have hle := hlayout.count_le
  constructor
  · intro hb
    by_contra hfull
    obtain ⟨key, hkey⟩ := exists_absent hle
    have hnone : m key = none := by
      rwa [key_stored_iff hmem, not_ne_iff] at hkey
    obtain ⟨n, hn⟩ := hb.get key
    have hget := hn n le_rfl
    rw [getData_never hlayout hkey (by omega), hnone] at hget
    cases hget
  · intro hlt
    refine ⟨fun key => ?_, headerOf block objects, objects, hlayout.readHeader_eq,
      hlayout.distinct, hmem, hcard.symm, ?_, hlayout.used_le⟩
    · cases hkey : m key with
      | some value => exact getData_present hlayout.toWellFormed ((hmem ⟨key, value⟩).2 hkey)
      | none =>
        have ha : key ∉ objects.map KvPair.key := by
          rw [key_stored_iff hmem, not_ne_iff]
          exact hkey
        exact getData_absent hlayout ha (by omega)
    · rw [← length_objectBytes]
      rfl

end

/-- After any calls that all returned np_data_ok, and copied no value that lay in the block and was
touched before, a block behaves as the map of the last values exactly if it has at most 65535
keys. -/
theorem data_behaves_as_map_iff {fuel : ℕ} {calls : List Call} {store : Store} {id : ℕ}
    {block : Bytes} (hclear : ClearRun fuel calls) (hrun : run fuel calls = .ok store)
    (hblock : store id = some block) :
    BehavesAs block (mapAfter calls id) ↔ (storedKeys (mapAfter calls id)).ncard ≤ 65535 :=
  behavesAs_iff (run_refines hclear hrun id block hblock)

/-- No value of the calls lies in the block that it is stored in. -/
def Outside : Call → Prop
  | .set _ _ inside => inside = none
  | _ => True

lemma clearRun_outside {fuel : ℕ} {calls : List Call} (h : ∀ c ∈ calls, Outside c) :
    ClearRun fuel calls := by
  intro before c hbefore s _
  have hc := h c (hbefore.subset (by simp))
  cases c with
  | set id kv inside =>
    obtain rfl : inside = none := hc
    exact fun offset ho => nomatch ho
  | init | merge => trivial

def sampleCalls : List Call :=
  [.init 0 64, .set 0 ⟨nameOf 0, .uint 7⟩ none, .init 1 64, .set 1 ⟨nameOf 0, .int 5⟩ none,
    .set 1 ⟨nameOf 1, .str [65]⟩ none, .merge 0 1]

lemma exists_block {result : Except Stop Store} {id : ℕ} {p : Bytes → Bool}
    (h : (result.toOption.bind fun store => store id).any p) :
    ∃ store block, result = .ok store ∧ store id = some block ∧ p block := by
  cases result with
  | error e => cases h
  | ok store =>
    obtain ⟨block, hb⟩ : ∃ block, store id = some block := by
      obtain ⟨hsome, -⟩ := (Option.any_eq_true_iff_get p (store id)).1 h
      exact Option.isSome_iff_exists.1 hsome
    have h : (store id).any p := h
    rw [hb] at h
    exact ⟨store, block, rfl, hb, h⟩

lemma ncard_sampleCalls : (storedKeys (mapAfter sampleCalls 0)).ncard ≤ 65535 := by
  have hsub : storedKeys (mapAfter sampleCalls 0) ⊆ {nameOf 0, nameOf 1} := by
    intro key hkey
    by_contra ho
    simp only [Set.mem_insert_iff, Set.mem_singleton_iff, not_or] at ho
    apply hkey
    simp [mapAfter, sampleCalls, Call.apply, Contents.store, ho]
  have hle := Set.ncard_le_ncard hsub
  have hpair := Set.ncard_insert_le (nameOf 0) {nameOf 1}
  rw [Set.ncard_singleton] at hpair
  omega

theorem sample_data_behaves_as_map :
    ∃ store block, run 9 sampleCalls = .ok store ∧ store 0 = some block ∧
      BehavesAs block (mapAfter sampleCalls 0) := by
  have hclear : ClearRun 9 sampleCalls := clearRun_outside (by simp [sampleCalls, Outside])
  obtain ⟨store, block, hrun, hb, -⟩ := exists_block (by decide +kernel :
    ((run 9 sampleCalls).toOption.bind fun store => store 0).any fun _ => true)
  exact ⟨store, block, hrun, hb, (data_behaves_as_map_iff hclear hrun hb).2 ncard_sampleCalls⟩

def emptyObject (i : ℕ) : KvPair := ⟨nameOf i, .uint 0⟩

def fillCalls (n : ℕ) : List Call :=
  .init 0 524309 :: (range n).map fun i => .set 0 (emptyObject i) none

lemma length_objectBytes_filled (n : ℕ) :
    (objectBytes ((range n).map emptyObject)).length = 8 * n := by
  have hlen : ∀ i, (writeObject (emptyObject i)).length = 8 := fun i => rfl
  rw [length_objectBytes, map_map]
  simp [comp_def, hlen, Nat.mul_comm]

lemma run_stores {objects : List KvPair} {blockLength : UInt32} {fuel : ℕ}
    (hdis : (objects.map KvPair.key).Nodup)
    (hsizes : ∀ kv ∈ objects, calculateObjectSize kv = (writeObject kv).length)
    (hroom : 21 + (objectBytes objects).length ≤ blockLength.toNat)
    (hcount : objects.length ≤ 2 ^ 16) (hfuel : objects.length < fuel) :
    ∃ store block, run fuel (.init 0 blockLength :: objects.map (.set 0 · none)) = .ok store ∧
      store 0 = some block ∧ block.length = blockLength.toNat ∧ Layout block objects := by
  induction objects using reverseRecOn with
  | nil =>
    have hlt := blockLength.toNat_lt
    have hhd : (encodeHeader ⟨blockLength.toNat, 21, 0⟩).length = 21 :=
      length_encodeHeader hlt (by decide : 21 < 2 ^ 32) (by decide : 0 < 2 ^ 32)
    have hinit : initDatablock blockLength = .ok _ :=
      writeHeader_ok hhd (Nat.le_of_add_right_le hroom)
    obtain ⟨hlayout, hlen⟩ := layout_init hinit
    refine ⟨update (fun _ => none) 0 (some _), _, ?_, update_self .., hlen, hlayout⟩
    rw [run, foldlM_cons, call, hinit, ok_bind]
    rfl
  | append_singleton objects kv ih =>
    rw [map_append, nodup_append] at hdis
    rw [objectBytes_append, length_append] at hroom
    rw [length_append, length_singleton] at hcount hfuel
    have hkey : kv.key ∉ objects.map KvPair.key := fun hmem => hdis.2.2 _ hmem kv.key (by simp) rfl
    obtain ⟨store, block, hrun, hblk, hlen, hlayout⟩ := ih hdis.1
      (fun d hd => hsizes d (mem_append_left _ hd)) (by omega) (by omega) (by omega)
    have hfit : Fitting block objects kv [] := by
      refine ⟨hsizes kv (by simp), ?_⟩
      have hone : (objectBytes [kv]).length = (writeObject kv).length := by simp [objectBytes]
      rw [usedLength_splice, hlen]
      change 21 + (objectBytes objects).length + (writeObject kv).length + 0 ≤ _
      omega
    obtain ⟨block', hset, hlay', hlen'⟩ :=
      setData_new hlayout hkey (by omega) hfit (fuel - objects.length - 1)
    have heno : objects.length + (fuel - objects.length - 1 + 1) = fuel := by omega
    rw [heno] at hset
    refine ⟨update store 0 (some block'), block', ?_, update_self .., hlen'.trans hlen, hlay'⟩
    rw [run] at hrun
    rw [map_append, ← cons_append, run, foldlM_append, hrun, ok_bind,
      map_singleton, foldlM_cons, call_set_none, setAt, blockAt, hblk]
    simp only [ok_bind, hset]
    rfl

lemma nodup_filled {n : ℕ} (h : n ≤ 2 ^ 21) :
    (((range n).map emptyObject).map KvPair.key).Nodup := by
  rw [map_map]
  refine List.Nodup.map_on ?_ nodup_range
  intro i hi j hj hname
  rw [mem_range] at hi hj
  exact nameOf_inj (by omega) (by omega) hname

lemma nameOf_not_filled {n : ℕ} (h : n ≤ 65536) :
    nameOf n ∉ ((range n).map emptyObject).map KvPair.key := by
  intro hmem
  simp only [map_map, mem_map, mem_range, comp_apply] at hmem
  obtain ⟨i, hi, hname⟩ := hmem
  have heq := nameOf_inj (by omega) (by omega) hname
  omega

lemma run_fillCalls {n : ℕ} (h : n ≤ 65536) :
    ∃ store block, run 65537 (fillCalls n) = .ok store ∧ store 0 = some block ∧
      block.length = 524309 ∧ Layout block ((range n).map emptyObject) := by
  have hcls : fillCalls n = .init 0 524309 :: ((range n).map emptyObject).map (.set 0 · none) := by
    rw [fillCalls, map_map]
    rfl
  have hsizes : ∀ kv ∈ (range n).map emptyObject,
      calculateObjectSize kv = (writeObject kv).length := by
    intro kv hkv
    obtain ⟨i, -, rfl⟩ := mem_map.1 hkv
    rfl
  have hlen : (524309 : UInt32).toNat = 524309 := rfl
  rw [hcls]
  refine run_stores (nodup_filled (by omega)) hsizes ?_ ?_ ?_
  · rw [length_objectBytes_filled, hlen]
    omega
  · rw [length_map, length_range]
    exact h
  · rw [length_map, length_range]
    omega

/-- An object is set to the value of the one behind it, as np_get_data gives it out. -/
def aliasedCalls : List Call :=
  [.init 0 64, .set 0 ⟨nameOf 1, .bin [0xaa]⟩ none, .set 0 ⟨nameOf 0, .bin [1, 2, 3]⟩ none,
    .set 0 ⟨nameOf 1, .bin [1, 2, 3]⟩ (some 32)]

lemma not_behavesAs {block : Bytes} {m : Contents} {key : Name} {value other : Value} {fuel : ℕ}
    (hget : getData fuel block key = .ok value) (hm : m key = some other) (hne : value ≠ other) :
    ¬ BehavesAs block m := by
  intro hb
  obtain ⟨n, hn⟩ := hb.get key
  have hsearch : searchObject fuel block key ≠ .error .outOfFuel := by
    intro hfuel
    rw [getData, hfuel] at hget
    cases hget
  have hmono := searchObject_mono (Nat.le_add_left fuel n) hsearch
  have hlast := hn (n + fuel) (Nat.le_add_right n fuel)
  rw [getData, hmono, hm] at hlast
  rw [getData] at hget
  exact hne (Except.ok.inj (hget.symm.trans hlast))

/-- With 65536 keys in a block np_get_data does not return for any other key, and a value that is
moved before it is copied is not the one stored. -/
theorem full_block_search_never_returns :
    (∃ store block, run 65537 (fillCalls 65536) = .ok store ∧ store 0 = some block ∧
      (∀ fuel, getData fuel block (nameOf 65536) = .error .outOfFuel) ∧
      ¬ BehavesAs block (mapAfter (fillCalls 65536) 0)) ∧
    ∃ store block, run 9 aliasedCalls = .ok store ∧ store 0 = some block ∧
      getData 9 block (nameOf 1) = .ok (.bin [1, 67, 1]) ∧
      ¬ BehavesAs block (mapAfter aliasedCalls 0) := by
  constructor
  · obtain ⟨store, block, hrun, hb, -, hlayout⟩ := run_fillCalls (le_refl 65536)
    have hfull : ((range 65536).map emptyObject).length = 2 ^ 16 := by simp
    have hclear : ClearRun 65537 (fillCalls 65536) := clearRun_outside fun c hc => by
      obtain rfl | hc := mem_cons.1 hc
      · trivial
      · obtain ⟨i, -, rfl⟩ := mem_map.1 hc
        exact rfl
    refine ⟨store, block, hrun, hb,
      fun fuel => getData_never hlayout (nameOf_not_filled le_rfl) hfull fuel, ?_⟩
    obtain ⟨objects, hl', hmem⟩ := run_refines hclear hrun 0 block hb
    have hh := hlayout.readHeader_eq.symm.trans hl'.readHeader_eq
    have hcount := congrArg Header.objectCount (Except.ok.inj hh)
    simp only [headerOf] at hcount
    rw [behavesAs_iff ⟨objects, hl', hmem⟩, ncard_storedKeys hl'.distinct hmem]
    omega
  · obtain ⟨store, block, hrun, hb, hget⟩ := exists_block (by decide +kernel :
      ((run 9 aliasedCalls).toOption.bind fun store => store 0).any fun block =>
        decide (getData 9 block (nameOf 1) = .ok (.bin [1, 67, 1])))
    have hget := of_decide_eq_true hget
    have hm : mapAfter aliasedCalls 0 (nameOf 1) = some (.bin [1, 2, 3]) := by decide +kernel
    exact ⟨store, block, hrun, hb, hget, not_behavesAs hget hm (by decide)⟩

end Neuropil.Datablock.BlockRuns
