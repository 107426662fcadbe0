import Neuropil.Bloom.Containment
import Neuropil.Lib.Cells

namespace Neuropil.Bloom.Bytes

open Function List Bloom.Filter Bloom.Containment Lib.Cells Lib.Fault

/-- A filter in memory, with the ages at the even and the counters at the odd bytes. -/
structure ByteBloom where
  free_items : ℕ
  bitset : List UInt8

def loadByte (bitset : List UInt8) (pos : ℕ) : Except FilterFault UInt8 :=
  load .outOfBounds bitset pos

def storeByte (bitset : List UInt8) (pos : ℕ) (b : UInt8) : Except FilterFault (List UInt8) :=
  store .outOfBounds bitset pos b

def bitArrayPos (word : UInt32) : ℕ :=
  (word.toNat % 3 + 1) * (word.toNat % 5 + 1) * (word.toNat % 17 + 1)

/-- The bytes that the loops over the words of a key visit. Each block has 510 bytes and belongs to
two words. -/
def positionsFrom (id : Dhkey) : (block_index : ℕ) → List (Fin 8) → List ℕ
  | _, [] => []
  | block_index, k :: ks =>
    ((block_index - 1) * 510 + (bitArrayPos (id.t k) - 1) * 2) ::
      positionsFrom id (if (k.val + 1) % 2 = 0 then block_index + 1 else block_index) ks

def positions (id : Dhkey) : List ℕ := positionsFrom id 1 (finRange 8)

def create : ByteBloom := ⟨64, replicate 2040 0⟩

def addAt (bitset : List UInt8) (pos : ℕ) : Except FilterFault (List UInt8) := do
  let age ← loadByte bitset pos
  let bitset ← storeByte bitset pos (age ||| 128)
  let count ← loadByte bitset (pos + 1)
  storeByte bitset (pos + 1) (count + 1)

def add (bloom : ByteBloom) (id : Dhkey) : Except FilterFault ByteBloom :=
  if bloom.free_items = 0 then .error .abort
  else do
    let bitset ← (positions id).foldlM addAt bloom.bitset
    return ⟨bloom.free_items - 1, bitset⟩

def checkAt (bitset : List UInt8) (ret : Bool) (pos : ℕ) : Except FilterFault Bool := do
  let age ← loadByte bitset pos
  let count ← loadByte bitset (pos + 1)
  return if age = 0 ∨ count = 0 then false else ret

def check (bloom : ByteBloom) (id : Dhkey) : Except FilterFault Bool :=
  (positions id).foldlM (checkAt bloom.bitset) true

def unionAt (to_add bitset : List UInt8) (k : ℕ) : Except FilterFault (List UInt8) := do
  let age ← loadByte bitset k
  let age' ← loadByte to_add k
  let bitset ← storeByte bitset k
    (if age.toNat + age'.toNat ≥ 255 then 255 else UInt8.ofNat (age.toNat + age'.toNat))
  let count ← loadByte bitset (k + 1)
  let count' ← loadByte to_add (k + 1)
  storeByte bitset (k + 1) (count + count')

def union (result to_add : ByteBloom) : Except FilterFault ByteBloom :=
  if (64 - result.free_items) + (64 - to_add.free_items) ≤ 64 then do
    let bitset ← ((range 1020).map fun c => 2 * c).foldlM (unionAt to_add.bitset) result.bitset
    return ⟨result.free_items + to_add.free_items - 64, bitset⟩
  else .error .unionCapacity

def bytesOf (bitset : Fin 1020 → Cell) : List UInt8 :=
  ofFn fun i : Fin 2040 =>
    let cell := bitset ⟨i.val / 2, by omega⟩
    if i.val % 2 = 0 then cell.age else cell.count

def toBytes (bloom : NeuropilBloom) : ByteBloom := ⟨bloom.free_items, bytesOf bloom.bitset⟩

section

variable (bitset : Fin 1020 → Cell) (c : Fin 1020)

lemma length_bytesOf : (bytesOf bitset).length = 2040 := length_ofFn

lemma loadByte_age : loadByte (bytesOf bitset) (2 * c.val) = .ok (bitset c).age := by
  apply load_of_getElem?
  have hlt : 2 * c.val < 2040 := by omega
  have hdiv : (2 * c.val) / 2 = c.val := by omega
  simp only [bytesOf, List.getElem?_ofFn, hlt, ↓reduceDIte, Nat.mul_mod_right, ↓reduceIte, hdiv]

lemma loadByte_count : loadByte (bytesOf bitset) (2 * c.val + 1) = .ok (bitset c).count := by
  apply load_of_getElem?
  have hlt : 2 * c.val + 1 < 2040 := by omega
  have hdiv : (2 * c.val + 1) / 2 = c.val := by omega
  have hmod : ¬ (2 * c.val + 1) % 2 = 0 := by omega
  simp only [bytesOf, List.getElem?_ofFn, hlt, ↓reduceDIte, hmod, ↓reduceIte, hdiv]

def setHalf (cell : Cell) (age : Bool) (b : UInt8) : Cell :=
  if age then { cell with age := b } else { cell with count := b }

lemma storeByte_half (age : Bool) (b : UInt8) {pos : ℕ} (hdiv : pos / 2 = c.val)
    (hmod : pos % 2 = if age then 0 else 1) : storeByte (bytesOf bitset) pos b =
      .ok (bytesOf (update bitset c (setHalf (bitset c) age b))) := by
  have hlt : pos < (bytesOf bitset).length := by
    rw [length_bytesOf]
    omega
  rw [storeByte, store_of_lt _ hlt]
  refine congrArg Except.ok (ext_getElem ?_ ?_)
  · rw [length_set, length_bytesOf, length_bytesOf]
  · intro i h1 h2
    rw [length_bytesOf] at h2
    simp only [bytesOf, getElem_set, List.getElem_ofFn]
    by_cases hi : i / 2 = c.val
    · have hc : (⟨i / 2, by omega⟩ : Fin 1020) = c := Fin.ext hi
      rw [hc, update_self]
      by_cases hsame : i % 2 = pos % 2
      · rw [if_pos (by omega), hsame, hmod]
        cases age <;> rfl
      · rw [if_neg (by omega)]
        cases age with
        | true =>
          have hpos : pos % 2 = 0 := hmod
          have hodd : ¬ i % 2 = 0 := by omega
          rw [if_neg hodd, if_neg hodd]
          rfl
        | false =>
          have hpos : pos % 2 = 1 := hmod
          have he : i % 2 = 0 := by omega
          rw [if_pos he, if_pos he]
          rfl
    · have hc : (⟨i / 2, by omega⟩ : Fin 1020) ≠ c := fun h => hi (congrArg Fin.val h)
      rw [if_neg (by omega), update_of_ne hc]

lemma storeByte_age (b : UInt8) : storeByte (bytesOf bitset) (2 * c.val) b =
      .ok (bytesOf (update bitset c { bitset c with age := b })) :=
  storeByte_half bitset c true b (by omega) (by simp)

lemma storeByte_count (b : UInt8) : storeByte (bytesOf bitset) (2 * c.val + 1) b =
      .ok (bytesOf (update bitset c { bitset c with count := b })) :=
  storeByte_half bitset c false b (by omega) (by simp)

lemma addAt_cell : addAt (bytesOf bitset) (2 * c.val) =
    .ok (bytesOf (update bitset c (mark (bitset c)))) := by
  rw [addAt, loadByte_age, ok_bind, storeByte_age, ok_bind, loadByte_count, ok_bind,
    storeByte_count, update_self, update_idem]
  rfl

lemma checkAt_cell (ret : Bool) : checkAt (bytesOf bitset) ret (2 * c.val) =
    .ok (ret && ((bitset c).age != 0 && (bitset c).count != 0)) := by
  rw [checkAt, loadByte_age, ok_bind, loadByte_count, ok_bind]
  refine congrArg Except.ok ?_
  split_ifs with h
  · obtain h | h := h <;> simp [h]
  · simp only [not_or] at h
    simp [h.1, h.2]

lemma unionAt_cell (to_add : Fin 1020 → Cell) :
    unionAt (bytesOf to_add) (bytesOf bitset) (2 * c.val) =
    .ok (bytesOf (update bitset c (unionCell (bitset c) (to_add c)))) := by
  rw [unionAt, loadByte_age, ok_bind, loadByte_age, ok_bind, storeByte_age, ok_bind,
    loadByte_count, ok_bind, loadByte_count, ok_bind, storeByte_count, update_self, update_idem]
  simp only [unionCell, UInt8.ofNat_add, UInt8.ofNat_toNat]

end

def Follows : (block_index : ℕ) → List (Fin 8) → Prop
  | _, [] => True
  | block_index, k :: ks => block_index = k.val / 2 + 1 ∧
      Follows (if (k.val + 1) % 2 = 0 then block_index + 1 else block_index) ks

lemma positionsFrom_eq (id : Dhkey) {block_index : ℕ} {ks : List (Fin 8)}
    (h : Follows block_index ks) :
    positionsFrom id block_index ks = ks.map fun k => 2 * (cellOf id k).val := by
  induction ks generalizing block_index with
  | nil => rfl
  | cons k ks ih =>
    obtain ⟨rfl, hks⟩ := h
    rw [positionsFrom, ih hks, map_cons]
    congr 1
    simp only [cellOf, bitArrayPos]
    omega

lemma positions_eq (id : Dhkey) :
    positions id = (finRange 8).map fun k => 2 * (cellOf id k).val :=
  positionsFrom_eq id (by simp [Follows, finRange_succ])

section

variable (bloom other : NeuropilBloom) (id : Dhkey)

lemma toBytes_free_items : (toBytes bloom).free_items = bloom.free_items := rfl

lemma toBytes_bitset : (toBytes bloom).bitset = bytesOf bloom.bitset := by rw [toBytes]

lemma create_eq : create = toBytes Filter.create := by
  refine congrArg (ByteBloom.mk 64) (ext_getElem ?_ ?_)
  · rw [length_replicate, length_bytesOf]
  · intro i h1 h2
    simp only [bytesOf, getElem_replicate, List.getElem_ofFn, Filter.create, ite_self]

lemma addCells_eq_foldl (bitset : Fin 1020 → Cell) (ks : List (Fin 8)) :
    addCells id bitset ks = ks.foldl
      (fun bitset k => update bitset (cellOf id k) (mark (bitset (cellOf id k))))
      bitset := by
  induction ks generalizing bitset with
  | nil => rfl
  | cons k ks ih => exact ih _

lemma add_eq : add (toBytes bloom) id = (Filter.add bloom id).map toBytes := by
  have hfold := foldlM_map_eq bytesOf (fun k => 2 * (cellOf id k).val)
    (fun bitset k => addAt_cell bitset (cellOf id k)) (finRange 8) bloom.bitset
  rw [← positions_eq, ← addCells_eq_foldl] at hfold
  by_cases hfull : bloom.free_items = 0
  · rw [add, toBytes_free_items, if_pos hfull, Filter.add, if_pos hfull]
    rfl
  · rw [add, toBytes_free_items, if_neg hfull, Filter.add, if_neg hfull, toBytes_bitset, hfold]
    rfl

lemma check_eq : check (toBytes bloom) id = .ok (Filter.check bloom id) := by
  have hall : ∀ (ks : List (Fin 8)) (ret : Bool),
      ks.foldl (fun ret k => ret && ((bloom.bitset (cellOf id k)).age != 0 &&
        (bloom.bitset (cellOf id k)).count != 0)) ret =
      (ret && ks.all fun k => (bloom.bitset (cellOf id k)).age != 0 &&
        (bloom.bitset (cellOf id k)).count != 0) := by
    intro ks
    induction ks with
    | nil => intro ret; simp
    | cons k ks ih =>
      intro ret
      rw [foldl_cons, ih, all_cons, Bool.and_assoc]
  have hfold := foldlM_map_eq (fun ret : Bool => ret) (fun k => 2 * (cellOf id k).val)
    (fun ret k => checkAt_cell bloom.bitset (cellOf id k) ret) (finRange 8) true
  rw [← positions_eq, hall, Bool.true_and] at hfold
  rw [check, toBytes_bitset, hfold, Filter.check]

lemma foldl_update (f : Fin 1020 → Cell → Cell) (bitset : Fin 1020 → Cell)
    {cs : List (Fin 1020)} (hcs : cs.Nodup) :
    cs.foldl (fun bitset c => update bitset c (f c (bitset c))) bitset =
      fun c => if c ∈ cs then f c (bitset c) else bitset c := by
  induction cs generalizing bitset with
  | nil => simp
  | cons d cs ih =>
    obtain ⟨hd, hcs⟩ := nodup_cons.1 hcs
    rw [foldl_cons, ih _ hcs]
    funext c
    by_cases hc : c = d
    · subst hc
      rw [if_neg hd, update_self, if_pos mem_cons_self]
    · rw [update_of_ne hc]
      simp only [mem_cons, hc, false_or]

lemma union_eq : union (toBytes bloom) (toBytes other) =
    (Filter.union bloom other).map toBytes := by
  have hfold := foldlM_map_eq bytesOf (fun c : Fin 1020 => 2 * c.val)
    (fun bitset c => unionAt_cell bitset c other.bitset) (finRange 1020) bloom.bitset
  rw [foldl_update (fun c cell => unionCell cell (other.bitset c)) bloom.bitset
    (nodup_finRange 1020)] at hfold
  have hrange : (finRange 1020).map (fun c : Fin 1020 => 2 * c.val) =
      (range 1020).map fun c => 2 * c := by
    rw [← map_coe_finRange_eq_range, map_map]
    rfl
  rw [hrange] at hfold
  by_cases hroom : (64 - bloom.free_items) + (64 - other.free_items) ≤ 64
  · rw [union, toBytes_free_items, toBytes_free_items, if_pos hroom, union_ok hroom, toBytes_bitset,
      toBytes_bitset, hfold]
    simp only [mem_finRange, if_true]
    rfl
  · rw [union, toBytes_free_items, toBytes_free_items, if_neg hroom, Filter.union, if_neg hroom]
    rfl

end

structure Remembers (bloom : NeuropilBloom) (ids : List Dhkey) : Prop extends Holds bloom ids where
  young : ∀ c, 0 < hits ids c → 128 ≤ (bloom.bitset c).age.toNat

section

lemma mark_young (c : Cell) : 128 ≤ (mark c).age.toNat := by
  exact Nat.right_le_or

lemma unionCell_young {a b : Cell} (h : 128 ≤ a.age.toNat ∨ 128 ≤ b.age.toNat) :
    128 ≤ (unionCell a b).age.toNat := by
  rw [unionCell]
  split_ifs with hsum
  · exact (by decide : 128 ≤ (255 : UInt8).toNat)
  · rw [UInt8.toNat_add]
    omega

variable {bloom other : NeuropilBloom} {ids others : List Dhkey}

lemma remembers_create : Remembers Filter.create [] :=
  ⟨holds_create, fun _ h => absurd h (by simp [hits])⟩

lemma Remembers.add {id : Dhkey} {bloom' : NeuropilBloom} (h : Remembers bloom ids)
    (hadd : Filter.add bloom id = .ok bloom') : Remembers bloom' (ids ++ [id]) := by
  have hfree := h.free_eq
  by_cases hfull : bloom.free_items = 0
  · rw [Filter.add, if_pos hfull] at hadd
    cases hadd
  · obtain ⟨added, hok, hh⟩ := h.add_one (by omega) id
    rw [hadd] at hok
    cases hok
    refine ⟨hh, fun c hc => ?_⟩
    rw [Filter.add, if_neg hfull] at hadd
    cases hadd
    refine addCells_marked (P := fun c => 128 ≤ c.age.toNat) mark_young _ _ ?_
    obtain ⟨id', hid', k, hk⟩ := hits_pos_iff.1 hc
    obtain hold | hnew := mem_append.1 hid'
    · exact .inl (h.young c (hits_pos_iff.2 ⟨id', hold, k, hk⟩))
    · rw [mem_singleton] at hnew
      subst hnew
      exact .inr ⟨k, mem_finRange k, hk⟩

lemma Remembers.union {u : NeuropilBloom} (h : Remembers bloom ids) (h' : Remembers other others)
    (hu : Filter.union bloom other = .ok u) : Remembers u (ids ++ others) := by
  have hfree := h.free_eq
  have hf' := h'.free_eq
  by_cases hroom : (64 - bloom.free_items) + (64 - other.free_items) ≤ 64
  · rw [union_ok hroom] at hu
    cases hu
    refine ⟨⟨?_, fun c => ?_⟩, fun c hc => unionCell_young ?_⟩
    · rw [length_append]
      simp only
      omega
    · have hle := hits_le ids c
      have hle' := hits_le others c
      rw [unionCell_count, h.count_eq, h'.count_eq, hits_append, Nat.mod_eq_of_lt (by omega)]
    · rw [hits_append] at hc
      obtain hpos | hpos := Nat.add_pos_iff_pos_or_pos.1 hc
      · exact .inl (h.young c hpos)
      · exact .inr (h'.young c hpos)
  · rw [Filter.union, if_neg hroom] at hu
    cases hu

lemma Remembers.check (h : Remembers bloom ids) {id : Dhkey} (hid : id ∈ ids) :
    Filter.check bloom id = true := by
  rw [check_iff]
  intro k
  have hpos : 0 < hits ids (cellOf id k) := hits_pos_iff.2 ⟨id, hid, k, rfl⟩
  have hage := h.young _ hpos
  rw [← h.count_eq] at hpos
  constructor
  · intro hzero
    rw [hzero] at hage
    exact absurd hage (by decide)
  · intro hzero
    rw [hzero] at hpos
    exact absurd hpos (by decide)

end

/-- Filters in memory made from empty ones by additions and unions, with the keys that went into
them. -/
inductive Built : ByteBloom → List Dhkey → Prop
  | create : Built create []
  | add {bloom bloom' : ByteBloom} {ids : List Dhkey} {id : Dhkey} (h : Built bloom ids)
      (hadd : add bloom id = .ok bloom') : Built bloom' (ids ++ [id])
  | union {bloom other u : ByteBloom} {ids others : List Dhkey} (h : Built bloom ids)
      (h' : Built other others) (hunion : union bloom other = .ok u) : Built u (ids ++ others)

lemma Built.remembers {bloom : ByteBloom} {ids : List Dhkey} (h : Built bloom ids) :
    ∃ cells, bloom = toBytes cells ∧ Remembers cells ids := by
  induction h with
  | create => exact ⟨Filter.create, create_eq, remembers_create⟩
  | add h hadd ih =>
    obtain ⟨cells, rfl, hcells⟩ := ih
    rw [add_eq] at hadd
    obtain ⟨cells', hc', rfl⟩ := map_eq_ok hadd
    exact ⟨cells', rfl, hcells.add hc'⟩
  | union h h' hunion ih ih' =>
    obtain ⟨cells, rfl, hcells⟩ := ih
    obtain ⟨cells', rfl, hc'⟩ := ih'
    rw [union_eq] at hunion
    obtain ⟨u, hu, rfl⟩ := map_eq_ok hunion
    exact ⟨u, rfl, hcells.union hc' hu⟩

lemma positions_lt {id : Dhkey} {pos : ℕ} (h : pos ∈ positions id) : pos + 1 < 2040 := by
  rw [positions_eq] at h
  obtain ⟨k, -, rfl⟩ := mem_map.1 h
  omega

/-- A filter made by additions and unions finds all its keys, has taken one item for each and stays
inside its bytes. Within its capacity every operation on it succeeds. -/
theorem built_keys_found {bloom : ByteBloom} {ids : List Dhkey} (h : Built bloom ids) :
    (∀ id ∈ ids, check bloom id = .ok true) ∧
    (bloom.bitset.length = 2040 ∧ ∀ id, ∀ pos ∈ positions id, pos + 1 < 2040) ∧
    (bloom.free_items ≤ 64 ∧ 64 - bloom.free_items = ids.length) ∧
    (∀ id, ∃ found, check bloom id = .ok found) ∧
    (∀ id, bloom.free_items ≠ 0 → ∃ bloom', add bloom id = .ok bloom') ∧
    ∀ other others, Built other others → ids.length + others.length ≤ 64 →
      ∃ u, union bloom other = .ok u := by
  obtain ⟨cells, rfl, hcells⟩ := h.remembers
  have hfree := hcells.free_eq
  have hlen : (toBytes cells).bitset.length = 2040 := by
    rw [toBytes_bitset, length_bytesOf]
  refine ⟨fun id hid => ?_, ⟨hlen, fun id pos => positions_lt⟩, ?_,
    fun id => ⟨_, check_eq cells id⟩, fun id hroom => ?_, fun other others h' hroom => ?_⟩
  · rw [check_eq, hcells.check hid]
  · rw [toBytes_free_items]
    omega
  · rw [toBytes_free_items] at hroom
    rw [add_eq, Filter.add, if_neg hroom]
    exact ⟨_, rfl⟩
  · obtain ⟨cells', rfl, hc'⟩ := h'.remembers
    have hf' := hc'.free_eq
    rw [union_eq, union_ok (by omega)]
    exact ⟨_, rfl⟩

theorem built_key_found : ∃ bloom, add create (Dhkey.ofWord 5) = .ok bloom ∧
    check bloom (Dhkey.ofWord 5) = .ok true := by
  obtain ⟨-, -, -, -, hadd, -⟩ := built_keys_found .create
  obtain ⟨bloom, hadd⟩ := hadd (Dhkey.ofWord 5) (by decide)
  exact ⟨bloom, hadd, (built_keys_found (.add .create hadd)).1 _ (by simp)⟩

/-- However a filter was made, it finds exactly the keys whose positions all are positions of keys
that went into it. -/
theorem found_iff_covered {bloom : ByteBloom} {ids : List Dhkey} (h : Built bloom ids)
    (id : Dhkey) : check bloom id = .ok true ↔ Covered ids id := by
  obtain ⟨cells, rfl, hcells⟩ := h.remembers
  rw [check_eq, Except.ok.injEq, check_iff]
  refine forall_congr' fun k => ?_
  rw [← hits_pos_iff, ← hcells.count_eq]
  constructor
  · exact fun hk => UInt8.pos_iff_ne_zero.2 hk.2
  · intro hpos
    have hage := hcells.young _ (hcells.count_eq _ ▸ hpos)
    refine ⟨fun hzero => ?_, UInt8.pos_iff_ne_zero.1 hpos⟩
    rw [hzero] at hage
    exact absurd hage (by decide)

theorem union_finds_both : ∃ a b u, add create (Dhkey.ofWord 5) = .ok a ∧
    add create (Dhkey.ofWord 7) = .ok b ∧ union a b = .ok u ∧
    check u (Dhkey.ofWord 7) = .ok true ∧ ¬ check u (Dhkey.ofWord 9) = .ok true := by
  have hadd : ∀ id, ∃ bloom, add create id = .ok bloom := fun id => by
    rw [create_eq, add_eq]
    exact ⟨_, rfl⟩
  obtain ⟨a, ha⟩ := hadd (Dhkey.ofWord 5)
  obtain ⟨b, hb⟩ := hadd (Dhkey.ofWord 7)
  have hbuilt := Built.create.add ha
  have hbuilt' := Built.create.add hb
  obtain ⟨u, hu⟩ : ∃ u, union a b = .ok u := by
    obtain ⟨cells, rfl, hcells⟩ := hbuilt.remembers
    obtain ⟨cells', rfl, hcells'⟩ := hbuilt'.remembers
    have hfree := hcells.free_eq
    have hfree' := hcells'.free_eq
    simp only [nil_append, length_singleton] at hfree hfree'
    rw [union_eq, union_ok (by omega)]
    exact ⟨_, rfl⟩
  refine ⟨a, b, u, ha, hb, hu, (found_iff_covered (hbuilt.union hbuilt' hu) _).2 fun k => ?_, ?_⟩
  · exact ⟨Dhkey.ofWord 7, by simp, k, rfl⟩
  · refine (found_iff_covered (hbuilt.union hbuilt' hu) _).not.2 fun h => ?_
    obtain ⟨other, hmem, j, hj⟩ := h 0
    obtain rfl | rfl : other = Dhkey.ofWord 5 ∨ other = Dhkey.ofWord 7 := by simpa using hmem
    · exact absurd hj (by revert j; decide)
    · exact absurd hj (by revert j; decide)

end Neuropil.Bloom.Bytes
