import Neuropil.Bloom.Deserialize
import Neuropil.Tree.Keyed
import Neuropil.Tree.RoundTrip

namespace Neuropil.Bloom.Serialize

open Function List Nat UInt16 Lib.Buffer Lib.Fault Bloom.Filter Bloom.Deserialize Tree.RedBlack
  Tree.Removal Tree.Values Tree.Operations Tree.KeyOrder Tree.Keyed Tree.Effects Tree.Write
  Tree.Read Tree.Gather Tree.RoundTrip

inductive SerializeFault
  | tree (f : Fault)
  | write (e : WriteError)

def cellVal (cell : Cell) : Treeval := .uintArray2 cell.age.toUInt16 cell.count.toUInt16

section

variable (filter : NeuropilBloom)

def insertCell (data : NpTree) (c : Fin 1020) : Except Fault NpTree :=
  if (filter.bitset c).age > 0 ∧ (filter.bitset c).count > 0 then
    treeInsert data (.int (Int16.ofNat (2 * c.val))) (cellVal (filter.bitset c))
  else .ok data

def filterTree : Except Fault NpTree := do
  let data ← treeInsert treeCreate (.int (-1)) (.unsignedInt (UInt16.ofNat filter.free_items))
  (finRange 1020).foldlM (insertCell filter) data

/-- _np_neuropil_bloom_serialize: the buffer and its size. `memory` is what malloc returns; it stays
behind the written bytes. The source does not notice a tree that does not fit into its size; there
are no bytes then. -/
def serialize (memory : ℕ → Bytes) (filter : NeuropilBloom) :
    Except SerializeFault (Bytes × UInt16) := do
  let data ← (filterTree filter).mapError .tree
  let data_length := treeGetByteSize data
  let written ← (writeMap data_length data).mapError .write
  .ok (written ++ (memory data_length).drop written.length, UInt16.ofNat data_length)

def cellKey : Option (Fin 1020) → Int16
  | none => -1
  | some c => Int16.ofNat (2 * c.val)

lemma toInt_cellKey (a : Option (Fin 1020)) :
    (cellKey a).toInt = a.elim (-1) fun c => 2 * (c.val : Int) := by
  cases a with
  | none => rfl
  | some c =>
    rw [cellKey, Int16.toInt_ofNat_of_lt (by omega)]
    rfl

lemma cellKey_injective : Function.Injective cellKey := by
  intro a b h
  replace h := congrArg Int16.toInt h
  rw [toInt_cellKey, toInt_cellKey] at h
  cases a with
  | none =>
    cases b with
    | none => rfl
    | some c =>
      simp only [Option.elim] at h
      omega
  | some c =>
    cases b with
    | none =>
      simp only [Option.elim] at h
      omega
    | some d =>
      simp only [Option.elim] at h
      exact congrArg some (Fin.ext (by omega))

def cellKind : KeyKind (Option (Fin 1020)) where
  key a := .int (cellKey a)
  injective _ _ h := cellKey_injective (Key.int.inj h)
  agrees a b := by
    have hrange : ∀ a, -1 ≤ (cellKey a).toInt ∧ (cellKey a).toInt ≤ 2038 := by
      intro a
      rw [toInt_cellKey]
      cases a with
      | none => decide
      | some c =>
        have hc := c.isLt
        simp only [Option.elim]
        omega
    have ha := hrange a
    have hb := hrange b
    exact signAgrees_int (by omega)
  stored _ _ := rfl

def Live (c : Fin 1020) : Prop := (filter.bitset c).age > 0 ∧ (filter.bitset c).count > 0

instance (filter : NeuropilBloom) (c : Fin 1020) : Decidable (Live filter c) :=
  inferInstanceAs (Decidable (_ ∧ _))

def pairsOf (done : List (Fin 1020)) : Option (Fin 1020) → Option Treeval
  | none => some (.unsignedInt (UInt16.ofNat filter.free_items))
  | some c => if c ∈ done ∧ Live filter c then some (cellVal (filter.bitset c)) else none

end

/-- The values of the tree, which are stored and read back as they are. -/
def Number : Treeval → Prop
  | .unsignedInt _ | .uintArray2 _ _ => True
  | _ => False

namespace Number

variable {val : Treeval} (h : Number val)
include h

lemma copy : copyOfVal val = .ok val := by
  cases val <;> first | rfl | cases h

lemma plain : Plain val := by
  cases val <;> first | (rintro (_ | _ | _ | _) _ ⟨⟩; done) | cases h

lemma written : isWritten val = true := by
  cases val <;> first | rfl | cases h

lemma restore : restorePlain val = val := by
  cases val <;> first | rfl | cases h

lemma tidy : Tidy val := (everywhere_plain h.plain).2 h.written

lemma covers (hcnt : CountedPlain val) : Covers val := by
  rw [Covers, writeType_plain h.plain]
  exact length_writePlain_le hcnt

lemma byteSize_le : treevalGetByteSize val ≤ 10 := by
  have he : ∀ n < 2 ^ 16, extraBytes n ≤ 2 := by
    intro n hn
    exact extraBytes_mono (le_of_lt_succ hn)
  cases val with
  | unsignedInt ui =>
    have hui := ui.toInt16.toInt_lt
    have := he ui.toInt16.toInt.toNat (by omega)
    rw [treevalGetByteSize]
    omega
  | uintArray2 a b =>
    have ha := he a.toNat a.toNat_lt
    have hb := he b.toNat b.toNat_lt
    rw [treevalGetByteSize]
    omega
  | _ => cases h

end Number

variable {done : List (Fin 1020)} {a : Option (Fin 1020)}

lemma number_of_pairsOf {filter : NeuropilBloom} {val : Treeval}
    (h : pairsOf filter done a = some val) : Number val := by
  cases a with
  | none =>
    cases h
    trivial
  | some c =>
    rw [pairsOf] at h
    split at h
    · cases h
      trivial
    · cases h

lemma elementGetByteSize_le (a : Option (Fin 1020)) {val : Treeval} (h : Number val) :
    elementGetByteSize (cellKind.key a) val ≤ 16 := by
  have hkey : treevalGetByteSize (.int (cellKey a)) ≤ 6 := by
    have hlo := (cellKey a).le_toInt
    have hhi := (cellKey a).toInt_lt
    have he : extraBytes (cellKey a).toInt.natAbs ≤ extraBytes (2 ^ 16 - 1) :=
      extraBytes_mono (by omega)
    have htwo : extraBytes (2 ^ 16 - 1) = 2 := rfl
    rw [treevalGetByteSize]
    omega
  exact Nat.add_le_add hkey h.byteSize_le

structure Filled (filter : NeuropilBloom) (m : Option (Fin 1020) → Option Treeval) (n : ℕ)
    (data : NpTree) : Prop where
  holds : HoldsKeyed cellKind data m
  fresh : Fresh data
  bytes : data.byteSize ≤ 16 * n
  size : data.size ≤ n
  count : (entries data.root).length ≤ n
  accounted : filter.free_items < 2 ^ 15 → Accounted data

variable {filter : NeuropilBloom} {m : Option (Fin 1020) → Option Treeval} {n : ℕ} {data : NpTree}

lemma filled_create : Filled filter (fun _ => none) 0 treeCreate where
  holds := holdsKeyed_create
  fresh := fresh_create
  bytes := le_rfl
  size := le_rfl
  count := le_rfl
  accounted _ := accounted_create

lemma Filled.mono {k : ℕ} (h : Filled filter m n data) (hk : n ≤ k) : Filled filter m k data where
  holds := h.holds
  fresh := h.fresh
  bytes := h.bytes.trans (mul_le_mul_left 16 hk)
  size := h.size.trans hk
  count := h.count.trans hk
  accounted := h.accounted

lemma Filled.insert {val : Treeval} (h : Filled filter m n data)
    (ha : m a = none) (hval : Number val) (hcnt : filter.free_items < 2 ^ 15 → CountedPlain val) :
    ∃ data', treeInsert data (cellKind.key a) val = .ok data' ∧
      Filled filter (update m a (some val)) (n + 1) data' := by
  obtain ⟨data', hins, hh⟩ := h.holds.insert ha hval.copy
  obtain ⟨data'', hins', hfr, heff⟩ := treeInsert_effect h.fresh (cellKind.key a) hval.copy
  obtain rfl : data' = data'' := Except.ok.inj (hins.symm.trans hins')
  have hsizes : data'.byteSize ≤ data.byteSize + 16 ∧ data'.size ≤ data.size + 1 := by
    cases heff with
    | present => exact ⟨le_add_right _ _, le_succ _⟩
    | cut _ hkey => exact absurd rfl hkey
    | added hval' hcopy _ _ hsize hbytes =>
      cases hval'
      cases hval.copy.symm.trans hcopy
      rw [hsize, hbytes]
      exact ⟨Nat.add_le_add_left (elementGetByteSize_le a hval) _, le_rfl⟩
  have hbytes := h.bytes
  have hsize := h.size
  refine ⟨data', hins, hh, hfr, by omega, by omega,
    heff.length_le.trans (succ_le_succ h.count), fun hfree => ?_⟩
  refine (h.accounted hfree).effect ?_ heff
  rintro _ stored ⟨⟩ hcopy
  cases hval.copy.symm.trans hcopy
  exact hval.covers (hcnt hfree)

variable {c : Fin 1020}

lemma insertCell_filled (hc : c ∉ done)
    (h : Filled filter (pairsOf filter done) (done.length + 1) data) :
    ∃ data', insertCell filter data c = .ok data' ∧
      Filled filter (pairsOf filter (done ++ [c])) ((done ++ [c]).length + 1) data' := by
  rw [length_append, length_singleton]
  by_cases hlive : Live filter c
  · have hval : Number (cellVal (filter.bitset c)) := trivial
    have hnone : pairsOf filter done (some c) = none := if_neg fun hin => hc hin.1
    obtain ⟨data', hins, hfil⟩ := h.insert hnone hval (fun _ => trivial)
    refine ⟨data', (if_pos hlive).trans hins, ?_⟩
    have hprs : update (pairsOf filter done) (some c)
        (some (cellVal (filter.bitset c))) = pairsOf filter (done ++ [c]) := by
      funext a
      cases a with
      | none => rfl
      | some d =>
        by_cases hd : d = c
        · subst hd
          simp [pairsOf, hlive]
        · simp [pairsOf, hd]
    exact hprs ▸ hfil
  · refine ⟨data, if_neg hlive, ?_⟩
    have hprs : pairsOf filter done = pairsOf filter (done ++ [c]) := by
      funext a
      cases a with
      | none => rfl
      | some d =>
        by_cases hd : d = c
        · subst hd
          simp [pairsOf, hlive]
        · simp [pairsOf, hd]
    exact hprs ▸ h.mono (le_succ _)

lemma filterTree_filled (hfree : filter.free_items < 2 ^ 16) :
    ∃ data, filterTree filter = .ok data ∧
      Filled filter (pairsOf filter (finRange 1020)) 1021 data := by
  have hval : Number (.unsignedInt (UInt16.ofNat filter.free_items)) := trivial
  have hcnt : filter.free_items < 2 ^ 15 →
      CountedPlain (.unsignedInt (UInt16.ofNat filter.free_items)) := by
    intro hsm
    change (UInt16.ofNat filter.free_items).toNat < 2 ^ 15
    rwa [toNat_ofNat_of_lt' hfree]
  obtain ⟨first, hfst, hfil⟩ := Filled.insert (a := none) filled_create rfl hval hcnt
  have hprs : update (fun _ => none) none
      (some (.unsignedInt (UInt16.ofNat filter.free_items))) = pairsOf filter [] := by
    funext a
    cases a with
    | none => rfl
    | some d => simp [pairsOf]
  rw [hprs] at hfil
  obtain ⟨data, hfold, hd⟩ := foldlM_inv
    (fun done data => Filled filter (pairsOf filter done) (done.length + 1) data) hfil
    (fun done data c hb h => insertCell_filled (by
      have hnd := (nodup_finRange 1020).sublist hb.sublist
      exact fun hc => (disjoint_of_nodup_append hnd) hc (mem_singleton_self c)) h)
  rw [length_finRange] at hd
  refine ⟨data, ?_, hd⟩
  have hf' : treeInsert treeCreate (.int (-1))
      (.unsignedInt (UInt16.ofNat filter.free_items)) = .ok first := hfst
  rw [filterTree, hf', ok_bind]
  exact hfold

/-- What is read back of a filter: the cells that are not live are empty. -/
def livePart (filter : NeuropilBloom) : NeuropilBloom :=
  ⟨filter.free_items, fun c => if Live filter c then filter.bitset c else ⟨0, 0⟩⟩

lemma live_iff (c : Fin 1020) :
    Live filter c ↔ (filter.bitset c).age ≠ 0 ∧ (filter.bitset c).count ≠ 0 :=
  and_congr UInt8.pos_iff_ne_zero UInt8.pos_iff_ne_zero

lemma livePart_live (h : Live filter c) : (livePart filter).bitset c = filter.bitset c := if_pos h

lemma livePart_dead (h : ¬ Live filter c) : (livePart filter).bitset c = ⟨0, 0⟩ := if_neg h

lemma live_livePart (c : Fin 1020) : Live (livePart filter) c ↔ Live filter c := by
  by_cases h : Live filter c
  · rw [Live, livePart_live h]
    rfl
  · refine iff_of_false ?_ h
    rw [Live, livePart_dead h]
    decide

lemma check_livePart (filter : NeuropilBloom) (id : Dhkey) :
    check (livePart filter) id = check filter id := by
  rw [Bool.eq_iff_iff, check_iff, check_iff]
  apply forall_congr'
  intro k
  rw [← live_iff, ← live_iff, live_livePart]

lemma reads_filterTree (h : Filled filter (pairsOf filter (finRange 1020)) 1021 data) :
    ∃ result, Reads 3 (.jrbTree data) (.jrbTree result) ∧
      HoldsKeyed cellKind result (pairsOf filter (finRange 1020)) := by
  have hent : ∀ e ∈ entries data.root, ShortKey e.1 ∧ Number e.2 ∧
      ∀ t, insertRestored t e = treeInsert t e.1 e.2 := by
    rintro ⟨key, val⟩ he
    obtain ⟨a, rfl, ha⟩ := h.holds.mem_iff.1 he
    exact ⟨trivial, number_of_pairsOf ha, fun t => rfl⟩
  obtain ⟨result, hfold, hh⟩ := h.holds.rebuild (fun a val ha => (number_of_pairsOf ha).copy)
    (fun t e he => (hent e he).2.2 t)
  have htidy : TidyTree data := by
    refine ⟨?_, fun e he => (hent e he).2.1.tidy⟩
    intro key hkey
    obtain ⟨e, he, rfl⟩ := mem_map.1 hkey
    exact (hent e he).1
  have hprs : List.Forall₂ (ReadsPair 1) (entries data.root) (entries data.root) := by
    rw [forall₂_same]
    intro e he
    have hnum := (hent e he).2.1
    have hrds := reads_plain hnum.plain hnum.written
    rw [hnum.restore] at hrds
    exact ⟨rfl, hrds, (becomes_plain hnum.plain).2 ⟨hnum.plain, hnum.restore.symm⟩, hnum.tidy⟩
  have hcount := h.count
  exact ⟨result, reads_tree (htidy.tidy h.fresh.ranked (by omega) .jrbTree) hprs hfold, hh⟩

section

variable (raw : Treeval → UInt16 × UInt16)

lemma positionOf_cell (c : Fin 1020) : positionOf raw (cellKind.key (some c)) = 2 * c.val := by
  have hc : 2 * c.val < 2 ^ 16 := by omega
  change (Int16.ofNat (2 * c.val)).toUInt16.toNat = 2 * c.val
  rw [Int16.toUInt16_ofNat', toNat_ofNat_of_lt' hc]

lemma putCell_cell (bitset : Fin 1020 → Cell) (c : Fin 1020) (cell : Cell) :
    putCell raw bitset (cellKind.key (some c), cellVal cell) = update bitset c cell := by
  funext d
  have hw : wordsOf raw (cellVal cell) = (cell.age.toUInt16, cell.count.toUInt16) := rfl
  simp only [putCell, positionOf_cell, hw, setByte]
  have hodd : (2 * c.val + 1) / 2 = c.val ∧ (2 * c.val + 1) % 2 = 1 := by omega
  have he : 2 * c.val / 2 = c.val ∧ 2 * c.val % 2 = 0 := by omega
  rw [hodd.1, hodd.2, he.1, he.2]
  by_cases hd : d = c
  · subst hd
    simp
  · have hval : d.val ≠ c.val := fun h => hd (Fin.ext h)
    simp [hd, hval]

lemma foldl_putCell {items : List (Key × Treeval)} (bitset : Fin 1020 → Cell)
    (h : ∀ e ∈ items, ∃ c, e = (cellKind.key (some c), cellVal (filter.bitset c))) (c : Fin 1020) :
    ((cellKind.key (some c), cellVal (filter.bitset c)) ∈ items →
        items.foldl (putCell raw) bitset c = filter.bitset c) ∧
      ((cellKind.key (some c), cellVal (filter.bitset c)) ∉ items →
        items.foldl (putCell raw) bitset c = bitset c) := by
  induction items using reverseRecOn with
  | nil => exact ⟨by simp, fun _ => rfl⟩
  | append_singleton items e ih =>
    obtain ⟨hitems, ⟨d, rfl⟩, -⟩ := forall_mem_append.1 h |>.imp_right forall_mem_cons.1
    obtain ⟨hin, hout⟩ := ih hitems
    rw [foldl_append, foldl_cons, foldl_nil, putCell_cell]
    by_cases hcd : c = d
    · subst hcd
      simp
    · have hkey : cellKind.key (some c) ≠ cellKind.key (some d) := fun heq =>
        hcd (Option.some.inj (cellKind.injective heq))
      simpa [hcd, hkey] using ⟨hin, hout⟩

lemma readCells_live {cells : NpTree}
    (hent : ∀ key val, (key, val) ∈ entries cells.root ↔
      ∃ c, key = cellKind.key (some c) ∧ val = cellVal (filter.bitset c) ∧ Live filter c) :
    (entries cells.root).foldlM (readCell raw) create.bitset = .ok (livePart filter).bitset := by
  have hmem : ∀ c, (cellKind.key (some c), cellVal (filter.bitset c)) ∈ entries cells.root ↔
      Live filter c := by
    intro c
    rw [hent]
    constructor
    · rintro ⟨d, hkey, -, hlive⟩
      rwa [Option.some.inj (cellKind.injective hkey)]
    · exact fun hlive => ⟨c, rfl, rfl, hlive⟩
  have hshape : ∀ e ∈ entries cells.root,
      ∃ c, e = (cellKind.key (some c), cellVal (filter.bitset c)) := by
    rintro ⟨key, val⟩ he
    obtain ⟨c, rfl, rfl, -⟩ := (hent key val).1 he
    exact ⟨c, rfl⟩
  refine (readCells_eq_ok_iff raw _ _ _).2 ⟨?_, ?_⟩
  · intro e he
    obtain ⟨c, rfl⟩ := hshape e he
    rw [positionOf_cell]
    omega
  · funext c
    obtain ⟨hin, hout⟩ := foldl_putCell raw create.bitset hshape c
    by_cases hlive : Live filter c
    · rw [hin ((hmem c).2 hlive), livePart_live hlive]
    · rw [hout (fun hc => hlive ((hmem c).1 hc)), livePart_dead hlive]
      rfl

lemma readFilter_live (hfree : filter.free_items < 2 ^ 16)
    (h : HoldsKeyed cellKind data (pairsOf filter (finRange 1020))) :
    readFilter raw data = .ok (livePart filter) := by
  have hfind : treeFind data (.int (-1)) =
      some (.unsignedInt (UInt16.ofNat filter.free_items)) := h.find none
  obtain ⟨cells, hdel, hcells⟩ := h.del none
  have hdel' : treeDel data (.int (-1)) = .ok cells := hdel
  have hread : (entries cells.root).foldlM (readCell raw) create.bitset =
      .ok (livePart filter).bitset := by
    apply readCells_live
    intro key val
    rw [hcells.mem_iff, Option.exists]
    simp [pairsOf, eq_comm, and_comm]
  have hitems : (wordsOf raw (.unsignedInt (UInt16.ofNat filter.free_items))).1.toNat =
      filter.free_items := toNat_ofNat_of_lt' hfree
  simp only [readFilter, hfind, hdel']
  change (entries cells.root).foldlM (readCell raw) create.bitset >>= _ = _
  rw [hread, ok_bind, hitems]
  rfl

lemma treeGetByteSize_lt (h : Filled filter m 1021 data) : treeGetByteSize data < 2 ^ 16 := by
  have hbytes := h.bytes
  have he : extraBytes data.size ≤ extraBytes 1021 := extraBytes_mono h.size
  have htwo : extraBytes 1021 = 2 := rfl
  change extraBytes data.size + (1 + 1 + 2 + data.byteSize) < 2 ^ 16
  omega

lemma deserialize_written (hfree : filter.free_items < 2 ^ 16)
    (h : Filled filter (pairsOf filter (finRange 1020)) 1021 data) (rest : Bytes) {fuel : ℕ}
    (hfuel : 3 ≤ fuel) :
    deserialize raw fuel (writeType (.jrbTree data) ++ rest) = .ok (livePart filter) := by
  obtain ⟨result, hrds, hh⟩ := reads_filterTree h
  have hfin : finishRead result = result := by
    rw [finishRead, hh.attr]
    rfl
  have hmap : readMap fuel treeCreate (writeType (.jrbTree data) ++ rest) = .ok result := by
    rw [readMap, hrds fuel hfuel rest, ok_bind]
    exact congrArg Except.ok hfin
  rw [deserialize, hmap]
  exact readFilter_live raw hfree hh

lemma serialize_eq_ok_iff (memory : ℕ → Bytes) (hd : filterTree filter = .ok data)
    (result : Bytes × UInt16) : serialize memory filter = .ok result ↔
      (writeType (.jrbTree data)).length ≤ treeGetByteSize data ∧
        result = (writeType (.jrbTree data) ++
          (memory (treeGetByteSize data)).drop (writeType (.jrbTree data)).length,
            UInt16.ofNat (treeGetByteSize data)) := by
  have hser : serialize memory filter =
      (writeMap (treeGetByteSize data) data).mapError .write >>= fun written =>
        .ok (written ++ (memory (treeGetByteSize data)).drop written.length,
          UInt16.ofNat (treeGetByteSize data)) := by
    rw [serialize, hd]
    rfl
  rw [hser, writeMap]
  split_ifs with hfits
  · rw [and_iff_right hfits]
    exact ⟨fun h => (Except.ok.inj h).symm, fun h => congrArg Except.ok h.symm⟩
  · exact iff_of_false (by rintro ⟨⟩) (fun h => hfits h.1)

/-- A filter is read back from its bytes: with the same free items, the same answers, and the cells
in use as they were. With an item counter below 2^15 the bytes always fit. -/
theorem serialized_filter_restored (memory : ℕ → Bytes) (filter : NeuropilBloom)
    (hfree : filter.free_items < 2 ^ 16) :
    (filter.free_items < 2 ^ 15 → ∃ buffer size, serialize memory filter = .ok (buffer, size)) ∧
      ∀ buffer size, serialize memory filter = .ok (buffer, size) →
        ∃ restored, (∀ fuel, 3 ≤ fuel →
            deserialize raw fuel (buffer.take size.toNat) = .ok restored) ∧
          restored.free_items = filter.free_items ∧
          (∀ id, check restored id = check filter id) ∧
          ∀ c, (filter.bitset c).age ≠ 0 → (filter.bitset c).count ≠ 0 →
            restored.bitset c = filter.bitset c := by
  obtain ⟨data, hd, hfil⟩ := filterTree_filled hfree
  constructor
  · intro hsm
    have hcov : Covers (ofTree .jrbTree data) := (hfil.accounted hsm).covers .jrbTree
    exact ⟨_, _, (serialize_eq_ok_iff memory hd _).2 ⟨hcov, rfl⟩⟩
  · intro buffer size hser
    obtain ⟨hfits, hres⟩ := (serialize_eq_ok_iff memory hd _).1 hser
    cases hres
    refine ⟨livePart filter, ?_, rfl, check_livePart filter, ?_⟩
    · intro fuel hfuel
      rw [toNat_ofNat_of_lt' (treeGetByteSize_lt hfil), take_append, take_of_length_le hfits]
      exact deserialize_written raw hfree hfil _ hfuel
    · exact fun c hage hcount => livePart_live ((live_iff c).2 ⟨hage, hcount⟩)

end

def lastCellFilter : NeuropilBloom := ⟨63, update create.bitset (Fin.last 1019) ⟨128, 1⟩⟩

lemma lastCellFilter_bitset : lastCellFilter.bitset (Fin.last 1019) = ⟨128, 1⟩ := by
  simp only [lastCellFilter, update_self]

theorem last_cell_restored :
    ∃ buffer size restored, serialize (fun _ => []) lastCellFilter = .ok (buffer, size) ∧
      deserialize (fun _ => (0, 0)) 3 (buffer.take size.toNat) = .ok restored ∧
      restored.free_items = 63 ∧ restored.bitset (Fin.last 1019) = ⟨128, 1⟩ := by
  have hsm : lastCellFilter.free_items < 2 ^ 15 := by decide
  obtain ⟨hw, hres⟩ := serialized_filter_restored (fun _ => (0, 0)) (fun _ => [])
    lastCellFilter (hsm.trans (by decide))
  obtain ⟨buffer, size, hser⟩ := hw hsm
  obtain ⟨restored, hread, hfree, -, hcells⟩ := hres buffer size hser
  refine ⟨buffer, size, restored, hser, hread 3 le_rfl, hfree, ?_⟩
  rw [hcells, lastCellFilter_bitset]
  · decide
  · decide

end Neuropil.Bloom.Serialize
