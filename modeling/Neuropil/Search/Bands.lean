import Neuropil.Bloom.Bytes
import Neuropil.Bloom.Counting
import Neuropil.Util.Minhash

namespace Neuropil.Search.Bands

open Function List Nat Lib.Fault Bloom Bloom.Counting Bloom.Filter Bloom.Bytes
open Util.Minhash (Signature)

structure Index where
  cbl_index : CountingBloom
  cbl_index_counter : CountingBloom
  clk_hash : NeuropilBloom

def init : Index :=
  ⟨{ Counting.create 85 with free_items := 340 }, { Counting.create 85 with free_items := 340 },
    Filter.create⟩

/-- The locals of `_split_minhash_into_bands`, the filter and the keys added to it. -/
structure Walk where
  row : ℕ
  band : ℕ
  k : ℕ
  keys : ℕ → Dhkey
  clk_hash : NeuropilBloom
  added : List Dhkey

variable (minimums : Signature) (var_bands var_rows : ℕ)

def advance (w : Walk) (j : ℕ) : Walk :=
  let w := if 0 < j ∧ j % 8 = 0 then { w with band := w.band + 1, k := 0 } else w
  if 0 < w.band ∧ w.band % var_bands = 0 then { w with row := w.row + 1, band := 0 } else w

def enter (w : Walk) (j : ℕ) : Except FilterFault Walk :=
  if h : w.band < var_bands ∧ w.k < 8 then do
    let old := (w.keys w.band).t
    let key : Dhkey := ⟨update old ⟨w.k, h.2⟩ (old ⟨w.k, h.2⟩ + .ofNat (minimums j))⟩
    let w := { w with k := w.k + 1, keys := update w.keys w.band key }
    if w.row + 1 = var_rows ∧ w.k = 8 then
      .ok { w with clk_hash := ← Filter.add w.clk_hash key, added := w.added ++ [key] }
    else .ok w
  else .error .outOfBounds

def round (w : Walk) (j : ℕ) : Except FilterFault Walk :=
  enter minimums var_bands var_rows (advance var_bands w j) j

def countBand (counts : CountingBloom × CountingBloom) (key : Dhkey) :
    Except FilterFault (CountingBloom × CountingBloom) := do
  let cbl_index ← (replicate var_rows key).foldlM (Counting.add 85) counts.1
  let cbl_index_counter ← Counting.add 85 counts.2 key
  .ok (cbl_index, cbl_index_counter)

/-- `_split_minhash_into_bands`, with the keys it adds. Both assertions abort, as a full filter
does. -/
def splitMinhashIntoBands (size : ℕ) (index : Index) (in_bands : ℕ) :
    Except FilterFault (Index × List Dhkey) :=
  if in_bands ≤ size / 8 ∧ size / 8 % in_bands = 0 then do
    let var_bands := size / 8 / in_bands
    let var_rows := size / 8 / var_bands
    let w ← (range size).foldlM (round minimums var_bands var_rows)
      ⟨0, 0, 0, fun _ => .zero, index.clk_hash, []⟩
    let counts ← ((range var_bands).map w.keys).foldlM (countBand var_rows)
      (index.cbl_index, index.cbl_index_counter)
    .ok (⟨counts.1, counts.2, w.clk_hash⟩, w.added)
  else .error .abort

def updateFrom (size : ℕ) (index : Index) (bands : ℕ) : Except FilterFault (Index × List Dhkey) :=
  if bands > 1 then do
    let (index, keys) ← splitMinhashIntoBands minimums size index bands
    let (index, others) ← updateFrom size index (bands >>> 1)
    .ok (index, keys ++ others)
  else .ok (index, [])
termination_by bands
decreasing_by
  rw [Nat.shiftRight_one]
  omega

def updateWithMinhash (index : Index) (size : ℕ) : Except FilterFault (Index × List Dhkey) :=
  updateFrom minimums size index (size / 8 % 256)

section

structure At (b r : ℕ) (ids : List Dhkey) (j : ℕ) (w : Walk) : Prop where
  place : 8 * (w.row * b + w.band) + w.k = j
  band_lt : w.band < b
  row_lt : w.row < r
  k_le : w.k ≤ 8
  kept : Remembers w.clk_hash (ids ++ w.added)
  -- keys are added in the last row, one for each band that is complete
  few : w.added.length ≤ if w.row + 1 = r then w.band + w.k / 8 else 0

variable {ids : List Dhkey} {b r j : ℕ} {w : Walk}

lemma At.advance (h : At b r ids j w) (hfirst : w.k = 0 → j = 0) (hj : j < 8 * (r * b)) :
    At b r ids j (advance b w j) ∧ (advance b w j).k < 8 := by
  obtain ⟨hplc, hb, hrow, hk, hkept, hfew⟩ := h
  obtain hk | hk := hk.lt_or_eq
  · have hstay : ¬ (0 < j ∧ j % 8 = 0) := by omega
    have hsame : ¬ (0 < w.band ∧ w.band % b = 0) := by
      rw [mod_eq_of_lt hb]
      omega
    rw [Bands.advance, if_neg hstay]
    simp only [if_neg hsame]
    exact ⟨⟨hplc, hb, hrow, hk.le, hkept, hfew⟩, hk⟩
  · have hnext : 0 < j ∧ j % 8 = 0 := by omega
    rw [Bands.advance, if_pos hnext]
    rw [hk] at hfew
    by_cases hlast : w.band + 1 = b
    · have hsucc : (w.row + 1) * b = w.row * b + b := succ_mul _ _
      have hroom : w.row + 1 < r := by
        refine Nat.lt_of_mul_lt_mul_right (a := b) ?_
        omega
      have hw : 0 < w.band + 1 ∧ (w.band + 1) % b = 0 := by
        rw [hlast, mod_self]
        exact ⟨zero_lt_of_lt hb, rfl⟩
      rw [if_neg hroom.ne] at hfew
      simp only [if_pos hw]
      exact ⟨⟨by simp only; omega, zero_lt_of_lt hb, hroom, zero_le 8, hkept,
        hfew.trans (zero_le _)⟩, by decide⟩
    · have hmod : ¬ (0 < w.band + 1 ∧ (w.band + 1) % b = 0) := by
        rw [mod_eq_of_lt (by omega)]
        omega
      simp only [if_neg hmod]
      exact ⟨⟨by simp only; omega, by simp only; omega, hrow, zero_le 8, hkept,
        by simpa using hfew⟩, by decide⟩

lemma At.enter (h : At b r ids j w) (hk : w.k < 8) (hroom : ids.length + b ≤ 64) :
    ∃ w', enter minimums b r w j = .ok w' ∧ At b r ids (j + 1) w' ∧ 0 < w'.k := by
  obtain ⟨hplc, hb, hrow, -, hkept, hfew⟩ := h
  rw [div_eq_of_lt hk] at hfew
  rw [Bands.enter, dif_pos ⟨hb, hk⟩]
  extract_lets old key w'
  by_cases hadd : w'.row + 1 = r ∧ w'.k = 8
  · rw [if_pos hadd.1] at hfew
    obtain ⟨clk_hash, hok, -⟩ := hkept.add_one (by rw [length_append]; omega) key
    have ha := hkept.add hok
    rw [append_assoc] at ha
    rw [if_pos hadd, hok, ok_bind]
    refine ⟨_, rfl, ⟨by simp only [w']; omega, hb, hrow, hk, ha, ?_⟩, succ_pos _⟩
    rw [if_pos hadd.1, hadd.2, length_append]
    exact succ_le_succ hfew
  · rw [if_neg hadd]
    refine ⟨w', rfl, ⟨by simp only [w']; omega, hb, hrow, hk, hkept, hfew.trans ?_⟩, succ_pos _⟩
    simp only [w']
    split_ifs <;> omega

lemma walk_at {clk_hash : NeuropilBloom} (hids : Remembers clk_hash ids) (hb : 0 < b)
    (hr : 0 < r) (hroom : ids.length + b ≤ 64) {n : ℕ} (hn : n ≤ 8 * (r * b)) :
    ∃ w, (range n).foldlM (round minimums b r) ⟨0, 0, 0, fun _ => .zero, clk_hash, []⟩ = .ok w ∧
      At b r ids n w ∧ (w.k = 0 → n = 0) := by
  induction n with
  | zero =>
    refine ⟨_, rfl, ⟨by simp, hb, hr, zero_le 8, ?_, zero_le _⟩, fun _ => rfl⟩
    rwa [append_nil]
  | succ n ih =>
    obtain ⟨w, hw, hat, hfst⟩ := ih (by omega)
    obtain ⟨hrdy, hk⟩ := hat.advance hfst hn
    obtain ⟨w', hw', hat', hpos⟩ := hrdy.enter minimums hk hroom
    refine ⟨w', ?_, hat', fun h => absurd h hpos.ne'⟩
    rw [range_succ, foldlM_append, hw, ok_bind, foldlM_cons, round, hw', ok_bind]
    rfl

lemma At.length_added (h : At b r ids j w) : w.added.length ≤ b := by
  have hfew := h.few
  have hb := h.band_lt
  have hk := h.k_le
  split_ifs at hfew <;> omega

end

section

variable {r n : ℕ} {bloom : CountingBloom} {counts : CountingBloom × CountingBloom} (key : Dhkey)

lemma foldlM_room {α σ ε : Type} {step : σ → α → Except ε σ} (room : σ → ℕ → Prop) {cost : ℕ}
    {e : ε} (hok : ∀ {s n} a, room s (n + cost) → ∃ s', step s a = .ok s' ∧ room s' n)
    (hfull : ∀ {s n} a, room s n → n < cost → step s a = .error e) (items : List α) {s : σ}
    (h : room s n) :
    (items.length * cost ≤ n → ∃ s', items.foldlM step s = .ok s' ∧
      room s' (n - items.length * cost)) ∧
    (n < items.length * cost → items.foldlM step s = .error e) := by
  induction items generalizing s n with
  | nil => exact ⟨fun _ => ⟨s, rfl, by simpa using h⟩, fun hlt => by simp at hlt⟩
  | cons a items ih =>
    rw [length_cons, succ_mul, foldlM_cons]
    obtain hlt | hle := lt_or_ge n cost
    · rw [hfull a h hlt]
      exact ⟨fun hle => by omega, fun _ => rfl⟩
    · obtain ⟨left, rfl⟩ := Nat.exists_eq_add_of_le' hle
      obtain ⟨s', hs', hroom⟩ := hok a h
      rw [hs', ok_bind, add_le_add_iff_right, add_lt_add_iff_right, Nat.add_sub_add_right]
      exact ih hroom

lemma add_ok (h : bloom.free_items.toNat = n + 1) :
    ∃ bloom', Counting.add 85 bloom key = .ok bloom' ∧ bloom'.free_items.toNat = n := by
  have hne : bloom.free_items ≠ 0 := by
    intro hzero
    rw [hzero] at h
    cases h
  have hone : 1 ≤ bloom.free_items := by
    rw [UInt16.le_iff_toNat_le, h]
    exact le_add_left 1 n
  refine ⟨_, if_neg hne, ?_⟩
  rw [UInt16.toNat_sub_of_le _ _ hone, h]
  rfl

lemma add_full (h : bloom.free_items.toNat = n) (hn : n < 1) :
    Counting.add 85 bloom key = .error .abort := by
  refine if_pos ?_
  rw [← UInt16.toNat_inj, h]
  exact lt_one_iff.1 hn

lemma adds_room (h : bloom.free_items.toNat = n) :
    (r ≤ n → ∃ bloom', (replicate r key).foldlM (Counting.add 85) bloom = .ok bloom' ∧
      bloom'.free_items.toNat = n - r) ∧
    (n < r → (replicate r key).foldlM (Counting.add 85) bloom = .error .abort) := by
  simpa using foldlM_room (fun (bloom : CountingBloom) n => bloom.free_items.toNat = n) add_ok
    add_full (replicate r key) h

/-- The counter has at least as much room as the other filter, where each band takes more. -/
def Room (counts : CountingBloom × CountingBloom) (n : ℕ) : Prop :=
  counts.1.free_items.toNat = n ∧ n ≤ counts.2.free_items.toNat

lemma countBand_ok (hr : 0 < r) (h : Room counts (n + r)) :
    ∃ counts', countBand r counts key = .ok counts' ∧ Room counts' n := by
  obtain ⟨cbl_index, ha, hfree⟩ := (adds_room key h.1).1 (le_add_left r n)
  obtain ⟨left, hleft⟩ := Nat.exists_eq_add_of_le (h.2.trans' (Nat.add_le_add_left hr n))
  obtain ⟨counter, hadd, hone⟩ := add_ok key (hleft.trans (add_right_comm n 1 left))
  refine ⟨(cbl_index, counter), ?_, hfree.trans (Nat.add_sub_cancel n r), ?_⟩
  · rw [countBand, ha, ok_bind, hadd, ok_bind]
  · simp only
    omega

lemma countBand_full (h : Room counts n) (hn : n < r) :
    countBand r counts key = .error .abort := by
  rw [countBand, (adds_room key h.1).2 hn]
  rfl

end

structure Given (index : Index) (ids : List Dhkey) (free : ℕ) : Prop where
  kept : Remembers index.clk_hash ids
  room : Room (index.cbl_index, index.cbl_index_counter) free

variable {index : Index} {ids : List Dhkey} {free b r i m : ℕ}

lemma split_spec (h : Given index ids free) (hb : 0 < b) (hr : 0 < r)
    (hroom : ids.length + b ≤ 64) :
    (b * r ≤ free → ∃ index' keys, splitMinhashIntoBands minimums (8 * (r * b)) index r =
      .ok (index', keys) ∧ keys.length ≤ b ∧ Given index' (ids ++ keys) (free - b * r)) ∧
    (free < b * r → splitMinhashIntoBands minimums (8 * (r * b)) index r = .error .abort) := by
  obtain ⟨w, hw, hat, -⟩ := walk_at minimums h.kept hb hr hroom le_rfl
  have ha : r ≤ r * b ∧ r * b % r = 0 := ⟨Nat.le_mul_of_pos_right _ hb, Nat.mul_mod_right _ _⟩
  have hcts := foldlM_room Room (fun key => countBand_ok key hr) countBand_full
    ((range b).map w.keys) h.room
  rw [length_map, length_range] at hcts
  rw [splitMinhashIntoBands, Nat.mul_div_cancel_left _ (by decide), if_pos ha]
  simp only [Nat.mul_div_cancel_left _ hr, Nat.mul_div_cancel _ hb, hw, ok_bind]
  refine ⟨fun hfree => ?_, fun hfull => ?_⟩
  · obtain ⟨counts, hok, hleft⟩ := hcts.1 hfree
    rw [hok, ok_bind]
    exact ⟨_, _, rfl, hat.length_added, hat.kept, hleft⟩
  · rw [hcts.2 hfull]
    rfl

lemma updateFrom_spec (h : Given index ids free) (hi : i ≤ m)
    (hroom : ids.length + 2 ^ m ≤ 64 + 2 ^ (m - i)) :
    (i * 2 ^ m ≤ free → ∃ index' keys,
      updateFrom minimums (8 * 2 ^ m) index (2 ^ i) = .ok (index', keys) ∧
        Remembers index'.clk_hash (ids ++ keys)) ∧
    (free < i * 2 ^ m → updateFrom minimums (8 * 2 ^ m) index (2 ^ i) = .error .abort) := by
  induction i generalizing index ids free with
  | zero =>
    rw [updateFrom, if_neg (by decide)]
    exact ⟨fun _ => ⟨index, [], rfl, by simpa using h.kept⟩, fun hlt => by omega⟩
  | succ i ih =>
    have hspl : 2 ^ (i + 1) * 2 ^ (m - (i + 1)) = 2 ^ m := by
      rw [← Nat.pow_add, add_sub_of_le hi]
    have hd : 2 ^ (m - i) = 2 * 2 ^ (m - (i + 1)) := by
      rw [← pow_succ']
      congr 1
      omega
    have hmore : 2 ^ (i + 1) > 1 := Nat.one_lt_two_pow (Nat.succ_ne_zero i)
    have hh : 2 ^ (i + 1) >>> 1 = 2 ^ i := by
      rw [Nat.shiftRight_one, Nat.pow_succ, Nat.mul_div_cancel _ (by decide)]
    have hle : 2 ^ (m - i) ≤ 2 ^ m := Nat.pow_le_pow_right (by decide) (Nat.sub_le _ _)
    have hspec := split_spec minimums h (Nat.two_pow_pos (m - (i + 1)))
      (Nat.two_pow_pos (i + 1)) (by omega)
    rw [Nat.mul_comm (2 ^ (m - (i + 1))), hspl] at hspec
    rw [updateFrom, if_pos hmore, hh, succ_mul]
    obtain hfull | hfree := lt_or_ge free (2 ^ m)
    · rw [hspec.2 hfull]
      exact ⟨fun hle => by omega, fun _ => rfl⟩
    · obtain ⟨index1, keys, hok, hlen, hg⟩ := hspec.1 hfree
      have hnext := ih hg (by omega) (by rw [length_append]; omega)
      rw [hok, ok_bind]
      refine ⟨fun hle => ?_, fun hlt => ?_⟩
      · obtain ⟨index', others, ho, hkept⟩ := hnext.1 (by omega)
        refine ⟨index', keys ++ others, ?_, by rwa [← append_assoc]⟩
        simp only [ho, ok_bind]
      · simp only [hnext.2 (by omega)]
        rfl

lemma update_spec (minimums : Signature) {m : ℕ} (hm : m ≤ 6) :
    (m * 2 ^ m ≤ 340 → ∃ index keys, updateWithMinhash minimums init (2 ^ (m + 3)) =
      .ok (index, keys) ∧ Remembers index.clk_hash keys) ∧
    (340 < m * 2 ^ m → updateWithMinhash minimums init (2 ^ (m + 3)) = .error .abort) := by
  have hle : 2 ^ m ≤ 2 ^ 6 := Nat.pow_le_pow_right (by decide) hm
  have hsize : 2 ^ (m + 3) = 8 * 2 ^ m := by rw [Nat.pow_add, Nat.mul_comm]
  have hb : 8 * 2 ^ m / 8 % 256 = 2 ^ m := by omega
  rw [updateWithMinhash, hsize, hb]
  have hg : Given init [] 340 := ⟨remembers_create, rfl, le_rfl⟩
  refine updateFrom_spec minimums hg le_rfl ?_
  rw [length_nil, Nat.sub_self]
  omega

/-- The signatures of 512 values have more bands than the counting filter takes keys. -/
theorem update_iff (minimums : Signature) {e : ℕ} (hlo : 4 ≤ e) (hhi : e ≤ 9) :
    (∃ index keys, updateWithMinhash minimums init (2 ^ e) = .ok (index, keys) ∧
      ∀ key ∈ keys, Filter.check index.clk_hash key = true) ↔ e ≠ 9 := by
  obtain ⟨m, rfl⟩ : ∃ m, e = m + 3 := ⟨e - 3, by omega⟩
  have hm : m ≤ 6 := by omega
  have hcount : ∀ m ≤ 6, m ≠ 6 → m * 2 ^ m ≤ 340 := by decide
  obtain ⟨hok, hfull⟩ := update_spec minimums hm
  constructor
  · rintro ⟨index, keys, hrun, -⟩ he
    obtain rfl : m = 6 := by omega
    rw [hfull (by decide)] at hrun
    cases hrun
  · intro he
    obtain ⟨index, keys, hrun, hkept⟩ := hok (hcount m hm (by omega))
    exact ⟨index, keys, hrun, fun key hkey => hkept.check hkey⟩

theorem update_smallest : ∃ index keys,
    updateWithMinhash (fun _ => 0) init (2 ^ 4) = .ok (index, keys) ∧
      ∀ key ∈ keys, Filter.check index.clk_hash key = true :=
  (update_iff (fun _ => 0) (by decide) (by decide)).2 (by decide)

theorem largest_signature_aborts : updateWithMinhash (fun _ => 0) init 512 = .error .abort :=
  (update_spec (fun _ => 0) (m := 6) le_rfl).2 (by decide)

end Neuropil.Search.Bands
