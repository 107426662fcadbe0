import Mathlib.Data.List.GetD
import Neuropil.Dhkey.Order
import Neuropil.Lib.Buffer

namespace Neuropil.Dhkey

open List Lib.Buffer

def bytes (k : Dhkey) : Bytes := (words k).flatMap (fun w => leBytes 4 w.toNat)

def indexFrom (ret : ℕ) : Bytes → Bytes → ℕ
  | a :: as, b :: bs =>
      if a &&& 0xf0 ≠ b &&& 0xf0 then ret
      else if a &&& 0x0f ≠ b &&& 0x0f then ret + 1
      else indexFrom (ret + 2) as bs
  | _, _ => ret

/-- The position of the first halfbyte in which two keys differ, 64 if there
is none. -/
def index (a b : Dhkey) : ℕ := indexFrom 0 (bytes a) (bytes b)

/-- The halfbyte at a position, in the order in which `index` counts them. -/
def hexalphaAt (key : Dhkey) (index_of_key : ℕ) : ℕ :=
  let tuple := index_of_key / 8
  let tuple_rest := index_of_key % 8
  let element := leBytes 4 (key.word tuple).toNat
  let answer := element.getD (tuple_rest / 2) 0
  (if tuple_rest % 2 = 0 then answer >>> 4 &&& 0x0f else answer &&& 0x0f).toNat

lemma length_bytes (k : Dhkey) : (bytes k).length = 32 := by
  simp [bytes, words]

lemma bytes_injective : Function.Injective bytes := by
  have hwords : ∀ as bs : List UInt32, as.length = bs.length →
      as.flatMap (fun w => leBytes 4 w.toNat) = bs.flatMap (fun w => leBytes 4 w.toNat) →
      as = bs := by
    intro as
    induction as with
    | nil => intro bs hlen _; exact (length_eq_zero_iff.mp hlen.symm).symm
    | cons a as ih =>
      intro bs hlen h
      cases bs with
      | nil => simp at hlen
      | cons b bs =>
        obtain ⟨hab, hrest⟩ := append_inj h (by simp)
        have hv := congrArg leVal hab
        simp only [leVal_leBytes] at hv
        have ha := a.toNat_lt
        have hb := b.toNat_lt
        have hn : a = b := UInt32.toNat.inj (by omega)
        rw [hn, ih bs (by simpa using hlen) hrest]
  rintro ⟨s⟩ ⟨t⟩ h
  have hw := hwords _ _ (by simp [words]) h
  exact congrArg Dhkey.mk (ofFn_injective hw)

lemma byte_eq_of_nibbles {a b : UInt8} (hh : a &&& 0xf0 = b &&& 0xf0)
    (hl : a &&& 0x0f = b &&& 0x0f) : a = b := by
  have hspl : ∀ x : UInt8, x &&& 0xf0 ||| x &&& 0x0f = x := by
    intro x
    apply UInt8.toBitVec_inj.mp
    simp only [UInt8.toBitVec_or, UInt8.toBitVec_and, ← BitVec.and_or_distrib_left]
    exact BitVec.and_allOnes
  rw [← hspl a, ← hspl b, hh, hl]

lemma indexFrom_lt (ret : ℕ) {as bs : Bytes} (hlen : as.length = bs.length) (hne : as ≠ bs) :
    indexFrom ret as bs < ret + 2 * as.length := by
  induction as generalizing ret bs with
  | nil => exact absurd (length_eq_zero_iff.mp hlen.symm).symm hne
  | cons a as ih =>
    cases bs with
    | nil => simp at hlen
    | cons b bs =>
      simp only [indexFrom, length_cons]
      split_ifs with hh hl
      · omega
      · omega
      · have hab : a = b := byte_eq_of_nibbles (not_not.mp hh) (not_not.mp hl)
        have hrest : as ≠ bs := fun h => hne (by rw [hab, h])
        have h := ih (ret + 2) (by simpa using hlen) hrest
        omega

lemma indexFrom_self (ret : ℕ) (as : Bytes) : indexFrom ret as as = ret + 2 * as.length := by
  induction as generalizing ret with
  | nil => simp [indexFrom]
  | cons a as ih =>
    simp only [indexFrom, ne_eq, not_true_eq_false, ↓reduceIte, ih, length_cons]
    omega

lemma index_self (a : Dhkey) : index a a = 64 := by
  rw [index, indexFrom_self, length_bytes]

lemma index_lt_iff (a b : Dhkey) : index a b < 64 ↔ a ≠ b := by
  constructor
  · rintro h rfl
    rw [index_self] at h
    exact absurd h (lt_irrefl _)
  · intro hne
    have h := indexFrom_lt 0 (by rw [length_bytes, length_bytes])
      (fun he : bytes a = bytes b => hne (bytes_injective he))
    rwa [length_bytes] at h

lemma hexalphaAt_lt (key : Dhkey) (i : ℕ) : hexalphaAt key i < 16 := by
  have hb : ∀ x : UInt8, (x &&& 0x0f).toNat < 16 := by
    intro x
    exact Nat.and_lt_two_pow x.toNat (n := 4) (by decide)
  simp only [hexalphaAt]
  split_ifs <;> exact hb _

def halfbyte (bs : Bytes) (i : ℕ) : ℕ :=
  (if i % 2 = 0 then bs.getD (i / 2) 0 >>> 4 &&& 0x0f else bs.getD (i / 2) 0 &&& 0x0f).toNat

lemma halfbyte_cons (a : UInt8) (as : Bytes) (i : ℕ) :
    halfbyte (a :: as) (i + 2) = halfbyte as i := by
  have h : (i + 2) / 2 = i / 2 + 1 := by omega
  rw [halfbyte, h, getD_cons_succ, Nat.add_mod_right, halfbyte]

lemma high_eq_iff (a b : UInt8) :
    a &&& 0xf0 = b &&& 0xf0 ↔ (a >>> 4 &&& 0x0f).toNat = (b >>> 4 &&& 0x0f).toNat := by
  have hback : ∀ x : UInt8, (x &&& 0xf0) >>> 4 = x >>> 4 &&& 0x0f := fun x => UInt8.shiftRight_and
  have hhigh : ∀ x : UInt8, (x >>> 4 &&& 0x0f) <<< 4 = x &&& 0xf0 := by
    rintro ⟨x⟩
    apply UInt8.toBitVec_inj.1
    revert x
    decide +kernel
  rw [UInt8.toNat_inj]
  constructor
  · intro h
    rw [← hback, h, hback]
  · intro h
    rw [← hhigh, h, hhigh]

lemma indexFrom_spec (ret : ℕ) {as bs : Bytes} (hlen : as.length = bs.length) :
    ∃ i ≤ 2 * as.length, indexFrom ret as bs = ret + i ∧ (∀ j < i, halfbyte as j = halfbyte bs j) ∧
      (i < 2 * as.length → halfbyte as i ≠ halfbyte bs i) := by
  induction as generalizing ret bs with
  | nil => exact ⟨0, le_rfl, rfl, by simp, by simp⟩
  | cons a as ih =>
    cases bs with
    | nil => simp at hlen
    | cons b bs =>
      rw [indexFrom]
      split_ifs with hh hl
      · exact ⟨0, Nat.zero_le _, rfl, by simp, fun _ h => hh ((high_eq_iff a b).2 h)⟩
      · have hhigh : halfbyte (a :: as) 0 = halfbyte (b :: bs) 0 :=
          (high_eq_iff a b).1 (not_not.1 hh)
        refine ⟨1, by simp; omega, rfl, ?_, fun _ h => hl (UInt8.toNat_inj.1 h)⟩
        intro j hj
        rwa [Nat.lt_one_iff.1 hj]
      · obtain rfl : a = b := byte_eq_of_nibbles (not_not.1 hh) (not_not.1 hl)
        obtain ⟨i, hi, hidx, hbelow, hat⟩ := ih (ret + 2) (Nat.succ_inj.1 hlen)
        refine ⟨i + 2, by rw [length_cons]; omega, by omega, ?_, ?_⟩
        · intro j hj
          match j with
          | 0 | 1 => rfl
          | j + 2 =>
            rw [halfbyte_cons, halfbyte_cons]
            exact hbelow j (by omega)
        · intro hlt
          rw [halfbyte_cons, halfbyte_cons]
          exact hat (by rw [length_cons] at hlt; omega)

lemma getD_bytes {ws : List UInt32} {q r : ℕ} (hq : q < ws.length) (hr : r < 4) :
    (ws.flatMap fun w => leBytes 4 w.toNat).getD (4 * q + r) 0 =
      (leBytes 4 (ws.getD q 0).toNat).getD r 0 := by
  induction ws generalizing q with
  | nil => exact absurd hq (Nat.not_lt_zero q)
  | cons w ws ih =>
    rw [flatMap_cons]
    cases q with
    | zero =>
      rw [getD_append _ _ _ _ (by rw [length_leBytes]; omega)]
      simp
    | succ q =>
      rw [getD_append_right _ _ _ _ (by rw [length_leBytes]; omega), getD_cons_succ,
        ← ih (Nat.lt_of_succ_lt_succ hq)]
      congr 1
      rw [length_leBytes]
      omega

lemma hexalphaAt_eq_halfbyte (key : Dhkey) {i : ℕ} (h : i < 64) :
    hexalphaAt key i = halfbyte (bytes key) i := by
  have hpos : i / 2 = 4 * (i / 8) + i % 8 / 2 := by omega
  have hi : i / 8 < 8 := by omega
  have hlen : i / 8 < (words key).length := by rwa [words, length_ofFn]
  have hword : (words key).getD (i / 8) 0 = key.word (i / 8) := by
    rw [getD_eq_getElem _ _ hlen]
    simp only [words, List.getElem_ofFn, word, Fin.ofNat, Nat.mod_eq_of_lt hi]
  have hmod : i % 8 % 2 = i % 2 := by omega
  rw [halfbyte, hpos, bytes, getD_bytes hlen (by omega), hword, ← hmod]
  rfl

lemma hexalphaAt_index (a b : Dhkey) :
    index a b ≤ 64 ∧ (∀ j < index a b, hexalphaAt a j = hexalphaAt b j) ∧
      (index a b < 64 → hexalphaAt a (index a b) ≠ hexalphaAt b (index a b)) := by
  obtain ⟨i, hi, hidx, hbelow, hat⟩ :=
    indexFrom_spec 0 ((length_bytes a).trans (length_bytes b).symm)
  rw [length_bytes] at hi hat
  rw [index, hidx, Nat.zero_add]
  refine ⟨hi, ?_, ?_⟩
  · intro j hj
    rw [hexalphaAt_eq_halfbyte a (by omega), hexalphaAt_eq_halfbyte b (by omega)]
    exact hbelow j hj
  · intro hlt
    rw [hexalphaAt_eq_halfbyte a hlt, hexalphaAt_eq_halfbyte b hlt]
    exact hat hlt

/-- The index of two keys is the first position in which they differ, and 64 for equal keys. -/
theorem index_spec (a b c : Dhkey) :
    (index a b = 64 ↔ a = b) ∧
    (a ≠ b → index a b < 64 ∧ (∀ i < index a b, hexalphaAt a i = hexalphaAt b i) ∧
      hexalphaAt a (index a b) ≠ hexalphaAt b (index a b)) ∧
    min (index a b) (index b c) ≤ index a c := by
  have hab := hexalphaAt_index a b
  have hac := hexalphaAt_index a c
  refine ⟨?_, ?_, ?_⟩
  · have hlt := (index_lt_iff a b).not
    rw [not_not] at hlt
    rw [← hlt]
    omega
  · intro hne
    have hlt := (index_lt_iff a b).2 hne
    exact ⟨hlt, hab.2.1, hab.2.2 hlt⟩
  · by_contra! hmin
    obtain ⟨h1, h2⟩ := lt_min_iff.1 hmin
    have heq := (hab.2.1 _ h1).trans ((hexalphaAt_index b c).2.1 _ h2)
    exact hac.2.2 (h1.trans_le hab.1) heq

end Neuropil.Dhkey
