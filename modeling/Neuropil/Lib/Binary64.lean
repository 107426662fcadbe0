import Mathlib.Algebra.Order.Ring.Int
import Mathlib.Tactic.Ring

namespace Neuropil.Lib.Binary64

open Int Nat

def magnitude (x : UInt64) : ℕ := x.toNat % 2 ^ 63

def negative (x : UInt64) : Bool := decide (2 ^ 63 ≤ x.toNat)

def infinity : ℕ := 0x7ff0000000000000

def isNan (x : UInt64) : Bool := decide (infinity < magnitude x)

def isInf (x : UInt64) : Bool := decide (magnitude x = infinity)

def word (sign : Bool) (mag : ℕ) : UInt64 := UInt64.ofNat ((if sign then 2 ^ 63 else 0) + mag)

def scale (x : UInt64) : ℤ := if negative x then -magnitude x else magnitude x

def lt (x y : UInt64) : Bool := !isNan x && !isNan y && decide (scale x < scale y)

def le (x y : UInt64) : Bool := !isNan x && !isNan y && decide (scale x ≤ scale y)

/-- What a finite magnitude stands for, in units of two to the power of -1074. -/
def units (mag : ℕ) : ℕ :=
  if mag < 2 ^ 52 then mag else (2 ^ 52 + mag % 2 ^ 52) * 2 ^ (mag / 2 ^ 52 - 1)

def value (x : UInt64) : ℤ := if negative x then -units (magnitude x) else units (magnitude x)

/-- The magnitude nearest to `n` units, and the even one of two equally near. -/
def round (n : ℕ) : ℕ :=
  if n < 2 ^ 53 then n
  else
    let shift := n.log2 - 52
    let quotient := n / 2 ^ shift
    let rest := n % 2 ^ shift
    let up := decide (2 ^ shift < 2 * rest) || (decide (2 * rest = 2 ^ shift) && quotient % 2 == 1)
    min infinity (shift * 2 ^ 52 + quotient + if up then 1 else 0)

def ofUnits (n : ℤ) : UInt64 := word (decide (n < 0)) (round n.natAbs)

def nan : UInt64 := 0x7ff8000000000000

def neg (x : UInt64) : UInt64 := word (!negative x) (magnitude x)

def add (x y : UInt64) : UInt64 :=
  if isNan x || isNan y then nan
  else if isInf x then if isInf y && negative x != negative y then nan else x
  else if isInf y then y
  else if value x + value y = 0 then word (negative x && negative y) 0
  else ofUnits (value x + value y)

def sub (x y : UInt64) : UInt64 := add x (neg y)

def ofNat (n : ℕ) : UInt64 := ofUnits (n * 2 ^ 1074 : ℕ)

variable {x y z : UInt64} {mag : ℕ}

lemma magnitude_lt (x : UInt64) : magnitude x < 2 ^ 63 := mod_lt _ (by decide)

section

variable (sign : Bool) (h : mag < 2 ^ 63)
include h

lemma toNat_word : (word sign mag).toNat = (if sign then 2 ^ 63 else 0) + mag := by
  apply mod_eq_of_lt
  split <;> omega

lemma magnitude_word : magnitude (word sign mag) = mag := by
  rw [magnitude, toNat_word sign h]
  split <;> omega

lemma negative_word : negative (word sign mag) = sign := by
  rw [negative, toNat_word sign h]
  cases sign with
  | true => simp
  | false => simpa using h

end

section

variable (x : UInt64)

lemma magnitude_neg : magnitude (neg x) = magnitude x := magnitude_word _ (magnitude_lt x)

lemma negative_neg : negative (neg x) = !negative x := negative_word _ (magnitude_lt x)

lemma isNan_neg : isNan (neg x) = isNan x := by
  rw [isNan, isNan, magnitude_neg]

lemma isInf_neg : isInf (neg x) = isInf x := by
  rw [isInf, isInf, magnitude_neg]

lemma value_neg : value (neg x) = -value x := by
  rw [value, value, magnitude_neg, negative_neg]
  cases negative x <;> simp

end

variable {n : ℕ}

lemma units_mono {m : ℕ} (h : m ≤ n) : units m ≤ units n := by
  unfold units
  by_cases hn : n < 2 ^ 52
  · rw [if_pos (by omega), if_pos hn]
    exact h
  · rw [if_neg hn]
    by_cases hm : m < 2 ^ 52
    · rw [if_pos hm]
      calc m ≤ 2 ^ 52 + n % 2 ^ 52 := by omega
        _ ≤ (2 ^ 52 + n % 2 ^ 52) * 2 ^ (n / 2 ^ 52 - 1) :=
            Nat.le_mul_of_pos_right _ (Nat.two_pow_pos _)
    · rw [if_neg hm]
      obtain heq | hlt := (Nat.div_le_div_right h : m / 2 ^ 52 ≤ n / 2 ^ 52).eq_or_lt
      · rw [heq]
        exact mul_le_mul_right _ (by omega)
      · -- One exponent more is worth more than every fraction.
        calc (2 ^ 52 + m % 2 ^ 52) * 2 ^ (m / 2 ^ 52 - 1)
            ≤ 2 ^ 53 * 2 ^ (m / 2 ^ 52 - 1) := mul_le_mul_right _ (by omega)
          _ = 2 ^ 52 * 2 ^ (m / 2 ^ 52 - 1 + 1) := by ring
          _ ≤ 2 ^ 52 * 2 ^ (n / 2 ^ 52 - 1) :=
              Nat.mul_le_mul_left _ (Nat.pow_le_pow_right (by decide) (by omega))
          _ ≤ (2 ^ 52 + n % 2 ^ 52) * 2 ^ (n / 2 ^ 52 - 1) := mul_le_mul_right _ (by omega)

lemma value_mono (h : scale x ≤ scale y) : value x ≤ value y := by
  unfold scale at h
  unfold value
  split at h <;> split at h
  · rename_i hx hy
    rw [if_pos hx, if_pos hy]
    have hmono := units_mono (by omega : magnitude y ≤ magnitude x)
    omega
  · rename_i hx hy
    rw [if_pos hx, if_neg hy]
    omega
  · rename_i hx hy
    rw [if_neg hx, if_pos hy]
    have hzero : magnitude x = 0 := by omega
    have hz' : magnitude y = 0 := by omega
    rw [hzero, hz']
    decide
  · rename_i hx hy
    rw [if_neg hx, if_neg hy]
    have hmono := units_mono (by omega : magnitude x ≤ magnitude y)
    omega

lemma round_le (n : ℕ) : round n ≤ infinity := by
  unfold round
  split
  · unfold infinity
    omega
  · exact min_le_left _ _

lemma word_le_zero (h : mag ≤ infinity) : le (word true mag) 0 := by
  have hlt : mag < 2 ^ 63 := h.trans_lt (by decide)
  have hnan : isNan (word true mag) = false := by
    rw [isNan, magnitude_word _ hlt]
    simpa using h
  have hscale : scale (word true mag) ≤ 0 := by
    rw [scale, negative_word _ hlt, magnitude_word _ hlt]
    simp
  rw [le, hnan]
  simpa [isNan, magnitude, scale, negative] using hscale

lemma lt_iff : lt x y ↔ isNan x = false ∧ isNan y = false ∧ scale x < scale y := by
  simp [lt, and_assoc]

lemma le_iff : le x y ↔ isNan x = false ∧ isNan y = false ∧ scale x ≤ scale y := by
  simp [le, and_assoc]

lemma lt_of_lt_of_le (hxy : lt x y) (hyz : le y z) : lt x z := by
  rw [lt_iff] at *
  rw [le_iff] at hyz
  exact ⟨hxy.1, hyz.2.1, hxy.2.2.trans_le hyz.2.2⟩

lemma lt_of_le_of_lt (hxy : le x y) (hyz : lt y z) : lt x z := by
  rw [lt_iff] at *
  rw [le_iff] at hxy
  exact ⟨hxy.1, hyz.2.1, hxy.2.2.trans_lt hyz.2.2⟩

lemma magnitude_le_of_isNan (h : isNan x = false) : magnitude x ≤ infinity := by
  simpa [isNan] using h

lemma negative_of_inf_lt (hx : isInf x) (hy : isNan y = false) (h : scale x < scale y) :
    negative x = true ∧ ¬ (isInf y ∧ negative y = true) := by
  have hmag : magnitude x = infinity := of_decide_eq_true hx
  have hle := magnitude_le_of_isNan hy
  unfold scale at h
  constructor
  · by_contra hneg
    rw [if_neg hneg] at h
    split at h <;> omega
  · rintro ⟨hinf, hneg⟩
    have hmagy : magnitude y = infinity := of_decide_eq_true hinf
    split at h <;> omega

lemma positive_of_lt_inf (hx : isNan x = false) (hy : isInf y) (h : scale x < scale y) :
    negative y = false := by
  have hmag : magnitude y = infinity := of_decide_eq_true hy
  have hle := magnitude_le_of_isNan hx
  unfold scale at h
  by_contra hneg
  rw [Bool.not_eq_false] at hneg
  split at h <;> omega

lemma word_magnitude (h : negative x = true) : word true (magnitude x) = x := by
  have hlt := x.toNat_lt
  have hge : 2 ^ 63 ≤ x.toNat := of_decide_eq_true h
  apply UInt64.toNat_inj.1
  rw [toNat_word true (magnitude_lt x), magnitude, if_pos rfl]
  omega

lemma sub_le_zero_of_lt (h : lt x y) : le (sub x y) 0 := by
  obtain ⟨hx, hy, hscale⟩ := lt_iff.1 h
  rw [sub, add, isNan_neg, hx, hy, if_neg (by decide)]
  by_cases hxinf : isInf x
  · obtain ⟨hneg, ho⟩ := negative_of_inf_lt hxinf hy hscale
    have hsame : (isInf (neg y) && negative x != negative (neg y)) = false := by
      rw [isInf_neg, negative_neg, hneg]
      cases hyinf : isInf y with
      | false => rfl
      | true =>
        have hyneg : negative y = false := by
          rw [← Bool.not_eq_true]
          exact fun hyneg => ho ⟨hyinf, hyneg⟩
        rw [hyneg]
        rfl
    rw [if_pos hxinf, if_neg (by rw [hsame]; decide), ← word_magnitude hneg]
    exact word_le_zero (magnitude_le_of_isNan hx)
  · rw [if_neg hxinf]
    by_cases hyinf : isInf y
    · rw [isInf_neg, if_pos hyinf, neg, positive_of_lt_inf hx hyinf hscale]
      exact word_le_zero (magnitude_le_of_isNan hy)
    · rw [isInf_neg, if_neg hyinf, value_neg]
      have hv := value_mono hscale.le
      by_cases hzero : value x + -value y = 0
      · rw [if_pos hzero]
        cases negative x && negative (neg y) <;> decide
      · rw [if_neg hzero, ofUnits, decide_eq_true (by omega)]
        exact word_le_zero (round_le _)

lemma round_mul_two_pow {q shift : ℕ} (hlow : 2 ^ 52 ≤ q) (hh : q < 2 ^ 53)
    (hshift : shift < 2045) : round (q * 2 ^ shift) = shift * 2 ^ 52 + q := by
  have hpow : 0 < 2 ^ shift := Nat.two_pow_pos shift
  obtain rfl | hpos := Nat.eq_zero_or_pos shift
  · rw [pow_zero, mul_one, zero_mul, zero_add, round, if_pos hh]
  · have htwo : 2 ^ 1 ≤ 2 ^ shift := Nat.pow_le_pow_right (by decide) hpos
    have hlarge : 2 ^ 53 ≤ q * 2 ^ shift := by
      calc
        2 ^ 53 = 2 ^ 52 * 2 ^ 1 := by decide
        _ ≤ q * 2 ^ shift := Nat.mul_le_mul hlow htwo
    have hlog : (q * 2 ^ shift).log2 = shift + 52 := by
      rw [log2_eq_iff (by omega)]
      constructor
      · rw [Nat.pow_add, mul_comm]
        exact mul_le_mul_right _ hlow
      · rw [add_assoc, Nat.pow_add, mul_comm]
        exact mul_lt_mul_of_pos_left hh hpow
    rw [round, if_neg (not_lt.2 hlarge)]
    simp only [hlog, Nat.add_sub_cancel, Nat.mul_div_cancel _ hpow, Nat.mul_mod_left]
    have hne : ¬ 2 * 0 = 2 ^ shift := by omega
    have hd : (decide (2 ^ shift < 2 * 0) || (decide (2 * 0 = 2 ^ shift) && q % 2 == 1)) =
        false := by
      rw [decide_eq_false hne, Bool.false_and, Bool.or_false]
      exact decide_eq_false (Nat.not_lt_zero _)
    rw [hd, infinity]
    simp only [Bool.false_eq_true, if_false, add_zero]
    omega

lemma units_of_split {q shift : ℕ} (hlow : 2 ^ 52 ≤ q) (hhigh : q < 2 ^ 53) :
    units (shift * 2 ^ 52 + q) = q * 2 ^ shift := by
  have hdiv : (shift * 2 ^ 52 + q) / 2 ^ 52 - 1 = shift := by omega
  have hmod : 2 ^ 52 + (shift * 2 ^ 52 + q) % 2 ^ 52 = q := by omega
  rw [units, if_neg (by omega), hdiv, hmod]

lemma exists_split (hpos : 0 < n) (hlt : n < 2 ^ 53) :
    ∃ q shift, 2 ^ 52 ≤ q ∧ q < 2 ^ 53 ∧ shift < 1075 ∧ n * 2 ^ 1074 = q * 2 ^ shift := by
  have hne : n ≠ 0 := by omega
  have hlog : n.log2 ≤ 52 := le_of_lt_succ ((log2_lt hne).2 hlt)
  refine ⟨n * 2 ^ (52 - n.log2), n.log2 + 1022, ?_, ?_, by omega, ?_⟩
  · calc
      2 ^ 52 = 2 ^ n.log2 * 2 ^ (52 - n.log2) := by rw [← Nat.pow_add, Nat.add_sub_cancel' hlog]
      _ ≤ n * 2 ^ (52 - n.log2) := mul_le_mul_right _ (log2_self_le hne)
  · calc
      n * 2 ^ (52 - n.log2) < 2 ^ (n.log2 + 1) * 2 ^ (52 - n.log2) :=
        Nat.mul_lt_mul_of_pos_right Nat.lt_log2_self (Nat.two_pow_pos _)
      _ = 2 ^ 53 := by
        rw [← Nat.pow_add]
        congr 1
        omega
  · have hexp : 52 - n.log2 + (n.log2 + 1022) = 1074 := by omega
    rw [mul_assoc, ← Nat.pow_add, hexp]

lemma ofNat_exact (hpos : 0 < n) (hlt : n < 2 ^ 53) :
    ∃ mag, ofNat n = word false mag ∧ 0 < mag ∧ mag < infinity ∧ units mag = n * 2 ^ 1074 := by
  obtain ⟨q, shift, hlow, hh, hshift, heq⟩ := exists_split hpos hlt
  refine ⟨shift * 2 ^ 52 + q, ?_, by omega, ?_, ?_⟩
  · have hsign : decide (((n * 2 ^ 1074 : ℕ) : ℤ) < 0) = false :=
      decide_eq_false (not_lt.2 (natCast_nonneg _))
    rw [ofNat, ofUnits, hsign, natAbs_natCast, heq, round_mul_two_pow hlow hh (by omega)]
  · rw [infinity]
    omega
  · rw [units_of_split hlow hh, heq]

lemma ofNat_zero : ofNat 0 = 0 := by
  rw [ofNat, zero_mul]
  rfl

/-- The conversion of a double to `uint32_t`, which is not defined outside of the range. -/
def toUInt32 (x : UInt64) : Option UInt32 :=
  if isNan x || isInf x then none
  else
    let whole := (value x).tdiv (2 ^ 1074)
    if 0 ≤ whole ∧ whole < 2 ^ 32 then some (UInt32.ofNat whole.toNat) else none

lemma finite_word (hfin : mag < infinity) :
    mag < 2 ^ 63 ∧ isNan (word false mag) = false ∧ isInf (word false mag) = false := by
  have hmag : mag < 2 ^ 63 := hfin.trans (by decide)
  rw [isNan, isInf, magnitude_word _ hmag]
  exact ⟨hmag, decide_eq_false (not_lt.2 hfin.le), decide_eq_false hfin.ne⟩

lemma toUInt32_ofNat (hlt : n < 2 ^ 32) : toUInt32 (ofNat n) = some (UInt32.ofNat n) := by
  obtain rfl | hpos := Nat.eq_zero_or_pos n
  · have hv : value 0 = 0 := rfl
    rw [ofNat_zero, toUInt32, hv, Int.zero_tdiv]
    rfl
  · obtain ⟨mag, hword, -, hfin, hu⟩ := ofNat_exact hpos (by omega)
    obtain ⟨hmag, hnan, hinf⟩ := finite_word hfin
    have hw : (value (word false mag)).tdiv (2 ^ 1074) = n := by
      rw [value, negative_word _ hmag, magnitude_word _ hmag, hu]
      have hcast : ((n * 2 ^ 1074 : ℕ) : ℤ) = (n : ℤ) * 2 ^ 1074 := by
        rfl
      rw [if_neg Bool.false_ne_true, hcast]
      exact mul_tdiv_cancel _ (pow_ne_zero 1074 two_ne_zero)
    rw [hword, toUInt32, hnan, hinf, hw]
    simp only [Bool.or_self, Bool.false_eq_true, if_false, toNat_natCast]
    rw [if_pos ⟨by omega, by omega⟩]

lemma zero_lt_ofNat (hpos : 0 < n) (hlt : n < 2 ^ 53) : lt 0 (ofNat n) = true := by
  obtain ⟨mag, hw, hmag_pos, hfin, -⟩ := ofNat_exact hpos hlt
  obtain ⟨hmag, hnan, -⟩ := finite_word hfin
  rw [hw, lt_iff]
  refine ⟨rfl, hnan, ?_⟩
  have hzero : scale 0 = 0 := rfl
  rw [hzero, scale, negative_word _ hmag, magnitude_word _ hmag]
  simpa using hmag_pos

end Neuropil.Lib.Binary64
