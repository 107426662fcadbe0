import Mathlib.Data.Fintype.Pi
import Mathlib.Tactic.Ring

namespace Neuropil

structure Dhkey where
  t : Fin 8 → UInt32
deriving DecidableEq

namespace Dhkey

def words (k : Dhkey) : List UInt32 := List.ofFn k.t

def word (k : Dhkey) (i : ℕ) : UInt32 := k.t (Fin.ofNat 8 i)

def cmpWords : List UInt32 → List UInt32 → Int
  | a :: as, b :: bs => if a > b then 1 else if a < b then -1 else cmpWords as bs
  | _, _ => 0

def cmp (k1 k2 : Dhkey) : Int := cmpWords (words k1) (words k2)

def add (op1 op2 : Dhkey) : Dhkey := ⟨fun i => op1.t i + op2.t i⟩

def sub (op1 op2 : Dhkey) : Dhkey := ⟨fun i => op1.t i - op2.t i⟩

def xor (op1 op2 : Dhkey) : Dhkey := ⟨fun i => op1.t i ^^^ op2.t i⟩

def ofWord (w : UInt32) : Dhkey := ⟨fun i => if i = 0 then w else 0⟩

def zero : Dhkey := ⟨fun _ => 0⟩

def half : Dhkey := ⟨fun _ => 0x80000000⟩

def max : Dhkey := ⟨fun _ => 0xffffffff⟩

/-- The eight words are subtracted one by one without borrows, and what lies beyond the half of the
ring is measured from the other end. -/
def distance (k1 k2 : Dhkey) : Dhkey :=
  let diff := if cmp k1 k2 > 0 then sub k1 k2 else sub k2 k1
  if cmp half diff < 0 then sub max diff else diff

def between (test left right : Dhkey) (includeBounds : Bool) : Bool :=
  let comp_lt := cmp left test
  let comp_tr := cmp test right
  let comp_lr := cmp left right
  if comp_lt = 0 ∨ comp_tr = 0 then includeBounds
  else if comp_lr < 0 then comp_lt < 0 && comp_tr < 0
  else comp_lt < 0 || comp_tr < 0

/-- The number a key stands for when its first word is the most significant. -/
def wordsVal : List UInt32 → ℕ
  | [] => 0
  | w :: ws => w.toNat * 2 ^ (32 * ws.length) + wordsVal ws

def value (k : Dhkey) : ℕ := wordsVal (words k)

lemma wordsVal_lt (ws : List UInt32) : wordsVal ws < 2 ^ (32 * ws.length) := by
  induction ws with
  | nil => simp [wordsVal]
  | cons w ws ih =>
    have hw : w.toNat + 1 ≤ 2 ^ 32 := w.toNat_lt
    have hm := Nat.mul_le_mul_right (2 ^ (32 * ws.length)) hw
    have he : 2 ^ (32 * (ws.length + 1)) = 2 ^ 32 * 2 ^ (32 * ws.length) := by
      rw [← Nat.pow_add]; congr 1; ring
    rw [Nat.add_mul, Nat.one_mul] at hm
    simp only [wordsVal, List.length_cons, he]
    omega

lemma wordsVal_lt_of_head {a b : UInt32} {as bs : List UInt32} (hlen : as.length = bs.length)
    (h : a < b) : wordsVal (a :: as) < wordsVal (b :: bs) := by
  have hab : a.toNat + 1 ≤ b.toNat := UInt32.lt_iff_toNat_lt.mp h
  have hm := Nat.mul_le_mul_right (2 ^ (32 * bs.length)) hab
  have ha := wordsVal_lt as
  rw [Nat.add_mul, Nat.one_mul] at hm
  simp only [wordsVal, hlen] at ha ⊢
  omega

lemma words_trichotomy (a b : UInt32) : a < b ∨ a = b ∨ a > b := by
  obtain h | h | h := Nat.lt_trichotomy a.toNat b.toNat
  · exact .inl (UInt32.lt_iff_toNat_lt.mpr h)
  · exact .inr (.inl (UInt32.toNat.inj h))
  · exact .inr (.inr (UInt32.lt_iff_toNat_lt.mpr h))

lemma cmpWords_eq (as bs : List UInt32) (hlen : as.length = bs.length) :
    cmpWords as bs = if wordsVal as > wordsVal bs then 1
      else if wordsVal as < wordsVal bs then -1 else 0 := by
  induction as generalizing bs with
  | nil =>
    cases bs with
    | nil => simp [cmpWords]
    | cons b bs => simp at hlen
  | cons a as ih =>
    cases bs with
    | nil => simp at hlen
    | cons b bs =>
      have hl : as.length = bs.length := by simpa using hlen
      obtain h | h | h := words_trichotomy a b
      · have hv := wordsVal_lt_of_head hl h
        have hn : ¬ a > b := UInt32.lt_asymm h
        simp [cmpWords, h, hn, hv, hv.not_gt]
      · subst h
        rw [cmpWords, if_neg (UInt32.lt_irrefl a), if_neg (UInt32.lt_irrefl a), ih bs hl]
        simp [wordsVal, hl]
      · have hv := wordsVal_lt_of_head hl.symm h
        simp [cmpWords, h, hv]

lemma cmp_eq (a b : Dhkey) :
    cmp a b = if value a > value b then 1 else if value a < value b then -1 else 0 :=
  cmpWords_eq _ _ (by simp [words])

lemma cmp_neg_iff (a b : Dhkey) : cmp a b < 0 ↔ value a < value b := by
  rw [cmp_eq]
  split_ifs <;> simp <;> omega

lemma cmp_zero_iff (a b : Dhkey) : cmp a b = 0 ↔ value a = value b := by
  rw [cmp_eq]
  split_ifs <;> simp <;> omega

lemma cmp_le_iff (a b : Dhkey) : cmp a b ≤ 0 ↔ value a ≤ value b := by
  rw [cmp_eq]
  split_ifs <;> simp <;> omega

lemma wordsVal_injective {as bs : List UInt32} (hlen : as.length = bs.length)
    (h : wordsVal as = wordsVal bs) : as = bs := by
  induction as generalizing bs with
  | nil => exact (List.length_eq_zero_iff.mp hlen.symm).symm
  | cons a as ih =>
    cases bs with
    | nil => simp at hlen
    | cons b bs =>
      have hl : as.length = bs.length := by simpa using hlen
      obtain hab | hab | hab := words_trichotomy a b
      · have := wordsVal_lt_of_head hl hab
        omega
      · subst hab
        simp only [wordsVal, hl] at h
        rw [ih hl (by omega)]
      · have := wordsVal_lt_of_head hl.symm hab
        omega

lemma value_injective : Function.Injective value := by
  rintro ⟨s⟩ ⟨t⟩ h
  have hw : words ⟨s⟩ = words ⟨t⟩ := wordsVal_injective (by simp [words]) h
  exact congrArg Dhkey.mk (List.ofFn_injective hw)

lemma eq_iff_value {a b : Dhkey} : a = b ↔ value a = value b := value_injective.eq_iff.symm

lemma cmp_eq_zero_iff (a b : Dhkey) : cmp a b = 0 ↔ a = b := by
  rw [cmp_zero_iff, eq_iff_value]

/-- Keys are ordered as `_np_dhkey_cmp` compares them. -/
instance : LinearOrder Dhkey where
  le a b := cmp a b ≤ 0
  lt a b := cmp a b < 0
  le_refl a := by rw [cmp_le_iff]
  le_trans a b c := by simp only [cmp_le_iff]; exact le_trans
  lt_iff_le_not_ge a b := by simp only [cmp_le_iff, cmp_neg_iff]; omega
  le_antisymm a b := by simp only [cmp_le_iff, eq_iff_value]; exact le_antisymm
  le_total a b := by simp only [cmp_le_iff]; exact le_total _ _
  toDecidableLE a b := inferInstanceAs (Decidable (cmp a b ≤ 0))
  toDecidableLT a b := inferInstanceAs (Decidable (cmp a b < 0))
  toDecidableEq := inferInstance

lemma between_iff (test left right : Dhkey) : between test left right true = true ↔
      value left ≤ value test ∧ value test ≤ value right ∨
      value right < value left ∧ (value left ≤ value test ∨ value test ≤ value right) ∨
      value left = value right := by
  simp only [between, cmp_zero_iff, cmp_neg_iff]
  split_ifs <;> simp <;> omega

end Dhkey

end Neuropil
