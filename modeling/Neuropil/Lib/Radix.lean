import Mathlib.Data.Set.Insert
import Mathlib.Tactic.Common

namespace Neuropil.Lib.Radix

variable {κ ι : Type} {digit : κ → ℕ → ι} {a b c : κ} {m n : ℕ}

variable (digit) in
def AgreeBelow (n : ℕ) (a b : κ) : Prop := ∀ i < n, digit a i = digit b i

instance [DecidableEq ι] : Decidable (AgreeBelow digit n a b) :=
  inferInstanceAs (Decidable (∀ i < n, digit a i = digit b i))

lemma AgreeBelow.refl (n : ℕ) (a : κ) : AgreeBelow digit n a a := fun _ _ => rfl

lemma AgreeBelow.symm (h : AgreeBelow digit n a b) : AgreeBelow digit n b a :=
  fun i hi => (h i hi).symm

lemma AgreeBelow.trans (hab : AgreeBelow digit n a b) (hbc : AgreeBelow digit n b c) :
    AgreeBelow digit n a c :=
  fun i hi => (hab i hi).trans (hbc i hi)

lemma AgreeBelow.mono (h : AgreeBelow digit n a b) (hmn : m ≤ n) : AgreeBelow digit m a b :=
  fun i hi => h i (hi.trans_le hmn)

variable (digit) in
def Coherent (n : ℕ) (keys : Set κ) : Prop := ∀ a ∈ keys, ∀ b ∈ keys, AgreeBelow digit n a b

variable {keys more : Set κ}

section

variable (h : Coherent digit n keys)
include h

lemma Coherent.subset (hsub : more ⊆ keys) : Coherent digit n more :=
  fun a ha b hb => h a (hsub ha) b (hsub hb)

lemma Coherent.mono (hmn : m ≤ n) : Coherent digit m keys :=
  fun a ha b hb => (h a ha b hb).mono hmn

lemma Coherent.extend (hmore : ∀ a ∈ more, ∃ b ∈ keys, AgreeBelow digit n a b) :
    Coherent digit n more := by
  intro a ha a' ha'
  obtain ⟨b, hb, hab⟩ := hmore a ha
  obtain ⟨b', hb', hab'⟩ := hmore a' ha'
  exact hab.trans ((h b hb b' hb').trans hab'.symm)

end

variable (digit) in
structure FirstDiff (a b : κ) (n : ℕ) : Prop where
  agree : AgreeBelow digit n a b
  ne : digit a n ≠ digit b n

lemma FirstDiff.lt_of_agree (h : FirstDiff digit a b n) (hm : AgreeBelow digit m a b)
    (hdigit : digit a m = digit b m) : m < n := by
  obtain hlt | rfl | hgt := lt_trichotomy m n
  · exact hlt
  · exact absurd hdigit h.ne
  · exact absurd (hm n hgt) h.ne

end Neuropil.Lib.Radix
