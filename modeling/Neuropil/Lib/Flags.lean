import Neuropil.Lib.Table

namespace Neuropil.Lib.Flags

open Function Lib.Table

variable {K N : Type}

/-- What a collection does when a key joins: it may stay as it is, add the key, or give it the place
of another one. It answers with the key added and the one deleted. -/
inductive Joins (k : K) (old new : K → Prop) : Option K → Option K → Prop
  | same (h : ∀ x, new x ↔ old x) : Joins k old new none none
  | added (h : ∀ x, new x ↔ x = k ∨ old x) : Joins k old new (some k) none
  | replaced (z : K) (hne : z ≠ k) (hz : old z) (h : ∀ x, new x ↔ x ≠ z ∧ (x = k ∨ old x)) :
      Joins k old new (some k) (some z)

section

variable {k : K} {old new other : K → Prop} {add del : Option K}

lemma Joins.congr {old' new' : K → Prop} (h : Joins k old new add del)
    (hold : ∀ x, old' x ↔ old x) (hnew : ∀ x, new' x ↔ new x) : Joins k old' new' add del := by
  cases h with
  | same h => exact .same fun x => by rw [hnew, h, hold]
  | added h => exact .added fun x => by rw [hnew, h, hold]
  | replaced z hne hz h =>
    exact .replaced z hne ((hold z).2 hz) fun x => by rw [hnew, h, hold]

lemma Joins.or (h : Joins k old new add del) (hd : ∀ x, old x → ¬ other x) :
    Joins k (fun x => old x ∨ other x) (fun x => new x ∨ other x) add del := by
  cases h with
  | same h => exact .same fun x => by rw [h]
  | added h => exact .added fun x => by rw [h, or_assoc]
  | replaced z hne hz h =>
    refine .replaced z hne (.inl hz) fun x => ?_
    have ho : other x → x ≠ z := fun hx he => hd z hz (he ▸ hx)
    rw [h]
    tauto

end

/-- The items that keys hold carry a flag, which tells whether the key is a member. -/
structure InStep (held : K → Option N) (member : K → Prop) (flag : N → Bool) : Prop where
  item : ∀ k, member k → (held k).isSome
  flag : ∀ n, flag n = true ↔ ∃ k, member k ∧ held k = some n

variable {held : K → Option N} {old new : K → Prop} {flag : N → Bool} {k : K} {n : N}

lemma InStep.flag_iff (h : InStep held old flag) (hown : Unique held) (hk : held k = some n) :
    flag n = true ↔ old k := by
  rw [h.flag]
  constructor
  · rintro ⟨l, hl, hn⟩
    rwa [hown k l n hk hn]
  · exact fun hold => ⟨k, hold, hk⟩

lemma InStep.congr {held' : K → Option N} (h : InStep held old flag)
    (hh : ∀ x, old x → held' x = held x) (hnew : ∀ x, new x ↔ old x) : InStep held' new flag where
  item x hx := by
    rw [hh x ((hnew x).1 hx)]
    exact h.item x ((hnew x).1 hx)
  flag m := by
    rw [h.flag]
    refine exists_congr fun x => ?_
    rw [hnew]
    exact and_congr_right fun hx => by rw [hh x hx]

lemma InStep.none_member (h : ∀ x, ¬ old x) : InStep held old (fun _ => false) where
  item x hx := absurd hx (h x)
  flag m := by simp [h]

variable [DecidableEq N]

lemma InStep.add (h : InStep held old flag) (hk : held k = some n)
    (hnew : ∀ x, new x ↔ x = k ∨ old x) : InStep held new (update flag n true) where
  item x hx := by
    obtain rfl | hx := (hnew x).1 hx
    · rw [hk]
      rfl
    · exact h.item x hx
  flag m := by
    by_cases hm : m = n
    · subst hm
      rw [update_self]
      exact ⟨fun _ => ⟨k, (hnew k).2 (.inl rfl), hk⟩, fun _ => rfl⟩
    · rw [update_of_ne hm, h.flag]
      refine exists_congr fun x => ?_
      rw [hnew]
      constructor
      · exact fun ⟨hx, hn⟩ => ⟨.inr hx, hn⟩
      · rintro ⟨rfl | hx, hn⟩
        · rw [hk, Option.some.injEq] at hn
          exact absurd hn.symm hm
        · exact ⟨hx, hn⟩

lemma InStep.drop (h : InStep held old flag) (hown : Unique held) (hk : held k = some n)
    (hnew : ∀ x, new x ↔ x ≠ k ∧ old x) : InStep held new (update flag n false) where
  item x hx := h.item x ((hnew x).1 hx).2
  flag m := by
    by_cases hm : m = n
    · subst hm
      rw [update_self]
      refine ⟨nofun, ?_⟩
      rintro ⟨x, hx, hn⟩
      exact absurd (hown x k m hn hk) ((hnew x).1 hx).1
    · rw [update_of_ne hm, h.flag]
      refine exists_congr fun x => ?_
      rw [hnew]
      constructor
      · rintro ⟨hx, hn⟩
        refine ⟨⟨?_, hx⟩, hn⟩
        rintro rfl
        rw [hk, Option.some.injEq] at hn
        exact hm hn.symm
      · exact fun ⟨⟨_, hx⟩, hn⟩ => ⟨hx, hn⟩

end Neuropil.Lib.Flags
