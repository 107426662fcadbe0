import Mathlib.Data.List.Nodup
import Mathlib.Data.List.Perm.Basic
import Mathlib.Data.List.ReduceOption

namespace Neuropil.Lib.Reassembly

open List

variable {α : Type} (num : α → ℕ)

/-- Slots for numbered fragments, counted from the smallest number seen so
far. -/
structure Buffer (α : Type) where
  base : α
  slots : List (Option α)

def start (n : ℕ) (a : α) : Buffer α := ⟨a, (replicate n none).set 0 (some a)⟩

def Buffer.contents (buf : Buffer α) : List α := buf.slots.reduceOption

/-- A fragment that finds its slot taken drives out the one there, which is then inserted again. A
smaller number than all before moves the base, but not the other slots. -/
def store : ℕ → Buffer α → α → Option (Buffer α)
  | 0, _, _ => none
  | fuel + 1, buf, a =>
    if num a = num buf.base then some buf
    else if num a < num buf.base then store fuel ⟨a, buf.slots.set 0 (some a)⟩ buf.base
    else match buf.slots[num a - num buf.base]? with
      | none => none
      | some none => some ⟨buf.base, buf.slots.set (num a - num buf.base) (some a)⟩
      | some (some b) =>
        if num a = num b then some buf
        else store fuel ⟨buf.base, buf.slots.set (num a - num buf.base) (some a)⟩ b

structure Ordered (n : ℕ) (buf : Buffer α) : Prop where
  length : buf.slots.length = n
  base : buf.slots[0]? = some (some buf.base)
  behind : ∀ {j a}, buf.slots[j]? = some (some a) → j + num buf.base ≤ num a ∧ num a < n

def Ready (buf : Buffer α) (a : α) : Prop :=
  (num a :: ((buf.slots.drop (num a - num buf.base)).reduceOption.map num)).Nodup

def Placed (buf : Buffer α) (a : α) : Prop :=
  ∃ b, buf.slots[num a - num buf.base]? = some (some b) ∧ num b = num a

def Held (buf : Buffer α) (a : α) : Prop := num a ∈ buf.contents.map num

section

variable {slots : List (Option α)} {i k : ℕ} {a b : α}

lemma perm_set {o : Option α} (h : slots[i]? = some o) :
    (o.toList ++ (slots.set i (some a)).reduceOption).Perm (a :: slots.reduceOption) := by
  induction slots generalizing i with
  | nil => simp at h
  | cons s slots ih =>
    cases i with
    | zero =>
      simp only [getElem?_cons_zero, Option.some.injEq] at h
      subst h
      cases s with
      | none => simp
      | some b => exact .swap a b _
    | succ i =>
      have hrest := ih (i := i) (by simpa using h)
      cases s with
      | none => simpa using hrest
      | some c =>
        exact (perm_middle.trans (hrest.cons c)).trans (.swap a c _)

lemma drop_of_taken (h : slots[i]? = some (some b)) :
    (slots.drop i).reduceOption = b :: (slots.drop (i + 1)).reduceOption := by
  obtain ⟨hi, hb⟩ := List.getElem?_eq_some_iff.mp h
  rw [drop_eq_getElem_cons hi, hb, reduceOption_cons_of_some]

lemma nodup_driven_out (hi : slots[i]? = some (some b)) (hk : i < k)
    (h : ((slots.drop i).reduceOption.map num).Nodup) :
    (num b :: ((slots.set i (some a)).drop k).reduceOption.map num).Nodup := by
  rw [drop_of_taken hi, map_cons] at h
  have hsub : (slots.drop k).Sublist (slots.drop (i + 1)) := drop_sublist_drop_left _ hk
  rw [drop_set_of_lt hk]
  exact h.sublist (((hsub.filterMap id).map num).cons_cons _)

end

lemma mem_contents_iff {buf : Buffer α} {a : α} :
    a ∈ buf.contents ↔ ∃ j : ℕ, buf.slots[j]? = some (some a) :=
  reduceOption_mem_iff.trans mem_iff_getElem?

variable {num} {n : ℕ} {buf : Buffer α} {a : α}

lemma start_ordered (ha : num a < n) : Ordered num n (start n a) := by
  refine ⟨by simp [start], ?_, ?_⟩
  · rw [start, getElem?_set_self]
    rw [length_replicate]
    omega
  · intro j b hj
    simp only [start, getElem?_set, getElem?_replicate] at hj
    split_ifs at hj with h0
    · cases hj
      simp only [start]
      omega
    · simp at hj

lemma contents_start (hn : 0 < n) : (start n a).contents = [a] := by
  obtain ⟨k, rfl⟩ := Nat.exists_eq_succ_of_ne_zero (Nat.ne_of_gt hn)
  simp [start, Buffer.contents, replicate_succ]

lemma Ordered.pos (h : Ordered num n buf) : 0 < n := by
  rw [← h.length]
  exact (List.getElem?_eq_some_iff.mp h.base).1

lemma Ordered.rebase (h : Ordered num n buf) (hlt : num a < num buf.base) :
    Ordered num n ⟨a, buf.slots.set 0 (some a)⟩ := by
  have hbase := (h.behind h.base).2
  refine ⟨by simpa using h.length, ?_, ?_⟩
  · rw [getElem?_set_self]
    exact (List.getElem?_eq_some_iff.mp h.base).1
  · intro j b hj
    rw [getElem?_set] at hj
    split_ifs at hj with h0
    · cases hj
      dsimp only
      omega
    · have hb := h.behind hj
      dsimp only
      omega

lemma Ordered.place (h : Ordered num n buf) (hle : num buf.base < num a) (ha : num a < n) :
    Ordered num n ⟨buf.base, buf.slots.set (num a - num buf.base) (some a)⟩ := by
  refine ⟨by simpa using h.length, ?_, ?_⟩
  · rw [getElem?_set_ne (by omega)]
    exact h.base
  · intro j b hj
    rw [getElem?_set] at hj
    split_ifs at hj with h0
    · cases hj
      dsimp only
      omega
    · exact h.behind hj

lemma store_placed (fuel : ℕ) (h : Ordered num n buf) (hp : Placed num buf a) :
    store num (fuel + 1) buf a = some buf := by
  obtain ⟨b, hs, hb⟩ := hp
  by_cases heq : num a = num buf.base
  · simp [store, heq]
  · have hlt : ¬ num a < num buf.base := by
      have := h.behind hs
      omega
    simp [store, heq, hlt, hs, hb]

lemma store_spec (fuel : ℕ) (h : Ordered num n buf) (ha : num a < n) (hfuel : n - num a < fuel) :
    ∃ buf', store num fuel buf a = some buf' ∧ Ordered num n buf' ∧
      (Ready num buf a → buf'.contents.Perm (a :: buf.contents)) := by
  induction fuel generalizing buf a with
  | zero => omega
  | succ fuel ih =>
    by_cases heq : num a = num buf.base
    · refine ⟨buf, by simp [store, heq], h, ?_⟩
      intro hrdy
      rw [Ready, heq, Nat.sub_self, drop_of_taken h.base] at hrdy
      simp at hrdy
    by_cases hlt : num a < num buf.base
    · have hbase := (h.behind h.base).2
      obtain ⟨buf', hins, hord, hperm⟩ := ih (h.rebase hlt) hbase (by omega)
      refine ⟨buf', by simpa [store, heq, hlt] using hins, hord, ?_⟩
      intro hrdy
      rw [Ready, Nat.sub_eq_zero_of_le (Nat.le_of_lt hlt)] at hrdy
      have hout := nodup_driven_out (a := a) num h.base (Nat.sub_pos_of_lt hlt) hrdy.of_cons
      exact (hperm hout).trans (perm_set h.base)
    have hgt : num buf.base < num a := by omega
    have hslot : num a - num buf.base < buf.slots.length := by
      rw [h.length]
      omega
    cases hs : buf.slots[num a - num buf.base]? with
    | none =>
      rw [List.getElem?_eq_none_iff] at hs
      omega
    | some s =>
      cases s with
      | none =>
        refine ⟨⟨buf.base, buf.slots.set (num a - num buf.base) (some a)⟩, ?_, h.place hgt ha, ?_⟩
        · simp [store, heq, hlt, hs]
        · intro _
          exact perm_set hs
      | some b =>
        by_cases hab : num a = num b
        · refine ⟨buf, store_placed fuel h ⟨b, hs, hab.symm⟩, h, ?_⟩
          intro hrdy
          rw [Ready, drop_of_taken hs] at hrdy
          simp [hab] at hrdy
        · have hb := h.behind hs
          obtain ⟨buf', hins, hord, hperm⟩ := ih (h.place hgt ha) hb.2 (by omega)
          refine ⟨buf', by simpa [store, heq, hlt, hs, hab] using hins, hord, ?_⟩
          intro hrdy
          have hbeh : num a - num buf.base < num b - num buf.base := by omega
          have hout := nodup_driven_out (a := a) num hs hbeh hrdy.of_cons
          exact (hperm hout).trans (perm_set hs)

lemma ready_of_not_placed (h : Ordered num n buf) (hnd : (buf.contents.map num).Nodup)
    (hp : ¬ Placed num buf a) : Ready num buf a := by
  have hsub := ((buf.slots.drop_sublist (num a - num buf.base)).filterMap id).map num
  refine nodup_cons.mpr ⟨?_, hnd.sublist hsub⟩
  rw [mem_map]
  rintro ⟨b, hb, hnum⟩
  obtain ⟨j, hj⟩ := mem_iff_getElem?.mp (reduceOption_mem_iff.mp hb)
  rw [getElem?_drop] at hj
  have hbeh := h.behind hj
  apply hp
  refine ⟨b, ?_, hnum⟩
  have hslot : num a - num buf.base = num a - num buf.base + j := by omega
  rwa [hslot]

lemma eq_self_of_le (f : Fin n → Fin n) (hf : Function.Injective f) (hle : ∀ j, j ≤ f j)
    (j : Fin n) : f j = j := by
  induction hd : n - j.val using Nat.strongRecOn generalizing j with
  | ind d ih =>
    by_contra hne
    have hval : j.val ≤ (f j).val := hle j
    exact hne (hf (ih (n - (f j).val) (by omega) (f j) rfl))

lemma slots_of_full {slots : List (Option α)} (h : slots.reduceOption.length = slots.length) :
    slots = slots.reduceOption.map some := by
  induction slots with
  | nil => rfl
  | cons s slots ih =>
    have hle := reduceOption_length_le slots
    cases s with
    | none =>
      rw [reduceOption_cons_of_none, length_cons] at h
      omega
    | some a =>
      rw [reduceOption_cons_of_some, length_cons, length_cons] at h
      rw [reduceOption_cons_of_some, map_cons, ← ih (by omega)]

lemma full_in_order (h : Ordered num n buf) (hnd : (buf.contents.map num).Nodup)
    (hfull : buf.contents.length = n) (i : ℕ) (hi : i < n) :
    ∃ a, buf.slots[i]? = some (some a) ∧ num a = i := by
  have hsls : buf.slots = buf.contents.map some := slots_of_full (hfull.trans h.length.symm)
  have hlen : (buf.contents.map num).length = n := by rwa [length_map]
  have hget : ∀ j : Fin n, buf.slots[j.val]? = some (some (buf.contents[j.val])) := by
    intro j
    rw [hsls, getElem?_map, getElem?_eq_getElem]
    rfl
  have hinj : Function.Injective fun j : Fin n =>
      (⟨num (buf.contents[j.val]), (h.behind (hget j)).2⟩ : Fin n) := by
    intro j k hjk
    have hval := congrArg Fin.val hjk
    have hmap : (buf.contents.map num)[j.val] = (buf.contents.map num)[k.val] := by
      simpa only [getElem_map] using hval
    exact Fin.ext ((hnd.getElem_inj_iff).mp hmap)
  have hle : ∀ j : Fin n, j ≤ (⟨num (buf.contents[j.val]), (h.behind (hget j)).2⟩ : Fin n) := by
    intro j
    have hj := (h.behind (hget j)).1
    exact Fin.mk_le_mk.mpr (by omega)
  have hself := eq_self_of_le _ hinj hle ⟨i, hi⟩
  exact ⟨_, hget ⟨i, hi⟩, congrArg Fin.val hself⟩

end Neuropil.Lib.Reassembly
