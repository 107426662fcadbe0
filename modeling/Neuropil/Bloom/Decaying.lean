import Neuropil.Bloom.Filter

namespace Neuropil.Bloom.Decaying

open List Bloom.Filter

/-- A filter with cells of `d` bits. The size says where positions end, which
need not be where the memory of the cells ends. -/
structure DecayingBloom where
  size : ℕ
  d : ℕ
  p : ℕ
  free_items : ℕ
  bitset : List ℕ

def create (size d p : ℕ) : DecayingBloom := ⟨size, d, p, size * d / 16 % 2 ^ 16, replicate size 0⟩

def positions (id : Dhkey) (size : ℕ) : List ℕ := (finRange 8).map fun k => (id.t k).toNat % size

def setBits (d : ℕ) : List ℕ → List ℕ → Except FilterFault (List ℕ)
  | [], bitset => .ok bitset
  | pos :: rest, bitset =>
    match bitset[pos]? with
    | none => .error .outOfBounds
    | some current => setBits d rest (bitset.set pos (current ||| 2 ^ (d - 1)))

def add (bloom : DecayingBloom) (id : Dhkey) : Except FilterFault DecayingBloom :=
  if bloom.free_items = 0 then .error .abort
  else if bloom.d = 8 ∨ bloom.d = 16 then do
    let bitset ← setBits bloom.d (positions id bloom.size) bloom.bitset
    return { bloom with bitset := bitset, free_items := bloom.free_items - 1 }
  else .ok { bloom with free_items := bloom.free_items - 1 }

def testBits : List ℕ → List ℕ → Except FilterFault Bool
  | [], _ => .ok true
  | pos :: rest, bitset =>
    match bitset[pos]? with
    | none => .error .outOfBounds
    | some current => if current = 0 then .ok false else testBits rest bitset

def check (bloom : DecayingBloom) (id : Dhkey) : Except FilterFault Bool :=
  if bloom.d = 8 ∨ bloom.d = 16 then testBits (positions id bloom.size) bloom.bitset
  else .ok true

structure Allocated (bloom : DecayingBloom) : Prop where
  pos : 0 < bloom.size
  le : bloom.size ≤ bloom.bitset.length
  width : bloom.d = 8 ∨ bloom.d = 16

def Marked (bitset : List ℕ) (pos : ℕ) : Prop :=
  ∃ current, bitset[pos]? = some current ∧ current ≠ 0

variable {bitset : List ℕ} {ps : List ℕ}

lemma marked_set_self {pos current : ℕ} (h : bitset[pos]? = some current) (d : ℕ) :
    Marked (bitset.set pos (current ||| 2 ^ (d - 1))) pos := by
  have hpos : 0 < 2 ^ (d - 1) := Nat.two_pow_pos _
  have hle : 2 ^ (d - 1) ≤ current ||| 2 ^ (d - 1) := Nat.right_le_or
  refine ⟨current ||| 2 ^ (d - 1), ?_, by omega⟩
  rw [getElem?_set_self (List.getElem?_eq_some_iff.mp h).1]

lemma marked_set {pos p current : ℕ} (h : Marked bitset pos) (hp : bitset[p]? = some current)
    (d : ℕ) : Marked (bitset.set p (current ||| 2 ^ (d - 1))) pos := by
  obtain ⟨v, hpos, hne⟩ := h
  by_cases heq : p = pos
  · subst heq
    exact marked_set_self hp d
  · refine ⟨v, ?_, hne⟩
    rw [getElem?_set_ne heq, hpos]

lemma setBits_spec (d : ℕ) (h : ∀ pos ∈ ps, pos < bitset.length) :
    ∃ bitset', setBits d ps bitset = .ok bitset' ∧ (∀ pos ∈ ps, Marked bitset' pos) ∧
      (∀ pos, Marked bitset pos → Marked bitset' pos) ∧ bitset'.length = bitset.length := by
  induction ps generalizing bitset with
  | nil => exact ⟨bitset, rfl, by simp, fun _ h => h, rfl⟩
  | cons p ps ih =>
    obtain ⟨hp, hps⟩ := forall_mem_cons.mp h
    have hget := getElem?_eq_getElem hp
    have hlen : ∀ pos ∈ ps, pos < (bitset.set p (bitset[p] ||| 2 ^ (d - 1))).length := by
      simpa only [length_set] using hps
    obtain ⟨bitset', hset, hmar, hkept, hlng⟩ := ih hlen
    refine ⟨bitset', ?_, forall_mem_cons.mpr ⟨?_, hmar⟩, fun pos hpos => ?_, hlng.trans length_set⟩
    · rw [setBits, hget]
      exact hset
    · exact hkept p (marked_set_self hget d)
    · exact hkept pos (marked_set hpos hget d)

lemma testBits_eq_true_iff : testBits ps bitset = .ok true ↔ ∀ pos ∈ ps, Marked bitset pos := by
  induction ps with
  | nil => simp [testBits]
  | cons p ps ih =>
    rw [forall_mem_cons, ← ih, testBits]
    cases hp : bitset[p]? with
    | none => simp [Marked, hp]
    | some current =>
      by_cases hzero : current = 0
      · simp [Marked, hp, hzero]
      · simp [Marked, hp, hzero]

variable {bloom : DecayingBloom}

lemma positions_lt (h : 0 < bloom.size) (id : Dhkey) :
    ∀ pos ∈ positions id bloom.size, pos < bloom.size := by
  intro pos hpos
  obtain ⟨k, _, rfl⟩ := mem_map.mp hpos
  exact Nat.mod_lt _ h

lemma check_eq_true_iff (h : Allocated bloom) (id : Dhkey) :
    check bloom id = .ok true ↔ ∀ pos ∈ positions id bloom.size, Marked bloom.bitset pos := by
  rw [check, if_pos h.width, testBits_eq_true_iff]

section

variable (h : Allocated bloom) (hfree : 0 < bloom.free_items) (id : Dhkey)
include h hfree

lemma add_spec :
    ∃ bloom', add bloom id = .ok bloom' ∧ Allocated bloom' ∧ check bloom' id = .ok true ∧
      ∀ other, check bloom other = .ok true → check bloom' other = .ok true := by
  have hpos : ∀ pos ∈ positions id bloom.size, pos < bloom.bitset.length :=
    fun pos hpos => (positions_lt h.pos id pos hpos).trans_le h.le
  obtain ⟨bitset', hset, hmar, hkept, hlen⟩ := setBits_spec bloom.d hpos
  have hall : Allocated { bloom with bitset := bitset', free_items := bloom.free_items - 1 } :=
    ⟨h.pos, hlen ▸ h.le, h.width⟩
  refine ⟨_, ?_, hall, ?_, fun other ho => ?_⟩
  · rw [add, if_neg hfree.ne', if_pos h.width, hset]
    rfl
  · rw [check_eq_true_iff hall]
    exact hmar
  · rw [check_eq_true_iff h] at ho
    rw [check_eq_true_iff hall]
    exact fun pos hpos => hkept pos (ho pos hpos)

lemma check_add : ∃ bloom', add bloom id = .ok bloom' ∧ check bloom' id = .ok true := by
  obtain ⟨bloom', hadd, -, hchk, -⟩ := add_spec h hfree id
  exact ⟨bloom', hadd, hchk⟩

end

lemma create_allocated {size d : ℕ} (hsize : 0 < size) (hd : d = 8 ∨ d = 16) (p : ℕ) :
    Allocated (create size d p) :=
  ⟨hsize, length_replicate.ge, hd⟩

lemma check_create {size d : ℕ} (hsize : 0 < size) (hd : d = 8 ∨ d = 16) (p : ℕ) (id : Dhkey) :
    check (create size d p) id = .ok false := by
  have hlt := Nat.mod_lt (id.t 0).toNat hsize
  have hdepth : (create size d p).d = 8 ∨ (create size d p).d = 16 := hd
  rw [check, if_pos hdepth]
  simp [positions, finRange_succ, testBits, create, hlt]

end Neuropil.Bloom.Decaying
