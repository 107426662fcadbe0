import Neuropil.Bloom.Decaying
import Neuropil.Lib.Fault

namespace Neuropil.Bloom.Decay

open List Nat Option Lib.Fault Bloom.Decaying
open Bloom.Filter (FilterFault)

inductive DecayFault
  | filter (fault : FilterFault)
  | outOfFuel
deriving DecidableEq, Repr

def decayCell (p current : ℕ) : ℕ := if 0 < current then current >>> p else current

lemma decayCell_eq (p current : ℕ) : decayCell p current = current >>> p := by
  unfold decayCell
  split_ifs with h
  · rfl
  · obtain rfl : current = 0 := by omega
    rw [zero_shiftRight]

/-- The loop of `_np_decaying_bloom_decay`, whose counter has 16 bits. -/
def decayLoop (size d p : ℕ) :
    (fuel : ℕ) → UInt16 → (zeroBits : ℕ) → List ℕ → Except DecayFault (List ℕ × ℕ)
  | 0, _, _, _ => .error .outOfFuel
  | fuel + 1, k, zeroBits, bitset =>
    if k.toNat < size then
      if d = 8 ∨ d = 16 then
        match bitset[k.toNat]? with
        | none => .error (.filter .outOfBounds)
        | some current =>
          let cell := decayCell p current
          decayLoop size d p fuel (k + 1) (if cell = 0 then zeroBits + 1 else zeroBits)
            (bitset.set k.toNat cell)
      else decayLoop size d p fuel (k + 1) zeroBits bitset
    else .ok (bitset, zeroBits)

def decay (fuel : ℕ) (bloom : DecayingBloom) : Except DecayFault DecayingBloom := do
  let (bitset, zeroBits) ← decayLoop bloom.size bloom.d bloom.p fuel 0 0 bloom.bitset
  return { bloom with bitset := bitset, free_items := zeroBits * bloom.d % 2 ^ 32 / 16 % 2 ^ 16 }

def decayed (bloom : DecayingBloom) : DecayingBloom :=
  let bitset := bloom.bitset.map (· >>> bloom.p)
  { bloom with
    bitset := bitset
    free_items := bitset.countP (· = 0) * bloom.d % 2 ^ 32 / 16 % 2 ^ 16 }

variable {bitset : List ℕ}

section

variable {size d p : ℕ}

lemma toNat_succ {k : UInt16} (hk : k.toNat < size) (hsize : size < 65536) :
    (k + 1).toNat = k.toNat + 1 := by
  rw [UInt16.toNat_add, UInt16.toNat_one, mod_eq_of_lt]
  omega

lemma decayLoop_eq (hd : d = 8 ∨ d = 16) (hsize : size < 65536) (rest : List ℕ) {fuel : ℕ}
    (hfuel : rest.length < fuel) (k : UInt16) (zeroBits : ℕ) (done : List ℕ)
    (hk : done.length = k.toNat) (hlen : done.length + rest.length = size) :
    decayLoop size d p fuel k zeroBits (done ++ rest) =
      .ok (done ++ rest.map (· >>> p), zeroBits + (rest.map (· >>> p)).countP (· = 0)) := by
  induction rest generalizing fuel k zeroBits done with
  | nil =>
    obtain ⟨fuel, rfl⟩ : ∃ n, fuel = n + 1 := ⟨fuel - 1, by omega⟩
    have hend : ¬ k.toNat < size := by
      simp only [length_nil] at hlen
      omega
    simp [decayLoop, hend]
  | cons current rest ih =>
    rw [length_cons] at hfuel hlen
    obtain ⟨fuel, rfl⟩ : ∃ n, fuel = n + 1 := ⟨fuel - 1, by omega⟩
    have hlt : k.toNat < size := by omega
    have hget : (done ++ current :: rest)[k.toNat]? = some current := by
      rw [← hk]
      simp
    have hset : (done ++ current :: rest).set k.toNat (current >>> p) =
        done ++ [current >>> p] ++ rest := by
      rw [← hk]
      simp
    have hnext : (done ++ [current >>> p]).length = (k + 1).toNat := by
      rw [toNat_succ hlt hsize, length_append, length_singleton, hk]
    rw [decayLoop, if_pos hlt, if_pos hd, hget]
    simp only [decayCell_eq]
    rw [hset, ih (by omega) (k + 1) _ _ hnext (by simp; omega), map_cons, countP_cons]
    by_cases hzero : current >>> p = 0
    · simp [hzero, add_assoc, add_comm]
    · simp [hzero]

lemma decayLoop_outOfFuel (hsize : 65536 ≤ size) (fuel : ℕ) (k : UInt16) (zeroBits : ℕ)
    (bitset : List ℕ) (hlen : size ≤ bitset.length) :
    decayLoop size d p fuel k zeroBits bitset = .error .outOfFuel := by
  induction fuel generalizing k zeroBits bitset with
  | zero => rfl
  | succ fuel ih =>
    have hk := k.toNat_lt
    have hlt : k.toNat < size := by omega
    have hget := getElem?_eq_getElem (l := bitset) (i := k.toNat) (by omega)
    rw [decayLoop, if_pos hlt]
    split_ifs
    · rw [hget]
      exact ih _ _ _ (by rw [length_set]; exact hlen)
    · exact ih _ _ _ hlen

lemma length_decayLoop {fuel : ℕ} {k : UInt16} {zeroBits : ℕ} {r : List ℕ × ℕ}
    (h : decayLoop size d p fuel k zeroBits bitset = .ok r) : r.1.length = bitset.length := by
  induction fuel generalizing k zeroBits bitset with
  | zero => cases h
  | succ fuel ih =>
    rw [decayLoop] at h
    split_ifs at h
    · split at h
      · cases h
      · rw [ih h, length_set]
    · exact ih h
    · cases h
      rfl

end

section

variable {bloom : DecayingBloom}

lemma decay_eq (hd : bloom.d = 8 ∨ bloom.d = 16) (hlen : bloom.bitset.length = bloom.size)
    (hsize : bloom.size < 65536) {fuel : ℕ} (hfuel : bloom.size < fuel) :
    decay fuel bloom = .ok (decayed bloom) := by
  have hloop := decayLoop_eq (p := bloom.p) hd hsize bloom.bitset (hlen ▸ hfuel) 0 0 [] rfl
    (by simpa using hlen)
  rw [nil_append] at hloop
  simp [decay, hloop, decayed, bind, Except.bind, pure, Except.pure]

lemma decay_outOfFuel (hlen : bloom.bitset.length = bloom.size) (hsize : 65536 ≤ bloom.size)
    (fuel : ℕ) : decay fuel bloom = .error .outOfFuel := by
  rw [decay, decayLoop_outOfFuel hsize fuel 0 0 bloom.bitset hlen.ge]
  rfl

end

inductive Op
  | add (id : Dhkey)
  | decay
deriving DecidableEq

def apply (fuel : ℕ) (bloom : DecayingBloom) : Op → Except DecayFault DecayingBloom
  | .add id => (add bloom id).mapError .filter
  | .decay => decay fuel bloom

def history (fuel size d p : ℕ) (ops : List Op) : Except DecayFault DecayingBloom :=
  ops.foldlM (apply fuel) (create size d p)

def WithinCapacity (fuel size d p : ℕ) (ops : List Op) : Prop :=
  ∀ before id, before ++ [.add id] <+: ops →
    ∀ bloom, history fuel size d p before = .ok bloom → bloom.free_items ≠ 0

def decays (ops : List Op) : ℕ := ops.count .decay

/-- The shape of a filter, which no operation changes, and its capacity and cells. -/
structure Geometry (size d p : ℕ) (bloom : DecayingBloom) : Prop where
  size_eq : bloom.size = size
  d_eq : bloom.d = d
  p_eq : bloom.p = p
  length : bloom.bitset.length = size
  free : bloom.free_items ≤ size * d / 16
  cells : ∀ c ∈ bloom.bitset, c < 2 ^ d

section

variable {size d p fuel : ℕ} {bloom bloom' : DecayingBloom} {id : Dhkey}

lemma setBits_getElem? {d : ℕ} {ps bitset' : List ℕ}
    (h : setBits d ps bitset = .ok bitset') (pos : ℕ) : bitset'[pos]? =
      if pos ∈ ps then bitset[pos]?.map (· ||| 2 ^ (d - 1)) else bitset[pos]? := by
  induction ps generalizing bitset with
  | nil =>
    cases h
    simp
  | cons q ps ih =>
    rw [setBits] at h
    cases hq : bitset[q]? with
    | none =>
      rw [hq] at h
      cases h
    | some current =>
      rw [hq] at h
      rw [ih h]
      by_cases heq : q = pos
      · subst heq
        -- a bit that is set twice is set
        have htwice : current ||| 2 ^ (d - 1) ||| 2 ^ (d - 1) = current ||| 2 ^ (d - 1) := by
          rw [Nat.or_assoc, Nat.or_self]
        rw [getElem?_set_self (List.getElem?_eq_some_iff.1 hq).1, hq, map_some,
          map_some, htwice, ite_self, if_pos mem_cons_self]
      · rw [getElem?_set_ne heq]
        simp [Ne.symm heq]

lemma length_setBits {d : ℕ} {ps bitset' : List ℕ}
    (h : setBits d ps bitset = .ok bitset') : bitset'.length = bitset.length := by
  induction ps generalizing bitset with
  | nil =>
    cases h
    rfl
  | cons q ps ih =>
    rw [setBits] at h
    split at h
    · cases h
    · rw [ih h, length_set]

lemma testBits_of_zero {ps : List ℕ} (hps : ps ≠ [])
    (h : ∀ pos ∈ ps, bitset[pos]? = some 0) : testBits ps bitset = .ok false := by
  cases ps with
  | nil => exact absurd rfl hps
  | cons pos ps => simp [testBits, h pos mem_cons_self]

lemma Geometry.create (size d p : ℕ) : Geometry size d p (create size d p) := by
  refine ⟨rfl, rfl, rfl, length_replicate, Nat.mod_le _ _, ?_⟩
  intro c hc
  obtain rfl : c = 0 := eq_of_mem_replicate hc
  exact Nat.two_pow_pos d

variable (h : Geometry size d p bloom)
include h

lemma Geometry.pos (hfree : bloom.free_items ≠ 0) : 0 < size := by
  obtain rfl | hpos := Nat.eq_zero_or_pos size
  · have := h.free
    omega
  · exact hpos

lemma Geometry.allocated (hd : d = 8 ∨ d = 16) (hpos : 0 < size) : Allocated bloom :=
  ⟨h.size_eq ▸ hpos, (h.length.trans h.size_eq.symm).ge, h.d_eq ▸ hd⟩

lemma Geometry.after_add (hd : d = 8 ∨ d = 16) (hadd : Decaying.add bloom id = .ok bloom') :
    Geometry size d p bloom' ∧ ∀ pos, bloom'.bitset[pos]? =
        if pos ∈ positions id size then bloom.bitset[pos]?.map (· ||| 2 ^ (d - 1))
        else bloom.bitset[pos]? := by
  have hw : bloom.d = 8 ∨ bloom.d = 16 := h.d_eq ▸ hd
  rw [Decaying.add, if_pos hw] at hadd
  split_ifs at hadd
  obtain ⟨bitset', hset, hb⟩ := bind_eq_ok hadd
  cases hb
  rw [h.d_eq, h.size_eq] at hset
  have hget := setBits_getElem? hset
  refine ⟨⟨h.size_eq, h.d_eq, h.p_eq, ?_, (sub_le _ _).trans h.free, ?_⟩, hget⟩
  · exact (length_setBits hset).trans h.length
  · intro c hc
    obtain ⟨pos, hpos⟩ := mem_iff_getElem?.1 hc
    rw [hget] at hpos
    split_ifs at hpos
    · obtain ⟨current, hcur, rfl⟩ := map_eq_some_iff.1 hpos
      have hbit : 2 ^ (d - 1) < 2 ^ d := Nat.pow_lt_pow_right (by omega) (by omega)
      exact or_lt_two_pow (h.cells current (mem_of_getElem? hcur)) hbit
    · exact h.cells c (mem_of_getElem? hpos)

lemma Geometry.after_decay : Geometry size d p (decayed bloom) := by
  have hcells : ∀ c ∈ bloom.bitset.map (· >>> bloom.p), c < 2 ^ d := by
    intro c hc
    obtain ⟨current, hcur, rfl⟩ := mem_map.1 hc
    exact (shiftRight_le _ _).trans_lt (h.cells current hcur)
  have hfree : (bloom.bitset.map (· >>> bloom.p)).countP (· = 0) ≤ size := by
    refine countP_le_length.trans ?_
    rw [length_map, h.length]
  refine ⟨h.size_eq, h.d_eq, h.p_eq, ?_, ?_, hcells⟩
  · simpa [Decay.decayed] using h.length
  · calc (bloom.bitset.map (· >>> bloom.p)).countP (· = 0) * bloom.d % 2 ^ 32 / 16 % 2 ^ 16
        ≤ (bloom.bitset.map (· >>> bloom.p)).countP (· = 0) * bloom.d % 2 ^ 32 / 16 :=
          Nat.mod_le _ _
      _ ≤ (bloom.bitset.map (· >>> bloom.p)).countP (· = 0) * bloom.d / 16 :=
          Nat.div_le_div_right (Nat.mod_le _ _)
      _ ≤ size * d / 16 := by
          rw [h.d_eq]
          exact Nat.div_le_div_right (Nat.mul_le_mul_right d hfree)

lemma Geometry.after_apply (hd : d = 8 ∨ d = 16) (hsize : size < 65536) (hfuel : size < fuel)
    {op : Op} (ha : apply fuel bloom op = .ok bloom') : Geometry size d p bloom' ∧
      ((∃ id, op = .add id ∧ ∀ pos, bloom'.bitset[pos]? =
        if pos ∈ positions id size then bloom.bitset[pos]?.map (· ||| 2 ^ (d - 1))
        else bloom.bitset[pos]?) ∨
      op = .decay ∧ bloom'.bitset = bloom.bitset.map (· >>> p)) := by
  cases op with
  | add id =>
    obtain ⟨hgeo, hcells⟩ := h.after_add hd (mapError_eq_ok ha)
    exact ⟨hgeo, .inl ⟨id, rfl, hcells⟩⟩
  | decay =>
    have hdecay : decay fuel bloom = .ok (decayed bloom) :=
      decay_eq (h.d_eq ▸ hd) (h.length.trans h.size_eq.symm) (h.size_eq ▸ hsize) (h.size_eq ▸ hfuel)
    obtain rfl : decayed bloom = bloom' := Except.ok.inj (hdecay.symm.trans ha)
    refine ⟨h.after_decay, .inr ⟨rfl, ?_⟩⟩
    rw [decayed, h.p_eq]

end

section

variable {size d p fuel : ℕ} (hd : d = 8 ∨ d = 16) (hsize : size < 65536) (hfuel : size < fuel)
  {bloom bloom' : DecayingBloom} {ops : List Op}

include hd hsize hfuel

lemma history_ok (hcap : WithinCapacity fuel size d p ops) :
    ∃ bloom, history fuel size d p ops = .ok bloom ∧ Geometry size d p bloom := by
  refine foldlM_inv_reached (fun _ bloom => Geometry size d p bloom) (.create size d p) ?_
  intro before bloom op hb hrun hgeo
  have hstep : ∃ bloom', apply fuel bloom op = .ok bloom' := by
    cases op with
    | add id =>
      have hfree := hcap before id hb bloom hrun
      have hal := hgeo.allocated hd (hgeo.pos hfree)
      obtain ⟨bloom', hadd, -⟩ := add_spec hal (pos_of_ne_zero hfree) id
      exact ⟨bloom', by rw [apply, hadd]; rfl⟩
    | decay =>
      exact ⟨decayed bloom, decay_eq (hgeo.d_eq ▸ hd) (hgeo.length.trans hgeo.size_eq.symm)
        (hgeo.size_eq ▸ hsize) (hgeo.size_eq ▸ hfuel)⟩
  obtain ⟨bloom', ha⟩ := hstep
  exact ⟨bloom', ha, (hgeo.after_apply hd hsize hfuel ha).1⟩

section

variable (h : Geometry size d p bloom) (hops : ops.foldlM (apply fuel) bloom = .ok bloom')
include h hops

lemma shifted_le {pos c : ℕ} (hc : bloom.bitset[pos]? = some c) :
    ∃ c', bloom'.bitset[pos]? = some c' ∧ c >>> (decays ops * p) ≤ c' := by
  have hkept := foldlM_kept
    (fun before b => Geometry size d p b ∧
      ∃ c', b.bitset[pos]? = some c' ∧ c >>> (decays before * p) ≤ c')
    ⟨h, c, hc, by simp [decays]⟩ ?_ hops
  · exact hkept.2
  intro before b op b' ⟨hgeo, c', hget, hle⟩ ha
  obtain ⟨hgeo', ⟨id, rfl, hcells⟩ | ⟨rfl, hcells⟩⟩ := hgeo.after_apply hd hsize hfuel ha
  · have hdec : decays (before ++ [.add id]) = decays before := by simp [decays]
    refine ⟨hgeo', ?_⟩
    rw [hdec, hcells, hget]
    split_ifs
    · exact ⟨c' ||| 2 ^ (d - 1), rfl, hle.trans left_le_or⟩
    · exact ⟨c', rfl, hle⟩
  · have hdec : decays (before ++ [.decay]) * p = decays before * p + p := by
      simp [decays, succ_mul]
    refine ⟨hgeo', c' >>> p, by rw [hcells, getElem?_map, hget]; rfl, ?_⟩
    rw [hdec, shiftRight_add, shiftRight_eq_div_pow _ p, shiftRight_eq_div_pow _ p]
    exact Nat.div_le_div_right hle

lemma le_shifted (hdecay : ∀ op ∈ ops, op = .decay) :
    ∀ c ∈ bloom'.bitset, c ≤ (2 ^ d - 1) >>> (ops.length * p) := by
  have hkept := foldlM_kept
    (fun before b => Geometry size d p b ∧ ((∀ op ∈ before, op = .decay) →
      ∀ c ∈ b.bitset, c ≤ (2 ^ d - 1) >>> (before.length * p)))
    ⟨h, fun _ c hc => ?_⟩ ?_ hops
  · exact hkept.2 hdecay
  · have := h.cells c hc
    simp
    omega
  intro before b op b' ⟨hgeo, hle⟩ ha
  obtain ⟨hgeo', ⟨id, rfl, hcells⟩ | ⟨rfl, hcells⟩⟩ := hgeo.after_apply hd hsize hfuel ha
  · refine ⟨hgeo', fun hall => ?_⟩
    cases hall (.add id) (by simp)
  · refine ⟨hgeo', fun hall c hc => ?_⟩
    rw [hcells] at hc
    obtain ⟨current, hcur, rfl⟩ := mem_map.1 hc
    have hprev := hle (fun op hop => hall op (by simp [hop])) current hcur
    have hlen : (before ++ [Op.decay]).length * p = before.length * p + p := by
      simp [succ_mul]
    rw [hlen, shiftRight_add, shiftRight_eq_div_pow _ p, shiftRight_eq_div_pow _ p]
    exact Nat.div_le_div_right hprev

end

lemma history_geometry (hops : history fuel size d p ops = .ok bloom) : Geometry size d p bloom :=
  foldlM_kept (fun _ b => Geometry size d p b) (.create size d p)
    (fun _ _ _ _ hgeo ha => (hgeo.after_apply hd hsize hfuel ha).1) hops

lemma history_split {before after : List Op} {id : Dhkey}
    (hops : history fuel size d p (before ++ .add id :: after) = .ok bloom) :
    ∃ b b', Geometry size d p b ∧ 0 < size ∧ add b id = .ok b' ∧
      after.foldlM (apply fuel) b' = .ok bloom := by
  rw [history, foldlM_append] at hops
  obtain ⟨b, hb, hops⟩ := bind_eq_ok hops
  obtain ⟨b', hadd, ha⟩ := bind_eq_ok hops
  have hgeo : Geometry size d p b := history_geometry hd hsize hfuel hb
  have hadd' := mapError_eq_ok hadd
  have hfree : b.free_items ≠ 0 := by
    intro hzero
    rw [Decaying.add, if_pos hzero] at hadd'
    cases hadd'
  exact ⟨b, b', hgeo, hgeo.pos hfree, hadd', ha⟩

lemma check_of_young {before after : List Op} {id : Dhkey}
    (hops : history fuel size d p (before ++ .add id :: after) = .ok bloom)
    (hage : decays after ≤ (d - 1) / p) : check bloom id = .ok true := by
  have hgeo := history_geometry hd hsize hfuel hops
  obtain ⟨b, b', hb, hpos, hadd, ha⟩ := history_split hd hsize hfuel hops
  obtain ⟨hb', hcells⟩ := hb.after_add hd hadd
  have hshift : decays after * p ≤ d - 1 :=
    (Nat.mul_le_mul_right p hage).trans (div_mul_le_self _ _)
  have hbit : 0 < 2 ^ (d - 1) >>> (decays after * p) := by
    rw [shiftRight_eq_div_pow]
    exact Nat.div_pos (Nat.pow_le_pow_right (by omega) hshift) (Nat.two_pow_pos _)
  rw [check_eq_true_iff (hgeo.allocated hd hpos), hgeo.size_eq]
  intro pos hmem
  have hlt : pos < b.bitset.length := by
    have := positions_lt (hb.size_eq ▸ hpos) id pos (hb.size_eq ▸ hmem)
    rwa [hb.size_eq, ← hb.length] at this
  have hcell := hcells pos
  rw [if_pos hmem, getElem?_eq_getElem hlt, map_some] at hcell
  obtain ⟨c, hc, hle⟩ := shifted_le hd hsize hfuel hb' ha hcell
  refine ⟨c, hc, ?_⟩
  have hmono : 2 ^ (d - 1) >>> (decays after * p) ≤
      (b.bitset[pos] ||| 2 ^ (d - 1)) >>> (decays after * p) := by
    rw [shiftRight_eq_div_pow, shiftRight_eq_div_pow]
    exact Nat.div_le_div_right Nat.right_le_or
  omega

lemma check_of_old (hp : 0 < p) {before after : List Op} {last : Dhkey}
    (hops : history fuel size d p (before ++ .add last :: after) = .ok bloom)
    (hdecay : ∀ op ∈ after, op = .decay) (hage : (d - 1) / p + 1 ≤ after.length) (id : Dhkey) :
    check bloom id = .ok false := by
  have hgeo := history_geometry hd hsize hfuel hops
  obtain ⟨b, b', hb, hpos, hadd, ha⟩ := history_split hd hsize hfuel hops
  have hcells := le_shifted hd hsize hfuel (hb.after_add hd hadd).1 ha hdecay
  have hshift : d ≤ after.length * p := by
    have hlt : d - 1 < ((d - 1) / p + 1) * p := by
      rw [mul_comm]
      exact lt_mul_div_succ (d - 1) hp
    have := Nat.mul_le_mul_right p hage
    omega
  have hzero : (2 ^ d - 1) >>> (after.length * p) = 0 := by
    rw [shiftRight_eq_div_pow]
    apply div_eq_of_lt
    have := Nat.two_pow_pos d
    have := Nat.pow_le_pow_right (n := 2) (by omega) hshift
    omega
  rw [check, if_pos (hgeo.d_eq ▸ hd), hgeo.size_eq]
  apply testBits_of_zero
  · simp [positions]
  intro pos hmem
  have hlt : pos < bloom.bitset.length := by
    have := positions_lt (hgeo.size_eq ▸ hpos) id pos (hgeo.size_eq ▸ hmem)
    rwa [hgeo.size_eq, ← hgeo.length] at this
  have hle := hcells _ (getElem_mem hlt)
  rw [hzero] at hle
  rw [getElem?_eq_getElem hlt, le_zero.1 hle]

end

/-- For cells of 8 or 16 bits and additions within the capacity, an id is found while its last
addition is at most (d - 1) / p decays ago, and none is found when the last addition of all is
longer ago. -/
theorem found_while_young (size d p : ℕ) (hd : d = 8 ∨ d = 16) (hp : 1 ≤ p ∧ p ≤ 16)
    (hsize : size < 65536) (fuel : ℕ) (hfuel : size < fuel) (ops : List Op)
    (hcap : WithinCapacity fuel size d p ops) :
    ∃ bloom, history fuel size d p ops = .ok bloom ∧
      (∀ before id after, ops = before ++ .add id :: after → decays after ≤ (d - 1) / p →
        check bloom id = .ok true) ∧
      (∀ before last after, ops = before ++ .add last :: after → (∀ op ∈ after, op = .decay) →
        (d - 1) / p + 1 ≤ after.length → ∀ id, check bloom id = .ok false) := by
  obtain ⟨bloom, hops, -⟩ := history_ok hd hsize hfuel hcap
  refine ⟨bloom, hops, ?_, ?_⟩
  · rintro before id after rfl hage
    exact check_of_young hd hsize hfuel hops hage
  · rintro before last after rfl hdecay hage id
    exact check_of_old hd hsize hfuel hp.1 hops hdecay hage id

theorem found_while_young_last_bit :
    ∃ bloom, history 100 64 8 7 [.add Dhkey.half, .decay] = .ok bloom ∧
      check bloom Dhkey.half = .ok true := by
  have hcap : WithinCapacity 100 64 8 7 [.add Dhkey.half, .decay] := by
    intro before id hb bloom hrun
    cases before with
    | nil =>
      cases hrun
      decide
    | cons op before =>
      have hsnd := (cons_prefix_cons.1 hb).2
      cases before <;> simp at hsnd
  obtain ⟨bloom, hrun, hy, -⟩ :=
    found_while_young 64 8 7 (by decide) (by decide) (by decide) 100 (by decide) _ hcap
  exact ⟨bloom, hrun, hy [] Dhkey.half [.decay] rfl (by decide)⟩

end Neuropil.Bloom.Decay
