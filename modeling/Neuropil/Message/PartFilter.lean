import Neuropil.Bloom.Decay

namespace Neuropil.Message.PartFilter

open Nat Bloom Lib.Fault Bloom.Decaying Bloom.Decay

def cubeRoot (n : ℕ) : ℕ := Nat.findGreatest (fun k => k ^ 3 ≤ n) n

def filterSize : ℕ := 8192

def newFilter : DecayingBloom := create filterSize 16 1

def peerNodes (routes neighbors : ℕ) : ℕ := (routes + neighbors) % 2 ^ 16

def sizeModifier (peers : ℕ) : ℕ := cubeRoot peers % 2 ^ 8

/-- `_np_standard_bloom_clear`, which is the `clear_cb` of the filter: `_size / 8 * _d` bytes, as
cells of `_d` bits. -/
def clear (bloom : DecayingBloom) : DecayingBloom :=
  { bloom with
    bitset := List.replicate (bloom.size / 8 * bloom.d * 8 / bloom.d) 0
    free_items := bloom.size * bloom.d / 16 % 2 ^ 16 }

def resize (size : ℕ) (bloom : DecayingBloom) : DecayingBloom :=
  if bloom.size ≠ size then clear { bloom with size := size } else bloom

def sizeAdjustment (modifier : ℕ) : ℕ := if 0 < modifier then modifier * filterSize else filterSize

def adjust (routes neighbors : ℕ) (bloom : DecayingBloom) : DecayingBloom :=
  let modifier := sizeModifier (peerNodes routes neighbors)
  { resize (sizeAdjustment modifier) bloom with p := if 1 < modifier then modifier else 1 }

def cleanup (fuel routes neighbors : ℕ) (bloom : DecayingBloom) :
    Except DecayFault DecayingBloom := do
  let bloom ← decay fuel bloom
  return adjust routes neighbors bloom

inductive Job
  | add (id : Dhkey)
  | cleanup (routes neighbors : ℕ)

def work (fuel : ℕ) (bloom : DecayingBloom) : Job → Except DecayFault DecayingBloom
  | .add id => (add bloom id).mapError .filter
  | .cleanup routes neighbors => cleanup fuel routes neighbors bloom

structure Shaped (bloom : DecayingBloom) : Prop where
  d_eq : bloom.d = 16
  length : bloom.bitset.length = bloom.size

lemma le_cubeRoot_iff (k n : ℕ) : k ≤ cubeRoot n ↔ k ^ 3 ≤ n := by
  have hspec : cubeRoot n ^ 3 ≤ n :=
    findGreatest_spec (P := fun k => k ^ 3 ≤ n) (zero_le n) (zero_le n)
  constructor
  · intro h
    exact (Nat.pow_le_pow_left h 3).trans hspec
  · intro h
    exact le_findGreatest ((le_self_pow (by omega) k).trans h) h

lemma peerNodes_lt (routes neighbors : ℕ) : peerNodes routes neighbors < 65536 :=
  mod_lt _ (by decide)

lemma eight_le_sizeModifier_iff {peers : ℕ} (h : peers < 65536) :
    8 ≤ sizeModifier peers ↔ 512 ≤ peers := by
  have hsm : cubeRoot peers < 256 := by
    by_contra hle
    have := (le_cubeRoot_iff 256 peers).1 (by omega)
    omega
  have hb : sizeModifier peers = cubeRoot peers := mod_eq_of_lt hsm
  rw [hb]
  exact le_cubeRoot_iff 8 peers

lemma sizeAdjustment_lt_iff (modifier : ℕ) : sizeAdjustment modifier < 65536 ↔ modifier < 8 := by
  unfold sizeAdjustment filterSize
  split_ifs <;> omega

lemma eight_dvd_sizeAdjustment (modifier : ℕ) : 8 ∣ sizeAdjustment modifier := by
  unfold sizeAdjustment filterSize
  split_ifs <;> omega

lemma sizeAdjustment_pos (modifier : ℕ) : 0 < sizeAdjustment modifier := by
  unfold sizeAdjustment filterSize
  split_ifs <;> omega

section

variable {bloom bloom' : DecayingBloom} {fuel : ℕ}

lemma size_resize (size : ℕ) (bloom : DecayingBloom) : (resize size bloom).size = size := by
  unfold resize
  split_ifs with h
  · rfl
  · exact not_not.1 h

lemma size_adjust (routes neighbors : ℕ) (bloom : DecayingBloom) :
    (adjust routes neighbors bloom).size =
      sizeAdjustment (sizeModifier (peerNodes routes neighbors)) :=
  size_resize _ bloom

section

variable (h : Shaped bloom)
include h

lemma Shaped.resize {size : ℕ} (hdvd : 8 ∣ size) : Shaped (resize size bloom) := by
  have hd := h.d_eq
  unfold PartFilter.resize
  split_ifs with hsize
  · refine ⟨hd, ?_⟩
    simp only [clear, hd, List.length_replicate]
    omega
  · exact h

lemma Shaped.adjust (routes neighbors : ℕ) : Shaped (adjust routes neighbors bloom) := by
  have hres := h.resize (eight_dvd_sizeAdjustment (sizeModifier (peerNodes routes neighbors)))
  exact ⟨hres.d_eq, hres.length⟩

lemma Shaped.add {id : Dhkey} (hadd : Decaying.add bloom id = .ok bloom') : Shaped bloom' := by
  have hw : bloom.d = 8 ∨ bloom.d = 16 := .inr h.d_eq
  rw [Decaying.add, if_pos hw] at hadd
  split_ifs at hadd
  obtain ⟨bitset, hset, hb⟩ := bind_eq_ok hadd
  cases hb
  exact ⟨h.d_eq, (length_setBits hset).trans h.length⟩

lemma Shaped.decay (hd : Decay.decay fuel bloom = .ok bloom') : Shaped bloom' := by
  obtain ⟨r, hloop, hb⟩ := bind_eq_ok hd
  cases hb
  exact ⟨h.d_eq, (length_decayLoop hloop).trans h.length⟩

lemma Shaped.work {job : Job} (hw : work fuel bloom job = .ok bloom') : Shaped bloom' := by
  cases job with
  | add id => exact h.add (mapError_eq_ok hw)
  | cleanup routes neighbors =>
    obtain ⟨b, hd, hb⟩ := bind_eq_ok hw
    cases hb
    exact (h.decay hd).adjust routes neighbors

end

lemma shaped_newFilter : Shaped newFilter := ⟨rfl, List.length_replicate⟩

lemma shaped_of_work {jobs : List Job} (h : jobs.foldlM (work fuel) newFilter = .ok bloom) :
    Shaped bloom :=
  foldlM_kept (fun _ b => Shaped b) shaped_newFilter (fun _ _ _ _ hb => hb.work) h

lemma decay_ends_iff (h : Shaped bloom) :
    (∃ enough, ∀ fuel, enough ≤ fuel → Decay.decay fuel bloom = .ok (decayed bloom)) ↔
      bloom.size < 65536 := by
  constructor
  · rintro ⟨enough, he⟩
    by_contra hsize
    have hruns := decay_outOfFuel h.length (not_lt.1 hsize) enough
    rw [he enough le_rfl] at hruns
    cases hruns
  · intro hsize
    exact ⟨bloom.size + 1, fun fuel hfuel => decay_eq (.inr h.d_eq) h.length hsize hfuel⟩

/-- In every process, the size that the cleanup chooses lets the next decay end and visit every
cell, with every position in the filter's memory, exactly if there are fewer than 512 peers. -/
theorem adjusted_filter_decays_iff (fuel : ℕ) (jobs : List Job) (bloom : DecayingBloom)
    (hjobs : jobs.foldlM (work fuel) newFilter = .ok bloom) (routes neighbors : ℕ) :
    ((∃ enough, ∀ fuel, enough ≤ fuel →
        Decay.decay fuel (adjust routes neighbors bloom) =
          .ok (decayed (adjust routes neighbors bloom))) ∧
      ∀ id, ∀ pos ∈ positions id (adjust routes neighbors bloom).size,
        pos < (adjust routes neighbors bloom).bitset.length) ↔
      peerNodes routes neighbors < 512 := by
  have hsha := (shaped_of_work hjobs).adjust routes neighbors
  have hsize := size_adjust routes neighbors bloom
  have hmod := eight_le_sizeModifier_iff (peerNodes_lt routes neighbors)
  have hins : ∀ id, ∀ pos ∈ positions id (adjust routes neighbors bloom).size,
      pos < (adjust routes neighbors bloom).bitset.length := by
    intro id
    rw [hsha.length]
    exact positions_lt (hsize ▸ sizeAdjustment_pos _) id
  have he := decay_ends_iff hsha
  rw [hsize, sizeAdjustment_lt_iff] at he
  rw [he]
  constructor
  · rintro ⟨hlt, -⟩
    omega
  · intro hpeers
    exact ⟨by omega, hins⟩

end

theorem large_filter_decays_forever :
    peerNodes 512 0 = 512 ∧ (adjust 512 0 newFilter).size = 65536 ∧
      ∀ fuel, Decay.decay fuel (adjust 512 0 newFilter) = .error .outOfFuel := by
  have hsize : (adjust 512 0 newFilter).size = 65536 := by
    have hroot : cubeRoot 512 = 8 := by
      have hle := (le_cubeRoot_iff 8 512).2 (by decide)
      have hlt : ¬ 9 ≤ cubeRoot 512 := fun h => absurd ((le_cubeRoot_iff 9 512).1 h) (by decide)
      omega
    have hpeers : peerNodes 512 0 = 512 := rfl
    rw [size_adjust, hpeers, sizeModifier, hroot]
    decide
  have hsha := shaped_newFilter.adjust 512 0
  exact ⟨rfl, hsize, decay_outOfFuel hsha.length hsize.ge⟩

theorem adjusted_filter_decays_one_peer :
    ∃ enough, ∀ fuel, enough ≤ fuel →
      Decay.decay fuel (adjust 0 1 newFilter) = .ok (decayed (adjust 0 1 newFilter)) :=
  ((adjusted_filter_decays_iff 0 [] newFilter rfl 0 1).2 (by decide)).1

end Neuropil.Message.PartFilter
