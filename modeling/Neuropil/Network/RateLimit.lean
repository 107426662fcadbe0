import Neuropil.Bloom.Counting
import Neuropil.Lib.Fault
import Neuropil.Lib.Run

namespace Neuropil.Network.RateLimit

open Function List Nat Lib.Run Bloom.Counting
open Bloom.Filter (FilterFault)

def filterSize : ℕ := 8192

/-- The filter of incoming packets, with the number of packets of each sender accepted since its
last reset, the highest of these numbers, and the packets accepted that no reset has given back: a
reset gives back the highest number, rounded down to an even one. -/
structure Limiter where
  filter : CountingBloom
  accepted : Dhkey → ℕ
  most : ℕ
  spent : ℕ

inductive Event
  | packet (searchKey : Dhkey)
  | reset

def accept (s : Limiter) (searchKey : Dhkey) : Limiter :=
  { s with
    accepted := update s.accepted searchKey (s.accepted searchKey + 1)
    most := max s.most (s.accepted searchKey + 1)
    spent := s.spent + 1 }

/-- The limit in `_np_network_read`, and `__np_network_module_periodic_capacity_reset`. -/
def handle (maxMsgsPerSec : ℕ) (s : Limiter) : Event → Except FilterFault Limiter
  | .packet searchKey =>
    if maxMsgsPerSec = 0 then .ok (accept s searchKey)
    else if checkR filterSize s.filter searchKey > maxMsgsPerSec then .ok s
    else do
      let filter ← add filterSize s.filter searchKey
      return { accept s searchKey with filter := filter }
  | .reset =>
    .ok
      { filter := if maxMsgsPerSec = 0 then s.filter else clearR filterSize s.filter
        accepted := fun _ => 0
        most := 0
        spent := s.spent - 2 * (s.most / 2) }

def step (maxMsgsPerSec : ℕ) (s : Except FilterFault Limiter) (e : Event) :
    Except FilterFault Limiter :=
  s.bind fun s => handle maxMsgsPerSec s e

def start : Limiter := ⟨create filterSize, fun _ => 0, 0, 0⟩

/-- The process goes on, and of each sender at most one packet above the limit was accepted since
the last reset. -/
def WithinLimit (maxMsgsPerSec : ℕ) (events : List Event) : Prop :=
  ∃ s, run (step maxMsgsPerSec) (.ok start) events = .ok s ∧
    ∀ searchKey, s.accepted searchKey ≤ maxMsgsPerSec + 1

def senders (events : List Event) : List Dhkey :=
  events.filterMap fun
    | .packet searchKey => some searchKey
    | .reset => none

/-- No two senders share a position. -/
def CollisionFree (events : List Event) : Prop :=
  ∀ a ∈ senders events, ∀ b ∈ senders events, a ≠ b →
    ∀ j k, position filterSize a j ≠ position filterSize b k

/-- A packet of a sender within the limit comes in while fewer than 4096 packets are accepted and
not given back. -/
def HasRoom (maxMsgsPerSec : ℕ) : Except FilterFault Limiter → Event → Prop
  | .ok s, .packet searchKey => s.accepted searchKey ≤ maxMsgsPerSec → s.spent < 4096
  | _, _ => True

instance decidableHasRoom (maxMsgsPerSec : ℕ) :
    (s : Except FilterFault Limiter) → (e : Event) → Decidable (HasRoom maxMsgsPerSec s e)
  | .ok s, .packet searchKey => inferInstanceAs
      (Decidable (s.accepted searchKey ≤ maxMsgsPerSec → s.spent < 4096))
  | .ok _, .reset => isTrue trivial
  | .error _, _ => isTrue trivial

def highest (limit : ℕ) : ℕ := min 254 (limit + 16)

def cell (filter : CountingBloom) (id : Dhkey) (k : Fin 8) : ℕ :=
  (filter.bitset (position filterSize id k)).toNat

/-- The counts of a sender: they stay below the last value, and each is at least the number of
packets that were accepted. -/
structure Counts (s : Limiter) (limit : ℕ) (id : Dhkey) : Prop where
  le : ∀ k, cell s.filter id k ≤ highest limit
  ge : ∀ k, s.accepted id ≤ cell s.filter id k
  fresh : s.accepted id = 0 →
    ∀ k, cell s.filter id k ≤ highest limit / 2
  limit : s.accepted id ≤ limit + 1

/-- Only the senders are counted, and the free items and the packets spent are together the capacity
at least. -/
structure Filled (s : Limiter) (limit : ℕ) (ids : List Dhkey) : Prop where
  counts : ∀ id ∈ ids, Counts s limit id
  unused : ∀ pos, pos ∉ ids.flatMap (positions filterSize) → s.filter.bitset pos = 0
  others : ∀ id, id ∉ ids → s.accepted id = 0
  most : ∃ pos < filterSize, s.most ≤ (s.filter.bitset pos).toNat
  free_le : s.filter.free_items.toNat ≤ 4096
  free_ge : 4096 ≤ s.filter.free_items.toNat + s.spent

section

variable {limit : ℕ} {s s' : Limiter} {id other : Dhkey} {ids : List Dhkey}

lemma position_lt (id : Dhkey) (k : Fin 8) : position filterSize id k < filterSize := by
  have hlt : (id.t k).toNat % filterSize < filterSize := mod_lt _ (by decide)
  rw [position, localPos_eq (hlt.trans (by decide))]
  exact hlt

lemma checkR_ge {filter : CountingBloom}
    (h : ∀ k, 0 < cell filter id k ∧
      cell filter id k < 255) (k : Fin 8) :
    cell filter id k ≤ checkR filterSize filter id := by
  refine (le_checkFrom_iff 13 (fun j _ => ?_) _ 0).2 (.inr ⟨k, mem_finRange k, le_rfl⟩)
  rintro (hzero | hlast)
  · exact (h j).1.ne' (congrArg UInt8.toNat hzero)
  · exact (h j).2.ne (congrArg UInt8.toNat hlast)

lemma filled_start (limit : ℕ) (ids : List Dhkey) : Filled start limit ids :=
  { counts := fun _ _ => ⟨fun _ => zero_le _, fun _ => le_rfl, fun _ _ => zero_le _, zero_le _⟩
    unused := fun _ _ => rfl
    others := fun _ _ => rfl
    most := ⟨0, by decide, le_rfl⟩
    free_le := by decide
    free_ge := by decide }

lemma Counts.refused (h : Counts s limit id) (hover : limit < s.accepted id) :
    checkR filterSize s.filter id > limit := by
  have hcell : ∀ k, 0 < cell s.filter id k ∧
      cell s.filter id k < 255 := by
    intro k
    have hge := h.ge k
    have hle := h.le k
    unfold highest at hle
    omega
  exact hover.trans_le ((h.ge 0).trans (checkR_ge hcell 0))

variable {filter : CountingBloom}

section

variable (h : Counts s limit id)
include h

section

variable (hload : ¬ checkR filterSize s.filter id > limit)
include hload

lemma Counts.le_limit (hne : s.accepted id ≠ 0) (k : Fin 8) :
    cell s.filter id k ≤ limit := by
  refine le_trans (checkR_ge (fun j => ?_) k) (not_lt.1 hload)
  have hge := h.ge j
  have hle := h.le j
  unfold highest at hle
  omega

lemma Counts.add_le
    (hroom : ∀ k, limit + share filterSize id (position filterSize id k) ≤ 254)
    (k : Fin 8) : cell s.filter id k +
      share filterSize id (position filterSize id k) ≤ highest limit := by
  have hshare := share_le filterSize id (position filterSize id k)
  by_cases hzero : s.accepted id = 0
  · have hfr := h.fresh hzero k
    unfold highest at hfr ⊢
    omega
  · have hle := h.le_limit hload hzero k
    have hmax := hroom k
    unfold highest
    omega

end

lemma counts_accepted (hload : ¬ checkR filterSize s.filter id > limit)
    (hcount : ∀ k, cell filter id k =
      cell s.filter id k +
        share filterSize id (position filterSize id k))
    (hroom : ∀ k, limit + share filterSize id (position filterSize id k) ≤ 254) :
    Counts { accept s id with filter := filter } limit id := by
  have ha : (accept s id).accepted id = s.accepted id + 1 := update_self ..
  refine ⟨fun k => ?_, fun k => ?_, fun hzero => ?_, ?_⟩
  · rw [hcount]
    exact h.add_le hload hroom k
  · have hge := h.ge k
    have hpos := share_pos filterSize id k
    rw [ha, hcount]
    omega
  · rw [ha] at hzero
    cases hzero
  · rw [ha]
    by_cases hzero : s.accepted id = 0
    · omega
    · have hle := h.le_limit hload hzero 0
      have hge := h.ge 0
      omega

lemma counts_other (hne : id ≠ other)
    (hpos : ∀ j k, position filterSize other j ≠ position filterSize id k)
    (hfil : ∀ pos, (filter.bitset pos).toNat =
      ((s.filter.bitset pos).toNat + share filterSize other pos) % 256) :
    Counts { accept s other with filter := filter } limit id := by
  have ha : (accept s other).accepted id = s.accepted id := update_of_ne hne ..
  have hcount : ∀ k, cell filter id k =
      cell s.filter id k := by
    intro k
    have hlt := (s.filter.bitset (position filterSize id k)).toNat_lt
    rw [cell, hfil, share_eq_zero fun j => hpos j k, add_zero, mod_eq_of_lt hlt, cell]
  refine ⟨fun k => ?_, fun k => ?_, fun hzero k => ?_, ?_⟩
  · rw [hcount]
    exact h.le k
  · rw [ha, hcount]
    exact h.ge k
  · rw [ha] at hzero
    rw [hcount]
    exact h.fresh hzero k
  · rw [ha]
    exact h.limit

lemma counts_reset (most spent : ℕ) :
    Counts ⟨clearR filterSize s.filter, fun _ => 0, most, spent⟩ limit id := by
  have hhalf : ∀ k, cell (clearR filterSize s.filter) id k ≤
      highest limit / 2 := by
    intro k
    rw [cell, toNat_clearR]
    exact Nat.div_le_div_right (h.le k)
  exact ⟨fun k => (hhalf k).trans (Nat.div_le_self _ _), fun _ => zero_le _, fun _ => hhalf,
    zero_le _⟩

end

section

variable (h : Filled s limit ids)
include h

lemma Filled.le_highest (pos : ℕ) : (s.filter.bitset pos).toNat ≤ highest limit := by
  by_cases hused : pos ∈ ids.flatMap (positions filterSize)
  · obtain ⟨id, hid, hpos⟩ := mem_flatMap.1 hused
    obtain ⟨k, -, rfl⟩ := mem_map.1 hpos
    exact (h.counts id hid).le k
  · rw [h.unused pos hused]
    exact zero_le _

lemma Filled.accept (hid : id ∈ ids)
    (hroom : ∀ k, limit + share filterSize id (position filterSize id k) ≤ 254)
    (hapart : ∀ other ∈ ids, other ≠ id → ∀ j k,
      position filterSize id j ≠ position filterSize other k)
    (hload : ¬ checkR filterSize s.filter id > limit)
    (hfree : s.filter.free_items ≠ 0) (hitems : filter.free_items = s.filter.free_items - 1)
    (hfil : ∀ pos, (filter.bitset pos).toNat =
      ((s.filter.bitset pos).toNat + share filterSize id pos) % 256) :
    Filled { accept s id with filter := filter } limit ids := by
  have hcount : ∀ k, cell filter id k =
      cell s.filter id k +
        share filterSize id (position filterSize id k) := by
    intro k
    have hle := (h.counts id hid).add_le hload hroom k
    unfold highest at hle
    exact (hfil _).trans (mod_eq_of_lt (lt_of_le_of_lt hle (by omega)))
  have hown := counts_accepted (h.counts id hid) hload hcount hroom
  have hone : filter.free_items.toNat + 1 = s.filter.free_items.toNat := by
    have hpos : 0 < s.filter.free_items.toNat := UInt16.pos_iff_ne_zero.2 hfree
    have hle : (1 : UInt16) ≤ s.filter.free_items := UInt16.le_iff_toNat_le.2 hpos
    rw [hitems, UInt16.toNat_sub_of_le _ _ hle, UInt16.toNat_one]
    omega
  refine ⟨fun other hother => ?_, fun pos hpos => ?_, fun other hother => ?_, ?_, ?_, ?_⟩
  · by_cases heq : other = id
    · exact heq ▸ hown
    · exact counts_other (h.counts other hother) heq (hapart other hother heq) hfil
  · have hshare : share filterSize id pos = 0 :=
      count_eq_zero.2 fun hmem => hpos (mem_flatMap.2 ⟨id, hid, hmem⟩)
    refine UInt8.toNat_inj.1 ?_
    change (filter.bitset pos).toNat = _
    rw [hfil, hshare, h.unused pos hpos]
    rfl
  · have hne : other ≠ id := fun heq => hother (heq ▸ hid)
    exact (update_of_ne hne _ _).trans (h.others other hother)
  · -- the highest number is the one before, whose count did not go down, or that of this sender
    obtain ⟨pos, hpos, hmost⟩ := h.most
    obtain hle | hlt := le_total (s.accepted id + 1) s.most
    · refine ⟨pos, hpos, ?_⟩
      have hup : (s.filter.bitset pos).toNat ≤ (filter.bitset pos).toNat := by
        by_cases hat : ∃ k, position filterSize id k = pos
        · obtain ⟨k, rfl⟩ := hat
          exact (Nat.le_add_right _ _).trans_eq (hcount k).symm
        · have hlt := (s.filter.bitset pos).toNat_lt
          rw [hfil, share_eq_zero fun k hk => hat ⟨k, hk⟩, add_zero, mod_eq_of_lt hlt]
      exact (max_eq_left hle).trans_le (hmost.trans hup)
    · refine ⟨position filterSize id 0, position_lt id 0, ?_⟩
      have hone : (RateLimit.accept s id).accepted id = s.accepted id + 1 := update_self ..
      exact (max_eq_right hlt).trans_le (hone.symm.trans_le (hown.ge 0))
  · have hle := h.free_le
    change filter.free_items.toNat ≤ 4096
    omega
  · have hge := h.free_ge
    change 4096 ≤ filter.free_items.toNat + (s.spent + 1)
    omega

lemma Filled.reset (hfew : (limit + 16) * (8 * ids.length + 1) < 61440) :
    Filled ⟨clearR filterSize s.filter, fun _ => 0, 0, s.spent - 2 * (s.most / 2)⟩
      limit ids := by
  have hblocks : zeroedBlocks filterSize s.filter ≤ 8 * ids.length + 1 := by
    refine (zeroedBlocks_le h.unused).trans_eq ?_
    have hlen : ∀ id ∈ ids, (positions filterSize id).length = 8 := fun id _ => by
      rw [positions, length_map, length_finRange]
    rw [length_flatMap, map_congr_left hlen, map_const', sum_replicate_nat]
    omega
  have hitem : itemCount filterSize s.filter * 2 ≤ limit + 16 := by
    have hle : itemCount filterSize s.filter ≤ highest limit / 2 :=
      itemCount_le_iff.2 fun k _ => Nat.div_le_div_right (h.le_highest k)
    unfold highest at hle
    omega
  have hgiven : s.most / 2 ≤ itemCount filterSize s.filter := by
    obtain ⟨pos, hpos, hmost⟩ := h.most
    exact (Nat.div_le_div_right hmost).trans (itemCount_le_iff.1 le_rfl pos hpos)
  have hback : 2 * (s.most / 2) ≤
      itemCount filterSize s.filter * zeroedBlocks filterSize s.filter * 2 := by
    have hone : 1 ≤ zeroedBlocks filterSize s.filter := Nat.le_add_right 1 _
    have hmul := Nat.mul_le_mul hgiven hone
    omega
  have hsmall : itemCount filterSize s.filter * zeroedBlocks filterSize s.filter * 2 < 61440 := by
    refine lt_of_le_of_lt ?_ hfew
    rw [mul_right_comm]
    exact Nat.mul_le_mul hitem hblocks
  have hle := h.free_le
  have hge := h.free_ge
  have hsum : s.filter.free_items.toNat +
      itemCount filterSize s.filter * zeroedBlocks filterSize s.filter * 2 < 2 ^ 16 := by omega
  have hfree := toNat_free_clearR filterSize (by decide) hsum
  have hcap : (filterSize * 8) >>> 4 = 4096 := by decide
  rw [hcap] at hfree
  exact
    { counts := fun id hid => counts_reset (h.counts id hid) _ _
      unused := fun pos hpos => UInt8.toNat_inj.1 (by
        change ((clearR filterSize s.filter).bitset pos).toNat = _
        rw [toNat_clearR, h.unused pos hpos]
        rfl)
      others := fun _ _ => rfl
      most := ⟨0, by decide, zero_le _⟩
      free_le := hfree.trans_le (min_le_left _ _)
      free_ge := by
        change 4096 ≤ (clearR filterSize s.filter).free_items.toNat + (s.spent - 2 * (s.most / 2))
        omega }

end

lemma handle_filled {all : List Event} (hmax : 0 < limit)
    (hroom : ∀ id ∈ senders all, ∀ k,
      limit + share filterSize id (position filterSize id k) ≤ 254)
    (hfree : CollisionFree all)
    (hfew : (limit + 16) * (8 * (senders all).dedup.length + 1) < 61440) {e : Event}
    (he : e ∈ all) (hhas : HasRoom limit (.ok s) e)
    (h : Filled s limit (senders all).dedup) :
    ∃ s', handle limit s e = .ok s' ∧ Filled s' limit (senders all).dedup := by
  cases e with
  | reset =>
    refine ⟨_, rfl, ?_⟩
    rw [if_neg hmax.ne']
    exact h.reset hfew
  | packet key =>
    have hkey : key ∈ senders all := mem_filterMap.2 ⟨.packet key, he, rfl⟩
    have hmem : key ∈ (senders all).dedup := mem_dedup.2 hkey
    by_cases hload : checkR filterSize s.filter key > limit
    · exact ⟨s, by rw [handle, if_neg hmax.ne', if_pos hload], h⟩
    · have hspent : s.spent < 4096 :=
        hhas (not_lt.1 fun hover => hload ((h.counts key hmem).refused hover))
      have hitems : s.filter.free_items ≠ 0 := by
        intro hzero
        have hge := h.free_ge
        rw [hzero, UInt16.toNat_zero] at hge
        omega
      obtain ⟨filter, hadd, hone, hfil⟩ := add_of_free filterSize hitems key
      refine ⟨{ accept s key with filter := filter }, ?_, ?_⟩
      · rw [handle, if_neg hmax.ne', if_neg hload, hadd]
        rfl
      · refine h.accept hmem (hroom key hkey) (fun id hid hne => ?_) hload hitems hone hfil
        exact hfree key hkey id (mem_dedup.1 hid) (Ne.symm hne)

end

/-- Let the limit leave room for one more in the counts of each sender, the senders be not too many,
and fewer than 4096 packets be accepted and not given back when one of a sender within the limit
comes in. Then the process is not aborted, and at most one packet more than the limit is accepted
between two resets. -/
theorem accepted_within_limit (maxMsgsPerSec : ℕ) (events : List Event) (hmax : 0 < maxMsgsPerSec)
    (hroom : ∀ id ∈ senders events, ∀ k,
      maxMsgsPerSec + share filterSize id (position filterSize id k) ≤ 254)
    (hfree : CollisionFree events)
    (hfew : (maxMsgsPerSec + 16) * (8 * (senders events).dedup.length + 1) < 61440)
    (hhas : Admitted (step maxMsgsPerSec) (.ok start) (HasRoom maxMsgsPerSec) events)
    {before : List Event} (hbefore : before <+: events) : WithinLimit maxMsgsPerSec before := by
  have hrun : ∃ s, run (step maxMsgsPerSec) (.ok start) before = .ok s ∧
      Filled s maxMsgsPerSec (senders events).dedup := by
    induction before using reverseRecOn with
    | nil => exact ⟨start, rfl, filled_start _ _⟩
    | append_singleton before e ih =>
      obtain ⟨s, hs, hfilled⟩ := ih ((prefix_append _ _).trans hbefore)
      have hhas' := hhas before e hbefore
      rw [hs] at hhas'
      have he : e ∈ events := List.IsPrefix.subset hbefore (mem_append_right _ (by simp))
      obtain ⟨s', hs', hfilled'⟩ := handle_filled hmax hroom hfree hfew he hhas' hfilled
      exact ⟨s', by rw [run_concat, hs]; exact hs', hfilled'⟩
  obtain ⟨s, hs, hfilled⟩ := hrun
  refine ⟨s, hs, fun id => ?_⟩
  by_cases hid : id ∈ (senders events).dedup
  · exact (hfilled.counts id hid).limit
  · rw [hfilled.others id hid]
    exact zero_le _

lemma not_over_limit {maxMsgsPerSec : ℕ} (hmax : 254 ≤ maxMsgsPerSec) (filter : CountingBloom)
    (id : Dhkey) : ¬ checkR filterSize filter id > maxMsgsPerSec := by
  have hle := checkFrom_le filterSize filter.bitset id (zero_le 254) (finRange 8)
  rw [checkR]
  omega

lemma all_accepted {maxMsgsPerSec : ℕ} (hmax : 254 ≤ maxMsgsPerSec) (id : Dhkey) (n : ℕ)
    (hn : n ≤ 4096) : ∃ s, run (step maxMsgsPerSec) (.ok start) (replicate n (.packet id)) = .ok s ∧
      s.accepted id = n ∧ s.filter.free_items.toNat + n = 4096 := by
  induction n with
  | zero => exact ⟨start, rfl, rfl, rfl⟩
  | succ n ih =>
    obtain ⟨s, hs, ha, hfree⟩ := ih (by omega)
    have hroom : s.filter.free_items ≠ 0 := by
      intro hzero
      rw [hzero] at hfree
      change 0 + n = 4096 at hfree
      omega
    obtain ⟨filter, hadd, hitems, _⟩ := add_of_free filterSize hroom id
    refine ⟨{ accept s id with filter := filter }, ?_, ?_, ?_⟩
    · rw [replicate_succ', run_concat, hs]
      change handle maxMsgsPerSec s (.packet id) = _
      rw [handle, if_neg (by omega), if_neg (not_over_limit hmax s.filter id), hadd]
      rfl
    · exact (update_self ..).trans (by rw [ha])
    · have hone : (1 : UInt16) ≤ s.filter.free_items := by
        change 1 ≤ s.filter.free_items.toNat
        omega
      rw [hitems, UInt16.toNat_sub_of_le _ _ hone]
      change s.filter.free_items.toNat - 1 + (n + 1) = 4096
      omega

def senderKey (word : UInt32) : Dhkey := ⟨fun k => word + UInt32.ofNat k.val⟩

def fewPackets : List Event :=
  [.packet (senderKey 0), .packet (senderKey 0), .packet (senderKey 0), .packet (senderKey 16),
    .reset, .packet (senderKey 0)]

theorem fewPackets_within_limit :
    (∀ id ∈ senders fewPackets, ∀ k,
        1 + share filterSize id (position filterSize id k) ≤ 254) ∧
      CollisionFree fewPackets ∧ Admitted (step 1) (.ok start) (HasRoom 1) fewPackets ∧
      WithinLimit 1 fewPackets := by
  have hroom : ∀ id ∈ senders fewPackets, ∀ k,
      1 + share filterSize id (position filterSize id k) ≤ 254 := by
    intro id _ k
    have hle := share_le filterSize id (position filterSize id k)
    omega
  have hfree : CollisionFree fewPackets := by
    rw [CollisionFree]
    decide +kernel
  have hhas : Admitted (step 1) (.ok start) (HasRoom 1) fewPackets := by decide +kernel
  exact ⟨hroom, hfree, hhas,
    accepted_within_limit 1 _ (by decide) hroom hfree (by decide +kernel) hhas (prefix_refl _)⟩

/-- With the default limit of 256, no packet is refused, and the process is aborted when 4097
packets have come in. -/
theorem default_limit_fails :
    ¬ WithinLimit 256 (replicate 258 (.packet (senderKey 0))) ∧
      ¬ WithinLimit 256 (replicate 4097 (.packet (senderKey 0))) := by
  constructor
  · rintro ⟨s, hs, hlimit⟩
    obtain ⟨s', hs', ha, _⟩ := @all_accepted 256 (by decide) (senderKey 0) 258 (by decide)
    cases hs.symm.trans hs'
    have hle := hlimit (senderKey 0)
    omega
  · rintro ⟨s, hs, _⟩
    obtain ⟨s', hs', _, hfree⟩ := @all_accepted 256 (by decide) (senderKey 0) 4096 le_rfl
    have hzero : s'.filter.free_items = 0 := UInt16.toNat_inj.1 (by
      change s'.filter.free_items.toNat = 0
      omega)
    rw [replicate_succ' (n := 4096), run_concat, hs'] at hs
    change handle 256 s' (.packet (senderKey 0)) = _ at hs
    rw [handle, if_neg (by decide), if_neg (not_over_limit (by decide) _ _), add,
      if_pos hzero] at hs
    cases hs

end Neuropil.Network.RateLimit
