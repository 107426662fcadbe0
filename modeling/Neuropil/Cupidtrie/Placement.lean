import Mathlib.Data.Nat.Bitwise
import Neuropil.Cupidtrie.Invariant

namespace Neuropil.Cupidtrie.Placement

open Function List Nat Lib.Buffer Lib.Fault Lib.Radix Cupidtrie.Invariant

variable {len : ℕ}

lemma differ_spec {a b : Bytes} (hlen : a.length = b.length) (hne : a ≠ []) {bits : UInt16}
    (hbits : bits.toNat + 8 * a.length ≤ 65536) : (a = b ∧ differ a b bits = .ok none) ∨
      ∃ i x y v, a[i]? = some x ∧ b[i]? = some y ∧ x ≠ y ∧ (∀ j < i, a[j]? = b[j]?) ∧
        differ a b bits = .ok (some v) ∧ v.toNat = bits.toNat + 8 * i + leadingZeros (x ^^^ y) := by
  induction a generalizing b bits with
  | nil => exact absurd rfl hne
  | cons x a ih =>
    cases b with
    | nil => cases hlen
    | cons y b =>
      have hrest : a.length = b.length := Nat.succ.inj hlen
      rw [length_cons] at hbits
      by_cases hxy : x ^^^ y = 0
      · have heq : x = y := UInt8.xor_eq_zero_iff.1 hxy
        subst heq
        by_cases ha : a = []
        · subst ha
          have hb : b = [] := length_eq_zero_iff.1 hrest.symm
          subst hb
          exact .inl ⟨rfl, by rw [differ, if_pos hxy, if_pos rfl]⟩
        · have hpos : 0 < a.length := length_pos_iff.2 ha
          have hnext : (bits + 8).toNat = bits.toNat + 8 := by
            exact mod_eq_of_lt (by change bits.toNat + 8 < 65536; omega)
          have hdif : differ (x :: a) (x :: b) bits = differ a b (bits + 8) := by
            rw [differ, if_pos hxy, if_neg ha]
          have hroom : (bits + 8).toNat + 8 * a.length ≤ 65536 := by omega
          obtain ⟨hab, hd⟩ | ⟨i, u, v, w, hu, hv, huv, hsame, hd, hw⟩ := ih hrest ha hroom
          · exact .inl ⟨by rw [hab], hdif.trans hd⟩
          · refine .inr ⟨i + 1, u, v, w, hu, hv, huv, fun j hj => ?_, hdif.trans hd, ?_⟩
            · cases j with
              | zero => rfl
              | succ j => exact hsame j (lt_of_succ_lt_succ hj)
            · omega
      · have hle : leadingZeros (x ^^^ y) < 8 := by
          unfold leadingZeros
          omega
        have hzs : (UInt16.ofNat (leadingZeros (x ^^^ y))).toNat = leadingZeros (x ^^^ y) :=
          UInt16.toNat_ofNat_of_lt (by change leadingZeros (x ^^^ y) < 65536; omega)
        refine .inr ⟨0, x, y, _, rfl, rfl, ?_, nofun, by rw [differ, if_neg hxy], ?_⟩
        · rintro rfl
          exact hxy UInt8.xor_self
        · rw [UInt16.toNat_add, hzs, Nat.mul_zero, Nat.add_zero]
          exact mod_eq_of_lt (by change bits.toNat + leadingZeros (x ^^^ y) < 65536; omega)

lemma nibbleOf_even (b : UInt8) (i : ℕ) : nibbleOf b (2 * i) = Fin.ofNat 16 (b.toNat / 16) := by
  have hall : ∀ n < 256, Fin.ofNat 16 (((n <<< 0) &&& 0xF0) >>> 4) = Fin.ofNat 16 (n / 16) := by
    decide +kernel
  rw [nibbleOf, Nat.mul_mod_right, Nat.zero_mul]
  exact hall b.toNat b.toNat_lt

lemma nibbleOf_odd (b : UInt8) (i : ℕ) :
    nibbleOf b (2 * i + 1) = Fin.ofNat 16 (b.toNat % 16) := by
  have hall : ∀ n < 256, Fin.ofNat 16 (((n <<< 4) &&& 0xF0) >>> 4) = Fin.ofNat 16 (n % 16) := by
    decide +kernel
  have hodd : (2 * i + 1) % 2 * 4 = 4 := by omega
  rw [nibbleOf, hodd]
  exact hall b.toNat b.toNat_lt

lemma leadingZeros_div {x y : UInt8} (hne : x ≠ y) :
    leadingZeros (x ^^^ y) / 4 = 0 ∧ x.toNat / 16 ≠ y.toNat / 16 ∨
      leadingZeros (x ^^^ y) / 4 = 1 ∧ x.toNat / 16 = y.toNat / 16 ∧
        x.toNat % 16 ≠ y.toNat % 16 := by
  have hall : ∀ n < 256, n ≠ 0 → (7 - Nat.log2 n) / 4 = if n / 16 = 0 then 1 else 0 := by
    decide +kernel
  have hxor : (x ^^^ y).toNat / 16 = x.toNat / 16 ^^^ y.toNat / 16 := by
    exact xor_div_two_pow (n := 4)
  have hzero : (x ^^^ y).toNat ≠ 0 := by
    intro h
    exact hne (UInt8.xor_eq_zero_iff.1 (UInt8.toNat_inj.1 h))
  have hzs := hall _ (x ^^^ y).toNat_lt hzero
  have hne' : x.toNat ≠ y.toNat := fun h => hne (UInt8.toNat_inj.1 h)
  by_cases hh : x.toNat / 16 = y.toNat / 16
  · refine .inr ⟨?_, hh, by omega⟩
    rw [leadingZeros, hzs, if_pos]
    rw [hxor, hh, Nat.xor_self]
  · refine .inl ⟨?_, hh⟩
    rw [leadingZeros, hzs, if_neg]
    rw [hxor]
    exact fun h => hh (Nat.xor_eq_zero_iff.1 h)

lemma ofNat_ne {m n : ℕ} (hm : m < 16) (hn : n < 16) (h : m ≠ n) :
    Fin.ofNat 16 m ≠ Fin.ofNat 16 n := by
  intro heq
  have hval := congrArg Fin.val heq
  rw [Fin.val_ofNat, Fin.val_ofNat, mod_eq_of_lt hm, mod_eq_of_lt hn] at hval
  exact h hval

lemma firstDiff_of_bytes {a b : Key len} {i : ℕ} {x y : UInt8} (hx : a.bytes[i]? = some x)
    (hy : b.bytes[i]? = some y) (hne : x ≠ y) (hsame : ∀ j < i, a.bytes[j]? = b.bytes[j]?) :
    FirstDiff digit a b (2 * i + leadingZeros (x ^^^ y) / 4) := by
  have hdigit : ∀ j, j / 2 = i → digit a j = nibbleOf x j ∧ digit b j = nibbleOf y j := by
    rintro j rfl
    rw [digit, digit, getD_eq_getElem?_getD, getD_eq_getElem?_getD, hx, hy]
    exact ⟨rfl, rfl⟩
  have hbf : AgreeBelow digit (2 * i) a b := by
    intro j hj
    rw [digit, digit, getD_eq_getElem?_getD, getD_eq_getElem?_getD, hsame (j / 2) (by omega)]
  have hx256 := x.toNat_lt
  have hy256 := y.toNat_lt
  obtain ⟨hzs, hh⟩ | ⟨hzs, hh, hlow⟩ := leadingZeros_div hne
  · rw [hzs, Nat.add_zero]
    refine ⟨hbf, ?_⟩
    obtain ⟨ha, hb⟩ := hdigit (2 * i) (by omega)
    rw [ha, hb, nibbleOf_even, nibbleOf_even]
    exact ofNat_ne (by omega) (by omega) hh
  · rw [hzs]
    constructor
    · intro j hj
      obtain hj | rfl : j < 2 * i ∨ j = 2 * i := by omega
      · exact hbf j hj
      · obtain ⟨ha, hb⟩ := hdigit (2 * i) (by omega)
        rw [ha, hb, nibbleOf_even, nibbleOf_even, hh]
    · obtain ⟨ha, hb⟩ := hdigit (2 * i + 1) (by omega)
      rw [ha, hb, nibbleOf_odd, nibbleOf_odd]
      exact ofNat_ne (mod_lt _ (by decide)) (mod_lt _ (by decide)) hlow

lemma differ_keys (hpos : 0 < len) (hlen : len ≤ 8192) (a b : Key len) :
    (a = b ∧ differ a.bytes b.bytes 0 = .ok none) ∨
      ∃ v, differ a.bytes b.bytes 0 = .ok (some v) ∧ v.toNat >>> 2 < 2 * len ∧
        FirstDiff digit a b (v.toNat >>> 2) := by
  have hne : a.bytes ≠ [] := by
    intro h
    have hlng := a.length_eq
    rw [h, length_nil] at hlng
    omega
  have hb : (0 : UInt16).toNat + 8 * a.bytes.length ≤ 65536 := by
    rw [a.length_eq]
    change 0 + 8 * len ≤ 65536
    omega
  obtain ⟨h, hd⟩ | ⟨i, x, y, v, hx, hy, hxy, hsame, hd, hv⟩ :=
    differ_spec (a.length_eq.trans b.length_eq.symm) hne hb
  · exact .inl ⟨Key.ext h, hd⟩
  · have hi : i < len := by
      rw [← a.length_eq]
      exact (List.getElem?_eq_some_iff.1 hx).1
    have hshift : v.toNat >>> 2 = 2 * i + leadingZeros (x ^^^ y) / 4 := by
      change v.toNat = 0 + 8 * i + _ at hv
      omega
    have hzs : leadingZeros (x ^^^ y) / 4 ≤ 1 := by
      unfold leadingZeros
      omega
    refine .inr ⟨v, hd, ?_, ?_⟩
    · omega
    · rw [hshift]
      exact firstDiff_of_bytes hx hy hxy hsame

def leafAt : Cell len → Path → Option (Key len × UInt64)
  | .leaf key data, [] => some (key, data)
  | .branch _ mask cells, x :: path => if hasNext mask x then leafAt (cells x) path else none
  | _, _ => none

def matched (new : Key len) : Cell len → Bool
  | .branch shift mask _ => hasNext mask (digit new shift)
  | _ => false

/-- Where two branches on the way have the nibble of a new key, the key agrees with those below the
second one before the nibble that the first one tests. No branch on the way was freed. -/
def Fits (new : Key len) : Cell len → Prop
  | .branch shift mask cells =>
    hasNext mask (digit new shift) = true →
      (matched new (cells (digit new shift)) = true →
        ∀ e ∈ entries (cells (digit new shift)), AgreeBelow digit shift new e.1) ∧
      Fits new (cells (digit new shift))
  | .freed _ => False
  | .leaf _ _ | .empty => True

inductive Nearest (new : Key len) : Cell len → Key len → Prop
  | leaf (key : Key len) (data : UInt64) : Nearest new (.leaf key data) key
  | next {shift : ℕ} {mask : BitVec 16} {cells : Fin 16 → Cell len} {k : Key len}
      (hx : hasNext mask (digit new shift) = true) (h : Nearest new (cells (digit new shift)) k) :
      Nearest new (.branch shift mask cells) k
  | other {shift : ℕ} {mask : BitVec 16} {cells : Fin 16 → Cell len} {k : Key len}
      (hx : ¬ hasNext mask (digit new shift) = true) (hk : k ∈ keys (.branch shift mask cells)) :
      Nearest new (.branch shift mask cells) k

variable {new k : Key len} {c : Cell len} {e : Key len × UInt64}

lemma mem_of_leafAt {path : Path} (h : leafAt c path = some e) : e ∈ entries c := by
  induction c generalizing path with
  | leaf key data =>
    cases path with
    | nil =>
      cases h
      exact mem_singleton_self _
    | cons x path => cases h
  | branch shift mask cells ih =>
    cases path with
    | nil => cases h
    | cons x path =>
      rw [leafAt] at h
      split_ifs at h with hx
      exact mem_entries_branch.2 ⟨x, hx, ih x h⟩
  | empty | freed shift => cases path <;> cases h

lemma Nearest.mem (h : Nearest new c k) : k ∈ keys c := by
  induction h with
  | leaf key data => exact mem_keys_leaf.2 rfl
  | next hx _ ih => exact keys_subset hx ih
  | other _ hk => exact hk

lemma Nearest.eq_of_mem (hnear : Nearest new c k) (h : Formed c) (hnew : new ∈ keys c) :
    k = new := by
  induction hnear with
  | leaf key data => exact (mem_keys_leaf.1 hnew).symm
  | next hx _ ih =>
    cases h with
    | branch _ _ hcells _ hdigit _ =>
      exact ih (hcells _ hx) (hasNext_of_mem hdigit hnew).2
  | other hx _ =>
    cases h with
    | branch _ _ _ _ hdigit _ => exact absurd (hasNext_of_mem hdigit hnew).1 hx

structure Starts (new : Key len) (c : Cell len) (k : Key len) (here : Path)
    (ins start : Path × Cell len) : Prop where
  unmatched : matched new c = false → start = ins
  matched : matched new c = true → Fits new c → ∀ shf x1, FirstDiff digit new k shf →
    place new shf x1 start.2 start.1 = place new shf x1 c here

lemma mostSimilar_any (h : Formed c) (here : Path) (ins : Path × Cell len) :
    ∃ path e, mostSimilar new c false here ins = .ok ⟨here ++ path, e.1, ins⟩ ∧
      leafAt c path = some e := by
  induction h generalizing here with
  | leaf key data => exact ⟨[], (key, data), by rw [mostSimilar, append_nil], rfl⟩
  | @branch shift mask cells hshift hmask _ _ _ _ ih =>
    obtain ⟨s, hs, hbit⟩ := exists_ctz hmask
    obtain ⟨path, e, hfind, hleaf⟩ := ih s hbit (here ++ [s])
    refine ⟨s :: path, e, ?_, ?_⟩
    · simp only [mostSimilar, nibble_eq new hshift, hs, ok_bind, Bool.false_and, hfind,
        Bool.false_eq_true, if_false, append_assoc, singleton_append]
    · rw [leafAt, if_pos hbit, hleaf]

lemma mostSimilar_spec (h : Formed c) (here : Path) (ins : Path × Cell len) :
    ∃ path e start, mostSimilar new c true here ins = .ok ⟨here ++ path, e.1, start⟩ ∧
      leafAt c path = some e ∧ Nearest new c e.1 ∧ Starts new c e.1 here ins start := by
  induction h generalizing here ins with
  | leaf key data =>
    exact ⟨[], (key, data), ins, by rw [mostSimilar, append_nil], rfl, .leaf key data,
      fun _ => rfl, nofun⟩
  | @branch shift mask cells hshift hmask hcells hbelow hdigit hagree ih =>
    obtain ⟨s, hs, hbit⟩ := exists_ctz hmask
    by_cases hx : hasNext mask (digit new shift) = true
    · obtain ⟨path, e, start, hfind, hleaf, hnear, hst⟩ :=
        ih _ hx (here ++ [digit new shift]) (here, .branch shift mask cells)
      refine ⟨digit new shift :: path, e, start, ?_, ?_, .next hx hnear, ?_, ?_⟩
      · simp only [mostSimilar, nibble_eq new hshift, hs, ok_bind, hx, Bool.true_and, if_true,
          hfind, append_assoc, singleton_append]
      · rw [leafAt, if_pos hx, hleaf]
      · intro hu
        exact absurd (hx.symm.trans hu) nofun
      · intro _ hfits shf x1 hd
        obtain ⟨ha', hfits⟩ := hfits hx
        by_cases hch : matched new (cells (digit new shift)) = true
        · rw [hst.matched hch hfits shf x1 hd]
          -- the key found agrees with the new one up to this branch
          have hlt : shift < shf :=
            hd.lt_of_agree (ha' hch e (mem_of_leafAt hleaf)) (hdigit _ hx e.1 hnear.mem).symm
          rw [place, if_neg hlt.ne', if_neg hlt.asymm, nibble_eq new hshift, ok_bind]
        · rw [hst.unmatched (Bool.eq_false_iff.2 hch)]
    · obtain ⟨path, e, hfind, hleaf⟩ := @mostSimilar_any _ new _ (hcells s hbit) (here ++ [s]) ins
      have hmem : e ∈ entries (.branch shift mask cells) :=
        mem_entries_branch.2 ⟨s, hbit, mem_of_leafAt hleaf⟩
      refine ⟨s :: path, e, ins, ?_, ?_, .other hx ⟨e.2, hmem⟩, fun _ => rfl, ?_⟩
      · simp only [mostSimilar, nibble_eq new hshift, hs, ok_bind, Bool.true_and]
        rw [if_neg hx, hfind, append_assoc, singleton_append]
      · rw [leafAt, if_pos hbit, hleaf]
      · exact fun hmat => absurd hmat hx

variable {c' : Cell len} {shf : ℕ}

structure Inserted (new : Key len) (shf : ℕ) (c c' : Cell len) : Prop where
  formed : Formed c'
  mem : ∀ e, e ∈ entries c' ↔ e = (new, 0) ∨ e ∈ entries c
  top_le : min shf (top c) ≤ top c'

lemma Inserted.mem_keys (h : Inserted new shf c c') {k : Key len} (hk : k ∈ keys c') :
    k = new ∨ k ∈ keys c := by
  obtain ⟨data, hk⟩ := hk
  obtain heq | hk := (h.mem _).1 hk
  · exact .inl (Prod.mk.inj heq).1
  · exact .inr ⟨data, hk⟩

lemma inserted_newBranch (h : Formed c) (hk : k ∈ keys c) (hd : FirstDiff digit new k shf)
    (hshf : shf < 2 * len) (htop : shf < top c) :
    Inserted new shf c (newBranch shf (digit new shf) (digit k shf) new c) := by
  -- first the old cell alone, then the new leaf beside it
  have hold : Formed (.branch shf (maskOf (digit k shf))
      (update (fun _ => .empty) (digit k shf) c)) := by
    have ho : ∀ y, hasNext (maskOf (digit k shf)) y = true → y = digit k shf := by
      intro y hy
      rw [hasNext_maskOf] at hy
      exact of_decide_eq_true hy
    have hdigit : ∀ k' ∈ keys c, digit k' shf = digit k shf :=
      fun k' hk' => h.coherent k' hk' k hk shf htop
    refine .branch hshf ?_ ?_ ?_ ?_ ?_
    · intro h0
      have hbit := (eq_zero_iff _).1 h0 (digit k shf)
      rw [hasNext_maskOf, decide_eq_true rfl] at hbit
      cases hbit
    · intro y hy
      rw [ho y hy, update_self]
      exact h
    · intro y hy
      rw [ho y hy, update_self]
      exact htop
    · intro y hy
      rw [ho y hy, update_self]
      exact hdigit
    · refine (h.coherent.extend fun k' hk' => ?_).mono htop.le
      obtain ⟨y, hy, hk'⟩ := mem_keys_branch.1 hk'
      rw [ho y hy, update_self] at hk'
      exact ⟨k', hk', .refl _ k'⟩
  have hmask : ∀ y, hasNext (maskOf (digit new shf) ||| maskOf (digit k shf)) y =
      (hasNext (maskOf (digit k shf)) y || decide (y = digit new shf)) := by
    intro y
    rw [hasNext_or, hasNext_maskOf, hasNext_maskOf, Bool.or_comm]
  refine ⟨hold.update hmask (.leaf new 0) hshf ?_ ?_, fun e => ?_, min_le_left _ _⟩
  · intro k' hk'
    rw [mem_keys_leaf.1 hk']
  · intro k' hk'
    rw [mem_keys_leaf.1 hk']
    refine ⟨k, ?_, hd.agree⟩
    refine mem_keys_branch.2 ⟨digit k shf, ?_, ?_⟩
    · rw [hasNext_maskOf, decide_eq_true rfl]
    · rwa [update_self]
  · rw [newBranch, mem_entries_update hmask]
    refine or_congr mem_singleton ⟨?_, fun he => ?_⟩
    · rintro ⟨y, _, hy, he⟩
      rw [hasNext_maskOf] at hy
      rwa [of_decide_eq_true hy, update_self] at he
    · refine ⟨digit k shf, hd.ne.symm, ?_, ?_⟩
      · rw [hasNext_maskOf, decide_eq_true rfl]
      · rwa [update_self]

variable {shift : ℕ} {mask : BitVec 16} {cells : Fin 16 → Cell len}

lemma inserted_growBranch (h : Formed (.branch shift mask cells))
    (hk : k ∈ keys (.branch shift mask cells)) (hd : FirstDiff digit new k shift)
    (hx : ¬ hasNext mask (digit new shift) = true) (hshift : shift < 2 * len) :
    Inserted new shift (.branch shift mask cells)
      (growBranch (digit new shift) new (.branch shift mask cells)) := by
  have hmask := fun y => hasNext_or mask y (digit new shift)
  refine ⟨h.update hmask (.leaf new 0) hshift ?_ ?_, fun e => ?_, min_le_left _ _⟩
  · intro k' hk'
    rw [mem_keys_leaf.1 hk']
  · intro k' hk'
    rw [mem_keys_leaf.1 hk']
    exact ⟨k, hk, hd.agree⟩
  · rw [growBranch, mem_entries_update hmask, mem_entries_branch]
    refine or_congr mem_singleton ⟨?_, ?_⟩
    · rintro ⟨y, _, hy, he⟩
      exact ⟨y, hy, he⟩
    · rintro ⟨y, hy, he⟩
      refine ⟨y, ?_, hy, he⟩
      rintro rfl
      exact hx hy

lemma inserted_below (h : Formed (.branch shift mask cells))
    (hx : hasNext mask (digit new shift) = true) (hk : k ∈ keys (cells (digit new shift)))
    (hd : FirstDiff digit new k shf) (hlt : shift < shf) {child : Cell len}
    (hch : Inserted new shf (cells (digit new shift)) child) :
    Inserted new shf (.branch shift mask cells)
      (.branch shift mask (update cells (digit new shift) child)) := by
  have hfm := h
  cases h with
  | branch hshift _ _ hbelow hdigit _ =>
    refine ⟨hfm.update (hasNext_same hx) hch.formed ?_ ?_ ?_, fun e => ?_, min_le_right _ _⟩
    · exact (lt_min hlt (hbelow _ hx)).trans_le hch.top_le
    · intro k' hk'
      obtain rfl | hk' := hch.mem_keys hk'
      · rfl
      · exact hdigit _ hx k' hk'
    · intro k' hk'
      obtain rfl | hk' := hch.mem_keys hk'
      · exact ⟨k, keys_subset hx hk, hd.agree.mono hlt.le⟩
      · exact ⟨k', keys_subset hx hk', .refl shift k'⟩
    · rw [mem_entries_update (hasNext_same hx), hch.mem, mem_entries_branch, or_assoc]
      refine or_congr Iff.rfl ⟨?_, ?_⟩
      · rintro (he | ⟨y, _, hy, he⟩)
        · exact ⟨_, hx, he⟩
        · exact ⟨y, hy, he⟩
      · rintro ⟨y, hy, he⟩
        by_cases hyx : y = digit new shift
        · subst hyx
          exact .inl he
        · exact .inr ⟨y, hyx, hy, he⟩

lemma place_spec (h : Formed c) (hnear : Nearest new c k) (hd : FirstDiff digit new k shf)
    (hshf : shf < 2 * len) (here : Path) :
    ∃ path f,
      (place new shf (digit new shf) c here = .ok (.newBranch (here ++ path)) ∧
          f = newBranch shf (digit new shf) (digit k shf) new ∨
        place new shf (digit new shf) c here = .ok (.growBranch (here ++ path)) ∧
          f = growBranch (digit new shf) new) ∧
      Inserted new shf c (modifyAt f path c) ∧
      leafAt (modifyAt f path c) (path ++ [digit new shf]) = some (new, 0) := by
  have hnewLeaf : ∀ c : Cell len,
      leafAt (newBranch shf (digit new shf) (digit k shf) new c) [digit new shf] =
        some (new, 0) := by
    intro c
    rw [newBranch, leafAt, if_pos, update_self]
    · rfl
    · rw [hasNext_or, hasNext_maskOf, decide_eq_true rfl, Bool.true_or]
  induction h generalizing here with
  | leaf key data =>
    refine ⟨[], _, .inl ⟨by rw [place, append_nil], rfl⟩, ?_, hnewLeaf _⟩
    exact inserted_newBranch (.leaf key data) hnear.mem hd hshf hshf
  | @branch shift mask cells hshift hmask hcells hbelow hdigit hagree ih =>
    have hfm : Formed (.branch shift mask cells) := .branch hshift hmask hcells hbelow hdigit hagree
    obtain hlt | rfl | hgt := lt_trichotomy shf shift
    · refine ⟨[], _, .inl ⟨?_, rfl⟩, ?_, hnewLeaf _⟩
      · rw [place, if_neg hlt.ne, if_pos hlt, append_nil]
      · exact inserted_newBranch hfm hnear.mem hd hshf hlt
    · -- a nibble that is in use would have led to a key that has it
      have hx : ¬ hasNext mask (digit new shf) = true := by
        intro hx
        cases hnear with
        | next _ hnear => exact hd.ne (hdigit _ hx k hnear.mem).symm
        | other hx' => exact hx' hx
      refine ⟨[], _, .inr ⟨?_, rfl⟩, ?_, ?_⟩
      · rw [place, if_pos rfl, if_neg hx, append_nil]
      · exact inserted_growBranch hfm hnear.mem hd hx hshf
      · change leafAt (growBranch (digit new shf) new (.branch shf mask cells)) [digit new shf] = _
        rw [growBranch, leafAt, if_pos, update_self]
        · rfl
        · rw [hasNext_or, decide_eq_true rfl, Bool.or_true]
    · have hsame : digit new shift = digit k shift := hd.agree shift hgt
      have hx : hasNext mask (digit new shift) = true := by
        rw [hsame]
        exact (hasNext_of_mem hdigit hnear.mem).1
      cases hnear with
      | other hx' => exact absurd hx hx'
      | next _ hnear =>
        obtain ⟨path, f, hplc, hins, hleaf⟩ := ih _ hx hnear (here ++ [digit new shift])
        have hstep : place new shf (digit new shf) (.branch shift mask cells) here =
            place new shf (digit new shf) (cells (digit new shift))
              (here ++ [digit new shift]) := by
          rw [place, if_neg hgt.ne', if_neg hgt.asymm, nibble_eq new hshift, ok_bind]
        rw [append_assoc, singleton_append] at hplc
        refine ⟨digit new shift :: path, f, hstep ▸ hplc, ?_, ?_⟩
        · exact inserted_below hfm hx hnear.mem hd hgt hins
        · rw [cons_append, modifyAt, leafAt, if_pos hx, update_self]
          exact hleaf

variable {key : Key len} {data : UInt64}

structure Assigned (key : Key len) (data : UInt64) (c c' : Cell len) : Prop where
  formed : Formed c'
  mem : ∀ e, e ∈ entries c' ↔ e = (key, data) ∨ e ∈ entries c ∧ e.1 ≠ key

lemma assigned_storeData (h : Formed c) {path : Path} (hleaf : leafAt c path = some (key, data))
    (write : UInt64 → UInt64) : Assigned key (write data) c (modifyAt (storeData write) path c) ∧
      top (modifyAt (storeData write) path c) = top c := by
  induction h generalizing path with
  | leaf k d =>
    cases path with
    | nil =>
      cases hleaf
      refine ⟨⟨.leaf key _, fun e => ?_⟩, rfl⟩
      change e ∈ [(key, write data)] ↔ e = (key, write data) ∨ e ∈ [(key, data)] ∧ e.1 ≠ key
      rw [mem_singleton, mem_singleton]
      refine ⟨.inl, ?_⟩
      rintro (he | ⟨rfl, hne⟩)
      · exact he
      · exact absurd rfl hne
    | cons x path => cases hleaf
  | @branch shift mask cells hshift hmask hcells hbelow hdigit hagree ih =>
    cases path with
    | nil => cases hleaf
    | cons x path =>
      have hfm : Formed (.branch shift mask cells) :=
        .branch hshift hmask hcells hbelow hdigit hagree
      rw [leafAt] at hleaf
      split_ifs at hleaf with hx
      obtain ⟨hch, htop⟩ := ih x hx hleaf
      have hkey : key ∈ keys (cells x) := ⟨data, mem_of_leafAt hleaf⟩
      have hkeys : keys (modifyAt (storeData write) path (cells x)) ⊆ keys (cells x) := by
        rintro k ⟨d, hk⟩
        obtain heq | ⟨hk, _⟩ := (hch.mem _).1 hk
        · rw [(Prod.mk.inj heq).1]
          exact hkey
        · exact ⟨d, hk⟩
      refine ⟨⟨hfm.update (hasNext_same hx) hch.formed ?_ ?_ ?_, fun e => ?_⟩, rfl⟩
      · rw [htop]
        exact hbelow x hx
      · exact fun k hk => hdigit x hx k (hkeys hk)
      · exact fun k hk => ⟨k, keys_subset hx (hkeys hk), .refl shift k⟩
      · rw [modifyAt, mem_entries_update (hasNext_same hx), hch.mem, mem_entries_branch, or_assoc]
        refine or_congr Iff.rfl ⟨?_, ?_⟩
        · rintro (⟨he, hne⟩ | ⟨y, hyx, hy, he⟩)
          · exact ⟨⟨x, hx, he⟩, hne⟩
          · refine ⟨⟨y, hy, he⟩, fun heq => hyx ?_⟩
            rw [← hdigit x hx key hkey, ← hdigit y hy e.1 ⟨e.2, he⟩, heq]
        · rintro ⟨⟨y, hy, he⟩, hne⟩
          by_cases hyx : y = x
          · subst hyx
            exact .inl ⟨he, hne⟩
          · exact .inr ⟨y, hyx, hy, he⟩

lemma insertQpe_spec (hpos : 0 < len) (hlen : len ≤ 8192) (h : Formed c) (hfits : Fits key c) :
    ∃ root out data, insertQpe (some c) key = .ok (root, out) ∧ leafAt root out = some (key, data) ∧
      ((key, data) ∈ entries c ∨ key ∉ keys c ∧ data = 0) ∧
      ∀ write, Assigned key (write data) c (modifyAt (storeData write) out root) := by
  obtain ⟨path, e, start, hfind, hleaf, hnear, hst⟩ := @mostSimilar_spec _ key _ h [] ([], c)
  obtain ⟨heq, hd⟩ | ⟨v, hd, hshf, hdiff⟩ := differ_keys hpos hlen key e.1
  · refine ⟨c, path, e.2, ?_, ?_, .inl ?_, fun write => ?_⟩
    · simp only [insertQpe, hfind, ok_bind, hd]
      rfl
    · rw [heq]
      exact hleaf
    · rw [heq]
      exact mem_of_leafAt hleaf
    · rw [heq]
      exact (assigned_storeData h hleaf write).1
  · have hroot : place key (v.toNat >>> 2) (digit key (v.toNat >>> 2)) start.2 start.1 =
        place key (v.toNat >>> 2) (digit key (v.toNat >>> 2)) c [] := by
      by_cases hmat : matched key c = true
      · exact hst.matched hmat hfits _ _ hdiff
      · rw [hst.unmatched (Bool.eq_false_iff.2 hmat)]
    have habs : key ∉ keys c := by
      intro hmem
      rw [hnear.eq_of_mem h hmem] at hdiff
      exact hdiff.ne rfl
    obtain ⟨path', f, hplc, hins, hnew⟩ := place_spec h hnear hdiff hshf []
    refine ⟨modifyAt f path' c, path' ++ [digit key (v.toNat >>> 2)], 0, ?_, hnew,
      .inr ⟨habs, rfl⟩, fun write => ?_⟩
    · obtain ⟨hplc, rfl⟩ | ⟨hplc, rfl⟩ := hplc
      · simp only [insertQpe, hfind, ok_bind, hd, nibble_eq _ hshf, hroot, hplc]
        rfl
      · simp only [insertQpe, hfind, ok_bind, hd, nibble_eq _ hshf, hroot, hplc]
        rfl
    · obtain ⟨hass, _⟩ := assigned_storeData hins.formed hnew write
      refine ⟨hass.formed, fun e => (hass.mem e).trans (or_congr Iff.rfl ?_)⟩
      rw [hins.mem]
      constructor
      · rintro ⟨rfl | he, hne⟩
        · exact absurd rfl hne
        · exact ⟨he, hne⟩
      · exact fun ⟨he, hne⟩ => ⟨.inr he, hne⟩

end Neuropil.Cupidtrie.Placement
