import Neuropil.Tree.Values

namespace Neuropil.Tree.KeyOrder

open List Lib.Buffer Tree.Values

def byteInts (bytes : Bytes) : List Int := bytes.map (fun b => (b.toNat : Int))

/-- A number for every bit pattern, in the order of the doubles, with -0.0 right below 0.0. -/
def doubleRank (d : Double) : Int := if d.negative then -d.magnitude - 1 else d.magnitude

/-- The type of a key and then its value. -/
def rank : Key → List Int
  | .str s => 7 :: byteInts s.bytes
  | .int i => [2, i.toInt]
  | .ulong ul => [12, ul.toNat]
  | .dbl d => [6, doubleRank d]
  | .dhkey k => [21, Dhkey.value k]
  | .uuid u => 22 :: byteInts u.bytes
  | .special ush => [26, ush.toNat]

lemma byteInts_injective : Function.Injective byteInts := by
  refine map_injective_iff.2 ?_
  intro a b h
  exact UInt8.toNat_inj.1 (Int.ofNat_inj.1 h)

lemma doubleRank_injective : Function.Injective doubleRank := by
  rintro ⟨a⟩ ⟨b⟩ h
  have ha := a.toNat_lt
  have hb := b.toNat_lt
  congr 1
  apply UInt64.toNat_inj.1
  simp only [doubleRank, Double.negative, Double.magnitude, decide_eq_true_eq] at h
  split at h <;> split at h <;> omega

lemma rank_injective : Function.Injective rank := by
  intro a b h
  cases a <;> cases b <;> simp only [rank, cons.injEq, and_true, true_and,
    Int.reduceEq, false_and] at h
  case str.str s s' => exact congrArg Key.str (CString.ext (byteInts_injective h))
  case int.int i i' => exact congrArg Key.int (Int16.toInt_inj.1 h)
  case ulong.ulong u u' => exact congrArg Key.ulong (UInt32.toNat_inj.1 (Int.ofNat_inj.1 h))
  case dbl.dbl d d' => exact congrArg Key.dbl (doubleRank_injective h)
  case dhkey.dhkey k k' => exact congrArg Key.dhkey (Dhkey.value_injective (Int.ofNat_inj.1 h))
  case uuid.uuid u u' => exact congrArg Key.uuid (Uuid.ext (byteInts_injective h))
  case special.special u u' =>
    exact congrArg Key.special (UInt8.toNat_inj.1 (Int.ofNat_inj.1 h))

/-- Keys in the order of their types, and within a type in the order of their values. -/
instance : LinearOrder Key := LinearOrder.lift' rank rank_injective

lemma lt_iff_rank (a b : Key) : a < b ↔ rank a < rank b := Iff.rfl

def SignAgrees (a b : Key) : Prop := (elemCmp a b < 0 ↔ a < b) ∧ (elemCmp a b > 0 ↔ b < a)

lemma toInt16_of_small {n : Int} (hlo : -32768 ≤ n) (hhi : n ≤ 32767) : toInt16 n = n :=
  Int.bmod_eq_of_le hlo (by omega)

lemma byteCmp_bounds (a b : Bytes) : -255 ≤ byteCmp a b ∧ byteCmp a b ≤ 255 := by
  fun_induction byteCmp a b with
  | case1 => omega
  | case2 b bs =>
    have hb := b.toNat_lt
    omega
  | case3 a as =>
    have ha := a.toNat_lt
    omega
  | case4 as b bs ih => exact ih
  | case5 a as b bs hne =>
    have ha := a.toNat_lt
    have hb := b.toNat_lt
    omega

lemma toInt16_byteCmp (a b : Bytes) : toInt16 (byteCmp a b) = byteCmp a b := by
  have hb := byteCmp_bounds a b
  apply toInt16_of_small <;> omega

lemma byteCmp_eq_zero {a b : Bytes} (h : a.length = b.length) : byteCmp a b = 0 ↔ a = b := by
  fun_induction byteCmp a b with
  | case1 => simp
  | case2 b bs => simp at h
  | case3 a as => simp at h
  | case4 as b bs ih =>
    rw [ih (by simpa using h)]
    simp
  | case5 a as b bs hne =>
    have hnat : a.toNat ≠ b.toNat := fun heq => hne (UInt8.toNat_inj.mp heq)
    simp only [cons.injEq, hne, false_and, iff_false]
    omega

lemma byteCmp_sign {a b : Bytes} (h : a.length = b.length ∨ 0 ∉ a ∧ 0 ∉ b) :
    (byteCmp a b < 0 ↔ byteInts a < byteInts b) ∧ (byteCmp a b > 0 ↔ byteInts b < byteInts a) := by
  fun_induction byteCmp a b with
  | case1 => simp [byteInts]
  | case2 b bs =>
    have hb : b ≠ 0 := by
      rintro rfl
      simp at h
    have hpos : 0 < b.toNat := UInt8.pos_iff_ne_zero.2 hb
    simp only [byteInts, map_nil, map_cons, nil_lt_cons, not_lt_nil, iff_true, iff_false]
    omega
  | case3 a as =>
    have ha : a ≠ 0 := by
      rintro rfl
      simp at h
    have hpos : 0 < a.toNat := UInt8.pos_iff_ne_zero.2 ha
    simp only [byteInts, map_nil, map_cons, nil_lt_cons, not_lt_nil, iff_true, iff_false]
    omega
  | case4 as b bs ih =>
    have ih' := ih (by
      obtain hlen | ⟨ha, hb⟩ := h
      · exact .inl (by simpa using hlen)
      · exact .inr ⟨fun hm => ha (mem_cons_of_mem _ hm), fun hm => hb (mem_cons_of_mem _ hm)⟩)
    simpa [byteInts, cons_lt_cons_iff] using ih'
  | case5 a as b bs hne =>
    have hne' : (a.toNat : Int) ≠ b.toNat :=
      fun heq => hne (UInt8.toNat_inj.1 (Int.ofNat_inj.1 heq))
    simp only [byteInts, map_cons, cons_lt_cons_iff, hne', hne'.symm, false_and, or_false]
    omega

lemma rank_lt_cons (n : Int) (a b : List Int) : n :: a < n :: b ↔ a < b := by
  simp

lemma signAgrees_str (a b : CString) : SignAgrees (.str a) (.str b) := by
  have h := byteCmp_sign (a := a.bytes) (b := b.bytes) (.inr ⟨a.no_nul, b.no_nul⟩)
  simpa only [SignAgrees, elemCmp, toInt16_byteCmp, lt_iff_rank, rank, rank_lt_cons] using h

lemma signAgrees_uuid (a b : Uuid) : SignAgrees (.uuid a) (.uuid b) := by
  have h := byteCmp_sign (a := a.bytes) (b := b.bytes) (.inl (a.length_eq.trans b.length_eq.symm))
  simpa only [SignAgrees, elemCmp, toInt16_byteCmp, lt_iff_rank, rank, rank_lt_cons] using h

lemma singleton_lt (a b : Int) : [a] < [b] ↔ a < b := by
  simp [cons_lt_cons_iff]

lemma signAgrees_dhkey (a b : Dhkey) : SignAgrees (.dhkey a) (.dhkey b) := by
  have hcmp : toInt16 (Dhkey.cmp a b) = Dhkey.cmp a b := by
    rw [Dhkey.cmp_eq]
    split
    · rfl
    · split <;> rfl
  have hneg := Dhkey.cmp_neg_iff a b
  have hle := Dhkey.cmp_le_iff a b
  simp only [SignAgrees, elemCmp, hcmp, lt_iff_rank, rank, rank_lt_cons, singleton_lt]
  omega

lemma signAgrees_int {a b : Int16} (h : -32768 ≤ a.toInt - b.toInt ∧ a.toInt - b.toInt ≤ 32767) :
    SignAgrees (.int a) (.int b) := by
  simp only [SignAgrees, elemCmp, toInt16_of_small h.1 h.2, lt_iff_rank, rank, rank_lt_cons,
    singleton_lt]
  omega

end Neuropil.Tree.KeyOrder
