import Mathlib.Data.List.Basic
import Mathlib.Data.Nat.Bitwise

namespace Neuropil.Network.Tuples

structure Inet where
  pton4 : List Char → Option UInt32
  pton6 : List Char → Option (Vector UInt8 16)
  no_colon : ∀ text, ':' ∈ text → pton4 text = none
  colon : ∀ text, ':' ∉ text → pton6 text = none

def clz (x : UInt32) : Option ℕ := if x = 0 then none else some (31 - x.toNat.log2)

def countPairs (common_tuples : ℕ) : List UInt8 → List UInt8 → ℕ
  | r :: r' :: remote, n :: n' :: node =>
    if r = n ∧ r' = n' then countPairs (common_tuples + 1) remote node else common_tuples
  | _, _ => common_tuples

variable (inet : Inet) (remote_ip local_ip : List Char)

/-- `_np_network_count_common_tuples`; no value where the behaviour is undefined. -/
def countCommonTuples : Option ℕ :=
  if decide (':' ∈ remote_ip) ≠ decide (':' ∈ local_ip) then some 0
  else if ':' ∉ remote_ip then
    match inet.pton4 remote_ip, inet.pton4 local_ip with
    | some r_addr, some n_addr => (clz (r_addr ^^^ n_addr)).map (· >>> 3)
    | _, _ => some 0
  else
    match inet.pton6 remote_ip, inet.pton6 local_ip with
    | some remote, some node => some (countPairs 0 remote.toList node.toList)
    | _, _ => some 0

def leading {α : Type} [DecidableEq α] : List α → List α → ℕ
  | a :: as, b :: bs => if a = b then leading as bs + 1 else 0
  | _, _ => 0

def octets (a : UInt32) : List ℕ := [24, 16, 8, 0].map fun k => a.toNat / 2 ^ k % 256

def groups : List UInt8 → List (UInt8 × UInt8)
  | a :: b :: rest => (a, b) :: groups rest
  | _ => []

/-- What the count is to be for two texts. -/
def commonTuples : ℕ :=
  match inet.pton4 remote_ip, inet.pton4 local_ip with
  | some r, some n => leading (octets r) (octets n)
  | _, _ =>
    match inet.pton6 remote_ip, inet.pton6 local_ip with
    | some r, some n => leading (groups r.toList) (groups n.toList)
    | _, _ => 0

lemma countPairs_eq (common_tuples : ℕ) (remote node : List UInt8) :
    countPairs common_tuples remote node =
      common_tuples + leading (groups remote) (groups node) := by
  fun_induction countPairs common_tuples remote node with
  | case1 common r r' remote n n' node h ih =>
    rw [ih, groups, groups, leading, if_pos (Prod.ext h.1 h.2)]
    omega
  | case2 common r r' remote n n' node h =>
    rw [groups, groups, leading, if_neg (fun he => h (Prod.mk.inj he)), Nat.add_zero]
  | case3 remote common node h =>
    match remote, node with
    | [], _ | [_], _ | _ :: _ :: _, [] | _ :: _ :: _, [_] => simp [groups, leading]
    | _ :: _ :: _, _ :: _ :: _ => exact absurd rfl (h _ _ _ _ _ _ rfl)

lemma div_eq_iff (a b k : ℕ) : a / 2 ^ k = b / 2 ^ k ↔ a ^^^ b < 2 ^ k := by
  rw [← Nat.xor_eq_zero_iff, ← Nat.xor_div_two_pow, Nat.div_eq_zero_iff]
  simp

lemma octet_eq_iff {a b k : ℕ} (hne : a ^^^ b ≠ 0) (h : (a ^^^ b).log2 < k + 8) :
    a / 2 ^ k % 256 = b / 2 ^ k % 256 ↔ (a ^^^ b).log2 < k := by
  rw [Nat.log2_lt hne, ← div_eq_iff] at h ⊢
  rw [Nat.pow_add, ← Nat.div_div_eq_div_mul, ← Nat.div_div_eq_div_mul] at h
  omega

lemma clz_octets {r n : UInt32} (h : r ≠ n) :
    (clz (r ^^^ n)).map (· >>> 3) = some (leading (octets r) (octets n)) := by
  have hne : r ^^^ n ≠ 0 := fun h0 => h (UInt32.xor_eq_zero_iff.1 h0)
  have hpos : (r ^^^ n).toNat ≠ 0 := fun h0 => hne (UInt32.toNat_inj.1 h0)
  have h32 : (r ^^^ n).toNat.log2 < 24 + 8 := (Nat.log2_lt hpos).2 (r ^^^ n).toNat_lt
  rw [clz, if_neg hne]
  rw [UInt32.toNat_xor] at *
  simp only [octets, leading, List.map_cons, List.map_nil, Option.map_some, Option.some.injEq,
    Nat.shiftRight_eq_div_pow, octet_eq_iff hpos h32]
  -- an octet is compared only if those before it are equal
  by_cases h24 : (r.toNat ^^^ n.toNat).log2 < 24
  · simp only [h24, if_true, octet_eq_iff (k := 16) hpos h24]
    by_cases h16 : (r.toNat ^^^ n.toNat).log2 < 16
    · simp only [h16, if_true, octet_eq_iff (k := 8) hpos h16]
      by_cases h8 : (r.toNat ^^^ n.toNat).log2 < 8
      · simp only [h8, if_true, octet_eq_iff (k := 0) hpos h8, Nat.not_lt_zero, if_false]
        omega
      · simp only [h8, if_false]
        omega
    · simp only [h16, if_false]
      omega
  · simp only [h24, if_false]
    omega

/-- The count is right exactly if the texts are not two of the same IPv4 address. -/
theorem common_tuples_iff :
    countCommonTuples inet remote_ip local_ip = some (commonTuples inet remote_ip local_ip) ↔
      ∀ a, inet.pton4 remote_ip = some a → inet.pton4 local_ip ≠ some a := by
  rw [countCommonTuples, commonTuples]
  by_cases hr : ':' ∈ remote_ip <;> by_cases hl : ':' ∈ local_ip
  · rw [inet.no_colon _ hr]
    cases inet.pton6 remote_ip with
    | none => simp [hr, hl]
    | some r =>
      cases inet.pton6 local_ip with
      | none => simp [hr, hl]
      | some n => simp [hr, hl, countPairs_eq]
  · simp [hr, hl, inet.no_colon, inet.colon]
  · simp [hr, hl, inet.no_colon, inet.colon]
  · rw [inet.colon _ hr]
    cases inet.pton4 remote_ip with
    | none => simp [hr, hl]
    | some r =>
      cases inet.pton4 local_ip with
      | none => simp [hr, hl]
      | some n =>
        by_cases heq : r = n
        · simp [hr, hl, heq, clz]
        · simp [hr, hl, heq, clz_octets, Ne.symm heq]

def loopback : Inet where
  pton4 text := if text = "127.0.0.1".toList then some 0x7f000001 else none
  pton6 _ := none
  no_colon := by
    intro text h
    rw [if_neg]
    rintro rfl
    exact absurd h (by decide)
  colon _ _ := rfl

theorem same_address_undefined :
    countCommonTuples loopback "127.0.0.1".toList "127.0.0.1".toList = none ∧
      commonTuples loopback "127.0.0.1".toList "127.0.0.1".toList = 4 := by
  decide

end Neuropil.Network.Tuples
