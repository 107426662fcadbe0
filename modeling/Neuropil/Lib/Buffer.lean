import Mathlib.Data.List.Basic
import Mathlib.Tactic.Ring

namespace Neuropil.Lib.Buffer

open List

abbrev Bytes := List UInt8

def leVal : Bytes → ℕ
  | [] => 0
  | b :: bs => b.toNat + 256 * leVal bs

def leBytes : ℕ → ℕ → Bytes
  | 0, _ => []
  | len + 1, n => UInt8.ofNat n :: leBytes len (n / 256)

@[simp] lemma length_leBytes (len n : ℕ) : (leBytes len n).length = len := by
  induction len generalizing n with
  | zero => rfl
  | succ len ih => simp [leBytes, ih]

lemma leVal_lt (bs : Bytes) : leVal bs < 256 ^ bs.length := by
  induction bs with
  | nil => simp [leVal]
  | cons b bs ih =>
    have hb : b.toNat < 256 := b.toNat_lt
    simp only [leVal, length_cons, Nat.pow_succ]
    omega

lemma leVal_leBytes (len n : ℕ) : leVal (leBytes len n) = n % 256 ^ len := by
  induction len generalizing n with
  | zero => simp [leBytes, leVal, Nat.mod_one]
  | succ len ih =>
    have hb : (UInt8.ofNat n).toNat = n % 256 := by simp
    rw [leBytes, leVal, ih, hb, Nat.pow_succ, Nat.mul_comm (256 ^ len), Nat.mod_mul]

lemma leBytes_leVal (bs : Bytes) : leBytes bs.length (leVal bs) = bs := by
  induction bs with
  | nil => rfl
  | cons b bs ih =>
    have hb : b.toNat < 256 := b.toNat_lt
    have hd : (b.toNat + 256 * leVal bs) / 256 = leVal bs := by omega
    have hm : UInt8.ofNat (b.toNat + 256 * leVal bs) = b := by
      apply UInt8.toNat.inj
      simp only [UInt8.toNat_ofNat']
      omega
    simp only [length_cons, leBytes, leVal, hd, hm, ih]

def slice (buf : Bytes) (off len : ℕ) : Bytes := (buf.drop off).take len

def writeAt (buf : Bytes) (off : ℕ) (bs : Bytes) : Bytes :=
  buf.take off ++ bs ++ buf.drop (off + bs.length)

@[simp] lemma length_slice (buf : Bytes) (off len : ℕ) :
    (slice buf off len).length = min len (buf.length - off) := by
  simp [slice]

section

variable (buf : Bytes) (off : ℕ) (bs : Bytes)
include buf off bs

lemma length_writeAt (h : off + bs.length ≤ buf.length) :
    (writeAt buf off bs).length = buf.length := by
  simp only [writeAt, length_append, length_take, length_drop]
  omega

lemma le_length_writeAt : buf.length ≤ (writeAt buf off bs).length := by
  simp only [writeAt, length_append, length_take, length_drop]
  omega

lemma slice_writeAt_same (h : off + bs.length ≤ buf.length) :
    slice (writeAt buf off bs) off bs.length = bs := by
  have hl : (buf.take off).length = off := by simp; omega
  rw [slice, writeAt, append_assoc, drop_append_of_le_length (by omega),
    drop_eq_nil_of_le (by omega), nil_append, take_left]

variable (o l : ℕ) (h : off + bs.length ≤ buf.length)
include h

lemma slice_writeAt_before (ho : o + l ≤ off) :
    slice (writeAt buf off bs) o l = slice buf o l := by
  apply ext_getElem?
  intro i
  by_cases hi : i < l
  · have h1 : o + i < (buf.take off).length := by simp; omega
    simp only [slice, writeAt, getElem?_take, hi, ↓reduceIte, getElem?_drop,
      append_assoc, getElem?_append_left h1]
    rw [if_pos (by omega)]
  · simp [slice, hi]

lemma slice_writeAt_after (ho : off + bs.length ≤ o) :
    slice (writeAt buf off bs) o l = slice buf o l := by
  have hl : (buf.take off ++ bs).length = off + bs.length := by simp; omega
  rw [slice, slice, writeAt, drop_append, drop_eq_nil_of_le (by omega), hl, nil_append, drop_drop]
  congr 2
  omega

lemma slice_writeAt_of_disjoint (ho : o + l ≤ off ∨ off + bs.length ≤ o) :
    slice (writeAt buf off bs) o l = slice buf o l :=
  ho.elim (slice_writeAt_before buf off bs o l h) (slice_writeAt_after buf off bs o l h)

end

lemma slice_slice (buf : Bytes) {off len o l : ℕ} (h : o + l ≤ len) :
    slice (slice buf off len) o l = slice buf (off + o) l := by
  rw [slice, slice, slice, drop_take, take_take, drop_drop, min_eq_left (by omega)]

lemma slice_append_slice (buf : Bytes) (off l m : ℕ) :
    slice buf off l ++ slice buf (off + l) m = slice buf off (l + m) := by
  rw [slice, slice, slice, ← drop_drop, ← take_add]

/-- One field after the other is written, each at its offset. -/
def writeAll (buf : Bytes) : List (ℕ × Bytes) → Bytes
  | [] => buf
  | f :: fields => writeAll (writeAt buf f.1 f.2) fields

def Fits (buf : Bytes) (fields : List (ℕ × Bytes)) : Prop :=
  ∀ f ∈ fields, f.1 + f.2.length ≤ buf.length

section

variable {buf : Bytes} {f : ℕ × Bytes} {fields : List (ℕ × Bytes)} {o l : ℕ}

lemma Fits.tail (h : Fits buf (f :: fields)) : Fits (writeAt buf f.1 f.2) fields := by
  obtain ⟨hf, hfie⟩ := forall_mem_cons.mp h
  rwa [Fits, length_writeAt _ _ _ hf]

lemma length_writeAll (h : Fits buf fields) : (writeAll buf fields).length = buf.length := by
  induction fields generalizing buf with
  | nil => rfl
  | cons f fields ih =>
    rw [writeAll, ih h.tail, length_writeAt _ _ _ (h f mem_cons_self)]

lemma slice_writeAll_of_disjoint (h : Fits buf fields)
    (hd : ∀ f ∈ fields, o + l ≤ f.1 ∨ f.1 + f.2.length ≤ o) :
    slice (writeAll buf fields) o l = slice buf o l := by
  induction fields generalizing buf with
  | nil => rfl
  | cons f fields ih =>
    obtain ⟨hf, hfie⟩ := forall_mem_cons.mp hd
    rw [writeAll, ih h.tail hfie, slice_writeAt_of_disjoint _ _ _ _ _ (h f mem_cons_self) hf]

lemma slice_writeAll_of_mem (h : Fits buf fields)
    (hp : fields.Pairwise fun f g => f.1 + f.2.length ≤ g.1) (hf : f ∈ fields) :
    slice (writeAll buf fields) f.1 f.2.length = f.2 := by
  induction fields generalizing buf with
  | nil => cases hf
  | cons g fields ih =>
    obtain ⟨hg, hp⟩ := pairwise_cons.mp hp
    obtain rfl | hf := mem_cons.mp hf
    · rw [writeAll, slice_writeAll_of_disjoint h.tail (fun f hf => .inl (hg f hf))]
      exact slice_writeAt_same _ _ _ (h _ mem_cons_self)
    · exact ih h.tail hp hf

end

lemma writeAt_nil {buf : Bytes} {off : ℕ} : writeAt buf off [] = buf := by
  simp [writeAt]

lemma writeAt_slice (buf : Bytes) (off len : ℕ) : writeAt buf off (slice buf off len) = buf := by
  have hdrop : buf.drop (off + (slice buf off len).length) = (buf.drop off).drop len := by
    rw [length_slice, drop_drop]
    obtain hle | hlt := le_total len (buf.length - off)
    · rw [min_eq_left hle]
    · rw [min_eq_right hlt, drop_eq_nil_of_le (by omega), drop_eq_nil_of_le (by omega)]
  rw [writeAt, hdrop, slice, append_assoc, take_append_drop, take_append_drop]

lemma writeAt_before_tail (buf : Bytes) (off : ℕ) (bs tail : Bytes)
    (h : off + bs.length ≤ buf.length) : writeAt (writeAt buf (off + bs.length) tail) off bs =
      buf.take off ++ (bs ++ (tail ++ buf.drop (off + bs.length + tail.length))) := by
  have hlen : (buf.take (off + bs.length)).length = off + bs.length := by simp; omega
  have htake : (writeAt buf (off + bs.length) tail).take off = buf.take off := by
    rw [writeAt, append_assoc, take_append_of_le_length (by omega), take_take,
      min_eq_left (by omega)]
  have hd : (writeAt buf (off + bs.length) tail).drop (off + bs.length) =
      tail ++ buf.drop (off + bs.length + tail.length) := by
    rw [writeAt, append_assoc, drop_left' hlen]
  rw [writeAt, htake, hd, append_assoc]

def cut (buf : Bytes) : ℕ → List ℕ → List Bytes
  | _, [] => []
  | off, size :: sizes => slice buf off size :: cut buf (off + size) sizes

lemma flatten_cut (buf : Bytes) (off : ℕ) (sizes : List ℕ) :
    (cut buf off sizes).flatten = slice buf off sizes.sum := by
  induction sizes generalizing off with
  | nil => simp [cut, slice]
  | cons size sizes ih => rw [cut, flatten_cons, ih, slice_append_slice, sum_cons]

lemma slice_all (buf : Bytes) : slice buf 0 buf.length = buf := by simp [slice]

end Neuropil.Lib.Buffer
