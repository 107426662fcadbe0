import Neuropil.Tree.Write

namespace Neuropil.Tree.Gather

open List Tree.RedBlack Tree.Removal Tree.Values Tree.Operations Tree.KeyOrder Tree.Ordered
  Tree.Effects

def ShortKey : Key → Prop
  | .int _ => True
  | .str s => s.bytes.length < 256
  | _ => False

variable {key : Key}

lemma storedKey_short {attr : TreeConf} (h : ShortKey key) : storedKey attr key = key := by
  cases key with
  | str s =>
    have hdup : s.dup 255 = s := CString.ext (take_of_length_le (Nat.le_of_lt_succ h))
    rw [storedKey, hdup, ite_self]
  | int i => rfl
  | _ => cases h

lemma search_cmp {κ ν : Type} {cmp : κ → κ → Int} {elm : κ} {path : Path κ ν} {t : Node κ ν}
    {c : Color} {l r : Node κ ν} {k : κ} {v : ν}
    (h : (search cmp elm path t).2 = .node c l k v r) : cmp elm k = 0 := by
  fun_induction search cmp elm path t with
  | case1 => cases h
  | case2 path c l k v r hlt ih => exact ih h
  | case3 path c l k v r hlt hgt ih => exact ih h
  | case4 path c l k v r hlt hgt =>
    cases h
    omega

lemma eq_of_elemCmp_int {a b : Int16} (h : elemCmp (.int a) (.int b) = 0) : a = b := by
  have ha := a.le_toInt
  have ha' := a.toInt_lt
  have hb := b.le_toInt
  have hb' := b.toInt_lt
  have hdvd : ((2 ^ 16 : ℕ) : Int) ∣ a.toInt - b.toInt := Int.dvd_of_bmod_eq_zero h
  exact Int16.toInt_inj.1 (by omega)

lemma eq_of_elemCmp_str {a b : CString} (h : elemCmp (.str a) (.str b) = 0) :
    Key.str a = Key.str b := by
  obtain ⟨hlt, hgt⟩ := signAgrees_str a b
  exact le_antisymm (not_lt.1 fun hba => by have := hgt.2 hba; omega)
    (not_lt.1 fun hab => by have := hlt.2 hab; omega)

variable {f : Found Key Treeval}

lemma key_of_found {tree : NpTree} (hf : treeFindElem tree key = some f) (hkey : ShortKey key)
    (hsho : ShortKey f.key) (htype : f.key.type ≤ key.type) : f.key = key := by
  have hcmp : elemCmp key f.key = 0 := by
    have hs := congrArg Prod.snd (rbFind_eq_some hf)
    exact search_cmp hs
  generalize f.key = k at *
  cases key with
  | int i =>
    cases k with
    | int j => rw [eq_of_elemCmp_int hcmp]
    | str s => simp [Key.type] at htype
    | _ => cases hsho
  | str s =>
    cases k with
    | int j => cases hcmp
    | str t => exact (eq_of_elemCmp_str hcmp).symm
    | _ => cases hsho
  | _ => cases hkey

lemma found_mem {tree : NpTree} (hf : treeFindElem tree key = some f) : f.key ∈ keys tree := by
  have he := entries_found hf
  simp [Effects.keys, he]

def Copy (val stored : Treeval) : Prop := Becomes (fun v w => w = v) (fun _ => True) val stored

structure Gathers (kept : Key → Prop) (items : List (Key × Treeval)) (tree : NpTree) : Prop where
  keys_iff : ∀ key, key ∈ keys tree ↔ key ∈ items.map Prod.fst ∧ kept key
  values : ∀ e ∈ entries tree.root, ∃ val, (e.1, val) ∈ items ∧ Copy val e.2

variable {kept : Key → Prop} {items : List (Key × Treeval)} {tree tree' : NpTree}
  {e : Key × Treeval}

lemma gathers_create : Gathers kept [] treeCreate :=
  ⟨by simp [Effects.keys, treeCreate, entries], by simp [treeCreate, entries]⟩

lemma Gathers.skip (h : Gathers kept items tree) (he : ¬ kept e.1) :
    Gathers kept (items ++ [e]) tree where
  keys_iff key := by
    rw [h.keys_iff]
    simp only [map_append, map_cons, map_nil, mem_append, mem_singleton]
    constructor
    · exact fun hk => ⟨.inl hk.1, hk.2⟩
    · rintro ⟨hk | rfl, hkept⟩
      · exact ⟨hk, hkept⟩
      · exact absurd hkept he
  values a ha := by
    obtain ⟨val, hmem, hcopy⟩ := h.values a ha
    exact ⟨val, mem_append_left _ hmem, hcopy⟩

lemma Gathers.insert (h : Gathers kept items tree) (hkept : kept e.1)
    (hsho : ∀ d ∈ items ++ [e], ShortKey d.1) (hrank : ∀ d ∈ items, d.1.type ≤ e.1.type)
    (hcopy : ∀ stored, copyOfVal e.2 = .ok stored → Copy e.2 stored)
    (heff : Effect tree (.insert e.1 e.2) tree') : Gathers kept (items ++ [e]) tree' := by
  have hkey : ShortKey e.1 := hsho e (by simp)
  cases heff with
  | present key val f hf =>
    obtain ⟨d, hd, hdkey⟩ := mem_map.1 ((h.keys_iff f.key).1 (found_mem hf)).1
    have heq : f.key = e.1 := key_of_found hf hkey (hdkey ▸ hsho d (mem_append_left _ hd))
      (hdkey ▸ hrank d hd)
    refine ⟨?_, ?_⟩
    · intro key
      simp only [map_append, map_cons, map_nil, mem_append, mem_singleton]
      constructor
      · intro hk
        obtain ⟨hk, hkept⟩ := (h.keys_iff key).1 hk
        exact ⟨.inl hk, hkept⟩
      · rintro ⟨hk | rfl, hkept⟩
        · exact (h.keys_iff key).2 ⟨hk, hkept⟩
        · exact heq ▸ found_mem hf
    · intro a ha
      obtain ⟨val, hmem, hcopy⟩ := h.values a ha
      exact ⟨val, mem_append_left _ hmem, hcopy⟩
  | cut _ hne => exact absurd (storedKey_short hkey) hne
  | @added _ val stored _ pre post hval hstd hold hnew =>
    cases hval
    have hnew' : entries tree'.root = pre ++ (e.1, stored) :: post := by
      rw [hnew]
      exact congrArg (fun key => pre ++ (key, stored) :: post) (storedKey_short hkey)
    have hkeys := h.keys_iff
    have hv := h.values
    simp only [Effects.keys, hold, map_append, mem_append] at hkeys hv
    refine ⟨?_, ?_⟩
    · intro key
      simp only [Effects.keys, hnew', map_append, map_cons, map_nil, mem_append,
        mem_cons, not_mem_nil, or_false]
      constructor
      · rintro (hk | rfl | hk)
        · exact ⟨.inl ((hkeys key).1 (.inl hk)).1, ((hkeys key).1 (.inl hk)).2⟩
        · exact ⟨.inr rfl, hkept⟩
        · exact ⟨.inl ((hkeys key).1 (.inr hk)).1, ((hkeys key).1 (.inr hk)).2⟩
      · rintro ⟨hk | rfl, hkk⟩
        · obtain hk | hk := (hkeys key).2 ⟨hk, hkk⟩
          · exact .inl hk
          · exact .inr (.inr hk)
        · exact .inr (.inl rfl)
    · intro a ha
      simp only [hnew', mem_append, mem_cons] at ha
      obtain ha | rfl | ha := ha
      · obtain ⟨val, hmem, hc⟩ := hv a (.inl ha)
        exact ⟨val, by simp [hmem], hc⟩
      · exact ⟨e.2, by simp, hcopy _ hstd⟩
      · obtain ⟨val, hmem, hc⟩ := hv a (.inr ha)
        exact ⟨val, by simp [hmem], hc⟩

end Neuropil.Tree.Gather
