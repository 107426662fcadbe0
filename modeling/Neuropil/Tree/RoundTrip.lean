import Neuropil.Tree.Gather
import Neuropil.Tree.Read

namespace Neuropil.Tree.RoundTrip

open List Lib.Buffer Lib.Cbor Lib.Fault Lib.Run Tree.RedBlack Tree.Removal Tree.Values
  Tree.Operations Tree.MapRuns Tree.Effects Tree.Write Tree.Read Tree.Gather

/-- The keys are numbers and short strings, no more of them than `size` can count. -/
structure Keyed (tree : NpTree) : Prop where
  short : ∀ key ∈ keys tree, ShortKey key
  count : (entries tree.root).length < 2 ^ 64

def Serializable (val : Treeval) : Prop := Everywhere (fun v => isWritten v = true) Keyed val

/-- A value as a tree holds it: trees inside it were built by insertions. -/
def Tidy (val : Treeval) : Prop :=
  Everywhere (fun v => isWritten v = true) (fun t => Keyed t ∧ Ranked (entries t.root)) val

structure TidyTree (tree : NpTree) : Prop where
  short : ∀ key ∈ keys tree, ShortKey key
  values : ∀ e ∈ entries tree.root, Tidy e.2

lemma tidyTree_create : TidyTree treeCreate :=
  ⟨by simp [Effects.keys, treeCreate, entries], by simp [treeCreate, entries]⟩

variable {tree : NpTree}

lemma TidyTree.tidy (h : TidyTree tree) (hrk : Ranked (entries tree.root))
    (hcount : (entries tree.root).length < 2 ^ 64) (kind : TreeKind) : Tidy (ofTree kind tree) :=
  everywhere_ofTree.2 ⟨⟨⟨h.short, hcount⟩, hrk⟩, h.values⟩

lemma TidyTree.effect {tree' : NpTree} {op : Op} (h : TidyTree tree)
    (hop : ∀ val, Op.val op = some val →
      ShortKey op.key ∧ ∀ stored, copyOfVal val = .ok stored → Tidy stored)
    (heff : Effect tree op tree') :
    TidyTree tree' ∧ (entries tree'.root).length ≤ (entries tree.root).length + 1 := by
  obtain ⟨hsho, hv⟩ := h
  have hv' := heff.values (fun val stored hval => (hop val hval).2 stored) hv
  refine ⟨⟨?_, hv'⟩, heff.length_le⟩
  cases heff with
  | looked | present | missing => exact hsho
  | cut hval hkey => exact absurd (storedKey_short (hop _ hval).1) hkey
  | added hval hcopy hold hnew =>
    have hkey := (hop _ hval).1
    rw [storedKey_short hkey] at hnew
    simp only [Effects.keys, hold, map_append, forall_mem_append] at hsho
    simp only [Effects.keys, hnew, map_append, map_cons, forall_mem_append, forall_mem_cons]
    exact ⟨hsho.1, hkey, hsho.2⟩
  | written hcopy hold hnew =>
    simp only [Effects.keys, hold, map_append, map_cons] at hsho
    simp only [Effects.keys, hnew, map_append, map_cons]
    exact hsho
  | removed hold hnew =>
    simp only [Effects.keys, hold, map_append, map_cons, forall_mem_append, forall_mem_cons] at hsho
    simp only [Effects.keys, hnew, map_append, forall_mem_append]
    exact ⟨hsho.1, hsho.2.2⟩

variable {val : Treeval}

lemma copyOfVal_written {stored : Treeval} (hpl : Plain val) (hw : isWritten val = true)
    (hcopy : copyOfVal val = .ok stored) : stored = val := by
  cases val with
  | jrbTree | cwt | coseSigned | coseEncrypted => cases hpl.isTree_eq_false
  | undefined | floatArray2 | charArray8 | unsignedCharArray8 | npobj | npvalCount =>
    cases hw
  | _ =>
    cases hcopy
    rfl

lemma copy_tidy :
    ∀ val, Serializable val → ∀ stored, copyOfVal val = .ok stored → Tidy stored := by
  apply treeval_induction
  · intro val hpl hser stored hcopy
    replace hser := (everywhere_plain hpl).1 hser
    rw [copyOfVal_written hpl hser hcopy]
    exact (everywhere_plain hpl).2 hser
  · intro kind tree ih hser stored hcopy
    obtain ⟨hkeyed, hv⟩ := everywhere_ofTree.1 hser
    have hstep : ∀ before target e target', before ++ [e] <+: entries tree.root →
        TidyTree target ∧ (entries target.root).length ≤ before.length → Copied target e target' →
        TidyTree target' ∧ (entries target'.root).length ≤ (before ++ [e]).length := by
      rintro before target e target' hb ⟨htidy, hlen⟩ hcp
      have he : e ∈ entries tree.root := hb.subset (by simp)
      have hkey : ShortKey e.1 := hkeyed.short e.1 (mem_map_of_mem he)
      rw [length_append, length_singleton]
      cases hcp with
      | skipped => exact ⟨htidy, by omega⟩
      | inserted heff =>
        obtain ⟨ht', hlen'⟩ := htidy.effect (by
          rintro val ⟨⟩
          exact ⟨hkey, ih e he (hv e he)⟩) heff
        exact ⟨ht', by omega⟩
    obtain ⟨target, hclone, hfr, htidy, hlen⟩ := clone_inv
      (fun before target => TidyTree target ∧ (entries target.root).length ≤ before.length)
      (fun e _ => copyOfVal_total e.2) ⟨tidyTree_create, le_rfl⟩ hstep
    rw [copyOfVal_ofTree, hclone] at hcopy
    cases hcopy
    have ht' : TidyTree { target with attr := ⟨false, tree.attr.immutable⟩ } :=
      ⟨htidy.short, htidy.values⟩
    exact ht'.tidy hfr.ranked (hlen.trans_lt hkeyed.count) kind

lemma Tidy.serializable : ∀ val, Tidy val → Serializable val := by
  apply treeval_induction
  · intro val hpl h
    exact (everywhere_plain hpl).2 ((everywhere_plain hpl).1 h)
  · intro kind tree ih h
    obtain ⟨⟨hkeyed, -⟩, hv⟩ := everywhere_ofTree.1 h
    exact everywhere_ofTree.2 ⟨hkeyed, fun e he => ih e he (hv e he)⟩

variable {items : List (Key × Treeval)} {e : Key × Treeval}

lemma type_le_of_ranked {before : List (Key × Treeval)} (h : Ranked items)
    (hb : before ++ [e] <+: items) : ∀ d ∈ before, d.1.type ≤ e.1.type := by
  intro d hd
  have hp : (before ++ [e]).Pairwise (fun a b => a.1.type ≤ b.1.type) := h.sublist hb.sublist
  exact (pairwise_append.1 hp).2.2 d hd e (by simp)

lemma copy_same : ∀ val, Tidy val → ∀ stored, copyOfVal val = .ok stored → Copy val stored := by
  apply treeval_induction
  · intro val hpl htidy stored hcopy
    replace htidy := (everywhere_plain hpl).1 htidy
    rw [copyOfVal_written hpl htidy hcopy]
    exact (becomes_plain hpl).2 ⟨hpl, rfl⟩
  · intro kind tree ih htidy stored hcopy
    obtain ⟨⟨hkeyed, hrk⟩, hv⟩ := everywhere_ofTree.1 htidy
    have hstep : ∀ before target e target', before ++ [e] <+: entries tree.root →
        Gathers (fun _ => True) before target → Copied target e target' →
        Gathers (fun _ => True) (before ++ [e]) target' := by
      intro before target e target' hb hg hcp
      have he : e ∈ entries tree.root := hb.subset (by simp)
      have hsho : ∀ d ∈ before ++ [e], ShortKey d.1 := fun d hd =>
        hkeyed.short d.1 (mem_map_of_mem (hb.subset hd))
      cases hcp with
      | skipped ush val => cases hsho (.special ush, val) (by simp)
      | inserted heff =>
        exact hg.insert trivial hsho (type_le_of_ranked hrk hb) (ih e he (hv e he)) heff
    obtain ⟨target, hclone, -, hg⟩ := clone_inv (Gathers (fun _ => True))
      (fun e _ => copyOfVal_total e.2) gathers_create hstep
    rw [copyOfVal_ofTree, hclone] at hcopy
    cases hcopy
    exact becomes_ofTree.2 ⟨tree, rfl, hg.keys_iff, hg.values⟩

def OneChar : Key → Prop
  | .str s => s.bytes.length = 1
  | _ => False

/-- What is read back of a value: no key of one character and no value out of range. -/
def Restored (val result : Treeval) : Prop :=
  Becomes (fun v w => w = restorePlain v) (fun key => ¬ OneChar key) val result

/-- With enough fuel the bytes of `val` are read as `result`. -/
def Reads (n : ℕ) (val result : Treeval) : Prop :=
  ∀ fuel, n ≤ fuel → ∀ rest, readType fuel treeCreate (writeType val ++ rest) = .ok (result, rest)

variable {result : Treeval}

lemma Reads.mono {m n : ℕ} (h : Reads m val result) (hmn : m ≤ n) : Reads n val result :=
  fun fuel hfuel rest => h fuel (hmn.trans hfuel) rest

structure ReadsPair (n : ℕ) (e m : Key × Treeval) : Prop where
  key_eq : m.1 = e.1
  reads : Reads n e.2 m.2
  restored : Restored e.2 m.2
  tidy : Tidy m.2

def insertRestored (tree : NpTree) (m : Key × Treeval) : Except Fault NpTree :=
  insertPair tree (restorePlain m.1.toTreeval) m.2

lemma readType_key {key : Key} (h : ShortKey key) (fuel : ℕ) (rest : Bytes) :
    readType (fuel + 1) treeCreate (writePlain key.toTreeval ++ rest) =
      .ok (restorePlain key.toTreeval, rest) := by
  cases key with
  | str s | int i => exact readType_writePlain (by rintro (_ | _ | _ | _) _ ⟨⟩) rfl fuel _ rest
  | _ => cases h

lemma writeElement_short (h : ShortKey e.1) :
    writeElement e = writePlain e.1.toTreeval ++ writeType e.2 := by
  obtain ⟨key, val⟩ := e
  cases key <;> first | rfl | cases h

variable {pairs : List (Key × Treeval)}

lemma readPairs_writeElements {n : ℕ} (h : List.Forall₂ (ReadsPair n) items pairs)
    (hsho : ∀ e ∈ items, ShortKey e.1) (fuel : ℕ) (hfuel : n ≤ fuel + 1) (tree : NpTree)
    (rest : Bytes) :
    readPairs (readType (fuel + 1)) items.length tree (items.flatMap writeElement ++ rest) =
      ((pairs.foldlM insertRestored tree).mapError .tree).map (fun tree => (tree, rest)) := by
  induction h generalizing tree with
  | nil => rfl
  | @cons e m items pairs hpair _ ih =>
    obtain ⟨hkey, hitems⟩ := forall_mem_cons.1 hsho
    rw [flatMap_cons, writeElement_short hkey, length_cons, readPairs,
      append_assoc, append_assoc, readType_key hkey, ok_bind]
    simp only [hpair.reads (fuel + 1) hfuel, ok_bind, foldlM_cons, insertRestored, hpair.key_eq]
    cases insertPair tree (restorePlain e.1.toTreeval) m.2 with
    | error f => rfl
    | ok tree' => exact ih hitems tree'

lemma insertRestored_eq (tree : NpTree) {m : Key × Treeval} (h : ShortKey m.1) :
    (OneChar m.1 ∧ insertRestored tree m = .ok tree) ∨
      (¬ OneChar m.1 ∧ insertRestored tree m = treeInsert tree m.1 m.2) := by
  obtain ⟨key, val⟩ := m
  cases key with
  | int i => exact .inr ⟨id, rfl⟩
  | str s =>
    by_cases hs : s.bytes.length = 1
    · obtain ⟨c, hc⟩ := length_eq_one_iff.1 hs
      refine .inl ⟨hs, ?_⟩
      simp only [insertRestored, Key.toTreeval, restorePlain, hc, insertPair]
    · refine .inr ⟨hs, ?_⟩
      have hr : restorePlain (.charPtr s) = .charPtr s := by
        rw [restorePlain]
        split
        · next c hc => exact absurd (by rw [hc]; rfl) hs
        · rfl
      simp only [insertRestored, Key.toTreeval, hr, insertPair]
  | _ => cases h

structure Rebuilt (pairs : List (Key × Treeval)) (tree : NpTree) : Prop where
  fresh : Fresh tree
  tidy : TidyTree tree
  count : (entries tree.root).length ≤ pairs.length
  gathers : Gathers (fun key => ¬ OneChar key) pairs tree

lemma exists_rebuilt (hrk : Ranked pairs) (hsho : ∀ m ∈ pairs, ShortKey m.1)
    (htidy : ∀ m ∈ pairs, Tidy m.2) :
    ∃ tree, pairs.foldlM insertRestored treeCreate = .ok tree ∧ Rebuilt pairs tree := by
  refine foldlM_inv Rebuilt ⟨fresh_create, tidyTree_create, le_rfl, gathers_create⟩ ?_
  intro before tree m hb h
  have hm : m ∈ pairs := hb.subset (by simp)
  have hcount : (before ++ [m]).length = before.length + 1 := by simp
  obtain ⟨hone, hins⟩ | ⟨hone, hins⟩ := insertRestored_eq tree (hsho m hm)
  · exact ⟨tree, hins, h.fresh, h.tidy, by have := h.count; omega,
      h.gathers.skip (fun hn => hn hone)⟩
  · obtain ⟨stored, hstd⟩ := copyOfVal_total m.2
    obtain ⟨tree', hins', hfr, heff⟩ := treeInsert_effect h.fresh m.1 hstd
    have hcps : ∀ stored, copyOfVal m.2 = .ok stored → Tidy stored :=
      copy_tidy m.2 (Tidy.serializable m.2 (htidy m hm))
    obtain ⟨ht', hlen⟩ := h.tidy.effect (by
      rintro val ⟨⟩
      exact ⟨hsho m hm, hcps⟩) heff
    refine ⟨tree', hins.trans hins', hfr, ht', by have := h.count; omega, ?_⟩
    exact h.gathers.insert hone (fun d hd => hsho d (hb.subset hd))
      (type_le_of_ranked hrk hb) (copy_same m.2 (htidy m hm)) heff

lemma exists_pairs
    (h : ∀ e ∈ items, ∃ result n, Reads n e.2 result ∧ Restored e.2 result ∧ Tidy result) :
    ∃ n pairs, List.Forall₂ (ReadsPair n) items pairs := by
  induction items with
  | nil => exact ⟨0, [], .nil⟩
  | cons e items ih =>
    obtain ⟨hh, htail⟩ := forall_mem_cons.1 h
    obtain ⟨result, n, hrds, hres, htidy⟩ := hh
    obtain ⟨m, pairs, hprs⟩ := ih htail
    refine ⟨max n m, (e.1, result) :: pairs, .cons ⟨rfl, ?_, hres, htidy⟩ ?_⟩
    · exact hrds.mono (le_max_left n m)
    · exact hprs.imp fun a b hab =>
        ⟨hab.key_eq, hab.reads.mono (le_max_right n m), hab.restored, hab.tidy⟩

section

variable {n : ℕ} {items pairs : List (Key × Treeval)} (h : List.Forall₂ (ReadsPair n) items pairs)
include h

lemma keys_pairs : pairs.map Prod.fst = items.map Prod.fst := by
  induction h with
  | nil => rfl
  | cons hpair _ ih => rw [map_cons, map_cons, hpair.key_eq, ih]

lemma ranked_pairs (hr : Ranked items) : Ranked pairs := by
  rw [Ranked, ← pairwise_map (f := Prod.fst) (R := fun a b : Key => a.type ≤ b.type)] at hr ⊢
  rwa [keys_pairs h]

lemma source_of_pair : ∀ m ∈ pairs, ∃ e ∈ items, ReadsPair n e m := by
  induction h with
  | nil => simp
  | @cons e m items pairs hpair _ ih =>
    simp only [forall_mem_cons]
    refine ⟨⟨e, mem_cons_self, hpair⟩, fun m hm => ?_⟩
    obtain ⟨e, he, hpair⟩ := ih m hm
    exact ⟨e, mem_cons_of_mem _ he, hpair⟩

end

lemma itemCount_eq {root : Node Key Treeval} (hsho : ∀ e ∈ entries root, ShortKey e.1)
    (hw : ∀ e ∈ entries root, isWritten e.2 = true) :
    itemCount root = 2 * (entries root).length := by
  induction root with
  | nil => rfl
  | node c left key val right ihl ihr =>
    simp only [entries, forall_mem_append, forall_mem_cons] at hsho hw
    have hkey : isKnownKey key = true := by
      have h := hsho.2.1
      cases key <;> first | rfl | cases h
    rw [itemCount, ihl hsho.1 hw.1, ihr hsho.2.2 hw.2.2, if_pos hkey,
      if_pos hw.2.1, entries, length_append, length_cons]
    omega

lemma isWritten_of_tidy (h : Tidy val) : isWritten val = true := by
  cases val <;> first | rfl | exact h

def kindTags : TreeKind → List ℕ
  | .jrbTree => []
  | .cwt => [61]
  | .coseSigned => [98]
  | .coseEncrypted => [96]

lemma decodeItem_tree (kind : TreeKind) (tree : NpTree)
    (hcount : itemCount tree.root / 2 < 2 ^ 64) (rest : Bytes) :
    decodeItem (writeType (ofTree kind tree) ++ rest) =
      some (⟨registryTag 20 :: kindTags kind, .map (itemCount tree.root / 2)⟩,
        writeElements tree.root ++ rest) := by
  obtain ⟨root, size, byteSize, attr⟩ := tree
  have hwf : (Data.map (itemCount root / 2)).WellFormed := hcount
  have hreg : registryTag 20 < 2 ^ 64 := by decide
  have htree : ∀ fuel tags, decodeTagged (fuel + 1 + 1) tags
      (writeTree ⟨root, size, byteSize, attr⟩ ++ rest) =
        some (⟨registryTag 20 :: tags, .map (itemCount root / 2)⟩, writeElements root ++ rest) := by
    intro fuel tags
    rw [writeTree, writeTagged, append_assoc, append_assoc, decodeTagged_tag hreg,
      decodeTagged_data hwf]
  cases kind with
  | jrbTree => exact htree 3 []
  | cwt | coseSigned | coseEncrypted =>
    exact htree 2 _

lemma restorePlain_plain (hpl : Plain val) : Plain (restorePlain val) := by
  cases val with
  | charPtr s | unsignedLongLong n =>
    rw [restorePlain]
    split <;> rintro (_ | _ | _ | _) _ ⟨⟩
  | _ => exact hpl

lemma isWritten_restorePlain (h : isWritten val = true) :
    isWritten (restorePlain val) = true := by
  cases val with
  | charPtr s | unsignedLongLong n =>
    rw [restorePlain]
    split <;> rfl
  | _ => exact h

lemma reads_plain (hpl : Plain val) (hw : isWritten val = true) :
    Reads 1 val (restorePlain val) := by
  intro fuel hfuel rest
  obtain ⟨fuel, rfl⟩ := Nat.exists_eq_add_of_le' hfuel
  rw [writeType_plain hpl, readType_writePlain hpl hw]

lemma reads_tree {n : ℕ} {kind : TreeKind} {result : NpTree} (htidy : Tidy (ofTree kind tree))
    (hprs : List.Forall₂ (ReadsPair n) (entries tree.root) pairs)
    (hres : pairs.foldlM insertRestored treeCreate = .ok result) :
    Reads (n + 2) (ofTree kind tree) (ofTree kind result) := by
  intro fuel hfuel rest
  obtain ⟨fuel, rfl⟩ := Nat.exists_eq_add_of_le' (Nat.le_of_add_left_le hfuel)
  obtain ⟨⟨hkeyed, -⟩, hv⟩ := everywhere_ofTree.1 htidy
  have hsho : ∀ e ∈ entries tree.root, ShortKey e.1 := fun e he =>
    hkeyed.short e.1 (mem_map_of_mem he)
  have hcount : itemCount tree.root / 2 = (entries tree.root).length := by
    rw [itemCount_eq hsho (fun e he => isWritten_of_tidy (hv e he))]
    omega
  have hread := readPairs_writeElements hprs hsho fuel (by omega) treeCreate rest
  rw [hres] at hread
  have hitem := decodeItem_tree kind tree (hcount ▸ hkeyed.count) rest
  rw [readType_item hitem, writeElements_eq, hcount]
  simp only [readItem, hread]
  cases kind <;> rfl

lemma read_restores : ∀ val, Tidy val →
    ∃ result n, Reads n val result ∧ Restored val result ∧ Tidy result := by
  apply treeval_induction
  · intro val hpl htidy
    have hwr : isWritten val = true := (everywhere_plain hpl).1 htidy
    have hpl' := restorePlain_plain hpl
    refine ⟨restorePlain val, 1, reads_plain hpl hwr, ?_, ?_⟩
    · exact (becomes_plain hpl').2 ⟨hpl, rfl⟩
    · exact (everywhere_plain hpl').2 (isWritten_restorePlain hwr)
  · intro kind tree ih htidy
    obtain ⟨⟨hkeyed, hrk⟩, hvs⟩ := everywhere_ofTree.1 htidy
    obtain ⟨n, pairs, hprs⟩ := exists_pairs (fun e he => ih e he (hvs e he))
    have hsrc := source_of_pair hprs
    have hsho : ∀ m ∈ pairs, ShortKey m.1 := by
      intro m hm
      obtain ⟨e, he, hpair⟩ := hsrc m hm
      rw [hpair.key_eq]
      exact hkeyed.short e.1 (mem_map_of_mem he)
    have htidy' : ∀ m ∈ pairs, Tidy m.2 := by
      intro m hm
      obtain ⟨e, -, hpair⟩ := hsrc m hm
      exact hpair.tidy
    obtain ⟨result, hres, hreb⟩ := exists_rebuilt (ranked_pairs hprs hrk) hsho htidy'
    refine ⟨ofTree kind result, n + 2, reads_tree htidy hprs hres, ?_, ?_⟩
    · refine becomes_ofTree.2 ⟨tree, rfl, ?_, ?_⟩
      · intro key
        rw [hreb.gathers.keys_iff, keys_pairs hprs, Effects.keys]
      · intro a ha
        obtain ⟨w, hw, hcopy⟩ := hreb.gathers.values a ha
        obtain ⟨e, he, hpair⟩ := hsrc _ hw
        obtain ⟨key, v⟩ := e
        obtain rfl : a.1 = key := hpair.key_eq
        refine ⟨v, he, Becomes.trans ?_ ?_ hpair.restored hcopy⟩
        · rintro u v w rfl rfl
          rfl
        · simp
    · have hlen : (entries result.root).length ≤ (entries tree.root).length :=
        hreb.count.trans_eq hprs.length_eq.symm
      exact hreb.tidy.tidy hreb.fresh.ranked (hlen.trans_lt hkeyed.count) kind

/-- Equal values; a string of one character and the character count as equal. -/
def equalPlain (val result : Treeval) : Prop :=
  result = val ∨ ∃ s c, val = .charPtr s ∧ s.bytes = [c] ∧ result = .char c

/-- The same keys, and for each key an equal value. -/
def Same (val result : Treeval) : Prop := Becomes equalPlain (fun _ => True) val result

def InRange : Treeval → Prop
  | .unsignedLongLong ull => ull.toNat < 2 ^ 63
  | _ => True

/-- No key of one character and no unsigned number of 2^63 and more, at any depth. -/
def Readable (val : Treeval) : Prop :=
  Everywhere InRange (fun tree => ∀ key ∈ keys tree, ¬ OneChar key) val

def DistinctKeys (val : Treeval) : Prop :=
  Everywhere (fun _ => True) (fun tree => (keys tree).Nodup) val

lemma equalPlain_restorePlain : equalPlain val (restorePlain val) ↔ InRange val := by
  cases val with
  | charPtr s =>
    simp only [InRange, iff_true, equalPlain, restorePlain]
    split
    · next c hc => exact .inr ⟨s, c, rfl, hc, rfl⟩
    · exact .inl rfl
  | unsignedLongLong n =>
    simp only [InRange, equalPlain, restorePlain]
    split_ifs with hn
    · exact ⟨fun _ => hn, fun _ => .inl rfl⟩
    · simp only [Treeval.unsignedLongLong.injEq, false_and, exists_false, or_false, hn, iff_false]
      rintro rfl
      exact hn (by decide)
  | _ => simp [InRange, equalPlain, restorePlain]

lemma Restored.same (h : Restored val result) (hread : Readable val) : Same val result := by
  induction result using treeval_induction generalizing val with
  | hpl result hpl =>
    obtain ⟨hval, rfl⟩ := (becomes_plain hpl).1 h
    exact (becomes_plain hpl).2
      ⟨hval, equalPlain_restorePlain.2 ((everywhere_plain hval).1 hread)⟩
  | htree kind t ih =>
    obtain ⟨s, rfl, hkeys, hvs⟩ := becomes_ofTree.1 h
    obtain ⟨hone, hread⟩ := everywhere_ofTree.1 hread
    refine becomes_ofTree.2 ⟨s, rfl, ?_, ?_⟩
    · intro key
      rw [hkeys, and_true]
      exact ⟨And.left, fun hk => ⟨hk, hone key hk⟩⟩
    · intro e he
      obtain ⟨v, hv, hres⟩ := hvs e he
      exact ⟨v, hv, ih e he hres (hread _ hv)⟩

lemma Restored.readable (h : Restored val result)
    (hdis : DistinctKeys val) (hsame : Same val result) : Readable val := by
  induction val using treeval_induction generalizing result with
  | hpl val hpl =>
    obtain rfl := h.of_plain hpl
    exact (everywhere_plain hpl).2 (equalPlain_restorePlain.1 (hsame.of_plain hpl))
  | htree kind s ih =>
    obtain ⟨hnd, hdis⟩ := everywhere_ofTree.1 hdis
    obtain ⟨t, rfl, hkeys, hvs⟩ := h.of_tree
    obtain ⟨t', heq, hkeys', hvs'⟩ := hsame.of_tree
    obtain ⟨-, rfl⟩ := ofTree_inj heq
    have hkept : ∀ key ∈ keys s, key ∈ keys t := fun key hk => (hkeys' key).2 ⟨hk, trivial⟩
    refine everywhere_ofTree.2 ⟨fun key hk => ((hkeys key).1 (hkept key hk)).2, ?_⟩
    rintro ⟨key, v⟩ he
    -- the only value of the key is the one that was restored
    have honly : ∀ v', (key, v') ∈ entries s.root → v' = v := fun v' hv' =>
      congrArg Prod.snd (inj_on_of_nodup_map hnd hv' he rfl)
    obtain ⟨⟨key', w⟩, hw, rfl⟩ := mem_map.1 (hkept key (mem_map_of_mem he))
    obtain ⟨v1, hv1, hres⟩ := hvs _ hw
    obtain ⟨v2, hv2, hequal⟩ := hvs' _ hw
    rw [honly v1 hv1] at hres
    rw [honly v2 hv2] at hequal
    exact ih _ he hres (hdis _ he) hequal

/-- The tree is written, read into an empty tree and found the same. -/
def RoundTrips (tree : NpTree) : Prop :=
  ∃ bytes result n,
    (∀ bufferSize, bytes.length ≤ bufferSize → writeMap bufferSize tree = .ok bytes) ∧
    (∀ fuel, n ≤ fuel → readMap fuel treeCreate bytes = .ok result) ∧
    Same (.jrbTree tree) (.jrbTree result)

lemma writeMap_eq_ok {bufferSize : ℕ} {bytes : Bytes} (h : writeMap bufferSize tree = .ok bytes) :
    bytes = writeType (.jrbTree tree) := by
  rw [writeMap] at h
  split at h
  · cases h
    rfl
  · cases h

lemma becomes_of_root_eq {plain : Treeval → Treeval → Prop} {kept : Key → Prop} {t t' : NpTree}
    (hroot : t'.root = t.root) (h : Becomes plain kept val (ofTree .jrbTree t)) :
    Becomes plain kept val (ofTree .jrbTree t') := by
  obtain ⟨s, rfl, hkeys, hv⟩ := becomes_ofTree.1 h
  refine becomes_ofTree.2 ⟨s, rfl, ?_, ?_⟩
  · rwa [Effects.keys, hroot]
  · rwa [hroot]

section

variable (htidy : Tidy (ofTree .jrbTree tree))
include htidy

lemma exists_roundTrips_iff : ∃ result, Restored (.jrbTree tree) (.jrbTree result) ∧
      (RoundTrips tree ↔ Same (.jrbTree tree) (.jrbTree result)) := by
  obtain ⟨val, n, hrds, hres, -⟩ := read_restores _ htidy
  obtain ⟨t, rfl, -⟩ := Becomes.of_tree hres
  have hread : ∀ fuel, n ≤ fuel →
      readMap fuel treeCreate (writeType (.jrbTree tree)) = .ok (finishRead t) := by
    intro fuel hfuel
    have h := hrds fuel hfuel []
    rw [append_nil] at h
    change readType fuel treeCreate (writeType (.jrbTree tree)) = _ at h
    rw [readMap, h]
    rfl
  refine ⟨finishRead t, becomes_of_root_eq (finishRead_root t) hres, ?_, ?_⟩
  · rintro ⟨bytes, result, m, hw, hr', hsame⟩
    obtain rfl := writeMap_eq_ok (hw bytes.length le_rfl)
    have hrsl := (hread (max m n) (le_max_right m n)).symm.trans (hr' (max m n) (le_max_left m n))
    cases hrsl
    exact hsame
  · intro hsame
    exact ⟨_, finishRead t, n, fun bufferSize hsize => if_pos hsize, hread, hsame⟩

lemma roundTrips_of_readable (h : Readable (.jrbTree tree)) : RoundTrips tree := by
  obtain ⟨result, hres, hiff⟩ := exists_roundTrips_iff htidy
  exact hiff.2 (hres.same h)

lemma readable_of_roundTrips (hd : DistinctKeys (.jrbTree tree)) (h : RoundTrips tree) :
    Readable (.jrbTree tree) := by
  obtain ⟨result, hres, hiff⟩ := exists_roundTrips_iff htidy
  exact hres.readable hd (hiff.1 h)

end

def SerializableOp (op : Op) : Prop :=
  ∀ val, Op.val op = some val → ShortKey op.key ∧ Serializable val

def Reached (ops : List Op) (r : Except Fault State) : Prop :=
  ∃ s, r = .ok s ∧ Fresh s.tree ∧ TidyTree s.tree ∧ (entries s.tree.root).length ≤ ops.length

lemma run_reached (ops : List Op) (hops : ∀ op ∈ ops, SerializableOp op) :
    Reached ops (run step (start false) ops) := by
  induction ops using List.reverseRecOn with
  | nil => exact ⟨_, rfl, fresh_create, tidyTree_create, le_rfl⟩
  | append_singleton before op ih =>
    obtain ⟨s, hs, hfr, htidy, hlen⟩ := ih fun op hop => hops op (mem_append_left _ hop)
    obtain ⟨s', hcall, hf', heff⟩ := call_effect hfr op
    obtain ⟨ht', hlen'⟩ := htidy.effect (fun val hval => by
      obtain ⟨hkey, hser⟩ := hops op (by simp) val hval
      exact ⟨hkey, copy_tidy val hser⟩) heff
    refine ⟨s', ?_, hf', ht', ?_⟩
    · rw [run_concat, hs]
      exact hcall
    · rw [length_append, length_singleton]
      omega

/-- A tree without keys of one character and without unsigned numbers of 2^63 and more is read back
from its bytes. If its keys are distinct, no other tree is. -/
theorem tree_round_trips (ops : List Op) (hops : ∀ op ∈ ops, SerializableOp op)
    (hlen : ops.length < 2 ^ 64) :
    ∃ s, run step (start false) ops = .ok s ∧
      (Readable (.jrbTree s.tree) → RoundTrips s.tree) ∧
      (DistinctKeys (.jrbTree s.tree) → RoundTrips s.tree → Readable (.jrbTree s.tree)) := by
  obtain ⟨s, hs, hfr, htidy, hcount⟩ := run_reached ops hops
  have ht' : Tidy (ofTree .jrbTree s.tree) :=
    htidy.tidy hfr.ranked (hcount.trans_lt hlen) .jrbTree
  exact ⟨s, hs, roundTrips_of_readable ht', readable_of_roundTrips ht'⟩

def sampleName : CString := ⟨[110, 112], by decide, by decide⟩

def sampleOps : List Op :=
  [.insert (.str sampleName) (.jrbTree
      ⟨.node .black .nil (.int 5) (.longLong (-1)) .nil, 1, 0, ⟨false, false⟩⟩),
    .insert (.int 1) (.unsignedInt 40000), .del (.int 7)]

lemma sampleOps_serializable : ∀ op ∈ sampleOps, SerializableOp op := by
  simp only [sampleOps, forall_mem_cons]
  refine ⟨?_, ?_, ?_, by simp⟩
  · rintro _ ⟨⟩
    refine ⟨by change sampleName.bytes.length < 256; decide, ?_, trivial, rfl, trivial⟩
    exact ⟨by simp [Effects.keys, entries, ShortKey], by simp [entries]⟩
  · rintro _ ⟨⟩
    exact ⟨trivial, rfl⟩
  · rintro _ ⟨⟩

theorem sample_tree_round_trips :
    ∃ s, run step (start false) sampleOps = .ok s ∧
      (Readable (.jrbTree s.tree) → RoundTrips s.tree) ∧
      (DistinctKeys (.jrbTree s.tree) → RoundTrips s.tree → Readable (.jrbTree s.tree)) :=
  tree_round_trips sampleOps sampleOps_serializable (by decide)

def sampleLetter : CString := ⟨[97], by decide, by decide⟩

def letterTree : NpTree :=
  ⟨.node .black .nil (.str sampleLetter) (.int 1) .nil, 1, 6, ⟨false, false⟩⟩

lemma letterTree_tidy : Tidy (ofTree .jrbTree letterTree) := by
  refine everywhere_ofTree.2 ⟨⟨⟨?_, ?_⟩, ?_⟩, ?_⟩
  · simp [letterTree, Effects.keys, entries, ShortKey, sampleLetter]
  · simp [letterTree, entries]
  · simp [letterTree, entries, Ranked]
  · simp only [letterTree, entries, nil_append, forall_mem_singleton]
    rfl

lemma letterTree_distinct : DistinctKeys (ofTree .jrbTree letterTree) := by
  refine everywhere_ofTree.2 ⟨?_, ?_⟩
  · simp [letterTree, Effects.keys, entries]
  · simp only [letterTree, entries, nil_append, forall_mem_singleton]
    trivial

/-- A key of one character is lost. -/
theorem one_char_key_lost :
    ∃ s, run step (start false) [.insert (.str sampleLetter) (.int 1)] = .ok s ∧
      ¬ RoundTrips s.tree := by
  refine ⟨⟨letterTree, []⟩, rfl, fun h => ?_⟩
  have hread : Readable (ofTree .jrbTree letterTree) :=
    readable_of_roundTrips letterTree_tidy letterTree_distinct h
  obtain ⟨hkeys, -⟩ := everywhere_ofTree.1 hread
  exact hkeys (.str sampleLetter) (by simp [letterTree, Effects.keys, entries]) rfl

end Neuropil.Tree.RoundTrip
