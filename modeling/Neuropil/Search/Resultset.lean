import Neuropil.Tree.Effects
import Neuropil.Tree.Keyed

namespace Neuropil.Search.Resultset

open Function List Lib.Fault Tree.RedBlack Tree.Removal Tree.Values Tree.Operations Tree.KeyOrder
  Tree.Ordered Tree.MapRuns Tree.Effects Tree.Keyed

inductive ResultFault
  | tree (f : Fault)
  | nullDereference
  -- a value that is no pointer to a search result
  | dangling

/-- np_searchresult_t, as far as _reduce_np_searchentry fills it in. -/
structure SearchResult (ε F : Type) where
  hit_counter : UInt8
  label : CString
  level : F
  result_entry : ε

/-- The results of one query: a tree of pointers by subject, and the memory they point to. -/
structure Results (ε F : Type) where
  tree : NpTree
  heap : ℕ → Option (SearchResult ε F)
  fresh : ℕ

variable {ε F : Type}

def resultsInit : Results ε F := ⟨treeCreate, fun _ => none, 0⟩

section

variable [LT F] [DecidableLT F] (subject : ε → CString) (similarity : ε → ε → F)

def hitAgain (it_1 it_2 : ε) (result : SearchResult ε F) : SearchResult ε F :=
  let level := similarity it_1 it_2
  { result with
    hit_counter := result.hit_counter + 1
    level := if result.level < level then level else result.level }

def newResult (it_1 it_2 : ε) : SearchResult ε F :=
  ⟨1, (subject it_2).dup 255, similarity it_1 it_2, it_2⟩

def reduceNpSearchentry (it_1 : ε) (s : Results ε F) :
    Option ε → Except ResultFault (Results ε F × Bool)
  | none => .ok (s, false)
  | some it_2 =>
    match treeFind s.tree (.str (subject it_2)) with
    | some (.void p) =>
      match s.heap p with
      | some result =>
        .ok ({ s with
          heap := update s.heap p (some (hitAgain similarity it_1 it_2 result)) }, true)
      | none => .error .dangling
    | some _ => .error .dangling
    | none => do
      let tree ← (treeInsert s.tree (.str (subject it_2)) (.void s.fresh)).mapError .tree
      .ok (⟨tree, update s.heap s.fresh (some (newResult subject similarity it_1 it_2)),
        s.fresh + 1⟩, true)

def collect (it_1 : ε) (found : List (Option ε)) : Except ResultFault (Results ε F) :=
  found.foldlM (fun s element => (reduceNpSearchentry subject similarity it_1 s element).map
    Prod.fst) resultsInit

end

def hitKey (hit_counter : UInt8) : Key := .int (Int16.ofNat hit_counter.toNat)

def insertResult (heap : ℕ → Option (SearchResult ε F)) (result_tree : NpTree)
    (tmp : Key × Treeval) : Except ResultFault NpTree :=
  match tmp.2 with
  | .void p =>
    match heap p with
    | some result => (treeInsert result_tree (hitKey result.hit_counter) (.void p)).mapError .tree
    | none => .error .dangling
  | _ => .error .dangling

/-- np_search_get_resultset, with whether the module is initiated, whether the pipeline of the
query is there, and the results of the query. -/
def searchGetResultset (initiated pipeline : Bool) (results : Option (Results ε F))
    (result_tree : NpTree) : Except ResultFault (NpTree × Bool) :=
  if !initiated then .ok (result_tree, false)
  else if !pipeline then .error .nullDereference
  else
    match results with
    -- only the test of the size looks for NULL, the loop does not
    | none => .error .nullDereference
    | some s =>
      if s.tree.size = 0 then .ok (result_tree, false)
      else ((entries s.tree.root).foldlM (insertResult s.heap) result_tree).map (·, true)

def hitOf (heap : ℕ → Option (SearchResult ε F)) : Treeval → Option UInt8
  | .void p => (heap p).map SearchResult.hit_counter
  | _ => none

def hits (s : Results ε F) : List (Option UInt8) :=
  (entries s.tree.root).map fun e => hitOf s.heap e.2

structure Collected (s : Results ε F) : Prop where
  fresh : Fresh s.tree
  result : ∀ e ∈ entries s.tree.root, ∃ p < s.fresh, e.2 = .void p ∧ (s.heap p).isSome
  nodup : ((entries s.tree.root).map Prod.snd).Nodup
  count : (entries s.tree.root).length ≤ s.tree.size

/-- The tree has every collected result once, in the order of the hit counters. -/
structure Complete (s : Results ε F) (result_tree : NpTree) : Prop where
  once : ((entries result_tree.root).map Prod.snd).Perm ((entries s.tree.root).map Prod.snd)
  ordered : (entries result_tree.root).Pairwise fun a b =>
    ∀ hit ∈ hitOf s.heap a.2, ∀ hit' ∈ hitOf s.heap b.2, hit ≤ hit'

variable {e : Key × Treeval}

lemma Collected.hit {s : Results ε F} (h : Collected s) (he : e ∈ entries s.tree.root) :
    ∃ p result, e.2 = .void p ∧ s.heap p = some result ∧
      hitOf s.heap e.2 = some result.hit_counter := by
  obtain ⟨p, -, hval, hsome⟩ := h.result e he
  obtain ⟨result, hres⟩ := Option.isSome_iff_exists.1 hsome
  refine ⟨p, result, hval, hres, ?_⟩
  rw [hval, hitOf, hres]
  rfl

lemma collected_init : Collected (resultsInit : Results ε F) where
  fresh := fresh_create
  result e h := by cases h
  nodup := nodup_nil
  count := le_rfl

section

variable {s : Results ε F}

lemma Collected.write (h : Collected s) (p : ℕ) (result : SearchResult ε F) :
    Collected { s with heap := update s.heap p (some result) } where
  fresh := h.fresh
  result e he := by
    obtain ⟨q, hq, hval, hsome⟩ := h.result e he
    refine ⟨q, hq, hval, ?_⟩
    by_cases hqp : q = p
    · simp [hqp]
    · simpa only [update_of_ne hqp] using hsome
  nodup := h.nodup
  count := h.count

lemma Collected.add (h : Collected s) {key : Key} {tree : NpTree} (hfr : Fresh tree)
    (heff : Effect s.tree (.insert key (.void s.fresh)) tree) (hnone : treeFind s.tree key = none)
    (result : SearchResult ε F) :
    Collected ⟨tree, update s.heap s.fresh (some result), s.fresh + 1⟩ := by
  have hold : ∀ e ∈ entries s.tree.root, ∃ p < s.fresh + 1, e.2 = .void p ∧
      (update s.heap s.fresh (some result) p).isSome := by
    intro e he
    obtain ⟨p, hp, hval, hsome⟩ := h.result e he
    refine ⟨p, by omega, hval, ?_⟩
    rwa [update_of_ne (by omega)]
  cases heff with
  | present _ _ f hf => simp [treeFind, hf] at hnone
  | cut hval hkey hroot hsize hbytes =>
    -- the subject is longer than a key can be: the tree counts the result and does not keep it
    refine ⟨hfr, ?_, ?_, ?_⟩
    · simpa only [hroot] using hold
    · simpa only [hroot] using h.nodup
    · simpa only [hroot, hsize] using h.count.trans (Nat.le_succ _)
  | added hval hcopy hent hnew hsize hbytes =>
    cases hval
    cases hcopy
    have hperm : (entries tree.root).Perm
        ((storedKey s.tree.attr (Op.key (.insert key (.void s.fresh))), .void s.fresh) ::
          entries s.tree.root) := by
      rw [hnew, hent]
      exact perm_middle
    refine ⟨hfr, ?_, ?_, ?_⟩
    · intro e he
      obtain rfl | he := mem_cons.1 (hperm.mem_iff.1 he)
      · exact ⟨s.fresh, Nat.lt_succ_self _, rfl, by simp⟩
      · exact hold e he
    · rw [(hperm.map Prod.snd).nodup_iff, map_cons, nodup_cons]
      refine ⟨?_, h.nodup⟩
      intro hmem
      obtain ⟨e, he, heq⟩ := mem_map.1 hmem
      obtain ⟨p, hp, hval, -⟩ := h.result e he
      cases hval.symm.trans heq
      exact lt_irrefl _ hp
    · rw [hperm.length_eq, hsize]
      exact Nat.succ_le_succ h.count

variable [LT F] [DecidableLT F] {subject : ε → CString} {similarity : ε → ε → F}

lemma Collected.reduce (h : Collected s) (it_1 : ε) (element : Option ε) :
    ∃ s' ret, reduceNpSearchentry subject similarity it_1 s element = .ok (s', ret) ∧
      Collected s' := by
  cases element with
  | none => exact ⟨s, false, rfl, h⟩
  | some it_2 =>
    cases hf : treeFindElem s.tree (.str (subject it_2)) with
    | none =>
      have hnone : treeFind s.tree (.str (subject it_2)) = none := by rw [treeFind, hf]; rfl
      have hcopy : copyOfVal (.void s.fresh) = .ok (.void s.fresh) := by rw [copyOfVal]
      obtain ⟨tree, hins, hfr, heff⟩ := treeInsert_effect h.fresh (.str (subject it_2)) hcopy
      refine ⟨_, true, ?_, h.add hfr heff hnone (newResult subject similarity it_1 it_2)⟩
      simp only [reduceNpSearchentry, hnone, hins]
      rfl
    | some f =>
      have hmem : (f.key, f.val) ∈ entries s.tree.root := by
        rw [entries_found hf]
        simp
      obtain ⟨p, -, hval, hsome⟩ := h.result _ hmem
      obtain ⟨result, hres⟩ := Option.isSome_iff_exists.1 hsome
      have hfind : treeFind s.tree (.str (subject it_2)) = some (.void p) := by
        rw [treeFind, hf]
        exact congrArg some hval
      refine ⟨_, true, ?_, h.write p (hitAgain similarity it_1 it_2 result)⟩
      simp only [reduceNpSearchentry, hfind, hres]

lemma exists_collected (it_1 : ε) (found : List (Option ε)) :
    ∃ s, collect subject similarity it_1 found = .ok s ∧ Collected s := by
  apply foldlM_inv (fun _ s => Collected s) collected_init
  intro before s element _ h
  obtain ⟨s', ret, hs', hc⟩ := h.reduce it_1 element
  exact ⟨s', by rw [hs']; rfl, hc⟩

end

lemma toInt_hit (hit : UInt8) : (Int16.ofNat hit.toNat).toInt = hit.toNat :=
  Int16.toInt_ofNat_of_lt (hit.toNat_lt.trans (by decide))

lemma hitKey_lt {hit hit' : UInt8} : hitKey hit < hitKey hit' ↔ hit < hit' := by
  simp only [hitKey, lt_iff_rank, rank, rank_lt_cons, singleton_lt, toInt_hit, Nat.cast_lt,
    UInt8.lt_iff_toNat_lt]

lemma hitKey_injective : Function.Injective hitKey := by
  intro hit hit' h
  have heq := congrArg Int16.toInt (Key.int.inj h)
  rw [toInt_hit, toInt_hit] at heq
  exact UInt8.toNat_inj.1 (Int.ofNat.inj heq)

def hitKind : KeyKind UInt8 where
  key := hitKey
  injective := hitKey_injective
  agrees hit hit' := by
    have hlt := hit.toNat_lt
    have hlt' := hit'.toNat_lt
    apply signAgrees_int
    rw [toInt_hit, toInt_hit]
    omega
  stored _ _ := rfl

variable {s : Results ε F} {heap : ℕ → Option (SearchResult ε F)} {result_tree : NpTree}

def firstHit (heap : ℕ → Option (SearchResult ε F)) (items : List (Key × Treeval))
    (hit : UInt8) : Option Treeval :=
  (items.find? fun e => hitOf heap e.2 = some hit).map Prod.snd

variable {items : List (Key × Treeval)}

lemma firstHit_append {hit : UInt8} (he : hitOf heap e.2 = some hit) :
    firstHit heap (items ++ [e]) = if firstHit heap items hit = none
      then update (firstHit heap items) hit (some e.2) else firstHit heap items := by
  funext hit'
  by_cases heq : hit' = hit
  · subst heq
    cases hfind : items.find? fun e => hitOf heap e.2 = some hit' with
    | none => simp [firstHit, hfind, he]
    | some old => simp [firstHit, hfind]
  · have hne : ¬ hit = hit' := fun h => heq h.symm
    have hkeep : firstHit heap (items ++ [e]) hit' = firstHit heap items hit' := by
      simp [firstHit, he, hne]
    split
    · rw [hkeep, update_of_ne heq]
    · exact hkeep

lemma firstHit_of_nodup (hnd : (items.map fun e => hitOf heap e.2).Nodup) (he : e ∈ items)
    {hit : UInt8} (hhit : hitOf heap e.2 = some hit) : firstHit heap items hit = some e.2 := by
  have hfnd : (items.find? fun e => hitOf heap e.2 = some hit).isSome :=
    find?_isSome.2 ⟨e, he, by simpa using hhit⟩
  obtain ⟨first, hfst⟩ := Option.isSome_iff_exists.1 hfnd
  have hsame : hitOf heap first.2 = hitOf heap e.2 := by
    rw [hhit]
    simpa using find?_some hfst
  have heq : first = e := inj_on_of_nodup_map hnd (mem_of_find?_eq_some hfst) he hsame
  rw [firstHit, hfst, heq]
  rfl

lemma Collected.inserted (h : Collected s) :
    ∃ result_tree, (entries s.tree.root).foldlM (insertResult s.heap) treeCreate = .ok result_tree ∧
      HoldsKeyed hitKind result_tree (firstHit s.heap (entries s.tree.root)) := by
  apply foldlM_inv (fun before t => HoldsKeyed hitKind t (firstHit s.heap before)) holdsKeyed_create
  intro before t e hb ht
  have he : e ∈ entries s.tree.root := hb.subset (by simp)
  obtain ⟨p, result, hval, hres, hhit⟩ := h.hit he
  have hcopy : copyOfVal (.void p) = .ok (.void p) := by rw [copyOfVal]
  simp only [insertResult, hval, hres]
  rw [firstHit_append hhit, hval]
  split
  case isTrue hnone =>
    obtain ⟨t', hins, ht'⟩ := ht.insert hnone hcopy
    exact ⟨t', congrArg (Except.mapError ResultFault.tree) hins, ht'⟩
  case isFalse hne =>
    exact ⟨t, congrArg (Except.mapError ResultFault.tree) (ht.insert_present hne _), ht⟩

section

variable (h : HoldsKeyed hitKind result_tree (firstHit heap items))
include h

lemma hit_of_mem (he : e ∈ entries result_tree.root) :
    ∃ hit, e.1 = hitKey hit ∧ hitOf heap e.2 = some hit ∧ e.2 ∈ items.map Prod.snd := by
  obtain ⟨hit, hkey, hfst⟩ := h.mem_iff.1 he
  obtain ⟨old, hold, hval⟩ := Option.map_eq_some_iff.1 hfst
  refine ⟨hit, hkey, ?_, ?_⟩
  · rw [← hval]
    simpa using find?_some hold
  · exact mem_map.2 ⟨old, mem_of_find?_eq_some hold, hval⟩

lemma hits_increase :
    (entries result_tree.root).Pairwise fun a b =>
      ∀ hit ∈ hitOf heap a.2, ∀ hit' ∈ hitOf heap b.2, hit < hit' := by
  apply h.represents.sorted.imp_of_mem
  intro a b ha hb hlt hit hhit hit' hhit'
  obtain ⟨hita, hkeya, heqa, -⟩ := hit_of_mem h ha
  obtain ⟨hitb, hkeyb, heqb, -⟩ := hit_of_mem h hb
  cases hhit.symm.trans heqa
  cases hhit'.symm.trans heqb
  rw [hkeya, hkeyb] at hlt
  exact hitKey_lt.1 hlt

lemma nodup_hits : ((entries result_tree.root).map fun e => hitOf heap e.2).Nodup := by
  rw [List.Nodup, pairwise_map]
  apply (hits_increase h).imp_of_mem
  intro a b ha _ hlt heq
  obtain ⟨hit, -, hhit, -⟩ := hit_of_mem h ha
  exact UInt8.lt_irrefl _ (hlt hit hhit hit (heq ▸ hhit))

end

lemma Collected.complete_iff (h : Collected s)
    (ht : HoldsKeyed hitKind result_tree (firstHit s.heap (entries s.tree.root))) :
    Complete s result_tree ↔ (hits s).Nodup := by
  have hv : hits s = ((entries s.tree.root).map Prod.snd).map (hitOf s.heap) := by
    rw [hits, map_map]
    rfl
  have hfil : (((entries result_tree.root).map Prod.snd).map (hitOf s.heap)).Nodup := by
    rw [map_map]
    exact nodup_hits ht
  constructor
  · intro hc
    rw [hv]
    exact (hc.once.map _).nodup_iff.1 hfil
  · intro hnd
    refine ⟨(perm_ext_iff_of_nodup (hfil.of_map _) h.nodup).2 ?_, ?_⟩
    · intro val
      constructor
      · intro hval
        obtain ⟨e, he, rfl⟩ := mem_map.1 hval
        obtain ⟨hit, -, -, hmem⟩ := hit_of_mem ht he
        exact hmem
      · intro hval
        obtain ⟨e, he, rfl⟩ := mem_map.1 hval
        obtain ⟨p, result, -, -, hhit⟩ := h.hit he
        have hfst := firstHit_of_nodup hnd he hhit
        exact mem_map.2 ⟨(hitKey result.hit_counter, e.2), ht.mem_iff.2 ⟨_, rfl, hfst⟩, rfl⟩
    · apply (hits_increase ht).imp
      intro a b hlt hit hhit hit' hhit'
      exact UInt8.le_of_lt (hlt hit hhit hit' hhit')

/-- np_search_get_resultset gives out all that was collected exactly when no two of the results have
been hit equally often. -/
theorem resultset_complete_iff (h : Collected s) :
    ∃ result_tree ret, searchGetResultset true true (some s) treeCreate = .ok (result_tree, ret) ∧
      (Complete s result_tree ↔ (hits s).Nodup) := by
  obtain ⟨result_tree, hfold, ht⟩ := h.inserted
  by_cases hsize : s.tree.size = 0
  · have he : entries s.tree.root = [] :=
      eq_nil_of_length_eq_zero (Nat.le_zero.1 (hsize ▸ h.count))
    have hcr : HoldsKeyed hitKind treeCreate (firstHit s.heap (entries s.tree.root)) := by
      rw [he]
      exact holdsKeyed_create
    exact ⟨treeCreate, false, by simp [searchGetResultset, hsize], h.complete_iff hcr⟩
  · refine ⟨result_tree, true, ?_, h.complete_iff ht⟩
    simp only [searchGetResultset, Bool.not_true, Bool.false_eq_true, if_false, hsize, hfold]
    rfl

def letter : Bool → CString
  | false => ⟨[120], by decide, by decide⟩
  | true => ⟨[121], by decide, by decide⟩

def found (items : List Bool) : Except ResultFault (Results Bool ℕ) :=
  collect letter (fun _ _ => 1) false (items.map some)

lemma found_collected (items : List Bool) : ∃ s, found items = .ok s ∧ Collected s :=
  exists_collected false (items.map some)

theorem resultset_with_two_counters :
    ∃ s result_tree ret, found [false, true, true] = .ok s ∧
      searchGetResultset true true (some s) treeCreate = .ok (result_tree, ret) ∧
      Complete s result_tree := by
  obtain ⟨s, hs, hc⟩ := found_collected [false, true, true]
  have hh : (found [false, true, true]).map hits = .ok [some 1, some 2] := rfl
  have hnd : (hits s).Nodup := by
    rw [hs] at hh
    rw [Except.ok.inj hh]
    decide
  obtain ⟨result_tree, ret, hget, hiff⟩ := resultset_complete_iff hc
  exact ⟨s, result_tree, ret, hs, hget, hiff.2 hnd⟩

/-- Of two entries that were found once each, one is not in the tree. -/
theorem second_result_lost :
    ∃ s result_tree, found [false, true] = .ok s ∧ Collected s ∧
      searchGetResultset true true (some s) treeCreate = .ok (result_tree, true) ∧
      (entries s.tree.root).length = 2 ∧ (entries result_tree.root).length = 1 ∧
      ¬ Complete s result_tree := by
  obtain ⟨s, hs, hc⟩ := found_collected [false, true]
  have hlen : (found [false, true]).map (fun s => (entries s.tree.root).length) = .ok 2 := rfl
  have hget : (found [false, true]).bind (fun s =>
      (searchGetResultset true true (some s) treeCreate).map fun r =>
        ((entries r.1.root).length, r.2)) = .ok (1, true) := rfl
  rw [hs] at hlen hget
  obtain ⟨⟨result_tree, ret⟩, hr, heq⟩ := map_eq_ok hget
  obtain ⟨hone, rfl⟩ := Prod.mk.inj heq
  have htwo : (entries s.tree.root).length = 2 := Except.ok.inj hlen
  refine ⟨s, result_tree, hs, hc, hr, htwo, hone, ?_⟩
  intro hcom
  have hsame := hcom.once.length_eq
  rw [length_map, length_map, hone, htwo] at hsame
  cases hsame

end Neuropil.Search.Resultset
