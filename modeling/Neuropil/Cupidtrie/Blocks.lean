import Neuropil.Cupidtrie.TrieRuns
import Neuropil.Dhkey.Order

namespace Neuropil.Cupidtrie.Blocks

open BitVec Function List Option Lib.Buffer Lib.Fault Lib.Run Cupidtrie.Invariant
  Cupidtrie.Placement Cupidtrie.TrieRuns

inductive Fault
  | trie (fault : Invariant.Fault)
  | divisionByZero
  | nullPointer
  | outOfMemory

/-- The trie, whose leaves have addresses of blocks, and the next address for calloc. -/
structure Cupidbloom where
  storage : Option (Cell 4)
  blocks : UInt64 → BitVec 256
  next : UInt64

def init : Cupidbloom := ⟨none, fun _ => 0, 1⟩

def keyOf (word : UInt32) : Key 4 := ⟨leBytes 4 word.toNat, length_leBytes _ _⟩

def position (word : UInt32) : Except Fault ℕ :=
  let tmp := word >>> 8
  if tmp = 0 then .error .divisionByZero else .ok ((word / tmp) &&& 0xFF).toNat

/-- A round of np_cupidbloom_add. A pointer that is NULL is set to a new block. -/
def addWord (bloom : Cupidbloom) (word : UInt32) : Except Fault Cupidbloom := do
  let (root, out) ← (insertQpe bloom.storage (keyOf word)).mapError .trie
  let some (_, data) := leafAt root out | .error .nullPointer
  let (target, blocks, next) :=
    if data = 0 then (bloom.next, update bloom.blocks bloom.next 0, bloom.next + 1)
    else (data, bloom.blocks, bloom.next)
  if target = 0 then .error .outOfMemory
  else
    let block := blocks target ||| BitVec.twoPow 256 (← position word)
    .ok ⟨some (modifyAt (storeData fun _ => target) out root), update blocks target block, next⟩

def add (bloom : Cupidbloom) (s : Dhkey) : Except Fault Cupidbloom := s.words.foldlM addWord bloom

def checkWord (bloom : Cupidbloom) (word : UInt32) : Except Fault Bool := do
  match ← (cupidtrieFind bloom.storage (keyOf word)).mapError .trie with
  | none => .ok false
  | some data =>
    let pos ← position word
    if data = 0 then .error .nullPointer else .ok ((bloom.blocks data).getLsbD pos)

def checkFrom (bloom : Cupidbloom) : List UInt32 → Except Fault Bool
  | [] => .ok true
  | word :: words => do
    if ← checkWord bloom word then checkFrom bloom words else .ok false

def check (bloom : Cupidbloom) (s : Dhkey) : Except Fault Bool := checkFrom bloom s.words

def step (bloom : Except Fault Cupidbloom) (s : Dhkey) : Except Fault Cupidbloom :=
  bloom.bind fun bloom => add bloom s

def wordStep (bloom : Except Fault Cupidbloom) (word : UInt32) : Except Fault Cupidbloom :=
  bloom.bind (addWord · word)

/-- The word is not below 256, its insert fits the trie, and there is memory. -/
abbrev WordFits (bloom : Except Fault Cupidbloom) (word : UInt32) : Prop :=
  ∀ b ∈ bloom.toOption, word >>> 8 ≠ 0 ∧ (∀ root ∈ b.storage, Fits (keyOf word) root) ∧
    b.next.toNat + 1 < 2 ^ 64

abbrev Fitting (bloom : Except Fault Cupidbloom) (s : Dhkey) : Prop :=
  Admitted wordStep bloom WordFits s.words

/-- The trie stands for a map to the blocks in use, with the bits of the words set. -/
structure Holds (bloom : Cupidbloom) (m : KeyMap 4) (added : List UInt32) : Prop where
  represents : Represents bloom.storage m
  next_pos : 0 < bloom.next.toNat
  used : ∀ {key data}, m key = some data → data ≠ 0 ∧ data.toNat < bloom.next.toNat
  set : ∀ word ∈ added, ∃ data pos, m (keyOf word) = some data ∧ position word = .ok pos ∧
    (bloom.blocks data).getLsbD pos = true

variable {bloom : Cupidbloom} {m : KeyMap 4} {added words : List UInt32} {word : UInt32}

lemma Holds.checkWord (h : Holds bloom m added) (hw : word ∈ added) :
    checkWord bloom word = .ok true := by
  obtain ⟨data, pos, hd, hpos, hset⟩ := h.set word hw
  rw [Blocks.checkWord, find_of_represents h.represents, hd]
  simp only [Except.mapError, ok_bind, hpos, if_neg (h.used hd).1, hset]

lemma Holds.checkFrom (h : Holds bloom m added) (hw : ∀ word ∈ words, word ∈ added) :
    checkFrom bloom words = .ok true := by
  induction words with
  | nil => rfl
  | cons word words ih =>
    obtain ⟨hword, hw⟩ := forall_mem_cons.1 hw
    rw [Blocks.checkFrom, h.checkWord hword, ok_bind, if_pos rfl]
    exact ih hw

lemma getLsbD_set (block : BitVec 256) {pos : ℕ} (hpos : pos < 256) (i : ℕ) :
    (block ||| BitVec.twoPow 256 pos).getLsbD i = (block.getLsbD i || decide (i = pos)) := by
  rw [getLsbD_or, getLsbD_twoPow, decide_eq_true hpos, Bool.true_and]
  simp only [eq_comm]

lemma position_eq (h : word >>> 8 ≠ 0) : ∃ pos < 256, position word = .ok pos := by
  refine ⟨_, ?_, if_neg h⟩
  rw [UInt32.toNat_and]
  exact Nat.lt_succ_of_le Nat.and_le_right

lemma Holds.mark {tree : Option (Cell 4)} {target next : UInt64} {blocks : UInt64 → BitVec 256}
    {pos : ℕ} (h : Holds bloom m added)
    (htree : Represents tree (update m (keyOf word) (some target))) (htar : target ≠ 0)
    (hlt : target.toNat < next.toNat) (hnext : bloom.next.toNat ≤ next.toNat)
    (hsame : ∀ {data}, m (keyOf word) = some data → target = data)
    (hb : ∀ {key data}, m key = some data → blocks data = bloom.blocks data)
    (hpos : position word = .ok pos) (hbit : pos < 256) :
    Holds ⟨tree, update blocks target (blocks target ||| BitVec.twoPow 256 pos), next⟩
      (update m (keyOf word) (some target)) (added ++ [word]) := by
  refine ⟨htree, h.next_pos.trans_le hnext, fun {key data} hd => ?_, fun w hw => ?_⟩
  · by_cases hkey : key = keyOf word
    · rw [hkey, update_self, some.injEq] at hd
      rw [← hd]
      exact ⟨htar, hlt⟩
    · rw [update_of_ne hkey] at hd
      exact ⟨(h.used hd).1, (h.used hd).2.trans_le hnext⟩
  · obtain hw | hw := mem_append.1 hw
    · obtain ⟨data, p, hd, hp, hset⟩ := h.set w hw
      refine ⟨data, p, ?_, hp, ?_⟩
      · by_cases hkey : keyOf w = keyOf word
        · rw [hkey] at hd ⊢
          rw [update_self, hsame hd]
        · rw [update_of_ne hkey, hd]
      · change (update blocks target _ data).getLsbD p = true
        rw [← hb hd] at hset
        by_cases heq : data = target
        · rw [heq] at hset ⊢
          rw [update_self, getLsbD_set _ hbit, hset, Bool.true_or]
        · rw [update_of_ne heq, hset]
    · obtain rfl := mem_singleton.1 hw
      refine ⟨target, pos, update_self _ _ _, hpos, ?_⟩
      change (update blocks target _ target).getLsbD pos = true
      rw [update_self, getLsbD_set _ hbit, decide_eq_true rfl, Bool.or_true]

lemma Holds.addWord (h : Holds bloom m added) (hfits : WordFits (.ok bloom) word) :
    ∃ bloom' m', addWord bloom word = .ok bloom' ∧ Holds bloom' m' (added ++ [word]) := by
  obtain ⟨hw, htrie, hmem⟩ := hfits bloom rfl
  obtain ⟨pos, hbit, hpos⟩ := position_eq hw
  obtain ⟨root, out, hins, hleaf, hstd⟩ :=
    insertQpe_represents (by decide) (by decide) h.represents htrie
  rw [Blocks.addWord, hins]
  simp only [Except.mapError, ok_bind, hleaf, hpos]
  cases hm : m (keyOf word) with
  | some data =>
    obtain ⟨hne, hlt⟩ := h.used hm
    simp only [getD_some, if_neg hne]
    refine ⟨_, _, rfl, h.mark (hstd fun _ => data) hne hlt le_rfl ?_ (fun _ => rfl) hpos hbit⟩
    intro data' hd'
    exact some.inj (hm.symm.trans hd')
  | none =>
    have hnext : (bloom.next + 1).toNat = bloom.next.toNat + 1 := by
      rw [UInt64.toNat_add]
      exact Nat.mod_eq_of_lt hmem
    have hne : bloom.next ≠ 0 := by
      intro hzero
      have hpos := h.next_pos
      rw [hzero] at hpos
      cases hpos
    simp only [getD_none, if_pos, if_neg hne]
    refine ⟨_, _, rfl, h.mark (hstd fun _ => bloom.next) hne (by omega) (by omega) ?_ ?_ hpos hbit⟩
    · intro data hd
      rw [hm] at hd
      cases hd
    · intro key data hd
      refine update_of_ne ?_ _ _
      rintro rfl
      exact absurd (h.used hd).2 (Nat.lt_irrefl _)

lemma Holds.addWords (h : Holds bloom m added)
    (hfit : Admitted wordStep (.ok bloom) WordFits words) :
    ∃ bloom' m', words.foldlM Blocks.addWord bloom = .ok bloom' ∧
      Holds bloom' m' (added ++ words) := by
  induction words generalizing bloom m added with
  | nil => exact ⟨bloom, m, rfl, by rwa [append_nil]⟩
  | cons word words ih =>
    obtain ⟨hw, hrest⟩ := (admitted_cons_iff _ _ _ _ _).1 hfit
    obtain ⟨bloom1, m1, hadd, h1⟩ := h.addWord hw
    have hstep : wordStep (.ok bloom) word = .ok bloom1 := hadd
    rw [hstep] at hrest
    obtain ⟨bloom2, m2, ha, h2⟩ := ih h1 hrest
    refine ⟨bloom2, m2, ?_, by rwa [append_cons]⟩
    rw [foldlM_cons, hadd, ok_bind, ha]

/-- As long as the words of the keys are not below 256, their inserts fit the trie and there is
memory, all additions end and every added key is found. -/
theorem check_added (keys : List Dhkey) (h : Admitted step (.ok init) Fitting keys)
    {before : List Dhkey} (hbefore : before <+: keys) :
    ∃ bloom, run step (.ok init) before = .ok bloom ∧ ∀ s ∈ before, check bloom s = .ok true := by
  have hinit : Holds init (fun _ => none) [] :=
    ⟨fun _ => rfl, by decide, (by cases ·), fun _ hw => by cases hw⟩
  obtain ⟨bloom, m, hrun, hh⟩ := run_inv
    (fun keys s => ∃ bloom m, s = .ok bloom ∧ Holds bloom m (keys.flatMap Dhkey.words))
    ⟨init, _, rfl, hinit⟩
    (fun keys s key h hfit => by
      obtain ⟨bloom, m, rfl, hh⟩ := h
      rw [flatMap_append, flatMap_singleton]
      exact hh.addWords hfit)
    before (h.of_prefix hbefore)
  refine ⟨bloom, hrun, fun s hs => hh.checkFrom fun word hw => ?_⟩
  exact mem_flatMap.2 ⟨s, hs, hw⟩

def sampleKey (word : UInt32) : Dhkey := ⟨fun _ => word⟩

theorem check_sampleKey : Admitted step (.ok init) Fitting [sampleKey 256] ∧
    ∃ bloom, run step (.ok init) [sampleKey 256] = .ok bloom ∧
      ∀ s ∈ [sampleKey 256], check bloom s = .ok true := by
  have hfits : Admitted step (.ok init) Fitting [sampleKey 256] := by decide +kernel
  exact ⟨hfits, check_added _ hfits (prefix_refl _)⟩

theorem small_word_divides_by_zero : add init (sampleKey 255) = .error .divisionByZero := rfl

end Neuropil.Cupidtrie.Blocks
