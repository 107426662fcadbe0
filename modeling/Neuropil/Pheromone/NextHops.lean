import Mathlib.Tactic.Linarith
import Neuropil.Pheromone.Table

namespace Neuropil.Pheromone.NextHops

open List Bloom.Filter Pheromone.Peers Pheromone.Table

/-- What the search for next hops reads: the own node key, whether there is a connection, the key
cache, the pheromones, and the subjects of the two discovery messages. -/
structure Context where
  myNodeKey : Dhkey
  hasConnection : Bool
  keyExists : Dhkey → Bool
  table : PheromoneTable
  availableSender : Dhkey
  availableReceiver : Dhkey

/-- The search of _np_out_forward, for a number of rounds. sll_remove takes out the first of the
previous hop's occurrences. -/
def forwardFrom (table : PheromoneTable) (subject previous : Dhkey) :
    (rounds : ℕ) → (targetAge : ℚ) → List Dhkey → List Dhkey
  | 0, _, tmp => tmp
  | rounds + 1, targetAge, tmp =>
    let (found, age) := snuffleReceiver table subject targetAge
    let tmp := (tmp ++ found).erase previous
    if tmp = [] then forwardFrom table subject previous rounds (age - 1 / 10) tmp else tmp

def reachable (c : Context) (hop : Dhkey) : Bool := decide (hop ≠ c.myNodeKey) && c.keyExists hop

def submitted (c : Context) (tmp : List Dhkey) : List Dhkey := tmp.filter (reachable c)

def forward (c : Context) (subject previous : Dhkey) : List Dhkey :=
  if c.hasConnection then
    submitted c ((forwardFrom c.table subject previous 8 1 []).erase previous)
  else []

def availableFrom (snuffle : ℚ → List Dhkey) :
    (rounds : ℕ) → (targetAge : ℚ) → List Dhkey → List Dhkey
  | 0, _, tmp => tmp
  | rounds + 1, targetAge, tmp =>
    if tmp = [] then availableFrom snuffle rounds (targetAge - 1 / 10) (tmp ++ snuffle targetAge)
    else tmp

def available (c : Context) (subject audience previous : Dhkey) : List Dhkey :=
  if c.hasConnection then
    let tmp :=
      if subject = c.availableSender then
        availableFrom (fun age => (snuffleReceiver c.table audience age).1) 9 1 []
      else if subject = c.availableReceiver then
        availableFrom (fun age => (snuffleSender c.table audience age).1) 9 1 []
      else []
    submitted c (tmp.erase previous)
  else []

def recorded (table : PheromoneTable) (key : Dhkey) (list : PheromoneSlot → List Details) :
    List Dhkey :=
  match table (indexOf key) with
  | none => []
  | some entry =>
    if check entry.union key then
      (entry.pheromones.filter fun p => check p.subj_bloom key).flatMap fun p => peers (list p)
    else []

def strength (table : PheromoneTable) (key : Dhkey) : ℚ :=
  match table (indexOf key) with
  | none => 0
  | some entry => if check entry.union key then getHeuristic entry.union key else 0

/-- A message is not submitted to the hop it came from, and at most once to others. -/
structure AtMostOnce (previous : Dhkey) (hops : List Dhkey) : Prop where
  notBack : previous ∉ hops
  once : ∀ hop, hop ≠ previous → hops.count hop ≤ 1

section

variable {table : PheromoneTable} {key previous : Dhkey}

section

variable (table : PheromoneTable) (key : Dhkey) (age : ℚ)

lemma snuffle_eq (findSender findReceiver : Bool) :
    snuffle table key age findSender findReceiver =
      (if age ≤ strength table key then recorded table key fun p =>
        if findReceiver then p.recv_list else if findSender then p.send_list else [] else [],
        strength table key) := by
  have hidx : table (Fin.ofNat 257 (key.word 0).toNat) = table (indexOf key) := rfl
  rw [snuffle, hidx, strength, recorded]
  cases table (indexOf key) with
  | none => simp
  | some entry =>
    by_cases hchk : check entry.union key = true
    · by_cases hle : age ≤ getHeuristic entry.union key <;> simp [hchk, hle]
    · simp [hchk]

lemma snuffleReceiver_eq : snuffleReceiver table key age =
      (if age ≤ strength table key then recorded table key PheromoneSlot.recv_list else [],
        strength table key) :=
  snuffle_eq table key age false true

lemma snuffleSender_fst : (snuffleSender table key age).1 =
      if age ≤ strength table key then recorded table key PheromoneSlot.send_list else [] :=
  congrArg Prod.fst (snuffle_eq table key age true false)

end

lemma forwardFrom_of_le {age : ℚ} (h : age ≤ strength table key) (rounds : ℕ) :
    forwardFrom table key previous (rounds + 1) age [] =
      (recorded table key PheromoneSlot.recv_list).erase previous := by
  induction rounds generalizing age with
  | zero => simp [forwardFrom, snuffleReceiver_eq, h]
  | succ rounds ih =>
    rw [forwardFrom, snuffleReceiver_eq, if_pos h]
    simp only [nil_append]
    split_ifs with he
    · rw [he, ih (by linarith), he]
    · rfl

lemma forwardFrom_eq (rounds : ℕ) (age : ℚ) : forwardFrom table key previous (rounds + 2) age [] =
      (recorded table key PheromoneSlot.recv_list).erase previous := by
  by_cases h : age ≤ strength table key
  · exact forwardFrom_of_le h (rounds + 1)
  · rw [forwardFrom, snuffleReceiver_eq, if_neg h]
    simp only [nil_append, erase_nil, if_true]
    exact forwardFrom_of_le (by linarith) rounds

variable {snuffle : ℚ → List Dhkey}

lemma availableFrom_of_ne {tmp : List Dhkey} (h : tmp ≠ [])
    (rounds : ℕ) (age : ℚ) : availableFrom snuffle rounds age tmp = tmp := by
  cases rounds with
  | zero => rfl
  | succ rounds => rw [availableFrom, if_neg h]

lemma availableFrom_eq {found : List Dhkey} {most : ℚ}
    (hsnu : ∀ age, snuffle age = if age ≤ most then found else []) (rounds : ℕ) (age : ℚ) :
    availableFrom snuffle (rounds + 1) age [] = if age - rounds / 10 ≤ most then found else [] := by
  induction rounds generalizing age with
  | zero => simp [availableFrom, hsnu]
  | succ rounds ih =>
    rw [availableFrom, if_pos rfl, nil_append, hsnu]
    have hlast : age - 1 / 10 - rounds / 10 = age - ((rounds + 1 : ℕ) : ℚ) / 10 := by
      push_cast
      ring
    by_cases hmet : age ≤ most
    · have hltr : age - ((rounds + 1 : ℕ) : ℚ) / 10 ≤ most := by
        have hlow : (0 : ℚ) ≤ ((rounds + 1 : ℕ) : ℚ) / 10 :=
          div_nonneg (Nat.cast_nonneg _) (by norm_num)
        linarith
      rw [if_pos hmet, if_pos hltr]
      by_cases he : found = []
      · rw [he, ih, he, ite_self]
      · exact availableFrom_of_ne he _ _
    · rw [if_neg hmet, ih, hlast]

end

def announced (c : Context) (subject audience : Dhkey) : List Dhkey :=
  if subject = c.availableSender then recorded c.table audience PheromoneSlot.recv_list
  else if subject = c.availableReceiver then recorded c.table audience PheromoneSlot.send_list
  else []

/-- Every reachable hop is recorded at most once, the previous one at most a number of times. -/
def Sparse (c : Context) (previous : Dhkey) (returns : ℕ) (hops : List Dhkey) : Prop :=
  ∀ hop, reachable c hop = true → hops.count hop ≤ if hop = previous then returns else 1

section

variable {c : Context} {subject audience previous : Dhkey} {hops : List Dhkey}

lemma forward_eq (h : c.hasConnection = true) : forward c subject previous =
    submitted c (((recorded c.table subject PheromoneSlot.recv_list).erase previous).erase
      previous) := by
  rw [forward, if_pos h, forwardFrom_eq 6 1]

lemma available_eq (h : c.hasConnection = true) : available c subject audience previous =
    submitted c (List.erase
      (if 1 / 5 ≤ strength c.table audience then announced c subject audience else [])
        previous) := by
  have hlast : (1 : ℚ) - (8 : ℕ) / 10 = 1 / 5 := by norm_num
  have hrec := availableFrom_eq (fun age => congrArg Prod.fst
    (snuffleReceiver_eq c.table audience age)) 8 1
  have hsen := availableFrom_eq (snuffleSender_fst c.table audience) 8 1
  rw [hlast] at hrec hsen
  rw [available, if_pos h, hrec, hsen, announced]
  split_ifs <;> rfl

lemma count_submitted (c : Context) (hops : List Dhkey) (hop : Dhkey) :
    (submitted c hops).count hop = if reachable c hop = true then hops.count hop else 0 := by
  rw [submitted]
  split_ifs with h
  · exact count_filter h
  · exact count_eq_zero.mpr fun hmem => h (mem_filter.mp hmem).2

lemma atMostOnce_submitted_iff :
    AtMostOnce previous (submitted c hops) ↔ Sparse c previous 0 hops := by
  constructor
  · intro h hop hreach
    have hcount := count_submitted c hops hop
    rw [if_pos hreach] at hcount
    rw [← hcount]
    split_ifs with heq
    · rw [heq, count_eq_zero.mpr h.notBack]
    · exact h.once hop heq
  · intro h
    refine ⟨fun hmem => ?_, fun hop hne => ?_⟩
    · have hreach := (mem_filter.mp hmem).2
      have hzero := h previous hreach
      rw [if_pos rfl, Nat.le_zero, count_eq_zero] at hzero
      exact hzero (mem_filter.mp hmem).1
    · rw [count_submitted]
      split_ifs with hreach
      · simpa [hne] using h hop hreach
      · exact Nat.zero_le 1

lemma sparse_erase_iff {returns : ℕ} :
    Sparse c previous returns (hops.erase previous) ↔ Sparse c previous (returns + 1) hops := by
  refine forall₂_congr fun hop _ => ?_
  by_cases heq : hop = previous
  · rw [if_pos heq, if_pos heq, heq, count_erase_self]
    omega
  · rw [if_neg heq, if_neg heq, count_erase_of_ne heq]

lemma sparse_nil {returns : ℕ} : Sparse c previous returns [] := fun hop _ => by simp

lemma atMostOnce_nil : AtMostOnce previous [] := ⟨by simp, by simp⟩

lemma atMostOnce_forward_iff : AtMostOnce previous (forward c subject previous) ↔
    (c.hasConnection = true →
      Sparse c previous 2 (recorded c.table subject PheromoneSlot.recv_list)) := by
  by_cases h : c.hasConnection = true
  · rw [forward_eq h, atMostOnce_submitted_iff, sparse_erase_iff, sparse_erase_iff, imp_iff_right h]
  · rw [forward, if_neg h, iff_true_right fun hconn => absurd hconn h]
    exact atMostOnce_nil

lemma atMostOnce_available_iff : AtMostOnce previous (available c subject audience previous) ↔
    (c.hasConnection = true → 1 / 5 ≤ strength c.table audience →
      Sparse c previous 1 (announced c subject audience)) := by
  by_cases h : c.hasConnection = true
  · rw [available_eq h, atMostOnce_submitted_iff, sparse_erase_iff, imp_iff_right h]
    split_ifs with hstr
    · rw [imp_iff_right hstr]
    · rw [iff_true_right fun hstre => absurd hstre hstr]
      exact sparse_nil
  · rw [available, if_neg h, iff_true_right fun hconn => absurd hconn h]
    exact atMostOnce_nil

end

/-- A message is kept from the previous hop, and sent once to every other, exactly if its pheromones
record no reachable hop too often: forwarding removes the previous hop twice, announcing once, and
neither removes any other duplicate. -/
theorem submitted_at_most_once_iff (c : Context) (subject audience previous : Dhkey) :
    (AtMostOnce previous (forward c subject previous) ∧
      AtMostOnce previous (available c subject audience previous)) ↔
      (c.hasConnection = true →
        Sparse c previous 2 (recorded c.table subject PheromoneSlot.recv_list) ∧
          (1 / 5 ≤ strength c.table audience →
            Sparse c previous 1 (announced c subject audience))) := by
  rw [atMostOnce_forward_iff, atMostOnce_available_iff, imp_and]

def strongBloom : NeuropilBloom := ⟨0, fun _ => ⟨128, 1⟩⟩

def crowded (previous : Dhkey) : Context where
  myNodeKey := Dhkey.zero
  hasConnection := true
  keyExists _ := true
  table _ := some ⟨strongBloom, replicate 3 ⟨strongBloom, [], [⟨previous, 0⟩]⟩⟩
  availableSender := Dhkey.zero
  availableReceiver := previous

/-- The message is submitted to the hop it came from. -/
theorem message_goes_back :
    forward (crowded ⟨fun _ => 1⟩) Dhkey.zero ⟨fun _ => 1⟩ = [⟨fun _ => 1⟩] ∧
      available (crowded ⟨fun _ => 1⟩) Dhkey.zero Dhkey.zero ⟨fun _ => 1⟩ =
        [⟨fun _ => 1⟩, ⟨fun _ => 1⟩] ∧
      ¬ (AtMostOnce ⟨fun _ => 1⟩ (forward (crowded ⟨fun _ => 1⟩) Dhkey.zero ⟨fun _ => 1⟩) ∧
        AtMostOnce ⟨fun _ => 1⟩
          (available (crowded ⟨fun _ => 1⟩) Dhkey.zero Dhkey.zero ⟨fun _ => 1⟩)) := by
  have hfor : forward (crowded ⟨fun _ => 1⟩) Dhkey.zero ⟨fun _ => 1⟩ = [⟨fun _ => 1⟩] := by
    decide +kernel
  refine ⟨hfor, by decide +kernel, fun h => h.1.notBack ?_⟩
  rw [hfor]
  exact mem_singleton_self _

end Neuropil.Pheromone.NextHops
