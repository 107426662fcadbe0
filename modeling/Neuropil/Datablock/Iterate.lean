import Neuropil.Datablock.Block

namespace Neuropil.Datablock.Iterate

open List Lib.Buffer Lib.Fault Datablock.Objects Datablock.Block

def readBuffer (memory : Bytes) (start : ℕ) : Option ℕ → Bytes
  | some stop => slice memory start (stop - start)
  | none => memory.drop start

variable {σ ε : Type} (fault : Stop → ε) (callback : σ → KvPair → Except ε (Bool × σ))

/-- The loop of np_iterate_data. The first read has no end, and the later ones end 21 bytes behind
the last object. -/
def iterateLoop (memory : Bytes) (h : Header) : ℕ → ℕ → ℕ → Option ℕ → σ → Except ε σ
  | 0, _, _, _, _ => .error (fault .outOfFuel)
  | fuel + 1, objectCount, start, stop, userdata =>
    if objectCount < h.objectCount then
      let input := readBuffer memory start stop
      match readObject false input with
      | .ok (kv, rest) => do
        let (more, userdata) ← callback userdata kv
        if more then
          iterateLoop memory h fuel ((objectCount + 1) % 2 ^ 16)
            (start + (input.length - rest.length)) (some (21 + h.usedLength)) userdata
        else .error (fault (.ret .invalidArguments))
      | .error (.ret _) => .error (fault (.ret .invalidStructure))
      | .error e => .error (fault e)
    else .ok userdata

def iterateData (fuel : ℕ) (memory : Bytes) (userdata : σ) : Except ε σ :=
  match readHeader memory with
  | .ok h => iterateLoop fault callback memory h fuel 0 21 none userdata
  | .error e => .error (fault e)

def getObjectCount (block : Bytes) : ℕ :=
  match readHeader block with
  | .ok h => h.objectCount
  | .error _ => 0

variable {stop : Option ℕ} {userdata : σ} {memory : Bytes}

lemma iterateLoop_mono {h : Header} {fuel fuel' objectCount start : ℕ}
    {last : σ} (hle : fuel ≤ fuel')
    (hloop : iterateLoop fault callback memory h fuel objectCount start stop userdata = .ok last) :
    iterateLoop fault callback memory h fuel' objectCount start stop userdata = .ok last := by
  induction fuel generalizing fuel' objectCount start stop userdata with
  | zero => cases hloop
  | succ fuel ih =>
    obtain ⟨fuel', rfl⟩ := Nat.exists_eq_add_of_le' (Nat.le_of_add_left_le hle)
    rw [iterateLoop] at hloop ⊢
    split at hloop
    · next hcount =>
      rw [if_pos hcount]
      simp only at hloop ⊢
      cases hread : readObject false (readBuffer memory start stop) with
      | error e =>
        rw [hread] at hloop
        cases e <;> cases hloop
      | ok result =>
        simp only [hread] at hloop ⊢
        obtain ⟨⟨more, next⟩, hcall, hloop⟩ := bind_eq_ok hloop
        rw [hcall, ok_bind]
        cases more with
        | false => cases hloop
        | true => exact ih (by omega) hloop
    · next hcount =>
      rw [if_neg hcount]
      exact hloop

lemma iterateData_mono {fuel fuel' : ℕ} {last : σ} (hle : fuel ≤ fuel')
    (hd : iterateData fault callback fuel memory userdata = .ok last) :
    iterateData fault callback fuel' memory userdata = .ok last := by
  rw [iterateData] at hd ⊢
  cases hh : readHeader memory with
  | error e =>
    rw [hh] at hd
    cases hd
  | ok h =>
    simp only [hh] at hd ⊢
    exact iterateLoop_mono fault callback hle hd

variable {block beyond : Bytes} {objects done todo : List KvPair} {kv : KvPair} {fault}
  {handle : σ → KvPair → Except ε σ}

def always (handle : σ → KvPair → Except ε σ) (userdata : σ) (kv : KvPair) :
    Except ε (Bool × σ) := do
  let userdata ← handle userdata kv
  .ok (true, userdata)

lemma readBuffer_next (hlayout : Layout block (done ++ kv :: todo))
    (hstop : ∀ n, stop = some n → n = 21 + (headerOf block (done ++ kv :: todo)).usedLength) :
    ∃ rest, readBuffer (block ++ beyond) (21 + (objectBytes done).length) stop =
      writeObject kv ++ rest := by
  have hu := hlayout.used_le
  obtain ⟨tail, hd⟩ := hlayout.drop_header
  have hnext : (block ++ beyond).drop (21 + (objectBytes done).length) =
      writeObject kv ++ (objectBytes todo ++ (tail ++ beyond)) := by
    simp only [headerOf] at hu
    rw [← drop_drop, drop_append_of_le_length (by omega), hd, objectBytes_append, objectBytes_cons]
    simp only [append_assoc, drop_left]
  cases stop with
  | none => exact ⟨_, hnext⟩
  | some n =>
    obtain rfl := hstop n rfl
    have hroom : (writeObject kv).length ≤
        21 + (headerOf block (done ++ kv :: todo)).usedLength -
          (21 + (objectBytes done).length) := by
      simp only [headerOf, objectBytes_append, objectBytes_cons, length_append]
      omega
    have hslice := congrArg (take (21 + (headerOf block (done ++ kv :: todo)).usedLength -
      (21 + (objectBytes done).length))) hnext
    rw [take_append, take_of_length_le hroom] at hslice
    exact ⟨_, hslice⟩

lemma iterateLoop_all (hlayout : Layout block (done ++ todo))
    (hstop : ∀ n, stop = some n → n = 21 + (headerOf block (done ++ todo)).usedLength)
    (fuel : ℕ) (userdata : σ) :
    ∃ stop', iterateLoop fault (always handle) (block ++ beyond) (headerOf block (done ++ todo))
        (todo.length + fuel) (done.length % 2 ^ 16) (21 + (objectBytes done).length) stop userdata =
      todo.foldlM handle userdata >>=
        iterateLoop fault (always handle) (block ++ beyond) (headerOf block (done ++ todo)) fuel
          ((done ++ todo).length % 2 ^ 16) (21 + (objectBytes (done ++ todo)).length) stop' := by
  induction todo generalizing done stop userdata with
  | nil =>
    refine ⟨stop, ?_⟩
    simp only [append_nil, length_nil, Nat.zero_add]
    rfl
  | cons kv todo ih =>
    have hle := hlayout.count_le
    simp only [length_append, length_cons] at hle
    have hnext : ∃ rest, readBuffer (block ++ beyond) (21 + (objectBytes done).length) stop =
        writeObject kv ++ rest := readBuffer_next hlayout hstop
    obtain ⟨rest, hb⟩ := hnext
    have hread := readObject_writeObject (hlayout.small kv (by simp)) rest false
    have hcount : done.length < (headerOf block (done ++ kv :: todo)).objectCount := by
      simp only [headerOf, length_append, length_cons]
      omega
    have ha : done ++ kv :: todo = done ++ [kv] ++ todo := by simp
    have hst : 21 + (objectBytes done).length +
        ((writeObject kv ++ rest).length - rest.length) =
        21 + (objectBytes (done ++ [kv])).length := by
      rw [objectBytes_append, objectBytes_cons, length_append, length_append,
        length_append, Nat.add_sub_cancel]
      simp only [objectBytes, flatMap_nil, length_nil]
      omega
    rw [length_cons, Nat.add_right_comm, iterateLoop, Nat.mod_eq_of_lt (by omega), if_pos hcount]
    simp only [hb, hread, hst, foldlM_cons, always]
    cases hh : handle userdata kv with
    | error e => exact ⟨stop, rfl⟩
    | ok next =>
      have hlen : done.length + 1 = (done ++ [kv]).length := by simp
      rw [ha] at hlayout ⊢
      obtain ⟨stop', heq⟩ := ih hlayout (fun n hn => (Option.some.inj hn).symm) next
      refine ⟨stop', ?_⟩
      simp only [ok_bind, if_true, hlen]
      exact heq

variable (hlayout : Layout block objects)
include hlayout

lemma readHeader_append : readHeader (block ++ beyond) = .ok (headerOf block objects) := by
  have hle := hlayout.used_le
  simp only [headerOf] at hle
  rw [← hlayout.readHeader_eq, readHeader, readHeader, take_append_of_le_length (by omega)]

lemma iterateData_loop (fuel : ℕ) (userdata : σ) :
    ∃ stop, iterateData fault (always handle) (objects.length + fuel) (block ++ beyond) userdata =
      objects.foldlM handle userdata >>=
        iterateLoop fault (always handle) (block ++ beyond) (headerOf block objects) fuel
          (objects.length % 2 ^ 16) (21 + (objectBytes objects).length) stop := by
  have hst : Layout block ([] ++ objects) := hlayout
  have hstop : ∀ n, none = some n → n = 21 + (headerOf block ([] ++ objects)).usedLength :=
    fun n hn => nomatch hn
  rw [iterateData, readHeader_append hlayout]
  exact iterateLoop_all hst hstop fuel userdata

lemma iterateData_eq (hlt : objects.length < 2 ^ 16) (fuel : ℕ) (userdata : σ) :
    iterateData fault (always handle) (objects.length + (fuel + 1)) (block ++ beyond) userdata =
      objects.foldlM handle userdata := by
  obtain ⟨stop, heq⟩ := iterateData_loop hlayout (fuel + 1) userdata
  rw [heq]
  cases objects.foldlM handle userdata with
  | error e => rfl
  | ok last =>
    rw [ok_bind, iterateLoop, Nat.mod_eq_of_lt hlt, if_neg]
    exact lt_irrefl _

lemma iterateData_error {e : ε} (he : objects.foldlM handle userdata = .error e) (fuel : ℕ) :
    iterateData fault (always handle) (objects.length + fuel) (block ++ beyond) userdata =
      .error e := by
  obtain ⟨stop, heq⟩ := iterateData_loop hlayout fuel userdata
  rw [heq, he]
  rfl

lemma getObjectCount_eq : getObjectCount block = objects.length := by
  rw [getObjectCount, hlayout.readHeader_eq]
  rfl

end Neuropil.Datablock.Iterate
