import Neuropil.Datablock.Block

namespace Neuropil.Datablock.Placement

open List Lib.Buffer Lib.Fault Datablock.Objects Datablock.Block

variable {block block' : Bytes} {objects pre post : List KvPair} {old kv : KvPair} {fuel : ℕ}

def spliced (block : Bytes) (pre : List KvPair) (kv : KvPair) (post : List KvPair) : Bytes :=
  writeAt (writeAt (writeAt block (21 + (objectBytes pre).length + (writeObject kv).length)
      (objectBytes post)) (21 + (objectBytes pre).length) (writeObject kv)) 0
    (encodeHeader (headerOf block (pre ++ kv :: post)))

/-- Where the object between `pre` and `post` is one the size function is right about and has room
in the block. -/
structure Fitting (block : Bytes) (pre : List KvPair) (kv : KvPair) (post : List KvPair) :
    Prop where
  size_eq : calculateObjectSize kv = (writeObject kv).length
  used_le : (headerOf block (pre ++ kv :: post)).usedLength ≤ block.length

lemma usedLength_splice (block : Bytes) (pre : List KvPair) (kv : KvPair) (post : List KvPair) :
    (headerOf block (pre ++ kv :: post)).usedLength =
      21 + (objectBytes pre).length + (writeObject kv).length + (objectBytes post).length := by
  simp only [headerOf, objectBytes_append, objectBytes_cons, length_append]
  omega

section

variable (hused : (headerOf block (pre ++ kv :: post)).usedLength ≤ block.length)
  (hlt : block.length < 2 ^ 32) (hcount : (pre ++ kv :: post).length ≤ 2 ^ 16)
include hused hlt hcount

lemma spliced_eq (hpre : ∃ tail, block.drop 21 = objectBytes pre ++ tail) :
    ∃ rest, spliced block pre kv post = encodeHeader (headerOf block (pre ++ kv :: post)) ++
        (objectBytes (pre ++ kv :: post) ++ rest) := by
  obtain ⟨tail, htail⟩ := hpre
  have hsum := usedLength_splice block pre kv post
  have hh : (encodeHeader (headerOf block (pre ++ kv :: post))).length = 21 :=
    length_encodeHeader hlt (hused.trans_lt hlt) (hcount.trans_lt (by decide))
  have hmoved := writeAt_before_tail block (21 + (objectBytes pre).length) (writeObject kv)
    (objectBytes post) (by omega)
  have htake : (block.take (21 + (objectBytes pre).length)).drop 21 = objectBytes pre := by
    rw [drop_take, Nat.add_sub_cancel_left, htail, take_left]
  have hlen : 21 ≤ (block.take (21 + (objectBytes pre).length)).length := by
    rw [length_take]
    omega
  refine ⟨block.drop (21 + (objectBytes pre).length + (writeObject kv).length +
    (objectBytes post).length), ?_⟩
  rw [spliced, hmoved, writeAt, hh, take_zero, nil_append, Nat.zero_add,
    drop_append_of_le_length hlen, htake, objectBytes_append, objectBytes_cons]
  simp only [append_assoc]

lemma length_spliced : (spliced block pre kv post).length = block.length := by
  have hsum := usedLength_splice block pre kv post
  have hh : (encodeHeader (headerOf block (pre ++ kv :: post))).length = 21 :=
    length_encodeHeader hlt (hused.trans_lt hlt) (hcount.trans_lt (by decide))
  have hmove := length_writeAt block
    (21 + (objectBytes pre).length + (writeObject kv).length) (objectBytes post) (by omega)
  rw [spliced]
  generalize writeAt block _ (objectBytes post) = moved at hmove
  have hw := length_writeAt moved (21 + (objectBytes pre).length) (writeObject kv) (by omega)
  rw [length_writeAt _ _ _ (by omega), hw, hmove]

end

lemma layout_spliced (hpre : ∃ tail, block.drop 21 = objectBytes pre ++ tail)
    (hlt : block.length < 2 ^ 32) (hfit : Fitting block pre kv post)
    (hsizes : ∀ d ∈ pre ++ post, calculateObjectSize d = (writeObject d).length)
    (hdis : ((pre ++ kv :: post).map KvPair.key).Nodup)
    (hcount : (pre ++ kv :: post).length ≤ 2 ^ 16) :
    Layout (spliced block pre kv post) (pre ++ kv :: post) := by
  have hlen := length_spliced hfit.used_le hlt hcount
  have hh : headerOf (spliced block pre kv post) (pre ++ kv :: post) =
      headerOf block (pre ++ kv :: post) := by
    rw [headerOf, hlen, headerOf]
  refine ⟨⟨?_, ?_, ?_, hdis⟩, ?_, hcount⟩
  · rw [hh]
    exact spliced_eq hfit.used_le hlt hcount hpre
  · rw [hh, hlen]
    exact hfit.used_le
  · rw [hlen]
    exact hlt
  · intro d hd
    simp only [mem_append, mem_cons] at hd
    obtain hd | rfl | hd := hd
    · exact hsizes d (mem_append_left _ hd)
    · exact hfit.size_eq
    · exact hsizes d (mem_append_right _ hd)

lemma layout_replaced (h : Layout block (pre ++ old :: post)) (hkey : old.key = kv.key)
    (hfit : Fitting block pre kv post) :
    Layout (spliced block pre kv post) (pre ++ kv :: post) := by
  have hdis := h.distinct
  have hcount := h.count_le
  obtain ⟨rest, hdrop⟩ := h.drop_header
  rw [objectBytes_append, append_assoc] at hdrop
  refine layout_spliced ⟨_, hdrop⟩ h.length_lt hfit ?_ ?_ ?_
  · intro d hd
    refine h.sizes d ?_
    simp only [mem_append, mem_cons] at hd ⊢
    tauto
  · simpa only [map_append, map_cons, hkey] using hdis
  · simpa only [length_append, length_cons] using hcount

lemma layout_appended (h : Layout block objects) (hkey : kv.key ∉ objects.map KvPair.key)
    (hlt : objects.length < 2 ^ 16) (hfit : Fitting block objects kv []) :
    Layout (spliced block objects kv []) (objects ++ [kv]) := by
  refine layout_spliced h.drop_header h.length_lt hfit ?_ ?_ ?_
  · intro d hd
    rw [append_nil] at hd
    exact h.sizes d hd
  · rw [map_append, nodup_append]
    refine ⟨h.distinct, nodup_singleton _, ?_⟩
    simp only [map_cons, map_nil, mem_singleton]
    rintro a ha b rfl rfl
    exact hkey ha
  · rw [length_append, length_singleton]
    omega

lemma writeHeader_ok {h : Header} (hlen : (encodeHeader h).length = 21)
    (htotal : 21 ≤ h.totalLength) :
    writeHeader block h = .ok (writeAt block 0 (encodeHeader h)) := by
  rw [writeHeader, if_pos (by omega)]

variable {found : Option Found}

lemma placeObject_iff {h : Header} (hspace : calculateObjectSize kv = (writeObject kv).length →
      ((writeObject kv).length ≤ availableSpace h found ↔
        h.usedLength + (writeObject kv).length - oldObjectSize found ≤ h.totalLength))
    (hinside : h.usedLength + (writeObject kv).length - oldObjectSize found ≤ h.totalLength →
      leavesBlock block h found (writeObject kv).length = false) :
    placeObject block h found kv = .ok block' ↔
      calculateObjectSize kv = (writeObject kv).length ∧
      h.usedLength + (writeObject kv).length - oldObjectSize found ≤ h.totalLength ∧
      writeHeader (writeAt (moveRemaining block h found (writeObject kv).length)
          (placeOf h found) (writeObject kv)) (newHeader h found (writeObject kv).length) =
        .ok block' := by
  rw [placeObject]
  constructor
  · intro hplc
    split at hplc
    · cases hplc
    · next hroom =>
      split at hplc
      · cases hplc
      · split at hplc
        · cases hplc
        · split at hplc
          · cases hplc
          · next hsize =>
            rw [not_ne_iff] at hsize
            rw [← hsize] at hplc hroom
            exact ⟨hsize.symm, (hspace hsize.symm).1 (not_lt.1 hroom), hplc⟩
  · rintro ⟨hsize, hroom, hw⟩
    have hle := (hspace hsize).2 hroom
    rw [hsize, if_neg (not_lt.2 hle), hinside hroom, if_neg (by decide), if_neg (lt_irrefl _),
      if_neg (by simp), hw]

/-- The place of an object is behind `pre`, and `post` is all that is moved. -/
structure Between (block : Bytes) (objects pre : List KvPair) (post : List KvPair)
    (found : Option Found) : Prop where
  start : placeOf (headerOf block objects) found = 21 + (objectBytes pre).length
  used : (headerOf block objects).usedLength =
    21 + (objectBytes pre).length + oldObjectSize found + (objectBytes post).length
  stop : ∀ f ∈ found, f.stop = 21 + (objectBytes pre).length + oldObjectSize found ∧
    calculateObjectSize f.kv = oldObjectSize found
  moved : ∀ n, moveRemaining block (headerOf block objects) found n =
    writeAt block (21 + (objectBytes pre).length + n) (objectBytes post)
  count : objects.length - (if found.isSome then 1 else 0) = (pre ++ post).length

lemma placeObject_spliced_iff (h : Layout block objects)
    (hbetween : Between block objects pre post found)
    (hcount : (pre ++ kv :: post).length ≤ 2 ^ 16) :
    placeObject block (headerOf block objects) found kv = .ok block' ↔
      Fitting block pre kv post ∧ block' = spliced block pre kv post := by
  have hused := h.used_le
  have hlt := h.length_lt
  have hold := hbetween.used
  have hnew := usedLength_splice block pre kv post
  have hh : newHeader (headerOf block objects) found (writeObject kv).length =
      headerOf block (pre ++ kv :: post) := by
    refine Header.mk.injEq .. ▸ ⟨rfl, ?_, ?_⟩
    · change _ = (headerOf block (pre ++ kv :: post)).usedLength
      omega
    · have hsame := hbetween.count
      simp only [headerOf, length_append, length_cons] at hsame ⊢
      omega
  have htot : (headerOf block objects).totalLength = block.length := rfl
  have hspace : (writeObject kv).length ≤ availableSpace (headerOf block objects) found ↔
      (headerOf block objects).usedLength + (writeObject kv).length - oldObjectSize found ≤
        (headerOf block objects).totalLength := by
    rw [availableSpace, htot]
    omega
  have hlen : (headerOf block (pre ++ kv :: post)).usedLength ≤ block.length →
      (encodeHeader (headerOf block (pre ++ kv :: post))).length = 21 := fun hle =>
    length_encodeHeader hlt (hle.trans_lt hlt) (hcount.trans_lt (by decide))
  have hinside : (headerOf block objects).usedLength + (writeObject kv).length -
      oldObjectSize found ≤ (headerOf block objects).totalLength →
      leavesBlock block (headerOf block objects) found (writeObject kv).length = false := by
    intro hroom
    have hheader := hlen (by omega)
    refine decide_eq_false ?_
    rw [hh, hheader, hbetween.start]
    rintro (⟨f, hf, hout⟩ | hout)
    · obtain ⟨hstop, hsize⟩ := hbetween.stop f hf
      rw [hstop, hsize] at hout
      omega
    · omega
  rw [placeObject_iff (fun _ => hspace) hinside, hbetween.moved, hbetween.start, hh]
  constructor
  · rintro ⟨hsize, hroom, hw⟩
    have hfit : Fitting block pre kv post := ⟨hsize, by omega⟩
    have hlong : 21 ≤ (headerOf block (pre ++ kv :: post)).totalLength :=
      (by omega : 21 ≤ block.length)
    rw [writeHeader_ok (hlen hfit.used_le) hlong] at hw
    exact ⟨hfit, (Except.ok.inj hw).symm⟩
  · rintro ⟨hfit, rfl⟩
    have hle := hfit.used_le
    have hlong : 21 ≤ (headerOf block (pre ++ kv :: post)).totalLength :=
      (by omega : 21 ≤ block.length)
    exact ⟨hfit.size_eq, by omega, writeHeader_ok (hlen hle) hlong⟩

lemma between_found (h : Layout block (pre ++ old :: post)) :
    Between block (pre ++ old :: post) pre post (some (foundAt pre old)) := by
  have hsize := h.sizes old (by simp)
  have hsum := usedLength_splice block pre old post
  have htail : slice block (foundAt pre old).stop
      ((headerOf block (pre ++ old :: post)).usedLength - (foundAt pre old).stop) =
      objectBytes post := by
    obtain ⟨rest, hd⟩ := h.drop_header
    rw [objectBytes_append, objectBytes_cons, ← append_assoc, append_assoc] at hd
    have hstop : (foundAt pre old).stop = 21 + (objectBytes pre ++ writeObject old).length := by
      simp only [foundAt, length_append]
      omega
    rw [slice, hstop, ← drop_drop, hd, drop_left, hsum, length_append, take_left' (by omega)]
  have hold : oldObjectSize (some (foundAt pre old)) = (writeObject old).length := hsize
  refine ⟨rfl, by rw [hsum, hold], ?_, fun n => ?_, by simp⟩
  · rintro f ⟨⟩
    rw [hold]
    exact ⟨rfl, hsize⟩
  · rw [moveRemaining, htail]
    simp only [foundAt, hsize]
    congr 1
    omega

lemma between_none (block : Bytes) (objects : List KvPair) :
    Between block objects objects [] none :=
  ⟨rfl, rfl, fun _ hf => (nomatch hf), fun _ => writeAt_nil.symm, by simp⟩

lemma placeObject_found_iff (h : Layout block (pre ++ old :: post)) :
    placeObject block (headerOf block (pre ++ old :: post)) (some (foundAt pre old)) kv =
        .ok block' ↔ Fitting block pre kv post ∧ block' = spliced block pre kv post := by
  refine placeObject_spliced_iff h (between_found h) ?_
  have hcount := h.count_le
  simpa only [length_append, length_cons] using hcount

lemma placeObject_none_iff (h : Layout block objects) (hlt : objects.length < 2 ^ 16) :
    placeObject block (headerOf block objects) none kv = .ok block' ↔
      Fitting block objects kv [] ∧ block' = spliced block objects kv [] := by
  refine placeObject_spliced_iff h (between_none block objects) ?_
  rw [length_append, length_singleton]
  omega

/-- A value in the block that neither the move nor the front of the object gets at. -/
def Untouched (h : Header) (found : Option Found) (kv : KvPair) (offset : ℕ) : Prop :=
  offset + kv.value.bytes.length ≤ placeOf h found ∨
    (∀ f ∈ found, calculateObjectSize f.kv = calculateObjectSize kv) ∧
      placeOf h found + (objectFront kv).length ≤ offset

lemma moveRemaining_same {h : Header} {n : ℕ}
    (hsame : ∀ f ∈ found, calculateObjectSize f.kv = n) :
    moveRemaining block h found n = block := by
  cases found with
  | none => rfl
  | some f => rw [moveRemaining, hsame f rfl, Nat.add_sub_cancel, writeAt_slice]

lemma copied_untouched {offset : ℕ} (hbetween : Between block objects pre post found)
    (hfit : Fitting block pre (copied block (headerOf block objects) found kv (some offset)) post)
    (hvalue : slice block offset kv.value.bytes.length = kv.value.bytes)
    (huntouched : Untouched (headerOf block objects) found kv offset) :
    copied block (headerOf block objects) found kv (some offset) = kv := by
  have hmove := hbetween.moved (calculateObjectSize kv)
  have hmemory : ∀ memory : Bytes, block.length ≤ memory.length →
      (slice memory offset kv.value.bytes.length).length = kv.value.bytes.length := by
    intro memory hle
    have hlen := congrArg length hvalue
    rw [length_slice] at hlen ⊢
    omega
  have hlen := hmemory (writeAt (moveRemaining block (headerOf block objects) found
      (calculateObjectSize kv)) (placeOf (headerOf block objects) found) (objectFront kv)) (by
    refine le_trans ?_ (le_length_writeAt _ _ _)
    rw [hmove]
    exact le_length_writeAt _ _ _)
  have hsize := hfit.size_eq
  have hused := hfit.used_le
  rw [usedLength_splice] at hused
  rw [copied, calculateObjectSize_withBytes kv hlen, writeObject_withBytes kv hlen, length_append,
    hlen] at hsize
  rw [copied, writeObject_withBytes kv hlen, length_append, hlen] at hused
  have hslice : slice (writeAt (moveRemaining block (headerOf block objects) found
      (calculateObjectSize kv)) (placeOf (headerOf block objects) found) (objectFront kv)) offset
      kv.value.bytes.length = kv.value.bytes := by
    rw [hbetween.start]
    obtain hbefore | ⟨hsame, hbehind⟩ := huntouched
    · rw [hbetween.start] at hbefore
      have hmoved : 21 + (objectBytes pre).length + calculateObjectSize kv +
          (objectBytes post).length ≤ block.length := by omega
      rw [hmove, slice_writeAt_before _ _ _ _ _ _ hbefore,
        slice_writeAt_before _ _ _ _ _ hmoved (by omega), hvalue]
      rw [length_writeAt _ _ _ hmoved]
      omega
    · rw [hbetween.start] at hbehind
      rw [moveRemaining_same hsame, slice_writeAt_after _ _ _ _ _ (by omega) hbehind, hvalue]
  rw [copied]
  simp only [hslice, withBytes_bytes]

lemma mem_replaced_iff (hdis : ((pre ++ old :: post).map KvPair.key).Nodup)
    (hkey : old.key = kv.key) (d : KvPair) :
    d ∈ pre ++ kv :: post ↔ d = kv ∨ d ∈ pre ++ old :: post ∧ d.key ≠ kv.key := by
  have ho : ∀ d ∈ pre ++ post, d.key ≠ kv.key := by
    intro d hd heq
    rw [map_append, map_cons, nodup_middle, nodup_cons, ← map_append] at hdis
    exact hdis.1 (hkey.trans heq.symm ▸ mem_map_of_mem hd)
  constructor
  · intro hd
    obtain hd | hd | hd : d ∈ pre ∨ d = kv ∨ d ∈ post := by simpa using hd
    · exact .inr ⟨by simp [hd], ho d (by simp [hd])⟩
    · exact .inl hd
    · exact .inr ⟨by simp [hd], ho d (by simp [hd])⟩
  · rintro (rfl | ⟨hd, hne⟩)
    · simp
    · obtain hd | rfl | hd : d ∈ pre ∨ d = old ∨ d ∈ post := by simpa using hd
      · simp [hd]
      · exact absurd hkey hne
      · simp [hd]

lemma copied_key (block : Bytes) (h : Header) (found : Option Found) (kv : KvPair)
    (inside : Option ℕ) : (copied block h found kv inside).key = kv.key := by
  cases inside <;> rfl

/-- One object is replaced or added, of which the bytes of the value may not be those given. -/
lemma setData_layout {inside : Option ℕ} (h : Layout block objects)
    (hset : setData fuel block kv inside = .ok block') :
    ∃ found pre post objects', searchObject fuel block kv.key = .ok found ∧
      Between block objects pre post found ∧
      Fitting block pre (copied block (headerOf block objects) found kv inside) post ∧
      Layout block' objects' ∧
      ∀ d, d ∈ objects' ↔ d = copied block (headerOf block objects) found kv inside ∨
        d ∈ objects ∧ d.key ≠ kv.key := by
  rw [setData, h.readHeader_eq, ok_bind] at hset
  obtain ⟨found, hsr, hplc⟩ := bind_eq_ok hset
  have hcopied := copied_key block (headerOf block objects) found kv inside
  obtain ⟨pre, old, post, rfl, hkey, rfl⟩ | ⟨hkey, hlt, rfl⟩ := h.search_ok hsr
  · obtain ⟨hfit, rfl⟩ := (placeObject_found_iff h).1 hplc
    refine ⟨_, pre, post, _, hsr, between_found h, hfit,
      layout_replaced h (hkey.trans hcopied.symm) hfit, fun d => ?_⟩
    rw [mem_replaced_iff h.distinct (hkey.trans hcopied.symm), hcopied]
  · obtain ⟨hfit, rfl⟩ := (placeObject_none_iff h hlt).1 hplc
    refine ⟨_, objects, [], _, hsr, between_none block objects, hfit,
      layout_appended h (hcopied ▸ hkey) hlt hfit, fun d => ?_⟩
    have ho : d ∈ objects → d.key ≠ kv.key := by
      intro hd heq
      exact hkey (heq ▸ mem_map_of_mem hd)
    rw [mem_append, mem_singleton]
    tauto

lemma setData_own (h : Layout block (pre ++ kv :: post))
    (hset : setData fuel block kv (some (21 + (objectBytes pre).length + (writeObject kv).length -
      kv.value.bytes.length)) = .ok block') : setData fuel block kv none = .ok block' := by
  rw [setData, h.readHeader_eq, ok_bind] at hset ⊢
  obtain ⟨found, hsr, hplc⟩ := bind_eq_ok hset
  have hmono := searchObject_mono (by omega : fuel ≤ pre.length + (fuel + 1))
    (by rw [hsr]; simp)
  rw [h.search_present, hsr] at hmono
  obtain rfl := Except.ok.inj hmono
  obtain ⟨hfit, -⟩ := (placeObject_found_iff h).1 hplc
  have hobject : writeObject ⟨kv.key, kv.value.withBytes kv.value.bytes⟩ = _ :=
    writeObject_withBytes kv rfl
  rw [withBytes_bytes] at hobject
  have hlen := congrArg length hobject
  rw [length_append] at hlen
  change (writeObject kv).length = _ at hlen
  obtain ⟨rest, hdrop⟩ := h.drop_header
  have hvalue : slice block (21 + (objectBytes pre).length + (writeObject kv).length -
      kv.value.bytes.length) kv.value.bytes.length = kv.value.bytes := by
    have hoffset : 21 + (objectBytes pre).length + (writeObject kv).length -
        kv.value.bytes.length = 21 + (objectBytes pre ++ objectFront kv).length := by
      rw [length_append]
      omega
    have hkv : writeObject kv = objectFront kv ++ kv.value.bytes := hobject
    rw [objectBytes_append, objectBytes_cons, hkv] at hdrop
    rw [slice, hoffset, ← drop_drop, hdrop]
    simp only [append_assoc]
    rw [← append_assoc, drop_left, take_left]
  have hcopied := copied_untouched (between_found h) hfit hvalue
    (.inr ⟨fun f hf => by cases hf; rfl, by
      change 21 + (objectBytes pre).length + (objectFront kv).length ≤ _
      omega⟩)
  rw [hcopied] at hplc
  rw [hsr, ok_bind]
  exact hplc

lemma setData_new (h : Layout block objects) (hkey : kv.key ∉ objects.map KvPair.key)
    (hlt : objects.length < 2 ^ 16) (hfit : Fitting block objects kv []) (fuel : ℕ) :
    ∃ block', setData (objects.length + (fuel + 1)) block kv none = .ok block' ∧
      Layout block' (objects ++ [kv]) ∧ block'.length = block.length := by
  refine ⟨_, ?_, layout_appended h hkey hlt hfit, length_spliced hfit.used_le h.length_lt ?_⟩
  · rw [setData, h.readHeader_eq, ok_bind, h.search_absent hkey hlt, ok_bind]
    exact (placeObject_none_iff h hlt).2 ⟨hfit, rfl⟩
  · rw [length_append, length_singleton]
    omega

lemma layout_init {blockLength : UInt32} (h : initDatablock blockLength = .ok block) :
    Layout block [] ∧ block.length = blockLength.toNat := by
  have hlt := blockLength.toNat_lt
  have hh : (encodeHeader ⟨blockLength.toNat, 21, 0⟩).length = 21 :=
    length_encodeHeader hlt (by decide : 21 < 2 ^ 32) (by decide : 0 < 2 ^ 32)
  rw [initDatablock, writeHeader, hh] at h
  split at h
  · next hle =>
    have hlen : block.length = blockLength.toNat := by
      rw [← Except.ok.inj h, length_writeAt _ _ _ (by simp [hh, hle]), length_replicate]
    refine ⟨⟨⟨⟨(replicate blockLength.toNat 0).drop 21, ?_⟩, ?_, ?_, nodup_nil⟩, ?_, ?_⟩, hlen⟩
    · rw [headerOf, hlen, ← Except.ok.inj h, writeAt, take_zero, nil_append, hh]
      rfl
    · rw [hlen]
      exact hle
    · rw [hlen]
      exact hlt
    · exact fun kv hkv => absurd hkv not_mem_nil
    · exact Nat.zero_le _
  · cases h

end Neuropil.Datablock.Placement
