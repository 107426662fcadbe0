import Neuropil.Lib.Reassembly
import Neuropil.Message.Sender

namespace Neuropil.Message.Collect

open List Lib.Buffer Lib.Reassembly Message.Sender Message.Create Message.Packet

section

lemma sodiumCompare_eq_zero_iff (a b : Bytes) (len : ℕ) :
    sodiumCompare a b len = 0 ↔ leVal (a.take len) = leVal (b.take len) := by
  rw [sodiumCompare]
  split_ifs with hlt heq <;> simp <;> omega

lemma sodiumCompare_neg_iff (a b : Bytes) (len : ℕ) :
    sodiumCompare a b len < 0 ↔ leVal (a.take len) < leVal (b.take len) := by
  rw [sodiumCompare]
  split_ifs with hlt heq <;> simp <;> omega

variable (m : BinaryMessage)

def place (t : Transmission m.parts) : ℕ := t.index.val

def assembled (buf : Buffer (Transmission m.parts)) : E2eMessage :=
  { newMessage with
    state := .chunked
    pointers := (received m buf.base).e2e_msg_part.toPointers
    msg_chunk_counter := buf.contents.length
    msg_chunks := some (buf.slots.map (Option.map (received m))) }

lemma addChunk_first (depth : ℕ) (t : Transmission m.parts) :
    addChunkWith (depth + 1) newMessage (received m t) =
      .ok ⟨.ok, 1, assembled m (start m.parts t)⟩ := by
  have hpos : m.parts ≠ 0 := (Nat.zero_lt_of_lt t.index.isLt).ne'
  have hparts : leVal (received m t).e2e_msg_part.parts = m.parts := by
    rw [received_eq]
    rfl
  have hst : (start m.parts t).contents = [t] := contents_start (Nat.pos_of_ne_zero hpos)
  simp only [addChunkWith, newMessage, firstChunk, hparts, length_replicate, hpos, ↓reduceIte,
    assembled, hst]
  simp [start, map_set]

section

variable {m} (h : m.Unwrapped) (t t' : Transmission m.parts)

include h

lemma compare_eq_zero_iff : sodiumCompare (received m t).e2e_msg_part.mac_e
    (received m t').e2e_msg_part.mac_e 2 = 0 ↔ place m t = place m t' := by
  have hn := number_unwrapped m t h
  have hn' := number_unwrapped m t' h
  rw [numberOf] at hn hn'
  rw [sodiumCompare_eq_zero_iff, hn, hn', place, place]
  omega

lemma compare_neg_iff : sodiumCompare (received m t).e2e_msg_part.mac_e
    (received m t').e2e_msg_part.mac_e 2 < 0 ↔ place m t < place m t' := by
  have hn := number_unwrapped m t h
  have hn' := number_unwrapped m t' h
  rw [numberOf] at hn hn'
  rw [sodiumCompare_neg_iff, hn, hn', place, place]
  omega

lemma index_eq (hle : place m t' ≤ place m t) :
    leVal ((sodiumSub (received m t).e2e_msg_part.mac_e
      (leVal ((received m t').e2e_msg_part.mac_e.take 2)) 2).take 2) = place m t - place m t' := by
  have hn := number_unwrapped m t h
  have hn' := number_unwrapped m t' h
  have hlt := parts_lt m
  have hi := t.index.isLt
  rw [numberOf] at hn hn'
  rw [sodiumSub, take_left' (length_leBytes _ _), leVal_leBytes, hn, hn']
  rw [place, place] at *
  omega

end

variable {m} {depth : ℕ} {buf buf' : Buffer (Transmission m.parts)} {t b : Transmission m.parts}

lemma length_driven_out {slots : List (Option (Transmission m.parts))} {j : ℕ}
    {a : Transmission m.parts} (h : slots[j]? = some (some b)) :
    (slots.set j (some a)).reduceOption.length = slots.reduceOption.length := by
  simpa using (perm_set (a := a) h).length_eq

lemma addChunk_base (h : m.Unwrapped) (heq : place m t = place m buf.base) :
    addChunkWith (depth + 1) (assembled m buf) (received m t) =
      .ok ⟨.operationFailed, buf.contents.length, assembled m buf⟩ := by
  have hcmp := (compare_eq_zero_iff h t buf.base).mpr heq
  simp [addChunkWith, assembled, hcmp]

lemma addChunk_rebase (h : m.Unwrapped) (hslot : buf.slots[0]? = some (some buf.base))
    (hlt : place m t < place m buf.base) :
    addChunkWith (depth + 1) (assembled m buf) (received m t) = do
      let added ← addChunkWith depth (assembled m ⟨t, buf.slots.set 0 (some t)⟩)
        (received m buf.base)
      return { added with ret := .ok } := by
  have hcmp := (compare_neg_iff h t buf.base).mpr hlt
  have hne := mt (compare_eq_zero_iff h t buf.base).mp hlt.ne
  have hlen := length_driven_out (a := t) hslot
  have hmsg : rebase (assembled m buf) (buf.slots.map (Option.map (received m))) (received m t) =
      assembled m ⟨t, buf.slots.set 0 (some t)⟩ := by
    simp [rebase, assembled, Buffer.contents, hlen, map_set, received_eq]
  rw [← hmsg]
  simp [addChunkWith, assembled, hcmp, hne, hslot]

section

variable (h : m.Unwrapped) (hlt : place m buf.base < place m t)

include h hlt

lemma addChunk_empty (hlen : buf.slots.length = m.parts)
    (hslot : buf.slots[place m t - place m buf.base]? = some none) :
    addChunkWith (depth + 1) (assembled m buf) (received m t) = .ok ⟨.ok, buf.contents.length + 1,
      assembled m ⟨buf.base, buf.slots.set (place m t - place m buf.base) (some t)⟩⟩ := by
  have hneg := mt (compare_neg_iff h t buf.base).mp hlt.not_gt
  have hne := mt (compare_eq_zero_iff h t buf.base).mp hlt.ne'
  have hadd := (perm_set (a := t) hslot).length_eq
  have hle := reduceOption_length_le (buf.slots.set (place m t - place m buf.base) (some t))
  have hparts := parts_lt m
  rw [Option.toList_none, nil_append, length_cons] at hadd
  rw [length_set, hlen, hadd] at hle
  have hmod : (buf.slots.reduceOption.length + 1) % 65536 = buf.slots.reduceOption.length + 1 :=
    Nat.mod_eq_of_lt (by omega)
  simp [addChunkWith, assembled, hneg, hne, index_eq h t buf.base hlt.le, hslot, Buffer.contents,
    hmod, hadd, map_set]

variable (hslot : buf.slots[place m t - place m buf.base]? = some (some b))
include hslot

lemma addChunk_present (heq : place m t = place m b) :
    addChunkWith (depth + 1) (assembled m buf) (received m t) =
      .ok ⟨.operationFailed, buf.contents.length, assembled m buf⟩ := by
  have hneg := mt (compare_neg_iff h t buf.base).mp hlt.not_gt
  have hne := mt (compare_eq_zero_iff h t buf.base).mp hlt.ne'
  have hmac := (received_mac_eq_iff m t h b).mpr heq
  simp [addChunkWith, assembled, hneg, hne, index_eq h t buf.base hlt.le, hslot, hmac]

lemma addChunk_taken (hd : place m t ≠ place m b) :
    addChunkWith (depth + 1) (assembled m buf) (received m t) = do
      let added ← addChunkWith depth
        (assembled m ⟨buf.base, buf.slots.set (place m t - place m buf.base) (some t)⟩)
        (received m b)
      return { added with ret := .ok } := by
  have hneg := mt (compare_neg_iff h t buf.base).mp hlt.not_gt
  have hne := mt (compare_eq_zero_iff h t buf.base).mp hlt.ne'
  have hmac := mt (received_mac_eq_iff m t h b).mp hd
  have hlen := length_driven_out (a := t) hslot
  simp [addChunkWith, assembled, hneg, hne, index_eq h t buf.base hlt.le, hslot, hmac,
    Buffer.contents, hlen, map_set]

end

lemma addChunk_simulates (h : m.Unwrapped) (hord : Ordered (place m) m.parts buf)
    (ht : place m t < m.parts) (hsto : store (place m) depth buf t = some buf') :
    ∃ ret, addChunkWith depth (assembled m buf) (received m t) =
      .ok ⟨ret, buf'.contents.length, assembled m buf'⟩ := by
  induction depth generalizing buf t with
  | zero => simp [store] at hsto
  | succ depth ih =>
    rw [store] at hsto
    split_ifs at hsto with heq hlt
    · cases hsto
      exact ⟨_, addChunk_base h heq⟩
    · have hbase := (hord.behind hord.base).2
      obtain ⟨ret, hadd⟩ := ih (hord.rebase hlt) hbase hsto
      exact ⟨.ok, by rw [addChunk_rebase h hord.base hlt, hadd]; rfl⟩
    · have hgt : place m buf.base < place m t := by omega
      cases hslot : buf.slots[place m t - place m buf.base]? with
      | none => simp [hslot] at hsto
      | some s =>
        cases s with
        | none =>
          simp only [hslot, Option.some.injEq] at hsto
          subst hsto
          refine ⟨.ok, ?_⟩
          rw [addChunk_empty h hgt hord.length hslot, Buffer.contents, Buffer.contents,
            ← length_cons (a := t), ← (perm_set hslot).length_eq]
          rfl
        | some b =>
          simp only [hslot] at hsto
          split_ifs at hsto with hb
          · cases hsto
            exact ⟨_, addChunk_present h hgt hslot hb⟩
          · have hbt := (hord.behind hslot).2
            obtain ⟨ret, hadd⟩ := ih (hord.place hgt ht) hbt hsto
            exact ⟨.ok, by rw [addChunk_taken h hgt hslot hb, hadd]; rfl⟩

end

variable {m : BinaryMessage} {buf : Buffer (Transmission m.parts)} {t : Transmission m.parts}
  {before : List (Transmission m.parts)}

def distinct (m : BinaryMessage) (before : List (Transmission m.parts)) : ℕ :=
  (before.map (place m)).dedup.length

structure Collects (before : List (Transmission m.parts)) (buf : Buffer (Transmission m.parts)) :
    Prop where
  ordered : Ordered (place m) m.parts buf
  nodup : (buf.contents.map (place m)).Nodup
  mem : ∀ i, i ∈ buf.contents.map (place m) ↔ i ∈ before.map (place m)

section

variable (h : m.Unwrapped) (hord : Ordered (place m) m.parts buf)

include hord

variable {buf' : Buffer (Transmission m.parts)}

lemma ordered_of_store (hsto : store (place m) (2 ^ 16 + 1) buf t = some buf') :
    Ordered (place m) m.parts buf' := by
  have ht : place m t < m.parts := t.index.isLt
  have hparts := parts_lt m
  obtain ⟨buf'', hs', hord', _⟩ := store_spec (2 ^ 16 + 1) hord ht (by omega)
  obtain rfl := Option.some.inj (hs'.symm.trans hsto)
  exact hord'

include h

lemma add_of_store (hsto : store (place m) (2 ^ 16 + 1) buf t = some buf') :
    ∃ ret, addChunk (assembled m buf) (received m t) =
      .ok ⟨ret, buf'.contents.length, assembled m buf'⟩ :=
  addChunk_simulates h hord t.index.isLt hsto

lemma add_spec (t : Transmission m.parts) :
    ∃ ret buf', addChunk (assembled m buf) (received m t) =
      .ok ⟨ret, buf'.contents.length, assembled m buf'⟩ ∧ Ordered (place m) m.parts buf' ∧
        (Ready (place m) buf t → buf'.contents.Perm (t :: buf.contents)) := by
  have ht : place m t < m.parts := t.index.isLt
  have hparts := parts_lt m
  obtain ⟨buf', hsto, hord', hperm⟩ := store_spec (2 ^ 16 + 1) hord ht (by omega)
  obtain ⟨ret, hadd⟩ := add_of_store h hord hsto
  exact ⟨ret, buf', hadd, hord', hperm⟩

lemma add_placed (hp : Placed (place m) buf t) :
    ∃ ret, addChunk (assembled m buf) (received m t) =
      .ok ⟨ret, buf.contents.length, assembled m buf⟩ :=
  add_of_store h hord (store_placed _ hord hp)

end

lemma Collects.first (t : Transmission m.parts) : Collects [t] (start m.parts t) := by
  have hpos : 0 < m.parts := Nat.zero_lt_of_lt t.index.isLt
  refine ⟨start_ordered t.index.isLt, ?_, ?_⟩
  · simp [contents_start hpos]
  · simp [contents_start hpos]

lemma length_eq_distinct {l : List ℕ} (hnd : l.Nodup)
    (hmem : ∀ i, i ∈ l ↔ i ∈ before.map (place m)) : l.length = distinct m before := by
  apply List.Perm.length_eq
  apply (perm_ext_iff_of_nodup hnd (nodup_dedup _)).mpr
  intro i
  rw [hmem, mem_dedup]

lemma Collects.length_eq (hc : Collects before buf) :
    buf.contents.length = distinct m before := by
  rw [← length_eq_distinct hc.nodup hc.mem, length_map]

lemma Collects.all (hc : Collects before buf) (hfull : buf.contents.length = m.parts) :
    ∀ i < m.parts, i ∈ before.map (place m) := by
  intro i hi
  obtain ⟨a, hslot, rfl⟩ := full_in_order hc.ordered hc.nodup hfull i hi
  rw [← hc.mem]
  exact mem_map_of_mem (mem_contents_iff.mpr ⟨_, hslot⟩)

lemma distinct_all (hall : ∀ i < m.parts, i ∈ before.map (place m)) :
    distinct m before = m.parts := by
  have hmem : ∀ i, i ∈ range m.parts ↔ i ∈ before.map (place m) := by
    intro i
    refine ⟨fun hi => hall i (mem_range.mp hi), fun hi => ?_⟩
    obtain ⟨t, _, rfl⟩ := mem_map.mp hi
    exact mem_range.mpr t.index.isLt
  rw [← length_eq_distinct nodup_range hmem, length_range]

lemma mem_concat_iff (t : Transmission m.parts) (i : ℕ) :
    i ∈ (before ++ [t]).map (place m) ↔ i = place m t ∨ i ∈ before.map (place m) := by
  rw [map_append, mem_append, map_singleton, mem_singleton, or_comm]

lemma distinct_again (h : place m t ∈ before.map (place m)) :
    distinct m (before ++ [t]) = distinct m before := by
  rw [distinct.eq_def m before]
  refine (length_eq_distinct (nodup_dedup _) fun i => ?_).symm
  rw [mem_dedup, mem_concat_iff]
  refine ⟨.inr, ?_⟩
  rintro (rfl | hi)
  · exact h
  · exact hi

variable (h : m.Unwrapped) (hc : Collects before buf) (t : Transmission m.parts)
include h hc

lemma Collects.step (hok : Held (place m) buf t → Placed (place m) buf t) :
    ∃ ret buf', addChunk (assembled m buf) (received m t) =
      .ok ⟨ret, buf'.contents.length, assembled m buf'⟩ ∧ Collects (before ++ [t]) buf' := by
  by_cases hp : Placed (place m) buf t
  · obtain ⟨ret, hadd⟩ := add_placed h hc.ordered hp
    refine ⟨ret, buf, hadd, hc.ordered, hc.nodup, ?_⟩
    obtain ⟨b, hslot, hb⟩ := hp
    have hh : place m t ∈ before.map (place m) := by
      rw [← hc.mem, ← hb]
      exact mem_map_of_mem (mem_contents_iff.mpr ⟨_, hslot⟩)
    intro i
    rw [hc.mem, mem_concat_iff]
    refine ⟨.inr, ?_⟩
    rintro (rfl | hi)
    · exact hh
    · exact hi
  · obtain ⟨ret, buf', hadd, hord, hperm⟩ := add_spec h hc.ordered t
    have hcon := (hperm (ready_of_not_placed hc.ordered hc.nodup hp)).map (place m)
    rw [map_cons] at hcon
    refine ⟨ret, buf', hadd, hord, ?_, ?_⟩
    · exact hcon.nodup_iff.mpr (nodup_cons.mpr ⟨mt hok hp, hc.nodup⟩)
    · intro i
      rw [hcon.mem_iff, mem_cons, hc.mem, mem_concat_iff]

lemma Collects.stored_again (hp : ¬ Placed (place m) buf t) :
    ∃ ret buf', addChunk (assembled m buf) (received m t) =
      .ok ⟨ret, buf'.contents.length, assembled m buf'⟩ ∧
        buf'.contents.length = distinct m before + 1 := by
  obtain ⟨ret, buf', hadd, hord, hperm⟩ := add_spec h hc.ordered t
  have hlen := (hperm (ready_of_not_placed hc.ordered hc.nodup hp)).length_eq
  refine ⟨ret, buf', hadd, ?_⟩
  rw [hlen, length_cons, hc.length_eq]

end Neuropil.Message.Collect
