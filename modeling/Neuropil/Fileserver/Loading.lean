import Neuropil.Lib.Run
import Neuropil.Tree.Values

namespace Neuropil.Fileserver.Loading

open List Option Lib.Buffer Lib.Run Tree.Values

structure CommonInfo where
  name : CString
  cwd : CString

structure FileInfo where
  ci : CommonInfo
  loaded : Bool
  mmap_region : Option Bytes
  file_size : ℕ

/-- What the files share: the counter of struct np_files, the bytes mapped by the process and its
working directory. -/
structure Process where
  bytes_in_memory : ℕ
  mapped : ℕ
  cwd : CString

structure Files where
  process : Process
  infos : List FileInfo

/-- mmap refuses an empty region and one for which there is no address space. -/
def mmap (p : Process) (content : Bytes) (length : ℕ) : Option Bytes :=
  if length = 0 ∨ 2 ^ 64 ≤ p.mapped + length then none else some (content.take length)

-- the content of the file that a name stands for in a directory, if it can be opened
variable (disk : CString → CString → Option Bytes)

def mapFile (p : Process) (info : FileInfo) (content : Bytes) : Process × FileInfo :=
  ({ p with
    bytes_in_memory := (p.bytes_in_memory + info.file_size) % 2 ^ 64
    mapped := p.mapped + info.file_size },
   { info with loaded := true, mmap_region := some content })

def loadFile (p : Process) (info : FileInfo) : Process × FileInfo :=
  match (disk info.ci.cwd info.ci.name).bind fun content => mmap p content info.file_size with
  -- both early returns are before the last chdir
  | none => ({ p with cwd := info.ci.cwd }, info)
  | some content => mapFile p info content

def closeFile (p : Process) (info : FileInfo) : Process × FileInfo :=
  let mapped := if info.mmap_region.isSome then p.mapped - info.file_size else p.mapped
  let info := { info with loaded := false, mmap_region := none, file_size := 0 }
  -- the size that is taken off is the one that has just been written
  ({ p with
    bytes_in_memory := (p.bytes_in_memory + 2 ^ 64 - info.file_size) % 2 ^ 64
    mapped := mapped }, info)

def ensureLoaded (p : Process) (info : FileInfo) : Process × FileInfo :=
  if info.loaded then (p, info) else loadFile disk p info

inductive Op
  | load (i : ℕ)
  | close (i : ℕ)

def Op.file : Op → ℕ
  | .load i => i
  | .close i => i

def Op.apply (p : Process) (info : FileInfo) : Op → Process × FileInfo
  | .load _ => ensureLoaded disk p info
  | .close _ => closeFile p info

def step (s : Files) (op : Op) : Files :=
  match s.infos[op.file]? with
  | none => s
  | some info =>
    let r := op.apply disk s.process info
    ⟨r.1, s.infos.set op.file r.2⟩

def FileInfo.registered (ci : CommonInfo) (st_size : ℕ) : FileInfo := ⟨ci, false, none, st_size⟩

def registered (cwd : CString) (files : List (CommonInfo × ℕ)) : Files :=
  ⟨⟨0, 0, cwd⟩, files.map fun f => .registered f.1 f.2⟩

def FileInfo.loadedSize (info : FileInfo) : ℕ := if info.loaded then info.file_size else 0

def loadedBytes (s : Files) : ℕ := (s.infos.map FileInfo.loadedSize).sum

def sizes (s : Files) : List ℕ := s.infos.map FileInfo.file_size

def contentAt (s : Files) (i : ℕ) : Option Bytes :=
  s.infos[i]?.bind fun info => if info.loaded then info.mmap_region else none

/-- What the counter and the files should be like after a history of operations. -/
structure Intact (start : Files) (before : List Op) (s : Files) : Prop where
  accounted : s.process.bytes_in_memory = loadedBytes s
  unchanged : sizes s = sizes start
  again : ∀ earlier, earlier <+: before → ∀ i content,
    contentAt (run (step disk) start earlier) i = some content → contentAt s i = none →
    contentAt (step disk s (.load i)) i = some content

def Harmless (start : Files) (op : Op) : Prop :=
  ∀ i, op = .close i → ∀ info ∈ start.infos[i]?, info.file_size = 0

variable {disk} {start s : Files} {p : Process} {info : FileInfo}

lemma loadFile_cases (disk : CString → CString → Option Bytes) (p : Process) (info : FileInfo) :
    (loadFile disk p info = ({ p with cwd := info.ci.cwd }, info)) ∨
    (0 < info.file_size ∧ p.mapped + info.file_size < 2 ^ 64 ∧ ∃ content,
      loadFile disk p info = mapFile p info content) := by
  cases hload : (disk info.ci.cwd info.ci.name).bind fun content =>
      mmap p content info.file_size with
  | none => exact .inl (by simp only [loadFile, hload])
  | some content =>
    obtain ⟨bytes, -, hmmap⟩ := bind_eq_some_iff.1 hload
    have hroom : ¬ (info.file_size = 0 ∨ 2 ^ 64 ≤ p.mapped + info.file_size) := by
      intro h
      rw [mmap, if_pos h] at hmmap
      cases hmmap
    exact .inr ⟨by omega, by omega, content, by simp only [loadFile, hload]⟩

structure Sound (start s : Files) : Prop where
  accounted : s.process.bytes_in_memory = loadedBytes s
  mapped : s.process.mapped = loadedBytes s
  bound : loadedBytes s < 2 ^ 64
  unchanged : sizes s = sizes start
  loaded : ∀ info ∈ s.infos, info.loaded → 0 < info.file_size

lemma sound_registered (cwd : CString) (files : List (CommonInfo × ℕ)) :
    Sound (registered cwd files) (registered cwd files) := by
  have hnone : loadedBytes (registered cwd files) = 0 := by
    simp [loadedBytes, registered, FileInfo.registered, FileInfo.loadedSize, Function.comp_def]
  refine ⟨hnone.symm, hnone.symm, by omega, rfl, ?_⟩
  intro info hinfo hld
  obtain ⟨f, -, rfl⟩ := mem_map.1 hinfo
  cases hld

variable {i : ℕ} {infos : List FileInfo}

lemma sum_map_set (h : infos[i]? = some info) (info' : FileInfo) :
    ((infos.set i info').map FileInfo.loadedSize).sum + info.loadedSize =
      (infos.map FileInfo.loadedSize).sum + info'.loadedSize := by
  induction infos generalizing i with
  | nil => simp at h
  | cons first infos ih =>
    cases i with
    | zero =>
      obtain rfl : first = info := by simpa using h
      simp only [set_cons_zero, map_cons, sum_cons]
      omega
    | succ i =>
      have hrest := ih (by simpa using h)
      simp only [set_cons_succ, map_cons, sum_cons]
      omega

lemma set_same (h : infos[i]? = some info) : infos.set i info = infos := by
  obtain ⟨hi, rfl⟩ := List.getElem?_eq_some_iff.1 h
  exact set_getElem_self hi

variable {content : Bytes}

lemma contentAt_eq_some (h : contentAt s i = some content) :
    ∃ info, s.infos[i]? = some info ∧ info.loaded = true := by
  obtain ⟨info, hinfo, hcon⟩ := bind_eq_some_iff.1 h
  refine ⟨info, hinfo, ?_⟩
  by_contra hld
  rw [if_neg hld] at hcon
  cases hcon

lemma contentAt_set {j : ℕ} (hinfo : s.infos[j]? = some info)
    (hld : info.loaded = false) (h : contentAt s i = some content) (p : Process)
    (info' : FileInfo) : contentAt ⟨p, s.infos.set j info'⟩ i = some content := by
  obtain ⟨found, hfnd, hyes⟩ := contentAt_eq_some h
  have hne : j ≠ i := by
    rintro rfl
    cases hinfo.symm.trans hfnd
    cases hld.symm.trans hyes
  simpa only [contentAt, getElem?_set_ne hne] using h

lemma step_load (disk : CString → CString → Option Bytes) (s : Files) (i : ℕ) :
    (∃ cwd, step disk s (.load i) = ⟨{ s.process with cwd := cwd }, s.infos⟩) ∨
    ∃ info content, s.infos[i]? = some info ∧ info.loaded = false ∧ 0 < info.file_size ∧
      s.process.mapped + info.file_size < 2 ^ 64 ∧ step disk s (.load i) =
        ⟨(mapFile s.process info content).1, s.infos.set i (mapFile s.process info content).2⟩ := by
  cases hinfo : s.infos[i]? with
  | none => exact .inl ⟨s.process.cwd, by simp only [step, Op.file, hinfo]⟩
  | some info =>
    cases hld : info.loaded with
    | true =>
      refine .inl ⟨s.process.cwd, ?_⟩
      simp only [step, Op.file, hinfo, Op.apply, ensureLoaded, hld, if_true, set_same hinfo]
    | false =>
      obtain hfail | ⟨hpos, hroom, content, hload⟩ := loadFile_cases disk s.process info
      · refine .inl ⟨info.ci.cwd, ?_⟩
        simp only [step, Op.file, hinfo, Op.apply, ensureLoaded, hld, Bool.false_eq_true,
          if_false, hfail, set_same hinfo]
      · refine .inr ⟨info, content, rfl, hld, hpos, hroom, ?_⟩
        simp only [step, Op.file, hinfo, Op.apply, ensureLoaded, hld, Bool.false_eq_true,
          if_false, hload]

lemma step_close (hinfo : s.infos[i]? = some info) : step disk s (.close i) =
      ⟨(closeFile s.process info).1, s.infos.set i (closeFile s.process info).2⟩ := by
  simp only [step, Op.file, hinfo, Op.apply]

lemma step_absent {op : Op} (hinfo : s.infos[op.file]? = none) : step disk s op = s := by
  simp only [step, hinfo]

lemma size_at (h : sizes s = sizes start) :
    s.infos[i]?.map FileInfo.file_size = start.infos[i]?.map FileInfo.file_size := by
  have hi := congrArg (fun l => l[i]?) h
  simpa only [sizes, getElem?_map] using hi

namespace Sound

variable (h : Sound start s)
include h

lemma replace {i : ℕ} (hinfo : s.infos[i]? = some info) {info' : FileInfo}
    (hsize : info'.file_size = info.file_size) (hpos : info'.loaded → 0 < info'.file_size)
    (hbytes : p.bytes_in_memory + info.loadedSize = s.process.bytes_in_memory + info'.loadedSize)
    (hmap : p.mapped = p.bytes_in_memory) (hb : p.bytes_in_memory < 2 ^ 64) :
    Sound start ⟨p, s.infos.set i info'⟩ := by
  have hsum : p.bytes_in_memory = loadedBytes ⟨p, s.infos.set i info'⟩ := by
    have hset := sum_map_set hinfo info'
    rw [h.accounted] at hbytes
    simp only [loadedBytes] at hbytes ⊢
    omega
  refine ⟨hsum, hmap.trans hsum, hsum ▸ hb, ?_, ?_⟩
  · have hsame := congrArg (map FileInfo.file_size) (set_same hinfo)
    rw [map_set] at hsame
    rw [← h.unchanged, sizes, map_set, hsize]
    exact hsame
  · intro other ho
    obtain hold | rfl := mem_or_eq_of_mem_set ho
    · exact h.loaded other hold
    · exact hpos

lemma load (i : ℕ) : Sound start (step disk s (.load i)) := by
  obtain ⟨cwd, hstep⟩ | ⟨info, content, hinfo, hld, hpos, hroom, hstep⟩ := step_load disk s i
  · rw [hstep]
    exact ⟨h.accounted, h.mapped, h.bound, h.unchanged, h.loaded⟩
  · have hbytes : (mapFile s.process info content).1.bytes_in_memory =
        s.process.bytes_in_memory + info.file_size := by
      rw [h.mapped, ← h.accounted] at hroom
      exact Nat.mod_eq_of_lt hroom
    rw [hstep]
    apply h.replace hinfo
    · rfl
    · exact fun _ => hpos
    · rw [hbytes, FileInfo.loadedSize, hld]
      rfl
    · rw [hbytes, h.accounted, ← h.mapped]
      rfl
    · rwa [hbytes, h.accounted, ← h.mapped]

lemma not_loaded {i : ℕ} (hinfo : s.infos[i]? = some info)
    (hzero : info.file_size = 0) : info.loaded = false := by
  cases hld : info.loaded with
  | false => rfl
  | true =>
    have hpos := h.loaded info (mem_of_getElem? hinfo) hld
    omega

lemma close {i : ℕ} (hinfo : s.infos[i]? = some info)
    (hzero : info.file_size = 0) : Sound start (step disk s (.close i)) := by
  have hb : s.process.bytes_in_memory < 2 ^ 64 := h.accounted ▸ h.bound
  have hbytes : (closeFile s.process info).1.bytes_in_memory = s.process.bytes_in_memory := by
    simp only [closeFile]
    omega
  have hmap : (closeFile s.process info).1.mapped = s.process.mapped := by
    simp only [closeFile, hzero, Nat.sub_zero, ite_self]
  rw [step_close hinfo]
  apply h.replace hinfo
  · exact hzero.symm
  · intro hld
    cases hld
  · rw [hbytes, FileInfo.loadedSize, h.not_loaded hinfo hzero]
    rfl
  · rw [hmap, hbytes, h.mapped, h.accounted]
  · rwa [hbytes]

end Sound

lemma Harmless.now {op : Op} (h : Harmless start op) (hs : Sound start s) (hop : op = .close i)
    (hinfo : s.infos[i]? = some info) : info.file_size = 0 := by
  have hsize := size_at hs.unchanged (i := i)
  rw [hinfo] at hsize
  obtain ⟨info', hi', heq⟩ := map_eq_some_iff.1 hsize.symm
  rw [← heq]
  exact h i hop info' hi'

lemma Sound.step {op : Op} (h : Sound start s) (hop : Harmless start op) :
    Sound start (step disk s op) := by
  cases op with
  | load i => exact h.load i
  | close i =>
    cases hinfo : s.infos[i]? with
    | none => rwa [step_absent hinfo]
    | some info => exact h.close hinfo (hop.now h rfl hinfo)

lemma Sound.content_kept {op : Op} (h : Sound start s) (hop : Harmless start op)
    (hi : contentAt s i = some content) : contentAt (Loading.step disk s op) i = some content := by
  cases op with
  | load j =>
    obtain ⟨cwd, hstep⟩ | ⟨info, read, hinfo, hld, -, -, hstep⟩ := step_load disk s j
    · rw [hstep]
      exact hi
    · rw [hstep]
      exact contentAt_set hinfo hld hi _ _
  | close j =>
    cases hinfo : s.infos[j]? with
    | none => rwa [step_absent hinfo]
    | some info =>
      rw [step_close hinfo]
      exact contentAt_set hinfo (h.not_loaded hinfo (hop.now h rfl hinfo)) hi _ _

lemma size_forgotten (hinfo : s.infos[i]? = some info) (hsize : info.file_size ≠ 0) :
    sizes (step disk s (.close i)) ≠ sizes s := by
  intro heq
  have hi := size_at heq (i := i)
  obtain ⟨hlt, -⟩ := List.getElem?_eq_some_iff.1 hinfo
  rw [step_close hinfo, hinfo, getElem?_set_self hlt] at hi
  exact hsize (some.inj hi).symm

structure Undisturbed (disk : CString → CString → Option Bytes) (start : Files)
    (before : List Op) (s : Files) : Prop where
  reached : s = run (step disk) start before
  sound : Sound start s
  there : ∀ earlier, earlier <+: before → ∀ i content,
    contentAt (run (step disk) start earlier) i = some content → contentAt s i = some content

namespace Undisturbed

variable {before : List Op} {op : Op}

lemma initial (h : Sound start start) : Undisturbed disk start [] start where
  reached := rfl
  sound := h
  there earlier hpre i content hcon := by
    rwa [prefix_nil.1 hpre] at hcon

variable (h : Undisturbed disk start before s)
include h

lemma step (hop : Harmless start op) :
    Undisturbed disk start (before ++ [op]) (step disk s op) where
  reached := by rw [run_concat, ← h.reached]
  sound := h.sound.step hop
  there earlier he i content hcon := by
    obtain rfl | he := prefix_concat_iff.1 he
    · rwa [run_concat, ← h.reached] at hcon
    · exact h.sound.content_kept hop (h.there earlier he i content hcon)

lemma intact : Intact disk start before s where
  accounted := h.sound.accounted
  unchanged := h.sound.unchanged
  again earlier he i content hcon hnone := by
    cases hnone.symm.trans (h.there earlier he i content hcon)

lemma not_intact (hop : ¬ Harmless start op) :
    ¬ Intact disk start (before ++ [op]) (Loading.step disk s op) := by
  intro hint
  apply hop
  rintro i rfl info' hi'
  have hsize := size_at h.sound.unchanged (i := i)
  rw [mem_def.1 hi'] at hsize
  obtain ⟨info, hinfo, heq⟩ := map_eq_some_iff.1 hsize
  by_contra hne
  rw [← heq] at hne
  exact size_forgotten hinfo hne (hint.unchanged.trans h.sound.unchanged.symm)

end Undisturbed

/-- Along a history the counter is right, the sizes stay and what was closed can be loaded again
exactly when no file with content is ever closed. -/
theorem load_close_intact_iff (disk : CString → CString → Option Bytes) (cwd : CString)
    (files : List (CommonInfo × ℕ)) (ops : List Op) :
    (∀ before, before <+: ops → Intact disk (registered cwd files) before
        (run (step disk) (registered cwd files) before)) ↔
      ∀ op ∈ ops, Harmless (registered cwd files) op := by
  rw [good_iff_admitted (Undisturbed disk (registered cwd files))
    (.initial (sound_registered cwd files)) (fun _ _ _ h hop => h.step hop)
    (fun _ _ h => h.intact) (fun _ _ _ h hop => h.not_intact hop)]
  constructor
  · intro h op hop
    obtain ⟨before, after, rfl⟩ := append_of_mem hop
    exact h before op ⟨after, by simp⟩
  · intro h before op hpre
    exact h op (hpre.subset (by simp))

def oneByte : CString → CString → Option Bytes := fun _ _ => some [42]

def shortName : CString := ⟨[102], by decide, by decide⟩

def oneFile : Files :=
  registered shortName [(⟨shortName, shortName⟩, 1)]

/-- The file is loaded and closed: its byte stays on the counter, its size is gone, and it cannot be
loaded a second time. -/
theorem loaded_only_once :
    contentAt (run (step oneByte) oneFile [.load 0]) 0 = some [42] ∧
      (run (step oneByte) oneFile [.load 0, .close 0]).process.bytes_in_memory = 1 ∧
      loadedBytes (run (step oneByte) oneFile [.load 0, .close 0]) = 0 ∧
      sizes oneFile = [1] ∧ sizes (run (step oneByte) oneFile [.load 0, .close 0]) = [0] ∧
      contentAt (run (step oneByte) oneFile [.load 0, .close 0, .load 0]) 0 = none ∧
      ¬ Intact oneByte oneFile [.load 0, .close 0]
        (run (step oneByte) oneFile [.load 0, .close 0]) := by
  have hbytes : (run (step oneByte) oneFile [.load 0, .close 0]).process.bytes_in_memory = 1 := by
    decide
  have hld : loadedBytes (run (step oneByte) oneFile [.load 0, .close 0]) = 0 := by decide
  refine ⟨by decide, hbytes, hld, by decide, by decide, by decide, ?_⟩
  intro h
  have ha := h.accounted
  cases ha

end Neuropil.Fileserver.Loading
