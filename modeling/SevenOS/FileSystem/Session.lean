import SevenOS.FileSystem.Operations

/-! # Sessions

The calls that change the file system, and the states they can lead to from a
successful `fs_format`.
-/

namespace SevenOS

inductive Call where
  | mkdirPath (path : CStr)
  | create (name : CStr)
  | writePath (path data : CStr)
  | copyPath (srcPath dstPath : CStr)
  | rename (srcPath dstPath : CStr)
  | removePath (path : CStr)
  | removePathRecursive (path : CStr)
  | writePasswd (hash : UInt32)

namespace Call

def run (dev : Device) : Call → FsM Unit
  | mkdirPath path => fsMkdirPath dev path
  | create name => fsCreate dev name
  | writePath path data => fsWritePath dev path data
  | copyPath srcPath dstPath => fsCopyPath dev srcPath dstPath
  | rename srcPath dstPath => fsRename dev srcPath dstPath
  | removePath path => fsRemovePath dev path
  | removePathRecursive path => fsRemovePathRecursive dev path
  | writePasswd hash => fsWritePasswd dev hash

def paths : Call → List CStr
  | mkdirPath path => [path]
  | create name => [name]
  | writePath path _ => [path]
  | copyPath srcPath dstPath => [srcPath, dstPath]
  | rename srcPath dstPath => [srcPath, dstPath]
  | removePath path => [path]
  | removePathRecursive path => [path]
  | writePasswd _ => []

end Call

/-- A name of 1 to 29 characters. -/
def Component (name : CStr) : Prop := 1 ≤ name.length ∧ name.length ≤ 29 ∧ slash ∉ name.chars

instance (name : CStr) : Decidable (Component name) := inferInstanceAs (Decidable (_ ∧ _ ∧ _))

/-- One or two such names joined by one `/`. -/
def Ordinary (path : CStr) : Prop :=
  Component path ∨ ∃ dirname name, Component dirname ∧ Component name ∧
    path.chars = dirname.chars ++ slash :: name.chars

def Call.Ordinary (call : Call) : Prop := ∀ path ∈ call.paths, SevenOS.Ordinary path

/-- The states after a successful `fs_format` and any calls that `allow` lets through,
which may look at the state before the call and at how it ended. -/
inductive Session (dev : Device) (allow : Fs → Call → Outcome Unit → Prop) : Fs → Prop
  | format {s s' : Fs} (totalBlocks inodeCount : UInt32) :
      fsFormat dev totalBlocks inodeCount s = (.ok (), s') → Session dev allow s'
  | call {s s' : Fs} {call : Call} {o : Outcome Unit} : Session dev allow s →
      allow s call o → call.run dev s = (o, s') → Session dev allow s'

namespace Session

variable {dev : Device} {allow allow' : Fs → Call → Outcome Unit → Prop} {s : Fs}

theorem mono (h : Session dev allow s) (himp : ∀ s call o, allow s call o → allow' s call o) :
    Session dev allow' s := by
  induction h with
  | format totalBlocks inodeCount hrun => exact .format totalBlocks inodeCount hrun
  | call _ hallow hrun ih => exact .call ih (himp _ _ _ hallow) hrun

/-- `fs_format` ended well. -/
theorem formatted {totalBlocks inodeCount : UInt32}
    (h : (fsFormat dev totalBlocks inodeCount s).1 = .ok ()) :
    Session dev allow (fsFormat dev totalBlocks inodeCount s).2 :=
  .format totalBlocks inodeCount (Prog.run_eq h)

theorem next (h : Session dev allow s) {call : Call} (hallow : allow s call (call.run dev s).1) :
    Session dev allow (call.run dev s).2 :=
  .call h hallow rfl

end Session

def runCalls (dev : Device) (calls : List Call) (s : Fs) : Fs :=
  calls.foldl (fun s call => (call.run dev s).2) s

def AllAllowed (dev : Device) (allow : Fs → Call → Outcome Unit → Prop) : List Call → Fs → Prop
  | [], _ => True
  | call :: calls, s =>
      allow s call (call.run dev s).1 ∧ AllAllowed dev allow calls (call.run dev s).2

theorem Session.runCalls {dev : Device} {allow : Fs → Call → Outcome Unit → Prop} {s : Fs}
    (h : Session dev allow s) {calls : List Call} (hallow : AllAllowed dev allow calls s) :
    Session dev allow (runCalls dev calls s) := by
  induction calls generalizing s with
  | nil => exact h
  | cons call calls ih => exact ih (h.next hallow.1) hallow.2

theorem allAllowed_of_forall {dev : Device} {allow : Fs → Call → Outcome Unit → Prop}
    {calls : List Call} (h : ∀ call ∈ calls, ∀ s o, allow s call o) (s : Fs) :
    AllAllowed dev allow calls s := by
  induction calls generalizing s with
  | nil => trivial
  | cons call calls ih => exact ⟨h call (by simp) _ _, ih (fun c hc => h c (by simp [hc])) _⟩

/-- A disk of zeros whose transfers all work. -/
def Device.working : Device where
  sectorCount := none
  readFails _ _ := false
  writeFault _ _ := none
  pastSb _ := Bytes.zero
  frame := ⟨44, 0x10A5C, by decide, by decide⟩

/-- The kernel before it has touched a disk that holds `disk`. -/
def Fs.booted (disk : UInt32 → Block) : Fs where
  sb := ⟨0, 0, 0, 0, 0, 0, 0, 0⟩
  bitmap := Bytes.zero
  inodes _ := Inode.zero
  mounted := false
  disk := disk
  lastError := .none
  inodeScratch _ := Inode.zero
  blockScratch := Bytes.zero
  blockScratch2 := Bytes.zero
  log := []

/-- `fs_format(totalBlocks, 64)` on a disk, and the calls after it. -/
def Fs.started (dev : Device) (disk : UInt32 → Block) (totalBlocks : UInt32) (calls : List Call) :
    Fs :=
  runCalls dev calls (fsFormat dev totalBlocks 64 (.booted disk)).2

section Started

variable {dev : Device} {allow : Fs → Call → Outcome Unit → Prop} {disk : UInt32 → Block}
  {totalBlocks : UInt32} {calls : List Call}

theorem Session.begun (hformat : (fsFormat dev totalBlocks 64 (.booted disk)).1 = .ok ())
    (hallow : AllAllowed dev allow calls (fsFormat dev totalBlocks 64 (.booted disk)).2) :
    Session dev allow (.started dev disk totalBlocks calls) :=
  (Session.formatted hformat).runCalls hallow

theorem Session.started (hformat : (fsFormat dev totalBlocks 64 (.booted disk)).1 = .ok ())
    (hallow : ∀ call ∈ calls, ∀ s o, allow s call o) :
    Session dev allow (.started dev disk totalBlocks calls) :=
  .begun hformat (allAllowed_of_forall hallow _)

end Started

/-- "a" -/
def nameA : CStr := ⟨[97], by simp⟩
/-- "b" -/
def nameB : CStr := ⟨[98], by simp⟩

/-- A name of one lower-case letter. -/
def letterName (i : Fin 26) : CStr := ⟨[UInt8.ofNat (97 + i.val)], by simp; revert i; decide⟩

/-- "a/b" -/
def pathAB : CStr := ⟨[97, 47, 98], by simp⟩

/-! ## Splitting ordinary paths -/

def joinPath (dirname name : CStr) : CStr := (dirname.append ⟨[slash], by simp [slash]⟩).append name

theorem joinPath_chars (dirname name : CStr) :
    (joinPath dirname name).chars = dirname.chars ++ slash :: name.chars := by
  simp [joinPath, CStr.append]

theorem splitPath_component {path : CStr} (h : Component path) : splitPath path = none := by
  have hall : ∀ c ∈ path.chars, (decide (c ≠ slash)) = true := by
    intro c hc
    have : c ≠ slash := fun heq => h.2.2 (heq ▸ hc)
    simpa using this
  rw [splitPath, if_pos]
  rw [pathSep, List.takeWhile_eq_self_iff.mpr hall]
  rfl

theorem splitPath_join {path dirname name : CStr} (hd : Component dirname)
    (h : path.chars = dirname.chars ++ slash :: name.chars) :
    splitPath path = some (dirname, name) := by
  have hall : ∀ c ∈ dirname.chars, (decide (c ≠ slash)) = true := by
    intro c hc
    have : c ≠ slash := fun heq => hd.2.2 (heq ▸ hc)
    simpa using this
  have hsep : pathSep path = dirname.length := by
    rw [pathSep, h, List.takeWhile_append_of_pos hall]
    simp [CStr.length]
  have hlt : pathSep path ≠ path.length := by
    rw [hsep, CStr.length, CStr.length, h]
    simp
  have hlen : dirname.length = dirname.chars.length := rfl
  have hcut : min dirname.length 29 = dirname.chars.length := by
    have := hd.2.1
    omega
  rw [splitPath, if_neg hlt, hsep, hcut, hlen]
  have hdir : path.take dirname.chars.length = dirname := by
    apply CStr.ext
    simp [CStr.take, h]
  have hname : path.drop (dirname.chars.length + 1) = name := by
    apply CStr.ext
    simp [CStr.drop, h, List.drop_append]
  rw [hdir, hname]

/-- When the first part is not cut, the path is what it splits into. -/
theorem splitPath_chars {path dirname name : CStr} (h : splitPath path = some (dirname, name))
    (hshort : dirname.length < 29) : path.chars = dirname.chars ++ slash :: name.chars := by
  have happend := List.takeWhile_append_dropWhile (p := fun c => decide (c ≠ slash))
    (l := path.chars)
  unfold splitPath at h
  split at h
  · cases h
  next hne =>
  obtain ⟨rfl, rfl⟩ := Prod.mk.inj (Option.some.inj h)
  have hle : pathSep path ≤ path.chars.length := (List.takeWhile_prefix _).length_le
  have hmin : min (pathSep path) 29 = pathSep path := by
    simp only [CStr.length, CStr.take, List.length_take] at hshort
    omega
  cases hrest : path.chars.dropWhile fun c => decide (c ≠ slash) with
  | nil =>
      rw [hrest, List.append_nil] at happend
      exact (hne (congrArg List.length happend)).elim
  | cons c rest =>
      have hc : c = slash := by
        have hhead := List.head?_dropWhile_not (fun c => decide (c ≠ slash)) path.chars
        rw [hrest] at hhead
        simpa using hhead
      rw [hrest, hc] at happend
      have hsep : pathSep path = (path.chars.takeWhile fun c => decide (c ≠ slash)).length := rfl
      simp only [CStr.take, CStr.drop, hmin]
      rw [hsep]
      generalize path.chars.takeWhile (fun c => decide (c ≠ slash)) = first at happend
      rw [← happend]
      simp

theorem Ordinary.split {path : CStr} (h : Ordinary path) :
    splitPath path = none ∧ Component path ∨
      ∃ dirname name, splitPath path = some (dirname, name) ∧ Component dirname ∧
        Component name ∧ path.chars = dirname.chars ++ slash :: name.chars := by
  rcases h with h | ⟨dirname, name, hd, hn, heq⟩
  · exact .inl ⟨splitPath_component h, h⟩
  · exact .inr ⟨dirname, name, splitPath_join hd heq, hd, hn, heq⟩

theorem ordinary_iff (path : CStr) : Ordinary path ↔
    match splitPath path with
    | none => Component path
    | some (dirname, name) =>
        Component dirname ∧ Component name ∧ path.chars = dirname.chars ++ slash :: name.chars := by
  constructor
  · intro h
    rcases h.split with ⟨hsplit, hc⟩ | ⟨dirname, name, hsplit, hd, hn, heq⟩
    · rw [hsplit]
      exact hc
    · rw [hsplit]
      exact ⟨hd, hn, heq⟩
  · intro h
    split at h
    · exact .inl h
    · next dirname name _ => exact .inr ⟨dirname, name, h⟩

instance (path : CStr) : Decidable (Ordinary path) :=
  @decidable_of_iff' _ _ (ordinary_iff path)
    (match splitPath path with
    | none => inferInstanceAs (Decidable (Component path))
    | some (_, _) => inferInstanceAs (Decidable (_ ∧ _ ∧ _)))

instance (call : Call) : Decidable call.Ordinary :=
  inferInstanceAs (Decidable (∀ path ∈ call.paths, SevenOS.Ordinary path))

theorem Ordinary.ext {p q : CStr} (hp : Ordinary p) (hq : Ordinary q)
    (h : splitPath p = splitPath q) (hroot : splitPath p = none → p = q) : p = q := by
  rcases hp.split with ⟨hsp, -⟩ | ⟨d, n, hsp, -, -, hpe⟩
  · exact hroot hsp
  · rcases hq.split with ⟨hsq, -⟩ | ⟨d', n', hsq, -, -, hqe⟩
    · rw [hsp, hsq] at h
      cases h
    · rw [hsp, hsq] at h
      cases h
      exact CStr.ext (hpe.trans hqe.symm)

end SevenOS
