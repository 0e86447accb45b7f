import SevenOS.FileSystem.RootDirs
import SevenOS.Shell.Resolve

/-! # Listing the working directory

`cd` asks `fs_is_dir`, which follows a path of two components; `ls` hands the
whole path to `fs_list_dir`, which takes it for a name in the root. They agree on
the directories of the root and on no others.
-/

namespace SevenOS

open Prog

variable {dev : Device} {stray : InodeNo → Prop} {v : Volume} {s : Fs} {path : CStr}

/-- Every used entry of a directory block, in the order of the slots. -/
def usedEntries (b : Block) : List DirEntry := (slots.filter (entryUsed b)).map (dirEntry b)

theorem listEntries_all (b : Block) : listEntries b 16 = usedEntries b := by
  have hlen : (slots.filter (entryUsed b)).length ≤ 16 := List.length_filter_le _ slots
  rw [listEntries, usedEntries]
  exact congrArg _ (List.take_of_length_le hlen)

/-- `fs_list_dir` gives the entries of the directory that `path` leads to. -/
def Fs.ListsDir (dev : Device) (s : Fs) (path : CStr) : Prop :=
  ∃ d, s.toVolume.resolve path inodeDir = some d ∧
    (fsListDir dev path 16 s).1 = .ok (usedEntries (s.blockOf d))

/-- The ls command without argument prints a listing and no error. -/
def Machine.ListsHere (dev : Device) (m : Machine) : Prop :=
  ∀ call ∈ Command.ls.looks m.kRoot [], (call.run dev m.fs).1 = .ok ()

theorem Ready.listDir (hp : dev.Perfect) (h : Ready stray s.toVolume) (path : CStr) :
    (fsListDir dev path 16 s).1 = match s.toVolume.findIn 0 path inodeDir with
      | some d => .ok (usedEntries (s.blockOf d))
      | none => .refused := by
  rw [wp_outcome (fsListDir_returns hp h path 16), if_neg (by decide)]
  cases s.toVolume.findIn 0 path inodeDir with
  | none => rfl
  | some d => exact congrArg Outcome.ok (listEntries_all (s.blockOf d))

/-- A path of two components is no name of a directory in the root. -/
theorem Volume.PlainDirs.findIn_none (h : v.PlainDirs) (hslash : slash ∈ path.chars) :
    v.findIn 0 path inodeDir = none := by
  refine (Volume.findIn_none (by decide)).mpr ?_
  intro i k hit
  exact h i k path hit hslash

theorem Ordinary.slash_iff (h : Ordinary path) : splitPath path = none ↔ slash ∉ path.chars := by
  rcases h.split with ⟨hsplit, hc⟩ | ⟨dirname, name, hsplit, -, -, heq⟩
  · simp [hsplit, hc.2.2]
  · simp [hsplit, heq]

/-! ## After a cd -/

/-- `k_root` after `cd` into `path`. -/
theorem workingDir_prompt (hlen : path.length ≤ 60) :
    workingDir (CStr.ofBytes ((rootPrompt.chars ++ path.chars).take 63)) = path := by
  have hfits : (rootPrompt.chars ++ path.chars).length ≤ 63 := by
    simp only [List.length_append, rootPrompt, CStr.length] at hlen ⊢
    simp
    omega
  rw [List.take_of_length_le hfits]
  have hchars : (CStr.ofBytes (rootPrompt.chars ++ path.chars)).chars =
      rootPrompt.chars ++ path.chars := by
    apply CStr.ofBytes_eq
    intro c hc
    rcases List.mem_append.mp hc with hc | hc
    · exact rootPrompt.noNul c hc
    · exact path.noNul c hc
  exact CStr.ext (workingDir_chars hchars)

theorem Ordinary.length_le (h : Ordinary path) : path.length ≤ 59 := by
  rcases h with hc | ⟨dirname, name, hd, hn, heq⟩
  · have := hc.2.1
    omega
  · have hd' := hd.2.1
    have hn' := hn.2.1
    simp only [CStr.length, heq, List.length_append, List.length_cons] at hd' hn' ⊢
    omega

theorem Machine.changeDir_accepted {m : Machine} (hne : path ≠ CStr.empty)
    (hdir : (fsIsDir dev path m.fs).1 = .ok ()) :
    (m.changeDir dev path).fs.toVolume = m.fs.toVolume ∧
      (m.changeDir dev path).kRoot = CStr.ofBytes ((rootPrompt.chars ++ path.chars).take 63) := by
  have hrun := run_eq hdir
  have hv := (ReadOnly.fsIsDir path).run hrun
  rw [Machine.changeDir, if_neg hne, hrun]
  exact ⟨hv, rfl⟩

/-- The ls command looks for the working directory in the root. -/
theorem Ready.listsHere (hp : dev.Perfect) {m : Machine} (h : Ready stray m.fs.toVolume)
    (hwd : workingDir m.kRoot = path) (hne : path ≠ CStr.empty) :
    m.ListsHere dev ↔ (m.fs.toVolume.findIn 0 path inodeDir).isSome := by
  have hlooks : Command.ls.looks m.kRoot [] = [.listDir path 16] := by
    rw [Command.looks, hwd, if_neg hne]
  have hlist := h.listDir hp path
  simp only [Machine.ListsHere, hlooks, List.forall_mem_singleton, Export.run, Export.forget_ok,
    hlist]
  cases m.fs.toVolume.findIn 0 path inodeDir with
  | none => simp
  | some d => simp

theorem session_listsAccepted (hp : dev.Perfect) {m : Machine}
    (h : Session dev (fun _ call _ => call.Ordinary) m.fs) :
    (m.changeDir dev CStr.empty).ListsHere dev ∧
      ∀ path, Ordinary path → (fsIsDir dev path m.fs).1 = .ok () →
        (m.fs.ListsDir dev path ∧ (m.changeDir dev path).ListsHere dev ↔ splitPath path = none) := by
  obtain ⟨stray, hready, hplain⟩ := h.plainDirs hp
  refine ⟨?_, ?_⟩
  · intro call hcall
    have hwd : workingDir (CStr.ofBytes ((rootPrompt.chars ++ CStr.empty.chars).take 63)) =
        CStr.empty := workingDir_prompt (by decide)
    simp only [Machine.changeDir, if_pos, Command.looks, hwd, List.mem_singleton] at hcall
    rw [hcall]
    exact Export.forget_ok.mpr ⟨_, wp_outcome (fsListRoot_returns hp hready 16)⟩
  · intro path hpath hdir
    have hne : path ≠ CStr.empty := by
      rintro rfl
      rcases hpath.split with ⟨-, hc⟩ | ⟨_, _, -, -, -, heq⟩
      · exact absurd hc.1 (by decide)
      · simp [CStr.empty] at heq
    obtain ⟨hv, hroot⟩ := Machine.changeDir_accepted hne hdir
    have hready' : Ready stray (m.changeDir dev path).fs.toVolume := hv ▸ hready
    have hwd : workingDir (m.changeDir dev path).kRoot = path := by
      rw [hroot]
      exact workingDir_prompt (by have := hpath.length_le; omega)
    rw [hready'.listsHere hp hwd hne, hv, hpath.slash_iff]
    constructor
    · rintro ⟨-, hsome⟩ hslash
      rw [hplain.findIn_none hslash] at hsome
      cases hsome
    · intro hslash
      -- a name of the root: both functions find the same directory
      have hsplit := hpath.slash_iff.mpr hslash
      rw [wp_outcome (fsIsDir_returns hp hready path), Volume.resolve_root hsplit] at hdir
      have hlist := hready.listDir hp path
      cases hfind : m.fs.toVolume.findIn 0 path inodeDir with
      | none => simp [hfind] at hdir
      | some d =>
          rw [hfind] at hlist
          exact ⟨⟨d, (Volume.resolve_root hsplit).trans hfind, hlist⟩, rfl⟩

/-- The shell at its prompt, on a disk with the directories `a` and `a/b`. -/
def nestedDirs : Machine :=
  ⟨.started .working (fun _ => Bytes.zero) 0 [.mkdirPath nameA, .mkdirPath pathAB], rootPrompt,
    .prompt⟩

theorem nestedDirs_session : Session .working (fun _ call _ => call.Ordinary) nestedDirs.fs := by
  dsimp only [nestedDirs]
  exact .started (by decide +kernel) fun call hcall _ _ => by revert call; decide

theorem session_listsAccepted_nested :
    (nestedDirs.changeDir .working CStr.empty).ListsHere .working ∧
      ∀ path, Ordinary path → (fsIsDir .working path nestedDirs.fs).1 = .ok () →
        (nestedDirs.fs.ListsDir .working path ∧
          (nestedDirs.changeDir .working path).ListsHere .working ↔ splitPath path = none) := by
  exact session_listsAccepted Device.working_perfect nestedDirs_session

/-- `cd a/b` is accepted, and `ls` then looks for a directory `a/b` in the root. -/
theorem not_session_listsAccepted :
    ¬ ∀ dev (m : Machine) path, dev.Perfect → Session dev (fun _ call _ => call.Ordinary) m.fs →
      Ordinary path → (fsIsDir dev path m.fs).1 = .ok () →
        m.fs.ListsDir dev path ∧ (m.changeDir dev path).ListsHere dev := by
  intro h
  obtain ⟨⟨d, -, hlist⟩, -⟩ := h .working nestedDirs pathAB Device.working_perfect
    nestedDirs_session (by decide) (by decide +kernel)
  have hrefused : (fsListDir .working pathAB 16 nestedDirs.fs).1.isOk = false := by decide +kernel
  rw [hlist] at hrefused
  cases hrefused

end SevenOS
