import SevenOS.FileSystem.Emptying
import SevenOS.Shell.Resolve

/-! # Touching a file

touch joins its path itself, without the loop over `..`, and it creates through
`fs_write_path`, which empties a file that is there. It agrees with
`resolve_fs_path` on the names that do not begin with `..`, and it destroys
nothing where there is nothing to destroy.
-/

namespace SevenOS

open Prog

variable {dev : Device} {kRoot name : CStr}

/-! ## The path -/

theorem StartsUp.of_take {path : List UInt8} {n : Nat} (hn : 3 ≤ n)
    (h : StartsUp (path.take n)) : StartsUp path := by
  rcases h with hend | ⟨rest, hmore⟩
  · left
    have hlength := congrArg List.length hend
    rw [List.length_take] at hlength
    change min n path.length = 2 at hlength
    rw [← hend, List.take_of_length_le (by omega)]
  · right
    refine ⟨rest ++ path.drop n, ?_⟩
    calc path = path.take n ++ path.drop n := (List.take_append_drop n path).symm
      _ = dotDot ++ slash :: (rest ++ path.drop n) := by
        rw [hmore, List.append_assoc, List.cons_append]

/-- A parent of a directory that does not begin with `..` does not either. -/
theorem StartsUp.of_popDir {cwd : List UInt8} (h : StartsUp (popDir cwd)) : StartsUp cwd := by
  rcases popDir_cases cwd with hnil | ⟨c, hc⟩
  · rw [hnil] at h
    rcases h with h | ⟨rest, h⟩
    · cases h
    · cases h
  · right
    rw [hc]
    rcases h with hend | ⟨rest, hmore⟩
    · exact ⟨c, by rw [hend]⟩
    · exact ⟨rest ++ slash :: c, by rw [hmore, List.append_assoc, List.cons_append]⟩

theorem StartsUp.of_append {cwd rest : List UInt8} (h : StartsUp (cwd ++ slash :: rest)) :
    StartsUp cwd := by
  match cwd with
  | [] => rcases h with h | ⟨_, h⟩ <;> cases h
  | [a] => rcases h with h | ⟨_, h⟩ <;> cases h
  | [a, b] =>
      rcases h with h | ⟨_, h⟩
      · cases h
      · cases h
        exact .inl rfl
  | a :: b :: c :: cwd =>
      rcases h with h | ⟨_, h⟩
      · cases h
      · cases h
        exact .inr ⟨cwd, rfl⟩

theorem StartsUp.of_underDir {cwd inp : List UInt8} (h : StartsUp (underDir cwd inp)) :
    StartsUp cwd ∨ StartsUp inp := by
  unfold underDir at h
  by_cases hjoin : slash ∉ inp ∧ cwd ≠ []
  · rw [if_pos hjoin] at h
    by_cases hnil : inp = []
    · rw [if_pos hnil, hnil, List.append_nil, List.append_nil] at h
      exact .inl h
    · rw [if_neg hnil, List.append_assoc, List.singleton_append] at h
      exact .inl h.of_append
  · rw [if_neg hjoin] at h
    exact .inr h

theorem resolveFsPath_startsUp (hroot : ¬StartsUp (workingDir kRoot).chars) (input : CStr)
    {maxLen : Nat} (hmax : 4 ≤ maxLen) : ¬StartsUp (resolveFsPath kRoot input maxLen).chars := by
  rw [resolveFsPath_chars]
  intro h
  rcases (h.of_take (by omega)).of_underDir with hcwd | hinp
  · refine climb_fst (P := fun cwd => ¬StartsUp cwd) ?_ _ _ ?_ hcwd
    · intro cwd hcwd hpop
      exact hcwd hpop.of_popDir
    · intro htake
      exact hroot (htake.of_take (by decide))
  · exact climb_stops _ _ hinp

/-- `k_root` as it is at first and as the cd command leaves it. -/
inductive WorkingRoot : CStr → Prop
  | start : WorkingRoot rootPrompt
  | cd {kRoot : CStr} (dir : CStr) : WorkingRoot kRoot →
      WorkingRoot (CStr.ofBytes ((rootPrompt.chars ++ (resolveFsPath kRoot dir 64).chars).take 63))

/-- "7:/" and a path that fits and does not begin with `..`. -/
theorem WorkingRoot.form (h : WorkingRoot kRoot) :
    (workingDir kRoot).length ≤ 60 ∧ ¬StartsUp (workingDir kRoot).chars := by
  induction h with
  | start =>
      refine ⟨by decide, ?_⟩
      rintro (hend | ⟨rest, hmore⟩)
      · cases hend
      · cases hmore
  | @cd kRoot dir _ ih =>
      have hpath := resolveFsPath_startsUp ih.2 dir (show 4 ≤ 64 by decide)
      generalize resolveFsPath kRoot dir 64 = path at hpath
      have hroot : (CStr.ofBytes ((rootPrompt.chars ++ path.chars).take 63)).chars =
          rootPrompt.chars ++ path.chars.take 60 := by
        rw [CStr.ofBytes_eq]
        · rfl
        · intro c hc
          rcases List.mem_append.mp (List.mem_of_mem_take hc) with hc | hc
          · exact rootPrompt.noNul c hc
          · exact path.noNul c hc
      have hdir := workingDir_chars hroot
      refine ⟨?_, ?_⟩
      · rw [CStr.length, hdir, List.length_take]
        omega
      · rw [hdir]
        exact fun htake => hpath (htake.of_take (by decide))

theorem touchPath_chars (kRoot name : CStr) : (touchPath kRoot name).chars =
    ((if slash ∉ name.chars ∧ workingDir kRoot ≠ CStr.empty then
        (workingDir kRoot).chars ++ [slash] else []) ++ name.chars).take 63 := by
  apply CStr.ofBytes_eq
  intro c hc
  rcases List.mem_append.mp (List.mem_of_mem_take hc) with hfront | hname
  · split at hfront
    · rcases List.mem_append.mp hfront with hcwd | hsep
      · exact (workingDir kRoot).noNul c hcwd
      · rw [List.mem_singleton.mp hsep]
        decide
    · exact absurd hfront List.not_mem_nil
  · exact name.noNul c hname

theorem underDir_popDir (cwd : List UInt8) : (underDir (popDir cwd) []).length ≤ cwd.length := by
  have hle := (popDir_front cwd).length_le
  unfold underDir
  split
  · simpa using hle
  · simp

theorem workingDir_ne_iff : workingDir kRoot ≠ CStr.empty ↔ (workingDir kRoot).chars ≠ [] := by
  refine not_congr ⟨fun h => ?_, fun h => CStr.ext h⟩
  rw [h]
  rfl

/-- What touch writes to begins with `..`, or stands deeper than the working directory. -/
theorem touchPath_startsUp (hlen : (workingDir kRoot).length ≤ 60) (h : StartsUp name.chars) :
    StartsUp (touchPath kRoot name).chars ∨
      name.chars = dotDot ∧ (workingDir kRoot).length < (touchPath kRoot name).length := by
  rw [CStr.length, CStr.length, touchPath_chars]
  rcases h with hend | ⟨rest, hmore⟩
  · by_cases hroot : workingDir kRoot = CStr.empty
    · left
      rw [if_neg fun h => h.2 hroot, hend]
      exact .inl rfl
    · right
      have hslash : slash ∉ name.chars := by
        rw [hend]
        decide
      refine ⟨hend, ?_⟩
      rw [if_pos ⟨hslash, hroot⟩, hend, List.length_take]
      simp only [List.length_append, List.length_singleton]
      change _ < min 63 (_ + 1 + 2)
      rw [CStr.length] at hlen
      omega
  · left
    have hslash : slash ∈ name.chars := by
      rw [hmore]
      simp
    rw [if_neg fun h => h.1 hslash, hmore]
    exact .inr ⟨rest.take 60, rfl⟩

/-- touch and `resolve_fs_path` agree on the names that do not begin with `..`. -/
theorem touchPath_eq_iff (hroot : WorkingRoot kRoot) (hname : name ≠ CStr.empty) :
    touchPath kRoot name = resolveFsPath kRoot name 64 ↔ ¬StartsUp name.chars := by
  obtain ⟨hlen, hnot⟩ := hroot.form
  have hwhole : (workingDir kRoot).chars.take 63 = (workingDir kRoot).chars :=
    List.take_of_length_le (Nat.le_trans hlen (by decide))
  constructor
  · intro heq hup
    rcases touchPath_startsUp hlen hup with htouch | ⟨hend, hlong⟩
    · rw [heq] at htouch
      exact resolveFsPath_startsUp hnot name (by decide) htouch
    · have hshort : (resolveFsPath kRoot name 64).length ≤ (workingDir kRoot).length := by
        rw [CStr.length, resolveFsPath_chars, hwhole, hend, List.length_take]
        exact Nat.le_trans (Nat.min_le_right _ _) (underDir_popDir _)
      rw [heq] at hlong
      omega
  · intro hup
    have hne : name.chars ≠ [] := fun h => hname (CStr.ext h)
    apply CStr.ext
    rw [touchPath_chars, resolveFsPath_chars, hwhole, climb_eq_self _ hup, underDir, if_neg hne]
    simp only [workingDir_ne_iff]

/-! ## Working directories of the shell -/

namespace Machine

variable {test : FsM Unit} {m : Machine}

theorem exec_kRoot (call : FsM Unit) : (m.exec call).kRoot = m.kRoot := by
  rw [exec]
  rcases call m.fs with ⟨_ | _ | _, s'⟩ <;> rfl

theorem execAll_kRoot (calls : List Export) (m : Machine) :
    (m.execAll dev calls).kRoot = m.kRoot := by
  induction calls generalizing m with
  | nil => rfl
  | cons call calls ih =>
      rw [execAll]
      rcases call.run dev m.fs with ⟨_ | _ | _, s'⟩
      · exact ih _
      · exact ih _
      · rfl

theorem check_kRoot (line : CStr) (accepted denied : Phase) :
    (m.check dev line accepted denied).kRoot = m.kRoot := by
  rw [check]
  rcases storedHash dev m.fs with ⟨_ | _ | _, s'⟩ <;> rfl

theorem confirm_kRoot (newPass line : CStr) : (m.confirm dev newPass line).kRoot = m.kRoot := by
  unfold confirm
  split
  · rcases fsWritePasswd dev (fsHashPassword newPass) m.fs with ⟨_ | _ | _, s'⟩ <;> rfl
  · rfl

theorem changeDir_workingRoot (h : WorkingRoot m.kRoot) (dir : CStr) :
    WorkingRoot (m.changeDir dev (resolveFsPath m.kRoot dir 64)).kRoot := by
  unfold changeDir
  split
  · exact .cd dir h
  · rcases fsIsDir dev (resolveFsPath m.kRoot dir 64) m.fs with ⟨_ | _ | _, s'⟩
    · exact .cd dir h
    · exact h
    · exact h

theorem handleCommand_workingRoot (h : WorkingRoot m.kRoot) (cmd : Command) (args : List CStr) :
    WorkingRoot (m.handleCommand dev test cmd args).kRoot := by
  cases cmd with
  | cd =>
      cases args with
      | nil => exact h
      | cons dir args => exact changeDir_workingRoot h dir
  | shutdown | exit | passwd => exact h
  | mkfs | test => exact (exec_kRoot _).symm ▸ h
  | _ => exact (execAll_kRoot _ m).symm ▸ h

theorem step_workingRoot (h : WorkingRoot m.kRoot) (event : Event) :
    WorkingRoot (m.step dev test event).kRoot := by
  cases event with
  | restart => exact (exec_kRoot _).symm ▸ WorkingRoot.start
  | line readFails text =>
      rw [step, readLine]
      cases m.phase with
      | login attempts => exact (check_kRoot _ _ _).symm ▸ h
      | oldPasswd => exact (check_kRoot _ _ _).symm ▸ h
      | newPasswd => exact h
      | confirmPasswd newPass => exact (confirm_kRoot _ _).symm ▸ h
      | off => exact h
      | prompt =>
          dsimp only
          cases hparse : parseLine text with
          | none => exact (handleLine_none hparse).symm ▸ h
          | some parts =>
              rw [handleLine_some hparse]
              exact handleCommand_workingRoot h parts.1 parts.2

/-- Whatever is typed, `k_root` is a working directory. -/
theorem run_workingRoot (h : WorkingRoot m.kRoot) (events : List Event) :
    WorkingRoot (m.run dev test events).kRoot := by
  induction events generalizing m with
  | nil => exact h
  | cons event events ih => exact ih (step_workingRoot h event)

/-! ## The file -/

/-- touch uses the path that the other commands use, and the file that it finds there has the
same contents afterwards. -/
def TouchKeeps (dev : Device) (test : FsM Unit) (m : Machine) (name : CStr)
    (args : List CStr) : Prop :=
  touchPath m.kRoot name = resolveFsPath m.kRoot name 64 ∧
    ∀ k, m.fs.toVolume.WritesTo (touchPath m.kRoot name) k →
      (m.handleCommand dev test .touch (name :: args)).fs.toVolume.contents k =
        m.fs.toVolume.contents k

/-- The name does not climb, and there is no content to lose. -/
def TouchHarmless (m : Machine) (name : CStr) : Prop :=
  ¬StartsUp name.chars ∧
    ∀ k, m.fs.toVolume.WritesTo (touchPath m.kRoot name) k → (m.fs.inodes k).size = 0

theorem touchPath_ne (hname : name ≠ CStr.empty) : touchPath kRoot name ≠ CStr.empty := by
  intro h
  have hnil := congrArg CStr.chars h
  rw [touchPath_chars] at hnil
  rcases List.take_eq_nil_iff.mp hnil with h63 | happend
  · cases h63
  · exact hname (CStr.ext (List.append_eq_nil_iff.mp happend).2)

/-- On a sound volume: the path names no file, or one without content. -/
theorem touchHarmless_iff {stray : InodeNo → Prop} (h : Ready stray m.fs.toVolume)
    (hname : name ≠ CStr.empty) : m.TouchHarmless name ↔ ¬StartsUp name.chars ∧
      ∀ data, m.fs.toVolume.files (touchPath m.kRoot name) = some data → data = [] := by
  refine and_congr_right fun _ => ?_
  constructor
  · intro hempty data hdata
    obtain ⟨k, hk, rfl⟩ := Option.map_eq_some_iff.mp hdata
    exact Volume.contents_eq_nil.mpr (hempty k ((h.writesTo_iff (touchPath_ne hname)).mpr hk))
  · intro hfiles k hk
    apply Volume.contents_eq_nil.mp
    apply hfiles
    rw [Volume.files, (h.writesTo_iff (touchPath_ne hname)).mp hk, Option.map_some]

theorem execAll_singleton_fs (call : Export) : (m.execAll dev [call]).fs = (call.run dev m.fs).2 := by
  rw [execAll]
  rcases call.run dev m.fs with ⟨_ | _ | _, s'⟩ <;> rfl

theorem touch_fs (args : List CStr) : (m.handleCommand dev test .touch (name :: args)).fs =
    (fsWritePath dev (touchPath m.kRoot name) CStr.empty m.fs).2 := by
  change (m.execAll dev [.change (.writePath (touchPath m.kRoot name) CStr.empty)]).fs = _
  exact execAll_singleton_fs _

/-- In any state of the file system and any working directory. -/
theorem touch_keeps (hroot : WorkingRoot m.kRoot) (hname : name ≠ CStr.empty) (args : List CStr) :
    (m.TouchHarmless name → m.TouchKeeps dev test name args) ∧
      (dev.Readable → m.TouchKeeps dev test name args → m.TouchHarmless name) := by
  have hpath := touchPath_eq_iff hroot hname
  constructor
  · rintro ⟨hup, hempty⟩
    refine ⟨hpath.mpr hup, fun k hk => ?_⟩
    have hsize := hempty k hk
    rw [touch_fs, Volume.contents_eq_nil.mpr hsize, Volume.contents_eq_nil]
    exact (KeepsEmpty.fsWritePath (touchPath m.kRoot name)).run hsize rfl
  · rintro hd ⟨heq, hkeeps⟩
    refine ⟨hpath.mp heq, fun k hk => ?_⟩
    have hafter := hkeeps k hk
    have hsize : ((fsWritePath dev (touchPath m.kRoot name) CStr.empty m.fs).2.inodes k).size = 0 := by
      rcases wp_run (fsWritePath_empties hd hk) rfl with ⟨_, -, h⟩ | ⟨-, h⟩ | ⟨-, h⟩
      · exact h
      · exact h
      · exact h
    rw [touch_fs, Volume.contents_eq_nil.mpr hsize] at hafter
    exact Volume.contents_eq_nil.mp hafter.symm

/-- The shell in the root directory, on a disk with the file `a` that holds "b". -/
def fileInRoot : Machine :=
  ⟨.started .working (fun _ => Bytes.zero) 0 [.writePath nameA nameB], rootPrompt, .prompt⟩

theorem touch_keeps_root :
    (fileInRoot.TouchHarmless nameB → fileInRoot.TouchKeeps .working (pure ()) nameB []) ∧
      (Device.working.Readable → fileInRoot.TouchKeeps .working (pure ()) nameB [] →
        fileInRoot.TouchHarmless nameB) :=
  touch_keeps .start (by decide) []

/-- "touch a" empties the file. -/
theorem not_touch_keeps :
    ¬ ∀ (dev : Device) (test : FsM Unit) (m : Machine) (name : CStr) (args : List CStr),
      WorkingRoot m.kRoot → name ≠ CStr.empty → m.TouchKeeps dev test name args := by
  intro hall
  obtain ⟨-, hkeeps⟩ := hall .working (pure ()) fileInRoot nameA [] .start (by decide)
  have hpath : touchPath fileInRoot.kRoot nameA = nameA := by decide +kernel
  have hsplit : splitPath nameA = none := by decide +kernel
  have hfile : fileInRoot.fs.toVolume.WritesTo nameA 4 := by
    refine ⟨by decide +kernel, by decide, ?_⟩
    rw [hsplit]
    exact ⟨by decide, by decide +kernel, 1, by decide +kernel⟩
  have hafter := hkeeps 4 (hpath.symm ▸ hfile)
  rw [touch_fs, hpath] at hafter
  have hgone : (fsWritePath .working nameA CStr.empty fileInRoot.fs).2.toVolume.contents 4 ≠
      fileInRoot.fs.toVolume.contents 4 := by decide +kernel
  exact hgone hafter

end Machine

end SevenOS
