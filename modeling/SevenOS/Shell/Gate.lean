import SevenOS.FileSystem.Passwd
import SevenOS.FileSystem.Spared
import SevenOS.Shell.Kernel

/-! # The password gate

The hash lies in `sys/passwd`, an ordinary file. As long as no call changes it or its
directory, whatever else is called, a login is given a line of that hash, or a read of
the file failed and the line has the hash of "password123".
-/

namespace SevenOS

open Prog

variable {dev : Device} {host : HeapHost} {test : FsM Unit} {stray unflushed : InodeNo → Prop}
  {k k' : Kernel} {m m' : Machine} {v v' : Volume} {s s' : Fs} {hash : UInt32}
  {allow : Fs → Call → Outcome Unit → Prop}

/-! ## Runs -/

namespace Machine

/-- The command that a line at the prompt is. -/
def command (m : Machine) : Event → Option (Command × List CStr)
  | .line _ text => if m.phase = .prompt then parseLine text else none
  | .restart => none

/-- The calls an event makes to change files. -/
def calls (m : Machine) : Event → List Call
  | .line _ text =>
      match m.phase with
      | .prompt =>
          match parseLine text with
          | some (cmd, args) => cmd.calls m.kRoot args
          | none => []
      | .confirmPasswd newPass =>
          if newPass = text then [.writePasswd (fsHashPassword newPass)] else []
      | _ => []
  | .restart => []

/-- No mkfs, no interpreter that changes files, and only calls that are allowed. -/
structure Allows (dev : Device) (test : FsM Unit) (allow : Fs → Call → Outcome Unit → Prop)
    (m : Machine) (event : Event) : Prop where
  noMkfs : ∀ args, m.command event ≠ some (.mkfs, args)
  quietTest : ∀ args, m.command event = some (.test, args) →
    (test m.fs).2.toVolume = m.fs.toVolume
  calls : AllAllowed dev allow (m.calls event) m.fs

/-- Event after event, all of them allowed. -/
inductive Runs (dev : Device) (test : FsM Unit) (allow : Fs → Call → Outcome Unit → Prop) :
    Machine → Machine → Prop
  | refl (m : Machine) : Runs dev test allow m m
  | step {m m' : Machine} {event : Event} : Runs dev test allow m m' →
      m'.Allows dev test allow event → Runs dev test allow m (m'.step dev test event)

/-- The new password was typed twice, and stored. -/
def SetsPasswd (dev : Device) (m : Machine) (text : CStr) : Prop :=
  m.phase = .confirmPasswd text ∧ (fsWritePasswd dev (fsHashPassword text) m.fs).1 = .ok ()

end Machine

/-- Besides, every string of the turns gets its buffer. -/
inductive Kernel.Runs (dev : Device) (host : HeapHost) (test : FsM Unit)
    (allow : Fs → Call → Outcome Unit → Prop) : Kernel → Kernel → Prop
  | refl (k : Kernel) : Runs dev host test allow k k
  | step {k k' k'' : Kernel} {event : Event} : Runs dev host test allow k k' →
      k'.machine.Allows dev test allow event → k'.step dev host test event = some k'' →
      Runs dev host test allow k k''

/-- What may happen to a file system: a call that is allowed, something that leaves the volume
as it is, or a restart. -/
inductive FsRuns (dev : Device) (allow : Fs → Call → Outcome Unit → Prop) : Fs → Fs → Prop
  | refl (s : Fs) : FsRuns dev allow s s
  | call {s s' : Fs} {call : Call} : FsRuns dev allow s s' → allow s' call (call.run dev s').1 →
      FsRuns dev allow s (call.run dev s').2
  | look {s s' s'' : Fs} : FsRuns dev allow s s' → s''.toVolume = s'.toVolume →
      FsRuns dev allow s s''
  | restart {s s' : Fs} : FsRuns dev allow s s' →
      FsRuns dev allow s (Machine.boot dev s'.disk).fs

/-- A file system that was just made and mounted. -/
def Fs.Installed (dev : Device) (s : Fs) : Prop :=
  ∃ totalBlocks inodeCount s₀ s₁, fsFormat dev totalBlocks inodeCount s₀ = (.ok (), s₁) ∧
    fsInit dev s₁ = (.ok (), s)

def Machine.Installed (dev : Device) (m : Machine) : Prop := m.fs.Installed dev

/-- Whatever the heap was used for before. -/
def Kernel.Installed (dev : Device) (host : HeapHost) (k : Kernel) : Prop :=
  k.machine.Installed dev ∧ k.Sound host.area

/-- No overlong name is created, and no `sys` directory without its file. -/
def Whole (s : Fs) (call : Call) (_ : Outcome Unit) : Prop :=
  call.Fits s.toVolume ∧ ¬ call.HalfMade s.toVolume

/-- Besides, `sys/passwd` and `sys` are left alone, or the call returns false. -/
def SparesPasswd (s : Fs) (call : Call) (o : Outcome Unit) : Prop :=
  Whole s call o ∧ (call.Spares sysName passwdName ∨ o = .refused)

/-! ## What the calls keep -/

/-- The volume is between two calls, and the password is the one of this hash. -/
structure Keyed (hash : UInt32) (stray unflushed : InodeNo → Prop) (v : Volume) : Prop
    extends Resting stray unflushed v where
  key : v.files sysPasswd = some (hashBytes hash)

/-- With the file there, a refused call has changed nothing. -/
theorem Keyed.left (h : Keyed hash stray unflushed v) {call : Call} (hl : Left stray v call v') :
    v' = v := by
  cases call with
  | writePasswd hash' =>
      rcases hl with ⟨-, hv⟩ | ⟨hleaks, -⟩
      · exact hv
      · obtain ⟨k, hk, -⟩ := Option.map_eq_some_iff.mp h.key
        obtain ⟨i, d, j, hf⟩ := h.inv.fileIn splitPath_sysPasswd hk
        exact (((sysLeaks_of_hit h.inv hf.dir).mp hleaks).2.1 j k hf.file).elim
  | _ => exact hl

theorem Keyed.run (hp : dev.Perfect) (h : Keyed hash stray unflushed s.toVolume) {call : Call}
    {o : Outcome Unit} {s' : Fs} (hallow : SparesPasswd s call o)
    (hrun : call.run dev s = (o, s')) :
    ∃ stray' unflushed', Keyed hash stray' unflushed' s'.toVolume := by
  obtain ⟨⟨hfit, hhalf⟩, hspares⟩ := hallow
  obtain ⟨stray', unflushed', hrest⟩ := h.toResting.run hp hfit hhalf hrun
  refine ⟨stray', unflushed', hrest, ?_⟩
  rcases Call.run_cases hp h.inv hfit hrun with ⟨rfl, hdone⟩ | ⟨-, hleft⟩
  · rcases hspares with hspares | hrefused
    · rw [files_spared h.toSound splitPath_sysPasswd (by rw [h.key]; rfl) hspares hdone]
      exact h.key
    · cases hrefused
  · rw [h.left hleft]
    exact h.key

theorem Keyed.reload (h : Keyed hash stray unflushed v) :
    Keyed hash (fun i => stray i ∧ ¬ unflushed i) (fun _ => False) v.reload := by
  refine ⟨h.reload_resting, ?_⟩
  obtain ⟨k, hk, hcontents⟩ := Option.map_eq_some_iff.mp h.key
  obtain ⟨d, name, j, hparent, hit⟩ := (h.inv.resolve_some (by decide)).mp hk
  obtain ⟨hino, hblock⟩ := h.reload_kept (h.inv.named (h.inv.parent_kept hparent) hit).2.2
  rw [Volume.files, h.reload_resolve sysPasswd (by decide), hk, Option.map_some,
    Volume.contents, hino, hblock]
  exact congrArg some hcontents

/-! ## What an event keeps -/

namespace Machine

theorem exec_fs (call : FsM Unit) : (m.exec call).fs = (call m.fs).2 := by
  rw [exec]
  rcases call m.fs with ⟨_ | _ | _, s'⟩ <;> rfl

theorem check_volume (line : CStr) (accepted denied : Phase) :
    (m.check dev line accepted denied).fs.toVolume = m.fs.toVolume := by
  have hread := (@ReadOnly.fsReadPasswd dev).volume m.fs
  rw [check, storedHash]
  generalize fsReadPasswd dev m.fs = r at hread
  rcases r with ⟨_ | _ | _, s'⟩ <;> exact hread

theorem changeDir_volume (path : CStr) : (m.changeDir dev path).fs.toVolume = m.fs.toVolume := by
  have hread := (@ReadOnly.fsIsDir dev path).volume m.fs
  unfold changeDir
  generalize fsIsDir dev path m.fs = r at hread
  split
  · rfl
  · rcases r with ⟨_ | _ | _, s'⟩ <;> exact hread

theorem confirm_fs (newPass line : CStr) : (m.confirm dev newPass line).fs =
    if newPass = line then ((Call.writePasswd (fsHashPassword newPass)).run dev m.fs).2
    else m.fs := by
  unfold confirm
  split
  · change _ = (fsWritePasswd dev (fsHashPassword newPass) m.fs).2
    rcases fsWritePasswd dev (fsHashPassword newPass) m.fs with ⟨_ | _ | _, s'⟩ <;> rfl
  · rfl

theorem execAll_volume {calls : List Export} (h : ∀ call ∈ calls, ReadOnly (call.run dev))
    (m : Machine) : (m.execAll dev calls).fs.toVolume = m.fs.toVolume := by
  induction calls generalizing m with
  | nil => rfl
  | cons call calls ih =>
      have hread := (h call (by simp)).volume m.fs
      have htail := ih fun c hc => h c (by simp [hc])
      rw [execAll]
      generalize call.run dev m.fs = r at hread
      rcases r with ⟨_ | _ | _, s'⟩
      · exact (htail _).trans hread
      · exact (htail _).trans hread
      · exact hread

end Machine

theorem Command.looks_readOnly (cmd : Command) (kRoot : CStr) (args : List CStr) :
    ∀ call ∈ cmd.looks kRoot args, ReadOnly (call.run dev) := by
  have forget : ∀ {α : Type} {p : FsM α}, ReadOnly p → ReadOnly (Export.forget p) :=
    fun hp => hp.bind fun _ => ReadOnly.pure _
  have usage : ReadOnly fsGetUsage := ReadOnly.get.bind fun _ => (ReadOnly.require _).bind fun _ =>
    ReadOnly.pure _
  intro call hcall
  unfold looks at hcall
  split at hcall
  · rw [List.mem_singleton.mp hcall]
    exact forget (ReadOnly.fsListDir _ _)
  · split at hcall
    · rw [List.mem_singleton.mp hcall]
      exact forget (ReadOnly.fsListRoot _)
    · rw [List.mem_singleton.mp hcall]
      exact forget (ReadOnly.fsListDir _ _)
  · rw [List.mem_singleton.mp hcall]
    exact forget usage
  · rw [List.mem_singleton.mp hcall]
    exact forget (ReadOnly.fsReadPath _ _)
  · cases hcall

/-! ## What a run of the shell is for the file system -/

namespace Machine

theorem execAll_fsRuns {calls : List Call} (hruns : FsRuns dev allow s m.fs)
    (hallow : AllAllowed dev allow calls m.fs) :
    FsRuns dev allow s (m.execAll dev (calls.map .change)).fs := by
  induction calls generalizing m with
  | nil => exact hruns
  | cons call calls ih =>
      obtain ⟨hcall, hrest⟩ := hallow
      have hnext : FsRuns dev allow s ((Export.change call).run dev m.fs).2 := hruns.call hcall
      change AllAllowed dev allow calls ((Export.change call).run dev m.fs).2 at hrest
      rw [List.map_cons, Machine.execAll]
      generalize (Export.change call).run dev m.fs = r at hnext hrest
      rcases r with ⟨_ | _ | _, s'⟩
      · exact ih hnext hrest
      · exact ih hnext hrest
      · exact hnext

theorem handleCommand_fsRuns {cmd : Command} {args : List CStr} (hmkfs : cmd ≠ .mkfs)
    (htest : cmd = .test → (test m.fs).2.toVolume = m.fs.toVolume)
    (hallow : AllAllowed dev allow (cmd.calls m.kRoot args) m.fs) :
    FsRuns dev allow m.fs (m.handleCommand dev test cmd args).fs := by
  have here : FsRuns dev allow m.fs m.fs := .refl m.fs
  have looks : ∀ cmd : Command,
      FsRuns dev allow m.fs (m.execAll dev (cmd.looks m.kRoot args)).fs :=
    fun cmd => here.look (Machine.execAll_volume (cmd.looks_readOnly m.kRoot args) m)
  cases cmd with
  | shutdown => exact here
  | exit => exact here
  | passwd => exact here
  | mkfs => exact (hmkfs rfl).elim
  | test =>
      refine here.look ?_
      change (m.exec test).fs.toVolume = m.fs.toVolume
      rw [Machine.exec_fs, htest rfl]
  | cd =>
      cases args with
      | nil => exact here
      | cons dir args => exact here.look (Machine.changeDir_volume _)
  | ls => exact looks .ls
  | info => exact looks .info
  | read => exact looks .read
  | _ => exact execAll_fsRuns here hallow

theorem step_fsRuns {event : Event} (hallow : m.Allows dev test allow event) :
    FsRuns dev allow m.fs (m.step dev test event).fs := by
  have here : FsRuns dev allow m.fs m.fs := .refl m.fs
  cases event with
  | restart => exact here.restart
  | line readFails text =>
      obtain ⟨hmkfs, htest, hcalls⟩ := hallow
      simp only [step, readLine, command, Machine.calls] at hmkfs htest hcalls ⊢
      cases hphase : m.phase with
      | login attempts => exact here.look (check_volume _ _ _)
      | oldPasswd => exact here.look (check_volume _ _ _)
      | newPasswd => exact here
      | off => exact here
      | confirmPasswd newPass =>
          rw [hphase] at hcalls
          dsimp only at hcalls ⊢
          rw [confirm_fs]
          split
          · next heq =>
              rw [if_pos heq] at hcalls
              exact here.call hcalls.1
          · exact here
      | prompt =>
          rw [hphase] at hmkfs htest hcalls
          dsimp only at hcalls ⊢
          cases hparse : parseLine text with
          | none =>
              rw [handleLine_none hparse]
              exact here
          | some parts =>
              obtain ⟨cmd, args⟩ := parts
              rw [handleLine_some hparse]
              rw [if_pos rfl, hparse] at hmkfs htest
              rw [hparse] at hcalls
              refine handleCommand_fsRuns (fun heq => hmkfs args ?_) (fun heq => htest args ?_) hcalls
              · rw [heq]
              · rw [heq]

end Machine

theorem FsRuns.trans {s'' : Fs} (h : FsRuns dev allow s s') (h' : FsRuns dev allow s' s'') :
    FsRuns dev allow s s'' := by
  induction h' with
  | refl => exact h
  | call _ hallow ih => exact ih.call hallow
  | look _ hvolume ih => exact ih.look hvolume
  | restart _ ih => exact ih.restart

theorem Machine.Runs.fsRuns (h : m.Runs dev test allow m') : FsRuns dev allow m.fs m'.fs := by
  induction h with
  | refl => exact .refl m.fs
  | step _ hallow ih => exact ih.trans (step_fsRuns hallow)

/-- A run on the heap is one of the machine. -/
theorem Kernel.Runs.machine (h : k.Runs dev host test allow k') (hsound : k.Sound host.area) :
    k.machine.Runs dev test allow k'.machine ∧ k'.Sound host.area := by
  induction h with
  | refl => exact ⟨.refl _, hsound⟩
  | step _ hallow hstep ih =>
      obtain ⟨hruns, hsound'⟩ := ih
      obtain ⟨hmachine, hsound''⟩ := step_spec hsound' hstep
      refine ⟨?_, hsound''⟩
      rw [hmachine]
      exact hruns.step hallow

/-- A condition on the volume that the allowed calls and a restart keep. -/
structure Upheld (dev : Device) (allow : Fs → Call → Outcome Unit → Prop) (I : Volume → Prop) :
    Prop where
  call : ∀ {s s' : Fs} {call : Call} {o : Outcome Unit}, I s.toVolume → allow s call o →
    call.run dev s = (o, s') → I s'.toVolume
  boot : ∀ {s : Fs}, I s.toVolume → I (Machine.boot dev s.disk).fs.toVolume

namespace Upheld

variable {I : Volume → Prop}

theorem fsRuns (h : Upheld dev allow I) (hI : I s.toVolume) (hruns : FsRuns dev allow s s') :
    I s'.toVolume := by
  induction hruns with
  | refl => exact hI
  | call _ hallow ih => exact h.call ih hallow rfl
  | look _ hvolume ih =>
      rw [hvolume]
      exact ih
  | restart _ ih => exact h.boot ih

theorem runs (h : Upheld dev allow I) (hI : I m.fs.toVolume)
    (hruns : m.Runs dev test allow m') : I m'.fs.toVolume := h.fsRuns hI hruns.fsRuns

end Upheld

/-- A restart mounts what the disk holds. -/
theorem boot_volume (hp : dev.Perfect) (h : Headed s.toVolume) :
    (Machine.boot dev s.disk).fs.toVolume = s.toVolume.reload := by
  have hspec := fsInit_spec (s := .booted s.disk) hp h rfl
  rw [Machine.boot, Machine.exec_fs, mountFs, orElse]
  generalize hrun : fsInit dev (.booted s.disk) = r
  obtain ⟨o, s'⟩ := r
  rcases wp_run hspec hrun with ⟨_, rfl, hv⟩ | ⟨-, hno⟩ | ⟨-, hno⟩
  · exact hv
  · exact hno.elim
  · exact hno.elim

theorem upheld_resting (hp : dev.Perfect) :
    Upheld dev Whole fun v => ∃ stray unflushed, Resting stray unflushed v where
  call := by
    rintro s s' call o ⟨stray, unflushed, h⟩ ⟨hfit, hhalf⟩ hrun
    exact h.run hp hfit hhalf hrun
  boot := by
    rintro s ⟨stray, unflushed, h⟩
    rw [boot_volume hp h.headed]
    exact ⟨_, _, h.reload_resting⟩

theorem upheld_keyed (hp : dev.Perfect) (hash : UInt32) :
    Upheld dev SparesPasswd fun v => ∃ stray unflushed, Keyed hash stray unflushed v where
  call := by
    rintro s s' call o ⟨stray, unflushed, h⟩ hallow hrun
    exact h.run hp hallow hrun
  boot := by
    rintro s ⟨stray, unflushed, h⟩
    rw [boot_volume hp h.headed]
    exact ⟨_, _, h.reload⟩

/-! ## The gate -/

theorem Fs.Installed.resting (hp : dev.Perfect) (h : s.Installed dev) :
    ∃ stray unflushed, Resting stray unflushed s.toVolume := by
  obtain ⟨totalBlocks, inodeCount, s₀, s₁, hformat, hinit⟩ := h
  have hrest := fsFormat_resting hp hformat
  rcases wp_run (fsInit_spec hp hrest.headed rfl) hinit with ⟨_, -, hv⟩ | ⟨-, hno⟩ | ⟨-, hno⟩
  · rw [hv]
    exact ⟨_, _, hrest.reload_resting⟩
  · exact hno.elim
  · exact hno.elim

theorem Machine.Installed.resting (hp : dev.Perfect) (h : m.Installed dev) :
    ∃ stray unflushed, Resting stray unflushed m.fs.toVolume := Fs.Installed.resting hp h

theorem Machine.SetsPasswd.stored {text : CStr} (h : m.SetsPasswd dev text)
    (readFails : Fs → UInt32 → Bool) : fsWritePasswd dev (fsHashPassword text) m.fs =
      (.ok (), (m.step dev test (.line readFails text)).fs) := by
  obtain ⟨hphase, hok⟩ := h
  have hfs : (m.step dev test (.line readFails text)).fs =
      (fsWritePasswd dev (fsHashPassword text) m.fs).2 := by
    simp only [Machine.step, Machine.readLine, hphase]
    rw [Machine.confirm_fs, if_pos rfl]
    rfl
  rw [hfs]
  exact Prog.run_eq hok

/-- What `fs_write_passwd` stored is the key. -/
theorem Resting.keyed (hp : dev.Perfect) (h : Resting stray unflushed s.toVolume)
    (hset : fsWritePasswd dev hash s = (.ok (), s')) :
    ∃ stray' unflushed', Keyed hash stray' unflushed' s'.toVolume := by
  have hfit : (Call.writePasswd hash).Fits s.toVolume := trivial
  rcases Call.run_cases hp h.inv hfit hset with ⟨-, hdone⟩ | ⟨hno, -⟩
  · obtain ⟨unflushed', hrest⟩ := h.done hdone
    exact ⟨stray, unflushed', hrest, SysStored.key h.inv hdone⟩
  · cases hno

/-- Whoever passes the login typed the password, or a read failed and it was the default
one. -/
theorem Keyed.login (h : Keyed hash stray unflushed m.fs.toVolume) {attempts : Nat}
    (hphase : m.phase = .login attempts) {readFails : Fs → UInt32 → Bool} {line : CStr}
    (hreach : (m.step dev test (.line readFails line)).phase = .prompt) :
    fsHashPassword line = hash ∨ fsHashPassword line = fsHashPassword defaultPassword ∧
      FailedRead { dev with readFails := readFails }
        (fsReadPasswd { dev with readFails := readFails } m.fs).2 := by
  have hspec := @fsReadPasswd_reads { dev with readFails := readFails } _ _ h.toReady
  simp only [Machine.step, Machine.readLine, hphase, Machine.check, storedHash] at hreach
  -- the line is compared with `stored`, whichever it is
  have accepted : ∀ stored : UInt32, (if fsHashPassword line = stored then Phase.prompt
      else if attempts + 1 < 3 then .login (attempts + 1) else .off) = .prompt →
      fsHashPassword line = stored := by
    intro stored hphase
    by_contra hne
    rw [if_neg hne] at hphase
    split at hphase <;> cases hphase
  generalize hrun : fsReadPasswd { dev with readFails := readFails } m.fs = r at hreach ⊢
  obtain ⟨o, s'⟩ := r
  rcases wp_run hspec hrun with ⟨stored, rfl, hstored⟩ | ⟨rfl, hfails⟩ | ⟨-, hno⟩
  · rw [passwdOutcome_eq h.key] at hstored
    cases hstored
    exact .inl (accepted _ hreach)
  · refine .inr ⟨accepted _ hreach, hfails.resolve_left fun hno => ?_⟩
    rw [passwdOutcome_eq h.key] at hno
    cases hno
  · exact hno.elim

theorem login_gate (hp : dev.Perfect) {s₀ s₁ s₂ : Fs} (hinstalled : s₀.Installed dev)
    (hbefore : FsRuns dev Whole s₀ s₁) (hset : fsWritePasswd dev hash s₁ = (.ok (), s₂))
    (hafter : FsRuns dev SparesPasswd s₂ m.fs) {attempts : Nat}
    (hlogin : m.phase = .login attempts) {readFails : Fs → UInt32 → Bool} {line : CStr}
    (hreach : (m.step dev test (.line readFails line)).phase = .prompt) :
    fsHashPassword line = hash ∨
      fsHashPassword line = fsHashPassword defaultPassword ∧
        FailedRead { dev with readFails := readFails }
          (fsReadPasswd { dev with readFails := readFails } m.fs).2 := by
  obtain ⟨stray, unflushed, hrest⟩ := (upheld_resting hp).fsRuns (hinstalled.resting hp) hbefore
  obtain ⟨stray', unflushed', hkey⟩ := (upheld_keyed hp hash).fsRuns (hrest.keyed hp hset) hafter
  exact hkey.login hlogin hreach

/-! ## Typed sessions -/

namespace Machine

theorem Runs.head {event : Event} (hallow : m.Allows dev test allow event)
    (h : (m.step dev test event).Runs dev test allow m') : m.Runs dev test allow m' := by
  induction h with
  | refl => exact .step (.refl m) hallow
  | step _ hlast ih => exact .step ih hlast

/-- Neither mkfs nor test is typed, and every call is one of `ok`. -/
def AllTyped (dev : Device) (test : FsM Unit) (ok : Call → Prop) : Machine → List Event → Prop
  | _, [] => True
  | m, event :: events =>
      ((m.command event).all fun c => c.1 != .mkfs && c.1 != .test) = true ∧
        (∀ call ∈ m.calls event, ok call) ∧ AllTyped dev test ok (m.step dev test event) events

instance (ok : Call → Prop) [DecidablePred ok] (m : Machine) (events : List Event) :
    Decidable (AllTyped dev test ok m events) := by
  induction events generalizing m with
  | nil => exact .isTrue trivial
  | cons event events ih =>
      have := ih (m.step dev test event)
      exact inferInstanceAs (Decidable (_ ∧ _ ∧ _))

theorem AllTyped.allows {ok : Call → Prop} (hok : ∀ s call o, ok call → allow s call o)
    {event : Event} {events : List Event} (h : AllTyped dev test ok m (event :: events)) :
    m.Allows dev test allow event := by
  obtain ⟨hcommand, hcalls, -⟩ := h
  refine ⟨fun args heq => ?_, fun args heq => ?_, ?_⟩
  · rw [heq] at hcommand
    cases hcommand
  · rw [heq] at hcommand
    cases hcommand
  · exact allAllowed_of_forall (fun call hcall s o => hok s call o (hcalls call hcall)) _

theorem AllTyped.runs {ok : Call → Prop} (hok : ∀ s call o, ok call → allow s call o)
    {events : List Event} (h : AllTyped dev test ok m events) :
    m.Runs dev test allow (m.run dev test events) := by
  induction events generalizing m with
  | nil => exact .refl m
  | cons event events ih => exact .head (h.allows hok) (ih h.2.2)

/-- A machine whose disk was formatted and mounted. -/
def install (dev : Device) (disk : UInt32 → Block) : Machine where
  fs := (fsInit dev (fsFormat dev 0 64 (.booted disk)).2).2
  kRoot := rootPrompt
  phase := .login 0

theorem install_installed {disk : UInt32 → Block}
    (hformat : (fsFormat dev 0 64 (.booted disk)).1 = .ok ())
    (hinit : (fsInit dev (fsFormat dev 0 64 (.booted disk)).2).1 = .ok ()) :
    (install dev disk).Installed dev :=
  ⟨0, 64, _, _, Prog.run_eq hformat, Prog.run_eq hinit⟩

/-- On a disk of zeros. -/
def installed : Machine := install .working fun _ => Bytes.zero

theorem installed_installed : installed.Installed .working :=
  install_installed (by decide +kernel) (by decide +kernel)

end Machine

namespace Kernel

theorem Runs.head {event : Event} (hallow : k.machine.Allows dev test allow event)
    {next : Kernel} (hstep : k.step dev host test event = some next)
    (h : next.Runs dev host test allow k') : k.Runs dev host test allow k' := by
  induction h with
  | refl => exact .step (.refl k) hallow hstep
  | step _ hallow' hstep' ih => exact .step ih hallow' hstep'

theorem runs_of_typed {ok : Call → Prop} (hok : ∀ s call o, ok call → allow s call o)
    {events : List Event} (hsound : k.Sound host.area)
    (h : k.machine.AllTyped dev test ok events) (hrun : k.run dev host test events = some k') :
    k.Runs dev host test allow k' := by
  induction events generalizing k with
  | nil =>
      obtain rfl := Option.some.inj hrun
      exact .refl k
  | cons event events ih =>
      obtain ⟨next, hstep, hrest⟩ := run_cons hrun
      obtain ⟨hmachine, hsound'⟩ := step_spec hsound hstep
      refine .head (h.allows hok) hstep (ih hsound' ?_ hrest)
      rw [hmachine]
      exact h.2.2

/-- The installed machine with an empty heap. -/
def installed : Kernel := ⟨.installed, .new, .start Host.bare.ram⟩

theorem installed_installed : installed.Installed .working .bare :=
  ⟨Machine.installed_installed, [], List.Perm.refl _, .inl ⟨_, rfl⟩⟩

end Kernel

/-- A line typed while no read fails. -/
def typed (text : CStr) : Event := .line (fun _ _ => false) text

/-- "exit" -/
def exitLine : CStr := ⟨Command.name .exit, by simp [Command.name]⟩

/-- "write b b" -/
def writeLine : CStr := ⟨Command.name .write ++ [32, 98, 32, 98], by simp [Command.name]⟩

/-- "rm sys/passwd" -/
def removePasswdLine : CStr :=
  (⟨Command.name .rm ++ [space], by simp [Command.name, space]⟩ : CStr).append sysPasswd

/-- The lines up to the confirmation of the new password "b". -/
def changePasswd : List Event :=
  [typed defaultPassword, typed passwdName, typed defaultPassword, typed nameB]

/-- The machine that waits for the confirmation. -/
def Machine.confirming : Machine := Machine.installed.run .working (pure ()) changePasswd

/-- A call with ordinary paths that spares the password. -/
def Call.Tame (call : Call) : Prop := call.Ordinary ∧ call.Spares sysName passwdName

instance (call : Call) : Decidable call.Tame := inferInstanceAs (Decidable (_ ∧ _))

theorem Call.Tame.sparesPasswd (s : Fs) (call : Call) (o : Outcome Unit) (h : call.Tame) :
    SparesPasswd s call o := by
  refine ⟨⟨h.1.fits _, ?_⟩, .inl h.2⟩
  cases call with
  | writePasswd hash => exact h.2.elim
  | _ => exact id

/-- A file is written and the shell left: while the reads of a login fail, the default
password is let in. -/
theorem login_gate_failing :
    FailedRead { Device.working with readFails := fun _ _ => true }
      (fsReadPasswd { Device.working with readFails := fun _ _ => true }
        ((Machine.confirming.step .working (pure ()) (typed nameB)).run .working (pure ())
          [typed writeLine, typed exitLine]).fs).2 := by
  have hbefore : Machine.AllTyped .working (pure ()) Call.Tame .installed changePasswd := by
    decide +kernel
  have hset : Machine.confirming.SetsPasswd .working nameB :=
    ⟨by decide +kernel, by decide +kernel⟩
  have hafter : Machine.AllTyped .working (pure ()) Call.Tame
      (Machine.confirming.step .working (pure ()) (typed nameB))
      [typed writeLine, typed exitLine] := by
    decide +kernel
  have hlogin : ((Machine.confirming.step .working (pure ()) (typed nameB)).run .working (pure ())
      [typed writeLine, typed exitLine]).phase = .login 0 := by decide +kernel
  have hreach : (((Machine.confirming.step .working (pure ()) (typed nameB)).run .working (pure ())
      [typed writeLine, typed exitLine]).step .working (pure ())
        (.line (fun _ _ => true) defaultPassword)).phase = .prompt := by decide +kernel
  have hgate := login_gate Device.working_perfect Machine.installed_installed
    (hbefore.runs fun s call o hcall => (hcall.sparesPasswd s call o).1).fsRuns
    (hset.stored fun _ _ => false) (hafter.runs Call.Tame.sparesPasswd).fsRuns hlogin hreach
  exact (hgate.resolve_left (by decide +kernel)).2

/-- The file of the password is removed, and the default password is let in. -/
theorem not_login_gate :
    ¬ ∀ (dev : Device) (host : HeapHost) (test : FsM Unit) (k₀ k₁ k₂ k₃ k₄ : Kernel)
        (text line : CStr) (readFails readFails' : Fs → UInt32 → Bool) (attempts : Nat),
      dev.Perfect → k₀.Installed dev host →
      k₀.Runs dev host test (fun _ _ _ => True) k₁ → k₁.machine.SetsPasswd dev text →
      k₁.step dev host test (.line readFails text) = some k₂ →
      k₂.Runs dev host test (fun _ call o => (∃ hash, call = .writePasswd hash) → o = .refused) k₃ →
      k₃.machine.phase = .login attempts →
      k₃.step dev host test (.line readFails' line) = some k₄ → k₄.machine.phase = .prompt →
      fsHashPassword line = fsHashPassword text := by
  intro h
  have hbefore : Machine.AllTyped .working (pure ()) Call.Tame .installed changePasswd := by
    decide +kernel
  have hset : Machine.confirming.SetsPasswd .working nameB :=
    ⟨by decide +kernel, by decide +kernel⟩
  have hafter : Machine.AllTyped .working (pure ()) (fun call => call.paths ≠ [])
      (Machine.confirming.step .working (pure ()) (typed nameB))
      [typed removePasswdLine, typed exitLine] := by
    decide +kernel
  -- every string gets its buffer, from the first line to the last
  obtain ⟨k₄, hall⟩ : ∃ k, Kernel.installed.run .working .bare (pure ())
      (changePasswd ++ typed nameB ::
        ([typed removePasswdLine, typed exitLine] ++ [typed defaultPassword])) = some k :=
    Option.isSome_iff_exists.mp (by decide +kernel)
  obtain ⟨k₁, hrun₁, hrest₁⟩ := Kernel.run_append hall
  obtain ⟨k₂, hstep₂, hrest₂⟩ := Kernel.run_cons hrest₁
  obtain ⟨k₃, hrun₃, hrest₃⟩ := Kernel.run_append hrest₂
  obtain ⟨_, hstep₄, ⟨⟩⟩ := Kernel.run_cons hrest₃
  -- and the machine is the one without a heap
  obtain ⟨hm₁, hsound₁⟩ := Kernel.run_spec Kernel.installed_installed.2 hrun₁
  obtain ⟨hm₂, hsound₂⟩ := Kernel.step_spec hsound₁ hstep₂
  obtain ⟨hm₃, hsound₃⟩ := Kernel.run_spec hsound₂ hrun₃
  obtain ⟨hm₄, -⟩ := Kernel.step_spec hsound₃ hstep₄
  have hconfirming : k₁.machine = Machine.confirming := hm₁
  rw [hconfirming] at hm₂
  rw [← hm₂] at hafter
  rw [← hconfirming] at hset
  have hruns₁ : Kernel.installed.Runs .working .bare (pure ()) (fun _ _ _ => True) k₁ :=
    Kernel.runs_of_typed (fun _ _ _ _ => trivial) Kernel.installed_installed.2 hbefore hrun₁
  have hruns₃ : k₂.Runs .working .bare (pure ())
      (fun _ call o => (∃ hash, call = .writePasswd hash) → o = .refused) k₃ :=
    Kernel.runs_of_typed (fun _ _ _ hpaths ⟨hash, heq⟩ => by
      rw [heq] at hpaths
      exact absurd rfl hpaths) hsound₂ hafter hrun₃
  have hhash := h .working .bare (pure ()) .installed k₁ k₂ k₃ k₄ nameB defaultPassword
    (fun _ _ => false) (fun _ _ => false) 0 Device.working_perfect Kernel.installed_installed
    hruns₁ hset hstep₂ hruns₃ (by rw [hm₃, hm₂]; decide +kernel) hstep₄
    (by rw [hm₄, hm₃, hm₂]; decide +kernel)
  exact absurd hhash (by decide +kernel)

end SevenOS
