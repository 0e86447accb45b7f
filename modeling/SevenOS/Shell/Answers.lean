import SevenOS.FileSystem.Acceptance
import SevenOS.FileSystem.LeftAlone
import SevenOS.Shell.Gate
import SevenOS.Shell.Output

/-! # What the answers say

A user sees nothing of the volume but the answers at the prompt. A command that asks
for one change announces success exactly when the volume accepts the change, and what
a write announced is what a later read shows: over restarts, logins, changes of the
directory and all commands that leave the file alone.
-/

namespace SevenOS

open Prog

variable {dev gate : Device} {host : Host} {heapHost : HeapHost} {test : FsM Unit}
  {stray unflushed : InodeNo → Prop} {k k' : Kernel} {m m' : Machine} {v v' : Volume} {s : Fs}
  {p : CStr} {data : List UInt8}

/-! ## One change -/

namespace Command

def success : Command → List Output
  | touch => [.println (text "File creato con successo.")]
  | write => [.println (text "File scritto con successo.")]
  | _ => []

def failure : Command → List Output
  | touch => nameTaken (text "Creazione file fallita. ")
  | mkdir => nameTaken (text "Creazione directory fallita. ")
  | write => [.println (text "Scrittura file fallita.")]
  | mv => [.println (text "mv fallito.")]
  | cp => [.println (text "cp fallita.")]
  | _ => []

/-- A command that asks for one change answers with what the call returns. -/
theorem output_change {cmd : Command} {args : List CStr} {call : Call}
    (hcall : cmd.calls m.kRoot args = [call]) (hrm : cmd ≠ .rm) :
    cmd.output dev host m args =
      verdict (call.run dev m.fs).1 (fun _ => cmd.success) cmd.failure := by
  unfold calls at hcall
  split at hcall
  · cases hcall
    rfl
  · next dir args =>
      split at hcall
      · cases hcall
      · next hpath =>
          cases hcall
          rw [output, if_neg hpath]
          rfl
  · cases hcall
    rfl
  · exact (hrm rfl).elim
  · cases hcall
    rfl
  · cases hcall
    rfl
  · cases hcall

theorem success_ne_failure {cmd : Command} {kRoot : CStr} {args : List CStr} {call : Call}
    (hcall : cmd.calls kRoot args = [call]) (hrm : cmd ≠ .rm) : cmd.success ≠ cmd.failure := by
  cases cmd with
  | touch => decide +kernel
  | mkdir => decide +kernel
  | write => decide +kernel
  | mv => decide +kernel
  | cp => decide +kernel
  | rm => exact (hrm rfl).elim
  | _ => cases hcall

end Command

namespace Machine

theorem lineOutput_of_parse {line : CStr} {cmd : Command} {args : List CStr}
    (hline : parseLine line = some (cmd, args)) (hexit : cmd ≠ .exit) :
    m.lineOutput dev host line = cmd.output dev host m args := by
  unfold parseLine at hline
  unfold lineOutput wordsOutput
  cases hsplit : stringSplit line space with
  | nil =>
      rw [hsplit] at hline
      cases hline
  | cons word words =>
      rw [hsplit] at hline
      obtain ⟨cmd', hfind, heq⟩ := Option.map_eq_some_iff.mp hline
      obtain ⟨rfl, rfl⟩ := Prod.mk.inj heq
      simp only [hfind]

theorem answer_of_parse {line : CStr} {cmd : Command} {args : List CStr}
    (hprompt : m.phase = .prompt) (hline : parseLine line = some (cmd, args))
    (hexit : cmd ≠ .exit) : m.answer dev gate host line = cmd.output dev host m args := by
  rw [answer, hprompt]
  exact lineOutput_of_parse hline hexit

theorem handleCommand_changes {cmd : Command} {args : List CStr}
    (hcalls : cmd.calls m.kRoot args ≠ []) : m.handleCommand dev test cmd args =
      m.execAll dev ((cmd.calls m.kRoot args).map .change) := by
  cases cmd with
  | touch | mkdir | write | rm | mv | cp => rfl
  | _ => exact (hcalls rfl).elim

/-- The line runs the call and nothing else on the file system. -/
theorem readLine_change {line : CStr} {cmd : Command} {args : List CStr} {call : Call}
    (hprompt : m.phase = .prompt) (hline : parseLine line = some (cmd, args))
    (hcall : cmd.calls m.kRoot args = [call]) :
    (m.readLine dev gate test line).fs = (call.run dev m.fs).2 := by
  have hstep : m.readLine dev gate test line = m.execAll dev [.change call] := by
    simp only [readLine, hprompt]
    rw [handleLine_some hline, handleCommand_changes (by rw [hcall]; exact List.cons_ne_nil _ _), hcall]
    rfl
  rw [hstep]
  rcases hrun : call.run dev m.fs with ⟨_ | _ | _, s'⟩ <;>
    simp only [execAll, Export.run, hrun]

end Machine

/-- A name that is stored without a check of its length is not refused. -/
theorem Call.fits_of_not_accepts (h : Inv stray v) {call : Call} (hno : ¬ Accepts v call) :
    call.Fits v := by
  cases call with
  | writePath path data =>
      rintro ⟨dirname, rest, i, d, hsplit, hlong, hit, hslot, hinode, hblock⟩
      have hd := h.keptDir h.linked.root hit
      obtain ⟨j, hj⟩ := Option.isSome_iff_exists.mp hslot
      obtain ⟨k, hk⟩ := Option.isSome_iff_exists.mp hinode
      obtain ⟨b, hb⟩ := Option.isSome_iff_exists.mp hblock
      have hroom : v.HasRoom d rest inodeFile := by
        refine ⟨fun j k hfile => ?_, ⟨j, firstFreeSlot_some hj⟩, ⟨k, allocInodeRaw_free hk⟩,
          b.toNat, allocBlockRaw_free hb⟩
        have := (h.hit_stands hd hfile).2
        omega
      refine hno ⟨d, rest, .ofDir hsplit hit, ?_, fun hnone => ?_, .inr hroom⟩
      · rintro rfl
        exact absurd hlong (by decide)
      · rw [hsplit] at hnone
        cases hnone
  | _ => trivial

/-- In every state between two calls, a command that asks for one change answers success exactly
when the volume accepts the change; otherwise it answers failure, and no file has changed. -/
theorem Resting.answer (hp : dev.Perfect) (hrest : Resting stray unflushed m.fs.toVolume)
    (hprompt : m.phase = .prompt) {line : CStr} {cmd : Command} {args : List CStr}
    (hline : parseLine line = some (cmd, args)) {call : Call}
    (hcall : cmd.calls m.kRoot args = [call]) (hrm : cmd ≠ .rm) :
    (m.answer dev gate host line = cmd.success ↔ Accepts m.fs.toVolume call) ∧
    (m.answer dev gate host line = cmd.failure ↔ ¬ Accepts m.fs.toVolume call) ∧
    (m.answer dev gate host line = cmd.failure → ∀ path,
      (m.readLine dev gate test line).fs.toVolume.files path = m.fs.toVolume.files path) := by
  have hexit : cmd ≠ .exit := by
    rintro rfl
    cases hcall
  have hne := Command.success_ne_failure hcall hrm
  rw [m.readLine_change hprompt hline hcall, Machine.answer_of_parse hprompt hline hexit,
    Command.output_change hcall hrm]
  generalize hrun : call.run dev m.fs = r
  obtain ⟨o, s'⟩ := r
  rcases wp_run (call.run_decides hp hrest.toReady) hrun with
    ⟨_, rfl, ha⟩ | ⟨rfl, hno⟩ | ⟨-, hfalse⟩
  · exact ⟨⟨fun _ => ha, fun _ => rfl⟩, ⟨fun heq => (hne heq).elim, fun hno => (hno ha).elim⟩,
      fun heq => (hne heq).elim⟩
  · refine ⟨⟨fun heq => (hne heq.symm).elim, fun ha => (hno ha).elim⟩, ⟨fun _ => hno, fun _ => rfl⟩,
      fun _ path => ?_⟩
    rcases Call.run_cases hp hrest.inv (Call.fits_of_not_accepts hrest.inv hno) hrun with
      ⟨hok, -⟩ | ⟨-, hleft⟩
    · cases hok
    · exact files_refused hrest.inv hleft
  · exact hfalse.elim

theorem Kernel.Runs.resting (hp : dev.Perfect) (hinstalled : k.Installed dev heapHost)
    (hruns : k.Runs dev heapHost test Whole k') :
    (∃ stray unflushed, Resting stray unflushed k'.machine.fs.toVolume) ∧
      k'.Sound heapHost.area := by
  obtain ⟨hmachine, hsound⟩ := hruns.machine hinstalled.2
  exact ⟨(upheld_resting hp).runs (hinstalled.1.resting hp) hmachine, hsound⟩

def Machine.entered : Machine := Machine.installed.run .working (pure ()) [typed defaultPassword]

theorem Call.Tame.whole (s : Fs) (call : Call) (o : Outcome Unit) (h : call.Tame) :
    Whole s call o := (h.sparesPasswd s call o).1

theorem Machine.entered_typed :
    Machine.AllTyped .working (pure ()) Call.Tame Kernel.installed.machine
      [typed defaultPassword] := by decide +kernel

theorem parseLine_writeLine : parseLine writeLine = some (.write, [nameB, nameB]) := by
  decide +kernel

/-- The volume is between two calls, and the file at `p` has these contents. -/
structure Filed (p : CStr) (data : List UInt8) (stray unflushed : InodeNo → Prop) (v : Volume) :
    Prop extends Resting stray unflushed v where
  filed : v.files p = some data

/-- The call leaves the file at `p` alone, or is refused. -/
def LeavesFile (p : CStr) (s : Fs) (call : Call) (o : Outcome Unit) : Prop :=
  Whole s call o ∧ (call.Leaves p ∨ o = .refused)

theorem Filed.run (hp : dev.Perfect) (h : Filed p data stray unflushed s.toVolume) {call : Call}
    {o : Outcome Unit} {s' : Fs} (hallow : LeavesFile p s call o)
    (hrun : call.run dev s = (o, s')) :
    ∃ stray' unflushed', Filed p data stray' unflushed' s'.toVolume := by
  obtain ⟨⟨hfit, hhalf⟩, hleaves⟩ := hallow
  obtain ⟨stray', unflushed', hrest⟩ := h.toResting.run hp hfit hhalf hrun
  refine ⟨stray', unflushed', hrest, ?_⟩
  rw [← h.filed]
  rcases Call.run_cases hp h.inv hfit hrun with ⟨rfl, hdone⟩ | ⟨-, hleft⟩
  · rcases hleaves with hleaves | hrefused
    · exact files_left h.toSound (by rw [h.filed]; rfl) hleaves hdone
    · cases hrefused
  · exact files_refused h.inv hleft

theorem Resting.reload_files (h : Resting stray unflushed v) (path : CStr) :
    v.reload.files path = v.files path := by
  rw [Volume.files, h.reload_resolve path (by decide), Volume.files]
  cases hk : v.resolve path inodeFile with
  | none => rfl
  | some k =>
      obtain ⟨d, name, j, hparent, hit⟩ := (h.inv.resolve_some (by decide)).mp hk
      obtain ⟨hino, hblock⟩ := h.reload_kept (h.inv.named (h.inv.parent_kept hparent) hit).2.2
      rw [Option.map_some, Option.map_some, Volume.contents, hino, hblock]
      rfl

theorem upheld_filed (hp : dev.Perfect) (p : CStr) (data : List UInt8) :
    Upheld dev (LeavesFile p) fun v => ∃ stray unflushed, Filed p data stray unflushed v where
  call := by
    rintro s s' call o ⟨stray, unflushed, h⟩ hallow hrun
    exact h.run hp hallow hrun
  boot := by
    rintro s ⟨stray, unflushed, h⟩
    rw [boot_volume hp h.headed]
    exact ⟨_, _, h.reload_resting, (h.reload_files p).trans h.filed⟩

/-! ## Write and read -/

/-- What the read command prints of a file, or of none. -/
def readAnswer : Option (List UInt8) → List Output
  | some c => [.println (CStr.ofBytes (c.take 512))]
  | none => [.println (text "Lettura file fallita.")]

theorem read_answer (hp : dev.Perfect) (h : Ready stray m.fs.toVolume) (hprompt : m.phase = .prompt)
    {line file : CStr} {args : List CStr} (hline : parseLine line = some (.read, file :: args)) :
    m.answer dev gate host line = readAnswer (m.fs.toVolume.files (resolveFsPath m.kRoot file 64)) := by
  rw [Machine.answer_of_parse hprompt hline (by decide), Command.output,
    fsReadPath_files hp h]
  cases m.fs.toVolume.files (resolveFsPath m.kRoot file 64) with
  | none => rfl
  | some c => rfl

theorem write_filed (hp : dev.Perfect) (h : Resting stray unflushed m.fs.toVolume)
    (hprompt : m.phase = .prompt) {line file word : CStr} {words : List CStr}
    (hline : parseLine line = some (.write, file :: word :: words))
    {readFails : Fs → UInt32 → Bool} (hallow : m.Allows dev test Whole (.line readFails line))
    (hanswer : m.answer dev gate host line = Command.write.success) :
    ∃ stray' unflushed', Filed (resolveFsPath m.kRoot file 64)
      ((CStr.ofBytes (joinWords (word :: words))).chars.take 512) stray' unflushed'
      (m.readLine dev gate test line).fs.toVolume := by
  have hcall : Command.write.calls m.kRoot (file :: word :: words) =
      [.writePath (resolveFsPath m.kRoot file 64) (CStr.ofBytes (joinWords (word :: words)))] := rfl
  have hcalls := hallow.calls
  simp only [Machine.calls, hprompt, hline, hcall] at hcalls
  obtain ⟨⟨hfit, hhalf⟩, -⟩ := hcalls
  rw [Machine.answer_of_parse hprompt hline (by decide),
    Command.output_change hcall (by decide)] at hanswer
  rw [m.readLine_change hprompt hline hcall]
  generalize hrun : Call.run dev _ m.fs = r at hanswer
  obtain ⟨o, s'⟩ := r
  obtain ⟨stray', unflushed', hrest⟩ := h.run hp hfit hhalf hrun
  refine ⟨stray', unflushed', hrest, ?_⟩
  rcases Call.run_cases hp h.inv hfit hrun with ⟨-, d, name, hparent, hst⟩ | ⟨rfl, -⟩
  · rw [(files_stored h.inv (h.inv.parent_kept hparent) (dataLength_le _) hst _).1 hparent,
      fileBlock_firstBytes]
  · exact (Command.success_ne_failure hcall (by decide) hanswer.symm).elim

/-- "read b" -/
def readFileLine : CStr := ⟨Command.name .read ++ [32, 98], by simp [Command.name]⟩

/-- The machine is left, restarted and entered again between the write and the read. -/
def leaveAndReturn : List Event := [typed exitLine, .restart, typed defaultPassword]

def Machine.written : Machine := Machine.entered.step .working (pure ()) (typed writeLine)

theorem Machine.returned_typed : Machine.AllTyped .working (pure ())
    (fun call => call.Tame ∧ call.Leaves nameB) Machine.written leaveAndReturn := by decide +kernel

end SevenOS
