import SevenOS.Arch.Idt
import SevenOS.Drivers.Echo
import SevenOS.Shell.Kernel

/-! # The terminal

The machine as it is used: scancodes go in one by one, a line is put together and
edited on the screen, Enter hands it to the shell, and the answer and the next
prompt are printed. Beside it stands the typescript, in which there is no keyboard,
no screen and no heap, only the text of what was printed and typed. As long as every
string gets its buffer, the screen shows 25 rows at the end of the typescript.
-/

namespace SevenOS

namespace Keyboard

def outputs (k : Keyboard) (calls : List Output) : Keyboard :=
  { k with vga := k.vga.outputs calls }

/-- As the second stage leaves the screen and `idt_install` the mask. -/
def atStart (stack : Memory) : Keyboard where
  shiftPressed := false
  inputBuffer := Bytes.zero
  inputPtr := 0
  picMask := 0xFE
  vga := { cursorPos := 0, buffer := fun _ => Vga.cellOf Vga.space, used := [], sent := [] }
  stack := stack

end Keyboard

/-- A key with the reads that would fail if a password were checked, or a restart. -/
inductive Input where
  | scancode (readFails : Fs → UInt32 → Bool) (code : UInt8)
  | restart

/-- The kernel while `readl` waits, with the variables of `readl`. -/
structure Terminal where
  kernel : Kernel
  keyboard : Keyboard
  savedMask : UInt8
  line : Keyboard.Line

namespace Terminal

/-- Print a prompt and begin to read, unless the machine is off. -/
def waiting (kernel : Kernel) (k : Keyboard) : Terminal :=
  if kernel.machine.phase = .off then ⟨kernel, k, k.picMask, ⟨Bytes.zero, 0⟩⟩
  else
    let k := k.outputs kernel.machine.promptOutput
    ⟨kernel, k.beginLine.1, k.picMask, k.beginLine.2⟩

def powerOn (dev : Device) (host : HeapHost) (disk : UInt32 → Block) : Terminal :=
  waiting (.boot dev host disk)
    ((Keyboard.atStart host.stack).outputs (Machine.bootOutput dev host.toHost disk))

/-- A key, if the strings of the line that it ends get their buffers. -/
def step (dev : Device) (host : HeapHost) (test : FsM Unit) (t : Terminal) :
    Input → Option Terminal
  | .scancode readFails code =>
      if t.kernel.machine.phase = .off then some t
      else if t.keyboard.endsLine code then
        let gate := { dev with readFails := readFails }
        let (text, k) := Keyboard.endLine t.savedMask (t.keyboard, t.line)
        (t.kernel.read dev gate host test text).map fun r => waiting r.1 (k.outputs r.2)
      else
        let (k, line) := Keyboard.readlStep (t.keyboard, t.line) code
        some { t with keyboard := k, line := line }
  | .restart => some (powerOn dev host t.kernel.machine.fs.disk)

def run (dev : Device) (host : HeapHost) (test : FsM Unit) (t : Terminal) :
    List Input → Option Terminal
  | [] => some t
  | input :: inputs => (t.step dev host test input).bind fun t' => t'.run dev host test inputs

end Terminal

/-! ## The typescript -/

/-- The text since the screen was cleared, and the line that is being typed. -/
structure Typescript where
  machine : Machine
  shift : Bool
  printed : List UInt8
  typed : List UInt8

/-- What an output adds to the text. -/
def Output.append (printed : List UInt8) : Output → List UInt8
  | .print str => printed ++ str.chars
  | .println str => printed ++ str.chars ++ [Vga.newLine]
  | .clearScreen => []

namespace Typescript

def waiting (m : Machine) (shift : Bool) (printed : List UInt8) : Typescript :=
  ⟨m, shift, m.promptOutput.foldl Output.append printed, []⟩

def powerOn (dev : Device) (host : Host) (disk : UInt32 → Block) : Typescript :=
  waiting (.boot dev disk) false ((Machine.bootOutput dev host disk).foldl Output.append [])

def step (dev : Device) (host : Host) (test : FsM Unit) (ts : Typescript) : Input → Typescript
  | .scancode readFails code =>
      if ts.machine.phase = .off then ts
      else if code = enter then
        let gate := { dev with readFails := readFails }
        let line := CStr.ofBytes ts.typed
        waiting (ts.machine.readLine dev gate test line) ts.shift
          ((ts.machine.answer dev gate host line).foldl Output.append
            (ts.printed ++ ts.typed ++ [Vga.newLine]))
      else
        let f := Flagged.step ⟨ts.shift, ts.typed⟩ code
        { ts with shift := f.shift, typed := f.text }
  | .restart => powerOn dev host ts.machine.fs.disk

def run (dev : Device) (host : Host) (test : FsM Unit) (ts : Typescript) (inputs : List Input) :
    Typescript :=
  inputs.foldl (fun ts input => ts.step dev host test input) ts

end Typescript

/-! ## Outputs -/

section Outputs

variable {v : Vga} {printed : List UInt8}

theorem Vga.print_chars (v : Vga) (str : CStr) : v.print str.chars = v.putChars str.chars := by
  have hall : str.chars.takeWhile (· ≠ 0) = str.chars :=
    List.takeWhile_eq_self_iff.mpr fun c hc => decide_eq_true (str.noNul c hc)
  rw [Vga.print, hall]

/-- The screen shows the text, unless a backspace was printed. -/
def Vga.Tracks (v : Vga) (printed : List UInt8) : Prop :=
  Vga.backspace ∉ printed → v.Displays printed

theorem Vga.Tracks.output (h : v.Tracks printed) (call : Output) :
    (v.output call).Tracks (call.append printed) := by
  have print : ∀ str : CStr, (v.print str.chars).Tracks (printed ++ str.chars) := by
    intro str hplain
    rw [Vga.print_chars]
    exact (h fun hmem => hplain (List.mem_append_left _ hmem)).putChars fun hmem =>
      hplain (List.mem_append_right _ hmem)
  cases call with
  | print str => exact print str
  | println str =>
      intro hplain
      exact (print str fun hmem => hplain (List.mem_append_left _ hmem)).putChar (by decide)
  | clearScreen => exact fun _ => ⟨0, Vga.clearScreen_showsFrom v⟩

theorem Vga.Tracks.outputs (h : v.Tracks printed) (calls : List Output) :
    (v.outputs calls).Tracks (calls.foldl Output.append printed) := by
  induction calls generalizing v printed with
  | nil => exact h
  | cons call calls ih => exact ih (h.output call)

theorem Vga.Steady.clearScreen (h : v.Steady) : v.clearScreen.Steady := by
  have hblank := h.inside.blankFrom (le_refl (0 : Int))
    (show 0 + ((vgaWidth * vgaHeight).toNat : Int) ≤ 2000 by simp [vgaWidth, vgaHeight])
  have hcursor : v.clearScreen.cursorPos = 0 := rfl
  refine ⟨by rw [hcursor]; decide, ?_⟩
  intro i hi
  simp only [Vga.clearScreen, Vga.updateCursor_used] at hi
  exact hblank i hi

theorem Vga.Steady.outputs (h : v.Steady) (calls : List Output) : (v.outputs calls).Steady := by
  induction calls generalizing v with
  | nil => exact h
  | cons call calls ih =>
      apply ih
      cases call with
      | print str => exact h.putChars _
      | println str => exact (h.putChars _).putChar _
      | clearScreen => exact h.clearScreen

end Outputs

/-! ## The screen follows the typescript -/

structure Follows (area : HeapArea) (t : Terminal) (ts : Typescript) : Prop where
  sound : t.kernel.Sound area
  machine : t.kernel.machine = ts.machine
  shift : t.keyboard.shiftPressed = ts.shift
  mask : t.keyboard.picMask = 0xFE ∧ t.savedMask = 0xFE
  steady : t.keyboard.vga.Steady
  line : t.kernel.machine.phase ≠ .off → t.keyboard.Echoes t.line ts.printed ts.typed
  screen : Vga.backspace ∉ ts.printed → t.keyboard.vga.Displays (ts.printed ++ ts.typed)

variable {area : HeapArea} {dev : Device} {host : HeapHost} {test : FsM Unit} {t t' : Terminal}
  {ts : Typescript}

theorem Keyboard.Echoes.displays {k : Keyboard} {line : Keyboard.Line} {printed text : List UInt8}
    (h : k.Echoes line printed text) (hplain : Vga.backspace ∉ printed) :
    k.vga.Displays (printed ++ text) := by
  obtain ⟨top, -, hshows⟩ := h.shows hplain
  exact ⟨top, hshows⟩

theorem Follows.waiting {kernel : Kernel} {k : Keyboard} {printed : List UInt8}
    (hsound : kernel.Sound area) (hmask : k.picMask = 0xFE) (hsteady : k.vga.Steady)
    (hscreen : k.vga.Tracks printed) :
    Follows area (.waiting kernel k) (.waiting kernel.machine k.shiftPressed printed) := by
  rw [Terminal.waiting, Typescript.waiting]
  by_cases hoff : kernel.machine.phase = .off
  · have hnone : kernel.machine.promptOutput = [] := by rw [Machine.promptOutput, hoff]
    rw [if_pos hoff, hnone]
    refine ⟨hsound, rfl, rfl, ⟨hmask, hmask⟩, hsteady, fun hon => (hon hoff).elim, fun hplain => ?_⟩
    rw [List.append_nil]
    exact hscreen hplain
  · rw [if_neg hoff]
    have hechoes := Keyboard.Echoes.begin (k := k.outputs kernel.machine.promptOutput)
      (hscreen.outputs kernel.machine.promptOutput)
    refine ⟨hsound, rfl, rfl, ⟨?_, hmask⟩, hsteady.outputs _, fun _ => hechoes, hechoes.displays⟩
    change k.picMask ||| 0x02 = 0xFE
    rw [hmask]
    decide

theorem Follows.powerOn (dev : Device) (host : HeapHost) (disk : UInt32 → Block) :
    Follows host.area (.powerOn dev host disk) (.powerOn dev host.toHost disk) := by
  have hblank : (Keyboard.atStart host.stack).vga.Displays [] := by
    refine ⟨0, rfl, (by decide : (0 : Int) ≤ 0 ∧ (0 : Int) < 2000), fun i _ => ?_⟩
    rw [Text.Page.cell_behind (by decide) (Nat.zero_le _)]
    exact Vga.charOf_cellOf _
  have hsteady : (Keyboard.atStart host.stack).vga.Steady :=
    ⟨(by decide : (0 : Int) ≤ 0 ∧ (0 : Int) < 2000), fun i hi => absurd hi List.not_mem_nil⟩
  have htracks : (Keyboard.atStart host.stack).vga.Tracks [] := fun _ => hblank
  rw [Terminal.powerOn, Typescript.powerOn]
  generalize Machine.bootOutput dev host.toHost disk = calls
  exact Follows.waiting (k := (Keyboard.atStart host.stack).outputs calls)
    (Kernel.boot_sound disk) rfl (hsteady.outputs calls) (htracks.outputs calls)

theorem Keyboard.typed_kept (k : Keyboard) (line : Keyboard.Line) (c : UInt8)
    (h : k.vga.Steady) :
    (k.typed line c).1.vga.Steady ∧ (k.typed line c).1.picMask = k.picMask := by
  rw [Keyboard.typed]
  split
  · split
    · exact ⟨h.putChar _, rfl⟩
    · exact ⟨h, rfl⟩
  · split
    · exact ⟨h.putChar _, rfl⟩
    · exact ⟨h, rfl⟩

theorem Keyboard.readlStep_kept (s : Keyboard × Keyboard.Line) (code : UInt8)
    (h : s.1.vga.Steady) :
    (readlStep s code).1.vga.Steady ∧ (readlStep s code).1.picMask = s.1.picMask := by
  rw [Keyboard.readlStep]
  split
  · exact ⟨h, rfl⟩
  · split
    · exact ⟨h, rfl⟩
    · exact Keyboard.typed_kept _ _ _ h

theorem Follows.step (h : Follows host.area t ts) {input : Input}
    (hstep : t.step dev host test input = some t') :
    Follows host.area t' (ts.step dev host.toHost test input) := by
  obtain ⟨machine, shift, printed, typed⟩ := ts
  obtain ⟨hsound, hmachine, hshift, hmask, hsteady, hline, hscreen⟩ := h
  simp only at hmachine hshift
  subst hmachine hshift
  cases input with
  | restart =>
      obtain rfl := Option.some.inj hstep
      exact Follows.powerOn _ _ _
  | scancode readFails code =>
      rw [Terminal.step] at hstep
      rw [Typescript.step]
      by_cases hoff : t.kernel.machine.phase = .off
      · rw [if_pos hoff] at hstep
        obtain rfl := Option.some.inj hstep
        rw [if_pos hoff]
        exact ⟨hsound, rfl, rfl, hmask, hsteady, hline, hscreen⟩
      · rw [if_neg hoff] at hstep
        rw [if_neg hoff]
        have hechoes := hline hoff
        by_cases hend : code = enter
        · obtain ⟨htext, hshows⟩ := hechoes.endLine t.savedMask
          have hstr : (Keyboard.endLine t.savedMask (t.keyboard, t.line)).1 = CStr.ofBytes typed :=
            CStr.ext (htext.trans (CStr.ofBytes_eq hechoes.holds.noNul).symm)
          rw [if_pos ((Keyboard.endsLine_iff code).mpr hend)] at hstep
          rw [if_pos hend]
          simp only [hstr] at hstep
          obtain ⟨r, hread, rfl⟩ := Option.map_eq_some_iff.mp hstep
          obtain ⟨hnext, hprinted, hsound'⟩ := Kernel.read_spec hsound hread
          rw [hprinted]
          simp only [← hnext]
          have hsteady' : (Keyboard.endLine t.savedMask (t.keyboard, t.line)).2.vga.Steady :=
            hsteady.putChar _
          have htracks : (Keyboard.endLine t.savedMask (t.keyboard, t.line)).2.vga.Tracks
              (printed ++ typed ++ [Vga.newLine]) := fun hplain =>
            hshows fun hmem => hplain (List.mem_append_left _ (List.mem_append_left _ hmem))
          exact Follows.waiting (k := Keyboard.outputs _ _) hsound' hmask.2 (hsteady'.outputs _)
            (htracks.outputs _)
        · have hnot : ¬ t.keyboard.endsLine code = true := fun hyes =>
            hend ((Keyboard.endsLine_iff code).mp hyes)
          rw [if_neg hnot] at hstep
          obtain rfl := Option.some.inj hstep
          rw [if_neg hend]
          obtain ⟨hnext, hflag⟩ := hechoes.step hend
          obtain ⟨hsteady', hmask'⟩ := Keyboard.readlStep_kept (t.keyboard, t.line) code hsteady
          exact ⟨hsound, rfl, hflag, ⟨hmask'.trans hmask.1, hmask.2⟩, hsteady', fun _ => hnext,
            hnext.displays⟩

theorem Follows.run (h : Follows host.area t ts) {inputs : List Input}
    (hrun : t.run dev host test inputs = some t') :
    Follows host.area t' (ts.run dev host.toHost test inputs) := by
  induction inputs generalizing t ts with
  | nil =>
      obtain rfl := Option.some.inj hrun
      exact h
  | cons input inputs ih =>
      obtain ⟨next, hstep, hrest⟩ := Option.bind_eq_some_iff.mp hrun
      exact ih (h.step hstep) hrest

/-- The key for a letter, pressed and released, and Enter. -/
def wrongKeys : List Input := [0x1E, 0x9E, enter].map fun code => .scancode (fun _ _ => false) code

end SevenOS
