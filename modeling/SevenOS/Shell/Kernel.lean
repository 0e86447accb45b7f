import SevenOS.Shell.Output
import SevenOS.Shell.WriteLine

/-! # The shell on the heap

The line that is read, its words, the list they are in and what a branch makes of them
are strings and lists, and each asks `kmalloc` for a buffer. A turn that gets all of them
does what the machine does with the line. No caller compares a new pointer with null:
with a null one the code goes on at address 0, and such a turn is not followed.
-/

namespace SevenOS

open Prog

/-- A host with the area of the heap and the interpreter. -/
structure HeapHost extends Host where
  area : HeapArea
  /-- What `test` asks of the heap. -/
  testHeap : Fs → HeapProg Unit
  /-- It gives back no buffer but its own. -/
  testTidy : ∀ (s : Fs) (own : List Nat), Allots area (testHeap s) own fun _ own' =>
    ∃ lost, own' = lost ++ own

def Host.bare : Host where
  cpuid _ := (0, 0, 0, 0)
  ram := ⟨fun _ => 0⟩
  stack := ⟨fun _ => 0⟩
  ataReady := true
  testOutput _ := []

/-- With the heap where the kernel has it. -/
def HeapHost.bare : HeapHost where
  toHost := .bare
  area := Kheap.imageArea
  testHeap _ := pure ()
  testTidy _ _ := .pure ⟨[], rfl⟩

/-! ## The strings of the branches -/

namespace Command

/-- `String arg = String(parts[a].c_str())` in the loop of rm. -/
def rmArgs (area : HeapArea) : List KString → HeapProg (List CStr)
  | [] => pure []
  | part :: parts => do
      let arg ← KString.ofChars area part.cStr
      let args ← rmArgs area parts
      pure (arg.cStr :: args)

/-- The arguments as the branch goes on with them: touch and rm copy theirs, and write has one
string for its data. -/
def handed (area : HeapArea) (test : HeapProg Unit) : Command → List KString →
    HeapProg (List CStr)
  | touch, [] => do
      let _ ← KString.new area
      pure []
  | touch, part :: parts => do
      let _ ← KString.new area
      let filename ← KString.ofChars area part.cStr
      pure (filename.cStr :: parts.map KString.cStr)
  | write, file :: word :: words => do
      let data ← buildData area word words
      pure [file.cStr, data.cStr]
  -- when a removal does not return, those behind it are not seen any more
  | rm, parts => rmArgs area parts
  | .test, parts => do
      test
      pure (parts.map KString.cStr)
  | _, parts => pure (parts.map KString.cStr)

/-- The words of a line, with the arguments of its command. -/
def handedWords (area : HeapArea) (test : HeapProg Unit) : List KString → HeapProg (List CStr)
  | [] => pure []
  | word :: parts =>
      match find word.cStr with
      | none => pure (word.cStr :: parts.map KString.cStr)
      | some cmd => do
          let args ← cmd.handed area test parts
          pure (word.cStr :: args)

end Command

/-! ## Turns -/

/-- The machine with its heap; `parts` is the list of the turn of `handleCommands` that is not
over. -/
structure Kernel where
  machine : Machine
  parts : ArrayList KString
  heap : HeapRun

namespace Kernel

structure Turn where
  machine : Machine
  parts : ArrayList KString
  printed : List Output

/-- At the end of a turn, also of the one that exit ends, the list is destroyed. -/
def leave (m : Machine) (parts : ArrayList KString) (printed : List Output) : HeapProg Turn :=
  match m.phase with
  | .login _ | .prompt => do
      parts.destroy
      pure ⟨m, .new, printed⟩
  | _ => pure ⟨m, parts, printed⟩

/-- A turn of the loop up to the next line that is read. -/
def handleCommands (dev : Device) (host : HeapHost) (test : FsM Unit) (m : Machine)
    (line : CStr) : HeapProg Turn := do
  let command ← KString.ofChars host.area line
  let parts ← command.split host.area space
  let words ← Command.handedWords host.area (host.testHeap m.fs) parts.elems
  leave (m.handleWords dev test words) parts (m.wordsOutput dev host.toHost words)

/-- `readl` and what is done with its string, for a line of each kind. -/
def turn (dev gate : Device) (host : HeapHost) (test : FsM Unit) (m : Machine)
    (parts : ArrayList KString) (line : CStr) : HeapProg Turn :=
  match m.phase with
  | .off => pure ⟨m, parts, []⟩
  | .prompt => handleCommands dev host test m line
  | _ => do
      let text ← KString.ofChars host.area line
      leave (m.readLine dev gate test text.cStr) parts (m.answer dev gate host.toHost text.cStr)

/-- A line of input, if every string of its turn gets a buffer, and what is printed. -/
def read (dev gate : Device) (host : HeapHost) (test : FsM Unit) (k : Kernel) (line : CStr) :
    Option (Kernel × List Output) :=
  match turn dev gate host test k.machine k.parts line k.heap with
  | (.ok t, heap) => some (⟨t.machine, t.parts, heap⟩, t.printed)
  | _ => none

/-- Power on, and `init` up to the first login. -/
def boot (dev : Device) (host : HeapHost) (disk : UInt32 → Block) : Kernel :=
  ⟨.boot dev disk, .new, .start host.ram⟩

def step (dev : Device) (host : HeapHost) (test : FsM Unit) (k : Kernel) : Event → Option Kernel
  | .line readFails text =>
      (k.read dev { dev with readFails := readFails } host test text).map Prod.fst
  | .restart => some (boot dev host k.machine.fs.disk)

def run (dev : Device) (host : HeapHost) (test : FsM Unit) (k : Kernel) :
    List Event → Option Kernel
  | [] => some k
  | event :: events => (k.step dev host test event).bind fun k' => k'.run dev host test events

/-- The buffer of the list is allocated, among others. -/
def Sound (area : HeapArea) (k : Kernel) : Prop :=
  ∃ own, Owns area (k.parts.held ++ own) k.heap

end Kernel

/-! ## The arguments that are handed on -/

section Handed

variable {area : HeapArea}

/-- The branch of the command does and prints the same with both. -/
structure Command.SameArgs (cmd : Command) (args args' : List CStr) : Prop where
  handle : ∀ (dev : Device) (test : FsM Unit) (m : Machine),
    m.handleCommand dev test cmd args = m.handleCommand dev test cmd args'
  output : ∀ (dev : Device) (host : Host) (m : Machine),
    cmd.output dev host m args = cmd.output dev host m args'

/-- And so does the whole line. -/
structure SameWords (words words' : List CStr) : Prop where
  handle : ∀ (dev : Device) (test : FsM Unit) (m : Machine),
    m.handleWords dev test words = m.handleWords dev test words'
  output : ∀ (dev : Device) (host : Host) (m : Machine),
    m.wordsOutput dev host words = m.wordsOutput dev host words'

namespace Command

theorem SameArgs.refl (cmd : Command) (args : List CStr) : cmd.SameArgs args args :=
  ⟨fun _ _ _ => rfl, fun _ _ _ => rfl⟩

/-- The words of the data may as well be one. -/
theorem sameArgs_write (file word : CStr) (words : List CStr) :
    write.SameArgs [file, CStr.ofBytes (joinWords (word :: words))] (file :: word :: words) := by
  have hdata : CStr.ofBytes (joinWords [CStr.ofBytes (joinWords (word :: words))]) =
      CStr.ofBytes (joinWords (word :: words)) := CStr.ofBytes_chars _
  constructor
  · intro dev test m
    simp only [Machine.handleCommand, calls, hdata]
  · intro dev host m
    simp only [output, hdata]

theorem SameArgs.words {cmd : Command} {args args' : List CStr} {word : CStr}
    (h : cmd.SameArgs args args') (hfind : find word = some cmd) :
    SameWords (word :: args) (word :: args') := by
  constructor
  · intro dev test m
    simp only [Machine.handleWords, parseWords, hfind, Option.map_some]
    exact h.handle dev test m
  · intro dev host m
    simp only [Machine.wordsOutput, hfind]
    cases cmd with
    | exit => rfl
    | _ => exact h.output dev host m

theorem rmArgs_allots (parts : List KString) (own : List Nat) :
    Allots area (rmArgs area parts) own fun args own' =>
      args = parts.map KString.cStr ∧ ∃ lost, own' = lost ++ own := by
  induction parts generalizing own with
  | nil => exact .pure ⟨rfl, [], rfl⟩
  | cons part parts ih =>
      apply Allots.bind (KString.ofChars_allots own part.cStr)
      intro arg own₁ hown₁
      obtain ⟨rfl, hchars⟩ := hown₁
      apply Allots.bind (ih (arg.data :: own))
      intro args own₂ hown₂
      obtain ⟨rfl, lost, rfl⟩ := hown₂
      refine .pure ⟨?_, lost ++ [arg.data], by simp⟩
      rw [KString.cStr, hchars, CStr.ofBytes_chars, List.map_cons]

/-- Whatever the branch makes of its arguments, it does what they say. -/
theorem handed_allots {testHeap : HeapProg Unit}
    (htidy : ∀ own, Allots area testHeap own fun _ own' => ∃ lost, own' = lost ++ own)
    (cmd : Command) (parts : List KString) (own : List Nat) :
    Allots area (cmd.handed area testHeap parts) own fun args own' =>
      cmd.SameArgs args (parts.map KString.cStr) ∧ ∃ lost, own' = lost ++ own := by
  have untouched : Allots area (Pure.pure (parts.map KString.cStr)) own fun args own' =>
      cmd.SameArgs args (parts.map KString.cStr) ∧ ∃ lost, own' = lost ++ own :=
    .pure ⟨.refl _ _, [], rfl⟩
  cases cmd with
  | touch =>
      cases parts with
      | nil =>
          apply Allots.bind (KString.new_allots own)
          intro filename own' hown'
          exact .pure ⟨.refl _ _, [filename.data], hown'.1⟩
      | cons part parts =>
          apply Allots.bind (KString.new_allots own)
          intro unused own₁ hown₁
          obtain ⟨rfl, -⟩ := hown₁
          apply Allots.bind (KString.ofChars_allots _ part.cStr)
          intro filename own₂ hown₂
          obtain ⟨rfl, hchars⟩ := hown₂
          refine .pure ⟨?_, [filename.data, unused.data], rfl⟩
          rw [KString.cStr, hchars, CStr.ofBytes_chars, List.map_cons]
          exact .refl _ _
  | write =>
      cases parts with
      | nil => exact untouched
      | cons file parts =>
          cases parts with
          | nil => exact untouched
          | cons word words =>
              apply Allots.bind (buildData_allots word words own)
              intro data own' hown'
              obtain ⟨lost, rfl, -, hchars⟩ := hown'
              refine .pure ⟨?_, lost, rfl⟩
              rw [KString.cStr, KString.cStr, hchars]
              exact sameArgs_write file.cStr word.cStr (words.map KString.cStr)
  | rm =>
      refine (rmArgs_allots parts own).mono ?_
      intro args own' hown'
      obtain ⟨rfl, hlost⟩ := hown'
      exact ⟨.refl _ _, hlost⟩
  | test =>
      apply Allots.bind (htidy own)
      intro _ own' hlost
      exact .pure ⟨.refl _ _, hlost⟩
  | _ => exact untouched

theorem handedWords_allots {testHeap : HeapProg Unit}
    (htidy : ∀ own, Allots area testHeap own fun _ own' => ∃ lost, own' = lost ++ own)
    (parts : List KString) (own : List Nat) :
    Allots area (handedWords area testHeap parts) own fun words own' =>
      SameWords words (parts.map KString.cStr) ∧ ∃ lost, own' = lost ++ own := by
  cases parts with
  | nil => exact .pure ⟨⟨fun _ _ _ => rfl, fun _ _ _ => rfl⟩, [], rfl⟩
  | cons word parts =>
      rw [handedWords]
      cases hfind : find word.cStr with
      | none => exact .pure ⟨⟨fun _ _ _ => rfl, fun _ _ _ => rfl⟩, [], rfl⟩
      | some cmd =>
          apply Allots.bind (handed_allots htidy cmd parts own)
          intro args own' hown'
          exact .pure ⟨hown'.1.words hfind, hown'.2⟩

end Command

end Handed

/-! ## A turn does what the line says -/

namespace Kernel

variable {dev gate : Device} {host : HeapHost} {test : FsM Unit} {k k' : Kernel} {m : Machine}

/-- The turn has come to this machine and this answer. -/
structure Turn.Comes (t : Turn) (m : Machine) (printed : List Output) (own : List Nat) :
    Prop where
  machine : t.machine = m
  printed : t.printed = printed
  held : ∃ others, own = t.parts.held ++ others

theorem leave_allots (m : Machine) (parts : ArrayList KString) (printed : List Output)
    (own : List Nat) : Allots host.area (leave m parts printed) (parts.held ++ own)
      fun t own' => t.Comes m printed own' := by
  have kept : Allots host.area (Pure.pure (⟨m, parts, printed⟩ : Turn)) (parts.held ++ own)
      fun t own' => t.Comes m printed own' := .pure ⟨rfl, rfl, own, rfl⟩
  have destroyed : Allots host.area (do parts.destroy; pure (⟨m, .new, printed⟩ : Turn))
      (parts.held ++ own) fun t own' => t.Comes m printed own' := by
    apply Allots.bind (ArrayList.freeData_allots (List.Perm.refl _))
    intro _ own' hown'
    exact .pure ⟨rfl, rfl, own', rfl⟩
  unfold leave
  cases m.phase with
  | login attempts => exact destroyed
  | prompt => exact destroyed
  | _ => exact kept

theorem handleCommands_allots (m : Machine) (line : CStr) (own : List Nat) :
    Allots host.area (handleCommands dev host test m line) own fun t own' =>
      t.Comes (m.handleLine dev test line) (m.lineOutput dev host.toHost line) own' := by
  apply Allots.bind (KString.ofChars_allots own line)
  intro command own₁ hown₁
  obtain ⟨rfl, hchars⟩ := hown₁
  apply Allots.bind (KString.split_allots command space _)
  intro parts own₂ hadds
  obtain ⟨lost, rfl, -, hwords⟩ := hadds
  rw [hchars] at hwords
  apply Allots.bind (Command.handedWords_allots (host.testTidy m.fs) parts.elems _)
  intro words own₃ hown₃
  obtain ⟨hsame, lost', rfl⟩ := hown₃
  have hline : parts.elems.map KString.cStr = stringSplit line space := hwords
  rw [hline] at hsame
  rw [hsame.handle dev test m, hsame.output dev host.toHost m]
  exact (leave_allots _ parts _ _).perm (List.perm_append_comm_assoc _ _ _)

/-- The turn is over, with the machine and the answer of the line, or an allocation failed. -/
theorem turn_allots (m : Machine) (parts : ArrayList KString) (line : CStr) (own : List Nat) :
    Allots host.area (turn dev gate host test m parts line) (parts.held ++ own) fun t own' =>
      t.Comes (m.readLine dev gate test line) (m.answer dev gate host.toHost line) own' := by
  have asked : Allots host.area (do
      let text ← KString.ofChars host.area line
      leave (m.readLine dev gate test text.cStr) parts (m.answer dev gate host.toHost text.cStr))
      (parts.held ++ own) fun t own' =>
        t.Comes (m.readLine dev gate test line) (m.answer dev gate host.toHost line) own' := by
    apply Allots.bind (KString.ofChars_allots _ line)
    intro text own' hown'
    obtain ⟨rfl, hchars⟩ := hown'
    rw [KString.cStr, hchars, CStr.ofBytes_chars]
    exact (leave_allots _ parts _ (text.data :: own)).perm List.perm_middle.symm
  unfold turn
  cases hphase : m.phase with
  | off =>
      refine .pure ⟨?_, ?_, own, rfl⟩
      · simp only [Machine.readLine, hphase]
      · simp only [Machine.answer, hphase]
  | prompt =>
      simp only [Machine.readLine, Machine.answer, hphase]
      exact handleCommands_allots m line (parts.held ++ own)
  | _ => exact asked

/-- A line does what the machine does with it, or an allocation failed. -/
theorem read_cases (h : k.Sound host.area) (line : CStr) :
    (∃ next : Kernel, k.read dev gate host test line =
        some (next, k.machine.answer dev gate host.toHost line) ∧
      next.machine = k.machine.readLine dev gate test line ∧ next.Sound host.area) ∨
    (k.read dev gate host test line = none ∧
      (turn dev gate host test k.machine k.parts line k.heap).1 = .refused) := by
  obtain ⟨own, howns⟩ := h
  have hturn := @turn_allots dev gate host test k.machine k.parts line own k.heap howns
  unfold read
  generalize hrun : turn dev gate host test k.machine k.parts line k.heap = r
  obtain ⟨o, heap⟩ := r
  rcases wp_run hturn hrun with ⟨t, rfl, own', howns', hcomes⟩ | ⟨rfl, -⟩ | ⟨-, hno⟩
  · obtain ⟨others, rfl⟩ := hcomes.held
    rw [← hcomes.printed]
    exact .inl ⟨_, rfl, hcomes.machine, others, howns'⟩
  · exact .inr ⟨rfl, rfl⟩
  · exact hno.elim

theorem read_spec (h : k.Sound host.area) {line : CStr} {printed : List Output}
    (hread : k.read dev gate host test line = some (k', printed)) :
    k'.machine = k.machine.readLine dev gate test line ∧
      printed = k.machine.answer dev gate host.toHost line ∧ k'.Sound host.area := by
  rcases @read_cases dev gate host test k h line with ⟨next, hnext, hmachine, hsound⟩ | ⟨hnone, -⟩
  · rw [hread] at hnext
    obtain ⟨rfl, rfl⟩ := Prod.mk.inj (Option.some.inj hnext)
    exact ⟨hmachine, rfl, hsound⟩
  · rw [hread] at hnone
    cases hnone

theorem boot_sound (disk : UInt32 → Block) : (boot dev host disk).Sound host.area :=
  ⟨[], List.Perm.refl _, .inl ⟨_, rfl⟩⟩

theorem step_line {readFails : Fs → UInt32 → Bool} {text : CStr}
    (h : k.step dev host test (.line readFails text) = some k') :
    ∃ printed, k.read dev { dev with readFails := readFails } host test text =
      some (k', printed) := by
  obtain ⟨r, hread, rfl⟩ := Option.map_eq_some_iff.mp h
  exact ⟨r.2, hread⟩

/-- An event takes the machine where it takes a machine without a heap. -/
theorem step_spec (h : k.Sound host.area) {event : Event}
    (hstep : k.step dev host test event = some k') :
    k'.machine = k.machine.step dev test event ∧ k'.Sound host.area := by
  cases event with
  | restart =>
      obtain rfl := Option.some.inj hstep
      exact ⟨rfl, boot_sound _⟩
  | line readFails text =>
      obtain ⟨printed, hread⟩ := step_line hstep
      obtain ⟨hmachine, -, hsound⟩ := read_spec h hread
      exact ⟨hmachine, hsound⟩

theorem run_cons {event : Event} {events : List Event}
    (h : k.run dev host test (event :: events) = some k') :
    ∃ next, k.step dev host test event = some next ∧ next.run dev host test events = some k' :=
  Option.bind_eq_some_iff.mp h

theorem run_append {events events' : List Event}
    (h : k.run dev host test (events ++ events') = some k') :
    ∃ mid, k.run dev host test events = some mid ∧ mid.run dev host test events' = some k' := by
  induction events generalizing k with
  | nil => exact ⟨k, rfl, h⟩
  | cons event events ih =>
      obtain ⟨next, hstep, hrest⟩ := run_cons h
      obtain ⟨mid, hfirst, hlast⟩ := ih hrest
      exact ⟨mid, Option.bind_eq_some_iff.mpr ⟨next, hstep, hfirst⟩, hlast⟩

theorem run_spec (h : k.Sound host.area) {events : List Event}
    (hrun : k.run dev host test events = some k') :
    k'.machine = k.machine.run dev test events ∧ k'.Sound host.area := by
  induction events generalizing k with
  | nil =>
      obtain rfl := Option.some.inj hrun
      exact ⟨rfl, h⟩
  | cons event events ih =>
      obtain ⟨next, hstep, hrest⟩ := run_cons hrun
      obtain ⟨hmachine, hsound⟩ := step_spec h hstep
      obtain ⟨hend, hsound'⟩ := ih hsound hrest
      refine ⟨?_, hsound'⟩
      rw [hend, hmachine]
      rfl

end Kernel

end SevenOS
