import SevenOS.FileSystem.Exports

/-! # The shell

`init`, the login loop and `handleCommands`, one line of input at a time, with the
file system, `k_root` and the place in the program. A line and its words are values
here; what is printed and what the strings ask of the heap comes on top of it.
-/

namespace SevenOS

open Prog

def space : UInt8 := 32
def dot : UInt8 := 46

/-! ## Words -/

/-- The end of a segment in `String::split`: an empty one is dropped. -/
def splitPart (segment : List UInt8) : List CStr :=
  if segment = [] then [] else [CStr.ofBytes segment]

/-- The loop of `String::split`: `segment` is what stands since `start`. -/
def splitFrom (delimiter : UInt8) : List UInt8 → List UInt8 → List CStr
  | [], segment => splitPart segment
  | c :: rest, segment =>
      if c = delimiter then splitPart segment ++ splitFrom delimiter rest []
      else splitFrom delimiter rest (segment ++ [c])

def stringSplit (s : CStr) (delimiter : UInt8) : List CStr := splitFrom delimiter s.chars []

/-- `data` of the write command: the words with one blank between them. -/
def joinWords : List CStr → List UInt8
  | [] => []
  | [word] => word.chars
  | word :: rest => word.chars ++ space :: joinWords rest

/-! ## Paths -/

/-- "7:/" -/
def rootPrompt : CStr := ⟨[55, 58, 47], by simp⟩

/-- `&k_root[sep + 1]`, where `sep` is the first `/`. -/
def workingDir (kRoot : CStr) : CStr := kRoot.drop (pathSep kRoot + 1)

/-- `cwd[0 .. last_sep]`, or nothing without a `/`. -/
def popDir (cwd : List UInt8) : List UInt8 :=
  ((cwd.reverse.dropWhile (· ≠ slash)).drop 1).reverse

/-- The leading `..` of a path, each taking a component off the working directory. -/
def climb (cwd : List UInt8) : List UInt8 → List UInt8 × List UInt8
  | [a, b] => if a = dot ∧ b = dot then (popDir cwd, []) else (cwd, [a, b])
  | a :: b :: c :: rest =>
      if a = dot ∧ b = dot ∧ c = slash then climb (popDir cwd) rest else (cwd, a :: b :: c :: rest)
  | input => (cwd, input)

/-- The remainder stands under the working directory only without a `/` of its own. -/
def resolveFsPath (kRoot input : CStr) (maxLen : Nat) : CStr :=
  let (cwd, inp) := climb ((workingDir kRoot).chars.take 63) input.chars
  let front :=
    if slash ∉ inp ∧ cwd ≠ [] then cwd ++ if inp = [] then [] else [slash]
    else []
  CStr.ofBytes ((front ++ inp).take (maxLen - 1))

/-- The path that touch builds for itself. -/
def touchPath (kRoot name : CStr) : CStr :=
  let front :=
    if slash ∉ name.chars ∧ workingDir kRoot ≠ CStr.empty then (workingDir kRoot).chars ++ [slash]
    else []
  CStr.ofBytes ((front ++ name.chars).take 63)

/-! ## Commands -/

inductive Command where
  | help
  | shutdown
  | clear
  | print
  | ls
  | mkfs
  | info
  | exit
  | touch
  | passwd
  | pwd
  | mkdir
  | write
  | read
  | cd
  | rm
  | mv
  | cp
  | test
  deriving DecidableEq

namespace Command

/-- The comparisons of `handleCommands` in their order. -/
def all : List Command :=
  [help, shutdown, clear, print, ls, mkfs, info, exit, touch, passwd, pwd, mkdir, write, read, cd,
    rm, mv, cp, test]

def name : Command → List UInt8
  | help => [104, 101, 108, 112]
  | shutdown => [115, 104, 117, 116, 100, 111, 119, 110]
  | clear => [99, 108, 101, 97, 114]
  | print => [112, 114, 105, 110, 116]
  | ls => [108, 115]
  | mkfs => [109, 107, 102, 115]
  | info => [105, 110, 102, 111]
  | exit => [101, 120, 105, 116]
  | touch => [116, 111, 117, 99, 104]
  | passwd => [112, 97, 115, 115, 119, 100]
  | pwd => [112, 119, 100]
  | mkdir => [109, 107, 100, 105, 114]
  | write => [119, 114, 105, 116, 101]
  | read => [114, 101, 97, 100]
  | cd => [99, 100]
  | rm => [114, 109]
  | mv => [109, 118]
  | cp => [99, 112]
  | test => [116, 101, 115, 116]

/-- `cmd->equals(..)`, one after the other. -/
def find (word : CStr) : Option Command := all.find? fun c => CStr.equals word.chars c.name

/-- "-r" or "-R" -/
def recursiveFlag (arg : CStr) : Bool :=
  CStr.equals arg.chars [45, 114] || CStr.equals arg.chars [45, 82]

/-- The loop of rm: a flag counts for the arguments behind it. -/
def removals (kRoot : CStr) : Bool → List CStr → List Call
  | _, [] => []
  | recursive, arg :: args =>
      if recursiveFlag arg then removals kRoot true args
      else
        (if recursive then .removePathRecursive (resolveFsPath kRoot arg 64)
          else .removePath (resolveFsPath kRoot arg 64)) :: removals kRoot recursive args

/-- The calls that change files, for the words behind the command. -/
def calls (kRoot : CStr) : Command → List CStr → List Call
  | touch, name :: _ => [.writePath (touchPath kRoot name) CStr.empty]
  | mkdir, dir :: _ =>
      if resolveFsPath kRoot dir 64 = CStr.empty then []
      else [.mkdirPath (resolveFsPath kRoot dir 64)]
  | write, file :: word :: words =>
      [.writePath (resolveFsPath kRoot file 64) (CStr.ofBytes (joinWords (word :: words)))]
  | rm, args => removals kRoot false args
  | mv, src :: dst :: _ => [.rename (resolveFsPath kRoot src 64) (resolveFsPath kRoot dst 64)]
  | cp, src :: dst :: _ => [.copyPath (resolveFsPath kRoot src 64) (resolveFsPath kRoot dst 64)]
  | _, _ => []

/-- The calls that only look. -/
def looks (kRoot : CStr) : Command → List CStr → List Export
  | ls, dir :: _ => [.listDir dir 16]
  | ls, [] =>
      if workingDir kRoot = CStr.empty then [.listRoot 16] else [.listDir (workingDir kRoot) 16]
  | info, _ => [.usage]
  | read, file :: _ => [.readPath (resolveFsPath kRoot file 64) 512]
  | _, _ => []

end Command

def parseWords : List CStr → Option (Command × List CStr)
  | [] => none
  | word :: args => (Command.find word).map fun cmd => (cmd, args)

def parseLine (line : CStr) : Option (Command × List CStr) := parseWords (stringSplit line space)

/-! ## The machine -/

/-- What the next line of input is for. -/
inductive Phase where
  | login (attempts : Nat)
  | prompt
  | oldPasswd
  | newPasswd
  | confirmPasswd (newPass : CStr)
  | off
  deriving DecidableEq

structure Machine where
  fs : Fs
  kRoot : CStr
  phase : Phase

/-- `fs_read_passwd`, or the hash of "password123" when it returns false. -/
def storedHash (dev : Device) : FsM UInt32 := fun s =>
  match fsReadPasswd dev s with
  | (.refused, s') => (.ok (fsHashPassword defaultPassword), s')
  | r => r

/-- `fs_format(0, 64) && fs_init()` -/
def mkfs (dev : Device) : FsM Unit := do
  fsFormat dev 0 64
  fsInit dev

/-- The start of `init`: a disk that cannot be mounted is formatted. -/
def mountFs (dev : Device) : FsM Unit :=
  orElse (fsInit dev) do
    orElse (fsFormat dev 0 64) (pure ())
    orElse (fsInit dev) (pure ())

namespace Machine

/-- Run a call whose result is only printed; one that does not end stops everything. -/
def exec (m : Machine) (call : FsM Unit) : Machine :=
  match call m.fs with
  | (.diverged, s) => { m with fs := s, phase := .off }
  | (_, s) => { m with fs := s }

/-- One call after the other, until one does not end. -/
def execAll (dev : Device) (m : Machine) : List Export → Machine
  | [] => m
  | call :: calls =>
      match call.run dev m.fs with
      | (.diverged, s) => { m with fs := s, phase := .off }
      | (_, s) => execAll dev { m with fs := s } calls

def check (dev : Device) (m : Machine) (line : CStr) (accepted denied : Phase) : Machine :=
  match storedHash dev m.fs with
  | (.ok stored, s) =>
      { m with fs := s, phase := if fsHashPassword line = stored then accepted else denied }
  | (_, s) => { m with fs := s, phase := .off }

/-- `fs_path[0] == '\0' || fs_is_dir(fs_path)`, and then `k_root` is rewritten. -/
def changeDir (dev : Device) (m : Machine) (path : CStr) : Machine :=
  let kRoot := CStr.ofBytes ((rootPrompt.chars ++ path.chars).take 63)
  if path = CStr.empty then { m with kRoot := kRoot }
  else
    match fsIsDir dev path m.fs with
    | (.ok (), s) => { m with fs := s, kRoot := kRoot }
    | (.refused, s) => { m with fs := s }
    | (.diverged, s) => { m with fs := s, phase := .off }

/-- The branches of `handleCommands`; `test` is the interpreter. -/
def handleCommand (dev : Device) (test : FsM Unit) (m : Machine) (cmd : Command)
    (args : List CStr) : Machine :=
  match cmd with
  | .shutdown => { m with phase := .off }
  | .exit => { m with phase := .login 0 }
  | .mkfs => m.exec (SevenOS.mkfs dev)
  | .passwd => { m with phase := .oldPasswd }
  | .test => m.exec test
  | .cd =>
      match args with
      | dir :: _ => m.changeDir dev (resolveFsPath m.kRoot dir 64)
      | [] => m
  | .ls | .info | .read => m.execAll dev (cmd.looks m.kRoot args)
  | _ => m.execAll dev ((cmd.calls m.kRoot args).map .change)

def handleWords (dev : Device) (test : FsM Unit) (m : Machine) (words : List CStr) : Machine :=
  match parseWords words with
  | some (cmd, args) => m.handleCommand dev test cmd args
  | none => m

def handleLine (dev : Device) (test : FsM Unit) (m : Machine) (line : CStr) : Machine :=
  m.handleWords dev test (stringSplit line space)

theorem handleLine_some {dev : Device} {test : FsM Unit} {m : Machine} {line : CStr}
    {cmd : Command} {args : List CStr} (h : parseLine line = some (cmd, args)) :
    m.handleLine dev test line = m.handleCommand dev test cmd args := by
  have hwords : parseWords (stringSplit line space) = some (cmd, args) := h
  rw [handleLine, handleWords, hwords]

theorem handleLine_none {dev : Device} {test : FsM Unit} {m : Machine} {line : CStr}
    (h : parseLine line = none) : m.handleLine dev test line = m := by
  have hwords : parseWords (stringSplit line space) = none := h
  rw [handleLine, handleWords, hwords]

/-- The second line of a new password. -/
def confirm (dev : Device) (m : Machine) (newPass line : CStr) : Machine :=
  if newPass = line then
    match fsWritePasswd dev (fsHashPassword newPass) m.fs with
    | (.ok (), s) => { m with fs := s, phase := .prompt }
    | (.refused, s) => { m with fs := s, phase := .newPasswd }
    | (.diverged, s) => { m with fs := s, phase := .off }
  else { m with phase := .newPasswd }

/-- A line of input. `gate` is the disk as the password is read. -/
def readLine (dev gate : Device) (test : FsM Unit) (m : Machine) (line : CStr) : Machine :=
  match m.phase with
  | .login attempts =>
      m.check gate line .prompt (if attempts + 1 < 3 then .login (attempts + 1) else .off)
  | .prompt => m.handleLine dev test line
  | .oldPasswd => m.check gate line .newPasswd .prompt
  | .newPasswd => { m with phase := .confirmPasswd line }
  | .confirmPasswd newPass => m.confirm dev newPass line
  | .off => m

/-- `init` up to the first login. -/
def boot (dev : Device) (disk : UInt32 → Block) : Machine :=
  exec ⟨.booted disk, rootPrompt, .login 0⟩ (mountFs dev)

end Machine

/-- What happens next: a line of input, with the reads that fail when a password is
checked, or a restart. -/
inductive Event where
  | line (readFails : Fs → UInt32 → Bool) (text : CStr)
  | restart

namespace Machine

def step (dev : Device) (test : FsM Unit) (m : Machine) : Event → Machine
  | .line readFails text => m.readLine dev { dev with readFails := readFails } test text
  | .restart => boot dev m.fs.disk

def run (dev : Device) (test : FsM Unit) (m : Machine) (events : List Event) : Machine :=
  events.foldl (fun m event => m.step dev test event) m

end Machine

end SevenOS
