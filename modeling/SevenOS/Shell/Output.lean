import SevenOS.Boot.MemoryMap
import SevenOS.Console.Vga
import SevenOS.Drivers.Keyboard
import SevenOS.Shell.Commands
import SevenOS.Util.Sizes

/-! # What the shell prints

The output of `_kmain`, `init`, `main` and `handleCommands`: the prompt before a line
is read, and the answer to the line. The answer is told from the state the line
finds and from what its calls return there.
-/

namespace SevenOS

open Prog

inductive Output where
  | print (str : CStr)
  | println (str : CStr)
  | clearScreen
  deriving DecidableEq

namespace Vga

def output (v : Vga) : Output → Vga
  | .print str => v.print str.chars
  | .println str => v.println str.chars
  | .clearScreen => v.clearScreen

def outputs (v : Vga) (calls : List Output) : Vga := calls.foldl output v

end Vga

/-- What a program may ask the machine for, besides the disk. -/
structure Host where
  /-- `eax`, `ebx`, `ecx` and `edx` for a leaf. -/
  cpuid : UInt32 → UInt32 × UInt32 × UInt32 × UInt32
  /-- The memory that the second stage left its map in. -/
  ram : Memory
  /-- What the local arrays hold before anything is stored in them. -/
  stack : Memory
  /-- What `ata_init` returned. -/
  ataReady : Bool
  /-- The output of `test`, which is the interpreter. -/
  testOutput : Fs → List Output

def text (s : String) : CStr := CStr.ofBytes (Keyboard.ascii s)

/-! ## Answers of the commands -/

/-- Four registers as 16 bytes of text. -/
def cpuidBytes (host : Host) (leaf : UInt32) : List UInt8 :=
  let (a, b, c, d) := host.cpuid leaf
  Bytes.bytesOf32 a ++ Bytes.bytesOf32 b ++ Bytes.bytesOf32 c ++ Bytes.bytesOf32 d

def getCpuBrand (host : Host) : Option CStr :=
  if (host.cpuid 0x80000000).1 < 0x80000004 then none
  else some (CStr.ofBytes
    (cpuidBytes host 0x80000002 ++ cpuidBytes host 0x80000003 ++ cpuidBytes host 0x80000004))

def printSizeAuto (host : Host) (label : CStr) (bytes : UInt64) : List Output :=
  [.println (sizeText host.stack label bytes)]

def printSizeAutonl (host : Host) (label : CStr) (bytes : UInt64) : List Output :=
  [.print (sizeText host.stack label bytes)]

/-- One answer or the other; none when the call does not return. -/
def verdict {α : Type} (o : Outcome α) (done : α → List Output) (failed : List Output) :
    List Output :=
  match o with
  | .ok a => done a
  | .refused => failed
  | .diverged => []

/-- `println(entries[i].name)` for the entries found: a name without a terminator runs on into
the array, which is taken to end with one. -/
def printEntries (host : Host) (entries : List DirEntry) : List Output :=
  let array := (entries.flatMap fun e => e.used :: e.inode :: List.ofFn e.name) ++
    (List.range (512 - 32 * entries.length)).map host.stack.byte
  (List.range entries.length).map fun i => .println (CStr.ofBytes (array.drop (32 * i + 2)))

namespace Command

/-- `k_commands` -/
def listed : List Command :=
  [help, clear, info, print, shutdown, exit, ls, mkfs, touch, mkdir, passwd, pwd, read, write, mv, cp,
    rm, cd]

def helpOutput : List Output :=
  .println (text "Available commands:") :: listed.map fun c => .println (CStr.ofBytes c.name)

def lsOutput (dev : Device) (host : Host) (m : Machine) (args : List CStr) : List Output :=
  let entries :=
    match args with
    | dir :: _ => fsListDir dev dir 16 m.fs
    | [] =>
        if workingDir m.kRoot = CStr.empty then fsListRoot dev 16 m.fs
        else fsListDir dev (workingDir m.kRoot) 16 m.fs
  verdict entries.1 (printEntries host) [.println (text "ls: directory non trovata o errore.")]

def infoOutput (host : Host) (m : Machine) : List Output :=
  .println (text "7OS is a simple hobby operating system written in C++.") ::
    match getCpuBrand host with
    | none => [.println (text "CPU NAME: unknown")]
    | some brand =>
        [.print (text "CPU NAME: "), .println brand] ++
          printSizeAuto host (text "RAM: ") (getRamBytes host.ram) ++
          verdict (fsGetUsage m.fs).1
            (fun u => printSizeAutonl host (text "Disk: ") u.usedBytes ++ .print (text "/") ::
              printSizeAuto host CStr.empty u.freeBytes) []

def removeUsage : List Output := [.println (text "Uso: rm [-r] <file/dir> [file/dir ...]")]

/-- The loop of rm. -/
def rmOutput (dev : Device) (kRoot : CStr) : Bool → Bool → List CStr → Fs → List Output
  | _, anyTarget, [], _ => if anyTarget then [] else removeUsage
  | recursive, anyTarget, arg :: args, s =>
      if recursiveFlag arg then rmOutput dev kRoot true anyTarget args s
      else
        let filepath := resolveFsPath kRoot arg 64
        let r := if recursive then fsRemovePathRecursive dev filepath s
          else fsRemovePath dev filepath s
        verdict r.1 (fun _ => rmOutput dev kRoot recursive true args r.2)
          (.print (text "Rimozione fallita: ") :: .println arg ::
            rmOutput dev kRoot recursive true args r.2)

def nameTaken (what : CStr) : List Output :=
  [.println (what.append
    (text "Esiste gia' un file o una directory con lo stesso nome."))]

/-- The output of a branch of `handleCommands`. -/
def output (dev : Device) (host : Host) (m : Machine) : Command → List CStr → List Output
  | help, _ => helpOutput
  | shutdown, _ => [.println (text "Shutting down...")]
  | clear, _ => [.clearScreen]
  | print, _ => [.println (text "This is a test print command.")]
  | ls, args => lsOutput dev host m args
  | mkfs, _ => .println (text "Formatting filesystem...") ::
      verdict (SevenOS.mkfs dev m.fs).1 (fun _ => [.println (text "FS ready")])
        [.println (text "FS format failed")]
  | info, _ => infoOutput host m
  | exit, _ => [.println (text "Exiting")]
  | touch, [] => [.println (text "Nome del file non specificato.")]
  | touch, name :: _ =>
      verdict (fsWritePath dev (touchPath m.kRoot name) CStr.empty m.fs).1
        (fun _ => [.println (text "File creato con successo.")])
        (nameTaken (text "Creazione file fallita. "))
  | passwd, _ => []
  | pwd, _ => [.println m.kRoot]
  | mkdir, [] => [.println (text "Nome della directory non specificato.")]
  | mkdir, dir :: _ =>
      if resolveFsPath m.kRoot dir 64 = CStr.empty then
        nameTaken (text "Creazione directory fallita. ")
      else
        verdict (fsMkdirPath dev (resolveFsPath m.kRoot dir 64) m.fs).1 (fun _ => [])
          (nameTaken (text "Creazione directory fallita. "))
  | write, file :: word :: words =>
      verdict (fsWritePath dev (resolveFsPath m.kRoot file 64)
          (CStr.ofBytes (joinWords (word :: words))) m.fs).1
        (fun _ => [.println (text "File scritto con successo.")])
        [.println (text "Scrittura file fallita.")]
  | write, _ => [.println (text "Uso: write <filename> <data>")]
  | read, [] => [.println (text "Uso: read <filename>")]
  | read, file :: _ =>
      verdict (fsReadPath dev (resolveFsPath m.kRoot file 64) 512 m.fs).1
        (fun buffer => [.println (CStr.ofBytes buffer)])
        [.println (text "Lettura file fallita.")]
  | cd, [] => [.println (text "Uso: cd <directory>")]
  | cd, dir :: _ =>
      if resolveFsPath m.kRoot dir 64 = CStr.empty then []
      else
        verdict (fsIsDir dev (resolveFsPath m.kRoot dir 64) m.fs).1 (fun _ => [])
          [.println (text "Directory non trovata.")]
  | rm, args => rmOutput dev m.kRoot false false args m.fs
  | mv, src :: dst :: _ =>
      verdict (fsRename dev (resolveFsPath m.kRoot src 64) (resolveFsPath m.kRoot dst 64) m.fs).1
        (fun _ => []) [.println (text "mv fallito.")]
  | mv, _ => [.println (text "Uso: mv <source> <destination>")]
  | cp, src :: dst :: _ =>
      verdict (fsCopyPath dev (resolveFsPath m.kRoot src 64) (resolveFsPath m.kRoot dst 64) m.fs).1
        (fun _ => []) [.println (text "cp fallita.")]
  | cp, _ => [.println (text "Uso: cp <source> <destination>")]
  | test, _ => host.testOutput m.fs

end Command

/-! ## Prompts and answers -/

namespace Machine

def promptOutput (m : Machine) : List Output :=
  match m.phase with
  | .login _ => [.print (text "Scrivi la password: ")]
  | .prompt => [.print m.kRoot, .print (text "> ")]
  | .oldPasswd => [.print (text "Password attuale: ")]
  | .newPasswd => [.print (text "Nuova password: ")]
  | .confirmPasswd _ => [.print (text "Conferma nuova password: ")]
  | .off => []

/-- The end of the login loop and the start of `main`. -/
def welcome : List Output :=
  [.clearScreen, .println (text "Accesso consentito!"), .clearScreen,
    .println (text "Benvenuto in 7OS!"),
    .println (text "Digita help per vedere i comandi disponibili.")]

def unknownCommand : List Output :=
  [.println (text "Comando sconosciuto: digita help per vedere i comandi disponibili.")]

/-- After exit the screen is cleared for the next login. -/
def wordsOutput (dev : Device) (host : Host) (m : Machine) (words : List CStr) : List Output :=
  match words with
  | [] => []
  | word :: args =>
      match Command.find word with
      | none => unknownCommand
      | some .exit => Command.exit.output dev host m args ++ [.clearScreen]
      | some cmd => cmd.output dev host m args

def lineOutput (dev : Device) (host : Host) (m : Machine) (line : CStr) : List Output :=
  m.wordsOutput dev host (stringSplit line space)

/-- A line with a password against the stored one. -/
def checkOutput (gate : Device) (m : Machine) (line : CStr) (accepted denied : List Output) :
    List Output :=
  verdict (storedHash gate m.fs).1
    (fun stored => if fsHashPassword line = stored then accepted else denied) []

def confirmOutput (dev : Device) (m : Machine) (newPass line : CStr) : List Output :=
  if newPass = line then
    verdict (fsWritePasswd dev (fsHashPassword newPass) m.fs).1
      (fun _ => [.println (text "Password aggiornata.")])
      [.println (text "Errore aggiornamento password.")]
  else [.println (text "Le password non corrispondono.")]

/-- What is printed when a line was read, up to the next prompt. -/
def answer (dev gate : Device) (host : Host) (m : Machine) (line : CStr) : List Output :=
  match m.phase with
  | .login attempts =>
      m.checkOutput gate line welcome (.println (text "Accesso negato!") ::
        if attempts + 1 < 3 then []
        else [.println (text "Troppi tentativi, sistema bloccato.")])
  | .prompt => m.lineOutput dev host line
  | .oldPasswd => m.checkOutput gate line [] [.println (text "Password errata.")]
  | .newPasswd => []
  | .confirmPasswd newPass => m.confirmOutput dev newPass line
  | .off => []

/-- `_kmain` and `init` up to the first login. -/
def bootOutput (dev : Device) (host : Host) (disk : UInt32 → Block) : List Output :=
  let s := Fs.booted disk
  let ready : List Output := [.println (text "fs done"), .clearScreen]
  [.print (text "IDT ok\n"), .print (text "PIT ok\n"),
    .print (if host.ataReady then text "ATA ok\n" else text "ATA no drive\n"),
    .println (text "fs_init...")] ++
    verdict (fsInit dev s).1 (fun _ => ready)
      (.println (text "fs_format...") ::
        let r := fsFormat dev 0 64 (fsInit dev s).2
        let again := .println (text "fs_init2...") ::
          verdict (fsInit dev r.2).1 (fun _ => ready) ready
        verdict r.1 (fun _ => again) again)

end Machine

end SevenOS
