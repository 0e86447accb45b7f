import SevenOS.Console.Vga
import SevenOS.Lib.CStr
import SevenOS.Util.Decimal

/-! # The keyboard

Scancodes come one at a time: to `process_scancode` by interrupt, and to `readl`,
which masks the interrupt and asks the controller itself. Both keep one flag for the
two shift keys. What the controller sends while `readl` waits is a list; it ends when
nothing more is sent.
-/

namespace SevenOS

/-- The table of characters; what it does not list is 0. -/
def kbdMap (key : UInt8) : UInt8 :=
  [0, 27, 49, 50, 51, 52, 53, 54, 55, 56, 57, 48, 45, 61, 8,
    9, 113, 119, 101, 114, 116, 121, 117, 105, 111, 112, 91, 93, 10,
    0, 97, 115, 100, 102, 103, 104, 106, 107, 108, 59, 39, 96, 0,
    92, 122, 120, 99, 118, 98, 110, 109, 44, 46, 45, 0, 42, 0, 32].getD key.toNat 0

def kbdMapShift (key : UInt8) : UInt8 :=
  [0, 27, 33, 34, 0, 36, 37, 38, 47, 40, 41, 61, 63, 94, 8,
    9, 81, 87, 69, 82, 84, 89, 85, 73, 79, 80, 0, 42, 10,
    0, 65, 83, 68, 70, 71, 72, 74, 75, 76, 0, 0, 124, 0,
    0, 90, 88, 67, 86, 66, 78, 77, 59, 58, 95, 0, 42, 0, 32].getD key.toNat 0

/-- `(scancode & 0x80) != 0`. -/
def isRelease (scancode : UInt8) : Bool := scancode &&& 0x80 != 0

def keyOf (scancode : UInt8) : UInt8 := scancode &&& 0x7F

def leftShift : UInt8 := 0x2A
def rightShift : UInt8 := 0x36

def isShift (scancode : UInt8) : Bool := keyOf scancode == leftShift || keyOf scancode == rightShift

/-- `stack` is what the local arrays hold before anything is stored in them. -/
structure Keyboard where
  shiftPressed : Bool
  inputBuffer : Bytes 256
  inputPtr : Nat
  picMask : UInt8
  vga : Vga
  stack : Memory

namespace Keyboard

def putChar (k : Keyboard) (c : UInt8) : Keyboard := { k with vga := k.vga.putChar c }

def print (k : Keyboard) (str : List UInt8) : Keyboard := { k with vga := k.vga.print str }

def charOf (k : Keyboard) (key : UInt8) : UInt8 :=
  if k.shiftPressed then kbdMapShift key else kbdMap key

/-! ## By interrupt -/

def ascii (text : String) : List UInt8 := text.toList.map fun c => UInt8.ofNat c.toNat

def handleCommand (k : Keyboard) : Keyboard :=
  let k := { k with inputBuffer := k.inputBuffer.put k.inputPtr 0 }
  let line := (CStr.ofBytes (k.inputBuffer.suffix 0)).chars
  let k :=
    if CStr.equals line (ascii "/help") then
      k.print (ascii "\n7OS HELP: DIGITA PER SCRIVERE. BACKSPACE PER CANCELLARE.\n")
    else if CStr.equals line (ascii "/test") then
      let buf := intToStr k.stack (-1234) 0
      let k := k.print (ascii "\nNUMERO TEST: ")
      let k := k.print ((List.range 12).map buf.byte)
      k.print (ascii "\n")
    else k
  { k with inputPtr := 0 }.putChar Vga.newLine

def processScancode (k : Keyboard) (scancode : UInt8) : Keyboard :=
  if isShift scancode then { k with shiftPressed := !isRelease scancode }
  else if isRelease scancode then k
  else
    let c := k.charOf (keyOf scancode)
    if c = Vga.newLine then k.handleCommand
    else if c = Vga.backspace then
      if 0 < k.inputPtr then { k with inputPtr := k.inputPtr - 1 }.putChar Vga.backspace else k
    else if c ≠ 0 ∧ k.inputPtr < 255 then
      { k with inputBuffer := k.inputBuffer.put k.inputPtr c, inputPtr := k.inputPtr + 1 }.putChar c
    else k

/-! ## By `readl` -/

/-- `buffer` and `length` of `readl`. -/
structure Line where
  buffer : Bytes 256
  length : Nat

/-- What a key does that does not end the line. -/
def typed (k : Keyboard) (line : Line) (c : UInt8) : Keyboard × Line :=
  if c = Vga.backspace then
    if 0 < line.length then
      (k.putChar Vga.backspace, ⟨line.buffer.put (line.length - 1) 0, line.length - 1⟩)
    else (k, line)
  else if c ≠ 0 ∧ line.length < 255 then
    (k.putChar c, ⟨(line.buffer.put line.length c).put (line.length + 1) 0, line.length + 1⟩)
  else (k, line)

/-- The loop of `readl`: the text, and the scancodes that are not read any more. -/
def readlLoop (savedMask : UInt8) (k : Keyboard) (line : Line) :
    List UInt8 → Option (CStr × Keyboard × List UInt8)
  | [] => none
  | scancode :: rest =>
      if isShift scancode then
        readlLoop savedMask { k with shiftPressed := !isRelease scancode } line rest
      else if isRelease scancode then readlLoop savedMask k line rest
      else
        let c := k.charOf (keyOf scancode)
        if c = Vga.newLine then
          some (CStr.ofBytes (line.buffer.suffix 0),
            { k.putChar Vga.newLine with picMask := savedMask }, rest)
        else
          let (k, line) := k.typed line c
          readlLoop savedMask k line rest

def readl (k : Keyboard) (scancodes : List UInt8) : Option (CStr × Keyboard × List UInt8) :=
  let savedMask := k.picMask
  let k := { k with picMask := savedMask ||| 0x02 }
  let buffer : Bytes 256 := fun i => k.stack.byte i
  readlLoop savedMask k ⟨buffer.put 0 0, 0⟩ scancodes

end Keyboard

end SevenOS
