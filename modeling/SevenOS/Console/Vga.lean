import Mathlib.Data.Int.Order.Basic
import Mathlib.Logic.Function.Basic

/-! # The text console

The driver writes 16-bit cells through a raw pointer to the text memory and keeps
the position of the next character in a signed counter. Nothing stops an index
from leaving the screen, so the memory is a map on all integers and every index
that is used is noted in `used`. The hardware cursor is set through a pair of
ports; what is sent there is noted in `sent`.
-/

namespace SevenOS

def vgaWidth : Int := 80
def vgaHeight : Int := 25
def vgaColor : UInt8 := 0x07

structure Vga where
  cursorPos : Int
  buffer : Int → UInt16
  /-- The indexes of the text memory read or written, the latest first. -/
  used : List Int
  /-- Ports and values of the `outb` instructions, the latest first. -/
  sent : List (UInt16 × UInt8)

namespace Vga

/-- `(VGA_COLOR << 8) | c`: the character is a signed byte, which the `|` widens
with its sign. -/
def cellOf (c : UInt8) : UInt16 :=
  (vgaColor.toUInt32.toInt32 <<< 8 ||| c.toInt8.toInt32).toUInt32.toUInt16

def colorOf (cell : UInt16) : UInt8 := (cell >>> 8).toUInt8

def charOf (cell : UInt16) : UInt8 := cell.toUInt8

def newLine : UInt8 := 10
def backspace : UInt8 := 8
def space : UInt8 := 32

def outb (v : Vga) (port : UInt16) (value : UInt8) : Vga :=
  { v with sent := (port, value) :: v.sent }

def updateCursor (v : Vga) : Vga :=
  let pos : UInt16 := UInt16.ofInt v.cursorPos
  let v := v.outb 0x3D4 0x0F
  let v := v.outb 0x3D5 (pos &&& 0xFF).toUInt8
  let v := v.outb 0x3D4 0x0E
  v.outb 0x3D5 (pos >>> 8 &&& 0xFF).toUInt8

/-- `VGA_BUFFER[i] = cell`. -/
def store (v : Vga) (i : Int) (cell : UInt16) : Vga :=
  { v with buffer := Function.update v.buffer i cell, used := i :: v.used }

/-- `VGA_BUFFER[i] = VGA_BUFFER[j]`. -/
def copy (v : Vga) (i j : Int) : Vga :=
  { v with buffer := Function.update v.buffer i (v.buffer j), used := i :: j :: v.used }

theorem store_buffer (v : Vga) (i : Int) (cell : UInt16) (j : Int) :
    (v.store i cell).buffer j = if j = i then cell else v.buffer j :=
  Function.update_apply _ _ _ _

theorem copy_buffer (v : Vga) (i j k : Int) :
    (v.copy i j).buffer k = if k = i then v.buffer j else v.buffer k :=
  Function.update_apply _ _ _ _

/-- `for (i = 0; i < count; i++) VGA_BUFFER[i] = VGA_BUFFER[i + VGA_WIDTH];` -/
def moveUp (v : Vga) (count : Nat) : Vga :=
  (List.range count).foldl (fun v (i : Nat) => v.copy i (i + vgaWidth)) v

/-- `for (i = start; i < start + count; i++) VGA_BUFFER[i] = (VGA_COLOR << 8) | ' ';` -/
def blankFrom (v : Vga) (start : Int) (count : Nat) : Vga :=
  (List.range count).foldl (fun v (i : Nat) => v.store (start + i) (cellOf space)) v

def scroll (v : Vga) : Vga :=
  let v := v.moveUp ((vgaHeight - 1) * vgaWidth).toNat
  let v := v.blankFrom ((vgaHeight - 1) * vgaWidth) vgaWidth.toNat
  { v with cursorPos := v.cursorPos - vgaWidth }

theorem moveUp_succ (v : Vga) (count : Nat) :
    v.moveUp (count + 1) = (v.moveUp count).copy count (count + vgaWidth) := by
  rw [moveUp, List.range_succ, List.foldl_append]
  rfl

theorem blankFrom_succ (v : Vga) (start : Int) (count : Nat) :
    v.blankFrom start (count + 1) =
      (v.blankFrom start count).store (start + count) (cellOf space) := by
  rw [blankFrom, List.range_succ, List.foldl_append]
  rfl

theorem moveUp_cursorPos (v : Vga) (count : Nat) : (v.moveUp count).cursorPos = v.cursorPos := by
  induction count with
  | zero => rfl
  | succ count ih => rw [moveUp_succ, copy, ih]

theorem blankFrom_cursorPos (v : Vga) (start : Int) (count : Nat) :
    (v.blankFrom start count).cursorPos = v.cursorPos := by
  induction count with
  | zero => rfl
  | succ count ih => rw [blankFrom_succ, store, ih]

theorem scroll_cursorPos (v : Vga) : v.scroll.cursorPos = v.cursorPos - vgaWidth := by
  simp only [scroll, blankFrom_cursorPos, moveUp_cursorPos]

/-- `while (cursor_pos >= VGA_WIDTH * VGA_HEIGHT) scroll();` -/
def scrollWhile (v : Vga) : Vga :=
  if vgaWidth * vgaHeight ≤ v.cursorPos then scrollWhile v.scroll else v
termination_by v.cursorPos.toNat
decreasing_by
  rw [scroll_cursorPos]
  simp only [vgaWidth, vgaHeight] at *
  omega

/-- What `put_char` does before its loop. -/
def place (v : Vga) (c : UInt8) : Vga :=
  if c = newLine then { v with cursorPos := (v.cursorPos.tdiv vgaWidth + 1) * vgaWidth }
  else if c = backspace then
    if v.cursorPos > 0 then
      let v := { v with cursorPos := v.cursorPos - 1 }
      v.store v.cursorPos (cellOf space)
    else v
  else { v.store v.cursorPos (cellOf c) with cursorPos := v.cursorPos + 1 }

def putChar (v : Vga) (c : UInt8) : Vga := (v.place c).scrollWhile.updateCursor

/-- A sequence of `put_char` calls. -/
def putChars (v : Vga) (chars : List UInt8) : Vga := chars.foldl putChar v

/-- `print`: the characters before the terminator. -/
def print (v : Vga) (str : List UInt8) : Vga := v.putChars (str.takeWhile (· ≠ 0))

def println (v : Vga) (str : List UInt8) : Vga := (v.print str).putChar newLine

def clearScreen (v : Vga) : Vga :=
  let v := v.blankFrom 0 (vgaWidth * vgaHeight).toNat
  let v := { v with cursorPos := 0 }
  v.updateCursor

end Vga

end SevenOS
