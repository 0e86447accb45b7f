import SevenOS.Lib.Memory
import SevenOS.Lib.Prog
import SevenOS.FileSystem.Layout

/-! # The disk driver and its drive

The driver talks to a drive through ports. The drive modelled here does what the
standard asks of an ideal one: it keeps what is written to its address registers
and hands out or takes in the 256 words of one sector a command. What it puts into
its status register is left open as far as it says "ready" and not "error".
-/

namespace SevenOS

open Prog

/-! ## The drive -/

/-- What the data port is good for. -/
inductive AtaPhase where
  | idle
  | reading (rest : List UInt16)
  | writing (sector : Nat) (got : List UInt16)

structure Ata where
  hddevsel : UInt8
  seccount0 : UInt8
  lba0 : UInt8
  lba1 : UInt8
  lba2 : UInt8
  phase : AtaPhase
  disk : Nat → Block

/-- A kind of drive: its status byte, and the words it identifies itself with. -/
structure Drive where
  status : Ata → UInt8
  identify : Fin 256 → UInt16

def ataPrimaryIo : UInt16 := 0x1F0
def ataPrimaryCtrl : UInt16 := 0x3F6

def ataRegData : UInt16 := 0
def ataRegSeccount0 : UInt16 := 2
def ataRegLba0 : UInt16 := 3
def ataRegLba1 : UInt16 := 4
def ataRegLba2 : UInt16 := 5
def ataRegHddevsel : UInt16 := 6
def ataRegCommand : UInt16 := 7
def ataRegStatus : UInt16 := 7

def ataCmdReadPio : UInt8 := 0x20
def ataCmdWritePio : UInt8 := 0x30
def ataCmdCacheFlush : UInt8 := 0xE7
def ataCmdIdentify : UInt8 := 0xEC

namespace Ata

/-- The sector that the 28 address bits name. -/
def selected (a : Ata) : Nat :=
  a.lba0.toNat + 256 * a.lba1.toNat + 65536 * a.lba2.toNat +
    16777216 * (a.hddevsel &&& 0x0F).toNat

def Transferring (a : Ata) : Prop :=
  match a.phase with
  | .idle => False
  | .reading rest => rest ≠ []
  | .writing _ _ => True

def wordsOf (b : Block) : List UInt16 := (List.range 256).map fun i => b.get16 (2 * i)

def wordByte (words : List UInt16) (i : Nat) : UInt8 :=
  if i % 2 = 0 then (words.getD (i / 2) 0).toUInt8 else (words.getD (i / 2) 0 >>> 8).toUInt8

def blockOf (words : List UInt16) : Block := fun i => wordByte words i

def command (drive : Drive) (a : Ata) (cmd : UInt8) : Ata :=
  if cmd = ataCmdReadPio then { a with phase := .reading (wordsOf (a.disk a.selected)) }
  else if cmd = ataCmdWritePio then { a with phase := .writing a.selected [] }
  else if cmd = ataCmdIdentify then { a with phase := .reading (List.ofFn drive.identify) }
  else a

def out8 (drive : Drive) (a : Ata) (port : UInt16) (val : UInt8) : Ata :=
  if port = ataPrimaryIo + ataRegSeccount0 then { a with seccount0 := val }
  else if port = ataPrimaryIo + ataRegLba0 then { a with lba0 := val }
  else if port = ataPrimaryIo + ataRegLba1 then { a with lba1 := val }
  else if port = ataPrimaryIo + ataRegLba2 then { a with lba2 := val }
  else if port = ataPrimaryIo + ataRegHddevsel then { a with hddevsel := val }
  else if port = ataPrimaryIo + ataRegCommand then a.command drive val
  else a

def in8 (drive : Drive) (a : Ata) (port : UInt16) : UInt8 :=
  if port = ataPrimaryIo + ataRegStatus ∨ port = ataPrimaryCtrl then drive.status a else 0

/-- The next word, and the drive behind it. -/
def in16 (a : Ata) (port : UInt16) : UInt16 × Ata :=
  if port = ataPrimaryIo + ataRegData then
    match a.phase with
    | .reading (word :: rest) => (word, { a with phase := .reading rest })
    | _ => (0, a)
  else (0, a)

/-- The sector is stored when its last word is there. -/
def out16 (a : Ata) (port : UInt16) (val : UInt16) : Ata :=
  if port = ataPrimaryIo + ataRegData then
    match a.phase with
    | .writing sector got =>
        if got.length = 255 then
          { a with phase := .idle, disk := assign a.disk sector (blockOf (got ++ [val])) }
        else { a with phase := .writing sector (got ++ [val]) }
    | _ => a
  else a

end Ata

/-- The drive is never busy and knows no errors, and it asks for the words there are. -/
structure Drive.Ready (drive : Drive) : Prop where
  idle : ∀ a, drive.status a &&& 0x80 = 0
  noError : ∀ a, drive.status a &&& 0x01 = 0
  request : ∀ a, a.Transferring → drive.status a &&& 0x08 ≠ 0

/-! ## The driver -/

structure Bus where
  ata : Ata
  mem : Memory

def outb (drive : Drive) (port : UInt16) (val : UInt8) : Prog Bus Unit :=
  modify fun b => { b with ata := b.ata.out8 drive port val }

def inb (drive : Drive) (port : UInt16) : Prog Bus UInt8 := do
  let b ← get
  return b.ata.in8 drive port

def outw (port : UInt16) (val : UInt16) : Prog Bus Unit :=
  modify fun b => { b with ata := b.ata.out16 port val }

def inw (port : UInt16) : Prog Bus UInt16 := do
  let b ← get
  modify fun b => { b with ata := (b.ata.in16 port).2 }
  return (b.ata.in16 port).1

def ataIoWait (drive : Drive) : Prog Bus Unit := do
  let _ ← inb drive ataPrimaryCtrl
  let _ ← inb drive ataPrimaryCtrl
  let _ ← inb drive ataPrimaryCtrl
  let _ ← inb drive ataPrimaryCtrl

/-- The loop of `ata_wait_not_busy`; the number counts the rounds that are left. -/
def ataWaitNotBusy (drive : Drive) : Nat → Prog Bus Unit
  | 0 => refuse
  | rounds + 1 => do
      let status ← inb drive (ataPrimaryIo + ataRegStatus)
      if status = 0xFF then refuse
      else if status &&& 0x80 = 0 then require (status &&& 0x01 = 0)
      else ataWaitNotBusy drive rounds

/-- The loop of `ata_wait_drq`. -/
def ataWaitDrq (drive : Drive) : Nat → Prog Bus Unit
  | 0 => refuse
  | rounds + 1 => do
      let status ← inb drive (ataPrimaryIo + ataRegStatus)
      if status = 0xFF then refuse
      else if status &&& 0x01 ≠ 0 then refuse
      else if status &&& 0x80 = 0 ∧ status &&& 0x08 ≠ 0 then return ()
      else ataWaitDrq drive rounds

def ataWaitRounds : Nat := 0x4000

def ataSelectDrive (drive : Drive) (lba : UInt32) : Prog Bus Unit := do
  outb drive (ataPrimaryIo + ataRegHddevsel) ((0xE0 : UInt32) ||| ((lba >>> 24) &&& 0x0F)).toUInt8
  ataIoWait drive

/-- The lines up to the first word, which reading and writing have in common. -/
def ataStart (drive : Drive) (lba : UInt32) (cmd : UInt8) : Prog Bus Unit := do
  ataSelectDrive drive lba
  outb drive (ataPrimaryIo + ataRegSeccount0) 1
  outb drive (ataPrimaryIo + ataRegLba0) (lba &&& 0xFF).toUInt8
  outb drive (ataPrimaryIo + ataRegLba1) ((lba >>> 8) &&& 0xFF).toUInt8
  outb drive (ataPrimaryIo + ataRegLba2) ((lba >>> 16) &&& 0xFF).toUInt8
  outb drive (ataPrimaryIo + ataRegCommand) cmd
  ataIoWait drive
  ataWaitDrq drive ataWaitRounds

/-- `buffer[0] = ..; buffer[1] = ..; buffer += 2`, so many words; the buffer moves on. -/
def readWords : Nat → Nat → Prog Bus Nat
  | 0, buffer => pure buffer
  | words + 1, buffer => do
      let data ← inw (ataPrimaryIo + ataRegData)
      modify fun b => { b with mem := b.mem.store8 buffer (data &&& 0xFF).toUInt8 }
      modify fun b => { b with mem := b.mem.store8 (buffer + 1) (data >>> 8).toUInt8 }
      readWords words (buffer + 2)

def writeWords : Nat → Nat → Prog Bus Nat
  | 0, buffer => pure buffer
  | words + 1, buffer => do
      let b ← get
      let data := (b.mem.load8 buffer).toUInt16 ||| ((b.mem.load8 (buffer + 1)).toUInt16 <<< 8)
      outw (ataPrimaryIo + ataRegData) data
      writeWords words (buffer + 2)

/-- The loop over the sectors; `lba` and `buffer` go along. -/
def ataReadLoop (drive : Drive) : Nat → UInt32 → Nat → Prog Bus Unit
  | 0, _, _ => pure ()
  | sectors + 1, lba, buffer => do
      ataStart drive lba ataCmdReadPio
      let buffer ← readWords 256 buffer
      ataReadLoop drive sectors (lba + 1) buffer

def ataReadSectors (drive : Drive) (lba : UInt32) (buffer : Nat) (sectorCount : UInt32) :
    Prog Bus Unit :=
  if sectorCount = 0 then pure () else ataReadLoop drive sectorCount.toNat lba buffer

def ataWriteLoop (drive : Drive) : Nat → UInt32 → Nat → Prog Bus Unit
  | 0, _, _ => pure ()
  | sectors + 1, lba, buffer => do
      ataStart drive lba ataCmdWritePio
      let buffer ← writeWords 256 buffer
      outb drive (ataPrimaryIo + ataRegCommand) ataCmdCacheFlush
      ataIoWait drive
      ataWaitNotBusy drive ataWaitRounds
      ataWriteLoop drive sectors (lba + 1) buffer

def ataWriteSectors (drive : Drive) (lba : UInt32) (buffer : Nat) (sectorCount : UInt32) :
    Prog Bus Unit :=
  if sectorCount = 0 then pure () else ataWriteLoop drive sectorCount.toNat lba buffer

/-- `for (i = 0; i < 256; i++) data[i] = inw(..);` -/
def identifyWords : Nat → List UInt16 → Prog Bus (List UInt16)
  | 0, data => pure data
  | words + 1, data => do
      let word ← inw (ataPrimaryIo + ataRegData)
      identifyWords words (data ++ [word])

/-- The number of sectors that 256 identification words tell: the 48-bit one if there
is one. -/
def sectorsOf (data : List UInt16) : UInt64 :=
  let sectors28 : UInt32 := (data.getD 60 0).toUInt32 ||| ((data.getD 61 0).toUInt32 <<< 16)
  let sectors48 : UInt64 := (data.getD 100 0).toUInt64 ||| ((data.getD 101 0).toUInt64 <<< 16) |||
    ((data.getD 102 0).toUInt64 <<< 32) ||| ((data.getD 103 0).toUInt64 <<< 48)
  if sectors48 ≠ 0 then sectors48 else sectors28.toUInt64

def ataGetSectorCount (drive : Drive) : Prog Bus UInt64 := do
  outb drive (ataPrimaryIo + ataRegHddevsel) 0xA0
  ataIoWait drive
  outb drive (ataPrimaryIo + ataRegSeccount0) 0
  outb drive (ataPrimaryIo + ataRegLba0) 0
  outb drive (ataPrimaryIo + ataRegLba1) 0
  outb drive (ataPrimaryIo + ataRegLba2) 0
  outb drive (ataPrimaryIo + ataRegCommand) ataCmdIdentify
  ataIoWait drive
  let status ← inb drive (ataPrimaryIo + ataRegStatus)
  require (¬ (status = 0 ∨ status = 0xFF))
  ataWaitDrq drive ataWaitRounds
  let data ← identifyWords 256 []
  require (sectorsOf data ≠ 0)
  return sectorsOf data

end SevenOS
