import SevenOS.Lib.Bytes

/-! # The interrupt table

`idt_install` fills the table the processor finds its handlers in and sets up the two
interrupt controllers. What it sends them is taken in as their data sheet has it: a
command that starts over, the words of the initialization in their order, and from
then on the mask.
-/

namespace SevenOS

/-! ## Gates -/

structure IdtEntry where
  baseLow : UInt16
  sel : UInt16
  always0 : UInt8
  flags : UInt8
  baseHigh : UInt16

def IdtEntry.bytes (e : IdtEntry) : List UInt8 :=
  Bytes.bytesOf16 e.baseLow ++ Bytes.bytesOf16 e.sel ++ [e.always0, e.flags] ++
    Bytes.bytesOf16 e.baseHigh

/-- What the processor takes out of the eight bytes. -/
structure Gate where
  offset : UInt32
  selector : UInt16
  type : UInt8
  privilege : UInt8
  present : Bool
  deriving DecidableEq

def Gate.ofBytes (bytes : List UInt8) : Gate where
  offset := Bytes.word32 (bytes.getD 0 0) (bytes.getD 1 0) (bytes.getD 6 0) (bytes.getD 7 0)
  selector := Bytes.word16 (bytes.getD 2 0) (bytes.getD 3 0)
  type := bytes.getD 5 0 &&& 0x1F
  privilege := (bytes.getD 5 0 >>> 5) &&& 3
  present := bytes.getD 5 0 &&& 0x80 != 0

/-! ## Controllers -/

/-- The words of an initialization that go through the data port. -/
inductive Icw where
  | offset
  | wiring
  | mode
  deriving DecidableEq

structure Pic where
  awaits : List Icw
  offset : UInt8
  wiring : UInt8
  mode : UInt8
  mask : UInt8

namespace Pic

/-- Bit 4 starts over; without bit 1 a wiring follows, with bit 0 a mode. -/
def command (p : Pic) (val : UInt8) : Pic :=
  if val &&& 0x10 = 0 then p
  else
    { p with
      awaits := .offset :: (if val &&& 2 = 0 then [.wiring] else []) ++
        if val &&& 1 = 0 then [] else [.mode]
      mask := 0 }

def data (p : Pic) (val : UInt8) : Pic :=
  match p.awaits with
  | [] => { p with mask := val }
  | .offset :: rest => { p with awaits := rest, offset := val &&& 0xF8 }
  | .wiring :: rest => { p with awaits := rest, wiring := val }
  | .mode :: rest => { p with awaits := rest, mode := val }

end Pic

/-- What `idt_install` touches. -/
structure Arch where
  idt : UInt8 → IdtEntry
  idtLimit : UInt16
  idtBase : UInt32
  /-- The register that `lidt` loads. -/
  idtr : UInt16 × UInt32
  master : Pic
  slave : Pic

/-- Where the linker put the handlers and the table. -/
structure Symbols where
  dummyHandler : UInt32
  pitWrapper : UInt32
  keyboardHandler : UInt32
  idt : UInt32

namespace Arch

def outb (a : Arch) (port : UInt16) (val : UInt8) : Arch :=
  if port = 0x20 then { a with master := a.master.command val }
  else if port = 0x21 then { a with master := a.master.data val }
  else if port = 0xA0 then { a with slave := a.slave.command val }
  else if port = 0xA1 then { a with slave := a.slave.data val }
  else a

def idtSetGate (a : Arch) (num : UInt8) (base : UInt32) (sel : UInt16) (flags : UInt8) : Arch :=
  { a with
    idt := assign a.idt num
      ⟨(base &&& 0xFFFF).toUInt16, sel, 0, flags, ((base >>> 16) &&& 0xFFFF).toUInt16⟩ }

/-- `for (i = 0; i < count; i++) idt_set_gate(i, ..)` -/
def setGates (a : Arch) (base : UInt32) (count : Nat) : Arch :=
  (List.range count).foldl (fun a i => a.idtSetGate (UInt8.ofNat i) base 0x08 0x8E) a

def idtInstall (symbols : Symbols) (a : Arch) : Arch :=
  let a := { a with idtLimit := 8 * 256 - 1, idtBase := symbols.idt }
  let a := a.setGates symbols.dummyHandler 256
  let a := (a.outb 0x20 0x11).outb 0xA0 0x11
  let a := (a.outb 0x21 0x20).outb 0xA1 0x28
  let a := (a.outb 0x21 0x04).outb 0xA1 0x02
  let a := (a.outb 0x21 0x01).outb 0xA1 0x01
  let a := a.outb 0x21 0xFE
  let a := a.outb 0xA1 0xFF
  let a := a.idtSetGate 32 symbols.pitWrapper 0x08 0x8E
  let a := a.idtSetGate 33 symbols.keyboardHandler 0x08 0x8E
  { a with idtr := (a.idtLimit, a.idtBase) }

/-! ## An interrupt -/

/-- The vector an interrupt line raises, if it is not masked; the lines of the second
controller come in through line 2 of the first. -/
def raises (a : Arch) (irq : Nat) : Option UInt8 :=
  if irq < 8 then
    if a.master.mask.toNat.testBit irq then none else some (a.master.offset + UInt8.ofNat irq)
  else if a.master.mask.toNat.testBit 2 ∨ a.slave.mask.toNat.testBit (irq - 8) then none
  else some (a.slave.offset + UInt8.ofNat (irq - 8))

/-- The gate of a vector, when the whole of it lies in the table that is loaded. -/
def gate (a : Arch) (vector : UInt8) : Option Gate :=
  if 8 * vector.toNat + 7 ≤ a.idtr.1.toNat then some (.ofBytes (a.idt vector).bytes) else none

variable {a : Arch} {symbols : Symbols}

theorem setGates_succ (base : UInt32) (count : Nat) :
    a.setGates base (count + 1) =
      (a.setGates base count).idtSetGate (UInt8.ofNat count) base 0x08 0x8E := by
  rw [setGates, List.range_succ, List.foldl_append]
  rfl

/-- The loop changes the table and nothing else. -/
theorem setGates_eq (base : UInt32) {count : Nat} (h : count ≤ 256) : a.setGates base count =
    { a with
      idt := fun v => if v.toNat < count then
        ⟨(base &&& 0xFFFF).toUInt16, 0x08, 0, 0x8E, ((base >>> 16) &&& 0xFFFF).toUInt16⟩
        else a.idt v } := by
  induction count with
  | zero => simp [setGates]
  | succ count ih =>
      rw [setGates_succ, ih (by omega), idtSetGate]
      congr 1
      funext v
      have hv : v = UInt8.ofNat count ↔ v.toNat = count := by
        rw [← UInt8.toNat_inj, UInt8.toNat_ofNat', Nat.mod_eq_of_lt (by omega)]
      rw [assign_apply]
      simp only [hv]
      by_cases heq : v.toNat = count
      · rw [if_pos heq, if_pos (by omega)]
      · rw [if_neg heq]
        by_cases hlt : v.toNat < count
        · rw [if_pos hlt, if_pos (by omega)]
        · rw [if_neg hlt, if_neg (by omega)]

theorem ofBytes_bytes (base : UInt32) (sel : UInt16) (flags : UInt8) :
    Gate.ofBytes (IdtEntry.bytes ⟨(base &&& 0xFFFF).toUInt16, sel, 0, flags,
      ((base >>> 16) &&& 0xFFFF).toUInt16⟩) =
      ⟨base, sel, flags &&& 0x1F, (flags >>> 5) &&& 3, flags &&& 0x80 != 0⟩ := by
  have hlow : (base &&& 0xFFFF).toUInt16.toNat = base.toNat % 65536 := by
    rw [UInt32.toNat_toUInt16, UInt32.toNat_and]
    have hmask := Nat.and_two_pow_sub_one_eq_mod base.toNat 16
    change base.toNat &&& 65535 = _ at hmask
    change (base.toNat &&& 65535) % 65536 = _
    omega
  have hhigh : ((base >>> 16) &&& 0xFFFF).toUInt16.toNat = base.toNat / 65536 := by
    have hshift : (base >>> 16).toNat = base.toNat / 65536 := by
      rw [UInt32.toNat_shiftRight, Nat.shiftRight_eq_div_pow]
      rfl
    rw [UInt32.toNat_toUInt16, UInt32.toNat_and, hshift]
    have hmask := Nat.and_two_pow_sub_one_eq_mod (base.toNat / 65536) 16
    change base.toNat / 65536 &&& 65535 = _ at hmask
    have hlt := base.toNat_lt
    change (base.toNat / 65536 &&& 65535) % 65536 = _
    omega
  have hoffset : Bytes.word32 (base &&& 0xFFFF).toUInt16.toUInt8
      (UInt8.ofNat ((base &&& 0xFFFF).toUInt16.toNat / 256))
      ((base >>> 16) &&& 0xFFFF).toUInt16.toUInt8
      (UInt8.ofNat (((base >>> 16) &&& 0xFFFF).toUInt16.toNat / 256)) = base := by
    have hlt := base.toNat_lt
    apply UInt32.toNat.inj
    rw [hlow, hhigh, Bytes.word32]
    simp only [UInt8.toNat_ofNat', UInt16.toNat_toUInt8, UInt32.toNat_ofNat', hlow, hhigh]
    omega
  have hsel := Bytes.word16_bytesOf16 sel
  simp only [Gate.ofBytes, Gate.mk.injEq]
  exact ⟨hoffset, hsel, rfl, rfl, rfl⟩

/-- What an interrupt comes to: with any mask that is stored from then on a line of the first
controller raises its own vector, the second one stays shut, and behind each vector there is
the handler meant for it. -/
theorem idtInstall_dispatches (symbols : Symbols) (a : Arch) :
    (∀ vector, (idtInstall symbols a).gate vector = some ⟨if vector = 32 then symbols.pitWrapper
        else if vector = 33 then symbols.keyboardHandler else symbols.dummyHandler,
      0x08, 0x0E, 0, true⟩) ∧
    (idtInstall symbols a).idtr.2 = symbols.idt ∧ (idtInstall symbols a).master.mask = 0xFE ∧
    ∀ mask irq, irq < 16 → ((idtInstall symbols a).outb 0x21 mask).raises irq =
      if irq < 8 ∧ mask.toNat.testBit irq = false then some (32 + UInt8.ofNat irq) else none := by
  have hgate : ∀ base : UInt32, Gate.ofBytes (IdtEntry.bytes ⟨(base &&& 0xFFFF).toUInt16, 0x08, 0,
      0x8E, ((base >>> 16) &&& 0xFFFF).toUInt16⟩) = ⟨base, 0x08, 0x0E, 0, true⟩ := fun base =>
    ofBytes_bytes base 0x08 0x8E
  have hloop := fun a : Arch => setGates_eq (a := a) symbols.dummyHandler (Nat.le_refl 256)
  refine ⟨fun vector => ?_, ?_, ?_, fun mask irq hirq => ?_⟩
  · have hlt := vector.toNat_lt
    have htable : (idtInstall symbols a).idt vector = ⟨((if vector = 32 then symbols.pitWrapper
        else if vector = 33 then symbols.keyboardHandler else symbols.dummyHandler) &&&
          0xFFFF).toUInt16, 0x08, 0, 0x8E, (((if vector = 32 then symbols.pitWrapper
        else if vector = 33 then symbols.keyboardHandler else symbols.dummyHandler) >>> 16) &&&
          0xFFFF).toUInt16⟩ := by
      simp only [idtInstall, hloop, outb, idtSetGate, assign_apply]
      by_cases h33 : vector = 33
      · subst h33
        rfl
      · by_cases h32 : vector = 32
        · subst h32
          rfl
        · simp [h32, h33, hlt]
    have hlimit : (idtInstall symbols a).idtr.1.toNat = 2047 := by
      simp only [idtInstall, hloop]
      rfl
    rw [gate, hlimit, if_pos (by omega), htable, hgate]
  · simp only [idtInstall, hloop]
    rfl
  · simp only [idtInstall, hloop]
    rfl
  · have hraises : ((idtInstall symbols a).outb 0x21 mask).raises irq =
        if irq < 8 then
          if mask.toNat.testBit irq then none else some (0x20 + UInt8.ofNat irq)
        else if mask.toNat.testBit 2 ∨ (0xFF : UInt8).toNat.testBit (irq - 8) then none
        else some (0x28 + UInt8.ofNat (irq - 8)) := by
      simp only [idtInstall, hloop]
      rfl
    rw [hraises]
    by_cases hfirst : irq < 8
    · rw [if_pos hfirst]
      cases mask.toNat.testBit irq with
      | true => rw [if_pos rfl, if_neg fun h => absurd h.2 (by decide)]
      | false =>
          rw [if_neg (by decide), if_pos ⟨hfirst, rfl⟩]
    · have hshut : ∀ n, n < 8 → (0xFF : UInt8).toNat.testBit n = true := by decide
      rw [if_neg hfirst, if_pos (.inr (hshut _ (by omega))), if_neg fun h => hfirst h.1]

end Arch

end SevenOS
