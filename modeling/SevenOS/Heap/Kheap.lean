import SevenOS.Lib.Memory

/-! # The kernel heap

`kmalloc` and `kfree` over the static array `heap`, whose place in the address
space is a parameter. Headers are read from and written to the bytes of memory at
the offsets the compiler gives the fields of `BlockHeader`; a pointer is an
address, null is 0.
-/

namespace SevenOS

/-- Where the linker put the array `heap`. -/
structure HeapArea where
  base : Nat
  pos : 0 < base
  fits : base + 65536 ≤ 2 ^ 32

structure BlockHeader where
  size : UInt32
  free : Bool
  next : Nat
  prev : Nat
  deriving DecidableEq, Repr

/-- `sizeof(heap)`. -/
def heapBytes : UInt32 := 1024 * 64

/-- `sizeof(BlockHeader)`: four bytes of size, the flag, three bytes of padding and two
pointers. -/
def headerBytes : UInt32 := 16

namespace Kheap

def header (m : Memory) (p : Nat) : BlockHeader where
  size := m.load32 p
  free := m.load8 (p + 4) != 0
  next := (m.load32 (p + 8)).toNat
  prev := (m.load32 (p + 12)).toNat

def setSize (m : Memory) (p : Nat) (v : UInt32) : Memory := m.store32 p v

def setFree (m : Memory) (p : Nat) (v : Bool) : Memory := m.store8 (p + 4) (if v then 1 else 0)

def setNext (m : Memory) (p v : Nat) : Memory := m.store32 (p + 8) (UInt32.ofNat v)

def setPrev (m : Memory) (p v : Nat) : Memory := m.store32 (p + 12) (UInt32.ofNat v)

end Kheap

/-- The memory and the static variable `heap_head`. -/
structure Kheap where
  memory : Memory
  heapHead : Nat

namespace Kheap

def align8 (size : UInt32) : UInt32 := (size + 7) &&& ~~~7

def heapInit (area : HeapArea) (h : Kheap) : Kheap :=
  if h.heapHead ≠ 0 then h
  else
    let head := area.base
    let m := setSize h.memory head (heapBytes - headerBytes)
    let m := setFree m head true
    let m := setNext m head 0
    let m := setPrev m head 0
    ⟨m, head⟩

/-- The block behind the first `size` bytes of the payload of `cur` becomes one of its own. -/
def splitBlock (m : Memory) (cur : Nat) (size : UInt32) : Memory :=
  let split := cur + 16 + size.toNat
  let m := setSize m split ((header m cur).size - size - headerBytes)
  let m := setFree m split true
  let m := setNext m split (header m cur).next
  let m := setPrev m split cur
  let m := if (header m split).next ≠ 0 then setPrev m (header m split).next split else m
  let m := setSize m cur size
  setNext m cur split

/-- What `kmalloc` does with the block it has found. -/
def takeBlock (m : Memory) (cur : Nat) (size : UInt32) : Memory :=
  let m :=
    if (header m cur).size ≥ size + headerBytes + 8 then splitBlock m cur size else m
  setFree m cur false

/-- The loop of `kmalloc`; `none` when it has not ended after `fuel` blocks. -/
def search (size : UInt32) : Nat → Memory → Nat → Option (Memory × Nat)
  | 0, _, _ => none
  | fuel + 1, m, cur =>
      if cur = 0 then some (m, 0)
      else if (header m cur).free = true ∧ (header m cur).size ≥ size then
        some (takeBlock m cur size, cur + 16)
      else search size fuel m (header m cur).next

/-- More than the number of headers the heap has room for. -/
def searchFuel : Nat := 4097

/-- The heap after the call and the pointer returned; `none` when the loop does not end. -/
def kmalloc (area : HeapArea) (h : Kheap) (size : UInt32) : Option (Kheap × Nat) :=
  if size = 0 then some (h, 0)
  else
    let h := heapInit area h
    let size := align8 size
    match search size searchFuel h.memory h.heapHead with
    | none => none
    | some (m, ptr) => some ({ h with memory := m }, ptr)

/-- The three lines by which `coalesce` makes `right` a part of `left`. -/
def absorb (m : Memory) (left right : Nat) : Memory :=
  let m := setSize m left ((header m left).size + (headerBytes + (header m right).size))
  let m := setNext m left (header m right).next
  if (header m left).next ≠ 0 then setPrev m (header m left).next left else m

def coalesce (m : Memory) (block : Nat) : Memory :=
  let m :=
    if (header m block).next ≠ 0 ∧ (header m (header m block).next).free = true then
      absorb m block (header m block).next
    else m
  if (header m block).prev ≠ 0 ∧ (header m (header m block).prev).free = true then
    absorb m (header m block).prev block
  else m

def kfree (h : Kheap) (ptr : Nat) : Kheap :=
  if ptr = 0 then h
  else
    let block := ptr - 16
    let m := setFree h.memory block true
    { h with memory := coalesce m block }

end Kheap

/-! ## Sequences of calls -/

inductive HeapCall where
  | kmalloc (size : UInt32)
  | kfree (ptr : Nat)

/-- A pointer that `kmalloc` returned, and for which size. -/
structure Allocation where
  ptr : Nat
  asked : UInt32
  deriving DecidableEq, Repr

/-- The heap and the allocations not yet freed. -/
structure HeapRun where
  heap : Kheap
  live : List Allocation

namespace HeapRun

def step (area : HeapArea) (r : HeapRun) : HeapCall → Option HeapRun
  | .kmalloc size =>
      match Kheap.kmalloc area r.heap size with
      | none => none
      | some (h, ptr) => some ⟨h, if ptr = 0 then r.live else ⟨ptr, size⟩ :: r.live⟩
  | .kfree ptr => some ⟨Kheap.kfree r.heap ptr, r.live.eraseP (·.ptr = ptr)⟩

def run (area : HeapArea) (r : HeapRun) : List HeapCall → Option HeapRun
  | [] => some r
  | call :: calls =>
      match r.step area call with
      | none => none
      | some r' => run area r' calls

/-- Only pointers currently allocated are freed. -/
def Legal (area : HeapArea) (r : HeapRun) : List HeapCall → Prop
  | [] => True
  | call :: calls =>
      (∀ ptr, call = .kfree ptr → ∃ a ∈ r.live, a.ptr = ptr) ∧
        ∀ r', r.step area call = some r' → Legal area r' calls

/-- At power on `heap_head` is null and nothing is allocated. -/
def start (m : Memory) : HeapRun := ⟨⟨m, 0⟩, []⟩

end HeapRun

end SevenOS
