import SevenOS.Lib.CStr
import SevenOS.Lib.Prog
import SevenOS.Heap.Kheap

/-! # Strings and lists on the heap

`new`, `delete` and the classes `String` and `ArrayList` over `kmalloc` and
`kfree`. The characters of a string and the elements of a list are kept beside the
pointer to their buffer; what is followed is which buffers are allocated. No caller
compares a new pointer with null before it writes: a run stops at a null one.
-/

namespace SevenOS

open Prog

/-- Programs on the heap. -/
abbrev HeapProg (α : Type) := Prog HeapRun α

/-- `operator new[]`, up to the first write through the pointer. -/
def newBytes (area : HeapArea) (size : Nat) : HeapProg Nat := fun r =>
  match Kheap.kmalloc area r.heap (UInt32.ofNat size) with
  | none => (.diverged, r)
  | some (h, ptr) =>
      if ptr = 0 then (.refused, ⟨h, r.live⟩)
      else (.ok ptr, ⟨h, ⟨ptr, UInt32.ofNat size⟩ :: r.live⟩)

/-- `operator delete[]` -/
def deleteBytes (ptr : Nat) : HeapProg Unit :=
  modify fun r => ⟨Kheap.kfree r.heap ptr, r.live.eraseP (·.ptr = ptr)⟩

/-! ## ArrayList -/

/-- `ArrayList<T>`: its buffer, null or allocated, its elements and its capacity. -/
structure ArrayList (α : Type) where
  data : Nat
  elems : List α
  cap : Nat

namespace ArrayList

variable {α : Type}

def new : ArrayList α := ⟨0, [], 0⟩

/-- `if (data) kfree(data);` -/
def freeData (list : ArrayList α) : HeapProg Unit :=
  if list.data ≠ 0 then deleteBytes list.data else pure ()

/-- `grow`, where `width` is `sizeof(T)`: the elements are assigned member by member. -/
def grow (area : HeapArea) (width : Nat) (list : ArrayList α) (newCap : Nat) :
    HeapProg (ArrayList α) := do
  let newData ← newBytes area (width * newCap)
  list.freeData
  pure ⟨newData, list.elems, newCap⟩

def pushBack (area : HeapArea) (width : Nat) (list : ArrayList α) (value : α) :
    HeapProg (ArrayList α) := do
  let list ←
    if list.elems.length + 1 > list.cap then
      list.grow area width (if list.cap = 0 then 4 else list.cap * 2)
    else pure list
  pure { list with elems := list.elems ++ [value] }

/-- `~ArrayList` -/
def destroy (list : ArrayList α) : HeapProg Unit := list.freeData

end ArrayList

/-! ## String -/

/-- `String`: its buffer and the characters in it. -/
structure KString where
  data : Nat
  chars : List UInt8

namespace KString

def len (s : KString) : Nat := s.chars.length

/-- What `c_str` points at. -/
def cStr (s : KString) : CStr := CStr.ofBytes s.chars

variable (area : HeapArea)

/-- `String()` -/
def new : HeapProg KString := do
  let data ← newBytes area 1
  pure ⟨data, []⟩

/-- `String(const char*)` -/
def ofChars (s : CStr) : HeapProg KString := do
  let data ← newBytes area (s.length + 1)
  pure ⟨data, s.chars⟩

/-- `String(const String&)` -/
def copy (other : KString) : HeapProg KString := do
  let data ← newBytes area (other.len + 1)
  pure ⟨data, other.chars⟩

/-- `~String`, whose body is empty. -/
def destroy (_ : KString) : HeapProg Unit := pure ()

/-- The old buffer is forgotten, not deleted. -/
def append (s : KString) (c : UInt8) : HeapProg KString := do
  let newData ← newBytes area (s.len + 2)
  pure ⟨newData, s.chars ++ [c]⟩

def popBack (s : KString) : KString := ⟨s.data, s.chars.dropLast⟩

/-- `operator+=(char)` -/
def addChar (s : KString) (c : UInt8) : HeapProg KString := do
  let newData ← newBytes area (s.len + 2)
  deleteBytes s.data
  pure ⟨newData, s.chars ++ [c]⟩

/-- `operator+=(const String&)` -/
def addString (s other : KString) : HeapProg KString := do
  let newData ← newBytes area (s.len + other.len + 1)
  deleteBytes s.data
  pure ⟨newData, s.chars ++ other.chars⟩

/-- `sizeof(String)`: a pointer and a length. -/
def bytes : Nat := 8

/-- The end of a segment in `split`. -/
def splitPart (segment : List UInt8) (parts : ArrayList KString) :
    HeapProg (ArrayList KString) :=
  if segment = [] then pure parts
  else do
    let temp ← newBytes area (segment.length + 1)
    let part ← ofChars area (CStr.ofBytes segment)
    deleteBytes temp
    let parts ← parts.pushBack area bytes part
    part.destroy
    pure parts

/-- The loop of `split`: `segment` is what stands since `start`. -/
def splitFrom (delimiter : UInt8) : List UInt8 → List UInt8 → ArrayList KString →
    HeapProg (ArrayList KString)
  | [], segment, parts => splitPart area segment parts
  | c :: rest, segment, parts =>
      if c = delimiter then do
        let parts ← splitPart area segment parts
        splitFrom delimiter rest [] parts
      else splitFrom delimiter rest (segment ++ [c]) parts

def split (s : KString) (delimiter : UInt8) : HeapProg (ArrayList KString) :=
  splitFrom area delimiter s.chars [] .new

end KString

/-! ## A scope with strings -/

/-- What is done to the strings of a scope, each known by its number. -/
inductive StringOp where
  | new
  | ofChars (s : CStr)
  | copy (i : Nat)
  | append (i : Nat) (c : UInt8)
  | addChar (i : Nat) (c : UInt8)
  | addString (i j : Nat)
  | popBack (i : Nat)

namespace StringOp

/-- A string that is not copied from another. -/
def makes : StringOp → Bool
  | new | ofChars _ => true
  | _ => false

/-- Change one string; without one of this number there is nothing to do. -/
def update (strings : List KString) (i : Nat) (f : KString → HeapProg KString) :
    HeapProg (List KString) :=
  match strings[i]? with
  | none => pure strings
  | some s => do
      let s ← f s
      pure (strings.set i s)

def construct (strings : List KString) (m : HeapProg KString) : HeapProg (List KString) := do
  let s ← m
  pure (strings ++ [s])

def run (area : HeapArea) (strings : List KString) : StringOp → HeapProg (List KString)
  | new => construct strings (KString.new area)
  | ofChars s => construct strings (KString.ofChars area s)
  | copy i =>
      match strings[i]? with
      | none => pure strings
      | some s => construct strings (KString.copy area s)
  | append i c => update strings i fun s => s.append area c
  | addChar i c => update strings i fun s => s.addChar area c
  | addString i j =>
      match strings[j]? with
      | none => pure strings
      | some other => update strings i fun s => s.addString area other
  | popBack i => update strings i fun s => pure s.popBack

/-- A scope from its first line to the destructors at its end. -/
def scope (area : HeapArea) (ops : List StringOp) : HeapProg Unit := do
  let strings ← ops.foldlM (run area) []
  strings.foldlM (fun _ s => s.destroy) ()

end StringOp

end SevenOS
