import Mathlib.Data.List.FinRange
import SevenOS.FileSystem.State

/-! # Directory blocks

Sixteen entries of `used`, `inode` and `name[30]`, read and written in place.
A name is the C string at its offset: an entry without a terminator runs on
into the next one, as `str_equals` does.
-/

namespace SevenOS

open Prog

def slots : List Slot := List.finRange 16

@[simp] theorem mem_slots (i : Slot) : i ∈ slots := List.mem_finRange i

/-- `inode < 0 || inode >= FS_MAX_INODES` excludes everything this does not give. -/
def inodeIndex (n : UInt8) : Option InodeNo := if h : n.toNat < 64 then some ⟨n.toNat, h⟩ else none

def entryUsed (b : Block) (i : Slot) : Bool := b.at_ (32 * i.val) != 0
def entryInode (b : Block) (i : Slot) : UInt8 := b.at_ (32 * i.val + 1)
def entryName (b : Block) (i : Slot) : CStr := b.cstr (32 * i.val + 2)

def dirEntry (b : Block) (i : Slot) : DirEntry where
  used := b.at_ (32 * i.val)
  inode := b.at_ (32 * i.val + 1)
  name := fun j => b.at_ (32 * i.val + 2 + j.val)

/-- `mem_set(&entries[i], 0, sizeof(DirEntry))`. -/
def clearEntry (b : Block) (i : Slot) : Block := b.fill (32 * i.val) 32 0

/-- `mem_copy(entries[i].name, name, str_len(name))`: it copies all of `name`. -/
def copyName (b : Block) (i : Slot) (name : CStr) : Block := b.paste (32 * i.val + 2) name.chars

/-- Clear an entry, mark it used, and store inode number and name. -/
def fillEntry (b : Block) (i : Slot) (inode : InodeNo) (name : CStr) : Block :=
  copyName ((((clearEntry b i).put (32 * i.val) 1)).put (32 * i.val + 1) (UInt8.ofNat inode.val)) i
    name

/-- Write a new name over an entry: clear the 30 bytes, then copy. -/
def renameEntry (b : Block) (i : Slot) (name : CStr) : Block :=
  copyName (b.fill (32 * i.val + 2) 30 0) i name

/-- Does entry `i` carry this name? -/
def nameMatches (b : Block) (name : CStr) (i : Slot) : Bool :=
  CStr.equals (entryName b i).chars name.chars

/-- `g_inodes[inode].used && g_inodes[inode].type == type` -/
def isLive (inodes : InodeNo → Inode) (type : UInt8) (k : InodeNo) : Bool :=
  (inodes k).used != 0 && (inodes k).type == type

/-- `find_dir_entry`, with the type that its callers pass. -/
def findDirEntry (name : CStr) (b : Block) (inodes : InodeNo → Inode) (type : UInt8) :
    Option Slot :=
  slots.find? fun i => entryUsed b i && nameMatches b name i &&
    match inodeIndex (entryInode b i) with
    | none => false
    | some k => (inodes k).used != 0 && (type == 0 || (inodes k).type == type)

/-- `if (!entries[i].used) { free_slot = i; break; }` -/
def firstFreeSlot (b : Block) : Option Slot := slots.find? fun i => !entryUsed b i

inductive Scan where
  | bad
  | found (slot : Slot) (inode : InodeNo)
  | absent (freeSlot : Option Slot)
  deriving DecidableEq

/-- The scan loop of the operations: stop at an entry of this name whose inode
number `bad` rejects, or whose inode is live and of this type; remember the first
free slot on the way. -/
def scanFrom (bad : UInt8 → Bool) (name : CStr) (type : UInt8) (b : Block)
    (inodes : InodeNo → Inode) : List Slot → Option Slot → Scan
  | [], free => .absent free
  | i :: rest, free =>
      if entryUsed b i then
        if nameMatches b name i then
          if bad (entryInode b i) then .bad
          else
            match inodeIndex (entryInode b i) with
            | none => scanFrom bad name type b inodes rest free
            | some k =>
                if isLive inodes type k then .found i k
                else scanFrom bad name type b inodes rest free
        else scanFrom bad name type b inodes rest free
      else scanFrom bad name type b inodes rest (free.or (some i))

def scanEntries (bad : UInt8 → Bool) (name : CStr) (type : UInt8) (b : Block)
    (inodes : InodeNo → Inode) : Scan :=
  scanFrom bad name type b inodes slots none

/-- `inode < 0 || inode >= FS_MAX_INODES` -/
def outOfTable (n : UInt8) : Bool := 64 ≤ n.toNat

/-- `inode <= 0 || inode >= FS_MAX_INODES` -/
def rootOrOutOfTable (n : UInt8) : Bool := n == 0 || 64 ≤ n.toNat

/-- No inode number makes the scan give up. -/
def neverBad (_ : UInt8) : Bool := false

/-! ## Paths

Every operation splits its path at the first `/` by the same lines: the part
before it is cut to 29 characters, the rest is taken as it is.
-/

def slash : UInt8 := 47

/-- `while (path[sep] && path[sep] != '/') sep++;` -/
def pathSep (path : CStr) : Nat := (path.chars.takeWhile (· ≠ slash)).length

/-- `path[sep] == '\0'`: nothing to split. Else the directory name and the rest. -/
def splitPath (path : CStr) : Option (CStr × CStr) :=
  if pathSep path = path.length then none
  else some (path.take (min (pathSep path) 29), path.drop (pathSep path + 1))

end SevenOS
