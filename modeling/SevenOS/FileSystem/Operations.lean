import SevenOS.FileSystem.Mount

/-! # Exported operations

The calls the shell makes. Each has a variant for a name in the root directory
and one for a name in a top-level directory; the two were written separately
and keep their own order of checks.
-/

namespace SevenOS

open Prog

/-- `root->used == 0 || root->direct[0] == 0` refuses. -/
def rootReadable (v : Volume) : Prop := (v.inodes 0).used ≠ 0 ∧ (v.inodes 0).direct0 ≠ 0

instance (v : Volume) : Decidable (rootReadable v) := inferInstanceAs (Decidable (_ ∧ _))

/-- Look a top-level directory up in `g_block_scratch`. -/
def lookupDir (dirname : CStr) : FsM InodeNo := do
  let s ← get
  let dirEntry ← demand (findDirEntry dirname s.blockScratch s.inodes inodeDir)
  demand (inodeIndex (entryInode s.blockScratch dirEntry))

/-! ## Listing and lookup -/

def listEntries (b : Block) (maxEntries : UInt32) : List DirEntry :=
  ((slots.filter (entryUsed b)).take maxEntries.toNat).map (dirEntry b)

def fsListRoot (dev : Device) (maxEntries : UInt32) : FsM (List DirEntry) := do
  let s ← get
  require s.mounted
  if maxEntries = 0 then return []
  if ¬ isDirInode s.toVolume 0 then return []
  let block ← diskReadLba dev 512 (s.sectorOf 0)
  return listEntries block maxEntries

def fsListDir (dev : Device) (dirname : CStr) (maxEntries : UInt32) : FsM (List DirEntry) := do
  let s ← get
  require s.mounted
  if maxEntries = 0 then return []
  require (rootReadable s.toVolume)
  loadScratch dev (s.sectorOf 0)
  let dirInode ← lookupDir dirname
  let s ← get
  require ((s.inodes dirInode).direct0 ≠ 0)
  loadScratch2 dev (s.sectorOf dirInode)
  let s ← get
  return listEntries s.blockScratch2 maxEntries

def fsIsDir (dev : Device) (path : CStr) : FsM Unit := do
  let s ← get
  require s.mounted
  require (path ≠ CStr.empty)
  require (rootReadable s.toVolume)
  loadScratch dev (s.sectorOf 0)
  match splitPath path with
  | none =>
      let s ← get
      require ((findDirEntry path s.blockScratch s.inodes inodeDir).isSome)
  | some (parent, child) =>
      require (child ≠ CStr.empty)
      let parentInode ← lookupDir parent
      let s ← get
      require ((s.inodes parentInode).direct0 ≠ 0)
      loadScratch2 dev (s.sectorOf parentInode)
      let s ← get
      require ((findDirEntry child s.blockScratch2 s.inodes inodeDir).isSome)

/-! ## Creation -/

/-- `fs_mkdir` and `fs_create` up to the point where nothing can be refused any
more: a free inode, a free block, the root block and a free slot in it. -/
def prepareEntry (dev : Device) (name : CStr) (type : UInt8) :
    FsM (InodeNo × UInt32 × Block × Slot) := do
  let s ← get
  require s.mounted
  require (name ≠ CStr.empty)
  require (name.length < 30)
  ensureRootDirBlock dev
  let s ← get
  let inode ← demand (findFreeInode s.toVolume)
  let block ← demand (findFreeBlock s.toVolume)
  let dirBlock ← diskReadLba dev 512 (s.sectorOf 0)
  match scanEntries outOfTable name type dirBlock s.inodes with
  | .bad => refuse
  | .found _ _ => refuse
  | .absent freeSlot =>
      let freeSlot ← demand freeSlot
      return (inode, block, dirBlock, freeSlot)

def fsMkdir (dev : Device) (name : CStr) : FsM Unit := do
  let (inode, block, dirBlock, freeSlot) ← prepareEntry dev name inodeDir
  markBlockUsed block
  modifyInode inode fun ino => ino.fresh inodeDir 0 block
  let s ← get
  diskWriteLba dev 512 (s.dataSector block) Bytes.zero
  diskWriteLba dev 512 (s.sectorOf 0) (fillEntry dirBlock freeSlot inode name)
  flushTables dev

def fsCreate (dev : Device) (name : CStr) : FsM Unit := do
  let (inode, block, dirBlock, freeSlot) ← prepareEntry dev name inodeFile
  markBlockUsed block
  modifyInode inode fun ino => ino.fresh inodeFile 0 block
  let s ← get
  diskWriteLba dev 512 (s.sectorOf 0) (fillEntry dirBlock freeSlot inode name)
  flushTables dev

def fsMkdirPath (dev : Device) (path : CStr) : FsM Unit := do
  let s ← get
  require s.mounted
  require (path ≠ CStr.empty)
  match splitPath path with
  | none => fsMkdir dev path
  | some (parentName, newdir) =>
      require (newdir ≠ CStr.empty)
      require (slash ∉ newdir.chars)
      require (newdir.length < 30)
      ensureRootDirBlock dev
      let s ← get
      loadScratch dev (s.sectorOf 0)
      let parentInode ← lookupDir parentName
      let s ← get
      require ((s.inodes parentInode).direct0 ≠ 0)
      loadScratch2 dev (s.sectorOf parentInode)
      let s ← get
      match scanEntries neverBad newdir inodeDir s.blockScratch2 s.inodes with
      | .bad => refuse
      | .found _ _ => refuse
      | .absent freeSlot =>
          let freeSlot ← demand freeSlot
          let newInode ← demand (allocInodeRaw s.toVolume)
          let newBlock ← demand (allocBlockRaw s.toVolume)
          markBlockUsed newBlock
          modifyInode newInode fun ino => ino.fresh inodeDir 0 newBlock
          let s ← get
          diskWriteLba dev 512 (s.dataSector newBlock) Bytes.zero
          modify fun s =>
            { s with blockScratch2 := fillEntry s.blockScratch2 freeSlot newInode newdir }
          let s ← get
          diskWriteLba dev 512 (s.sectorOf parentInode) s.blockScratch2
          flushTables dev

/-! ## Writing -/

/-- The creation step of `fs_write` and `fs_write_path`: the size comes later. -/
def claimFile (freeSlot : Option Slot) : FsM (Slot × InodeNo) := do
  let freeSlot ← demand freeSlot
  let s ← get
  let newInode ← demand (findFreeInode s.toVolume)
  let newBlock ← demand (findFreeBlock s.toVolume)
  markBlockUsed newBlock
  modifyInode newInode fun ino => ino.fresh inodeFile ino.size newBlock
  return (freeSlot, newInode)

/-- `str_len(data)` cut to a block. -/
def dataLength (data : CStr) : UInt32 := UInt32.ofNat (min data.length 512)

/-- The block `fs_write` and `fs_write_path` store: data, then zeros. -/
def fileBlock (data : CStr) : Block := Bytes.zero.paste 0 (data.chars.take 512)

def fsWrite (dev : Device) (name data : CStr) : FsM Unit := do
  let s ← get
  require s.mounted
  require (name ≠ CStr.empty)
  require (name.length < 30)
  ensureRootDirBlock dev
  let s ← get
  let dirBlock ← diskReadLba dev 512 (s.sectorOf 0)
  let (dirBlock, targetInode) ←
    match scanEntries outOfTable name inodeFile dirBlock s.inodes with
    | .bad => refuse
    | .found _ inode => pure (dirBlock, inode)
    | .absent freeSlot => do
        let (freeSlot, newInode) ← claimFile freeSlot
        pure (fillEntry dirBlock freeSlot newInode name, newInode)
  modifyInode targetInode fun ino => { ino with size := dataLength data }
  let s ← get
  diskWriteLba dev 512 (s.sectorOf 0) dirBlock
  diskWriteLba dev 512 (s.sectorOf targetInode) (fileBlock data)
  flushTables dev

/-- The subdirectory branch does not check the length of the file name. -/
def fsWritePath (dev : Device) (path data : CStr) : FsM Unit := do
  let s ← get
  require s.mounted
  require (path ≠ CStr.empty)
  match splitPath path with
  | none => fsWrite dev path data
  | some (dirname, filename) =>
      require (filename ≠ CStr.empty)
      require (rootReadable s.toVolume)
      loadScratch dev (s.sectorOf 0)
      let dirInode ← lookupDir dirname
      let s ← get
      require ((s.inodes dirInode).direct0 ≠ 0)
      loadScratch2 dev (s.sectorOf dirInode)
      let s ← get
      let fileInode ←
        match scanEntries outOfTable filename inodeFile s.blockScratch2 s.inodes with
        | .bad => refuse
        | .found _ inode => pure inode
        | .absent freeSlot => do
            let (freeSlot, newInode) ← claimFile freeSlot
            modify fun s =>
              { s with blockScratch2 := fillEntry s.blockScratch2 freeSlot newInode filename }
            pure newInode
      modifyInode fileInode fun ino => { ino with size := dataLength data }
      let s ← get
      diskWriteLba dev 512 (s.sectorOf dirInode) s.blockScratch2
      diskWriteLba dev 512 (s.sectorOf fileInode) (fileBlock data)
      flushTables dev

/-! ## Copying -/

/-- The source of a copy, read from the root block or from a top-level directory. -/
def copySource (dev : Device) (srcPath : CStr) : FsM InodeNo := do
  let s ← get
  require (rootReadable s.toVolume)
  loadScratch dev (s.sectorOf 0)
  match splitPath srcPath with
  | none =>
      let s ← get
      let idx ← demand (findDirEntry srcPath s.blockScratch s.inodes inodeFile)
      demand (inodeIndex (entryInode s.blockScratch idx))
  | some (srcDir, srcName) =>
      require (srcName ≠ CStr.empty)
      let dirInode ← lookupDir srcDir
      let s ← get
      require ((s.inodes dirInode).direct0 ≠ 0)
      loadScratch2 dev (s.sectorOf dirInode)
      let s ← get
      let fileIdx ← demand (findDirEntry srcName s.blockScratch2 s.inodes inodeFile)
      demand (inodeIndex (entryInode s.blockScratch2 fileIdx))

/-- `src_path` behind its first `/`, or all of it. -/
def lastName (path : CStr) : CStr :=
  match splitPath path with
  | none => path
  | some (_, rest) => rest

def copyTarget (dev : Device) (srcPath dstPath : CStr) : FsM (InodeNo × CStr) := do
  match splitPath dstPath with
  | some (dstDir, dstName) =>
      require (dstName ≠ CStr.empty)
      let s ← get
      loadScratch dev (s.sectorOf 0)
      let dir ← lookupDir dstDir
      return (dir, dstName)
  | none =>
      let s ← get
      loadScratch dev (s.sectorOf 0)
      let s ← get
      match findDirEntry dstPath s.blockScratch s.inodes inodeDir with
      | some dirIdx =>
          let dir ← demand (inodeIndex (entryInode s.blockScratch dirIdx))
          return (dir, lastName srcPath)
      | none => return (0, dstPath)

def fsCopyPath (dev : Device) (srcPath dstPath : CStr) : FsM Unit := do
  let s ← get
  require s.mounted
  require (srcPath ≠ CStr.empty ∧ dstPath ≠ CStr.empty)
  let srcInode ← copySource dev srcPath
  let s ← get
  require ((s.inodes srcInode).direct0 ≠ 0)
  let fileData ← diskReadLba dev 512 (s.sectorOf srcInode)
  let fileSize := (s.inodes srcInode).size
  ensureRootDirBlock dev
  let (dstDir, dstName) ← copyTarget dev srcPath dstPath
  require (dstName ≠ CStr.empty ∧ dstName.length < 30)
  let s ← get
  require ((s.inodes dstDir).used ≠ 0 ∧ (s.inodes dstDir).direct0 ≠ 0)
  loadScratch2 dev (s.sectorOf dstDir)
  let s ← get
  let dstFile ←
    match scanEntries neverBad dstName inodeFile s.blockScratch2 s.inodes with
    | .bad => refuse
    | .found _ inode => do
        modifyInode inode fun ino => { ino with size := fileSize }
        pure inode
    | .absent freeSlot => do
        let freeSlot ← demand freeSlot
        let newInode ← demand (allocInodeRaw s.toVolume)
        let newBlock ← demand (allocBlockRaw s.toVolume)
        markBlockUsed newBlock
        modifyInode newInode fun ino => ino.fresh inodeFile fileSize newBlock
        modify fun s =>
          { s with blockScratch2 := fillEntry s.blockScratch2 freeSlot newInode dstName }
        pure newInode
  let s ← get
  diskWriteLba dev 512 (s.sectorOf dstDir) s.blockScratch2
  diskWriteLba dev 512 (s.sectorOf dstFile) fileData
  flushTables dev

/-! ## Renaming -/

/-- An entry of a freshly loaded root block, as `fs_rename` looks it up: the inode
number is not checked, `load_dir_block` will. -/
def renameDir (dev : Device) (dirname : CStr) : FsM (Option InodeNo) := do
  let rootBlock ← loadDirBlock dev 0
  let s ← get
  match findDirEntry dirname rootBlock s.inodes inodeDir with
  | none => return none
  | some dirEntry =>
      let dir ← demand (inodeIndex (entryInode rootBlock dirEntry))
      return some dir

def renameSource (dev : Device) (srcPath : CStr) : FsM (InodeNo × CStr) := do
  match splitPath srcPath with
  | none => return (0, srcPath)
  | some (srcDirname, srcName) =>
      require (srcDirname ≠ CStr.empty)
      require (srcName ≠ CStr.empty)
      let dir ← renameDir dev srcDirname
      let dir ← demand dir
      return (dir, srcName)

/-- The entry a rename moves: a file of this name before a directory. -/
def renameEntryOf (name : CStr) (b : Block) (inodes : InodeNo → Inode) : Option (Slot × UInt8) :=
  match findDirEntry name b inodes inodeFile with
  | some i => some (i, inodeFile)
  | none => (findDirEntry name b inodes inodeDir).map fun i => (i, inodeDir)

/-- Target directory, target name, and whether the target is the directory itself. -/
def renameTarget (dev : Device) (srcName dstPath : CStr) : FsM (InodeNo × CStr × Bool) := do
  match splitPath dstPath with
  | some (dstDirname, dstName) =>
      require (dstDirname ≠ CStr.empty)
      let dir ← renameDir dev dstDirname
      let dir ← demand dir
      if dstName = CStr.empty then return (dir, srcName, true)
      return (dir, dstName, false)
  | none =>
      let dir ← renameDir dev dstPath
      match dir with
      | some dir => return (dir, srcName, true)
      | none => return (0, dstPath, false)

def fsRename (dev : Device) (srcPath dstPath : CStr) : FsM Unit := do
  let s ← get
  require s.mounted
  require (srcPath ≠ CStr.empty ∧ dstPath ≠ CStr.empty)
  let (srcDir, srcName) ← renameSource dev srcPath
  require (srcName.length < 30)
  let srcBlock ← loadDirBlock dev srcDir
  let s ← get
  let (srcEntry, srcType) ← demand (renameEntryOf srcName srcBlock s.inodes)
  let srcInode ← demand (inodeIndex (entryInode srcBlock srcEntry))
  let (dstDir, dstName, dstIsDir) ← renameTarget dev srcName dstPath
  require (dstName ≠ CStr.empty)
  require (dstName.length < 30)
  if dstIsDir ∧ srcType = inodeDir ∧ dstDir = srcInode then return ()
  let dstBlock ← loadDirBlock dev dstDir
  let s ← get
  if dstDir = srcDir ∧ CStr.equals dstName.chars srcName.chars then return ()
  require (findDirEntry dstName dstBlock s.inodes srcType = none)
  if dstDir = srcDir then
    writeDirBlock dev srcDir (renameEntry srcBlock srcEntry dstName)
  else
    let freeSlot ← demand (firstFreeSlot dstBlock)
    writeDirBlock dev srcDir (clearEntry srcBlock srcEntry)
    writeDirBlock dev dstDir (fillEntry dstBlock freeSlot srcInode dstName)

/-! ## Removing -/

def fsRemove (dev : Device) (name : CStr) : FsM Unit := do
  let s ← get
  require s.mounted
  require (name ≠ CStr.empty)
  require (name.length < 30)
  require (rootReadable s.toVolume)
  removeEntryFromDir dev 0 name

/-- The directory part of `fs_remove_path` and `fs_remove_path_recursive`. -/
def removeParent (dev : Device) (dirname filename : CStr) : FsM InodeNo := do
  require (filename ≠ CStr.empty)
  let s ← get
  require (rootReadable s.toVolume)
  loadScratch dev (s.sectorOf 0)
  lookupDir dirname

def fsRemovePath (dev : Device) (path : CStr) : FsM Unit := do
  let s ← get
  require s.mounted
  require (path ≠ CStr.empty)
  match splitPath path with
  | none => fsRemove dev path
  | some (dirname, filename) =>
      let dir ← removeParent dev dirname filename
      removeEntryFromDir dev dir filename

def fsRemovePathRecursive (dev : Device) (path : CStr) : FsM Unit := do
  let s ← get
  require s.mounted
  require (path ≠ CStr.empty)
  match splitPath path with
  | none =>
      require (rootReadable s.toVolume)
      removeEntryFromDirRecursive dev 0 path
  | some (dirname, filename) =>
      let dir ← removeParent dev dirname filename
      removeEntryFromDirRecursive dev dir filename

/-! ## Reading -/

def fsRead (dev : Device) (name : CStr) (maxlen : UInt32) : FsM (List UInt8) := do
  let s ← get
  require s.mounted
  require (name ≠ CStr.empty)
  require (rootReadable s.toVolume)
  loadScratch dev (s.sectorOf 0)
  let s ← get
  let targetEntry ← demand (findDirEntry name s.blockScratch s.inodes inodeFile)
  let targetInode ← demand (inodeIndex (entryInode s.blockScratch targetEntry))
  require ((s.inodes targetInode).direct0 ≠ 0)
  loadScratch2 dev (s.sectorOf targetInode)
  let s ← get
  let sz := min (s.inodes targetInode).size maxlen
  return s.blockScratch2.firstBytes sz.toNat

def fsReadPath (dev : Device) (path : CStr) (maxlen : UInt32) : FsM (List UInt8) := do
  let s ← get
  require s.mounted
  require (path ≠ CStr.empty)
  match splitPath path with
  | none => fsRead dev path maxlen
  | some (dirname, filename) =>
      require (filename ≠ CStr.empty)
      require (rootReadable s.toVolume)
      loadScratch dev (s.sectorOf 0)
      let dirInode ← lookupDir dirname
      let s ← get
      require ((s.inodes dirInode).direct0 ≠ 0)
      loadScratch2 dev (s.sectorOf dirInode)
      let s ← get
      let fileEntry ← demand (findDirEntry filename s.blockScratch2 s.inodes inodeFile)
      let fileInode ← demand (inodeIndex (entryInode s.blockScratch2 fileEntry))
      require ((s.inodes fileInode).direct0 ≠ 0)
      loadScratch dev (s.sectorOf fileInode)
      let s ← get
      let sz := min (s.inodes fileInode).size maxlen
      return s.blockScratch.firstBytes sz.toNat

end SevenOS
