import SevenOS.FileSystem.Entries

/-! # Mounting again

What `fs_init` finds on the disk of a running system: the volume as it is in
memory, less the inodes that a refused call took and nothing flushed. No
directory names these, so the reading calls cannot tell.
-/

namespace SevenOS

open Prog

variable {dev : Device} {stray unflushed : InodeNo → Prop} {v v' : Volume} {s : Fs}

/-- The volume that `fs_init` reads. -/
def Volume.reload (v : Volume) : Volume :=
  { v with bitmap := v.bitmapOnDisk, inodes := v.inodeOnDisk, mounted := true }

/-! ## `fs_init` -/

theorem Device.Perfect.wp_readSectors (hp : dev.Perfect) (object : Nat) (lba : UInt32) (n : Nat)
    {store : Nat → Block → Fs → Fs} (hstore : ∀ k b s, (store k b s).disk = s.disk)
    {Q : Unit → Fs → Prop} {R D : Fs → Prop} :
    wp (diskReadSectors dev object lba n store) Q R D s ↔
      Q () ((List.range n).foldl (fun s' k => store k (s.disk (lba + UInt32.ofNat k)) s')
        (s.noted ⟨false, lba, n, object⟩)) := by
  have loop : ∀ (ks : List Nat) (s' : Fs), s'.disk = s.disk →
      (wp (ks.foldlM (fun _ k => do
        let s ← get
        require (dev.readFails s (lba + UInt32.ofNat k) = false)
        modify (store k (s.disk (lba + UInt32.ofNat k)))) ()) Q R D s' ↔
          Q () (ks.foldl (fun s' k => store k (s.disk (lba + UInt32.ofNat k)) s') s')) := by
    intro ks
    induction ks with
    | nil => exact fun _ _ => Iff.rfl
    | cons k ks ih =>
        intro s' hs'
        rw [List.foldlM_cons]
        simp only [wp_bind, wp_get, wp_require, wp_modify, hp.reads]
        rw [ih _ ((hstore _ _ _).trans hs'), hs', List.foldl_cons]
        exact ⟨fun h => h.1 trivial, fun h => ⟨fun _ => h, fun hno => (hno trivial).elim⟩⟩
  rw [diskReadSectors, wp_bind, wp_note]
  exact loop _ _ rfl

/-- A loop that only works on one variable. -/
theorem foldl_field {σ α ι : Type} (get : σ → α) (set : α → σ → σ) (hsame : ∀ s, set (get s) s = s)
    (hget : ∀ a s, get (set a s) = a) (hset : ∀ a b s, set b (set a s) = set b s)
    (f : α → ι → α) (items : List ι) (s : σ) :
    items.foldl (fun s i => set (f (get s) i) s) s = set (items.foldl f (get s)) s := by
  induction items generalizing s with
  | nil => exact (hsame s).symm
  | cons i rest ih => rw [List.foldl_cons, ih, hget, hset, List.foldl_cons]

theorem storeBitmap_fold (disk : UInt32 → Block) (lba : UInt32) (n : Nat) (bitmap : Bitmap) :
    (List.range n).foldl (fun bitmap k =>
        storeBitmapSector bitmap k (disk (lba + UInt32.ofNat k))) bitmap =
      fun i => if i.val / 512 < n then
        (disk (lba + UInt32.ofNat (i.val / 512))).at_ (i.val % 512) else bitmap i := by
  induction n with
  | zero => simp
  | succ n ih =>
      rw [List.range_succ, List.foldl_append, ih]
      simp only [List.foldl_cons, List.foldl_nil]
      funext i
      unfold storeBitmapSector
      by_cases hi : i.val / 512 = n
      · simp [hi]
      · by_cases hlt : i.val / 512 < n
        · simp [hi, hlt, Nat.lt_succ_of_lt hlt]
        · simp [hi, hlt, show ¬ i.val / 512 < n + 1 by omega]

theorem storeInodes_fold (disk : UInt32 → Block) (lba : UInt32) (n : Nat) (tab : Table) :
    (List.range n).foldl (fun tab k =>
        storeInodeSector tab k (disk (lba + UInt32.ofNat k))) tab =
      fun i => if i.val / 8 < n then
        Inode.decode (disk (lba + UInt32.ofNat (i.val / 8))) (64 * (i.val % 8)) else tab i := by
  induction n with
  | zero => simp
  | succ n ih =>
      rw [List.range_succ, List.foldl_append, ih]
      simp only [List.foldl_cons, List.foldl_nil]
      funext i
      unfold storeInodeSector
      by_cases hi : i.val / 8 = n
      · simp [hi]
      · by_cases hlt : i.val / 8 < n
        · simp [hi, hlt, Nat.lt_succ_of_lt hlt]
        · simp [hi, hlt, show ¬ i.val / 8 < n + 1 by omega]

/-- All eight sectors: nothing of the table that was there is left. -/
theorem Volume.storeInodes (v : Volume) (tab : Table) :
    (List.range fsInodeTableSectors).foldl (fun tab k =>
        storeInodeSector tab k (v.disk (v.sb.inodeTableLba + UInt32.ofNat k))) tab =
      v.inodeOnDisk := by
  rw [storeInodes_fold]
  refine funext fun i => if_pos ?_
  change i.val / 8 < 8
  omega

namespace Device.Perfect

variable (hp : dev.Perfect) {Q : Unit → Fs → Prop} {R D : Fs → Prop}

include hp

theorem wp_loadSuperblock : wp (loadSuperblock dev) Q R D s ↔
    Q () { s.noted ⟨false, fsSuperLba, 1, 32⟩ with sb := Superblock.decode (s.disk fsSuperLba) } := by
  refine (hp.wp_readSectors _ _ _ ?_).trans Iff.rfl
  exact fun _ _ _ => rfl

theorem wp_loadBitmap : wp (loadBitmap dev) Q R D s ↔
    Q () { s.noted ⟨false, s.sb.bitmapLba, fsBitmapSectors, 4096⟩ with
      bitmap := s.bitmapOnDisk } := by
  rw [loadBitmap, wp_bind, wp_get]
  refine (hp.wp_readSectors _ _ _ ?_).trans ?_
  · exact fun _ _ _ => rfl
  · rw [foldl_field (fun s : Fs => s.bitmap) (fun bitmap s => { s with bitmap := bitmap })
      (fun _ => rfl) (fun _ _ => rfl) (fun _ _ _ => rfl) fun bitmap k =>
        storeBitmapSector bitmap k (s.disk (s.sb.bitmapLba + UInt32.ofNat k)), storeBitmap_fold]
    have hload : (fun i : Fin 4096 => if i.val / 512 < fsBitmapSectors then
        (s.disk (s.sb.bitmapLba + UInt32.ofNat (i.val / 512))).at_ (i.val % 512)
        else s.bitmap i) = s.bitmapOnDisk := by
      refine funext fun i => if_pos ?_
      change i.val / 512 < 8
      omega
    rw [← hload]
    rfl

theorem wp_loadInodes : wp (loadInodes dev) Q R D s ↔
    Q () { s.noted ⟨false, s.sb.inodeTableLba, fsInodeTableSectors, 4096⟩ with
      inodes := s.inodeOnDisk } := by
  rw [loadInodes, wp_bind, wp_get]
  refine (hp.wp_readSectors _ _ _ ?_).trans ?_
  · exact fun _ _ _ => rfl
  · rw [foldl_field (fun s : Fs => s.inodes) (fun tab s => { s with inodes := tab })
      (fun _ => rfl) (fun _ _ => rfl) (fun _ _ _ => rfl) fun tab k =>
        storeInodeSector tab k (s.disk (s.sb.inodeTableLba + UInt32.ofNat k))]
    rw [← s.toVolume.storeInodes s.inodes]
    rfl

end Device.Perfect

/-- Whatever is in memory: what is mounted is what the disk holds. -/
theorem fsInit_spec (hp : dev.Perfect) (h : Headed v) (hdisk : s.disk = v.disk) :
    wp (fsInit dev) (fun _ s' => s'.toVolume = v.reload) (fun _ => False) (fun _ => False) s := by
  have hsb : Superblock.decode (s.disk fsSuperLba) = v.sb := by rw [hdisk, h.superblock]
  simp only [fsInit, wp_bind, wp_orElse, hp.wp_loadSuperblock, hp.wp_loadBitmap, hp.wp_loadInodes,
    wp_get, wp_modify, wp_ite, hsb]
  refine ⟨fun hbad => ?_, fun _ => ?_⟩
  · rcases hbad with hbad | hbad
    · exact (hbad h.magic).elim
    · exact (hbad h.blockSize).elim
  · simp only [Fs.noted, Volume.reload, hdisk]
    rfl

/-! ## The volume that was read -/

theorem Linked.forget {tab tab' : Table} {dir : InodeNo → Listing} (h : Linked stray tab dir)
    (hstray : ∀ i, unflushed i → stray i) (hzero : ∀ i, unflushed i → tab' i = Inode.zero)
    (hkeep : ∀ i, ¬ unflushed i → tab' i = tab i) :
    Linked (fun i => stray i ∧ ¬ unflushed i) tab' dir := by
  have live : ∀ {i}, Live tab' i → ¬ unflushed i := by
    intro i hi hu
    simp [Live, hzero i hu, Inode.zero] at hi
  have keeps : ∀ {i}, ¬ stray i → tab' i = tab i := fun hs => hkeep _ fun hu => hs (hstray _ hu)
  have kept : ∀ {d}, Kept (fun i => stray i ∧ ¬ unflushed i) tab' d → Kept stray tab d := by
    rintro d ⟨⟨hl, ht⟩, hs⟩
    have hd := live hl
    rw [Live, hkeep d hd] at hl
    rw [hkeep d hd] at ht
    exact ⟨⟨hl, ht⟩, fun hsd => hs ⟨hsd, hd⟩⟩
  refine ⟨?_, ?_, fun d hd => h.fits d (kept hd), ?_, ?_, ?_⟩
  · obtain ⟨⟨hl, ht⟩, hs⟩ := h.root
    exact ⟨⟨by rwa [Live, keeps hs], by rwa [keeps hs]⟩, fun hs' => hs hs'.1⟩
  · rintro i ⟨hs, hu⟩
    rw [Live, hkeep i hu]
    exact h.strayLive i hs
  · intro d j name n hd he
    obtain ⟨k, hn, hk0, hk, hs⟩ := h.names d j name n (kept hd) he
    exact ⟨k, hn, hk0, by rwa [Live, keeps hs], fun hs' => hs hs'.1⟩
  · exact fun d d' j j' name name' n hd hd' he he' =>
      h.once d d' j j' name name' n (kept hd) (kept hd') he he'
  · intro d j j' name k k' hd he he' ht
    have hd := kept hd
    rw [keeps (h.named hd he).2.2, keeps (h.named hd he').2.2] at ht
    exact h.distinct d j j' name k k' hd he he' ht

/-- Between two calls: what was taken and not flushed is stray. -/
structure Resting (stray unflushed : InodeNo → Prop) (v : Volume) : Prop extends Ready stray v where
  synced : Synced unflushed v
  unnamed : ∀ i, unflushed i → stray i

namespace Resting

theorem reload (h : Resting stray unflushed v) :
    Ready (fun i => stray i ∧ ¬ unflushed i) v.reload := by
  have hlive : ∀ i, unflushed i → Live v.inodes i :=
    fun i hi => h.inv.linked.strayLive i (h.unnamed i hi)
  have hlinked := h.inv.linked.forget h.unnamed h.synced.zeroed h.synced.inodes
  have hblocks : ∀ i, ¬ unflushed i → v.reload.blockOf i = v.blockOf i := by
    intro i hi
    have : v.reload.inodes i = v.inodes i := h.synced.inodes i hi
    rw [Volume.blockOf, this]
    rfl
  refine ⟨⟨⟨⟨h.inv.layout.1, h.inv.layout.2, h.inv.layout.3⟩, ?_, ?_⟩, h.headed.superblock,
    h.headed.magic, h.headed.blockSize⟩, rfl⟩
  · exact h.inv.alloc.free hlive h.synced.zeroed h.synced.inodes h.synced.bits
  · refine hlinked.congr (fun _ => Iff.rfl) (fun _ _ => rfl) fun d hd => ?_
    refine congrArg listing (hblocks d fun hu => ?_)
    have := hd.1.1
    rw [Live, h.synced.zeroed d hu] at this
    exact this rfl

theorem reload_kept (h : Resting stray unflushed v) {i : InodeNo} (hs : ¬ stray i) :
    v.reload.inodes i = v.inodes i ∧ v.reload.blockOf i = v.blockOf i := by
  have hino : v.reload.inodes i = v.inodes i := h.synced.inodes i fun hu => hs (h.unnamed i hu)
  refine ⟨hino, ?_⟩
  rw [Volume.blockOf, hino]
  rfl

theorem reload_hit (h : Resting stray unflushed v) {d : InodeNo} (hd : Kept stray v.inodes d)
    {name : CStr} {type : UInt8} {j : Slot} {k : InodeNo} :
    Hit (v.reload.dirAt d) v.reload.inodes name type j k ↔ Hit (v.dirAt d) v.inodes name type j k := by
  have hdir : v.reload.dirAt d = v.dirAt d := congrArg listing (h.reload_kept hd.2).2
  have hino : v.dirAt d j = some (name, inodeByte k) → v.reload.inodes k = v.inodes k :=
    fun he => (h.reload_kept (h.inv.linked.named hd he).2.2).1
  constructor
  · rintro ⟨he, hu, ht⟩
    rw [hdir] at he
    rw [hino he] at hu ht
    exact ⟨he, hu, ht⟩
  · rintro ⟨he, hu, ht⟩
    exact ⟨by rwa [hdir], by rwa [hino he], by rwa [hino he]⟩

theorem reload_findIn (h : Resting stray unflushed v) {d : InodeNo} (hd : Kept stray v.inodes d)
    (name : CStr) {type : UInt8} (ht : type ≠ 0) :
    v.reload.findIn d name type = v.findIn d name type := by
  have hino := (h.reload_kept hd.2).1
  have hd' : Kept (fun i => stray i ∧ ¬ unflushed i) v.reload.inodes d :=
    ⟨⟨by rw [Live, hino]; exact hd.1.1, by rw [hino]; exact hd.1.2⟩, fun hs => hd.2 hs.1⟩
  refine Option.ext fun k => ?_
  rw [h.reload.inv.findIn_some hd' ht, h.inv.findIn_some hd ht]
  simp only [h.reload_hit hd]

theorem reload_resolve (h : Resting stray unflushed v) (path : CStr) {type : UInt8} (ht : type ≠ 0) :
    v.reload.resolve path type = v.resolve path type :=
  h.inv.resolve_congr h.reload.inv ht fun _ _ _ _ _ hd => h.reload_hit hd

theorem reload_readFile (h : Resting stray unflushed v) {k : InodeNo} (hs : ¬ stray k)
    (maxlen : UInt32) : v.reload.readFile k maxlen = v.readFile k maxlen := by
  obtain ⟨hino, hblock⟩ := h.reload_kept hs
  rw [Volume.readFile, Volume.readFile, hino, hblock]

theorem reload_sysFile (h : Resting stray unflushed v) (filename : CStr) :
    v.reload.sysFile filename = v.sysFile filename := by
  unfold Volume.sysFile
  rw [h.reload_findIn h.inv.linked.root sysName (by decide)]
  cases hd : v.findIn 0 sysName inodeDir with
  | none => rfl
  | some d => exact h.reload_findIn (h.inv.findIn_kept hd) filename (by decide)

theorem reload_resting (h : Resting stray unflushed v) :
    Resting (fun i => stray i ∧ ¬ unflushed i) (fun _ => False) v.reload := by
  refine ⟨h.reload, ⟨h.reload.headed, fun _ _ => rfl, fun _ hi => hi.elim, fun b _ => ?_⟩,
    fun _ hi => hi.elim⟩
  exact ⟨fun hb => ⟨hb, fun ⟨_, hi, _⟩ => hi⟩, And.left⟩

end Resting

/-- The reading calls return the same. -/
structure SameReads (dev : Device) (s s' : Fs) : Prop where
  readPath : ∀ path maxlen, (fsReadPath dev path maxlen s').1 = (fsReadPath dev path maxlen s).1
  isDir : ∀ path, (fsIsDir dev path s').1 = (fsIsDir dev path s).1
  listRoot : ∀ maxEntries, (fsListRoot dev maxEntries s').1 = (fsListRoot dev maxEntries s).1
  listDir : ∀ dirname maxEntries,
    (fsListDir dev dirname maxEntries s').1 = (fsListDir dev dirname maxEntries s).1
  readPasswd : (fsReadPasswd dev s').1 = (fsReadPasswd dev s).1

theorem Inv.sysFile_named (h : Inv stray v) {filename : CStr} {k : InodeNo}
    (hk : v.sysFile filename = some k) : ¬ stray k := by
  obtain ⟨d, hd, hfile⟩ := Option.bind_eq_some_iff.mp hk
  exact (h.findIn_live (h.findIn_kept hd) (by decide) hfile).2.2.2

theorem Resting.sameReads (hp : dev.Perfect) {s' : Fs} (h : Resting stray unflushed s.toVolume)
    (hv : s'.toVolume = s.toVolume.reload) : SameReads dev s s' := by
  have h' : Ready (fun i => stray i ∧ ¬ unflushed i) s'.toVolume := hv ▸ h.reload
  have hroot := h.inv.linked.root
  refine ⟨fun path maxlen => ?_, fun path => ?_, fun maxEntries => ?_, fun dirname maxEntries => ?_,
    ?_⟩
  · rw [wp_outcome (fsReadPath_returns hp h' path maxlen),
      wp_outcome (fsReadPath_returns hp h.toReady path maxlen), hv,
      h.reload_resolve path (by decide)]
    cases hk : s.toVolume.resolve path inodeFile with
    | none => rfl
    | some k =>
        obtain ⟨d, name, j, hparent, hit⟩ := (h.inv.resolve_some (by decide)).mp hk
        have hs := (h.inv.named (h.inv.parent_kept hparent) hit).2.2
        exact congrArg Outcome.ok (h.reload_readFile hs maxlen)
  · rw [wp_outcome (fsIsDir_returns hp h' path), wp_outcome (fsIsDir_returns hp h.toReady path), hv,
      h.reload_resolve path (by decide)]
  · rw [wp_outcome (fsListRoot_returns hp h' maxEntries),
      wp_outcome (fsListRoot_returns hp h.toReady maxEntries), hv, (h.reload_kept hroot.2).2]
  · rw [wp_outcome (fsListDir_returns hp h' dirname maxEntries),
      wp_outcome (fsListDir_returns hp h.toReady dirname maxEntries), hv,
      h.reload_findIn hroot dirname (by decide)]
    cases hd : s.toVolume.findIn 0 dirname inodeDir with
    | none => rfl
    | some d =>
        have hs := (h.inv.findIn_kept hd).2
        simp only [(h.reload_kept hs).2]
  · rw [wp_outcome (fsReadPasswd_returns hp h'), wp_outcome (fsReadPasswd_returns hp h.toReady), hv,
      passwdOutcome, passwdOutcome, h.reload_sysFile passwdName]
    cases hk : s.toVolume.sysFile passwdName with
    | none => rfl
    | some k => simp only [h.reload_readFile (h.inv.sysFile_named hk)]

/-! ## Sessions -/

/-- `fs_write_passwd` makes the `sys` directory and then lacks an inode or a block for
the file. -/
def Call.HalfMade (v : Volume) : Call → Prop
  | .writePasswd _ => v.findIn 0 sysName inodeDir = none ∧ (firstFreeSlot (v.blockOf 0)).isSome ∧
      CanAlloc v ∧ LastAlloc v
  | _ => False

theorem Synced.take {k : InodeNo} {ino : Inode} (h : Synced unflushed v)
    (hlive : ∀ i, unflushed i → Live v.inodes i) (halloc : Allocated v.sb v.bitmap v.inodes)
    (hc : v.CanTake k ino) : Synced (fun i => unflushed i ∨ i = k) (v.take k ino) := by
  have hk : ¬ unflushed k := fun hu => hc.unused (hlive k hu)
  have same : ∀ {i}, i ≠ k → (v.take k ino).inodes i = v.inodes i := fun hi => assign_of_ne _ _ hi
  have hnew : (v.take k ino).inodes k = ino := by simp [Volume.take]
  refine ⟨⟨h.superblock, h.magic, h.blockSize⟩, ?_, ?_, ?_⟩
  · intro i hi
    rw [not_or] at hi
    rw [same hi.2]
    exact h.inodes i hi.1
  · rintro i (hi | rfl)
    · exact h.zeroed i hi
    · exact (h.inodes _ hk).trans (halloc.unused _ hc.unused)
  · intro b hb
    change v.bitmapOnDisk.testBit b = true ↔ _
    have hset : (v.take k ino).bitmap = v.bitmap.setBit ino.direct0.toNat := rfl
    rw [h.bits b hb, hset, Bytes.testBit_setBit _ hb]
    simp only [Bool.or_eq_true, decide_eq_true_eq]
    constructor
    · rintro ⟨hbit, hno⟩
      refine ⟨.inr hbit, ?_⟩
      rintro ⟨i, hi | rfl, hib⟩
      · rw [same fun hik => hk (hik ▸ hi)] at hib
        exact hno ⟨i, hi, hib⟩
      · rw [hnew] at hib
        rw [← hib, hc.blockFree] at hbit
        cases hbit
    · rintro ⟨hbit, hno⟩
      have hne : ino.direct0.toNat ≠ b := fun heq => hno ⟨k, .inr rfl, by rw [hnew, heq]⟩
      refine ⟨hbit.resolve_left hne.symm, ?_⟩
      rintro ⟨i, hi, hib⟩
      exact hno ⟨i, .inl hi, by rw [same fun hik => hk (hik ▸ hi), hib]⟩

theorem Resting.renamed (h : Resting stray unflushed v) {srcPath dstPath : CStr}
    (hr : Renamed v srcPath dstPath v') : Synced unflushed v' := by
  rcases hr with ⟨rfl, -⟩ | ⟨d, srcName, j, k, type, d', name, isDir, hparent, -, htarget, -, -, -, hv'⟩
  · exact h.synced
  · have hlayout := h.inv.layout
    have hd := h.inv.alloc.blockBound (h.inv.parent_kept hparent).1.1
    have hd' := h.inv.alloc.blockBound (h.inv.renameTarget_kept htarget).1.1
    rcases hv' with ⟨rfl, rfl⟩ | ⟨-, j', -, rfl⟩
    · exact h.synced.setData hlayout hd _
    · exact (h.synced.setData hlayout hd _).setData ⟨hlayout.1, hlayout.2, hlayout.3⟩ hd' _

theorem Resting.done (h : Resting stray unflushed v) {call : Call} (hd : Done stray v call v') :
    ∃ unflushed', Resting stray unflushed' v' := by
  have hready : Ready stray v' := ⟨h.toSound.done hd, hd.mounted.trans h.mounted⟩
  by_cases hr : ∃ srcPath dstPath, call = .rename srcPath dstPath
  · obtain ⟨srcPath, dstPath, rfl⟩ := hr
    exact ⟨unflushed, hready, h.renamed hd, h.unnamed⟩
  · have hflushed := h.toSound.done_flushed hd fun srcPath dstPath heq =>
      hr ⟨srcPath, dstPath, heq⟩
    exact ⟨fun _ => False, hready, hflushed.synced, fun _ hi => hi.elim⟩

theorem Resting.left (h : Resting stray unflushed v) {call : Call} (hcall : ¬ call.HalfMade v)
    (hl : Left stray v call v') : ∃ stray' unflushed', Resting stray' unflushed' v' := by
  have same : v' = v → ∃ stray' unflushed', Resting stray' unflushed' v' := by
    rintro rfl
    exact ⟨stray, unflushed, h⟩
  cases call with
  | writePasswd hash =>
      rcases hl with ⟨-, hv⟩ | ⟨hleaks, ⟨k, ino, hc, -, -, -, -, rfl⟩ | ⟨k, hmiss, hs⟩⟩
      · exact same hv
      · have hlive : ∀ i, unflushed i → Live v.inodes i :=
          fun i hi => h.inv.linked.strayLive i (h.unnamed i hi)
        refine ⟨_, _, ⟨⟨h.inv.take hc, h.headed.superblock, h.headed.magic, h.headed.blockSize⟩,
          h.mounted⟩, h.synced.take hlive h.inv.alloc hc, ?_⟩
        rintro i (hi | rfl)
        · exact .inl (h.unnamed i hi)
        · exact .inr rfl
      · rcases hs with ⟨hit, hv⟩ | ⟨j, b, -, -, -, henter, -, -⟩
        · exact same hv
        · refine (hcall ⟨(Volume.findIn_none (by decide)).mpr hmiss, ?_,
            (sysLeaks_of_miss hmiss henter.free).mp hleaks⟩).elim
          cases hfree : firstFreeSlot (v.blockOf 0) with
          | none => exact (firstFreeSlot_none hfree j henter.free).elim
          | some i => rfl
  | _ => exact same hl

theorem Resting.run (hp : dev.Perfect) (h : Resting stray unflushed s.toVolume) {call : Call}
    (hfit : call.Fits s.toVolume) (hhalf : ¬ call.HalfMade s.toVolume) {o : Outcome Unit} {s' : Fs}
    (hrun : call.run dev s = (o, s')) :
    ∃ stray' unflushed', Resting stray' unflushed' s'.toVolume := by
  rcases Call.run_cases hp h.inv hfit hrun with ⟨-, hdone⟩ | ⟨-, hleft⟩
  · exact ⟨stray, h.done hdone⟩
  · exact h.left hhalf hleft

theorem fsFormat_resting {totalBlocks inodeCount : UInt32} {s' : Fs} (hp : dev.Perfect)
    (hrun : fsFormat dev totalBlocks inodeCount s = (.ok (), s')) :
    Resting (fun _ => False) (fun _ => False) s'.toVolume := by
  obtain ⟨hready, hsynced⟩ := fsFormat_ready hp hrun
  exact ⟨hready, hsynced, fun _ hi => hi⟩

theorem Session.resting (hp : dev.Perfect)
    (h : Session dev (fun s call _ => call.Ordinary ∧ ¬ call.HalfMade s.toVolume) s) :
    ∃ stray unflushed, Resting stray unflushed s.toVolume := by
  induction h with
  | format _ _ hrun => exact ⟨_, _, fsFormat_resting hp hrun⟩
  | call _ hallow hrun ih =>
      obtain ⟨stray, unflushed, hrest⟩ := ih
      exact hrest.run hp (hallow.1.fits _) hallow.2 hrun

theorem Resting.remount (hp : dev.Perfect) (h : Resting stray unflushed s.toVolume) :
    ∃ s', fsInit dev s = (.ok (), s') ∧ SameReads dev s s' := by
  rcases wp_run (fsInit_spec hp h.headed rfl) rfl with ⟨_, ho, hv⟩ | ⟨-, hno⟩ | ⟨-, hno⟩
  · exact ⟨_, Prod.ext ho rfl, h.sameReads hp hv⟩
  · exact hno.elim
  · exact hno.elim

theorem session_remount (hp : dev.Perfect)
    (h : Session dev (fun s call _ => call.Ordinary ∧ ¬ call.HalfMade s.toVolume) s) :
    ∃ s', fsInit dev s = (.ok (), s') ∧ SameReads dev s s' := by
  obtain ⟨stray, unflushed, hrest⟩ := h.resting hp
  exact hrest.remount hp

/-- The passwords are set, and a name with a directory and a file. -/
theorem session_remount_written :
    ∃ s', fsInit .working (Fs.started .working (fun _ => Bytes.zero) 0
        [.mkdirPath nameA, .writePath pathAB nameB, .writePasswd 7]) = (.ok (), s') ∧
      SameReads .working (Fs.started .working (fun _ => Bytes.zero) 0
        [.mkdirPath nameA, .writePath pathAB nameB, .writePasswd 7]) s' := by
  have h : Session .working (fun s call _ => call.Ordinary ∧ ¬ call.HalfMade s.toVolume)
      (Fs.started .working (fun _ => Bytes.zero) 0 [.mkdirPath nameA, .writePath pathAB nameB,
        .writePasswd 7]) :=
    .begun (by decide +kernel) ⟨⟨by decide, id⟩, ⟨by decide, id⟩,
      ⟨by decide, fun hhalf => absurd hhalf.1 (by decide +kernel)⟩, trivial⟩
  exact session_remount Device.working_perfect h

/-- Blocks 2 to 4 are given back and two of them taken again: `sys` gets the last one. -/
def lastBlock : List Call :=
  [.removePathRecursive sysName, .create nameA, .create nameB, .writePasswd 7]

/-- The entry of `sys` is on the disk and its inode is not. -/
theorem not_session_remount :
    ¬ ∀ dev s, dev.Perfect → Session dev (fun _ call _ => call.Ordinary) s →
      ∃ s', fsInit dev s = (.ok (), s') ∧ SameReads dev s s' := by
  intro h
  obtain ⟨s', hrun, hsame⟩ := h .working (Fs.started .working (fun _ => Bytes.zero) 5 lastBlock)
    Device.working_perfect (.started (by decide +kernel) fun call hcall _ _ => by
      revert call; decide)
  have hdir := hsame.isDir sysName
  have hs' : s' = (fsInit .working (Fs.started .working (fun _ => Bytes.zero) 5 lastBlock)).2 := by
    rw [hrun]
  rw [hs'] at hdir
  revert hdir
  decide +kernel

end SevenOS
