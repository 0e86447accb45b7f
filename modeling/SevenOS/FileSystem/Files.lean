import SevenOS.FileSystem.Proof.Lookup
import SevenOS.FileSystem.Agreement

/-! # Files

The file system as a map from paths to contents: what the calls on one file do
to the map, and that `fs_read_path` reads the map.
-/

namespace SevenOS

open Prog

variable {dev : Device} {stray : InodeNo → Prop} {v v' : Volume} {s : Fs}

def Volume.contents (v : Volume) (k : InodeNo) : List UInt8 :=
  (v.blockOf k).firstBytes (v.inodes k).size.toNat

def Volume.files (v : Volume) (path : CStr) : Option (List UInt8) :=
  (v.resolve path inodeFile).map v.contents

theorem Volume.readFile_eq (v : Volume) (k : InodeNo) (maxlen : UInt32) :
    v.readFile k maxlen = (v.contents k).take maxlen.toNat := by
  have hmin : (min (v.inodes k).size maxlen).toNat = min (v.inodes k).size.toNat maxlen.toNat := by
    change (if (v.inodes k).size ≤ maxlen then (v.inodes k).size else maxlen).toNat = _
    split
    · next hle =>
        rw [UInt32.le_iff_toNat_le] at hle
        omega
    · next hlt =>
        rw [UInt32.le_iff_toNat_le] at hlt
        omega
  rw [Volume.readFile, Volume.contents, hmin, Bytes.firstBytes, Bytes.firstBytes, ← List.map_take,
    List.take_range, Nat.min_comm]

/-- A read gives the first bytes of what the path names. -/
def readResult (contents : Option (List UInt8)) (maxlen : UInt32) : Outcome (List UInt8) :=
  match contents with
  | some c => .ok (c.take maxlen.toNat)
  | none => .refused

theorem fsReadPath_files (hp : dev.Perfect) (h : Ready stray s.toVolume) (path : CStr)
    (maxlen : UInt32) :
    (fsReadPath dev path maxlen s).1 = readResult (s.toVolume.files path) maxlen := by
  rw [wp_outcome (fsReadPath_returns hp h path maxlen), Volume.files]
  cases s.toVolume.resolve path inodeFile with
  | none => rfl
  | some k => exact congrArg Outcome.ok (s.toVolume.readFile_eq k maxlen)

/-! ## Different paths lead to different files -/

namespace Inv

theorem parent_root (h : Inv stray v) {path name : CStr} (hp : v.Parent path 0 name) :
    splitPath path = none ∧ name = path := by
  unfold Volume.Parent at hp
  split at hp
  · next hsplit => exact ⟨hsplit, hp.2⟩
  · obtain ⟨⟨i, hit⟩, -⟩ := hp
    exact ((h.named h.linked.root hit).1 rfl).elim

/-- Paths to the same name of the same directory split alike. -/
theorem parent_split (h : Inv stray v) {p q name : CStr} {d : InodeNo} (hpd : v.Parent p d name)
    (hqd : v.Parent q d name) :
    splitPath p = splitPath q ∧ (splitPath p = none → p = q) := by
  cases hsplit : splitPath p with
  | none =>
      rw [Volume.Parent, hsplit] at hpd
      obtain ⟨rfl, rfl⟩ := hpd
      obtain ⟨hq, heq⟩ := h.parent_root hqd
      exact ⟨hq.symm, fun _ => heq⟩
  | some parts =>
      obtain ⟨dirname, rest⟩ := parts
      rw [Volume.Parent, hsplit] at hpd
      obtain ⟨⟨i, hit⟩, rfl⟩ := hpd
      refine ⟨?_, fun hnone => by cases hnone⟩
      have hroot := h.linked.root
      unfold Volume.Parent at hqd
      split at hqd
      · exact ((h.named hroot hit).1 hqd.1).elim
      · next dirname' rest' hsplit' =>
          obtain ⟨⟨i', hit'⟩, rfl⟩ := hqd
          rw [hsplit', (h.entry_det hroot hroot hit.entry hit'.entry).2]

theorem parent_inj (h : Inv stray v) {p q name : CStr} {d : InodeNo} (hp : Ordinary p)
    (hq : Ordinary q) (hpd : v.Parent p d name) (hqd : v.Parent q d name) : p = q :=
  hp.ext hq (h.parent_split hpd hqd).1 (h.parent_split hpd hqd).2

theorem resolve_inj (h : Inv stray v) {p q : CStr} {type : UInt8} (ht : type ≠ 0) {k : InodeNo}
    (hp : Ordinary p) (hq : Ordinary q) (hpk : v.resolve p type = some k)
    (hqk : v.resolve q type = some k) : p = q := by
  obtain ⟨d, n, j, hpd, hit⟩ := (h.resolve_some ht).mp hpk
  obtain ⟨d', n', j', hqd, hit'⟩ := (h.resolve_some ht).mp hqk
  obtain ⟨rfl, rfl⟩ := h.linked.once _ _ _ _ _ _ _ (h.parent_kept hpd) (h.parent_kept hqd)
    hit.entry hit'.entry
  have heq := hit.entry.symm.trans hit'.entry
  simp only [Option.some.injEq, Prod.mk.injEq, and_true] at heq
  exact h.parent_inj hp hq hpd (heq ▸ hqd)

theorem resolve_live (h : Inv stray v) {path : CStr} {type : UInt8} (ht : type ≠ 0) {k : InodeNo}
    (hk : v.resolve path type = some k) : Live v.inodes k ∧ (v.inodes k).type = type := by
  obtain ⟨d, n, j, -, hit⟩ := (h.resolve_some ht).mp hk
  exact ⟨hit.used, hit.type⟩

end Inv

/-! ## What a call does to the map -/

theorem files_flush (h : Inv stray v) (path : CStr) : v.flush.files path = v.files path := by
  rw [Volume.files, h.resolve_flush, Volume.files]
  cases hk : v.resolve path inodeFile with
  | none => rfl
  | some k =>
      refine congrArg some ?_
      rw [Volume.contents, h.blockOf_flush (h.resolve_live (by decide) hk).1]
      rfl

/-- A new entry: the map changes at most where the entry is found. -/
theorem files_create (h : Inv stray v) {d k : InodeNo} {j : Slot} {name : CStr} {ino : Inode}
    {content : Block} (htake : v.CanTake k ino) (henter : v.CanEnter stray d j name ino.type)
    (hk0 : k ≠ 0) (hempty : ino.type = inodeDir → listing content = fun _ => none) (path : CStr) :
    (ino.type = inodeFile → v.Parent path d name →
      (v.create d j name k ino content).files path =
        some (content.firstBytes ino.size.toNat)) ∧
    (¬ (ino.type = inodeFile ∧ v.Parent path d name) →
      (v.create d j name k ino content).files path = v.files path) := by
  have hd := henter.dir.1
  have hresolve : ∀ {x}, (v.create d j name k ino content).resolve path inodeFile = some x ↔
      v.resolve path inodeFile = some x ∨ v.Parent path d name ∧ inodeFile = ino.type ∧ x = k :=
    h.resolve_create htake henter hk0 hempty (by decide)
  rw [Volume.files]
  constructor
  · intro ht hparent
    rw [hresolve.mpr (.inr ⟨hparent, ht.symm, rfl⟩)]
    refine congrArg some ?_
    rw [Volume.contents, h.blockOf_create_new htake hd.1, Inv.inodes_create_new]
  · intro hother
    rw [Volume.files]
    cases hk : v.resolve path inodeFile with
    | none =>
        cases hk' : (v.create d j name k ino content).resolve path inodeFile with
        | none => rfl
        | some x =>
            rcases hresolve.mp hk' with hx | ⟨hparent, ht, -⟩
            · rw [hk] at hx
              cases hx
            · exact (hother ⟨ht.symm, hparent⟩).elim
    | some x =>
        obtain ⟨hx, hfile⟩ := h.resolve_live (by decide) hk
        rw [hresolve.mpr (.inl hk)]
        refine congrArg some ?_
        rw [Volume.contents, h.blockOf_create htake hd.1 hx, if_neg (Inv.dir_ne_file hd hfile).symm,
          h.inodes_create htake hx]
        rfl

theorem files_created (h : Inv stray v) {d : InodeNo} {name : CStr} {type : UInt8} {size : UInt32}
    {content : UInt32 → Block}
    (hempty : type = inodeDir → ∀ b, listing (content b) = fun _ => none)
    (hc : Created stray v d name type size content v') (path : CStr) :
    (type = inodeFile → v.Parent path d name →
      ∃ b, v'.files path = some ((content b).firstBytes size.toNat)) ∧
    (¬ (type = inodeFile ∧ v.Parent path d name) → v'.files path = v.files path) := by
  obtain ⟨j, k, b, htake, henter, hk0, rfl⟩ := hc
  obtain ⟨hnew, hold⟩ := files_create h htake henter hk0 (fun ht => hempty ht b) path
  rw [files_flush (h.create htake henter hk0 fun ht => hempty ht b)]
  exact ⟨fun ht hparent => ⟨b, hnew ht hparent⟩, hold⟩

theorem files_rewritten (h : Inv stray v) {d : InodeNo} (hd : Kept stray v.inodes d) {name : CStr}
    {size : UInt32} (hsize : size.toNat ≤ 512) {content : Block}
    (hr : Rewritten v d name size content v') (path : CStr) :
    (v.Parent path d name → v'.files path = some (content.firstBytes size.toNat)) ∧
    (¬ v.Parent path d name → v'.files path = v.files path) := by
  obtain ⟨j, k, hit, rfl⟩ := hr
  have hnew := h.rewrite hit.used hit.type hsize content
  have hresolve : (v.rewrite k size content).resolve path inodeFile = v.resolve path inodeFile :=
    h.resolve_congr hnew (by decide) fun _ _ _ _ _ hd => h.hit_rewrite hit.used hit.type hd
  have hcontents : ∀ x, Live v.inodes x → (v.rewrite k size content).contents x =
      if x = k then content.firstBytes size.toNat else v.contents x := by
    intro x hx
    rw [Volume.contents, h.blockOf_rewrite hit.used hx, Inv.inodes_rewrite]
    split <;> rfl
  rw [files_flush hnew, Volume.files, hresolve]
  constructor
  · intro hparent
    rw [(h.resolve_some (by decide)).mpr ⟨d, name, j, hparent, hit⟩, Option.map_some,
      hcontents k hit.used, if_pos rfl]
  · intro hother
    rw [Volume.files]
    cases hx : v.resolve path inodeFile with
    | none => rfl
    | some x =>
        have hxk : x ≠ k := by
          rintro rfl
          obtain ⟨d', name', j', hparent, hit'⟩ := (h.resolve_some (by decide)).mp hx
          obtain ⟨rfl, rfl⟩ := h.entry_det (h.parent_kept hparent) hd hit'.entry hit.entry
          exact hother hparent
        rw [Option.map_some, hcontents x (h.resolve_live (by decide) hx).1, if_neg hxk]
        rfl

/-- A file made or rewritten: the map changes where its entry is found. -/
theorem files_stored (h : Inv stray v) {d : InodeNo} (hd : Kept stray v.inodes d) {name : CStr}
    {size : UInt32} (hsize : size.toNat ≤ 512) {content : Block}
    (hst : Stored stray v d name size content v') (path : CStr) :
    (v.Parent path d name → v'.files path = some (content.firstBytes size.toNat)) ∧
    (¬ v.Parent path d name → v'.files path = v.files path) := by
  rcases hst with hc | hr
  · obtain ⟨hnew, hold⟩ := files_created h (fun ht => absurd ht (by decide)) hc path
    refine ⟨fun hparent => ?_, fun hother => hold fun hpd => hother hpd.2⟩
    obtain ⟨-, hfiles⟩ := hnew rfl hparent
    exact hfiles
  · exact files_rewritten h hd hsize hr path

/-- What hangs below an entry is gone: every other path keeps its contents. -/
theorem files_cut (h : Inv stray v) {d k : InodeNo} {j : Slot} {name : CStr} {ws : List Slot}
    (hw : Walk (v.edge stray) 0 ws d) (hd : Kept stray v.inodes d)
    (hj : v.dirAt d j = some (name, inodeByte k))
    (hrem : v.Removed d j (Below (v.edge stray) k) v') {path : CStr}
    (hout : ∀ x, v.resolve path inodeFile = some x → ¬ Below (v.edge stray) k x) :
    v'.flush.files path = v.files path := by
  obtain ⟨-, hk, hks⟩ := h.linked.named hd hj
  have hresolve : ∀ {x}, v'.resolve path inodeFile = some x ↔
      v.resolve path inodeFile = some x ∧ ¬ Below (v.edge stray) k x :=
    h.resolve_removed hw hd hj hrem (by decide)
  rw [files_flush (h.removed_below hw hd hj hrem), Volume.files, Volume.files]
  cases hx : v.resolve path inodeFile with
  | none =>
      have hnone : v'.resolve path inodeFile = none :=
        Option.eq_none_iff_forall_ne_some.mpr fun x hx' => by
          rw [(hresolve.mp hx').1] at hx
          cases hx
      rw [hnone]
      rfl
  | some x =>
      obtain ⟨hlive, hfile⟩ := h.resolve_live (by decide) hx
      have hx' := hout x hx
      rw [hresolve.mpr ⟨hx, hx'⟩]
      refine congrArg some ?_
      rw [Volume.contents, hrem.inodes x hx', h.blockOf_removed hd.1.1 hrem
        (fun i hi => (h.below_live hk hks hi).1) hlive hx', if_neg (Inv.dir_ne_file hd.1 hfile).symm]
      rfl

/-- `fs_remove_path`: the map holds nothing at `p` any more. -/
theorem files_removed (h : Inv stray v) {p : CStr} (hp : Ordinary p)
    (hr : RemovedAt stray v p (· = inodeFile) v') {q : CStr} (hq : Ordinary q) :
    v'.files q = if q = p then none else v.files q := by
  obtain ⟨d, name, j, k, type, v₁, hparent, rfl, hit, hrem, rfl⟩ := hr
  obtain ⟨ws, hw⟩ := h.parent_walk hparent
  have hd := h.parent_kept hparent
  have hpk : v.resolve p inodeFile = some k :=
    (h.resolve_some (by decide)).mpr ⟨d, name, j, hparent, hit⟩
  by_cases hqp : q = p
  · have hnone : v₁.resolve p inodeFile = none := by
      refine Option.eq_none_iff_forall_ne_some.mpr fun x hx => ?_
      obtain ⟨hx, hout⟩ := (h.resolve_removed hw hd hit.entry hrem (by decide)).mp hx
      obtain rfl : k = x := Option.some.inj (hpk.symm.trans hx)
      exact hout (below_refl k)
    rw [if_pos hqp, hqp, files_flush (h.removed_below hw hd hit.entry hrem), Volume.files, hnone]
    rfl
  · rw [if_neg hqp]
    refine files_cut h hw hd hit.entry hrem fun x hx => ?_
    -- nothing hangs below a file
    have hxk : x ≠ k := by
      rintro rfl
      exact hqp (h.resolve_inj (by decide) hq hp hx hpk)
    rw [below_iff]
    simp [Inv.file_leaf hit.type, hxk]

/-! ## Sessions -/

theorem fileBlock_firstBytes (data : CStr) :
    (fileBlock data).firstBytes (dataLength data).toNat = data.chars.take 512 := by
  have hlen : (dataLength data).toNat = (data.chars.take 512).length := by
    rw [dataLength_toNat, List.length_take, Nat.min_comm]
    rfl
  rw [hlen, fileBlock, Bytes.firstBytes_paste _ _ (by simp)]

/-- The calls that are about one path. -/
def Call.OnPath (p : CStr) : Call → Prop
  | .mkdirPath path => path = p
  | .create name => name = p
  | .writePath path _ => path = p
  | .removePath path => path = p
  | _ => False

theorem files_done (h : Inv stray v) {p : CStr} (hp : Ordinary p) {call : Call}
    (hcall : call.OnPath p) (hdone : Done stray v call v') {q : CStr} (hq : Ordinary q)
    (hne : q ≠ p) : v'.files q = v.files q := by
  cases call with
  | mkdirPath path =>
      obtain ⟨d, name, -, hc⟩ := hdone
      exact (files_created h (fun _ _ => listing_zero) hc q).2 fun ht => absurd ht.1 (by decide)
  | create name =>
      obtain rfl : name = p := hcall
      refine (files_created h (fun ht => absurd ht (by decide)) hdone q).2 fun hqd => hne ?_
      exact (h.parent_root hqd.2).2.symm
  | writePath path data =>
      obtain rfl : path = p := hcall
      obtain ⟨d, name, hparent, hst⟩ := hdone
      exact (files_stored h (h.parent_kept hparent) (dataLength_le data) hst q).2 fun hqd =>
        hne (h.parent_inj hq hp hqd hparent)
  | removePath path =>
      obtain rfl : path = p := hcall
      rw [files_removed h hp hdone hq, if_neg hne]
  | _ => exact hcall.elim

theorem Ready.run_cases (hp : dev.Perfect) (h : Ready stray s.toVolume) {call : Call}
    (hcall : call.Ordinary) {o : Outcome Unit} {s' : Fs} (hrun : call.run dev s = (o, s')) :
    o = .ok () ∧ Done stray s.toVolume call s'.toVolume ∧ Ready stray s'.toVolume ∨
      o = .refused ∧ Left stray s.toVolume call s'.toVolume := by
  rcases Call.run_cases hp h.inv (hcall.fits _) hrun with ⟨ho, hdone⟩ | hleft
  · exact .inl ⟨ho, hdone, h.done hdone, hdone.mounted.trans h.mounted⟩
  · exact .inr hleft

theorem Call.OnPath.ordinary {p : CStr} (hp : SevenOS.Ordinary p) {call : Call}
    (hcall : call.OnPath p) :
    call.Ordinary := by
  intro path hmem
  cases call <;> simp_all [Call.paths, Call.OnPath]

theorem Call.OnPath.left {p : CStr} {call : Call} (hcall : call.OnPath p)
    (hleft : Left stray v call v') : v' = v := by
  cases call with
  | writePasswd hash => exact hcall.elim
  | _ => exact hleft

theorem session_files (hp : dev.Perfect) (h : Session dev (fun _ call _ => call.Ordinary) s)
    {p : CStr} (hpath : Ordinary p) {s' : Fs} {maxlen : UInt32} :
    (∀ data, fsWritePath dev p data s = (.ok (), s') → 512 ≤ maxlen.toNat →
      (fsReadPath dev p maxlen s').1 = .ok (data.chars.take 512)) ∧
    (fsCreate dev p s = (.ok (), s') → (fsReadPath dev p maxlen s').1 =
      if Component p then .ok [] else (fsReadPath dev p maxlen s).1) ∧
    (fsRemovePath dev p s = (.ok (), s') → (fsReadPath dev p maxlen s').1 = .refused) ∧
    (∀ (call : Call) o, call.OnPath p → call.run dev s = (o, s') → ∀ q, Ordinary q → q ≠ p →
      (fsReadPath dev q maxlen s').1 = (fsReadPath dev q maxlen s).1) := by
  obtain ⟨stray, hready⟩ := h.ready hp fun s call _ hallow => hallow.fits s.toVolume
  have hinv := hready.inv
  have done : ∀ call : Call, call.OnPath p → call.run dev s = (.ok (), s') →
      Done stray s.toVolume call s'.toVolume ∧ Ready stray s'.toVolume := by
    intro call hcall hrun
    rcases hready.run_cases hp (hcall.ordinary hpath) hrun with ⟨-, h⟩ | ⟨ho, -⟩
    · exact h
    · cases ho
  refine ⟨?_, ?_, ?_, ?_⟩
  · intro data hrun hmax
    obtain ⟨⟨d, name, hparent, hst⟩, hready'⟩ := done (.writePath p data) rfl hrun
    have hfiles := (files_stored hinv (hinv.parent_kept hparent) (dataLength_le data) hst p).1 hparent
    rw [fsReadPath_files hp hready', hfiles, fileBlock_firstBytes, readResult,
      List.take_of_length_le]
    rw [List.length_take]
    omega
  · intro hrun
    obtain ⟨hc, hready'⟩ := done (.create p) rfl hrun
    obtain ⟨hnew, hold⟩ := files_created hinv (fun ht => absurd ht (by decide)) hc p
    rw [fsReadPath_files hp hready']
    split
    · next hcomp =>
        obtain ⟨b, hfiles⟩ := hnew rfl (.ofRoot (splitPath_component hcomp))
        rw [hfiles]
        simp [readResult, Bytes.firstBytes]
    · next hcomp =>
        rw [hold, fsReadPath_files hp hready]
        rintro ⟨-, hparent⟩
        rcases hpath.split with ⟨-, hc⟩ | ⟨_, _, hsplit, -⟩
        · exact hcomp hc
        · rw [(hinv.parent_root hparent).1] at hsplit
          cases hsplit
  · intro hrun
    obtain ⟨hr, hready'⟩ := done (.removePath p) rfl hrun
    rw [fsReadPath_files hp hready', files_removed hinv hpath hr hpath, if_pos rfl]
    rfl
  · intro call o hcall hrun q hq hne
    rcases hready.run_cases hp (hcall.ordinary hpath) hrun with ⟨-, hdone, hready'⟩ | ⟨-, hleft⟩
    · rw [fsReadPath_files hp hready', fsReadPath_files hp hready,
        files_done hinv hpath hcall hdone hq hne]
    · have hv := hcall.left hleft
      rw [fsReadPath_files hp (hv ▸ hready : Ready stray s'.toVolume), fsReadPath_files hp hready,
        hv]

/-- A file `b` is written in a directory `a` and read back. -/
theorem session_files_written :
    (fsReadPath .working pathAB 512 (fsWritePath .working pathAB nameB
      (Fs.started .working (fun _ => Bytes.zero) 0 [.mkdirPath nameA])).2).1 = .ok [98] :=
  (session_files Device.working_perfect
    (.started (by decide +kernel) fun call hcall _ _ => by revert call; decide)
    (by decide : Ordinary pathAB)).1 nameB (run_eq (by decide +kernel)) (by decide)

/-- `fs_create` takes `a/b` for a name in the root, where `fs_read_path` does not look. -/
theorem not_create_reads_empty :
    ¬ ∀ (dev : Device) (s s' : Fs) (p : CStr), dev.Perfect →
      Session dev (fun _ call _ => call.Ordinary) s → Ordinary p →
      fsCreate dev p s = (.ok (), s') → (fsReadPath dev p 512 s').1 = .ok [] := by
  intro h
  have hread := h .working (.started .working (fun _ => Bytes.zero) 0 []) _ pathAB
    Device.working_perfect (.started (by decide +kernel) fun call hcall _ _ => by cases hcall)
    (by decide) (run_eq (by decide +kernel))
  revert hread
  decide +kernel

end SevenOS
