import SevenOS.FileSystem.Renaming

/-! # Names of top-level directories

`fs_mkdir_path`, `fs_rename` and `write_sys_file` are the only ways for a directory
into the root, and none of them gives it a name with a `/` as long as the
components of the paths are ordinary.
-/

namespace SevenOS

open Prog

variable {dev : Device} {stray : InodeNo → Prop} {v v' v'' : Volume} {s : Fs}

/-- No directory in the root has a `/` in its name. -/
def Volume.PlainDirs (v : Volume) : Prop :=
  ∀ i k name, Hit (v.dirAt 0) v.inodes name inodeDir i k → slash ∉ name.chars

/-- The directories of the root are the old ones and perhaps one of a plain name. -/
def PlainStep (v v' : Volume) : Prop :=
  ∀ i k name, Hit (v'.dirAt 0) v'.inodes name inodeDir i k →
    (∃ i, Hit (v.dirAt 0) v.inodes name inodeDir i k) ∨ slash ∉ name.chars

theorem Volume.PlainDirs.step (h : v.PlainDirs) (hs : PlainStep v v') : v'.PlainDirs := by
  intro i k name hit
  rcases hs i k name hit with ⟨i', hold⟩ | hplain
  · exact h i' k name hold
  · exact hplain

namespace PlainStep

theorem of_hits (h : ∀ i k name, Hit (v'.dirAt 0) v'.inodes name inodeDir i k →
    Hit (v.dirAt 0) v.inodes name inodeDir i k) : PlainStep v v' :=
  fun i k name hit => .inl ⟨i, h i k name hit⟩

theorem refl (v : Volume) : PlainStep v v := of_hits fun _ _ _ hit => hit

theorem trans (h : PlainStep v v') (h' : PlainStep v' v'') : PlainStep v v'' := by
  intro i k name hit
  rcases h' i k name hit with ⟨i', hold⟩ | hplain
  · exact h i' k name hold
  · exact .inr hplain

theorem flush (h : Inv stray v) : PlainStep v v.flush :=
  of_hits fun _ _ _ hit => (h.hit_flush h.linked.root).mp hit

theorem create (h : Inv stray v) {d k : InodeNo} {j : Slot} {name : CStr} {ino : Inode}
    {content : Block} (hc : v.CanTake k ino) (he : v.CanEnter stray d j name ino.type)
    (hname : ino.type = inodeDir → slash ∉ name.chars) :
    PlainStep v (v.create d j name k ino content) := by
  intro i x n hit
  rcases (h.hit_create hc he h.linked.root).mp hit with hold | ⟨-, -, -, rfl, ht⟩
  · exact .inl ⟨i, hold⟩
  · exact .inr (hname ht.symm)

theorem take (h : Inv stray v) {k : InodeNo} {ino : Inode} (hc : v.CanTake k ino) :
    PlainStep v (v.take k ino) := by
  intro i x n hit
  have hentry : v.dirAt 0 i = some (n, inodeByte x) := by
    have he := hit.entry
    rw [Volume.dirAt, Volume.blockOf, h.inodes_take hc h.rootLive] at he
    exact he
  have hsame := h.inodes_take hc (h.linked.named h.linked.root hentry).2.1
  have hused := hit.used
  have htype := hit.type
  rw [hsame] at hused htype
  exact .inl ⟨i, hentry, hused, htype⟩

theorem created (h : Inv stray v) {d : InodeNo} {name : CStr} {type : UInt8} {size : UInt32}
    {content : UInt32 → Block}
    (hempty : type = inodeDir → ∀ b, listing (content b) = fun _ => none)
    (hname : type = inodeDir → slash ∉ name.chars)
    (hc : Created stray v d name type size content v') : PlainStep v v' := by
  obtain ⟨j, k, b, htake, henter, hk0, rfl⟩ := hc
  exact (create h htake henter hname).trans
    (flush (h.create htake henter hk0 fun ht => hempty ht b))

theorem stored (h : Inv stray v) {d : InodeNo} {name : CStr} {size : UInt32} {content : Block}
    (hsize : size.toNat ≤ 512) (hs : Stored stray v d name size content v') : PlainStep v v' := by
  rcases hs with hc | ⟨j, k, hit, rfl⟩
  · exact created h (fun ht => absurd ht (by decide)) (fun ht => absurd ht (by decide)) hc
  · have hold : PlainStep v (v.rewrite k size content) :=
      of_hits fun _ _ _ hit' => (h.hit_rewrite hit.used hit.type h.linked.root).mp hit'
    exact hold.trans (flush (h.rewrite hit.used hit.type hsize content))

theorem sysDir (h : Inv stray v) {k : InodeNo} (hs : SysDir stray v v' k) : PlainStep v v' := by
  rcases hs with ⟨-, rfl⟩ | ⟨j, b, -, -, htake, henter, -, rfl⟩
  · exact refl _
  · exact create h htake henter fun _ => by decide

theorem sysStored (h : Inv stray v) {filename : CStr} {size : UInt32} {content : Block}
    (hsize : size.toNat ≤ 512) (hst : SysStored stray v filename size content v') :
    PlainStep v v' := by
  obtain ⟨-, v₁, d, hs, hst⟩ := hst
  exact (sysDir h hs).trans (stored (hs.inv h).1 hsize hst)

theorem removedAt (h : Inv stray v) {path : CStr} {types : UInt8 → Prop}
    (hr : RemovedAt stray v path types v') : PlainStep v v' := by
  obtain ⟨d, name, j, k, type, v₁, hparent, -, hit, hrem, rfl⟩ := hr
  obtain ⟨ws, hw⟩ := h.parent_walk hparent
  have hd := h.parent_kept hparent
  have hroot : ¬ Below (v.edge stray) k 0 := fun hb =>
    (h.linked.named hd hit.entry).1 (h.rooted.below_root hb)
  have hold : PlainStep v v₁ := of_hits fun _ _ _ hit' =>
    ((h.hit_removed hd hit.entry hrem h.linked.root hroot).mp hit').1
  exact hold.trans (flush (h.removed_below hw hd hit.entry hrem))

theorem renamed (h : Inv stray v) {srcPath dstPath : CStr} (hsrc : Ordinary srcPath)
    (hdst : Ordinary dstPath) (hr : Renamed v srcPath dstPath v') : PlainStep v v' := by
  obtain ⟨d, srcName, j, k, type, d', name, isDir, hparent, -, htarget, hcase⟩ := hr.cases h
  rcases hcase with ⟨rfl, -⟩ | ⟨-, -, hlink⟩
  · exact refl _
  -- the entry keeps the last name of the old path or takes one of the new path
  have hplain : slash ∉ name.chars := by
    have hsrcName : slash ∉ srcName.chars := hparent.lastName ▸ hsrc.lastName.2.2
    unfold Volume.RenameTarget at htarget
    rcases hdst.split with ⟨hsplit, hc⟩ | ⟨dirname, rest, hsplit, -, hn, -⟩
    · rw [hsplit] at htarget
      rcases htarget with ⟨-, rfl, -⟩ | ⟨-, -, rfl, -⟩
      · exact hsrcName
      · exact hc.2.2
    · rw [hsplit] at htarget
      rcases htarget with ⟨-, ⟨-, rfl, -⟩ | ⟨-, rfl, -⟩⟩
      · exact hsrcName
      · exact hn.2.2
  intro i x n hit
  rcases (hlink.hits 0 _ _ _ h.linked.root).mp ⟨i, hit⟩ with ⟨-, hold⟩ | ⟨-, -, rfl, -⟩
  · exact .inl hold
  · exact .inr hplain

theorem done (h : Inv stray v) {call : Call} (hcall : call.Ordinary)
    (hdone : Done stray v call v') : PlainStep v v' := by
  cases call with
  | mkdirPath path =>
      obtain ⟨d, name, hparent, hc⟩ := hdone
      have hname : Component name := hparent.lastName ▸ (hcall path (by simp [Call.paths])).lastName
      exact created h (fun _ _ => listing_zero) (fun _ => hname.2.2) hc
  | create name =>
      exact created h (fun ht => absurd ht (by decide)) (fun ht => absurd ht (by decide)) hdone
  | writePath path data =>
      obtain ⟨d, name, -, hst⟩ := hdone
      exact stored h (dataLength_le data) hst
  | copyPath srcPath dstPath =>
      obtain ⟨k, d, name, ⟨_, _, _, _, hsrc⟩, -, hst⟩ := hdone
      exact stored h (h.alloc.sizeLe k hsrc.used) hst
  | rename srcPath dstPath =>
      exact renamed h (hcall srcPath (by simp [Call.paths])) (hcall dstPath (by simp [Call.paths]))
        hdone
  | removePath path => exact removedAt h hdone
  | removePathRecursive path => exact removedAt h hdone
  | writePasswd hash => exact sysStored h (by decide) hdone

theorem left (h : Inv stray v) {call : Call} (hleft : Left stray v call v') : PlainStep v v' := by
  cases call with
  | writePasswd hash =>
      rcases hleft with ⟨-, rfl⟩ | ⟨-, ⟨k, ino, hc, -, -, -, -, rfl⟩ | ⟨k, -, hs⟩⟩
      · exact refl _
      · exact take h hc
      · exact sysDir h hs
  | _ =>
      obtain rfl : v' = v := hleft
      exact refl _

end PlainStep

theorem fsFormat_plainDirs {totalBlocks inodeCount : UInt32} {s' : Fs} (hp : dev.Perfect)
    (hrun : fsFormat dev totalBlocks inodeCount s = (.ok (), s')) : s'.toVolume.PlainDirs := by
  obtain ⟨v₀, v₁, v₂, h₀, -, halone, hstatus, hpasswd, hv⟩ := fsFormat_steps hp hrun
  have hempty : v₀.PlainDirs := fun i k name hit =>
    ((h₀.inv.named h₀.inv.linked.root hit).1 (halone k hit.used)).elim
  have h₁ := (SysStored.flushed h₀ (by decide) hstatus).sound
  have hlast := (hempty.step (.sysStored h₀.inv (by decide) hstatus)).step
    (.sysStored h₁.inv (by decide) hpasswd)
  rw [hv]
  exact hlast

theorem Session.plainDirs (hp : dev.Perfect) (h : Session dev (fun _ call _ => call.Ordinary) s) :
    ∃ stray, Ready stray s.toVolume ∧ s.toVolume.PlainDirs := by
  induction h with
  | format _ _ hrun => exact ⟨_, (fsFormat_ready hp hrun).1, fsFormat_plainDirs hp hrun⟩
  | @call s s' call o _ hallow hrun ih =>
      obtain ⟨stray, hready, hplain⟩ := ih
      rcases Call.run_cases hp hready.inv (hallow.fits _) hrun with ⟨-, hdone⟩ | ⟨-, hleft⟩
      · exact ⟨stray, ⟨hready.done hdone, hdone.mounted.trans hready.mounted⟩,
          hplain.step (.done hready.inv hallow hdone)⟩
      · obtain ⟨stray', -, hsound⟩ := hready.left hleft
        exact ⟨stray', ⟨hsound, hleft.mounted.trans hready.mounted⟩,
          hplain.step (.left hready.inv hleft)⟩

end SevenOS
