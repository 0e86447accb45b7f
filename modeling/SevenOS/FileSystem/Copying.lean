import SevenOS.FileSystem.Renaming

/-! # Copying

A copy that returns true has put size and bytes of the source at one path and
left every other file as it was. Source and copy are different inodes unless the
copy went onto the source itself, so they never share a data block.
-/

namespace SevenOS

open Prog

variable {dev : Device} {stray : InodeNo → Prop} {v : Volume} {s : Fs}

/-- The block that the file at `path` keeps its bytes in. -/
def Volume.dataBlock (v : Volume) (path : CStr) : Option UInt32 :=
  (v.resolve path inodeFile).map fun k => (v.inodes k).direct0

theorem Inv.copyDest_parent (h : Inv stray v) {srcPath dstPath name : CStr} {d : InodeNo}
    (hdst : Ordinary dstPath) (ht : v.CopyTarget srcPath dstPath d name) :
    v.Parent (v.renameDest srcPath dstPath) d name := by
  unfold Volume.CopyTarget at ht
  unfold Volume.renameDest
  rcases hdst.split with ⟨hsplit, hc⟩ | ⟨dirname, rest, hsplit, -, -, -⟩
  · rw [hsplit] at ht ⊢
    rcases ht with ⟨⟨i, hit⟩, rfl⟩ | ⟨hmiss, rfl, rfl⟩
    · have hfound := (h.findIn_some h.linked.root (by decide)).mpr ⟨i, hit⟩
      rw [if_pos ⟨rfl, by rw [hfound]; rfl⟩]
      exact .ofDir (splitPath_join hc (joinPath_chars _ _)) hit
    · have hnone := (Volume.findIn_none (by decide)).mpr hmiss
      rw [if_neg (by simp [hnone])]
      exact .ofRoot hsplit
  · rw [hsplit] at ht ⊢
    obtain ⟨⟨i, hit⟩, rfl⟩ := ht
    rw [if_neg (by simp)]
    exact .ofDir hsplit hit

/-- Two ordinary paths to files share a block only when they are the same path. -/
theorem Inv.dataBlock_inj (h : Inv stray v) {p q : CStr} (hp : Ordinary p) (hq : Ordinary q)
    {b : UInt32} (hpb : v.dataBlock p = some b) (hqb : v.dataBlock q = some b) : p = q := by
  obtain ⟨k, hk, hkb⟩ := Option.map_eq_some_iff.mp hpb
  obtain ⟨m, hm, hmb⟩ := Option.map_eq_some_iff.mp hqb
  have hkm : k = m := h.alloc.blockInj k m (h.resolve_live (by decide) hk).1
    (h.resolve_live (by decide) hm).1 (hkb.trans hmb.symm)
  exact h.resolve_inj (by decide) hp hq hk (hkm ▸ hm)

theorem Volume.dataBlock_isSome {path : CStr} : (v.dataBlock path).isSome = (v.files path).isSome := by
  rw [Volume.dataBlock, Volume.files, Option.isSome_map, Option.isSome_map]

/-- What a copy has done to the map from paths to contents. -/
theorem files_copied (h : Inv stray v) {srcPath dstPath : CStr} (hsrc : Ordinary srcPath)
    (hdst : Ordinary dstPath) {v' : Volume} (hdone : Done stray v (.copyPath srcPath dstPath) v') :
    (v.files srcPath).isSome ∧ v'.files (v.renameDest srcPath dstPath) = v.files srcPath ∧
      ∀ q, Ordinary q → q ≠ v.renameDest srcPath dstPath → v'.files q = v.files q := by
  obtain ⟨k, d, name, ⟨d₀, n₀, j₀, hparent₀, hit₀⟩, htarget, hst⟩ := hdone
  have hkept := h.copyTarget_kept htarget
  have hparent := h.copyDest_parent hdst htarget
  have hfiles := fun q => files_stored h hkept (h.alloc.sizeLe k hit₀.used) hst q
  have hold : v.files srcPath = some (v.contents k) := by
    rw [Volume.files, (h.resolve_some (by decide)).mpr ⟨d₀, n₀, j₀, hparent₀, hit₀⟩]
    rfl
  refine ⟨by rw [hold]; rfl, ?_, ?_⟩
  · rw [hold]
    exact (hfiles _).1 hparent
  · intro q hq hne
    apply (hfiles q).2
    intro hqd
    exact hne (h.parent_inj hq (Inv.renameDest_ordinary hsrc hdst) hqd hparent)

theorem session_copied (hp : dev.Perfect) (h : Session dev (fun _ call _ => call.Ordinary) s)
    {src dst : CStr} (hsrc : Ordinary src) (hdst : Ordinary dst) {s' : Fs}
    (hrun : fsCopyPath dev src dst s = (.ok (), s')) :
    (∀ maxlen, ∃ bytes, (fsReadPath dev src maxlen s).1 = .ok bytes ∧
      (fsReadPath dev (s.toVolume.renameDest src dst) maxlen s').1 = .ok bytes) ∧
    (∀ q, Ordinary q → q = src ∨ q ≠ s.toVolume.renameDest src dst → ∀ maxlen,
      (fsReadPath dev q maxlen s').1 = (fsReadPath dev q maxlen s).1) ∧
    ∃ a b, s'.toVolume.dataBlock src = some a ∧
      s'.toVolume.dataBlock (s.toVolume.renameDest src dst) = some b ∧
      (s.toVolume.renameDest src dst ≠ src → b ≠ a) := by
  obtain ⟨stray, hready⟩ := h.ready hp fun s call _ hallow => hallow.fits s.toVolume
  have hcall : (Call.copyPath src dst).Ordinary := by
    simp [Call.Ordinary, Call.paths, hsrc, hdst]
  rcases hready.run_cases hp hcall hrun with ⟨-, hdone, hready'⟩ | ⟨ho, -⟩
  swap
  · cases ho
  have hdest : Ordinary (s.toVolume.renameDest src dst) := Inv.renameDest_ordinary hsrc hdst
  obtain ⟨hfound, hcopy, hother⟩ := files_copied hready.inv hsrc hdst hdone
  generalize s.toVolume.renameDest src dst = dest at hdest hcopy hother ⊢
  have hread := fun q maxlen => fsReadPath_files hp hready q maxlen
  have hread' := fun q maxlen => fsReadPath_files hp hready' q maxlen
  have hsame : ∀ q, Ordinary q → q = src ∨ q ≠ dest →
      s'.toVolume.files q = s.toVolume.files q := by
    intro q hq hcase
    by_cases hqd : q = dest
    · have hqs : q = src := hcase.resolve_right fun hne => hne hqd
      rw [hqd, hcopy, ← hqs, hqd]
    · exact hother q hq hqd
  refine ⟨?_, ?_, ?_⟩
  · intro maxlen
    obtain ⟨c, hc⟩ := Option.isSome_iff_exists.mp hfound
    exact ⟨c.take maxlen.toNat, by rw [hread, hc]; rfl, by rw [hread', hcopy, hc]; rfl⟩
  · intro q hq hcase maxlen
    rw [hread, hread', hsame q hq hcase]
  · have hsrc' : (s'.toVolume.dataBlock src).isSome := by
      rw [Volume.dataBlock_isSome, hsame src hsrc (.inl rfl)]
      exact hfound
    have hdest' : (s'.toVolume.dataBlock dest).isSome := by
      rw [Volume.dataBlock_isSome, hcopy]
      exact hfound
    obtain ⟨a, ha⟩ := Option.isSome_iff_exists.mp hsrc'
    obtain ⟨b, hb⟩ := Option.isSome_iff_exists.mp hdest'
    refine ⟨a, b, ha, hb, ?_⟩
    rintro hne rfl
    exact hne (hready'.inv.dataBlock_inj hdest hsrc hb ha)

/-- The file `a/b` is copied into the directory `c`. -/
theorem session_copied_intoDir :
    (∀ maxlen, ∃ bytes,
      (fsReadPath .working pathAB maxlen (.started .working (fun _ => Bytes.zero) 0 twoDirs)).1 =
        .ok bytes ∧
      (fsReadPath .working ((Fs.started .working (fun _ => Bytes.zero) 0
          twoDirs).toVolume.renameDest pathAB nameC) maxlen (fsCopyPath .working pathAB nameC
          (.started .working (fun _ => Bytes.zero) 0 twoDirs)).2).1 = .ok bytes) ∧
    (∀ q, Ordinary q → q = pathAB ∨ q ≠ (Fs.started .working (fun _ => Bytes.zero) 0
        twoDirs).toVolume.renameDest pathAB nameC → ∀ maxlen,
      (fsReadPath .working q maxlen (fsCopyPath .working pathAB nameC
          (.started .working (fun _ => Bytes.zero) 0 twoDirs)).2).1 =
        (fsReadPath .working q maxlen (.started .working (fun _ => Bytes.zero) 0 twoDirs)).1) ∧
    ∃ a b, (fsCopyPath .working pathAB nameC
          (.started .working (fun _ => Bytes.zero) 0 twoDirs)).2.toVolume.dataBlock pathAB =
        some a ∧
      (fsCopyPath .working pathAB nameC
          (.started .working (fun _ => Bytes.zero) 0 twoDirs)).2.toVolume.dataBlock
          ((Fs.started .working (fun _ => Bytes.zero) 0 twoDirs).toVolume.renameDest pathAB
            nameC) = some b ∧
      ((Fs.started .working (fun _ => Bytes.zero) 0 twoDirs).toVolume.renameDest pathAB nameC ≠
        pathAB → b ≠ a) := by
  have hsession : Session .working (fun _ call _ => call.Ordinary)
      (Fs.started .working (fun _ => Bytes.zero) 0 twoDirs) :=
    .started (by decide +kernel) fun call hcall _ _ => by revert call; decide
  have hrun : fsCopyPath .working pathAB nameC
      (Fs.started .working (fun _ => Bytes.zero) 0 twoDirs) = (.ok (), _) :=
    run_eq (by decide +kernel)
  exact session_copied Device.working_perfect hsession (by decide) (by decide) hrun

end SevenOS
