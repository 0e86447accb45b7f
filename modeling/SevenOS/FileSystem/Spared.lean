import SevenOS.FileSystem.Renaming

/-! # What a call spares

A file of a top-level directory keeps its contents as long as no call writes,
moves or removes it, or moves or removes its directory.
-/

namespace SevenOS

variable {stray : InodeNo → Prop} {v v' : Volume} {p dirname name : CStr}

/-- The call neither writes, moves nor removes `dirname/name`, nor moves or empties
`dirname`. -/
def Call.Spares (dirname name : CStr) : Call → Prop
  | .writePath path _ => splitPath path ≠ some (dirname, name)
  | .copyPath srcPath dstPath =>
      splitPath dstPath ≠ some (dirname, name) ∧ ¬ (dstPath = dirname ∧ lastName srcPath = name)
  | .rename srcPath _ => srcPath ≠ dirname ∧ splitPath srcPath ≠ some (dirname, name)
  | .removePath path => splitPath path ≠ some (dirname, name)
  | .removePathRecursive path => path ≠ dirname ∧ splitPath path ≠ some (dirname, name)
  | .writePasswd _ => False
  | _ => True

instance (dirname name : CStr) (call : Call) : Decidable (call.Spares dirname name) :=
  match call with
  | .writePath .. | .removePath _ => inferInstanceAs (Decidable (_ ≠ _))
  | .copyPath .. | .rename .. | .removePathRecursive _ => inferInstanceAs (Decidable (_ ∧ _))
  | .writePasswd _ => inferInstanceAs (Decidable False)
  | .mkdirPath _ | .create _ => inferInstanceAs (Decidable True)

/-- Where the file is: an entry of the root, and an entry of that directory. -/
structure Volume.FileIn (v : Volume) (dirname name : CStr) (i : Slot) (d : InodeNo) (j : Slot)
    (k : InodeNo) : Prop where
  dir : Hit (v.dirAt 0) v.inodes dirname inodeDir i d
  file : Hit (v.dirAt d) v.inodes name inodeFile j k

namespace Inv

variable {i j : Slot} {d k : InodeNo}

theorem fileIn (h : Inv stray v) (hsplit : splitPath p = some (dirname, name))
    (hfile : v.resolve p inodeFile = some k) : ∃ i d j, v.FileIn dirname name i d j k := by
  obtain ⟨d, n, j, hparent, hit⟩ := (h.resolve_some (by decide)).mp hfile
  rw [Volume.Parent, hsplit] at hparent
  obtain ⟨⟨i, hdir⟩, rfl⟩ := hparent
  exact ⟨i, d, j, hdir, hit⟩

/-- A path to the entry of the file splits into its directory and its name. -/
theorem parent_of_file (h : Inv stray v) (hsplit : splitPath p = some (dirname, name))
    (hf : v.FileIn dirname name i d j k) {q : CStr} (hq : v.Parent q d name) :
    splitPath q = some (dirname, name) :=
  (h.parent_split (.ofDir hsplit hf.dir) hq).1.symm.trans hsplit

/-- A path to an entry of the file or of its directory. -/
theorem parent_of_either (h : Inv stray v) (hsplit : splitPath p = some (dirname, name))
    (hf : v.FileIn dirname name i d j k) {q n : CStr} {d' x : InodeNo} {j' : Slot}
    (hq : v.Parent q d' n) (he : v.dirAt d' j' = some (n, inodeByte x)) :
    (x = k → splitPath q = some (dirname, name)) ∧ (x = d → q = dirname) := by
  have hroot := h.linked.root
  have hd := h.keptDir hroot hf.dir
  constructor
  · rintro rfl
    obtain ⟨rfl, rfl⟩ := h.entry_det (h.parent_kept hq) hd he hf.file.entry
    exact h.parent_of_file hsplit hf hq
  · rintro rfl
    obtain ⟨rfl, rfl⟩ := h.entry_det (h.parent_kept hq) hroot he hf.dir.entry
    exact (h.parent_root hq).2.symm

theorem fileIn_not_below (h : Inv stray v) (hf : v.FileIn dirname name i d j k) {d' x : InodeNo}
    {j' : Slot} {n : CStr} (hd' : Kept stray v.inodes d')
    (he : v.dirAt d' j' = some (n, inodeByte x)) (hk : x ≠ k) (hd : x ≠ d) :
    ¬ Below (v.edge stray) x k := by
  have hroot := h.linked.root
  have e : v.edge stray d' j' x := ⟨hd', n, he⟩
  have one : ∀ {b l y}, v.edge stray b l y → x ≠ y → ¬ Below (v.edge stray) x b →
      ¬ Below (v.edge stray) x y := by
    intro b l y hedge hne hout hbelow
    obtain ⟨rfl, rfl⟩ := h.rooted.entered e hedge hbelow hout
    obtain ⟨-, n', he'⟩ := hedge
    have heq := he.symm.trans he'
    simp only [Option.some.injEq, Prod.mk.injEq] at heq
    exact hne (inodeByte_injective heq.2)
  have hout0 : ¬ Below (v.edge stray) x 0 := fun hbelow =>
    (h.linked.named hd' he).1 (h.rooted.below_root hbelow)
  have houtd := one ⟨hroot, dirname, hf.dir.entry⟩ hd hout0
  exact one ⟨h.keptDir hroot hf.dir, name, hf.file.entry⟩ hk houtd

/-- When another inode is moved, the file stays where it was. -/
theorem files_relinked_other (h : Inv stray v) (h' : Inv stray v')
    (hsplit : splitPath p = some (dirname, name)) (hf : v.FileIn dirname name i d j k)
    {x d' : InodeNo} {n : CStr} (hr : Relinked stray v x d' n v') (hk : x ≠ k) (hd : x ≠ d) :
    v'.files p = v.files p := by
  have hroot := h.linked.root
  obtain ⟨i', hdir'⟩ := (hr.hits 0 _ _ _ hroot).mpr (.inl ⟨hd.symm, i, hf.dir⟩)
  obtain ⟨j', hfile'⟩ := (hr.hits d _ _ _ (h.keptDir hroot hf.dir)).mpr (.inl ⟨hk.symm, j, hf.file⟩)
  rw [Volume.files, Volume.files,
    (h.resolve_some (by decide)).mpr ⟨d, name, j, .ofDir hsplit hf.dir, hf.file⟩,
    (h'.resolve_some (by decide)).mpr ⟨d, name, j', .ofDir hsplit hdir', hfile'⟩]
  exact congrArg some (relinked_contents hr hf.file.used hf.file.type)

end Inv

theorem files_spared (h : Sound stray v) (hsplit : splitPath p = some (dirname, name))
    (hfile : (v.files p).isSome) {call : Call} (hcall : call.Spares dirname name)
    (hdone : Done stray v call v') : v'.files p = v.files p := by
  have hinv := h.inv
  obtain ⟨k, hk⟩ := Option.isSome_iff_exists.mp (by simpa [Volume.files] using hfile)
  obtain ⟨i, d, j, hf⟩ := hinv.fileIn hsplit hk
  have hd0 : d ≠ 0 := (hinv.named hinv.linked.root hf.dir).1
  -- storing changes the map where the entry is
  have stored : ∀ {d' n size content}, Kept stray v.inodes d' → size.toNat ≤ 512 →
      Stored stray v d' n size content v' → ¬ (d' = d ∧ n = name) → v'.files p = v.files p := by
    intro d' n size content hd' hsize hst hne
    refine (files_stored hinv hd' hsize hst p).2 fun hparent => hne ?_
    exact hinv.parent_det hparent (.ofDir hsplit hf.dir)
  cases call with
  | mkdirPath path =>
      obtain ⟨d', n, -, hc⟩ := hdone
      exact (files_created hinv (fun _ _ => listing_zero) hc p).2 fun ht => absurd ht.1 (by decide)
  | create n =>
      refine (files_created hinv (fun ht => absurd ht (by decide)) hdone p).2 fun hparent => ?_
      exact hd0 (hinv.parent_det hparent.2 (.ofDir hsplit hf.dir)).1.symm
  | writePath path data =>
      obtain ⟨d', n, hparent, hst⟩ := hdone
      refine stored (hinv.parent_kept hparent) (dataLength_le data) hst ?_
      rintro ⟨rfl, rfl⟩
      exact hcall (hinv.parent_of_file hsplit hf hparent)
  | copyPath srcPath dstPath =>
      obtain ⟨src, d', n, ⟨_, _, _, _, hsrc⟩, htarget, hst⟩ := hdone
      refine stored (hinv.copyTarget_kept htarget) (hinv.alloc.sizeLe src hsrc.used) hst ?_
      rintro ⟨rfl, rfl⟩
      have hroot := hinv.linked.root
      unfold Volume.CopyTarget at htarget
      split at htarget
      · next dstDir dstName hdst =>
          obtain ⟨⟨i', hit⟩, rfl⟩ := htarget
          exact hcall.1 (hinv.parent_of_file hsplit hf (.ofDir hdst hit))
      · rcases htarget with ⟨⟨i', hit⟩, hn⟩ | ⟨-, hzero, -⟩
        · exact hcall.2 ⟨(hinv.entry_det hroot hroot hit.entry hf.dir.entry).2, hn.symm⟩
        · exact hd0 hzero
  | rename srcPath dstPath =>
      obtain ⟨d', n, j', x, type, d'', n', isDir, hparent, hentry, -, hcase⟩ := hdone.cases hinv
      rcases hcase with ⟨rfl, -⟩ | ⟨-, -, hlink⟩
      · rfl
      · obtain ⟨hnk, hnd⟩ := hinv.parent_of_either hsplit hf hparent hentry.1.entry
        exact hinv.files_relinked_other (h.done hdone).inv hsplit hf hlink
          (fun heq => hcall.2 (hnk heq)) fun heq => hcall.1 (hnd heq)
  | removePath path =>
      obtain ⟨d', n, j', x, type, v₁, hparent, rfl, hit, hrem, rfl⟩ := hdone
      obtain ⟨ws, hw⟩ := hinv.parent_walk hparent
      have hd' := hinv.parent_kept hparent
      refine files_cut hinv hw hd' hit.entry hrem fun y hy => ?_
      obtain rfl := Option.some.inj (hk.symm.trans hy)
      refine hinv.fileIn_not_below hf hd' hit.entry (fun heq => hcall ?_) fun heq => ?_
      · exact (hinv.parent_of_either hsplit hf hparent hit.entry).1 heq
      · have ht := hit.type
        rw [heq, hf.dir.type] at ht
        exact absurd ht (by decide)
  | removePathRecursive path =>
      obtain ⟨d', n, j', x, type, v₁, hparent, -, hit, hrem, rfl⟩ := hdone
      obtain ⟨ws, hw⟩ := hinv.parent_walk hparent
      have hd' := hinv.parent_kept hparent
      obtain ⟨hnk, hnd⟩ := hinv.parent_of_either hsplit hf hparent hit.entry
      refine files_cut hinv hw hd' hit.entry hrem fun y hy => ?_
      obtain rfl := Option.some.inj (hk.symm.trans hy)
      exact hinv.fileIn_not_below hf hd' hit.entry (fun heq => hcall.2 (hnk heq)) fun heq =>
        hcall.1 (hnd heq)
  | writePasswd hash => exact hcall.elim

end SevenOS
