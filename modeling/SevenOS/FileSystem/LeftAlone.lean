import SevenOS.FileSystem.Passwd
import SevenOS.FileSystem.Spared

/-! # What a call leaves alone

A file keeps its contents when a call succeeds that neither writes nor moves nor
removes it or the directory it is in, and whenever a call is refused. The file may
be one of the root, and the path may be any that leads to it.
-/

namespace SevenOS

variable {stray : InodeNo → Prop} {v v' : Volume} {p q : CStr}

/-! ## Paths -/

/-- Both paths lead to the same entry: only 29 characters of a first component count. -/
def SamePlace (p q : CStr) : Prop := splitPath p = splitPath q ∧ (splitPath p = none → p = q)

instance (p q : CStr) : Decidable (SamePlace p q) := inferInstanceAs (Decidable (_ ∧ (_ → _)))

/-- The directory that a path goes through. -/
def topName (path : CStr) : Option CStr := (splitPath path).map Prod.fst

theorem SamePlace.files (h : SamePlace p q) : v.files p = v.files q := by
  rw [Volume.files, Volume.files, Volume.resolve, Volume.resolve, ← h.1]
  cases hsplit : splitPath p with
  | none => rw [h.2 hsplit]
  | some parts => rfl

/-- The call neither writes, moves nor removes the file at `p`, nor moves or empties the
directory it is in. -/
def Call.Leaves (p : CStr) : Call → Prop
  | .writePath path _ => ¬ SamePlace path p
  | .copyPath srcPath dstPath =>
      ¬ SamePlace dstPath p ∧ splitPath p ≠ some (dstPath, lastName srcPath)
  | .rename srcPath _ => ¬ SamePlace srcPath p ∧ topName p ≠ some srcPath
  | .removePath path => ¬ SamePlace path p
  | .removePathRecursive path => ¬ SamePlace path p ∧ topName p ≠ some path
  | .writePasswd _ => p ≠ sysPasswd
  | _ => True

instance (p : CStr) (call : Call) : Decidable (call.Leaves p) :=
  match call with
  | .writePath .. | .removePath _ => inferInstanceAs (Decidable (¬ _))
  | .copyPath .. | .rename .. | .removePathRecursive _ => inferInstanceAs (Decidable (_ ∧ _))
  | .writePasswd _ => inferInstanceAs (Decidable (_ ≠ _))
  | .mkdirPath _ | .create _ => inferInstanceAs (Decidable True)

/-- In a directory this is what `Spares` asks for. -/
theorem Call.Leaves.spares {dirname name : CStr} {call : Call} (h : call.Leaves p)
    (hsplit : splitPath p = some (dirname, name)) (hpasswd : ∀ hash, call ≠ .writePasswd hash) :
    call.Spares dirname name := by
  have htop : topName p = some dirname := by rw [topName, hsplit, Option.map_some]
  have hplace : ∀ path, ¬ SamePlace path p → splitPath path ≠ some (dirname, name) := by
    intro path hpath heq
    refine hpath ⟨heq.trans hsplit.symm, fun hnone => ?_⟩
    rw [heq] at hnone
    cases hnone
  cases call with
  | mkdirPath path => trivial
  | create name => trivial
  | writePath path data => exact hplace path h
  | copyPath srcPath dstPath =>
      refine ⟨hplace dstPath h.1, ?_⟩
      rintro ⟨rfl, rfl⟩
      exact h.2 hsplit
  | rename srcPath dstPath =>
      refine ⟨fun heq => h.2 ?_, hplace srcPath h.1⟩
      rw [htop, heq]
  | removePath path => exact hplace path h
  | removePathRecursive path =>
      refine ⟨fun heq => h.2 ?_, hplace path h.1⟩
      rw [htop, heq]
  | writePasswd hash => exact (hpasswd hash rfl).elim

/-! ## Files of the root -/

namespace Inv

variable {j : Slot} {k : InodeNo}

theorem root_file (h : Inv stray v) (hsplit : splitPath p = none) :
    v.resolve p inodeFile = some k ↔ ∃ j, Hit (v.dirAt 0) v.inodes p inodeFile j k := by
  rw [Volume.resolve, hsplit]
  exact h.findIn_some h.linked.root (by decide)

/-- What is removed with another entry leaves a file of the root. -/
theorem root_file_not_below (h : Inv stray v) (hf : Hit (v.dirAt 0) v.inodes p inodeFile j k)
    {d' x : InodeNo} {j' : Slot} {n : CStr} (hd' : Kept stray v.inodes d')
    (he : v.dirAt d' j' = some (n, inodeByte x)) (hk : x ≠ k) : ¬ Below (v.edge stray) x k := by
  have hroot := h.linked.root
  have hout : ¬ Below (v.edge stray) x 0 := fun hbelow =>
    (h.linked.named hd' he).1 (h.rooted.below_root hbelow)
  intro hbelow
  obtain ⟨rfl, rfl⟩ := h.rooted.entered ⟨hd', n, he⟩ ⟨hroot, p, hf.entry⟩ hbelow hout
  have heq := he.symm.trans hf.entry
  simp only [Option.some.injEq, Prod.mk.injEq] at heq
  exact hk (inodeByte_injective heq.2)

theorem root_file_place (h : Inv stray v) (hsplit : splitPath p = none)
    (hf : Hit (v.dirAt 0) v.inodes p inodeFile j k) {d' : InodeNo} {j' : Slot} {n : CStr}
    (hparent : v.Parent q d' n) (he : v.dirAt d' j' = some (n, inodeByte k)) : SamePlace q p := by
  obtain ⟨rfl, rfl⟩ := h.entry_det (h.parent_kept hparent) h.linked.root he hf.entry
  exact h.parent_split hparent (.ofRoot hsplit)

end Inv

theorem files_left_root (h : Sound stray v) (hsplit : splitPath p = none)
    (hfile : (v.files p).isSome) {call : Call} (hcall : call.Leaves p)
    (hdone : Done stray v call v') : v'.files p = v.files p := by
  have hinv := h.inv
  obtain ⟨k, hk⟩ := Option.isSome_iff_exists.mp (by simpa [Volume.files] using hfile)
  obtain ⟨j, hf⟩ := (hinv.root_file hsplit).mp hk
  have hparent : v.Parent p 0 p := .ofRoot hsplit
  cases call with
  | mkdirPath path =>
      obtain ⟨d, n, -, hc⟩ := hdone
      exact (files_created hinv (fun _ _ => listing_zero) hc p).2 fun ht => absurd ht.1 (by decide)
  | create n =>
      have hnew := hdone
      obtain ⟨i, x, b, -, henter, -⟩ := hnew
      refine (files_created hinv (fun ht => absurd ht (by decide)) hdone p).2 fun hp => ?_
      obtain ⟨-, rfl⟩ := hinv.parent_det hparent hp.2
      exact henter.absent j k hf
  | writePath path data =>
      obtain ⟨d, n, hpath, hst⟩ := hdone
      refine (files_stored hinv (hinv.parent_kept hpath) (dataLength_le data) hst p).2 fun hp => ?_
      exact hcall (hinv.parent_split hpath hp)
  | copyPath srcPath dstPath =>
      obtain ⟨src, d, n, ⟨_, _, _, _, hsrc⟩, htarget, hst⟩ := hdone
      refine (files_stored hinv (hinv.copyTarget_kept htarget) (hinv.alloc.sizeLe src hsrc.used)
        hst p).2 fun hp => ?_
      obtain ⟨rfl, rfl⟩ := hinv.parent_det hparent hp
      -- the root is no directory of the root
      have hdir : ∀ i dirname, ¬ Hit (v.dirAt 0) v.inodes dirname inodeDir i 0 := fun i dirname hit =>
        (hinv.named hinv.linked.root hit).1 rfl
      unfold Volume.CopyTarget at htarget
      split at htarget
      · exact htarget.1.elim fun i hit => hdir i _ hit
      · next hdst =>
          rcases htarget with ⟨⟨i, hit⟩, -⟩ | ⟨-, -, rfl⟩
          · exact hdir i _ hit
          · exact hcall.1 ⟨rfl, fun _ => rfl⟩
  | rename srcPath dstPath =>
      obtain ⟨d, n, i, x, type, d', n', isDir, hsrc, hentry, -, hcase⟩ := hdone.cases hinv
      rcases hcase with ⟨rfl, -⟩ | ⟨-, -, hlink⟩
      · rfl
      · have hne : k ≠ x := by
          rintro rfl
          exact hcall.1 (hinv.root_file_place hsplit hf hsrc hentry.1.entry)
        obtain ⟨j', hf'⟩ := (hlink.hits 0 _ _ _ hinv.linked.root).mpr (.inl ⟨hne, j, hf⟩)
        rw [Volume.files, Volume.files, hk,
          ((h.done hdone).inv.root_file hsplit).mpr ⟨j', hf'⟩]
        exact congrArg some (Inv.relinked_contents hlink hf.used hf.type)
  | removePath path =>
      obtain ⟨d, n, i, x, type, v₁, hpath, rfl, hit, hrem, rfl⟩ := hdone
      obtain ⟨ws, hw⟩ := hinv.parent_walk hpath
      have hd := hinv.parent_kept hpath
      refine files_cut hinv hw hd hit.entry hrem fun y hy => ?_
      obtain rfl := Option.some.inj (hk.symm.trans hy)
      refine hinv.root_file_not_below hf hd hit.entry ?_
      rintro rfl
      exact hcall (hinv.root_file_place hsplit hf hpath hit.entry)
  | removePathRecursive path =>
      obtain ⟨d, n, i, x, type, v₁, hpath, -, hit, hrem, rfl⟩ := hdone
      obtain ⟨ws, hw⟩ := hinv.parent_walk hpath
      have hd := hinv.parent_kept hpath
      refine files_cut hinv hw hd hit.entry hrem fun y hy => ?_
      obtain rfl := Option.some.inj (hk.symm.trans hy)
      refine hinv.root_file_not_below hf hd hit.entry ?_
      rintro rfl
      exact hcall.1 (hinv.root_file_place hsplit hf hpath hit.entry)
  | writePasswd hash => exact SysStored.files_other hinv hdone hcall

/-! ## All files -/

theorem files_left (h : Sound stray v) (hfile : (v.files p).isSome) {call : Call}
    (hcall : call.Leaves p) (hdone : Done stray v call v') : v'.files p = v.files p := by
  cases hsplit : splitPath p with
  | none => exact files_left_root h hsplit hfile hcall hdone
  | some parts =>
      obtain ⟨dirname, name⟩ := parts
      by_cases hpasswd : ∃ hash, call = .writePasswd hash
      · obtain ⟨hash, rfl⟩ := hpasswd
        exact SysStored.files_other h.inv hdone hcall
      · exact files_spared h hsplit hfile
          (hcall.spares hsplit fun hash heq => hpasswd ⟨hash, heq⟩) hdone

theorem files_take (h : Inv stray v) {k : InodeNo} {ino : Inode} (hc : v.CanTake k ino) :
    (v.take k ino).files p = v.files p := by
  have hinodes : ∀ i, Live v.inodes i → (v.take k ino).inodes i = v.inodes i ∧
      (v.take k ino).blockOf i = v.blockOf i := by
    intro i hi
    have hne := (h.ne_of_canTake hc hi).1
    simp [Volume.blockOf, Volume.take, hne]
  have hresolve : (v.take k ino).resolve p inodeFile = v.resolve p inodeFile := by
    refine h.resolve_congr (h.take hc) (by decide) fun d n t i x hd => ?_
    have hdir : (v.take k ino).dirAt d = v.dirAt d := congrArg listing (hinodes d hd.1.1).2
    have hino : v.dirAt d i = some (n, inodeByte x) → (v.take k ino).inodes x = v.inodes x :=
      fun he => (hinodes x (h.linked.named hd he).2.1).1
    constructor
    · rintro ⟨he, hu, ht⟩
      rw [hdir] at he
      rw [hino he] at hu ht
      exact ⟨he, hu, ht⟩
    · rintro ⟨he, hu, ht⟩
      exact ⟨by rwa [hdir], by rwa [hino he], by rwa [hino he]⟩
  rw [Volume.files, hresolve, Volume.files]
  cases hk : v.resolve p inodeFile with
  | none => rfl
  | some x =>
      obtain ⟨hino, hblock⟩ := hinodes x (h.resolve_live (by decide) hk).1
      rw [Option.map_some, Option.map_some, Volume.contents, hino, hblock]
      rfl

theorem files_refused (h : Inv stray v) {call : Call} (hleft : Left stray v call v') :
    v'.files p = v.files p := by
  cases call with
  | writePasswd hash =>
      rcases hleft with ⟨-, rfl⟩ | ⟨-, ⟨k, ino, hc, -, -, -, -, rfl⟩ | ⟨k, -, hs⟩⟩
      · rfl
      · exact files_take h hc
      · exact hs.files h p
  | _ => rw [show v' = v from hleft]

end SevenOS
