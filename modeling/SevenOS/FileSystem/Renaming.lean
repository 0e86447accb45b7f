import SevenOS.FileSystem.Refusals

/-! # Renaming

A rename moves one entry and touches neither bitmap nor inode table. What that
means for paths depends on what the entry names: a file is found under the new
path and no longer under the old one, and a directory takes its files along, as
long as it stays in the root, where the lookups can follow.
-/

namespace SevenOS

open Prog

variable {dev : Device} {stray : InodeNo → Prop} {v v' : Volume} {s : Fs}

/-! ## One entry elsewhere -/

/-- Inode `k` is now listed in directory `d'` under `name` and nowhere else. -/
structure Relinked (stray : InodeNo → Prop) (v : Volume) (k d' : InodeNo) (name : CStr)
    (v' : Volume) : Prop where
  inodes : v'.inodes = v.inodes
  bitmap : v'.bitmap = v.bitmap
  hits : ∀ d n t x, Kept stray v.inodes d → ((∃ i, Hit (v'.dirAt d) v'.inodes n t i x) ↔
    (x ≠ k ∧ ∃ i, Hit (v.dirAt d) v.inodes n t i x) ∨
      (x = k ∧ d = d' ∧ n = name ∧ t = (v.inodes k).type))
  files : ∀ x, Live v.inodes x → (v.inodes x).type = inodeFile → v'.blockOf x = v.blockOf x

namespace Inv

/-- The entry leaves slot `j` of `d` and then enters slot `j'` of `d'`. -/
theorem relinked_hits (h : Inv stray v) {d d' : InodeNo} {j j' : Slot} {old name : CStr}
    {k : InodeNo} (hd : Kept stray v.inodes d) (hold : v.dirAt d j = some (old, inodeByte k))
    {left : InodeNo → Listing} (hleft : left = assign v.dirAt d (assign (v.dirAt d) j none))
    (hfree : left d' j' = none) (hinodes : v'.inodes = v.inodes)
    (hdir : ∀ i, Live v.inodes i → v'.dirAt i =
      assign left d' (assign (left d') j' (some (name, inodeByte k))) i) (d₀ : InodeNo) (n : CStr)
    (t : UInt8) (x : InodeNo) (hd₀ : Kept stray v.inodes d₀) :
    (∃ i, Hit (v'.dirAt d₀) v'.inodes n t i x) ↔
      (x ≠ k ∧ ∃ i, Hit (v.dirAt d₀) v.inodes n t i x) ∨
        (x = k ∧ d₀ = d' ∧ n = name ∧ t = (v.inodes k).type) := by
  have stays : ∀ {d₀ i e}, left d₀ i = some e ↔ v.dirAt d₀ i = some e ∧ ¬ (d₀ = d ∧ i = j) := by
    intro d₀ i e
    subst hleft
    by_cases hdd : d₀ = d
    · subst hdd
      by_cases hij : i = j
      · subst hij; simp
      · simp [hij]
    · simp [hdd]
  -- the entry of `k` was the only one
  have once : ∀ {d₀ i n}, Kept stray v.inodes d₀ → v.dirAt d₀ i = some (n, inodeByte k) →
      d₀ = d ∧ i = j := fun hk he => h.linked.once _ _ _ _ _ _ _ hk hd he hold
  obtain ⟨-, hk, -⟩ := h.linked.named hd hold
  have old_of : ∀ {i}, left d₀ i = some (n, inodeByte x) → (v.inodes x).used ≠ 0 →
      (v.inodes x).type = t → x ≠ k ∧ ∃ i, Hit (v.dirAt d₀) v.inodes n t i x := by
    intro i he hu ht
    obtain ⟨he, hne⟩ := stays.mp he
    refine ⟨?_, i, he, hu, ht⟩
    rintro rfl
    exact hne (once hd₀ he)
  constructor
  · rintro ⟨i, he, hu, ht⟩
    rw [hinodes] at hu ht
    rw [hdir d₀ hd₀.1.1] at he
    by_cases hdd : d₀ = d'
    · subst hdd
      rw [assign_same] at he
      by_cases hij : i = j'
      · subst hij
        rw [assign_same] at he
        simp only [Option.some.injEq, Prod.mk.injEq] at he
        obtain rfl := inodeByte_injective he.2
        exact .inr ⟨rfl, rfl, he.1.symm, ht.symm⟩
      · rw [assign_of_ne _ _ hij] at he
        exact .inl (old_of he hu ht)
    · rw [assign_of_ne _ _ hdd] at he
      exact .inl (old_of he hu ht)
  · rintro (⟨hxk, i, he, hu, ht⟩ | ⟨rfl, rfl, rfl, rfl⟩)
    · have hl : left d₀ i = some (n, inodeByte x) := by
        refine stays.mpr ⟨he, ?_⟩
        rintro ⟨rfl, rfl⟩
        have heq := he.symm.trans hold
        simp only [Option.some.injEq, Prod.mk.injEq] at heq
        exact hxk (inodeByte_injective heq.2)
      refine ⟨i, ?_, by rwa [hinodes], by rwa [hinodes]⟩
      rw [hdir d₀ hd₀.1.1]
      by_cases hdd : d₀ = d'
      · subst hdd
        have hij : i ≠ j' := by
          rintro rfl
          rw [hfree] at hl
          cases hl
        rw [assign_same, assign_of_ne _ _ hij]
        exact hl
      · rw [assign_of_ne _ _ hdd]
        exact hl
    · refine ⟨j', ?_, by rwa [hinodes], by rw [hinodes]⟩
      rw [hdir d₀ hd₀.1.1, assign_same, assign_same]

theorem relinked_renameAt (h : Inv stray v) {d : InodeNo} {j : Slot} {old name : CStr}
    {k : InodeNo} (hd : Kept stray v.inodes d) (hold : v.dirAt d j = some (old, inodeByte k))
    (hname : name.length < 30) : Relinked stray v k d name (v.renameAt d j name) := by
  refine ⟨rfl, rfl, ?_, fun x hx hfile => ?_⟩
  · have hfree : assign v.dirAt d (assign (v.dirAt d) j none) d j = none := by
      rw [assign_same, assign_same]
    refine h.relinked_hits hd hold rfl hfree rfl fun i hi => ?_
    rw [h.dirAt_renameAt hd hold hname hi, assign_same, assign_assign, assign_assign]
  · rw [Volume.renameAt, h.blockOf_setData hd.1.1 hx, if_neg (Inv.dir_ne_file hd.1 hfile).symm]

theorem relinked_move (h : Inv stray v) {d d' : InodeNo} {j j' : Slot} {old name : CStr}
    {k : InodeNo} (hd : Kept stray v.inodes d) (hold : v.dirAt d j = some (old, inodeByte k))
    (hd' : Kept stray v.inodes d') (hne : d' ≠ d) (hfree : v.dirAt d' j' = none)
    (hname : name.length < 30) : Relinked stray v k d' name (v.move d j d' j' k name) := by
  refine ⟨rfl, rfl, ?_, fun x hx hfile => ?_⟩
  · have hfree' : assign v.dirAt d (assign (v.dirAt d) j none) d' j' = none := by
      rwa [assign_of_ne _ _ hne]
    refine h.relinked_hits hd hold rfl hfree' rfl fun i hi => ?_
    rw [h.dirAt_move hd hd' hname hi, assign_of_ne v.dirAt _ hne]
  · have h₁ := h.clearEntry hd j
    have hlast := h₁.blockOf_setData hd'.1.1 hx (SevenOS.fillEntry (v.blockOf d') j' k name)
    rw [if_neg (Inv.dir_ne_file hd'.1 hfile).symm] at hlast
    exact hlast.trans ((h.blockOf_setData hd.1.1 hx _).trans
      (if_neg (Inv.dir_ne_file hd.1 hfile).symm))

end Inv

/-- Where the entry of a rename ends up: a rename that returns true has either moved it,
to a place where its name was free, or found it there. -/
theorem Renamed.cases (h : Inv stray v) {srcPath dstPath : CStr}
    (hr : Renamed v srcPath dstPath v') : ∃ d srcName j k type d' name isDir,
      v.Parent srcPath d srcName ∧ v.RenameEntry d srcName j k type ∧
      v.RenameTarget srcName dstPath d' name isDir ∧
      (v' = v ∧ (isDir = true ∧ type = inodeDir ∧ d' = k ∨ d' = d ∧ name = srcName) ∨
        (∀ i k', ¬ Hit (v.dirAt d') v.inodes name type i k') ∧
          ¬ (isDir = true ∧ type = inodeDir ∧ d' = k) ∧ Relinked stray v k d' name v') := by
  rcases hr with ⟨rfl, d, srcName, j, k, type, d', name, isDir, hparent, hentry, htarget, hstay⟩ |
    ⟨d, srcName, j, k, type, d', name, isDir, hparent, hentry, htarget, hself, hfits, habsent, hv'⟩
  · exact ⟨d, srcName, j, k, type, d', name, isDir, hparent, hentry, htarget, .inl ⟨rfl, hstay⟩⟩
  · refine ⟨d, srcName, j, k, type, d', name, isDir, hparent, hentry, htarget,
      .inr ⟨habsent, hself, ?_⟩⟩
    have hd := h.parent_kept hparent
    rcases hv' with ⟨rfl, rfl⟩ | ⟨hne, j', hfree, rfl⟩
    · exact h.relinked_renameAt hd hentry.1.entry hfits.2
    · exact h.relinked_move hd hentry.1.entry (h.renameTarget_kept htarget) hne hfree hfits.2

/-! ## Renaming a file -/

/-- The path of a file after a rename: inside `dstPath` if that is a top-level directory. -/
def Volume.renameDest (v : Volume) (srcPath dstPath : CStr) : CStr :=
  if splitPath dstPath = none ∧ (v.findIn 0 dstPath inodeDir).isSome then
    joinPath dstPath (lastName srcPath)
  else dstPath

theorem Volume.Parent.lastName {path name : CStr} {d : InodeNo} (h : v.Parent path d name) :
    name = lastName path := by
  unfold Volume.Parent at h
  unfold SevenOS.lastName
  split at h <;> simp only [*]

theorem Ordinary.lastName {path : CStr} (h : Ordinary path) : Component (lastName path) := by
  unfold SevenOS.lastName
  rcases h.split with ⟨hsplit, hc⟩ | ⟨dirname, name, hsplit, -, hn, -⟩
  · rw [hsplit]
    exact hc
  · rw [hsplit]
    exact hn

namespace Inv

theorem renameDest_parent (h : Inv stray v) {srcPath dstPath srcName name : CStr} {d' : InodeNo}
    {isDir : Bool} (hdst : Ordinary dstPath) (hname : srcName = lastName srcPath)
    (ht : v.RenameTarget srcName dstPath d' name isDir) :
    v.Parent (v.renameDest srcPath dstPath) d' name := by
  unfold Volume.RenameTarget at ht
  unfold Volume.renameDest
  rcases hdst.split with ⟨hsplit, hc⟩ | ⟨dirname, rest, hsplit, -, hn, -⟩
  · rw [hsplit] at ht ⊢
    rcases ht with ⟨⟨i, hit⟩, rfl, -⟩ | ⟨hmiss, rfl, rfl, -⟩
    · have hfound := (h.findIn_some h.linked.root (by decide)).mpr ⟨i, hit⟩
      rw [if_pos ⟨rfl, by rw [hfound]; rfl⟩, ← hname]
      exact .ofDir (splitPath_join hc (joinPath_chars _ _)) hit
    · have hnone := (Volume.findIn_none (by decide)).mpr hmiss
      rw [if_neg (by rw [hnone]; simp)]
      exact .ofRoot hsplit
  · rw [hsplit] at ht ⊢
    obtain ⟨⟨i, hit⟩, ⟨rfl, -⟩ | ⟨-, rfl, -⟩⟩ := ht
    · exact absurd hn.1 (by decide)
    · rw [if_neg (by simp)]
      exact .ofDir hsplit hit

theorem renameDest_ordinary {srcPath dstPath : CStr} (hsrc : Ordinary srcPath)
    (hdst : Ordinary dstPath) : Ordinary (v.renameDest srcPath dstPath) := by
  unfold Volume.renameDest
  split
  · next hdir =>
      rcases hdst.split with ⟨-, hc⟩ | ⟨dirname, name, hsplit, -⟩
      · exact .inr ⟨dstPath, lastName srcPath, hc, hsrc.lastName, joinPath_chars _ _⟩
      · rw [hsplit] at hdir
        cases hdir.1
  · exact hdst

/-- Moving a file leaves the directories of all paths alone. -/
theorem relinked_resolve (h : Inv stray v) (h' : Inv stray v') {k d' : InodeNo} {name : CStr}
    (hfile : (v.inodes k).type = inodeFile) (hr : Relinked stray v k d' name v') {path : CStr}
    {x : InodeNo} : v'.resolve path inodeFile = some x ↔
      (x ≠ k ∧ v.resolve path inodeFile = some x) ∨ (x = k ∧ v.Parent path d' name) := by
  have hroot := h.linked.root
  have dirs : ∀ {n x}, (∃ i, Hit (v'.dirAt 0) v'.inodes n inodeDir i x) ↔
      ∃ i, Hit (v.dirAt 0) v.inodes n inodeDir i x := by
    intro n x
    rw [hr.hits 0 n inodeDir x hroot]
    constructor
    · rintro (⟨-, hit⟩ | ⟨-, -, -, ht⟩)
      · exact hit
      · rw [hfile] at ht
        exact absurd ht (by decide)
    · rintro ⟨i, hit⟩
      refine .inl ⟨?_, i, hit⟩
      rintro rfl
      exact absurd (hit.type.symm.trans hfile) (by decide)
  rw [h'.resolve_some (by decide), h.resolve_some (by decide)]
  unfold Volume.Parent
  cases splitPath path with
  | none =>
      constructor
      · rintro ⟨d, n, i, ⟨rfl, rfl⟩, hit⟩
        rcases (hr.hits 0 _ _ _ hroot).mp ⟨i, hit⟩ with ⟨hx, i, hit⟩ | ⟨hx, hd, hn, -⟩
        · exact .inl ⟨hx, 0, _, i, ⟨rfl, rfl⟩, hit⟩
        · exact .inr ⟨hx, hd.symm, hn.symm⟩
      · rintro (⟨hx, d, n, i, ⟨rfl, rfl⟩, hit⟩ | ⟨rfl, rfl, rfl⟩)
        · obtain ⟨i, hit⟩ := (hr.hits 0 _ _ _ hroot).mpr (.inl ⟨hx, i, hit⟩)
          exact ⟨0, _, i, ⟨rfl, rfl⟩, hit⟩
        · obtain ⟨i, hit⟩ := (hr.hits 0 name inodeFile x hroot).mpr (.inr ⟨rfl, rfl, rfl, hfile.symm⟩)
          exact ⟨0, _, i, ⟨rfl, rfl⟩, hit⟩
  | some parts =>
      constructor
      · rintro ⟨d, n, i, ⟨hdir, rfl⟩, hit⟩
        obtain ⟨i', hdir'⟩ := dirs.mp hdir
        have hd := h.keptDir hroot hdir'
        rcases (hr.hits d _ _ _ hd).mp ⟨i, hit⟩ with ⟨hx, i, hit⟩ | ⟨hx, rfl, hn, -⟩
        · exact .inl ⟨hx, d, _, i, ⟨⟨i', hdir'⟩, rfl⟩, hit⟩
        · exact .inr ⟨hx, ⟨i', hdir'⟩, hn.symm⟩
      · rintro (⟨hx, d, n, i, ⟨⟨i', hdir⟩, rfl⟩, hit⟩ | ⟨rfl, ⟨i', hdir⟩, rfl⟩)
        · obtain ⟨i, hit⟩ := (hr.hits d _ _ _ (h.keptDir hroot hdir)).mpr (.inl ⟨hx, i, hit⟩)
          exact ⟨d, _, i, ⟨dirs.mpr ⟨i', hdir⟩, rfl⟩, hit⟩
        · obtain ⟨i, hit⟩ := (hr.hits d' _ inodeFile x (h.keptDir hroot hdir)).mpr
            (.inr ⟨rfl, rfl, rfl, hfile.symm⟩)
          exact ⟨d', _, i, ⟨dirs.mpr ⟨i', hdir⟩, rfl⟩, hit⟩

theorem relinked_contents {k d' x : InodeNo} {name : CStr} (hr : Relinked stray v k d' name v')
    (hx : Live v.inodes x) (hfile : (v.inodes x).type = inodeFile) :
    v'.contents x = v.contents x := by
  rw [Volume.contents, hr.files x hx hfile, hr.inodes]
  rfl

end Inv

/-- The map after a file moved from `p` to `r`. -/
theorem files_relinked (h : Inv stray v) (h' : Inv stray v') {p r : CStr} (hp : Ordinary p)
    (hrord : Ordinary r) {k d' : InodeNo} {name : CStr} (hpk : v.resolve p inodeFile = some k)
    (hparent : v.Parent r d' name) (hr : Relinked stray v k d' name v') {q : CStr}
    (hq : Ordinary q) :
    v'.files q = if q = r then v.files p else if q = p then none else v.files q := by
  obtain ⟨hk, hfile⟩ := h.resolve_live (by decide) hpk
  have hresolve : ∀ {q x}, v'.resolve q inodeFile = some x ↔
      (x ≠ k ∧ v.resolve q inodeFile = some x) ∨ (x = k ∧ v.Parent q d' name) :=
    h.relinked_resolve h' hfile hr
  by_cases hqr : q = r
  · rw [if_pos hqr, Volume.files, Volume.files, hpk, hresolve.mpr (.inr ⟨rfl, hqr ▸ hparent⟩)]
    exact congrArg some (Inv.relinked_contents hr hk hfile)
  · rw [if_neg hqr, Volume.files]
    have hold : ∀ {x}, v'.resolve q inodeFile = some x ↔
        x ≠ k ∧ v.resolve q inodeFile = some x := by
      intro x
      rw [hresolve]
      refine ⟨fun hx => hx.resolve_right fun hx => ?_, .inl⟩
      exact hqr (h.parent_inj hq hrord hx.2 hparent)
    by_cases hqp : q = p
    · rw [if_pos hqp]
      refine Option.map_eq_none_iff.mpr (Option.eq_none_iff_forall_ne_some.mpr fun x hx => ?_)
      obtain ⟨hne, hx⟩ := hold.mp hx
      rw [hqp, hpk] at hx
      exact hne (Option.some.inj hx).symm
    · rw [if_neg hqp, Volume.files]
      cases hx : v.resolve q inodeFile with
      | none =>
          refine Option.map_eq_none_iff.mpr (Option.eq_none_iff_forall_ne_some.mpr fun x hx' => ?_)
          rw [(hold.mp hx').2] at hx
          cases hx
      | some x =>
          have hxk : x ≠ k := by
            rintro rfl
            exact hqp (h.resolve_inj (by decide) hq hp hx hpk)
          obtain ⟨hlive, hxfile⟩ := h.resolve_live (by decide) hx
          rw [hold.mpr ⟨hxk, hx⟩]
          exact congrArg some (Inv.relinked_contents hr hlive hxfile)

theorem Ready.renamed (h : Ready stray v) {src dst : CStr} (hr : Renamed v src dst v') :
    Ready stray v' := by
  have hdone : Done stray v (.rename src dst) v' := hr
  exact ⟨h.toSound.done hdone, hdone.mounted.trans h.mounted⟩

/-- The file at `p` is found at `r`, every other file where it was; the tables are as they
were. -/
structure FileMoved (dev : Device) (p r : CStr) (s s' : Fs) : Prop where
  dest : ∀ maxlen, (fsReadPath dev r maxlen s').1 = (fsReadPath dev p maxlen s).1
  source : r ≠ p → ∀ maxlen, (fsReadPath dev p maxlen s').1 = .refused
  other : ∀ q, Ordinary q → q ≠ p → q ≠ r → ∀ maxlen,
    (fsReadPath dev q maxlen s').1 = (fsReadPath dev q maxlen s).1
  bitmap : s'.bitmap = s.bitmap
  inodes : s'.inodes = s.inodes

/-- A rename of a file: it was there already, or it is moved to where no file was. -/
theorem Renamed.file (h : Inv stray v) {p dst : CStr} {k : InodeNo} (hp : Ordinary p)
    (hdst : Ordinary dst) (hpk : v.resolve p inodeFile = some k) (hr : Renamed v p dst v') :
    v' = v ∧ v.renameDest p dst = p ∨
      v.renameDest p dst ≠ p ∧ v.resolve (v.renameDest p dst) inodeFile = none ∧
        ∃ d' name, v.Parent (v.renameDest p dst) d' name ∧ Relinked stray v k d' name v' := by
  obtain ⟨d, srcName, j, k₀, type, d', name, isDir, hparent, hentry, htarget, hcase⟩ := hr.cases h
  obtain ⟨d₁, n₁, j₁, hparent₁, hit₁⟩ := (h.resolve_some (by decide)).mp hpk
  obtain ⟨rfl, rfl⟩ := h.parent_det hparent hparent₁
  obtain ⟨hit, rfl | ⟨-, hnofile⟩⟩ := hentry
  · have hd := h.parent_kept hparent
    obtain ⟨rfl, rfl⟩ := h.hit_unique hd hit hit₁
    have hdest := h.renameDest_parent hdst hparent.lastName htarget
    rcases hcase with ⟨hv, ⟨-, ht, -⟩ | ⟨rfl, rfl⟩⟩ | ⟨habsent, -, hlink⟩
    · exact absurd ht (by decide)
    · exact .inl ⟨hv, h.parent_inj (Inv.renameDest_ordinary hp hdst) hp hdest hparent⟩
    · refine .inr ⟨fun heq => ?_, ?_, d', name, hdest, hlink⟩
      · rw [heq] at hdest
        obtain ⟨rfl, rfl⟩ := h.parent_det hparent hdest
        exact habsent _ _ hit
      · refine Option.eq_none_iff_forall_ne_some.mpr fun x hx => ?_
        obtain ⟨d₂, n₂, j₂, hparent₂, hit₂⟩ := (h.resolve_some (by decide)).mp hx
        obtain ⟨rfl, rfl⟩ := h.parent_det hdest hparent₂
        exact habsent _ _ hit₂
  · exact (hnofile _ _ hit₁).elim

theorem Session.renamed (hp : dev.Perfect)
    (h : Session dev (fun _ call _ => call.Ordinary) s) {src dst : CStr} {s' : Fs}
    (hrun : fsRename dev src dst s = (.ok (), s')) :
    ∃ stray, Ready stray s.toVolume ∧ Ready stray s'.toVolume ∧
      Renamed s.toVolume src dst s'.toVolume := by
  obtain ⟨stray, hready⟩ := h.ready hp fun s call _ hallow => hallow.fits s.toVolume
  have hrenamed : Renamed s.toVolume src dst s'.toVolume := by
    rcases wp_run (fsRename_spec hp hready.inv src dst) hrun with ⟨_, -, hr⟩ | ⟨ho, -⟩ | ⟨ho, -⟩
    · exact hr
    · cases ho
    · cases ho
  exact ⟨stray, hready, hready.renamed hrenamed, hrenamed⟩

theorem session_renameFile (hp : dev.Perfect)
    (h : Session dev (fun _ call _ => call.Ordinary) s) {p dst : CStr} (hpath : Ordinary p)
    (hdst : Ordinary dst) (hfile : (s.toVolume.resolve p inodeFile).isSome) :
    (∀ s', fsRename dev p dst s = (.ok (), s') →
        FileMoved dev p (s.toVolume.renameDest p dst) s s') ∧
      (s.toVolume.renameDest p dst ≠ p →
        (s.toVolume.resolve (s.toVolume.renameDest p dst) inodeFile).isSome →
        (fsRename dev p dst s).1 = .refused) := by
  obtain ⟨k, hpk⟩ := Option.isSome_iff_exists.mp hfile
  constructor
  · intro s' hrun
    obtain ⟨stray, hready, hready', hrenamed⟩ := h.renamed hp hrun
    have hinv := hready.inv
    have hread := fun q maxlen => fsReadPath_files hp hready q maxlen
    have hread' := fun q maxlen => fsReadPath_files hp hready' q maxlen
    rcases hrenamed.file hinv hpath hdst hpk with ⟨hv, heq⟩ | ⟨hne, -, d', name, hparent, hlink⟩
    · refine ⟨fun maxlen => ?_, fun hne => (hne heq).elim, fun q _ _ _ maxlen => ?_,
        congrArg Volume.bitmap hv, congrArg Volume.inodes hv⟩
      · rw [heq, hread', hread, hv]
      · rw [hread', hread, hv]
    · have hfiles := fun {q} hq => files_relinked hinv hready'.inv hpath
        (Inv.renameDest_ordinary hpath hdst) hpk hparent hlink (q := q) hq
      refine ⟨fun maxlen => ?_, fun _ maxlen => ?_, fun q hq hqp hqr maxlen => ?_, hlink.bitmap,
        hlink.inodes⟩
      · rw [hread', hread, hfiles (Inv.renameDest_ordinary hpath hdst), if_pos rfl]
      · rw [hread', hfiles hpath, if_neg hne.symm, if_pos rfl]
        rfl
      · rw [hread', hread, hfiles hq, if_neg hqr, if_neg hqp]
  · intro hne hdest
    obtain ⟨stray, hready⟩ := h.ready hp fun s call _ hallow => hallow.fits s.toVolume
    rcases wp_run (fsRename_spec hp hready.inv p dst) rfl with ⟨_, -, hr⟩ | ⟨ho, -⟩ | ⟨-, hno⟩
    · rcases hr.file hready.inv hpath hdst hpk with ⟨-, heq⟩ | ⟨-, hnone, -⟩
      · exact (hne heq).elim
      · rw [hnone] at hdest
        cases hdest
    · exact ho
    · exact hno.elim

/-- A file goes from a directory to the root. -/
theorem session_renameFile_out :
    (∀ s', fsRename .working pathAB nameB (Fs.started .working (fun _ => Bytes.zero) 0
          [.mkdirPath nameA, .writePath pathAB nameB]) = (.ok (), s') →
        FileMoved .working pathAB ((Fs.started .working (fun _ => Bytes.zero) 0
          [.mkdirPath nameA, .writePath pathAB nameB]).toVolume.renameDest pathAB nameB)
          (Fs.started .working (fun _ => Bytes.zero) 0
            [.mkdirPath nameA, .writePath pathAB nameB]) s') ∧
      ((Fs.started .working (fun _ => Bytes.zero) 0
          [.mkdirPath nameA, .writePath pathAB nameB]).toVolume.renameDest pathAB nameB ≠ pathAB →
        ((Fs.started .working (fun _ => Bytes.zero) 0
          [.mkdirPath nameA, .writePath pathAB nameB]).toVolume.resolve
          ((Fs.started .working (fun _ => Bytes.zero) 0
            [.mkdirPath nameA, .writePath pathAB nameB]).toVolume.renameDest pathAB nameB)
          inodeFile).isSome →
        (fsRename .working pathAB nameB (Fs.started .working (fun _ => Bytes.zero) 0
          [.mkdirPath nameA, .writePath pathAB nameB])).1 = .refused) :=
  session_renameFile Device.working_perfect
    (.started (by decide +kernel) fun call hcall _ _ => by revert call; decide) (by decide)
    (by decide) (by decide +kernel)

/-! ## Renaming a directory -/

/-- The rename moves a directory of the root into a directory, and `k` is one of its files:
from then on it is three levels deep. -/
def Volume.Buries (v : Volume) (src dst : CStr) (k : InodeNo) : Prop :=
  splitPath src = none ∧ v.findIn 0 src inodeFile = none ∧
    ∃ m, v.findIn 0 src inodeDir = some m ∧ (∃ name, v.findIn m name inodeFile = some k) ∧
      match splitPath dst with
      | some (dirname, _) => (v.findIn 0 dirname inodeDir).isSome
      | none => ∃ e, v.findIn 0 dst inodeDir = some e ∧ e ≠ m

namespace Inv

theorem relinked_kept {k d d' : InodeNo} {name : CStr} (hr : Relinked stray v k d' name v') :
    Kept stray v'.inodes d ↔ Kept stray v.inodes d := by
  rw [hr.inodes]

/-- What lies in a directory of the root that was moved into another is out of reach. -/
theorem unreachable_relinked (h : Inv stray v) (h' : Inv stray v') {m d' k : InodeNo}
    {name file : CStr} (hm : Kept stray v.inodes m) (hm0 : m ≠ 0) (hd' : d' ≠ 0)
    (hfile : v.findIn m file inodeFile = some k) (hr : Relinked stray v m d' name v') (q : CStr) :
    v'.resolve q inodeFile ≠ some k := by
  intro hq
  obtain ⟨i, hit⟩ := (h.findIn_some hm (by decide)).mp hfile
  obtain ⟨d, n, j, hparent, hhit⟩ := (h'.resolve_some (by decide)).mp hq
  have hd := relinked_kept hr |>.mp (h'.parent_kept hparent)
  -- the file is still listed in `m` and nowhere else
  have hdm : d = m := by
    rcases (hr.hits d _ _ _ hd).mp ⟨j, hhit⟩ with ⟨-, j, hold⟩ | ⟨rfl, -, -, ht⟩
    · exact (h.linked.once _ _ _ _ _ _ _ hd hm hold.entry hit.entry).1
    · exact absurd (ht.trans hm.1.2) (by decide)
  subst hdm
  unfold Volume.Parent at hparent
  split at hparent
  · exact hm0 hparent.1
  · obtain ⟨hdir, -⟩ := hparent
    rcases (hr.hits 0 _ _ _ h.linked.root).mp hdir with ⟨hne, -⟩ | ⟨-, h0, -⟩
    · exact hne rfl
    · exact hd' h0.symm

/-- A file is found where it was when its directory still is in the root under its name. -/
theorem reachable_relinked (h : Inv stray v) (h' : Inv stray v') {m d d' k : InodeNo} {name n : CStr}
    {j : Slot} {p : CStr} (hr : Relinked stray v m d' name v') (hkm : k ≠ m) (hdm : d ≠ m)
    (hparent : v.Parent p d n) (hit : Hit (v.dirAt d) v.inodes n inodeFile j k) :
    v'.resolve p inodeFile = some k := by
  have hd := h.parent_kept hparent
  obtain ⟨j', hit'⟩ := (hr.hits d _ _ _ hd).mpr (.inl ⟨hkm, j, hit⟩)
  refine (h'.resolve_some (by decide)).mpr ⟨d, n, j', ?_, hit'⟩
  unfold Volume.Parent at hparent ⊢
  split at hparent
  · exact hparent
  · exact ⟨(hr.hits 0 _ _ _ h.linked.root).mpr (.inl ⟨hdm, hparent.1⟩), hparent.2⟩

end Inv

/-- The rename leaves every file within reach but those it buries. -/
theorem Renamed.reachable (h : Inv stray v) (h' : Inv stray v') {src dst p : CStr} {k : InodeNo}
    (hdst : Ordinary dst) (hpk : v.resolve p inodeFile = some k) (hr : Renamed v src dst v') :
    (∃ q, v'.resolve q inodeFile = some k) ↔ ¬ v.Buries src dst k := by
  obtain ⟨d, srcName, j, m, type, d', name, isDir, hparent, hentry, htarget, hcase⟩ := hr.cases h
  have hroot := h.linked.root
  have hd := h.parent_kept hparent
  obtain ⟨hm0, -, hms⟩ := h.named hd hentry.1
  constructor
  · rintro ⟨q, hq⟩ ⟨hsplit, hnofile, m', hm', ⟨file, hfile⟩, hinto⟩
    rw [Volume.Parent, hsplit] at hparent
    obtain ⟨rfl, rfl⟩ := hparent
    obtain ⟨i, hit⟩ := (h.findIn_some hroot (by decide)).mp hm'
    have hnofile' := (Volume.findIn_none (by decide)).mp hnofile
    have htype : type = inodeDir := by
      rcases hentry.2 with rfl | ⟨ht, -⟩
      · exact (hnofile' _ _ hentry.1).elim
      · exact ht
    subst htype
    obtain ⟨-, rfl⟩ := h.hit_unique hroot hentry.1 hit
    -- the target is a directory, and another one than the one that moves
    have hd'0 : d' ≠ 0 ∧ ¬ (isDir = true ∧ d' = m) := by
      unfold Volume.RenameTarget at htarget
      rcases hdst.split with ⟨hs, -⟩ | ⟨c, n, hs, -, hn, -⟩
      · rw [hs] at htarget hinto
        obtain ⟨e, he, hem⟩ := hinto
        obtain ⟨i', hit'⟩ := (h.findIn_some hroot (by decide)).mp he
        rcases htarget with ⟨⟨i, hit⟩, -⟩ | ⟨hmiss, -⟩
        · obtain ⟨-, rfl⟩ := h.hit_unique hroot hit hit'
          exact ⟨(h.named hroot hit).1, fun hself => hem hself.2⟩
        · exact (hmiss _ _ hit').elim
      · rw [hs] at htarget
        obtain ⟨⟨i, hit⟩, ⟨rfl, -⟩ | ⟨-, -, rfl⟩⟩ := htarget
        · exact absurd hn.1 (by decide)
        · exact ⟨(h.named hroot hit).1, fun hself => Bool.false_ne_true hself.1⟩
    rcases hcase with ⟨-, ⟨hdir, -, hself⟩ | ⟨h0, -⟩⟩ | ⟨-, -, hlink⟩
    · exact hd'0.2 ⟨hdir, hself⟩
    · exact hd'0.1 h0
    · exact h.unreachable_relinked h' (h.keptDir hroot hit) hm0 hd'0.1 hfile hlink q hq
  · intro hbury
    rcases hcase with ⟨rfl, -⟩ | ⟨-, hself, hlink⟩
    · exact ⟨p, hpk⟩
    obtain ⟨d₀, n, i, hparent₀, hit⟩ := (h.resolve_some (by decide)).mp hpk
    by_cases hkm : k = m
    · -- the file itself
      subst hkm
      have hdest := h.renameDest_parent hdst hparent.lastName htarget
      exact ⟨_, (h.relinked_resolve h' hit.type hlink).mpr (.inr ⟨rfl, hdest⟩)⟩
    by_cases hdm : d₀ = m
    · -- a file in the directory that moves: its target is the root
      subst hdm
      unfold Volume.Parent at hparent₀
      split at hparent₀
      · exact (hm0 hparent₀.1).elim
      next c _ hsplit₀ =>
      obtain ⟨⟨i₀, hdir⟩, rfl⟩ := hparent₀
      have hkept := h.keptDir hroot hdir
      obtain ⟨rfl, rfl⟩ := h.linked.once _ _ _ _ _ _ _ hd hroot hentry.1.entry hdir.entry
      have htype : type = inodeDir := hentry.1.type.symm.trans hdir.type
      subst htype
      obtain ⟨hsplit, rfl⟩ := h.parent_root hparent
      have hnofile : v.findIn 0 srcName inodeFile = none := by
        rcases hentry.2 with ht | ⟨-, hno⟩
        · exact absurd ht (by decide)
        · exact (Volume.findIn_none (by decide)).mpr hno
      have hinto := fun hinto => hbury ⟨hsplit, hnofile, d₀,
        (h.findIn_some hroot (by decide)).mpr ⟨_, hentry.1⟩,
        ⟨n, (h.findIn_some hkept (by decide)).mpr ⟨i, hit⟩⟩, hinto⟩
      unfold Volume.RenameTarget at htarget
      rcases hdst.split with ⟨hs, hc⟩ | ⟨c', n', hs, -⟩
      · rw [hs] at htarget hinto
        rcases htarget with ⟨⟨i', hit'⟩, -, hisDir⟩ | ⟨-, rfl, rfl, -⟩
        · refine (hinto ⟨d', (h.findIn_some hroot (by decide)).mpr ⟨i', hit'⟩, fun hem => ?_⟩).elim
          exact hself ⟨hisDir, rfl, hem⟩
        · refine ⟨joinPath name n, (h'.resolve_some (by decide)).mpr ?_⟩
          obtain ⟨i', hit'⟩ := (hlink.hits d₀ _ _ _ hkept).mpr (.inl ⟨hkm, i, hit⟩)
          refine ⟨d₀, n, i', ?_, hit'⟩
          rw [Volume.Parent, splitPath_join hc (joinPath_chars name n)]
          exact ⟨(hlink.hits 0 _ _ _ hroot).mpr (.inr ⟨rfl, rfl, rfl, hentry.1.type.symm⟩), rfl⟩
      · rw [hs] at htarget hinto
        obtain ⟨i', hit'⟩ := htarget.1
        have hfound := (h.findIn_some hroot (by decide)).mpr ⟨i', hit'⟩
        exact (hinto (by simp only [hfound, Option.isSome_some])).elim
    · exact ⟨p, h.reachable_relinked h' hlink hkm hdm hparent₀ hit⟩

theorem session_renameReachable (hp : dev.Perfect)
    (h : Session dev (fun _ call _ => call.Ordinary) s) {src dst : CStr} (hdst : Ordinary dst)
    {s' : Fs} (hrun : fsRename dev src dst s = (.ok (), s')) {p : CStr} {k : InodeNo}
    (hpk : s.toVolume.resolve p inodeFile = some k) :
    (∃ q, s'.toVolume.resolve q inodeFile = some k ∧
        ∀ maxlen, (fsReadPath dev q maxlen s').1 = (fsReadPath dev p maxlen s).1) ↔
      ¬ s.toVolume.Buries src dst k := by
  obtain ⟨stray, hready, hready', hrenamed⟩ := h.renamed hp hrun
  rw [← hrenamed.reachable hready.inv hready'.inv hdst hpk]
  refine ⟨fun ⟨q, hq, _⟩ => ⟨q, hq⟩, fun ⟨q, hq⟩ => ⟨q, hq, fun maxlen => ?_⟩⟩
  obtain ⟨hk, hfile⟩ := hready.inv.resolve_live (by decide) hpk
  have hsame : s'.toVolume.contents k = s.toVolume.contents k := by
    obtain ⟨d, srcName, j, m, type, d', name, isDir, -, -, -, ⟨hv, -⟩ | ⟨-, -, hlink⟩⟩ :=
      hrenamed.cases hready.inv
    · rw [hv]
    · exact Inv.relinked_contents hlink hk hfile
  rw [fsReadPath_files hp hready, fsReadPath_files hp hready', Volume.files, Volume.files, hpk, hq,
    Option.map_some, Option.map_some, hsame]

/-- "c" -/
def nameC : CStr := ⟨[99], by simp⟩

/-- A directory `a` with a file `b`, and a directory `c`. -/
def twoDirs : List Call := [.mkdirPath nameA, .writePath pathAB nameB, .mkdirPath nameC]

/-- The directory gets another name in the root. -/
theorem session_renameReachable_root :
    (∃ q, (fsRename .working nameA nameB
          (Fs.started .working (fun _ => Bytes.zero) 0 twoDirs)).2.toVolume.resolve q inodeFile =
            some 5 ∧
        ∀ maxlen, (fsReadPath .working q maxlen (fsRename .working nameA nameB
          (Fs.started .working (fun _ => Bytes.zero) 0 twoDirs)).2).1 =
            (fsReadPath .working pathAB maxlen
              (Fs.started .working (fun _ => Bytes.zero) 0 twoDirs)).1) ↔
      ¬ (Fs.started .working (fun _ => Bytes.zero) 0 twoDirs).toVolume.Buries nameA nameB 5 := by
  have hsession : Session .working (fun _ call _ => call.Ordinary)
      (Fs.started .working (fun _ => Bytes.zero) 0 twoDirs) :=
    .started (by decide +kernel) fun call hcall _ _ => by revert call; decide
  have hrun : fsRename .working nameA nameB (Fs.started .working (fun _ => Bytes.zero) 0 twoDirs) =
      (.ok (), _) := run_eq (by decide +kernel)
  have hpk : (Fs.started .working (fun _ => Bytes.zero) 0 twoDirs).toVolume.resolve pathAB
      inodeFile = some 5 := by decide +kernel
  exact session_renameReachable Device.working_perfect hsession (by decide) hrun hpk

/-- The directory goes into another one, and its file cannot be read any more. -/
theorem not_session_renameReachable :
    ¬ ∀ dev s, dev.Perfect → Session dev (fun _ call _ => call.Ordinary) s →
      ∀ src dst s', Ordinary src → Ordinary dst → fsRename dev src dst s = (.ok (), s') →
        ∀ p k, s.toVolume.resolve p inodeFile = some k →
          ∃ q, s'.toVolume.resolve q inodeFile = some k ∧
            ∀ maxlen, (fsReadPath dev q maxlen s').1 = (fsReadPath dev p maxlen s).1 := by
  intro h
  have hsession : Session .working (fun _ call _ => call.Ordinary)
      (Fs.started .working (fun _ => Bytes.zero) 0 twoDirs) :=
    .started (by decide +kernel) fun call hcall _ _ => by revert call; decide
  have hrun : fsRename .working nameA nameC (Fs.started .working (fun _ => Bytes.zero) 0 twoDirs) =
      (.ok (), _) := run_eq (by decide +kernel)
  have hpk : (Fs.started .working (fun _ => Bytes.zero) 0 twoDirs).toVolume.resolve pathAB
      inodeFile = some 5 := by decide +kernel
  obtain ⟨q, hq, -⟩ := h _ _ Device.working_perfect hsession _ _ _ (by decide) (by decide) hrun _ _
    hpk
  obtain ⟨stray, hready, hready', hrenamed⟩ := hsession.renamed Device.working_perfect hrun
  refine (hrenamed.reachable hready.inv hready'.inv (by decide) hpk).mp ⟨q, hq⟩ ⟨by decide, ?_, 4, ?_,
    ⟨nameB, ?_⟩, 6, ?_, by decide⟩ <;> decide +kernel

end SevenOS
