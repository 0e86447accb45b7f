import SevenOS.FileSystem.Agreement
import SevenOS.FileSystem.Files

/-! # The directory tree

In a session whose calls all succeed every used inode hangs on the root by one
chain of entries, unless a rename puts a directory of the root into itself.
-/

namespace SevenOS

open Prog

variable {dev : Device} {stray : InodeNo → Prop} {v v' : Volume} {s : Fs}

/-- Entry `j` of the used directory `d` is used and names inode `k`. -/
def Volume.link (v : Volume) (d : InodeNo) (j : Slot) (k : InodeNo) : Prop :=
  (v.inodes d).used ≠ 0 ∧ (v.inodes d).type = inodeDir ∧ entryUsed (v.blockOf d) j = true ∧
    entryInode (v.blockOf d) j = UInt8.ofNat k.val

instance (v : Volume) (d : InodeNo) (j : Slot) (k : InodeNo) : Decidable (v.link d j k) :=
  inferInstanceAs (Decidable (_ ∧ _ ∧ _ ∧ _))

theorem link_iff {d : InodeNo} {j : Slot} {k : InodeNo} :
    v.link d j k ↔ v.edge (fun _ => False) d j k := by
  constructor
  · rintro ⟨hused, htype, hentry, hinode⟩
    exact ⟨⟨⟨hused, htype⟩, id⟩, _, listing_eq_some.mpr ⟨hentry, rfl, hinode⟩⟩
  · rintro ⟨⟨⟨hused, htype⟩, -⟩, name, he⟩
    obtain ⟨hentry, -, hinode⟩ := listing_eq_some.mp he
    exact ⟨hused, htype, hentry, hinode⟩

/-- Every used inode is reached from the root. -/
def AllReached (stray : InodeNo → Prop) (v : Volume) : Prop :=
  ∀ k, Live v.inodes k → Below (v.edge stray) 0 k

/-! ## Edges after an edit -/

namespace Inv

theorem edge_flush (h : Inv stray v) {d : InodeNo} {j : Slot} {k : InodeNo}
    (e : v.edge stray d j k) : v.flush.edge stray d j k := by
  obtain ⟨hd, name, he⟩ := e
  refine ⟨hd, name, ?_⟩
  rw [Volume.dirAt, h.blockOf_flush hd.1.1]
  exact he

theorem allReached_flush (h : Inv stray v) (hr : AllReached stray v) : AllReached stray v.flush :=
  fun k hk => (hr k hk).within fun _ _ _ _ e => h.edge_flush e

theorem allReached_create (h : Inv stray v) {d : InodeNo} {j : Slot} {name : CStr} {k : InodeNo}
    {ino : Inode} {content : Block} (hc : v.CanTake k ino)
    (he : v.CanEnter stray d j name ino.type) (hr : AllReached stray v) :
    AllReached stray (v.create d j name k ino content) := by
  have keep : ∀ a i x, v.edge stray a i x → (v.create d j name k ino content).edge stray a i x := by
    rintro a i x ⟨ha, n, hentry⟩
    have hak := (h.ne_of_canTake hc ha.1.1).1
    refine ⟨(kept_create hak).mpr ha, n, ?_⟩
    rw [h.dirAt_create hc he ha.1.1]
    by_cases had : a = d
    · subst had
      have hij : i ≠ j := by
        rintro rfl
        rw [he.free] at hentry
        cases hentry
      rw [assign_same, assign_of_ne _ _ hij, hentry]
    · rw [assign_of_ne _ _ had, hentry]
  have old : ∀ x, Live v.inodes x → Below ((v.create d j name k ino content).edge stray) 0 x :=
    fun x hx => (hr x hx).within fun a i b _ e => keep a i b e
  intro x hx
  by_cases hxk : x = k
  · subst hxk
    have hdx := (h.ne_of_canTake hc he.dir.1.1).1
    have e : (v.create d j name x ino content).edge stray d j x := by
      refine ⟨(kept_create hdx).mpr he.dir, name, ?_⟩
      rw [h.dirAt_create hc he he.dir.1.1, assign_same, assign_same]
    exact (old d he.dir.1.1).trans_edge e
  · exact old x (by rwa [Live, Volume.create, Volume.inodes_setData, Volume.inodes_setData,
      Volume.take, Volume.inodes_putInode, assign_of_ne _ _ hxk] at hx)

theorem allReached_rewrite (h : Inv stray v) {k : InodeNo} {size : UInt32} {content : Block}
    (hk : Live v.inodes k) (hfile : (v.inodes k).type = inodeFile) (hr : AllReached stray v) :
    AllReached stray (v.rewrite k size content) := by
  intro x hx
  rw [Live, inodes_rewrite] at hx
  refine (hr x hx).within ?_
  rintro a i b - ⟨ha, n, hentry⟩
  have hak := Inv.dir_ne_file ha.1 hfile
  refine ⟨?_, n, ?_⟩
  · rw [Kept, LiveDir, Live, inodes_rewrite]
    exact ha
  · rw [Volume.dirAt, h.blockOf_rewrite hk ha.1.1, if_neg hak]
    exact hentry

theorem allReached_renameAt (h : Inv stray v) {d : InodeNo} {j : Slot} {old name : CStr}
    {k : InodeNo} (hd : Kept stray v.inodes d) (hold : v.dirAt d j = some (old, inodeByte k))
    (hname : name.length < 30) (hr : AllReached stray v) :
    AllReached stray (v.renameAt d j name) := by
  intro x hx
  refine (hr x hx).within ?_
  rintro a i b - ⟨ha, n, hentry⟩
  refine ⟨ha, ?_⟩
  rw [h.dirAt_renameAt hd hold hname ha.1.1]
  by_cases had : a = d
  · subst had
    by_cases hij : i = j
    · subst hij
      have heq := hentry.symm.trans hold
      simp only [Option.some.injEq, Prod.mk.injEq] at heq
      exact ⟨name, by rw [assign_same, assign_same, heq.2]⟩
    · exact ⟨n, by rw [assign_same, assign_of_ne _ _ hij, hentry]⟩
  · exact ⟨n, by rw [assign_of_ne _ _ had, hentry]⟩

theorem allReached_move (h : Inv stray v) {d d' : InodeNo} {j j' : Slot} {old name : CStr}
    {k : InodeNo} (hd : Kept stray v.inodes d) (hd' : Kept stray v.inodes d') (hne : d' ≠ d)
    (hold : v.dirAt d j = some (old, inodeByte k)) (hfree : v.dirAt d' j' = none)
    (hname : name.length < 30) (hout : ¬ Below (v.edge stray) k d') (hr : AllReached stray v) :
    AllReached stray (v.move d j d' j' k name) := by
  have e : v.edge stray d j k := ⟨hd, old, hold⟩
  intro x hx
  refine h.rooted.moved (m := j') (hr d hd.1.1) e ?_ (hr d' hd'.1.1) ?_ hout (hr x hx)
  · rintro a i b ⟨ha, n, hentry⟩ hnot
    refine ⟨ha, n, ?_⟩
    rw [h.dirAt_move hd hd' hname ha.1.1]
    by_cases had' : a = d'
    · subst had'
      have hij : i ≠ j' := by
        rintro rfl
        rw [hfree] at hentry
        cases hentry
      rw [assign_same, assign_of_ne _ _ hij, hentry]
    · rw [assign_of_ne _ _ had']
      by_cases had : a = d
      · subst had
        rw [assign_same, assign_of_ne _ _ fun hij => hnot ⟨rfl, hij⟩, hentry]
      · rw [assign_of_ne _ _ had, hentry]
  · refine ⟨hd', name, ?_⟩
    rw [h.dirAt_move hd hd' hname hd'.1.1, assign_same, assign_same]

theorem allReached_removed (h : Inv stray v) {d k : InodeNo} {j : Slot} {name : CStr}
    (hd : Kept stray v.inodes d) (hj : v.dirAt d j = some (name, inodeByte k))
    (hrem : v.Removed d j (Below (v.edge stray) k) v') (hr : AllReached stray v) :
    AllReached stray v' := by
  obtain ⟨-, hk, hks⟩ := h.linked.named hd hj
  intro x hx
  have hout : ¬ Below (v.edge stray) k x := fun hS => by
    rw [Live, hrem.zeroed x hS] at hx
    exact hx rfl
  rw [Live, hrem.inodes x hout] at hx
  refine (hr x hx).pruned hout ?_
  rintro a i b ⟨ha, n, hentry⟩ hbout
  have haout : ¬ Below (v.edge stray) k a := fun hS => hbout (hS.trans_edge ⟨ha, n, hentry⟩)
  refine ⟨?_, n, ?_⟩
  · rw [Kept, LiveDir, Live, hrem.inodes a haout]
    exact ha
  · rw [h.dirAt_removed hd hrem (fun i hi => (h.below_live hk hks hi).1) ha.1.1 haout]
    by_cases had : a = d
    · subst had
      have hij : i ≠ j := by
        rintro rfl
        have heq := hentry.symm.trans hj
        simp only [Option.some.injEq, Prod.mk.injEq] at heq
        obtain rfl := inodeByte_injective heq.2
        exact hbout (below_refl b)
      rw [assign_same, assign_of_ne _ _ hij, hentry]
    · rw [assign_of_ne _ _ had, hentry]

end Inv

/-! ## A call -/

/-- `fs_rename(c, c/n)` where the root has no file named `c`. -/
def Call.IntoItself (v : Volume) : Call → Prop
  | .rename srcPath dstPath => splitPath srcPath = none ∧
      (∃ rest, splitPath dstPath = some (srcPath, rest) ∧ rest ≠ CStr.empty) ∧
      v.findIn 0 srcPath inodeFile = none
  | _ => False

/-- The only directory that a rename can put below itself is one of the root. -/
theorem Inv.target_below (h : Inv stray v) {srcPath dstPath srcName name : CStr} {d d' : InodeNo}
    {j : Slot} {k : InodeNo} {type : UInt8} {isDir : Bool} (hparent : v.Parent srcPath d srcName)
    (hentry : v.RenameEntry d srcName j k type)
    (htarget : v.RenameTarget srcName dstPath d' name isDir)
    (hself : ¬ (isDir = true ∧ type = inodeDir ∧ d' = k)) (hb : Below (v.edge stray) k d') :
    (Call.rename srcPath dstPath).IntoItself v := by
  have hroot := h.linked.root
  have hk0 := (h.named (h.parent_kept hparent) hentry.1).1
  have hd' := h.renameTarget_kept htarget
  -- below `k` there is no other directory of the root
  have only : ∀ {n i}, Hit (v.dirAt 0) v.inodes n inodeDir i d' → d' = k := by
    intro n i hit
    obtain ⟨ls, w⟩ := hb
    cases ls using List.reverseRecOn with
    | nil => exact w.nil_inv.symm
    | append_singleton ls l =>
        obtain ⟨b, w, e⟩ := w.snoc_inv
        obtain ⟨rfl, -⟩ := h.rooted.once _ _ _ _ _ e ⟨hroot, n, hit.entry⟩
        exact (hk0 (h.rooted.below_root ⟨ls, w⟩)).elim
  have hdir : d' = k → type = inodeDir := fun hdk => by
    rw [← hentry.1.type, ← hdk]
    exact hd'.1.2
  have source : ∀ {n i}, Hit (v.dirAt 0) v.inodes n inodeDir i d' → d' = k →
      splitPath srcPath = none ∧ srcPath = n ∧ d = 0 := by
    intro n i hit hdk
    subst hdk
    obtain ⟨rfl, rfl⟩ := h.linked.once _ _ _ _ _ _ _ (h.parent_kept hparent) hroot
      hentry.1.entry hit.entry
    have heq := hentry.1.entry.symm.trans hit.entry
    simp only [Option.some.injEq, Prod.mk.injEq, and_true] at heq
    obtain ⟨hsplit, rfl⟩ := h.parent_root hparent
    exact ⟨hsplit, heq, rfl⟩
  unfold Volume.RenameTarget at htarget
  split at htarget
  · next dirname rest hsplit =>
      obtain ⟨⟨i, hit⟩, hrest⟩ := htarget
      have hdk := only hit
      rcases hrest with ⟨-, -, hisDir⟩ | ⟨hne, -, -⟩
      · exact (hself ⟨hisDir, hdir hdk, hdk⟩).elim
      · obtain ⟨hsrc, rfl, rfl⟩ := source hit hdk
        refine ⟨hsrc, ⟨rest, hsplit, hne⟩, (Volume.findIn_none (by decide)).mpr ?_⟩
        rcases hentry.2 with hfile | ⟨-, hno⟩
        · rw [hdir hdk] at hfile
          exact absurd hfile (by decide)
        · rw [← (h.parent_root hparent).2]
          exact hno
  · rcases htarget with ⟨⟨i, hit⟩, -, hisDir⟩ | ⟨-, rfl, -⟩
    · have hdk := only hit
      exact (hself ⟨hisDir, hdir hdk, hdk⟩).elim
    · exact (hk0 (h.rooted.below_root hb)).elim

theorem AllReached.created (h : Inv stray v) {d : InodeNo} {name : CStr} {type : UInt8}
    {size : UInt32} {content : UInt32 → Block}
    (hempty : type = inodeDir → ∀ b, listing (content b) = fun _ => none)
    (hc : Created stray v d name type size content v') (hr : AllReached stray v) :
    AllReached stray v' := by
  obtain ⟨j, k, b, htake, henter, hk0, rfl⟩ := hc
  exact (h.create htake henter hk0 fun ht => hempty ht b).allReached_flush
    (h.allReached_create htake henter hr)

theorem AllReached.stored (h : Inv stray v) {d : InodeNo} {name : CStr} {size : UInt32}
    {content : Block} (hsize : size.toNat ≤ 512) (hst : Stored stray v d name size content v')
    (hr : AllReached stray v) : AllReached stray v' := by
  rcases hst with hc | ⟨j, k, hit, rfl⟩
  · exact hr.created h (fun ht => absurd ht (by decide)) hc
  · exact (h.rewrite hit.used hit.type hsize content).allReached_flush
      (h.allReached_rewrite hit.used hit.type hr)

theorem AllReached.removedAt (h : Inv stray v) {path : CStr} {types : UInt8 → Prop}
    (hrem : RemovedAt stray v path types v') (hr : AllReached stray v) : AllReached stray v' := by
  obtain ⟨d, name, j, k, type, v₁, hparent, -, hit, hrem, rfl⟩ := hrem
  obtain ⟨ws, hw⟩ := h.parent_walk hparent
  have hd := h.parent_kept hparent
  exact (h.removed_below hw hd hit.entry hrem).allReached_flush
    (h.allReached_removed hd hit.entry hrem hr)

theorem AllReached.sysStored (h : Inv stray v) {filename : CStr} {size : UInt32} {content : Block}
    (hsize : size.toNat ≤ 512) (hst : SysStored stray v filename size content v')
    (hr : AllReached stray v) : AllReached stray v' := by
  obtain ⟨-, v₁, d, hsys, hst⟩ := hst
  refine AllReached.stored (hsys.inv h).1 hsize hst ?_
  rcases hsys with ⟨-, rfl⟩ | ⟨j, b, -, -, htake, henter, hk0, rfl⟩
  · exact hr
  · exact h.allReached_create htake henter hr

theorem AllReached.done (h : Inv stray v) {call : Call} (hcall : ¬ call.IntoItself v)
    (hdone : Done stray v call v') (hr : AllReached stray v) : AllReached stray v' := by
  cases call with
  | mkdirPath path =>
      obtain ⟨d, name, -, hc⟩ := hdone
      exact hr.created h (fun _ _ => listing_zero) hc
  | create name => exact hr.created h (fun ht => absurd ht (by decide)) hdone
  | writePath path data =>
      obtain ⟨d, name, -, hst⟩ := hdone
      exact hr.stored h (dataLength_le data) hst
  | copyPath srcPath dstPath =>
      obtain ⟨k, d, name, ⟨_, _, _, _, hsrc⟩, -, hst⟩ := hdone
      exact hr.stored h (h.alloc.sizeLe k hsrc.used) hst
  | rename srcPath dstPath =>
      rcases hdone with ⟨rfl, -⟩ | ⟨d, srcName, j, k, type, d', name, isDir, hparent, hentry, htarget,
        hself, hfits, -, hv'⟩
      · exact hr
      · have hd := h.parent_kept hparent
        rcases hv' with ⟨rfl, rfl⟩ | ⟨hne, j', hfree, rfl⟩
        · exact h.allReached_renameAt hd hentry.1.entry hfits.2 hr
        · exact h.allReached_move hd (h.renameTarget_kept htarget) hne hentry.1.entry hfree
            hfits.2 (fun hb => hcall (h.target_below hparent hentry htarget hself hb)) hr
  | removePath path => exact hr.removedAt h hdone
  | removePathRecursive path => exact hr.removedAt h hdone
  | writePasswd hash => exact hr.sysStored h (by decide) hdone

/-! ## Sessions of successful calls -/

theorem fsFormat_allReached {totalBlocks inodeCount : UInt32} {s' : Fs} (hp : dev.Perfect)
    (hrun : fsFormat dev totalBlocks inodeCount s = (.ok (), s')) :
    AllReached (fun _ => False) s'.toVolume := by
  obtain ⟨v₀, v₁, v₂, h₀, -, halone, hstatus, hpasswd, hv⟩ := fsFormat_steps hp hrun
  have hr₀ : AllReached (fun _ => False) v₀ := fun k hk => by
    rw [halone k hk]
    exact below_refl 0
  have h₁ : Sound (fun _ => False) v₁ := (SysStored.flushed h₀ (by decide) hstatus).sound
  have hr₁ : AllReached (fun _ => False) v₁ := hr₀.sysStored h₀.inv (by decide) hstatus
  rw [hv]
  have hr₂ : AllReached (fun _ => False) v₂ := hr₁.sysStored h₁.inv (by decide) hpasswd
  exact hr₂

/-- A call that succeeds and does not move a directory of the root into itself. -/
def Succeeding (s : Fs) (call : Call) (o : Outcome Unit) : Prop :=
  call.Ordinary ∧ o = .ok () ∧ ¬ call.IntoItself s.toVolume

theorem Session.allReached (hp : dev.Perfect) (h : Session dev Succeeding s) :
    Ready (fun _ => False) s.toVolume ∧ AllReached (fun _ => False) s.toVolume := by
  induction h with
  | format _ _ hrun => exact ⟨(fsFormat_ready hp hrun).1, fsFormat_allReached hp hrun⟩
  | call _ hallow hrun ih =>
      obtain ⟨hcall, rfl, hself⟩ := hallow
      rcases ih.1.run_cases hp hcall hrun with ⟨-, hdone, hready⟩ | ⟨ho, -⟩
      · exact ⟨hready, ih.2.done ih.1.inv hself hdone⟩
      · cases ho

/-- Every used inode hangs on the root by one chain of used entries. -/
theorem session_tree (hp : dev.Perfect) (h : Session dev Succeeding s) (k : InodeNo)
    (hk : (s.inodes k).used ≠ 0) : ∃! js, Walk s.toVolume.link 0 js k := by
  obtain ⟨hready, hr⟩ := h.allReached hp
  have hlink : s.toVolume.link = s.toVolume.edge fun _ => False := by
    funext d j x
    exact propext link_iff
  rw [hlink]
  obtain ⟨js, w⟩ := hr k hk
  exact ⟨js, w, fun js' w' => hready.inv.rooted.unique w' w⟩

/-- A directory `a` is made and becomes `b`. -/
theorem session_tree_renamed :
    ∃! js, Walk (Fs.started .working (fun _ => Bytes.zero) 0
      [.mkdirPath nameA, .rename nameA nameB]).toVolume.link 0 js 4 := by
  have h : Session .working Succeeding (Fs.started .working (fun _ => Bytes.zero) 0
      [.mkdirPath nameA, .rename nameA nameB]) := by
    refine .begun (by decide +kernel) ⟨⟨by decide, by decide +kernel, id⟩,
      ⟨by decide, by decide +kernel, ?_⟩, trivial⟩
    rintro ⟨-, ⟨rest, hsplit, -⟩, -⟩
    have : splitPath nameB = none := by decide
    rw [this] at hsplit
    cases hsplit
  exact session_tree Device.working_perfect h 4 (by decide +kernel)

/-- `fs_rename("a", "a/b")` leaves a directory that only itself names. -/
theorem not_session_tree :
    ¬ ∀ dev s, dev.Perfect → Session dev (fun _ call o => call.Ordinary ∧ o = .ok ()) s →
      ∀ k, k ≠ 0 → (s.inodes k).used ≠ 0 → ∃! js, Walk s.toVolume.link 0 js k := by
  intro h
  obtain ⟨js, w, -⟩ := h .working (Fs.started .working (fun _ => Bytes.zero) 0
      [.mkdirPath nameA, .rename nameA pathAB]) Device.working_perfect
    (.begun (by decide +kernel)
      ⟨⟨by decide, by decide +kernel⟩, ⟨by decide, by decide +kernel⟩, trivial⟩)
    4 (by decide) (by decide +kernel)
  have only : ∀ d j, Volume.link (Fs.started .working (fun _ => Bytes.zero) 0
      [.mkdirPath nameA, .rename nameA pathAB]).toVolume d j 4 → d = 4 := by decide +kernel
  induction js using List.reverseRecOn with
  | nil => cases w.nil_inv
  | append_singleton js j ih =>
      obtain ⟨d, w, e⟩ := w.snoc_inv
      obtain rfl := only d j e
      exact ih w

end SevenOS
