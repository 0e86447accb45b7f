import SevenOS.FileSystem.Entries
import SevenOS.FileSystem.Files

/-! # Stored names

Names stay inside their entries, and a call writes no entry of a directory but
the one it makes, renames or clears: on paths of any length and shape, as long
as `fs_write_path` creates nothing under a name that does not fit.
-/

namespace SevenOS

open Prog

variable {dev : Device} {stray : InodeNo → Prop} {v v' : Volume} {s : Fs}

/-- The name of every used entry is not empty and ends within its 30 bytes. -/
def NamesFit (v : Volume) : Prop :=
  ∀ d j, LiveDir v.inodes d → entryUsed (v.blockOf d) j = true →
    (v.blockOf d).at_ (32 * j.val + 2) ≠ 0 ∧ ∃ t < 30, (v.blockOf d).at_ (32 * j.val + 2 + t) = 0

def OneEntry (b b' : Block) : Prop :=
  ∃ j : Slot, ∀ i : Slot, i ≠ j → ∀ t < 32, b'.at_ (32 * i.val + t) = b.at_ (32 * i.val + t)

/-- No directory that stays has more than one entry changed. -/
def OneEntryEach (v v' : Volume) : Prop :=
  ∀ d, LiveDir v.inodes d → LiveDir v'.inodes d → OneEntry (v.blockOf d) (v'.blockOf d)

theorem Inv.namesFit (h : Inv (fun _ => False) v) : NamesFit v := by
  intro d j hd hused
  obtain ⟨hpos, hlt⟩ := h.linked.fits d ⟨hd, id⟩ j _ _ (listing_eq_some.mpr ⟨hused, rfl, rfl⟩)
  refine ⟨fun h0 => ?_, _, hlt, Bytes.at_cstr_length _ _⟩
  rw [entryName, Bytes.cstr_of_nul _ h0] at hpos
  exact absurd hpos (by decide)

/-! ## Edits of one entry -/

theorem OneEntry.refl (b : Block) : OneEntry b b := ⟨0, fun _ _ _ _ => rfl⟩

theorem OneEntry.of_outside {b b' : Block} (j : Slot)
    (h : ∀ o, o < 512 → (o < 32 * j.val ∨ 32 * j.val + 32 ≤ o) → b'.at_ o = b.at_ o) :
    OneEntry b b' := by
  refine ⟨j, fun i hij t ht => ?_⟩
  have hne : i.val ≠ j.val := fun h => hij (Fin.ext h)
  have hi := i.isLt
  apply h <;> omega

theorem OneEntry.fill (b : Block) (j : Slot) (k : InodeNo) {name : CStr} (hname : name.length < 30) :
    OneEntry b (fillEntry b j k name) :=
  .of_outside j fun _ ho hout => fillEntry_outside b j k name hname ho hout

theorem OneEntry.clear (b : Block) (j : Slot) : OneEntry b (clearEntry b j) :=
  .of_outside j fun _ ho hout => by rw [clearEntry_at b j ho, if_neg (by omega)]

theorem OneEntry.rename (b : Block) (j : Slot) {name : CStr} (hname : name.length < 30) :
    OneEntry b (renameEntry b j name) := by
  have hlen : name.chars.length < 30 := hname
  refine .of_outside j fun o ho hout => ?_
  rw [renameEntry_at b j name ho, if_neg (by omega), if_neg (by omega)]

/-! ## What each call does to the entries -/

theorem oneEntryEach_flush (h : Inv stray v') (he : OneEntryEach v v') : OneEntryEach v v'.flush := by
  intro d hd hd'
  rw [h.blockOf_flush hd'.1]
  exact he d hd hd'

theorem oneEntryEach_created (h : Inv stray v) {d : InodeNo} {name : CStr} {type : UInt8}
    {size : UInt32} {content : UInt32 → Block}
    (hempty : type = inodeDir → ∀ b, listing (content b) = fun _ => none)
    (hc : Created stray v d name type size content v') : OneEntryEach v v' := by
  obtain ⟨j, k, b, htake, henter, hk0, rfl⟩ := hc
  refine oneEntryEach_flush (h.create htake henter hk0 fun ht => hempty ht b) fun i hi _ => ?_
  rw [h.blockOf_create htake henter.dir.1.1 hi.1]
  split
  · next hid =>
      subst hid
      exact .fill _ j k henter.fits.2
  · exact .refl _

theorem oneEntryEach_stored (h : Inv stray v) {d : InodeNo} {name : CStr} {size : UInt32}
    (hsize : size.toNat ≤ 512) {content : Block} (hst : Stored stray v d name size content v') :
    OneEntryEach v v' := by
  rcases hst with hc | ⟨j, k, hit, rfl⟩
  · exact oneEntryEach_created h (fun ht => absurd ht (by decide)) hc
  · refine oneEntryEach_flush (h.rewrite hit.used hit.type hsize content) fun i hi _ => ?_
    rw [h.blockOf_rewrite hit.used hi.1, if_neg (Inv.dir_ne_file hi hit.type)]
    exact .refl _

theorem oneEntryEach_renamed (h : Inv stray v) {srcPath dstPath : CStr}
    (hr : Renamed v srcPath dstPath v') : OneEntryEach v v' := by
  rcases hr with ⟨rfl, -⟩ | ⟨d, srcName, j, k, type, d', name, isDir, hparent, hentry, htarget, -,
    hfits, -, hv'⟩
  · exact fun _ _ _ => .refl _
  · have hd := (h.parent_kept hparent).1.1
    have hd' := (h.renameTarget_kept htarget).1.1
    rcases hv' with ⟨rfl, rfl⟩ | ⟨hne, j', -, rfl⟩
    · intro i hi _
      rw [Volume.renameAt, h.blockOf_setData hd hi.1]
      split
      · next hid =>
          subst hid
          exact .rename _ j hfits.2
      · exact .refl _
    · intro i hi _
      have h₁ := h.clearEntry (h.parent_kept hparent) j
      have hlast := h₁.blockOf_setData hd' hi.1 (fillEntry (v.blockOf d') j' k name)
      have hfirst := h.blockOf_setData hd hi.1 (clearEntry (v.blockOf d) j)
      have hblock : (v.move d j d' j' k name).blockOf i = _ := hlast
      rw [hblock]
      split
      · next hid =>
          subst hid
          exact .fill _ j' k hfits.2
      · rw [hfirst]
        split
        · next hid =>
            subst hid
            exact .clear _ j
        · exact .refl _

theorem oneEntryEach_removedAt (h : Inv stray v) {path : CStr} {types : UInt8 → Prop}
    (hr : RemovedAt stray v path types v') : OneEntryEach v v' := by
  obtain ⟨d, name, j, k, type, v₁, hparent, -, hit, hrem, rfl⟩ := hr
  obtain ⟨ws, hw⟩ := h.parent_walk hparent
  have hd := h.parent_kept hparent
  have hks := (h.named hd hit).2.2
  have hnew := h.removed_below hw hd hit.entry hrem
  refine oneEntryEach_flush hnew fun i hi hi' => ?_
  have hout : ¬ Below (v.edge stray) k i := by
    intro hbelow
    have := hi'.1
    rw [Live, hrem.zeroed i hbelow] at this
    exact this rfl
  rw [h.blockOf_removed hd.1.1 hrem (fun x hx => (h.below_live hit.used hks hx).1) hi.1 hout]
  split
  · next hid =>
      subst hid
      exact .clear _ j
  · exact .refl _

/-! ## Sessions -/

/-- One of the calls that take paths and store at most one name, with a name that fits. -/
def Call.Naming (v : Volume) : Call → Prop
  | .create _ => False
  | .writePasswd _ => False
  | call => call.Fits v

theorem Call.Naming.fits {call : Call} (h : call.Naming v) : call.Fits v := by
  cases call with
  | create name => exact h.elim
  | writePasswd hash => exact h.elim
  | _ => exact h

theorem Call.Naming.left {call : Call} (h : call.Naming v) (hl : Left stray v call v') : v' = v := by
  cases call with
  | writePasswd hash => exact h.elim
  | _ => exact hl

theorem oneEntryEach_done (h : Inv stray v) {call : Call} (hcall : call.Naming v)
    (hd : Done stray v call v') : OneEntryEach v v' := by
  cases call with
  | mkdirPath path =>
      obtain ⟨d, name, -, hc⟩ := hd
      exact oneEntryEach_created h (fun _ _ => listing_zero) hc
  | create name => exact hcall.elim
  | writePath path data =>
      obtain ⟨d, name, -, hst⟩ := hd
      exact oneEntryEach_stored h (dataLength_le data) hst
  | copyPath srcPath dstPath =>
      obtain ⟨k, d, name, ⟨_, _, _, _, hsrc⟩, -, hst⟩ := hd
      exact oneEntryEach_stored h (h.alloc.sizeLe k hsrc.used) hst
  | rename srcPath dstPath => exact oneEntryEach_renamed h hd
  | removePath path => exact oneEntryEach_removedAt h hd
  | removePathRecursive path => exact oneEntryEach_removedAt h hd
  | writePasswd hash => exact hcall.elim

theorem Session.ready_naming (hp : dev.Perfect)
    (h : Session dev (fun s call _ => call.Naming s.toVolume) s) :
    Ready (fun _ => False) s.toVolume := by
  induction h with
  | format _ _ hrun => exact (fsFormat_ready hp hrun).1
  | @call s s' call o _ hallow hrun ih =>
      rcases Call.run_cases hp ih.inv hallow.fits hrun with ⟨-, hdone⟩ | ⟨-, hleft⟩
      · exact ⟨ih.done hdone, hdone.mounted.trans ih.mounted⟩
      · rw [hallow.left hleft]
        exact ih

theorem session_namesFit (hp : dev.Perfect)
    (h : Session dev (fun s call _ => call.Naming s.toVolume) s) :
    NamesFit s.toVolume ∧ ∀ (call : Call) (o : Outcome Unit) (s' : Fs),
      call.Naming s.toVolume → call.run dev s = (o, s') →
      OneEntryEach s.toVolume s'.toVolume := by
  have hready := h.ready_naming hp
  refine ⟨hready.inv.namesFit, fun call o s' hcall hrun => ?_⟩
  rcases Call.run_cases hp hready.inv hcall.fits hrun with ⟨-, hdone⟩ | ⟨-, hleft⟩
  · exact oneEntryEach_done hready.inv hcall hdone
  · rw [hcall.left hleft]
    exact fun _ _ _ => .refl _

/-- A directory, a file in it and a copy of the file under another name. -/
theorem session_namesFit_copied :
    NamesFit (Fs.started .working (fun _ => Bytes.zero) 0
        [.mkdirPath nameA, .writePath pathAB nameB]).toVolume ∧
      ∀ o s', (Call.copyPath pathAB nameB).run .working (Fs.started .working (fun _ => Bytes.zero) 0
          [.mkdirPath nameA, .writePath pathAB nameB]) = (o, s') →
        OneEntryEach (Fs.started .working (fun _ => Bytes.zero) 0
          [.mkdirPath nameA, .writePath pathAB nameB]).toVolume s'.toVolume := by
  have h : Session .working (fun s call _ => call.Naming s.toVolume)
      (Fs.started .working (fun _ => Bytes.zero) 0 [.mkdirPath nameA, .writePath pathAB nameB]) :=
    .begun (by decide +kernel) ⟨trivial, Call.Ordinary.fits
      (show (Call.writePath pathAB nameB).Ordinary by decide) _, trivial⟩
  have hall := session_namesFit Device.working_perfect h
  exact ⟨hall.1, fun o s' hrun => hall.2 (.copyPath pathAB nameB) o s' trivial hrun⟩

/-- "a/" and 31 times "b" -/
def longPath : CStr := ⟨97 :: 47 :: List.replicate 31 98, by simp⟩

/-- The name runs over the end of its entry and marks the next one as used. -/
theorem not_session_namesFit :
    ¬ ∀ dev s, dev.Perfect → Session dev
      (fun _ call _ => match call with
        | .create _ => False
        | .writePasswd _ => False
        | _ => True) s → NamesFit s.toVolume := by
  intro h
  have hfit := h .working (Fs.started .working (fun _ => Bytes.zero) 0
      [.mkdirPath nameA, .writePath longPath nameB]) Device.working_perfect
    (.begun (by decide +kernel) ⟨trivial, trivial, trivial⟩)
  have := hfit 4 0 (by decide +kernel) (by decide +kernel)
  revert this
  decide +kernel

end SevenOS
