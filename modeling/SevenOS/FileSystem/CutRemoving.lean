import SevenOS.FileSystem.CutShort
import SevenOS.FileSystem.Regions
import SevenOS.FileSystem.Removing

/-! # Removals that are cut short

A removal zeroes blocks one after the other and writes the directory and the tables last.
What it has zeroed by then hangs below the removed entry, and no file that the call leaves
alone does. With the removals every call leaves such a file what it needs.
-/

namespace SevenOS

open Prog

variable {dev : Device} {fails : Fs → UInt32 → Bool} {stray unflushed : InodeNo → Prop}
  {p : CStr} {s : Fs}

namespace Way

/-! ## Emptying a directory -/

section Emptying

variable {v : Volume} {way : Way stray v p} {type : InodeNo → UInt8}

/-- The used entries of the block name inodes of `G` only. -/
def NamesOnly (G : InodeNo → Prop) (b : Block) : Prop :=
  ∀ j x, entryUsed b j = true → inodeIndex (entryInode b j) = some x → G x

theorem NamesOnly.clearEntry {G : InodeNo → Prop} {b : Block} (h : NamesOnly G b) (i : Slot) :
    NamesOnly G (clearEntry b i) := by
  intro j x hused hx
  by_cases hij : i = j
  · subst hij
    rw [entryUsed_clearEntry] at hused
    cases hused
  · obtain ⟨hu, hn⟩ := clearEntry_other b hij
    rw [hu] at hused
    rw [hn] at hx
    exact h j x hused hx

theorem namesOnly_zero (G : InodeNo → Prop) : NamesOnly G Bytes.zero := by
  intro j x hused
  have hunused := listing_eq_none.mp (congrFun listing_zero j)
  rw [hunused] at hused
  cases hused

/-- While the inodes `G` go: each is as it was or zeroed, and their directories lead to
no other ones. -/
structure Clearing (way : Way stray v p) (type : InodeNo → UInt8) (G : InodeNo → Prop)
    (w : Volume) : Prop where
  guards : way.Guards type w
  inodes : ∀ i, w.inodes i = v.inodes i ∨ w.inodes i = Inode.zero
  names : ∀ i, G i → (v.inodes i).type = inodeDir → NamesOnly G (w.disk (v.sectorOf i))

namespace Clearing

variable {G : InodeNo → Prop} (h : way.Clearing type G s.toVolume)

include h

theorem sectorOf {i : InodeNo} (hi : (s.inodes i).direct0 ≠ 0) :
    s.sectorOf i = v.sectorOf i ∧ s.inodes i = v.inodes i := by
  have hino : s.inodes i = v.inodes i := (h.inodes i).resolve_right fun hzero => hi (by rw [hzero]; rfl)
  refine ⟨?_, hino⟩
  rw [Volume.sectorOf, Volume.sectorOf, Volume.dataSector, Volume.dataSector, hino, h.guards.sb]

theorem write {i : InodeNo} (hi : ¬ way.Holds i) {b : Block} (hb : NamesOnly G b)
    {Q : Unit → Fs → Prop} {R D : Fs → Prop} (hR : ∀ s', way.Clearing type G s'.toVolume → R s')
    (hQ : ∀ s', way.Clearing type G s'.toVolume → Q () s') :
    wp (diskWriteLba (dev.cut fails) 512 (s.sectorOf i) b) Q R D s := by
  refine wp_cutWrite (hQ _ ⟨h.guards.setSector (h.guards.admits (takes_off hi b)), h.inodes, ?_⟩)
    (hR _ h)
  intro x hx htype
  change NamesOnly G (assign s.disk (s.sectorOf i) b (v.sectorOf x))
  by_cases heq : v.sectorOf x = s.sectorOf i
  · rw [heq, assign_same]
    exact hb
  · rw [assign_of_ne _ _ heq]
    exact h.names x hx htype

theorem erase {i : InodeNo} (hi : ¬ way.Holds i) {α : Type} {f : Unit → FsM α}
    {Q : α → Fs → Prop} {R D : Fs → Prop} (hR : ∀ s', way.Clearing type G s'.toVolume → R s')
    (hf : ∀ s', way.Clearing type G s'.toVolume → wp (f ()) Q R D s') :
    wp (do releaseBlock (dev.cut fails) i; modifyInode i (fun _ => Inode.zero); f ()) Q R D s := by
  have zeroed : ∀ s' : Fs, way.Clearing type G s'.toVolume →
      way.Clearing type G (s'.toVolume.putInode i Inode.zero) := by
    refine fun s' h' => ⟨h'.guards.erase hi, fun x => ?_, h'.names⟩
    rw [Volume.inodes_putInode]
    by_cases hx : x = i
    · rw [hx, assign_same]
      exact .inr rfl
    · rw [assign_of_ne _ _ hx]
      exact h'.inodes x
  rw [releaseBlock, wp_bind, wp_bind, wp_get, wp_ite]
  refine ⟨fun _ => ?_, fun _ => ?_⟩
  · rw [wp_bind, wp_markBlockFree]
    have hfreed : way.Clearing type G
        (s.setVolume (s.toVolume.freeBlock (s.inodes i).direct0)).toVolume :=
      ⟨h.guards.congr rfl rfl rfl, h.inodes, h.names⟩
    refine hfreed.write hi (namesOnly_zero G) hR fun s' h' => ?_
    rw [wp_bind, wp_modifyInode]
    exact hf _ (zeroed s' h')
  · rw [wp_pure, wp_bind, wp_modifyInode]
    exact hf _ (zeroed s h)

end Clearing

theorem removeDirContents_clears (hp : dev.Perfect) {G : InodeNo → Prop}
    (hG : ∀ i, G i → ¬ way.Holds i) (frames : Nat) {d : InodeNo} (hd : G d)
    (h : way.Clearing type G s.toVolume) :
    Ends (fun s => way.Clearing type G s.toVolume) (removeDirContents (dev.cut fails) frames d)
      s := by
  induction frames generalizing d s with
  | zero => exact h
  | succ frames ih =>
      refine Ends.get <| Ends.require h fun _ => Ends.require h fun hdir => ?_
      obtain ⟨hsector, hino⟩ := h.sectorOf hdir.2.2
      have hblock : NamesOnly G (s.disk (s.sectorOf d)) := by
        rw [hsector]
        exact h.names d hd (hino ▸ hdir.2.1)
      rw [Ends, wp_bind, (hp.cut_readable fails).wp_read, wp_bind]
      refine wp_mono (wp_foldlM _ (fun _ b s => NamesOnly G b ∧ way.Clearing type G s.toVolume)
        slots ?_ _ ⟨hblock, h⟩) ?_ (fun _ h => h) fun _ h => h
      · -- one entry
        rintro done j rest b s' - ⟨hb, h'⟩
        rw [wp_ite]
        refine ⟨fun _ => ⟨hb, h'⟩, fun hused => ?_⟩
        have hused : entryUsed b j = true := by simpa using hused
        rw [wp_bind, wp_require]
        refine ⟨fun _ => ?_, fun _ => h'⟩
        rw [wp_bind, wp_demand]
        refine ⟨fun x hx => ?_, fun _ => h'⟩
        have hGx := hb j x hused hx
        have finish : ∀ s'' : Fs, way.Clearing type G s''.toVolume →
            wp (do releaseBlock (dev.cut fails) x; modifyInode x fun _ => Inode.zero
                   return clearEntry b j)
              (fun b s => NamesOnly G b ∧ way.Clearing type G s.toVolume)
              (fun s => way.Clearing type G s.toVolume)
              (fun s => way.Clearing type G s.toVolume) s'' := fun s'' h'' =>
          h''.erase (hG x hGx) (f := fun _ => pure (clearEntry b j)) (fun _ h => h) fun s₂ h₂ =>
            ⟨hb.clearEntry j, h₂⟩
        rw [wp_bind, wp_get, wp_ite]
        refine ⟨fun _ => ?_, fun _ => ?_⟩
        · exact wp_call (ih hGx h') (fun _ s'' h'' => finish s'' h'') (fun _ h => h) fun _ h => h
        · rw [wp_bind, wp_require]
          exact ⟨fun _ => finish s' h', fun _ => h'⟩
      · -- the emptied block is written back
        rintro b s' ⟨hb, h'⟩
        rw [wp_bind, wp_get]
        exact h'.write (hG d hd) hb (fun _ h => h) fun _ h'' => h''

end Emptying

section Calls

variable (hp : dev.Perfect) (hrest : Resting stray unflushed s.toVolume)
  {way : Way stray s.toVolume p}

include hp hrest

/-! ## Removing -/

theorem removeEntryFromDir_lasts {path name : CStr} {d : InodeNo}
    (hparent : s.toVolume.Parent path d name) (hplace : ¬ SamePlace path p) {s₁ : Fs}
    (hv : s₁.toVolume = s.toVolume) :
    way.EndsLasting (removeEntryFromDir (dev.cut fails) d name) s₁ := by
  have h := way.lasts_self hrest
  have hd := hrest.inv.parent_kept hparent
  have htyped := s.toVolume.typed_typesOr fun _ => 0
  have hguards := way.guards_self hrest htyped
  refine Ends.get <| Ends.require (h.of_eq hv) fun _ => ?_
  rw [Ends, wp_bind, (hp.cut_readable fails).wp_loadScratch]
  refine Ends.get ?_
  simp only [Fs.scratch_setScratch, Fs.toVolume_setScratch, Fs.toVolume_noted, Volume.disk_sectorOf,
    hv]
  cases hscan : scanEntries rootOrOutOfTable name inodeFile (s.blockOf d) s.inodes with
  | bad => exact h.of_eq hv
  | absent free => exact h.of_eq hv
  | found j k =>
      obtain ⟨hit, -⟩ := scan_found hscan
      have hk : ¬ way.Holds k := way.not_holds hparent hit hplace fun ht => absurd ht (by decide)
      have finish : ∀ s₂ : Fs, way.Guards (s.toVolume.typesOr fun _ => 0) s₂.toVolume →
          s₂.blockScratch = s.blockOf d → way.EndsGuarded (s.toVolume.typesOr fun _ => 0) (do
            modify fun s => { s with blockScratch := clearEntry s.blockScratch j }
            modifyInode k fun _ => Inode.zero
            let s ← get
            diskWriteLba (dev.cut fails) 512 (s.sectorOf d) s.blockScratch
            flushTables (dev.cut fails)) s₂ := by
        intro s₂ h₂ hb₂
        rw [EndsGuarded, Ends, wp_bind, wp_setScratch, wp_bind, wp_modifyInode]
        refine Ends.get (Guards.store (d := d) (h₂.erase hk) ?_)
        rw [Fs.scratch_setVolume, Fs.scratch_setScratch, hb₂]
        exact takes_leave htyped hd hit.entry hk
      refine Ends.require (h.of_eq hv) fun _ => ?_
      suffices hends : way.EndsGuarded (s.toVolume.typesOr fun _ => 0) _ _ from hends.lasts
      refine Ends.ite (fun _ => ?_) fun _ => finish _ (hguards.of_eq hv) rfl
      rw [Ends, wp_bind, wp_markBlockFree, wp_bind, wp_setScratch2]
      have hfreed : way.Guards (s.toVolume.typesOr fun _ => 0)
          (s₁.toVolume.freeBlock (s.inodes k).direct0) := (hguards.of_eq hv).congr rfl rfl rfl
      refine Ends.get ?_
      rw [Ends, wp_bind]
      exact Guards.write hfreed (takes_off hk _) fun s₂ h₂ _ hb₂ _ => finish s₂ h₂ hb₂

theorem removeParent_step {path dirname filename : CStr}
    (hsplit : splitPath path = some (dirname, filename)) {f : InodeNo → FsM Unit}
    (hf : ∀ d s₁, s₁.toVolume = s.toVolume → s.toVolume.Parent path d filename →
      way.EndsLasting (f d) s₁) :
    way.EndsLasting (removeParent (dev.cut fails) dirname filename >>= f) s := by
  have h := way.lasts_self hrest
  simp only [removeParent, wp_bind, wp_get, wp_require,
    (hp.cut_readable fails).wp_loadScratch]
  refine ⟨fun _ => ⟨fun _ => ?_, fun _ => h⟩, fun _ => h⟩
  exact wp_lookupDir rfl (fun i d hit => hf d _ rfl (.ofDir hsplit hit)) fun _ => h

theorem fsRemovePath_lasts (path : CStr) (hplace : ¬ SamePlace path p) :
    way.EndsLasting (fsRemovePath (dev.cut fails) path) s := by
  have h := way.lasts_self hrest
  refine Ends.get <| Ends.require h fun _ => Ends.require h fun _ => ?_
  cases hsplit : splitPath path with
  | none =>
      exact Ends.get <| Ends.require h fun _ => Ends.require h fun _ => Ends.require h fun _ =>
        Ends.require h fun _ => removeEntryFromDir_lasts hp hrest (.ofRoot hsplit) hplace rfl
  | some parts =>
      exact removeParent_step hp hrest hsplit fun d s₁ hv hparent =>
        removeEntryFromDir_lasts hp hrest hparent hplace hv

theorem removeEntryFromDirRecursive_lasts {path name : CStr} {d : InodeNo}
    (hparent : s.toVolume.Parent path d name) (hplace : ¬ SamePlace path p)
    (htop : topName p ≠ some path) {s₁ : Fs} (hv : s₁.toVolume = s.toVolume) :
    way.EndsLasting (removeEntryFromDirRecursive (dev.cut fails) d name) s₁ := by
  have h := way.lasts_self hrest
  have hinv := hrest.inv
  have hd := hinv.parent_kept hparent
  have htyped := s.toVolume.typed_typesOr fun _ => 0
  have hguards := way.guards_self hrest htyped
  refine Ends.get <| Ends.require (h.of_eq hv) fun _ => ?_
  rw [Ends, wp_bind, (hp.cut_readable fails).wp_read]
  simp only [Volume.disk_sectorOf, hv]
  cases hscan : findRemovable name (s.blockOf d) s.inodes with
  | bad => exact h.of_eq hv
  | absent free => exact h.of_eq hv
  | found j k =>
      obtain ⟨type, hit⟩ := findRemovable_hit hscan
      have hk : ¬ way.Holds k := way.not_holds hparent hit hplace fun _ => htop
      have e : s.toVolume.edge stray d j k := ⟨hd, name, hit.entry⟩
      obtain ⟨-, hlive, hstray⟩ := hinv.named hd hit
      have hG : ∀ i, Below (s.toVolume.edge stray) k i → ¬ way.Holds i := fun i hi =>
        way.not_holds_below e hk hi
      have hclear : way.Clearing (s.toVolume.typesOr fun _ => 0)
          (Below (s.toVolume.edge stray) k) s₁.toVolume := by
        rw [hv]
        refine ⟨hguards, fun _ => .inl rfl, fun i hi htype i' x hused hx => ?_⟩
        have hkept : Kept stray s.inodes i :=
          ⟨⟨(hinv.below_live hlive hstray hi).1, htype⟩, (hinv.below_live hlive hstray hi).2⟩
        have hlisted : s.dirAt i i' = some (entryName (s.blockOf i) i', inodeByte x) :=
          listing_eq_some.mpr ⟨hused, rfl, inodeIndex_eq_some.mp hx⟩
        exact hi.trans_edge ⟨hkept, _, hlisted⟩
      have finish : ∀ s₂ : Fs, way.Clearing (s.toVolume.typesOr fun _ => 0)
          (Below (s.toVolume.edge stray) k) s₂.toVolume → way.EndsLasting (do
            releaseBlock (dev.cut fails) k
            modifyInode k fun _ => Inode.zero
            let s' ← get
            diskWriteLba (dev.cut fails) 512 (s'.sectorOf d) (clearEntry (s.blockOf d) j)
            flushTables (dev.cut fails)) s₂ := by
        intro s₂ h₂
        refine h₂.erase hk (f := fun _ => do
          let s' ← get
          diskWriteLba (dev.cut fails) 512 (s'.sectorOf d) (clearEntry (s.blockOf d) j)
          flushTables (dev.cut fails)) (fun _ h' => ⟨_, h'.guards⟩) fun s₃ h₃ => ?_
        exact Ends.get (h₃.guards.store (takes_leave htyped hd hit.entry hk)).lasts
      refine Ends.ite (fun _ => ?_) fun _ => ?_
      · refine Ends.bind (wp_mono (removeDirContents_clears hp hG dirNesting (below_refl k) ?_)
          (fun _ _ h => h) (fun _ h => ⟨_, h.guards⟩) fun _ h => ⟨_, h.guards⟩)
          fun _ s₂ h₂ => finish s₂ h₂
        exact hclear
      · exact Ends.require (h.of_eq hv) fun _ => finish _ hclear

theorem fsRemovePathRecursive_lasts (path : CStr) (hplace : ¬ SamePlace path p)
    (htop : topName p ≠ some path) :
    way.EndsLasting (fsRemovePathRecursive (dev.cut fails) path) s := by
  have h := way.lasts_self hrest
  refine Ends.get <| Ends.require h fun _ => Ends.require h fun _ => ?_
  cases hsplit : splitPath path with
  | none =>
      exact Ends.require h fun _ =>
        removeEntryFromDirRecursive_lasts hp hrest (.ofRoot hsplit) hplace htop rfl
  | some parts =>
      exact removeParent_step hp hrest hsplit fun d s₁ hv hparent =>
        removeEntryFromDirRecursive_lasts hp hrest hparent hplace htop hv

/-! ## Every call -/

theorem call_lasts {call : Call} (hfits : call.Fits s.toVolume) (hcall : call.Leaves p) :
    way.EndsLasting (call.run (dev.cut fails)) s := by
  cases call with
  | mkdirPath path => exact fsMkdirPath_lasts hp hrest path
  | create name => exact fsCreate_lasts hp hrest name
  | writePath path data => exact fsWritePath_lasts hp hrest path data hfits hcall
  | copyPath srcPath dstPath => exact fsCopyPath_lasts hp hrest srcPath dstPath hcall.1 hcall.2
  | rename srcPath dstPath => exact fsRename_lasts hp hrest srcPath dstPath hcall.1 hcall.2
  | removePath path => exact fsRemovePath_lasts hp hrest path hcall
  | removePathRecursive path =>
      exact fsRemovePathRecursive_lasts hp hrest path hcall.1 hcall.2
  | writePasswd hash => exact fsWritePasswd_lasts hp hrest hash hcall

end Calls

end Way

end SevenOS
