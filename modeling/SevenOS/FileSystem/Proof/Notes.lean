import SevenOS.FileSystem.Exports

/-! # What a program adds to the log

Every transfer is noted and no note is ever taken back, so a property of all the
transfers of a call is shown command by command, whatever the state is.
-/

namespace SevenOS

open Prog

variable {dev : Device} {α β : Type} {P : Transfer → Prop}

/-- The transfers noted from `s` to `s'` are all of this kind. -/
def Adds (P : Transfer → Prop) (s s' : Fs) : Prop :=
  ∃ added, s'.log = s.log ++ added ∧ ∀ t ∈ added, P t

/-- One of the transfers noted from `s` to `s'` is of this kind. -/
def AddsOne (P : Transfer → Prop) (s s' : Fs) : Prop :=
  ∃ added, s'.log = s.log ++ added ∧ ∃ t ∈ added, P t

def Noting (P : Transfer → Prop) (m : FsM α) : Prop := ∀ s : Fs, Keeps (Adds P s) m

namespace Adds

theorem refl (P : Transfer → Prop) (s : Fs) : Adds P s s := ⟨[], by simp, by simp⟩

theorem note {s s' : Fs} (h : Adds P s s') {t : Transfer} (ht : P t) :
    Adds P s { s' with log := s'.log ++ [t] } := by
  obtain ⟨added, hlog, hall⟩ := h
  refine ⟨added ++ [t], by rw [hlog, List.append_assoc], fun u hu => ?_⟩
  rcases List.mem_append.mp hu with hu | hu
  · exact hall u hu
  · rw [List.mem_singleton.mp hu]
    exact ht

theorem not_addsOne {s s' : Fs} (h : Adds P s s') : ¬ AddsOne (fun t => ¬ P t) s s' := by
  rintro ⟨added, hlog, t, ht, hnot⟩
  obtain ⟨added', hlog', hall⟩ := h
  rw [List.append_cancel_left (hlog.symm.trans hlog')] at ht
  exact hnot (hall t ht)

end Adds

theorem AddsOne.more {s s' s'' : Fs} {P' : Transfer → Prop} (h : AddsOne P s s')
    (h' : Adds P' s' s'') : AddsOne P s s'' := by
  obtain ⟨added, hlog, t, ht, hP⟩ := h
  obtain ⟨more, hlog', -⟩ := h'
  exact ⟨added ++ more, by rw [hlog', hlog, List.append_assoc], t, by simp [ht], hP⟩

namespace Noting

theorem pure (a : α) : Noting P (Pure.pure a : FsM α) := fun _ => Keeps.pure a

theorem refuse : Noting P (Prog.refuse : FsM α) := fun _ => Keeps.refuse

theorem diverge : Noting P (Prog.diverge : FsM α) := fun _ => Keeps.diverge

theorem get : Noting P (Prog.get : FsM Fs) := fun _ => Keeps.get

theorem require (p : Prop) [Decidable p] : Noting P (Prog.require p) := fun _ => Keeps.require p

theorem demand (o : Option α) : Noting P (Prog.demand o) := fun _ => Keeps.demand o

theorem modify {f : Fs → Fs} (hf : ∀ s, (f s).log = s.log) : Noting P (Prog.modify f) :=
  fun _ => Keeps.modify fun s ⟨added, hlog, hall⟩ => ⟨added, by rw [hf, hlog], hall⟩

theorem bind {m : FsM β} {f : β → FsM α} (hm : Noting P m) (hf : ∀ b, Noting P (f b)) :
    Noting P (m >>= f) := fun s => (hm s).bind fun b => hf b s

theorem ite {p : Prop} [Decidable p] {m n : FsM α} (hm : Noting P m) (hn : Noting P n) :
    Noting P (if p then m else n) := fun s => Keeps.ite (fun _ => hm s) fun _ => hn s

theorem foldlM {ι : Type} {step : α → ι → FsM α} (items : List ι)
    (hstep : ∀ a i, Noting P (step a i)) (a : α) : Noting P (items.foldlM step a) :=
  fun s => Keeps.foldlM items (fun a i _ => hstep a i s) a

theorem note {t : Transfer} (ht : P t) : Noting P (note t) :=
  fun _ => Keeps.modify fun _ h => h.note ht

theorem orElse {m handler : FsM Unit} (hm : Noting P m) (hh : Noting P handler) :
    Noting P (orElse m handler) := fun s₀ s hs =>
  wp_orElse.mpr (wp_mono (hm s₀ s hs) (fun _ _ h => h) (fun s' h => hh s₀ s' h) fun _ h => h)

/-- A kind of transfer that an earlier state noted is still noted when the program ends. -/
theorem keepsOne {m : FsM α} (h : Noting P m) {P' : Transfer → Prop} (s : Fs) :
    Keeps (AddsOne P' s) m := fun s' hs' =>
  wp_mono (h s' s' (.refl P s')) (fun _ _ h' => hs'.more h') (fun _ h' => hs'.more h')
    fun _ h' => hs'.more h'

/-! ## Transfers -/

theorem diskReadLba {object : Nat} {lba : UInt32} (h : P ⟨false, lba, 1, object⟩) :
    Noting P (diskReadLba dev object lba) :=
  (note h).bind fun _ => get.bind fun _ => (require _).bind fun _ => pure _

theorem writeSector (lba : UInt32) (b : Block) : Noting P (writeSector dev lba b) := by
  refine get.bind fun s => ?_
  cases dev.writeFault s lba with
  | none => exact modify fun _ => rfl
  | some left => exact bind (modify fun _ => rfl) fun _ => refuse

theorem diskWriteLba {object : Nat} {lba : UInt32} (h : P ⟨true, lba, 1, object⟩) (b : Block) :
    Noting P (diskWriteLba dev object lba b) :=
  (note h).bind fun _ => writeSector lba b

theorem readSectors (lba : UInt32) (sectors : Nat) (store : Nat → Block → Fs → Fs)
    (hstore : ∀ k b s, (store k b s).log = s.log) :
    Noting P ((List.range sectors).foldlM (fun _ k => do
      let s ← Prog.get
      Prog.require (dev.readFails s (lba + UInt32.ofNat k) = false)
      Prog.modify (store k (s.disk (lba + UInt32.ofNat k)))) ()) :=
  foldlM _ (fun _ k => get.bind fun _ => (require _).bind fun _ => modify (hstore k _)) ()

theorem diskReadSectors {object : Nat} {lba : UInt32} {sectors : Nat}
    (h : P ⟨false, lba, sectors, object⟩) {store : Nat → Block → Fs → Fs}
    (hstore : ∀ k b s, (store k b s).log = s.log) :
    Noting P (diskReadSectors dev object lba sectors store) :=
  (note h).bind fun _ => readSectors lba sectors store hstore

theorem diskWriteSectors {object : Nat} {lba : UInt32} {sectors : Nat}
    (h : P ⟨true, lba, sectors, object⟩) (data : Nat → Block) :
    Noting P (diskWriteSectors dev object lba sectors data) :=
  (note h).bind fun _ => foldlM _ (fun _ _ => writeSector _ _) ()

theorem loadScratch {lba : UInt32} (h : P ⟨false, lba, 1, 512⟩) : Noting P (loadScratch dev lba) :=
  (diskReadLba h).bind fun _ => modify fun _ => rfl

theorem loadScratch2 {lba : UInt32} (h : P ⟨false, lba, 1, 512⟩) :
    Noting P (loadScratch2 dev lba) :=
  (diskReadLba h).bind fun _ => modify fun _ => rfl

theorem flushBitmap (h : ∀ lba, P ⟨true, lba, 8, 4096⟩) : Noting P (flushBitmap dev) :=
  get.bind fun _ => diskWriteSectors (h _) _

theorem flushInodes (h : ∀ lba, P ⟨true, lba, 8, 4096⟩) : Noting P (flushInodes dev) :=
  get.bind fun _ => diskWriteSectors (h _) _

theorem flushTables (h : ∀ lba, P ⟨true, lba, 8, 4096⟩) : Noting P (flushTables dev) :=
  (flushBitmap h).bind fun _ => flushInodes h

theorem forget {m : FsM α} (h : Noting P m) : Noting P (Export.forget m) :=
  h.bind fun _ => pure _

theorem failMount (error : FsError) : Noting P (failMount error) :=
  bind (modify fun _ => rfl) fun _ => refuse

theorem fsGetDiskBytes : Noting P (fsGetDiskBytes dev) := by
  rw [SevenOS.fsGetDiskBytes]
  cases dev.sectorCount with
  | none => exact get.bind fun _ => pure _
  | some sectors => exact pure _

/-! ## Mounting -/

/-- `fs_init` behind the superblock. -/
theorem loadTables (htable : ∀ lba, P ⟨false, lba, 8, 4096⟩) : Noting P (do
    SevenOS.orElse (loadBitmap dev) (SevenOS.failMount .io)
    SevenOS.orElse (loadInodes dev) (SevenOS.failMount .io)
    Prog.modify fun s => { s with lastError := .none, mounted := true }) := by
  have hbitmap : Noting P (loadBitmap dev) :=
    get.bind fun _ => diskReadSectors (htable _) fun _ _ _ => rfl
  have hinodes : Noting P (loadInodes dev) :=
    get.bind fun _ => diskReadSectors (htable _) fun _ _ _ => rfl
  exact (orElse hbitmap (failMount _)).bind fun _ => (orElse hinodes (failMount _)).bind fun _ =>
    modify fun _ => rfl

theorem checkFormat (hblock : ∀ lba, P ⟨false, lba, 1, 512⟩)
    (htable : ∀ lba, P ⟨false, lba, 8, 4096⟩) (sb : Superblock) :
    Noting P (checkFormat dev sb) :=
  (require _).bind fun _ => bind (diskReadSectors (htable _) fun _ _ _ => rfl) fun _ =>
    get.bind fun _ => (require _).bind fun _ => (loadScratch (hblock _)).bind fun _ =>
    get.bind fun _ => (demand _).bind fun _ => (demand _).bind fun _ => (require _).bind fun _ =>
    (loadScratch2 (hblock _)).bind fun _ => get.bind fun _ => (demand _).bind fun _ =>
    (demand _).bind fun _ => (require _).bind fun _ => (loadScratch (hblock _)).bind fun _ =>
    get.bind fun _ => require _

/-- `fs_init` only reads. -/
theorem fsInit (h : ∀ lba sectors object, P ⟨false, lba, sectors, object⟩) :
    Noting P (fsInit dev) := by
  have hsuper : Noting P (loadSuperblock dev) := diskReadSectors (h _ _ _) fun _ _ _ => rfl
  exact (orElse hsuper (failMount _)).bind fun _ => get.bind fun _ =>
    ite ((failMount _).bind fun _ => loadTables fun _ => h _ _ _) (loadTables fun _ => h _ _ _)

/-- So does `fs_is_formatted`. -/
theorem fsIsFormatted (h : ∀ lba sectors object, P ⟨false, lba, sectors, object⟩) :
    Noting P (fsIsFormatted dev) :=
  (diskReadLba (h _ _ _)).bind fun b s s' hs => dev.frame.ends_returning b
    (checkFormat (fun lba => h lba 1 512) (fun lba => h lba 8 4096) (Superblock.decode b) s s' hs)

end Noting

end SevenOS
