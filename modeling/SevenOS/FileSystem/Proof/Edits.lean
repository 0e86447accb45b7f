import SevenOS.FileSystem.Proof.Invariant

/-! # Edits of a volume

What a successful operation does to a volume: one of a few edits, then mostly
a flush. Each edit keeps the invariant.
-/

namespace SevenOS

/-- The invariant of a volume; `stray` inodes are taken and never linked. -/
structure Inv (stray : InodeNo → Prop) (v : Volume) : Prop where
  layout : v.Layout
  alloc : Allocated v.sb v.bitmap v.inodes
  linked : Linked stray v.inodes v.dirAt

namespace Inv

variable {stray : InodeNo → Prop} {v : Volume}

theorem rootLive (h : Inv stray v) : Live v.inodes 0 := h.linked.root.1.1

theorem rootReadable (h : Inv stray v) : rootReadable v := by
  refine ⟨h.rootLive, fun h0 => ?_⟩
  have := h.alloc.blockPos 0 h.rootLive
  rw [h0] at this
  simp at this

theorem direct0_ne (h : Inv stray v) {i : InodeNo} (hi : Live v.inodes i) :
    (v.inodes i).direct0 ≠ 0 := by
  intro h0
  have := h.alloc.blockPos i hi
  rw [h0] at this
  simp at this

theorem isDirInode (h : Inv stray v) {i : InodeNo} (hi : LiveDir v.inodes i) : isDirInode v i :=
  ⟨hi.1, hi.2, h.direct0_ne hi.1⟩

theorem named (h : Inv stray v) {d : InodeNo} (hd : Kept stray v.inodes d) {name : CStr}
    {type : UInt8} {j : Slot} {k : InodeNo} (hit : Hit (v.dirAt d) v.inodes name type j k) :
    k ≠ 0 ∧ Live v.inodes k ∧ ¬ stray k :=
  h.linked.named hd hit.entry

theorem keptDir (h : Inv stray v) {d : InodeNo} (hd : Kept stray v.inodes d) {name : CStr}
    {j : Slot} {k : InodeNo} (hit : Hit (v.dirAt d) v.inodes name inodeDir j k) :
    Kept stray v.inodes k :=
  ⟨⟨hit.used, hit.type⟩, (h.named hd hit).2.2⟩

theorem entry_det (h : Inv stray v) {d d' : InodeNo} (hd : Kept stray v.inodes d)
    (hd' : Kept stray v.inodes d') {j j' : Slot} {name name' : CStr} {n : UInt8}
    (he : v.dirAt d j = some (name, n)) (he' : v.dirAt d' j' = some (name', n)) :
    d = d' ∧ name = name' := by
  obtain ⟨rfl, rfl⟩ := h.linked.once _ _ _ _ _ _ _ hd hd' he he'
  have heq := he.symm.trans he'
  simp only [Option.some.injEq, Prod.mk.injEq, and_true] at heq
  exact ⟨rfl, heq⟩

/-- There is one live inode of a name and type in a directory. -/
theorem hit_unique (h : Inv stray v) {d : InodeNo} (hd : Kept stray v.inodes d) {name : CStr}
    {type : UInt8} {j j' : Slot} {k k' : InodeNo} (hit : Hit (v.dirAt d) v.inodes name type j k)
    (hit' : Hit (v.dirAt d) v.inodes name type j' k') : j = j' ∧ k = k' := by
  have hj : j = j' := h.linked.distinct d j j' name k k' hd hit.entry hit'.entry
    (hit.type.trans hit'.type.symm)
  subst hj
  have heq := hit.entry.symm.trans hit'.entry
  simp only [Option.some.injEq, Prod.mk.injEq, true_and] at heq
  exact ⟨rfl, inodeByte_injective heq⟩

/-- Two live inodes share a block only if they are the same. -/
theorem block_eq_iff (h : Inv stray v) {i j : InodeNo} (hi : Live v.inodes i)
    (hj : Live v.inodes j) : (v.inodes i).direct0 = (v.inodes j).direct0 ↔ i = j :=
  ⟨h.alloc.blockInj i j hi hj, fun heq => by rw [heq]⟩

theorem sectorOf_ne (h : Inv stray v) {i j : InodeNo} (hi : Live v.inodes i)
    (hj : Live v.inodes j) (hne : i ≠ j) : v.sectorOf i ≠ v.sectorOf j := fun heq =>
  hne (h.alloc.blockInj i j hi hj (Volume.dataSector_inj.mp heq))

theorem blockOf_setData (h : Inv stray v) {d i : InodeNo} (hd : Live v.inodes d)
    (hi : Live v.inodes i) (b : Block) :
    (v.setData (v.inodes d).direct0 b).blockOf i = if i = d then b else v.blockOf i := by
  simp only [Volume.blockOf, Volume.data_setData, Volume.inodes_setData, h.block_eq_iff hi hd]

theorem flush (h : Inv stray v) : Inv stray v.flush := by
  refine ⟨⟨h.layout.1, h.layout.2, h.layout.3⟩, h.alloc, ?_⟩
  refine h.linked.congr (fun _ => Iff.rfl) (fun _ _ => rfl) fun d hd => ?_
  exact congrArg listing (h.layout.data_flush (h.alloc.blockBound hd.1.1))

end Inv

namespace Volume

/-- An unused inode is filled in and its block marked used. -/
def take (v : Volume) (k : InodeNo) (ino : Inode) : Volume :=
  (v.useBlock ino.direct0).putInode k ino

/-- A new entry of directory `d` for a new inode `k` with the given content. -/
def create (v : Volume) (d : InodeNo) (j : Slot) (name : CStr) (k : InodeNo) (ino : Inode)
    (content : Block) : Volume :=
  ((v.take k ino).setData ino.direct0 content).setData (v.inodes d).direct0
    (fillEntry (v.blockOf d) j k name)

def rewrite (v : Volume) (k : InodeNo) (size : UInt32) (content : Block) : Volume :=
  (v.putInode k { v.inodes k with size := size }).setData (v.inodes k).direct0 content

def renameAt (v : Volume) (d : InodeNo) (j : Slot) (name : CStr) : Volume :=
  v.setData (v.inodes d).direct0 (renameEntry (v.blockOf d) j name)

/-- An entry goes over to another directory. -/
def move (v : Volume) (d : InodeNo) (j : Slot) (d' : InodeNo) (j' : Slot) (k : InodeNo)
    (name : CStr) : Volume :=
  (v.setData (v.inodes d).direct0 (clearEntry (v.blockOf d) j)).setData (v.inodes d').direct0
    (fillEntry (v.blockOf d') j' k name)

/-- Inode `k` is unused and `ino` makes it live on a block that is free. -/
structure CanTake (v : Volume) (k : InodeNo) (ino : Inode) : Prop where
  unused : ¬ Live v.inodes k
  used : ino.used ≠ 0
  typed : ino.type = inodeFile ∨ ino.type = inodeDir
  sizeLe : ino.size.toNat ≤ 512
  blockPos : 1 ≤ ino.direct0.toNat
  blockLt : ino.direct0.toNat < v.sb.blockCount.toNat
  blockFree : v.bitmap.testBit ino.direct0.toNat = false

/-- Directory `d` has no entry of this name and type and slot `j` is free. -/
structure CanEnter (stray : InodeNo → Prop) (v : Volume) (d : InodeNo) (j : Slot) (name : CStr)
    (type : UInt8) : Prop where
  dir : Kept stray v.inodes d
  free : v.dirAt d j = none
  fits : 1 ≤ name.length ∧ name.length < 30
  absent : ∀ i k, ¬ Hit (v.dirAt d) v.inodes name type i k

/-- One file of directory `d`, or a directory with all that hangs below it, is gone. -/
structure Removed (v : Volume) (d : InodeNo) (j : Slot) (S : InodeNo → Prop) (v' : Volume) :
    Prop where
  sb : v'.sb = v.sb
  mounted : v'.mounted = v.mounted
  zeroed : ∀ i, S i → v'.inodes i = Inode.zero
  inodes : ∀ i, ¬ S i → v'.inodes i = v.inodes i
  bits : ∀ b, b < 32768 → (v'.bitmap.testBit b = true ↔
    v.bitmap.testBit b = true ∧ ¬ ∃ i, S i ∧ (v.inodes i).direct0.toNat = b)
  zeros : ∀ i, S i → v'.disk (v.sectorOf i) = Bytes.zero
  parent : v'.data (v.inodes d).direct0 = clearEntry (v.blockOf d) j
  disk : ∀ l, l ≠ v.sectorOf d → (∀ i, S i → l ≠ v.sectorOf i) → v'.disk l = v.disk l

/-- The entry and what is below it decide what a removal leaves. -/
theorem Removed.unique {v v₁ v₂ : Volume} {d : InodeNo} {j : Slot} {S : InodeNo → Prop}
    (h₁ : v.Removed d j S v₁) (h₂ : v.Removed d j S v₂) : v₁ = v₂ := by
  have hinodes : v₁.inodes = v₂.inodes := by
    funext i
    by_cases hi : S i
    · rw [h₁.zeroed i hi, h₂.zeroed i hi]
    · rw [h₁.inodes i hi, h₂.inodes i hi]
  have hbitmap : v₁.bitmap = v₂.bitmap := by
    apply Bytes.ext_testBit
    intro b hb
    rw [Bool.eq_iff_iff, h₁.bits b hb, h₂.bits b hb]
  have hparent : ∀ {v'}, v.Removed d j S v' → v'.disk (v.sectorOf d) = clearEntry (v.blockOf d) j := by
    intro v' h
    have hdata := h.parent
    rw [data, dataSector, h.sb] at hdata
    exact hdata
  have hdisk : v₁.disk = v₂.disk := by
    funext l
    by_cases hl : l = v.sectorOf d
    · rw [hl, hparent h₁, hparent h₂]
    · by_cases hS : ∃ i, S i ∧ l = v.sectorOf i
      · obtain ⟨i, hi, rfl⟩ := hS
        rw [h₁.zeros i hi, h₂.zeros i hi]
      · have hout : ∀ i, S i → l ≠ v.sectorOf i := fun i hi hli => hS ⟨i, hi, hli⟩
        rw [h₁.disk l hl hout, h₂.disk l hl hout]
  cases v₁
  cases v₂
  simp only [mk.injEq]
  exact ⟨h₁.sb.trans h₂.sb.symm, hbitmap, hinodes, h₁.mounted.trans h₂.mounted.symm, hdisk⟩

end Volume

theorem assign_assign {ι α : Type} [DecidableEq ι] (f : ι → α) (i : ι) (a b : α) :
    assign (assign f i a) i b = assign f i b := by
  funext j
  by_cases h : j = i <;> simp [assign, h]

namespace Inv

variable {stray : InodeNo → Prop} {v : Volume}

section Take

variable {k : InodeNo} {ino : Inode}

theorem ne_of_canTake (h : Inv stray v) (hc : v.CanTake k ino) {i : InodeNo}
    (hi : Live v.inodes i) : i ≠ k ∧ (v.inodes i).direct0 ≠ ino.direct0 :=
  ⟨fun heq => hc.unused (heq ▸ hi),
    h.alloc.ne_of_free (Nat.lt_of_lt_of_le hc.blockLt h.alloc.countLe) hc.blockFree hi⟩

theorem alloc_take (h : Inv stray v) (hc : v.CanTake k ino) :
    Allocated v.sb (v.take k ino).bitmap (v.take k ino).inodes :=
  h.alloc.take hc.unused hc.used hc.typed hc.sizeLe hc.blockPos hc.blockLt hc.blockFree

/-- A refused call may have taken an inode that nothing will ever name. -/
theorem take (h : Inv stray v) (hc : v.CanTake k ino) :
    Inv (fun i => stray i ∨ i = k) (v.take k ino) := by
  refine ⟨⟨h.layout.1, h.layout.2, h.layout.3⟩, h.alloc_take hc, ?_⟩
  refine h.linked.take hc.unused hc.used fun d hd => ?_
  have hdk := (h.ne_of_canTake hc hd.1.1).1
  simp [Volume.dirAt, Volume.blockOf, Volume.take, hdk]

theorem take_setData (h : Inv stray v) (hc : v.CanTake k ino) (content : Block)
    (hempty : ino.type = inodeDir → listing content = fun _ => none) :
    Inv stray ((v.take k ino).setData ino.direct0 content) := by
  refine ⟨⟨h.layout.1, h.layout.2, h.layout.3⟩, h.alloc_take hc, ?_⟩
  apply Linked.adopt (k := k)
  · refine h.linked.take hc.unused hc.used fun d hd => ?_
    obtain ⟨hdk, hblock⟩ := h.ne_of_canTake hc hd.1.1
    simp [Volume.dirAt, Volume.blockOf, Volume.take, Volume.data_setData, hdk, hblock]
  · rintro ⟨-, ht⟩
    have ht' : ino.type = inodeDir := by simpa [Volume.take] using ht
    simpa [Volume.dirAt, Volume.blockOf, Volume.take] using hempty ht'

end Take

theorem dirAt_setData (h : Inv stray v) {d i : InodeNo} (hd : Live v.inodes d)
    (hi : Live v.inodes i) (b : Block) :
    (v.setData (v.inodes d).direct0 b).dirAt i = assign v.dirAt d (listing b) i := by
  rw [Volume.dirAt, h.blockOf_setData hd hi, assign_apply]
  split <;> rfl

/-- The entry edits reach the disk as assignments to the listing of one directory. -/
theorem edit (h : Inv stray v) {d : InodeNo} (hd : Live v.inodes d) {b : Block} {l : Listing}
    (hb : listing b = l) (hl : Linked stray v.inodes (assign v.dirAt d l)) :
    Inv stray (v.setData (v.inodes d).direct0 b) := by
  refine ⟨⟨h.layout.1, h.layout.2, h.layout.3⟩, h.alloc, ?_⟩
  refine hl.congr (fun _ => Iff.rfl) (fun _ _ => rfl) fun i hi => ?_
  rw [h.dirAt_setData hd hi.1.1, hb]

theorem fillEntry (h : Inv stray v) {d : InodeNo} {j : Slot} {name : CStr} {k : InodeNo}
    {type : UInt8} (hc : v.CanEnter stray d j name type) (hk0 : k ≠ 0) (hk : Live v.inodes k)
    (hks : ¬ stray k) (htype : (v.inodes k).type = type)
    (hun : Linked.Unnamed stray v.inodes v.dirAt k) :
    Inv stray (v.setData (v.inodes d).direct0 (fillEntry (v.blockOf d) j k name)) := by
  refine h.edit hc.dir.1.1
    (listing_fillEntry (h.linked.fits d hc.dir) j k name hc.fits.2) ?_
  refine h.linked.enter hc.dir hc.fits hk0 hk hks hun fun i k' he ht => ?_
  exact hc.absent i k' ⟨he, (h.linked.named hc.dir he).2.1, ht.trans htype⟩

theorem clearEntry (h : Inv stray v) {d : InodeNo} (hd : Kept stray v.inodes d) (j : Slot) :
    Inv stray (v.setData (v.inodes d).direct0 (clearEntry (v.blockOf d) j)) :=
  h.edit hd.1.1 (listing_clearEntry (h.linked.fits d hd) j) (h.linked.leave d j)

section Create

variable {d : InodeNo} {j : Slot} {name : CStr} {k : InodeNo} {ino : Inode} {content : Block}

theorem inodes_take (h : Inv stray v) (hc : v.CanTake k ino) {i : InodeNo}
    (hi : Live v.inodes i) : (v.take k ino).inodes i = v.inodes i :=
  assign_of_ne _ _ (h.ne_of_canTake hc hi).1

theorem blockOf_take_setData (h : Inv stray v) (hc : v.CanTake k ino) {i : InodeNo}
    (hi : Live v.inodes i) :
    ((v.take k ino).setData ino.direct0 content).blockOf i = v.blockOf i := by
  obtain ⟨hik, hblock⟩ := h.ne_of_canTake hc hi
  simp [Volume.blockOf, Volume.take, Volume.data_setData, hik, hblock]

theorem create (h : Inv stray v) (hc : v.CanTake k ino) (he : v.CanEnter stray d j name ino.type)
    (hk0 : k ≠ 0) (hempty : ino.type = inodeDir → listing content = fun _ => none) :
    Inv stray (v.create d j name k ino content) := by
  have h₁ := h.take_setData hc content hempty
  have old := fun {i : InodeNo} (hi : Live v.inodes i) => h.inodes_take hc hi
  have block : ∀ {i : InodeNo}, Live v.inodes i →
      ((v.take k ino).setData ino.direct0 content).blockOf i = v.blockOf i :=
    h.blockOf_take_setData hc
  have hd := he.dir.1.1
  -- an old directory lists old inodes only
  have entry : ∀ {d' i name' k'}, Kept stray v.inodes d' →
      v.dirAt d' i = some (name', inodeByte k') → Live v.inodes k' :=
    fun hd' he' => (h.linked.named hd' he').2.1
  have keptOld : ∀ {d'}, d' ≠ k → Kept stray (v.take k ino).inodes d' → Kept stray v.inodes d' := by
    rintro d' hdk ⟨⟨hl, ht⟩, hs⟩
    have hsame : (v.take k ino).inodes d' = v.inodes d' := assign_of_ne _ _ hdk
    rw [Live, hsame] at hl
    rw [hsame] at ht
    exact ⟨⟨hl, ht⟩, hs⟩
  have henter : ((v.take k ino).setData ino.direct0 content).CanEnter stray d j name ino.type := by
    refine ⟨?_, ?_, he.fits, ?_⟩
    · refine ⟨⟨?_, ?_⟩, he.dir.2⟩
      · rw [Live, Volume.inodes_setData, old hd]
        exact hd
      · rw [Volume.inodes_setData, old hd]
        exact he.dir.1.2
    · rw [Volume.dirAt, block hd]
      exact he.free
    · intro i k' hit
      have hentry : v.dirAt d i = some (name, inodeByte k') := by
        have := hit.entry
        rwa [Volume.dirAt, block hd] at this
      have hk' := entry he.dir hentry
      have hused := hit.used
      have htype := hit.type
      rw [Volume.inodes_setData, old hk'] at hused htype
      exact he.absent i k' ⟨hentry, hused, htype⟩
  have hun : Linked.Unnamed stray ((v.take k ino).setData ino.direct0 content).inodes
      ((v.take k ino).setData ino.direct0 content).dirAt k := by
    intro d' i name' hd' hentry
    by_cases hdk : d' = k
    · subst hdk
      have hdir : ino.type = inodeDir := by simpa [Volume.take] using hd'.1.2
      have hnone : ((v.take d' ino).setData ino.direct0 content).dirAt d' = fun _ => none := by
        simpa [Volume.dirAt, Volume.blockOf, Volume.take] using hempty hdir
      rw [hnone] at hentry
      cases hentry
    · have hd' := keptOld hdk hd'
      rw [Volume.dirAt, block hd'.1.1] at hentry
      exact hc.unused (entry hd' hentry)
  have hk : Live ((v.take k ino).setData ino.direct0 content).inodes k := by
    simpa [Live, Volume.take] using hc.used
  have htype : (((v.take k ino).setData ino.direct0 content).inodes k).type = ino.type := by
    simp [Volume.take]
  have hks : ¬ stray k := fun hs => hc.unused (h.linked.strayLive k hs)
  have := h₁.fillEntry henter hk0 hk hks htype hun
  rw [block hd, Volume.inodes_setData, old hd] at this
  exact this

end Create

theorem rewrite (h : Inv stray v) {k : InodeNo} (hk : Live v.inodes k)
    (hfile : (v.inodes k).type = inodeFile) {size : UInt32} (hsize : size.toNat ≤ 512)
    (content : Block) : Inv stray (v.rewrite k size content) := by
  have type : ∀ i, (v.rewrite k size content).inodes i =
      { v.inodes i with size := ((v.rewrite k size content).inodes i).size } := by
    intro i
    by_cases hik : i = k <;> simp [Volume.rewrite, hik]
  refine ⟨⟨h.layout.1, h.layout.2, h.layout.3⟩, h.alloc.resize hk hsize, ?_⟩
  refine h.linked.congr (fun i => ?_) (fun i _ => ?_) fun d hd => ?_
  · rw [Live, type i]
    exact Iff.rfl
  · rw [type i]
  · have hdk : d ≠ k := by
      rintro rfl
      have := hd.1.2
      rw [hfile] at this
      exact absurd this (by decide)
    have hblock : (v.inodes d).direct0 ≠ (v.inodes k).direct0 :=
      fun heq => hdk ((h.block_eq_iff hd.1.1 hk).mp heq)
    simp [Volume.dirAt, Volume.blockOf, Volume.rewrite, Volume.data_setData, hdk, hblock]

/-- A new name for an entry, if no other entry of its type has it. -/
theorem renameAt (h : Inv stray v) {d : InodeNo} (hd : Kept stray v.inodes d) {j : Slot}
    {old name : CStr} {k : InodeNo} (hold : v.dirAt d j = some (old, inodeByte k))
    (hname : 1 ≤ name.length ∧ name.length < 30)
    (habsent : ∀ i k', ¬ Hit (v.dirAt d) v.inodes name (v.inodes k).type i k') :
    Inv stray (v.renameAt d j name) := by
  obtain ⟨hk0, hk, hks⟩ := h.linked.named hd hold
  refine h.edit hd.1.1 (listing_renameEntry (h.linked.fits d hd) hold name hname.2) ?_
  have hleft := (h.linked.leave d j).enter (j := j) hd hname hk0 hk hks
    (h.linked.unnamed_leave hd hold) ?_
  · rwa [assign_same, assign_assign, assign_assign] at hleft
  · intro i k' he ht
    rw [assign_same] at he
    by_cases hij : i = j
    · rw [hij, assign_same] at he
      cases he
    · rw [assign_of_ne _ _ hij] at he
      exact habsent i k' ⟨he, (h.linked.named hd he).2.1, ht⟩

/-- An entry moves to another directory, possibly below the directory it names. -/
theorem move (h : Inv stray v) {d d' : InodeNo} (hd : Kept stray v.inodes d) (hne : d' ≠ d)
    {j j' : Slot} {old name : CStr} {k : InodeNo} (hold : v.dirAt d j = some (old, inodeByte k))
    (he : v.CanEnter stray d' j' name (v.inodes k).type) :
    Inv stray (v.move d j d' j' k name) := by
  obtain ⟨hk0, hk, hks⟩ := h.linked.named hd hold
  have h₁ := h.clearEntry hd j
  have hblock : (v.setData (v.inodes d).direct0 (SevenOS.clearEntry (v.blockOf d) j)).blockOf d' =
      v.blockOf d' := by
    rw [h.blockOf_setData hd.1.1 he.dir.1.1, if_neg hne]
  have hdir : (v.setData (v.inodes d).direct0 (SevenOS.clearEntry (v.blockOf d) j)).dirAt d' =
      v.dirAt d' := congrArg listing hblock
  have hun : Linked.Unnamed stray v.inodes
      (v.setData (v.inodes d).direct0 (SevenOS.clearEntry (v.blockOf d) j)).dirAt k := by
    intro d₁ i name' hd₁
    rw [h.dirAt_setData hd.1.1 hd₁.1.1, listing_clearEntry (h.linked.fits d hd) j]
    exact h.linked.unnamed_leave hd hold d₁ i name' hd₁
  have henter : (v.setData (v.inodes d).direct0
      (SevenOS.clearEntry (v.blockOf d) j)).CanEnter stray d' j' name (v.inodes k).type :=
    ⟨he.dir, by rw [hdir]; exact he.free, he.fits, by rw [hdir]; exact he.absent⟩
  have := h₁.fillEntry henter hk0 hk hks rfl hun
  rw [hblock] at this
  exact this

/-- A removal, if no entry but the one cleared leads into what it zeroes. -/
theorem removed (h : Inv stray v) {d : InodeNo} (hd : Kept stray v.inodes d) {j : Slot}
    {S : InodeNo → Prop} {v' : Volume} (hr : v.Removed d j S v') (hSd : ¬ S d) (h0 : ¬ S 0)
    (hS : ∀ i, S i → Live v.inodes i ∧ ¬ stray i)
    (hclosed : ∀ d' j' name k, Kept stray v.inodes d' → ¬ S d' →
      v.dirAt d' j' = some (name, inodeByte k) → S k → d' = d ∧ j' = j) : Inv stray v' := by
  have hsb := hr.sb
  refine ⟨⟨by rw [hsb, h.layout.1], by rw [hsb, h.layout.2], by rw [hsb, h.layout.3]⟩, ?_, ?_⟩
  · rw [hsb]
    exact h.alloc.free (fun i hi => (hS i hi).1) hr.zeroed hr.inodes hr.bits
  · refine (h.linked.leave d j).free h0 (fun i hi => (hS i hi).2) hr.zeroed hr.inodes ?_ ?_
    · intro d' j' name k hd' hSd' he hSk
      have hne : d' = d → j' ≠ j := by
        rintro rfl rfl
        simp at he
      have he' : v.dirAt d' j' = some (name, inodeByte k) := by
        by_cases hdd : d' = d
        · subst hdd
          rwa [assign_same, assign_of_ne _ _ (hne rfl)] at he
        · rwa [assign_of_ne _ _ hdd] at he
      obtain ⟨hdd, hjj⟩ := hclosed d' j' name k hd' hSd' he' hSk
      exact hne hdd hjj
    · intro d' hd' hSd'
      rw [Volume.dirAt, Volume.blockOf, hr.inodes d' hSd']
      by_cases hdd : d' = d
      · rw [hdd, hr.parent, assign_same]
        exact listing_clearEntry (h.linked.fits d hd) j
      · rw [assign_of_ne _ _ hdd]
        have hsector : v'.dataSector (v.inodes d').direct0 = v.sectorOf d' := by
          simp only [Volume.sectorOf, Volume.dataSector, hsb]
        have ne : ∀ {i}, Live v.inodes i → d' ≠ i → v.sectorOf d' ≠ v.sectorOf i := by
          intro i hi hdi heq
          exact hdi (h.alloc.blockInj d' i hd'.1.1 hi (Volume.dataSector_inj.mp heq))
        rw [Volume.data, hsector, hr.disk _ (ne hd.1.1 hdd)]
        · rfl
        · intro i hi
          exact ne (hS i hi).1 fun heq => hSd' (heq ▸ hi)

end Inv

end SevenOS
