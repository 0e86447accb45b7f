import SevenOS.FileSystem.Proof.Edits
import SevenOS.FileSystem.Proof.Perfect
import SevenOS.Lib.Walk

/-! # Removal of a directory tree

The graph of the entries is rooted at inode 0, so what hangs below different
entries of a reached directory does not overlap, and the recursion of
`remove_dir_contents` is no deeper than the inode table is long. While it runs,
the directories on its way still name inodes that are already zeroed; the
invariant only comes back when the outermost entry is cleared.
-/

namespace SevenOS

open Prog

/-- The entries of the directories that are looked after, as edges. -/
def Volume.edge (stray : InodeNo → Prop) (v : Volume) (d : InodeNo) (j : Slot) (k : InodeNo) :
    Prop :=
  Kept stray v.inodes d ∧ ∃ name, v.dirAt d j = some (name, inodeByte k)

namespace Inv

variable {stray : InodeNo → Prop} {v : Volume}

theorem rooted (h : Inv stray v) : Rooted (v.edge stray) 0 := by
  refine ⟨?_, ?_, ?_⟩
  · rintro d j k k' ⟨-, name, he⟩ ⟨-, name', he'⟩
    rw [he] at he'
    simp only [Option.some.injEq, Prod.mk.injEq] at he'
    exact inodeByte_injective he'.2
  · rintro d j ⟨hd, name, he⟩
    exact (h.linked.named hd he).1 rfl
  · rintro d d' j j' k ⟨hd, name, he⟩ ⟨hd', name', he'⟩
    exact h.linked.once d d' j j' name name' _ hd hd' he he'

/-- What hangs below a live inode is live and looked after. -/
theorem below_live (h : Inv stray v) {k x : InodeNo} (hk : Live v.inodes k) (hks : ¬ stray k)
    (hx : Below (v.edge stray) k x) : Live v.inodes x ∧ ¬ stray x := by
  obtain ⟨ls, w⟩ := hx
  refine w.reach_induction (motive := fun x => Live v.inodes x ∧ ¬ stray x) ⟨hk, hks⟩ ?_
  rintro b j c - ⟨hb, name, he⟩
  exact (h.linked.named hb he).2

theorem file_leaf {k x : InodeNo} (hfile : (v.inodes k).type = inodeFile) :
    ¬ StrictlyBelow (v.edge stray) k x := by
  rintro ⟨j, b, ⟨hk, -⟩, -⟩
  have := hk.1.2
  rw [hfile] at this
  exact absurd this (by decide)

end Inv

/-- Inodes `S` were zeroed, their bits cleared and their sectors overwritten with zeros,
where `v₀` says which blocks are theirs; the sectors of the inodes `T` may have changed. -/
structure Erased (v₀ : Volume) (S T : InodeNo → Prop) (v v' : Volume) : Prop where
  sb : v'.sb = v.sb
  mounted : v'.mounted = v.mounted
  zeroed : ∀ i, S i → v'.inodes i = Inode.zero
  inodes : ∀ i, ¬ S i → v'.inodes i = v.inodes i
  bits : ∀ b, b < 32768 → (v'.bitmap.testBit b = true ↔
    v.bitmap.testBit b = true ∧ ¬ ∃ i, S i ∧ (v₀.inodes i).direct0.toNat = b)
  zeros : ∀ i, S i → v'.disk (v₀.sectorOf i) = Bytes.zero
  disk : ∀ l, (∀ i, T i → l ≠ v₀.sectorOf i) → v'.disk l = v.disk l

namespace Erased

variable {v₀ v v' v'' : Volume} {S S' T T' : InodeNo → Prop}

theorem refl (v₀ v : Volume) : Erased v₀ (fun _ => False) (fun _ => False) v v :=
  ⟨rfl, rfl, fun _ h => h.elim, fun _ _ => rfl, fun _ _ => by simp, fun _ h => h.elim,
    fun _ _ => rfl⟩

/-- One erasure after another that keeps off the sectors of the first. -/
theorem trans (h : Erased v₀ S T v v') (h' : Erased v₀ S' T' v' v'')
    (hapart : ∀ i k, S i → T' k → v₀.sectorOf i ≠ v₀.sectorOf k) :
    Erased v₀ (fun i => S i ∨ S' i) (fun i => T i ∨ T' i) v v'' := by
  refine ⟨h'.sb.trans h.sb, h'.mounted.trans h.mounted, ?_, ?_, ?_, ?_, ?_⟩
  · intro i hi
    by_cases hS' : S' i
    · exact h'.zeroed i hS'
    · rw [h'.inodes i hS']
      exact h.zeroed i (hi.resolve_right hS')
  · intro i hi
    rw [h'.inodes i fun hS' => hi (.inr hS'), h.inodes i fun hS => hi (.inl hS)]
  · intro b hb
    rw [h'.bits b hb, h.bits b hb]
    constructor
    · rintro ⟨⟨hbit, hS⟩, hS'⟩
      refine ⟨hbit, ?_⟩
      rintro ⟨i, hi | hi, hib⟩
      · exact hS ⟨i, hi, hib⟩
      · exact hS' ⟨i, hi, hib⟩
    · rintro ⟨hbit, hnot⟩
      refine ⟨⟨hbit, ?_⟩, ?_⟩
      · rintro ⟨i, hi, hib⟩
        exact hnot ⟨i, .inl hi, hib⟩
      · rintro ⟨i, hi, hib⟩
        exact hnot ⟨i, .inr hi, hib⟩
  · intro i hi
    by_cases hS' : S' i
    · exact h'.zeros i hS'
    · have hS := hi.resolve_right hS'
      rw [h'.disk _ fun k hk => hapart i k hS hk, h.zeros i hS]
  · intro l hl
    rw [h'.disk l fun i hi => hl i (.inr hi), h.disk l fun i hi => hl i (.inl hi)]

theorem congr (h : Erased v₀ S T v v') (hS : ∀ i, S i ↔ S' i) (hT : ∀ i, T i → T' i) :
    Erased v₀ S' T' v v' := by
  obtain rfl : S = S' := funext fun i => propext (hS i)
  exact ⟨h.sb, h.mounted, h.zeroed, h.inodes, h.bits, h.zeros,
    fun l hl => h.disk l fun i hi => hl i (hT i hi)⟩

/-- The edit that `release_block` and the zeroing of an inode make together. -/
theorem one {k : InodeNo} (hk : v.inodes k = v₀.inodes k) (hsb : v.sb = v₀.sb)
    (hbound : (v₀.inodes k).direct0.toNat < 32768) :
    Erased v₀ (· = k) (· = k) v
      (((v.freeBlock (v.inodes k).direct0).setData (v.inodes k).direct0 Bytes.zero).putInode k
        Inode.zero) := by
  have hsector : v.dataSector (v.inodes k).direct0 = v₀.sectorOf k := by
    simp only [Volume.sectorOf, Volume.dataSector, hk, hsb]
  refine ⟨rfl, rfl, ?_, ?_, ?_, ?_, ?_⟩
  · rintro i rfl
    simp
  · intro i hi
    simp [hi]
  · intro b hb
    simp only [Volume.bitmap_putInode, Volume.bitmap_setData, Volume.bitmap_freeBlock]
    rw [Bytes.testBit_clearBit _ hb, hk]
    simp only [Bool.and_eq_true, Bool.not_eq_true', decide_eq_false_iff_not, exists_eq_left]
    constructor
    · rintro ⟨hne, hbit⟩
      exact ⟨hbit, fun heq => hne heq.symm⟩
    · rintro ⟨hbit, hne⟩
      exact ⟨fun heq => hne heq.symm, hbit⟩
  · rintro i rfl
    change assign v.disk (v.dataSector (v.inodes i).direct0) Bytes.zero _ = _
    rw [hsector, assign_same]
  · intro l hl
    change assign v.disk (v.dataSector (v.inodes k).direct0) Bytes.zero l = v.disk l
    rw [hsector]
    exact assign_of_ne _ _ (hl k rfl)

theorem write {d : InodeNo} (b : Block) (hd : v.inodes d = v₀.inodes d) (hsb : v.sb = v₀.sb) :
    Erased v₀ (fun _ => False) (· = d) v (v.setData (v.inodes d).direct0 b) := by
  refine ⟨rfl, rfl, fun _ h => h.elim, fun _ _ => rfl, fun _ _ => by simp, fun _ h => h.elim, ?_⟩
  intro l hl
  have hsector : v.dataSector (v.inodes d).direct0 = v₀.sectorOf d := by
    simp only [Volume.sectorOf, Volume.dataSector, hd, hsb]
  change assign v.disk (v.dataSector (v.inodes d).direct0) b l = v.disk l
  rw [hsector]
  exact assign_of_ne _ _ (hl d rfl)

end Erased

section Tree

variable {dev : Device} (hp : dev.Perfect) {stray : InodeNo → Prop} {v₀ : Volume}
  (hinv : Inv stray v₀)

include hp in
theorem wp_releaseBlock {Q : Unit → Fs → Prop} {R D : Fs → Prop} {s : Fs} {k : InodeNo}
    (hfree : blockFreeable s.toVolume (s.inodes k).direct0)
    (h : ∀ s', s'.toVolume = (s.toVolume.freeBlock (s.inodes k).direct0).setData
      (s.inodes k).direct0 Bytes.zero → Q () s') : wp (releaseBlock dev k) Q R D s := by
  simp only [releaseBlock, wp_bind, wp_get, if_pos hfree, wp_markBlockFree]
  rw [hp.wp_write]
  exact h _ rfl

/-- At and below `d`, `v` still is what `v₀` was. -/
def Intact (stray : InodeNo → Prop) (v₀ : Volume) (d : InodeNo) (v : Volume) : Prop :=
  v.sb = v₀.sb ∧ ∀ x, Below (v₀.edge stray) d x →
    v.inodes x = v₀.inodes x ∧ v.blockOf x = v₀.blockOf x

theorem Intact.mono {d k : InodeNo} {j : Slot} {v : Volume} (h : Intact stray v₀ d v)
    (e : v₀.edge stray d j k) : Intact stray v₀ k v := by
  refine ⟨h.1, fun x hx => h.2 x ?_⟩
  exact StrictlyBelow.below ⟨j, k, e, hx⟩

include hinv in
theorem Intact.erased {d : InodeNo} {v v' : Volume} {S T : InodeNo → Prop}
    (h : Intact stray v₀ d v) (hd : Live v₀.inodes d) (hds : ¬ stray d)
    (he : Erased v₀ S T v v') (hT : ∀ i, T i → Live v₀.inodes i)
    (hS : ∀ x, Below (v₀.edge stray) d x → ¬ S x)
    (hT' : ∀ x, Below (v₀.edge stray) d x → ¬ T x) : Intact stray v₀ d v' := by
  refine ⟨he.sb.trans h.1, fun x hx => ?_⟩
  have hino : v'.inodes x = v₀.inodes x := (he.inodes x (hS x hx)).trans (h.2 x hx).1
  refine ⟨hino, ?_⟩
  rw [← (h.2 x hx).2, Volume.blockOf, Volume.blockOf, hino, (h.2 x hx).1]
  have hsector : v'.dataSector (v₀.inodes x).direct0 = v.dataSector (v₀.inodes x).direct0 := by
    simp only [Volume.dataSector, he.sb]
  rw [Volume.data, hsector]
  apply he.disk
  intro i hi heq
  have hsector₀ : v.dataSector (v₀.inodes x).direct0 = v₀.sectorOf x := by
    simp only [Volume.sectorOf, Volume.dataSector, h.1]
  rw [hsector₀] at heq
  have hxi : x = i := hinv.alloc.blockInj x i (hinv.below_live hd hds hx).1 (hT i hi)
    (Volume.dataSector_inj.mp heq)
  exact hT' x hx (hxi ▸ hi)

/-- What the entries in the slots `done` of directory `d` lead to. -/
def Gone (stray : InodeNo → Prop) (v₀ : Volume) (d : InodeNo) (done : List Slot) (x : InodeNo) :
    Prop :=
  ∃ j ∈ done, ∃ k, v₀.edge stray d j k ∧ Below (v₀.edge stray) k x

theorem gone_slots {d x : InodeNo} :
    Gone stray v₀ d slots x ↔ StrictlyBelow (v₀.edge stray) d x := by
  constructor
  · rintro ⟨j, -, k, e, hx⟩
    exact ⟨j, k, e, hx⟩
  · rintro ⟨j, k, e, hx⟩
    exact ⟨j, mem_slots j, k, e, hx⟩

include hinv in
theorem gone_snoc {d : InodeNo} {done : List Slot} {j : Slot} {k : InodeNo}
    (e : v₀.edge stray d j k) (x : InodeNo) :
    Gone stray v₀ d (done ++ [j]) x ↔ Gone stray v₀ d done x ∨ Below (v₀.edge stray) k x := by
  constructor
  · rintro ⟨i, hi, k', e', hx⟩
    rcases List.mem_append.mp hi with hi | hi
    · exact .inl ⟨i, hi, k', e', hx⟩
    · obtain rfl := List.mem_singleton.mp hi
      rw [hinv.rooted.det _ _ _ _ e e']
      exact .inr hx
  · rintro (⟨i, hi, k', e', hx⟩ | hx)
    · exact ⟨i, List.mem_append_left _ hi, k', e', hx⟩
    · exact ⟨j, by simp, k, e, hx⟩

/-- Nothing at or below the inode of one entry is gone with the entries of other slots. -/
theorem not_gone (hinv : Inv stray v₀) {d k x : InodeNo} {ws done : List Slot} {j : Slot}
    (hw : Walk (v₀.edge stray) 0 ws d) (hj : j ∉ done) (e : v₀.edge stray d j k)
    (hx : Below (v₀.edge stray) k x) : ¬ Gone stray v₀ d done x := by
  rintro ⟨i, hi, k', e', ls', hx'⟩
  obtain ⟨ls, hx⟩ := hx
  exact hj (hinv.rooted.below_disjoint hw e e' hx hx' ▸ hi)

theorem not_gone_self (hinv : Inv stray v₀) {d : InodeNo} {ws done : List Slot}
    (hw : Walk (v₀.edge stray) 0 ws d) : ¬ Gone stray v₀ d done d := by
  rintro ⟨i, -, k, e, ls, hx⟩
  exact hinv.rooted.below_irrefl hw e hx

theorem gone_live (hinv : Inv stray v₀) {d x : InodeNo} {done : List Slot}
    (hx : Gone stray v₀ d done x) : Live v₀.inodes x ∧ ¬ stray x := by
  obtain ⟨j, -, k, ⟨hd, name, he⟩, hx⟩ := hx
  obtain ⟨-, hk, hks⟩ := hinv.linked.named hd he
  exact hinv.below_live hk hks hx

/-- After the slots `done`: their entries are cleared in the block and gone from the volume. -/
structure Cleared (stray : InodeNo → Prop) (v₀ : Volume) (d : InodeNo) (v : Volume)
    (done : List Slot) (b : Block) (v' : Volume) : Prop where
  listing : listing b = fun j => if j ∈ done then none else v₀.dirAt d j
  erased : Erased v₀ (Gone stray v₀ d done) (Gone stray v₀ d done) v v'

theorem Cleared.step (hinv : Inv stray v₀) {d k : InodeNo} {ws done : List Slot} {j : Slot}
    {b : Block} {v v' v'' : Volume} {name : CStr} (hw : Walk (v₀.edge stray) 0 ws d)
    (hd : Kept stray v₀.inodes d) (hj : j ∉ done) (hs : Intact stray v₀ d v)
    (hc : Cleared stray v₀ d v done b v') (he : v₀.dirAt d j = some (name, inodeByte k))
    (hbelow : Erased v₀ (StrictlyBelow (v₀.edge stray) k) (Below (v₀.edge stray) k) v' v'') :
    Cleared stray v₀ d v (done ++ [j]) (clearEntry b j)
      (((v''.freeBlock (v''.inodes k).direct0).setData (v''.inodes k).direct0 Bytes.zero).putInode
        k Inode.zero) := by
  have e : v₀.edge stray d j k := ⟨hd, name, he⟩
  obtain ⟨hk0, hk, hks⟩ := hinv.linked.named hd he
  have hkself : ¬ StrictlyBelow (v₀.edge stray) k k := by
    rintro ⟨i, c, e', ls, w⟩
    exact hinv.rooted.below_irrefl (hw.append (.single e)) e' w
  have hino : v''.inodes k = v₀.inodes k := by
    rw [hbelow.inodes k hkself, hc.erased.inodes k (not_gone hinv hw hj e (below_refl k))]
    exact (hs.2 k (StrictlyBelow.below ⟨j, k, e, below_refl k⟩)).1
  have hsb : v''.sb = v₀.sb := hbelow.sb.trans (hc.erased.sb.trans hs.1)
  refine ⟨?_, ?_⟩
  · have hwf : (SevenOS.listing b).WellNamed := by
      intro i name' n hi
      rw [hc.listing] at hi
      by_cases hmem : i ∈ done
      · simp [hmem] at hi
      · exact hinv.linked.fits d hd i name' n (by simpa [hmem] using hi)
    rw [listing_clearEntry hwf, hc.listing]
    funext i
    by_cases hij : i = j
    · simp [hij]
    · simp [hij]
  · have hlive := fun {x} hx => (hinv.below_live hk hks (x := x) hx).1
    refine ((hc.erased.trans hbelow ?_).trans
      (Erased.one hino hsb (hinv.alloc.blockBound hk)) ?_).congr (fun x => ?_) fun x hx => ?_
    · intro i x hi hx
      refine hinv.sectorOf_ne (gone_live hinv hi).1 (hlive hx) ?_
      rintro rfl
      exact not_gone hinv hw hj e hx hi
    · rintro i x (hi | hi) rfl
      · refine hinv.sectorOf_ne (gone_live hinv hi).1 hk ?_
        rintro rfl
        exact not_gone hinv hw hj e (below_refl _) hi
      · refine hinv.sectorOf_ne (hlive hi.below) hk ?_
        rintro rfl
        exact hkself hi
    · rw [gone_snoc hinv e, below_iff (a := k)]
      constructor
      · rintro ((hx | hx) | hx)
        · exact .inl hx
        · exact .inr (.inr hx)
        · exact .inr (.inl hx)
      · rintro (hx | hx | hx)
        · exact .inl (.inl hx)
        · exact .inr hx
        · exact .inl (.inr hx)
    · rw [gone_snoc hinv e]
      rcases hx with (hx | hx) | hx
      · exact .inl hx
      · exact .inr hx
      · rw [hx]
        exact .inr (below_refl k)

include hp hinv in
/-- A reached directory is emptied; its own inode and entry stay. -/
theorem removeDirContents_spec (frames : Nat) {d : InodeNo} {ws : List Slot}
    (hw : Walk (v₀.edge stray) 0 ws d) (hd : Kept stray v₀.inodes d) (hd0 : d ≠ 0)
    (hheight : ∀ ls x, Walk (v₀.edge stray) d ls x → ls.length < frames) (s : Fs)
    (hs : Intact stray v₀ d s.toVolume) :
    wp (removeDirContents dev frames d)
      (fun _ s' => Erased v₀ (StrictlyBelow (v₀.edge stray) d) (Below (v₀.edge stray) d)
        s.toVolume s'.toVolume)
      (fun _ => False) (fun _ => False) s := by
  induction frames generalizing d ws s with
  | zero => exact absurd (hheight [] d (.nil d)) (by simp)
  | succ frames ih =>
      obtain ⟨hdino, hdblock⟩ := hs.2 d (below_refl d)
      have hdir : isDirInode s.toVolume d := by
        have := hinv.isDirInode hd.1
        simpa only [isDirInode, hdino] using this
      simp only [removeDirContents, wp_bind, wp_get, wp_require, hp.wp_read]
      refine ⟨fun _ => ⟨fun _ => ?_, fun h => (h hdir).elim⟩, fun h => (h hd0).elim⟩
      refine wp_mono (wp_foldlM _
        (fun done b s' => Cleared stray v₀ d s.toVolume done b s'.toVolume) slots ?_ _ ?_)
        ?_ (fun _ h => h) (fun _ h => h)
      · -- one entry
        intro done j rest b s₁ hslots hc
        have hj : j ∉ done := by
          have hnodup : slots.Nodup := List.nodup_finRange 16
          rw [hslots] at hnodup
          intro hmem
          exact (List.nodup_append.mp hnodup).2.2 j hmem j (by simp) rfl
        have hlist : listing b j = v₀.dirAt d j := by
          rw [hc.listing]
          simp [hj]
        rw [wp_ite]
        refine ⟨fun hunused => ?_, fun hused => ?_⟩
        · have hnone : v₀.dirAt d j = none := by
            rw [← hlist]
            exact listing_eq_none.mpr hunused
          have hgone : ∀ x, Gone stray v₀ d done x ↔ Gone stray v₀ d (done ++ [j]) x := by
            intro x
            constructor
            · rintro ⟨i, hi, hx⟩
              exact ⟨i, List.mem_append_left _ hi, hx⟩
            · rintro ⟨i, hi, k, ⟨hdk, name, he⟩, hx⟩
              rcases List.mem_append.mp hi with hi | hi
              · exact ⟨i, hi, k, ⟨hdk, name, he⟩, hx⟩
              · rw [List.mem_singleton.mp hi, hnone] at he
                cases he
          refine ⟨?_, hc.erased.congr hgone fun x hx => (hgone x).mp hx⟩
          rw [hc.listing]
          funext i
          by_cases hij : i = j
          · simp [hij, hnone]
          · simp [hij]
        · have hlisted : listing b j = some (entryName b j, entryInode b j) :=
            listing_eq_some.mpr ⟨by simpa using hused, rfl, rfl⟩
          rw [hlist] at hlisted
          obtain ⟨k, hn, hk0, hk, hks⟩ := hinv.linked.names d j _ _ hd hlisted
          rw [hn] at hlisted
          have e : v₀.edge stray d j k := ⟨hd, _, hlisted⟩
          have hrange : rootOrOutOfTable (inodeByte k) = false := by
            have hk64 := k.isLt
            have hne : inodeByte k ≠ 0 := by
              intro h0
              have := congrArg UInt8.toNat h0
              simp only [inodeByte_toNat] at this
              exact hk0 (Fin.ext this)
            simp only [rootOrOutOfTable, inodeByte_toNat]
            simp only [Bool.or_eq_false_iff, beq_eq_false_iff_ne, ne_eq, hne,
              not_false_eq_true, true_and, decide_eq_false_iff_not]
            omega
          have hk₁ : s₁.inodes k = v₀.inodes k := by
            rw [hc.erased.inodes k (not_gone hinv hw hj e (below_refl k))]
            exact (hs.2 k (StrictlyBelow.below ⟨j, k, e, below_refl k⟩)).1
          have hintact : Intact stray v₀ k s₁.toVolume := by
            refine Intact.erased hinv (hs.mono e) hk hks hc.erased (fun i hi => (gone_live hinv hi).1)
              ?_ ?_ <;> exact fun x hx => not_gone hinv hw hj e hx
          -- the inode of the entry is released in the state its contents left
          have finish : ∀ s₂ : Fs, Erased v₀ (StrictlyBelow (v₀.edge stray) k)
              (Below (v₀.edge stray) k) s₁.toVolume s₂.toVolume →
              wp (do releaseBlock dev k; modifyInode k fun _ => Inode.zero;
                     return clearEntry b j)
                (fun b' s' => Cleared stray v₀ d s.toVolume (done ++ [j]) b' s'.toVolume)
                (fun _ => False) (fun _ => False) s₂ := by
            intro s₂ h₂
            have hc' := Cleared.step hinv hw hd hj hs hc hlisted h₂
            have hk₂ : s₂.inodes k = v₀.inodes k := by
              rw [h₂.inodes k ?_, hk₁]
              rintro ⟨i, c, e', ls, w⟩
              exact hinv.rooted.below_irrefl (hw.append (.single e)) e' w
            have hfree : blockFreeable s₂.toVolume (s₂.inodes k).direct0 := by
              have hsb : s₂.sb = v₀.sb := h₂.sb.trans (hc.erased.sb.trans hs.1)
              rw [hk₂]
              refine ⟨hinv.direct0_ne hk, ?_⟩
              rw [UInt32.lt_iff_toNat_lt, hsb]
              exact hinv.alloc.blockLt k hk
            rw [wp_bind]
            refine wp_releaseBlock hp hfree fun s₃ hs₃ => ?_
            rw [wp_bind, wp_modifyInode, wp_pure, Fs.toVolume_setVolume, hs₃]
            exact hc'
          simp only [wp_bind, wp_require, wp_demand, wp_get, hn, hrange,
            inodeIndex_inodeByte]
          refine ⟨fun _ => ⟨?_, fun h => by cases h⟩, fun h => (h trivial).elim⟩
          intro k' hk'
          cases hk'
          rw [hk₁, wp_ite]
          refine ⟨fun htype => ?_, fun htype => ?_⟩
          · refine wp_call (ih (hw.append (.single e)) ⟨⟨hk, htype⟩, hks⟩ hk0 ?_ s₁ hintact)
              (fun _ s₂ h₂ => finish s₂ h₂) (fun _ h => h) (fun _ h => h)
            intro ls x w
            have := hheight (j :: ls) x (.cons e w)
            simpa using this
          · have hfile : (v₀.inodes k).type = inodeFile :=
              (hinv.alloc.typed k hk).resolve_right htype
            rw [wp_bind, wp_require]
            refine ⟨fun _ => finish s₁ ?_, fun h => (h hfile).elim⟩
            refine (Erased.refl v₀ s₁.toVolume).congr (fun x => ?_) fun x h => h.elim
            simp [Inv.file_leaf hfile]
      · -- before the first entry
        refine ⟨?_, ?_⟩
        · simp only [List.not_mem_nil, if_false]
          exact congrArg listing hdblock
        · refine (Erased.refl v₀ s.toVolume).congr (fun x => ?_) fun x h => h.elim
          simp [Gone]
      · -- the emptied block is written back
        intro b s₁ hc
        have hsb : s₁.sb = v₀.sb := hc.erased.sb.trans hs.1
        have hino : s₁.inodes d = v₀.inodes d := by
          rw [hc.erased.inodes d (not_gone_self hinv hw), hdino]
        rw [hp.wp_write, Fs.toVolume_setVolume]
        have hapart : ∀ i x, Gone stray v₀ d slots i → x = d →
            v₀.sectorOf i ≠ v₀.sectorOf x := by
          rintro i x hi rfl
          refine hinv.sectorOf_ne (gone_live hinv hi).1 hd.1.1 ?_
          rintro rfl
          exact not_gone_self hinv hw hi
        refine (hc.erased.trans (Erased.write b hino hsb) hapart).congr (fun x => ?_) fun x hx => ?_
        · rw [or_false, gone_slots]
        · rcases hx with hx | rfl
          · exact (gone_slots.mp hx).below
          · exact below_refl x

/-- The outermost entry: what it leads to is erased and the entry cleared. -/
theorem Erased.removed {d k : InodeNo} {v' : Volume} (j : Slot)
    (h : Erased v₀ (Below (v₀.edge stray) k) (Below (v₀.edge stray) k) v₀ v')
    (hapart : ∀ i, Below (v₀.edge stray) k i → v₀.sectorOf i ≠ v₀.sectorOf d) :
    v₀.Removed d j (Below (v₀.edge stray) k)
      (v'.setData (v₀.inodes d).direct0 (clearEntry (v₀.blockOf d) j)) := by
  have hsector : v'.dataSector (v₀.inodes d).direct0 = v₀.sectorOf d := by
    simp only [Volume.sectorOf, Volume.dataSector, h.sb]
  have hdisk : ∀ l, l ≠ v₀.sectorOf d →
      (v'.setData (v₀.inodes d).direct0 (clearEntry (v₀.blockOf d) j)).disk l = v'.disk l := by
    intro l hl
    change assign v'.disk (v'.dataSector _) _ l = v'.disk l
    rw [hsector, assign_of_ne _ _ hl]
  refine ⟨h.sb, h.mounted, h.zeroed, h.inodes, h.bits, fun i hi => ?_,
    Volume.data_setData_same _ _ _, fun l hl hS => ?_⟩
  · rw [hdisk _ (hapart i hi)]
    exact h.zeros i hi
  · rw [hdisk l hl]
    exact h.disk l hS

/-- What hangs below an entry has other sectors than the directory of the entry. -/
theorem Inv.sectorOf_ne_parent (hinv : Inv stray v₀) {d k i : InodeNo} {j : Slot} {ws : List Slot}
    (hw : Walk (v₀.edge stray) 0 ws d) (e : v₀.edge stray d j k)
    (hi : Below (v₀.edge stray) k i) : v₀.sectorOf i ≠ v₀.sectorOf d := by
  obtain ⟨hd, name, he⟩ := e
  obtain ⟨-, hk, hks⟩ := hinv.linked.named hd he
  refine hinv.sectorOf_ne (hinv.below_live hk hks hi).1 hd.1.1 ?_
  rintro rfl
  obtain ⟨ls, w⟩ := hi
  exact hinv.rooted.below_irrefl hw ⟨hd, name, he⟩ w

/-- Removing what hangs below an entry of a reached directory keeps the invariant. -/
theorem Inv.removed_below (hinv : Inv stray v₀) {d k : InodeNo} {j : Slot} {name : CStr}
    {ws : List Slot} {v' : Volume} (hw : Walk (v₀.edge stray) 0 ws d)
    (hd : Kept stray v₀.inodes d) (hj : v₀.dirAt d j = some (name, inodeByte k))
    (h : v₀.Removed d j (Below (v₀.edge stray) k) v') : Inv stray v' := by
  have e : v₀.edge stray d j k := ⟨hd, name, hj⟩
  obtain ⟨-, hk, hks⟩ := hinv.linked.named hd hj
  refine hinv.removed hd h ?_ ?_ (fun i hi => hinv.below_live hk hks hi) ?_
  · rintro ⟨ls, w⟩
    exact hinv.rooted.below_irrefl hw e w
  · rintro ⟨ls, w⟩
    have := hinv.rooted.unique (.nil 0) (hw.append (.cons e w))
    simp at this
  · exact fun d' j' name' x hd' hSd' he' hx => hinv.rooted.entered e ⟨hd', name', he'⟩ hx hSd'

/-- The nesting below a reached directory is less than the inode table is long. -/
theorem Inv.height (hinv : Inv stray v₀) {d x : InodeNo} {ws ls : List Slot}
    (hw : Walk (v₀.edge stray) 0 ws d) (hl : Walk (v₀.edge stray) d ls x) : ls.length < 64 := by
  have := hinv.rooted.length_lt (hw.append hl)
  rw [List.length_append, Fintype.card_fin] at this
  omega

end Tree

end SevenOS
