import SevenOS.FileSystem.Proof.Outcomes
import SevenOS.FileSystem.Proof.ReadOnly

/-! # Looking paths up

What each edit changes for a path that is looked up afterwards, and what the
reading calls return: a function of the volume, told by where paths lead.
-/

namespace SevenOS

open Prog

variable {dev : Device} {stray : InodeNo → Prop} {v v' : Volume} {s : Fs}

namespace Inv

/-! ## Hits after an edit -/

theorem blockOf_flush (h : Inv stray v) {i : InodeNo} (hi : Live v.inodes i) :
    v.flush.blockOf i = v.blockOf i :=
  h.layout.data_flush (h.alloc.blockBound hi)

/-- A hit in a directory that is looked after, told without the used flag. -/
theorem hit_flush (h : Inv stray v) {d : InodeNo} (hd : Kept stray v.inodes d) {name : CStr}
    {type : UInt8} {j : Slot} {k : InodeNo} :
    Hit (v.flush.dirAt d) v.flush.inodes name type j k ↔ Hit (v.dirAt d) v.inodes name type j k := by
  rw [Volume.dirAt, h.blockOf_flush hd.1.1]
  exact Iff.rfl

section Create

variable {d : InodeNo} {j : Slot} {name : CStr} {k : InodeNo} {ino : Inode} {content : Block}

theorem inodes_create (h : Inv stray v) (hc : v.CanTake k ino) {i : InodeNo}
    (hi : Live v.inodes i) : (v.create d j name k ino content).inodes i = v.inodes i :=
  h.inodes_take hc hi

theorem inodes_create_new : (v.create d j name k ino content).inodes k = ino := by
  simp [Volume.create, Volume.take]

theorem blockOf_create (h : Inv stray v) (hc : v.CanTake k ino) (hd : Live v.inodes d)
    {i : InodeNo} (hi : Live v.inodes i) : (v.create d j name k ino content).blockOf i =
      if i = d then SevenOS.fillEntry (v.blockOf d) j k name else v.blockOf i := by
  obtain ⟨hik, hblock⟩ := h.ne_of_canTake hc hi
  simp only [Volume.create, Volume.take, Volume.blockOf, Volume.data_setData,
    Volume.inodes_setData, Volume.inodes_putInode, Volume.inodes_useBlock, assign_of_ne _ _ hik,
    h.block_eq_iff hi hd, if_neg hblock, Volume.data_putInode, Volume.data_useBlock]

theorem blockOf_create_new (h : Inv stray v) (hc : v.CanTake k ino) (hd : Live v.inodes d) :
    (v.create d j name k ino content).blockOf k = content := by
  have hblock := (h.ne_of_canTake hc hd).2.symm
  simp [Volume.create, Volume.take, Volume.blockOf, Volume.data_setData, hblock]

theorem kept_create {i : InodeNo} (hi : i ≠ k) :
    Kept stray (v.create d j name k ino content).inodes i ↔ Kept stray v.inodes i := by
  have hsame : (v.create d j name k ino content).inodes i = v.inodes i := assign_of_ne _ _ hi
  rw [Kept, LiveDir, Live, hsame]
  exact Iff.rfl

theorem dirAt_create (h : Inv stray v) (hc : v.CanTake k ino)
    (he : v.CanEnter stray d j name ino.type) {i : InodeNo} (hi : Live v.inodes i) :
    (v.create d j name k ino content).dirAt i =
      assign v.dirAt d (assign (v.dirAt d) j (some (name, inodeByte k))) i := by
  rw [Volume.dirAt, h.blockOf_create hc he.dir.1.1 hi, assign_apply]
  split
  · exact listing_fillEntry (h.linked.fits d he.dir) j k name he.fits.2
  · rfl

theorem hit_create (h : Inv stray v) (hc : v.CanTake k ino)
    (he : v.CanEnter stray d j name ino.type) {d' : InodeNo} (hd' : Kept stray v.inodes d')
    {n : CStr} {t : UInt8} {i : Slot} {x : InodeNo} :
    Hit ((v.create d j name k ino content).dirAt d') (v.create d j name k ino content).inodes n t
        i x ↔
      Hit (v.dirAt d') v.inodes n t i x ∨
        d' = d ∧ i = j ∧ x = k ∧ n = name ∧ t = ino.type := by
  have hdir : (v.create d j name k ino content).dirAt d' = _ := h.dirAt_create hc he hd'.1.1
  have old : v.dirAt d' i = some (n, inodeByte x) →
      (v.create d j name k ino content).inodes x = v.inodes x := fun hx =>
    h.inodes_create hc (h.linked.named hd' hx).2.1
  by_cases hnew : d' = d ∧ i = j
  · obtain ⟨rfl, rfl⟩ := hnew
    constructor
    · intro hit
      have hentry := hit.entry
      rw [hdir, assign_same, assign_same] at hentry
      simp only [Option.some.injEq, Prod.mk.injEq] at hentry
      obtain rfl := inodeByte_injective hentry.2
      have ht := hit.type
      rw [inodes_create_new] at ht
      exact .inr ⟨rfl, rfl, rfl, hentry.1.symm, ht.symm⟩
    · rintro (hit | ⟨-, -, rfl, rfl, rfl⟩)
      · have := hit.entry
        rw [he.free] at this
        cases this
      · refine ⟨by rw [hdir, assign_same, assign_same], ?_, ?_⟩
        · rw [inodes_create_new]
          exact hc.used
        · rw [inodes_create_new]
  · have hentry : (v.create d j name k ino content).dirAt d' i = v.dirAt d' i := by
      rw [hdir]
      by_cases hdd : d' = d
      · subst hdd
        rw [assign_same, assign_of_ne _ _ fun hij => hnew ⟨rfl, hij⟩]
      · rw [assign_of_ne _ _ hdd]
    constructor
    · rintro ⟨hx, hused, ht⟩
      rw [hentry] at hx
      rw [old hx] at hused ht
      exact .inl ⟨hx, hused, ht⟩
    · rintro (⟨hx, hused, ht⟩ | ⟨rfl, rfl, -⟩)
      · refine ⟨hentry.trans hx, ?_, ?_⟩
        · rw [old hx]
          exact hused
        · rw [old hx]
          exact ht
      · exact (hnew ⟨rfl, rfl⟩).elim

theorem not_hit_create_new (h : Inv stray v) (hc : v.CanTake k ino) (hd : Live v.inodes d)
    (hempty : listing content = fun _ => none) {tab : Table} {n : CStr} {t : UInt8} {i : Slot}
    {x : InodeNo} : ¬ Hit ((v.create d j name k ino content).dirAt k) tab n t i x := by
  intro hit
  have := hit.entry
  rw [Volume.dirAt, h.blockOf_create_new hc hd, hempty] at this
  cases this

end Create

section Rewrite

variable {k : InodeNo} {size : UInt32} {content : Block}

theorem inodes_rewrite (i : InodeNo) : (v.rewrite k size content).inodes i =
    { v.inodes i with size := if i = k then size else (v.inodes i).size } := by
  by_cases hik : i = k <;> simp [Volume.rewrite, hik]

theorem blockOf_rewrite (h : Inv stray v) (hk : Live v.inodes k) {i : InodeNo}
    (hi : Live v.inodes i) :
    (v.rewrite k size content).blockOf i = if i = k then content else v.blockOf i := by
  rw [Volume.blockOf, inodes_rewrite]
  simp only [Volume.rewrite, Volume.data_setData, h.block_eq_iff hi hk, Volume.data_putInode]
  rfl

theorem hit_rewrite (h : Inv stray v) (hk : Live v.inodes k) (hfile : (v.inodes k).type = inodeFile)
    {d : InodeNo} (hd : Kept stray v.inodes d) {n : CStr} {t : UInt8} {i : Slot} {x : InodeNo} :
    Hit ((v.rewrite k size content).dirAt d) (v.rewrite k size content).inodes n t i x ↔
      Hit (v.dirAt d) v.inodes n t i x := by
  have hdk : d ≠ k := by
    rintro rfl
    have := hd.1.2
    rw [hfile] at this
    exact absurd this (by decide)
  have hx : (v.rewrite k size content).inodes x = _ := inodes_rewrite x
  constructor
  · rintro ⟨he, hused, ht⟩
    rw [Volume.dirAt, h.blockOf_rewrite hk hd.1.1, if_neg hdk] at he
    rw [hx] at hused ht
    exact ⟨he, hused, ht⟩
  · rintro ⟨he, hused, ht⟩
    refine ⟨?_, by rw [hx]; exact hused, by rw [hx]; exact ht⟩
    rw [Volume.dirAt, h.blockOf_rewrite hk hd.1.1, if_neg hdk]
    exact he

end Rewrite

section Removed

variable {d : InodeNo} {j : Slot} {name : CStr} {S : InodeNo → Prop}

theorem blockOf_removed (h : Inv stray v) (hd : Live v.inodes d) (hr : v.Removed d j S v')
    (hS : ∀ i, S i → Live v.inodes i) {i : InodeNo} (hi : Live v.inodes i) (hiS : ¬ S i) :
    v'.blockOf i = if i = d then SevenOS.clearEntry (v.blockOf d) j else v.blockOf i := by
  have ne : ∀ {x}, Live v.inodes x → i ≠ x → v.sectorOf i ≠ v.sectorOf x := by
    intro x hx hix heq
    exact hix (h.alloc.blockInj i x hi hx (Volume.dataSector_inj.mp heq))
  rw [Volume.blockOf, hr.inodes i hiS]
  split
  · next hid =>
      subst hid
      exact hr.parent
  · next hid =>
      have hsector : v'.dataSector (v.inodes i).direct0 = v.sectorOf i := by
        simp only [Volume.sectorOf, Volume.dataSector, hr.sb]
      rw [Volume.data, hsector, hr.disk _ (ne hd hid)]
      · rfl
      · exact fun x hx => ne (hS x hx) fun heq => hiS (heq ▸ hx)

theorem dirAt_removed (h : Inv stray v) (hd : Kept stray v.inodes d) (hr : v.Removed d j S v')
    (hS : ∀ i, S i → Live v.inodes i) {i : InodeNo} (hi : Live v.inodes i) (hiS : ¬ S i) :
    v'.dirAt i = assign v.dirAt d (assign (v.dirAt d) j none) i := by
  rw [Volume.dirAt, h.blockOf_removed hd.1.1 hr hS hi hiS, assign_apply]
  split
  · exact listing_clearEntry (h.linked.fits d hd) j
  · rfl

/-- A directory that stays lists what it listed, less what is gone. -/
theorem hit_removed (h : Inv stray v) {k : InodeNo} (hd : Kept stray v.inodes d)
    (hj : v.dirAt d j = some (name, inodeByte k))
    (hr : v.Removed d j (Below (v.edge stray) k) v') {d' : InodeNo} (hd' : Kept stray v.inodes d')
    (hout : ¬ Below (v.edge stray) k d') {n : CStr} {t : UInt8} {i : Slot} {x : InodeNo} :
    Hit (v'.dirAt d') v'.inodes n t i x ↔
      Hit (v.dirAt d') v.inodes n t i x ∧ ¬ Below (v.edge stray) k x := by
  obtain ⟨-, hk, hks⟩ := h.linked.named hd hj
  have hdir := h.dirAt_removed hd hr (fun i hi => (h.below_live hk hks hi).1) hd'.1.1 hout
  by_cases hcleared : d' = d ∧ i = j
  · obtain ⟨rfl, rfl⟩ := hcleared
    constructor
    · intro hit
      have := hit.entry
      rw [hdir, assign_same, assign_same] at this
      cases this
    · rintro ⟨hit, hx⟩
      have heq := hit.entry.symm.trans hj
      simp only [Option.some.injEq, Prod.mk.injEq] at heq
      obtain rfl := inodeByte_injective heq.2
      exact (hx (below_refl x)).elim
  · have hentry : v'.dirAt d' i = v.dirAt d' i := by
      rw [hdir]
      by_cases hdd : d' = d
      · subst hdd
        rw [assign_same, assign_of_ne _ _ fun hij => hcleared ⟨rfl, hij⟩]
      · rw [assign_of_ne _ _ hdd]
    have stays : v.dirAt d' i = some (n, inodeByte x) → ¬ Below (v.edge stray) k x := fun hx hS =>
      hcleared (h.rooted.entered ⟨hd, name, hj⟩ ⟨hd', n, hx⟩ hS hout)
    constructor
    · rintro ⟨hx, hused, ht⟩
      rw [hentry] at hx
      rw [hr.inodes x (stays hx)] at hused ht
      exact ⟨⟨hx, hused, ht⟩, stays hx⟩
    · rintro ⟨⟨hx, hused, ht⟩, hout'⟩
      have hsame := hr.inodes x hout'
      exact ⟨hentry.trans hx, by rw [hsame]; exact hused, by rw [hsame]; exact ht⟩

end Removed

section Rename

variable {d d' : InodeNo} {j j' : Slot} {old name : CStr} {k : InodeNo}

theorem dirAt_renameAt (h : Inv stray v) (hd : Kept stray v.inodes d)
    (hold : v.dirAt d j = some (old, inodeByte k)) (hname : name.length < 30) {i : InodeNo}
    (hi : Live v.inodes i) : (v.renameAt d j name).dirAt i =
      assign v.dirAt d (assign (v.dirAt d) j (some (name, inodeByte k))) i := by
  rw [Volume.renameAt, h.dirAt_setData hd.1.1 hi,
    listing_renameEntry (h.linked.fits d hd) hold name hname]
  rfl

theorem dirAt_move (h : Inv stray v) (hd : Kept stray v.inodes d) (hd' : Kept stray v.inodes d')
    (hname : name.length < 30) {i : InodeNo} (hi : Live v.inodes i) :
    (v.move d j d' j' k name).dirAt i = assign (assign v.dirAt d (assign (v.dirAt d) j none)) d'
      (assign (v.dirAt d') j' (some (name, inodeByte k))) i := by
  have h₁ := h.clearEntry hd j
  have hdir : ∀ {x}, Live v.inodes x → (v.setData (v.inodes d).direct0
      (SevenOS.clearEntry (v.blockOf d) j)).dirAt x =
        assign v.dirAt d (assign (v.dirAt d) j none) x := by
    intro x hx
    rw [h.dirAt_setData hd.1.1 hx, listing_clearEntry (h.linked.fits d hd) j]
    rfl
  have hlast := h₁.dirAt_setData hd'.1.1 hi (SevenOS.fillEntry (v.blockOf d') j' k name)
  rw [listing_fillEntry (h.linked.fits d' hd') j' k name hname] at hlast
  refine hlast.trans ?_
  by_cases hid : i = d'
  · rw [hid, assign_same, assign_same]
    rfl
  · rw [assign_of_ne _ _ hid, assign_of_ne _ _ hid, hdir hi]

end Rename

end Inv

/-! ## Paths -/

def Volume.findIn (v : Volume) (d : InodeNo) (name : CStr) (type : UInt8) : Option InodeNo :=
  (findDirEntry name (v.blockOf d) v.inodes type).bind fun j =>
    inodeIndex (entryInode (v.blockOf d) j)

/-- The inode of this type that a path leads to. -/
def Volume.resolve (v : Volume) (path : CStr) (type : UInt8) : Option InodeNo :=
  match splitPath path with
  | none => v.findIn 0 path type
  | some (dirname, name) => (v.findIn 0 dirname inodeDir).bind fun d => v.findIn d name type

/-- What `fs_read` copies out of a file. -/
def Volume.readFile (v : Volume) (k : InodeNo) (maxlen : UInt32) : List UInt8 :=
  (v.blockOf k).firstBytes (min (v.inodes k).size maxlen).toNat

theorem Volume.findIn_none {d : InodeNo} {name : CStr} {type : UInt8} (ht : type ≠ 0) :
    v.findIn d name type = none ↔ ∀ j k, ¬ Hit (v.dirAt d) v.inodes name type j k := by
  unfold Volume.findIn
  cases hfind : findDirEntry name (v.blockOf d) v.inodes type with
  | none =>
      simp only [Option.bind_none, true_iff]
      exact findDirEntry_none ht hfind
  | some j =>
      obtain ⟨k, hit⟩ := findDirEntry_some ht hfind
      simp only [Option.bind_some, hit.inodeIndex, reduceCtorEq, false_iff]
      exact fun hmiss => hmiss j k hit

namespace Inv

theorem findIn_some (h : Inv stray v) {d : InodeNo} (hd : Kept stray v.inodes d) {name : CStr}
    {type : UInt8} (ht : type ≠ 0) {k : InodeNo} :
    v.findIn d name type = some k ↔ ∃ j, Hit (v.dirAt d) v.inodes name type j k := by
  constructor
  · intro hsome
    unfold Volume.findIn at hsome
    obtain ⟨j, hfind, hindex⟩ := Option.bind_eq_some_iff.mp hsome
    obtain ⟨k', hit⟩ := findDirEntry_some ht hfind
    rw [hit.inodeIndex] at hindex
    cases hindex
    exact ⟨j, hit⟩
  · rintro ⟨j, hit⟩
    cases hfound : v.findIn d name type with
    | none => exact ((Volume.findIn_none ht).mp hfound j k hit).elim
    | some k' =>
        unfold Volume.findIn at hfound
        obtain ⟨j', hfind, hindex⟩ := Option.bind_eq_some_iff.mp hfound
        obtain ⟨k'', hit'⟩ := findDirEntry_some ht hfind
        rw [hit'.inodeIndex] at hindex
        cases hindex
        rw [(h.hit_unique hd hit hit').2]

theorem resolve_some (h : Inv stray v) {path : CStr} {type : UInt8} (ht : type ≠ 0) {k : InodeNo} :
    v.resolve path type = some k ↔
      ∃ d name j, v.Parent path d name ∧ Hit (v.dirAt d) v.inodes name type j k := by
  unfold Volume.resolve Volume.Parent
  cases splitPath path with
  | none =>
      constructor
      · intro hsome
        obtain ⟨j, hit⟩ := (h.findIn_some h.linked.root ht).mp hsome
        exact ⟨0, path, j, ⟨rfl, rfl⟩, hit⟩
      · rintro ⟨d, name, j, ⟨rfl, rfl⟩, hit⟩
        exact (h.findIn_some h.linked.root ht).mpr ⟨j, hit⟩
  | some parts =>
      obtain ⟨dirname, name⟩ := parts
      constructor
      · intro hsome
        obtain ⟨d, hd, hk⟩ := Option.bind_eq_some_iff.mp hsome
        obtain ⟨i, hdir⟩ := (h.findIn_some h.linked.root (by decide)).mp hd
        obtain ⟨j, hit⟩ := (h.findIn_some (h.keptDir h.linked.root hdir) ht).mp hk
        exact ⟨d, name, j, ⟨⟨i, hdir⟩, rfl⟩, hit⟩
      · rintro ⟨d, name, j, ⟨⟨i, hdir⟩, rfl⟩, hit⟩
        refine Option.bind_eq_some_iff.mpr ⟨d, ?_, ?_⟩
        · exact (h.findIn_some h.linked.root (by decide)).mpr ⟨i, hdir⟩
        · exact (h.findIn_some (h.keptDir h.linked.root hdir) ht).mpr ⟨j, hit⟩

end Inv

/-! ## Reading calls -/

theorem wp_findIn {v : Volume} {d : InodeNo} {b : Block} {name : CStr} {type : UInt8}
    (hb : b = v.blockOf d) {tab : Table} (htab : tab = v.inodes)
    {Q : InodeNo → Fs → Prop} {R D : Fs → Prop}
    (hit : ∀ k, v.findIn d name type = some k → Q k s)
    (miss : v.findIn d name type = none → R s) :
    wp (demand (findDirEntry name b tab type))
      (fun j s' => wp (demand (inodeIndex (entryInode b j))) Q R D s') R D s := by
  subst hb htab
  simp only [wp_demand]
  refine ⟨fun j hj => ⟨fun k hk => hit k ?_, fun hk => miss ?_⟩, fun hj => miss ?_⟩ <;>
    simp [Volume.findIn, *]

theorem wp_lookupDir_find {v : Volume} (hv : s.toVolume = v) {dirname : CStr}
    (hb : s.blockScratch = v.blockOf 0) {Q : InodeNo → Fs → Prop} {R D : Fs → Prop}
    (hit : ∀ d, v.findIn 0 dirname inodeDir = some d → Q d s)
    (miss : v.findIn 0 dirname inodeDir = none → R s) :
    wp (lookupDir dirname) Q R D s := by
  simp only [lookupDir, wp_bind, wp_get]
  exact wp_findIn hb (congrArg Volume.inodes hv) hit miss

/-- The value of a file that was looked up, or a refusal. -/
def readOutcome (v : Volume) (maxlen : UInt32) : Option InodeNo → Outcome (List UInt8)
  | some k => .ok (v.readFile k maxlen)
  | none => .refused

theorem Inv.findIn_empty (h : Inv stray v) {d : InodeNo} (hd : Kept stray v.inodes d) {type : UInt8}
    (ht : type ≠ 0) : v.findIn d CStr.empty type = none := by
  refine (Volume.findIn_none ht).mpr fun j k hit => ?_
  have := (h.linked.fits d hd j _ _ hit.entry).1
  simp at this

theorem Inv.findIn_live (h : Inv stray v) {d : InodeNo} (hd : Kept stray v.inodes d) {name : CStr}
    {type : UInt8} (ht : type ≠ 0) {k : InodeNo} (hk : v.findIn d name type = some k) :
    Live v.inodes k ∧ (v.inodes k).type = type ∧ (v.inodes k).direct0 ≠ 0 ∧ ¬ stray k := by
  obtain ⟨j, hit⟩ := (h.findIn_some hd ht).mp hk
  exact ⟨hit.used, hit.type, h.direct0_ne hit.used, (h.named hd hit).2.2⟩

/-- The program returns `r`, whatever state it leaves. -/
def Returns {α : Type} (m : FsM α) (r : Outcome α) (s : Fs) : Prop :=
  wp m (fun a _ => r = .ok a) (fun _ => r = .refused) (fun _ => r = .diverged) s

theorem fsRead_returns (hp : dev.Perfect) (h : Ready stray s.toVolume) (name : CStr)
    (maxlen : UInt32) : Returns (fsRead dev name maxlen)
      (readOutcome s.toVolume maxlen (s.toVolume.findIn 0 name inodeFile)) s := by
  have hroot := h.inv.linked.root
  simp only [Returns, fsRead, wp_bind, wp_get, wp_require, wp_pure, hp.wp_loadScratch,
    hp.wp_loadScratch2]
  refine ⟨fun _ => ⟨fun _ => ⟨fun _ => ?_, fun hno => (hno h.inv.rootReadable).elim⟩,
    fun hname => ?_⟩, fun hno => (hno h.mounted).elim⟩
  · refine wp_findIn (v := s.toVolume) (d := 0) rfl rfl (fun k hk => ?_) fun hk => by rw [hk]; rfl
    obtain ⟨-, -, hblock, -⟩ := h.inv.findIn_live hroot (by decide) hk
    rw [hk]
    exact ⟨fun _ => rfl, fun hno => (hno hblock).elim⟩
  · rw [Decidable.not_not] at hname
    rw [hname, h.inv.findIn_empty hroot (by decide)]
    rfl

theorem Volume.resolve_root {path : CStr} {type : UInt8} (h : splitPath path = none) :
    v.resolve path type = v.findIn 0 path type := by
  rw [Volume.resolve, h]

theorem Volume.resolve_none {path dirname name : CStr} {type : UInt8}
    (h : splitPath path = some (dirname, name)) (hd : v.findIn 0 dirname inodeDir = none) :
    v.resolve path type = none := by
  rw [Volume.resolve, h]
  exact Option.bind_eq_none_iff.mpr (by simp [hd])

theorem Volume.resolve_dir {path dirname name : CStr} {type : UInt8} {d : InodeNo}
    (h : splitPath path = some (dirname, name)) (hd : v.findIn 0 dirname inodeDir = some d) :
    v.resolve path type = v.findIn d name type := by
  rw [Volume.resolve, h]
  simp [hd]

theorem Inv.findIn_kept (h : Inv stray v) {dirname : CStr} {d : InodeNo}
    (hd : v.findIn 0 dirname inodeDir = some d) : Kept stray v.inodes d := by
  obtain ⟨hl, ht, -, hs⟩ := h.findIn_live h.linked.root (by decide) hd
  exact ⟨⟨hl, ht⟩, hs⟩

theorem Inv.resolve_empty (h : Inv stray v) {path : CStr} {type : UInt8} (ht : type ≠ 0)
    (hpath : path = CStr.empty ∨ ∃ dirname, splitPath path = some (dirname, CStr.empty)) :
    v.resolve path type = none := by
  rcases hpath with rfl | ⟨dirname, hsplit⟩
  · rw [Volume.resolve_root rfl]
    exact h.findIn_empty h.linked.root ht
  · cases hd : v.findIn 0 dirname inodeDir with
    | none => exact Volume.resolve_none hsplit hd
    | some d =>
        rw [Volume.resolve_dir hsplit hd]
        exact h.findIn_empty (h.findIn_kept hd) ht

theorem fsReadPath_returns (hp : dev.Perfect) (h : Ready stray s.toVolume) (path : CStr)
    (maxlen : UInt32) : Returns (fsReadPath dev path maxlen)
      (readOutcome s.toVolume maxlen (s.toVolume.resolve path inodeFile)) s := by
  simp only [Returns, fsReadPath, wp_bind, wp_get, wp_require]
  refine ⟨fun _ => ⟨fun _ => ?_, fun hpath => ?_⟩, fun hno => (hno h.mounted).elim⟩
  · cases hsplit : splitPath path with
    | none =>
        rw [Volume.resolve_root hsplit]
        exact fsRead_returns hp h path maxlen
    | some parts =>
        obtain ⟨dirname, filename⟩ := parts
        simp only [wp_bind, wp_get, wp_require, wp_pure, hp.wp_loadScratch, hp.wp_loadScratch2]
        refine ⟨fun _ => ⟨fun _ => ?_, fun hno => (hno h.inv.rootReadable).elim⟩, fun hname => ?_⟩
        · refine wp_lookupDir_find (v := s.toVolume) (by rfl) (by rfl) (fun d hd => ?_) fun hd => by
            rw [Volume.resolve_none hsplit hd]; rfl
          have hkept := h.inv.findIn_kept hd
          rw [Volume.resolve_dir hsplit hd]
          refine ⟨fun _ => ?_, fun hno => (hno (h.inv.direct0_ne hkept.1.1)).elim⟩
          refine wp_findIn (v := s.toVolume) (d := d) rfl rfl (fun k hk => ?_) fun hk => by
            rw [hk]; rfl
          obtain ⟨-, -, hblock, -⟩ := h.inv.findIn_live hkept (by decide) hk
          rw [hk]
          exact ⟨fun _ => rfl, fun hno => (hno hblock).elim⟩
        · rw [h.inv.resolve_empty (by decide)]
          · rfl
          · exact .inr ⟨dirname, by simpa [hsplit] using hname⟩
  · rw [h.inv.resolve_empty (by decide) (.inl (Decidable.not_not.mp hpath))]
    rfl

theorem fsIsDir_returns (hp : dev.Perfect) (h : Ready stray s.toVolume) (path : CStr) :
    Returns (fsIsDir dev path)
      (if (s.toVolume.resolve path inodeDir).isSome then .ok () else .refused) s := by
  have find : ∀ {d name}, Kept stray s.inodes d →
      (findDirEntry name (s.blockOf d) s.inodes inodeDir).isSome =
        (s.toVolume.findIn d name inodeDir).isSome := by
    intro d name hd
    cases hfind : findDirEntry name (s.blockOf d) s.inodes inodeDir with
    | none => simp [Volume.findIn, hfind]
    | some j =>
        obtain ⟨k, hit⟩ := findDirEntry_some (by decide) hfind
        rw [(h.inv.findIn_some hd (by decide)).mpr ⟨j, hit⟩]
        rfl
  simp only [Returns, fsIsDir, wp_bind, wp_get, wp_require, hp.wp_loadScratch]
  refine ⟨fun _ => ⟨fun _ => ⟨fun _ => ?_, fun hno => (hno h.inv.rootReadable).elim⟩,
    fun hpath => ?_⟩, fun hno => (hno h.mounted).elim⟩
  · cases hsplit : splitPath path with
    | none =>
        simp only [wp_bind, wp_get, wp_require, Volume.resolve_root hsplit,
          ← find h.inv.linked.root]
        exact ⟨fun hsome => if_pos hsome, fun hnone => if_neg hnone⟩
    | some parts =>
        obtain ⟨parent, child⟩ := parts
        simp only [wp_bind, wp_get, wp_require, hp.wp_loadScratch2]
        refine ⟨fun _ => ?_, fun hname => ?_⟩
        · refine wp_lookupDir_find (v := s.toVolume) (by rfl) (by rfl) (fun d hd => ?_) fun hd => by
            rw [Volume.resolve_none hsplit hd]; rfl
          have hkept := h.inv.findIn_kept hd
          rw [Volume.resolve_dir hsplit hd, ← find hkept]
          exact ⟨fun _ => ⟨fun hsome => if_pos hsome, fun hnone => if_neg hnone⟩,
            fun hno => (hno (h.inv.direct0_ne hkept.1.1)).elim⟩
        · rw [h.inv.resolve_empty (by decide)]
          · rfl
          · exact .inr ⟨parent, by simpa [hsplit] using hname⟩
  · rw [h.inv.resolve_empty (by decide) (.inl (Decidable.not_not.mp hpath))]
    rfl

theorem fsListRoot_returns (hp : dev.Perfect) (h : Ready stray s.toVolume) (maxEntries : UInt32) :
    Returns (fsListRoot dev maxEntries) (.ok (listEntries (s.blockOf 0) maxEntries)) s := by
  simp only [Returns, fsListRoot, wp_bind, wp_get, wp_require, wp_ite, wp_pure, hp.wp_read]
  refine ⟨fun _ => ⟨fun hmax => ?_, fun _ => ⟨fun hno => ?_, fun _ => rfl⟩⟩,
    fun hno => (hno h.mounted).elim⟩
  · simp [hmax, listEntries]
  · exact (hno (h.inv.isDirInode h.inv.linked.root.1)).elim

theorem fsListDir_returns (hp : dev.Perfect) (h : Ready stray s.toVolume) (dirname : CStr)
    (maxEntries : UInt32) : Returns (fsListDir dev dirname maxEntries)
      (if maxEntries = 0 then .ok []
       else match s.toVolume.findIn 0 dirname inodeDir with
        | some d => .ok (listEntries (s.blockOf d) maxEntries)
        | none => .refused) s := by
  simp only [Returns, fsListDir, wp_bind, wp_get, wp_require, wp_ite, wp_pure, hp.wp_loadScratch,
    hp.wp_loadScratch2]
  refine ⟨fun _ => ⟨fun hmax => if_pos hmax, fun hmax => ?_⟩, fun hno => (hno h.mounted).elim⟩
  rw [if_neg hmax]
  refine ⟨fun _ => ?_, fun hno => (hno h.inv.rootReadable).elim⟩
  refine wp_lookupDir_find (v := s.toVolume) (by rfl) (by rfl) (fun d hd => ?_) fun hd => by
    rw [hd]
  rw [hd]
  exact ⟨fun _ => rfl, fun hno => (hno (h.inv.direct0_ne (h.inv.findIn_kept hd).1.1)).elim⟩

/-- The file that `read_sys_file` looks for. -/
def Volume.sysFile (v : Volume) (filename : CStr) : Option InodeNo :=
  (v.findIn 0 sysName inodeDir).bind fun d => v.findIn d filename inodeFile

/-- On any device: the file's first bytes, or a refusal that a failing read accounts for. -/
theorem readSysFile_reads (h : Ready stray s.toVolume) (filename : CStr) (maxlen : UInt32) :
    wp (readSysFile dev filename maxlen)
      (fun buf _ => readOutcome s.toVolume maxlen (s.toVolume.sysFile filename) = .ok buf)
      (fun s' => readOutcome s.toVolume maxlen (s.toVolume.sysFile filename) = .refused ∨
        FailedRead dev s') (fun _ => False) s := by
  simp only [readSysFile, wp_bind, wp_get, wp_require, wp_pure]
  refine ⟨fun _ => ⟨fun _ => ?_, fun hno => (hno h.inv.rootReadable).elim⟩,
    fun hno => (hno h.mounted).elim⟩
  refine wp_loadScratch (fun s₁ hv₁ hb₁ => ?_) fun _ => .inr
  refine wp_findIn (v := s.toVolume) (d := 0) hb₁ (congrArg Volume.inodes hv₁) (fun d hd => ?_)
    fun hd => .inl (by simp [Volume.sysFile, hd, readOutcome])
  have hkept := h.inv.findIn_kept hd
  rw [hv₁]
  refine ⟨fun _ => ?_, fun hno => (hno ⟨hkept.1.2, h.inv.direct0_ne hkept.1.1⟩).elim⟩
  refine wp_loadScratch2 (fun s₂ hv₂ hb₂ => ?_) fun _ => .inr
  have hv₂ := hv₂.trans hv₁
  rw [hv₁] at hb₂
  refine wp_findIn (v := s.toVolume) (d := d) hb₂ (congrArg Volume.inodes hv₂) (fun k hk => ?_)
    fun hk => .inl (by simp [Volume.sysFile, hd, hk, readOutcome])
  obtain ⟨-, -, hblock, -⟩ := h.inv.findIn_live hkept (by decide) hk
  rw [hv₂, show s.toVolume.sysFile filename = some k by simp [Volume.sysFile, hd, hk]]
  refine ⟨fun _ => ?_, fun hno => (hno hblock).elim⟩
  refine wp_loadScratch (fun s₃ hv₃ hb₃ => ?_) fun _ => .inr
  rw [hb₃, hv₃, hv₂]
  rfl

/-- What `fs_read_passwd` makes of the file. -/
def passwdOutcome (v : Volume) : Outcome UInt32 :=
  match v.sysFile passwdName with
  | some k =>
      if 4 ≤ (v.readFile k 4).length then .ok (hashOfBytes (v.readFile k 4)) else .refused
  | none => .refused

theorem fsReadPasswd_reads (h : Ready stray s.toVolume) :
    wp (fsReadPasswd dev) (fun hash _ => passwdOutcome s.toVolume = .ok hash)
      (fun s' => passwdOutcome s.toVolume = .refused ∨ FailedRead dev s') (fun _ => False) s := by
  rw [fsReadPasswd, wp_bind, passwdOutcome]
  refine wp_mono (readSysFile_reads h passwdName 4) ?_ ?_ fun _ hno => hno
  · intro buf s' hbuf
    cases hk : s.toVolume.sysFile passwdName with
    | none =>
        rw [hk] at hbuf
        cases hbuf
    | some k =>
        rw [hk] at hbuf
        cases hbuf
        rw [wp_bind, wp_require]
        exact ⟨fun hlen => if_pos hlen, fun hlen => .inl (if_neg hlen)⟩
  · rintro s' (hnone | hfails)
    · cases hk : s.toVolume.sysFile passwdName with
      | none => exact .inl rfl
      | some k =>
          rw [hk] at hnone
          cases hnone
    · exact .inr hfails

theorem fsReadPasswd_returns (hp : dev.Perfect) (h : Ready stray s.toVolume) :
    Returns (fsReadPasswd dev) (passwdOutcome s.toVolume) s := by
  refine wp_mono (fsReadPasswd_reads h) (fun _ _ h => h) ?_ fun _ hno => hno.elim
  rintro s' (hr | ⟨t, -, -, hfails⟩)
  · exact hr
  · rw [hp.reads] at hfails
    cases hfails

/-! ## Paths after a call -/

namespace Inv

theorem findIn_flush (h : Inv stray v) {d : InodeNo} (hd : Live v.inodes d) (name : CStr)
    (type : UInt8) : v.flush.findIn d name type = v.findIn d name type := by
  rw [Volume.findIn, Volume.findIn, h.blockOf_flush hd, Volume.inodes_flush]

theorem resolve_flush (h : Inv stray v) (path : CStr) (type : UInt8) :
    v.flush.resolve path type = v.resolve path type := by
  cases hsplit : splitPath path with
  | none => rw [Volume.resolve_root hsplit, Volume.resolve_root hsplit, h.findIn_flush h.rootLive]
  | some parts =>
      obtain ⟨dirname, name⟩ := parts
      cases hd : v.findIn 0 dirname inodeDir with
      | none =>
          rw [Volume.resolve_none hsplit hd, Volume.resolve_none hsplit]
          rw [h.findIn_flush h.rootLive, hd]
      | some d =>
          rw [Volume.resolve_dir hsplit hd, Volume.resolve_dir hsplit (d := d),
            h.findIn_flush (h.findIn_kept hd).1.1]
          rw [h.findIn_flush h.rootLive, hd]

/-- Paths lead alike in volumes whose kept directories list alike. -/
theorem resolve_congr {stray' : InodeNo → Prop} (h : Inv stray v) (h' : Inv stray' v')
    {path : CStr} {type : UInt8} (ht : type ≠ 0) (hhit : ∀ d n t i x, Kept stray v.inodes d →
      (Hit (v'.dirAt d) v'.inodes n t i x ↔ Hit (v.dirAt d) v.inodes n t i x)) :
    v'.resolve path type = v.resolve path type := by
  have hroot := h.linked.root
  refine Option.ext fun x => ?_
  rw [h.resolve_some ht, h'.resolve_some ht]
  unfold Volume.Parent
  cases splitPath path with
  | none =>
      constructor
      · rintro ⟨d, n, i, ⟨rfl, rfl⟩, hit⟩
        exact ⟨0, n, i, ⟨rfl, rfl⟩, (hhit _ _ _ _ _ hroot).mp hit⟩
      · rintro ⟨d, n, i, ⟨rfl, rfl⟩, hit⟩
        exact ⟨0, n, i, ⟨rfl, rfl⟩, (hhit _ _ _ _ _ hroot).mpr hit⟩
  | some parts =>
      constructor
      · rintro ⟨d, n, i, ⟨⟨j, hdir⟩, hn⟩, hit⟩
        have hdir' := (hhit _ _ _ _ _ hroot).mp hdir
        exact ⟨d, n, i, ⟨⟨j, hdir'⟩, hn⟩, (hhit _ _ _ _ _ (h.keptDir hroot hdir')).mp hit⟩
      · rintro ⟨d, n, i, ⟨⟨j, hdir⟩, hn⟩, hit⟩
        exact ⟨d, n, i, ⟨⟨j, (hhit _ _ _ _ _ hroot).mpr hdir⟩, hn⟩,
          (hhit _ _ _ _ _ (h.keptDir hroot hdir)).mpr hit⟩

/-- A new entry is found under its name; every other path leads where it led. -/
theorem resolve_create (h : Inv stray v) {d : InodeNo} {j : Slot} {name : CStr} {k : InodeNo}
    {ino : Inode} {content : Block} (hc : v.CanTake k ino)
    (he : v.CanEnter stray d j name ino.type) (hk0 : k ≠ 0)
    (hempty : ino.type = inodeDir → listing content = fun _ => none) {path : CStr} {type : UInt8}
    (ht : type ≠ 0) {x : InodeNo} :
    (v.create d j name k ino content).resolve path type = some x ↔
      v.resolve path type = some x ∨ v.Parent path d name ∧ type = ino.type ∧ x = k := by
  have hroot := h.linked.root
  rw [(h.create hc he hk0 hempty).resolve_some ht, h.resolve_some ht]
  unfold Volume.Parent
  cases splitPath path with
  | none =>
      constructor
      · rintro ⟨d', n, i, ⟨rfl, rfl⟩, hit⟩
        rcases (h.hit_create hc he hroot).mp hit with hit | ⟨hd, -, hx, hn, ht⟩
        · exact .inl ⟨0, n, i, ⟨rfl, rfl⟩, hit⟩
        · exact .inr ⟨⟨hd.symm, hn.symm⟩, ht, hx⟩
      · rintro (⟨d', n, i, ⟨rfl, rfl⟩, hit⟩ | ⟨⟨rfl, rfl⟩, rfl, rfl⟩)
        · exact ⟨0, n, i, ⟨rfl, rfl⟩, (h.hit_create hc he hroot).mpr (.inl hit)⟩
        · exact ⟨0, name, j, ⟨rfl, rfl⟩,
            (h.hit_create hc he hroot).mpr (.inr ⟨rfl, rfl, rfl, rfl, rfl⟩)⟩
  | some parts =>
      constructor
      · rintro ⟨d', n, i, ⟨⟨i', hdir⟩, rfl⟩, hit⟩
        rcases (h.hit_create hc he hroot).mp hdir with hold | ⟨-, -, rfl, -, htype⟩
        · rcases (h.hit_create hc he (h.keptDir hroot hold)).mp hit with
            hit | ⟨rfl, -, hx, hn, ht⟩
          · exact .inl ⟨d', _, i, ⟨⟨i', hold⟩, rfl⟩, hit⟩
          · exact .inr ⟨⟨⟨i', hold⟩, hn.symm⟩, ht, hx⟩
        · exact (h.not_hit_create_new hc he.dir.1.1 (hempty htype.symm) hit).elim
      · rintro (⟨d', n, i, ⟨⟨i', hdir⟩, rfl⟩, hit⟩ | ⟨⟨⟨i', hdir⟩, hn⟩, rfl, rfl⟩)
        · exact ⟨d', _, i, ⟨⟨i', (h.hit_create hc he hroot).mpr (.inl hdir)⟩, rfl⟩,
            (h.hit_create hc he (h.keptDir hroot hdir)).mpr (.inl hit)⟩
        · exact ⟨d, name, j, ⟨⟨i', (h.hit_create hc he hroot).mpr (.inl hdir)⟩, hn⟩,
            (h.hit_create hc he he.dir).mpr (.inr ⟨rfl, rfl, rfl, rfl, rfl⟩)⟩

theorem resolve_removed (h : Inv stray v) {d : InodeNo} {j : Slot} {name : CStr} {k : InodeNo}
    {ws : List Slot} (hw : Walk (v.edge stray) 0 ws d) (hd : Kept stray v.inodes d)
    (hj : v.dirAt d j = some (name, inodeByte k))
    (hr : v.Removed d j (Below (v.edge stray) k) v') {path : CStr} {type : UInt8} (ht : type ≠ 0)
    {x : InodeNo} : v'.resolve path type = some x ↔
      v.resolve path type = some x ∧ ¬ Below (v.edge stray) k x := by
  have hroot := h.linked.root
  have hroot' : ¬ Below (v.edge stray) k 0 := fun hb =>
    (h.linked.named hd hj).1 (h.rooted.below_root hb)
  rw [(h.removed_below hw hd hj hr).resolve_some ht, h.resolve_some ht]
  unfold Volume.Parent
  cases splitPath path with
  | none =>
      constructor
      · rintro ⟨d', n, i, ⟨rfl, rfl⟩, hit⟩
        obtain ⟨hit, hx⟩ := (h.hit_removed hd hj hr hroot hroot').mp hit
        exact ⟨⟨0, n, i, ⟨rfl, rfl⟩, hit⟩, hx⟩
      · rintro ⟨⟨d', n, i, ⟨rfl, rfl⟩, hit⟩, hx⟩
        exact ⟨0, n, i, ⟨rfl, rfl⟩, (h.hit_removed hd hj hr hroot hroot').mpr ⟨hit, hx⟩⟩
  | some parts =>
      constructor
      · rintro ⟨d', n, i, ⟨⟨i', hdir⟩, rfl⟩, hit⟩
        obtain ⟨hdir, hd'⟩ := (h.hit_removed hd hj hr hroot hroot').mp hdir
        obtain ⟨hit, hx⟩ := (h.hit_removed hd hj hr (h.keptDir hroot hdir) hd').mp hit
        exact ⟨⟨d', _, i, ⟨⟨i', hdir⟩, rfl⟩, hit⟩, hx⟩
      · rintro ⟨⟨d', n, i, ⟨⟨i', hdir⟩, rfl⟩, hit⟩, hx⟩
        have hd' := h.keptDir hroot hdir
        have hout : ¬ Below (v.edge stray) k d' := fun hb =>
          hx (hb.trans_edge ⟨hd', _, hit.entry⟩)
        exact ⟨d', _, i, ⟨⟨i', (h.hit_removed hd hj hr hroot hroot').mpr ⟨hdir, hout⟩⟩, rfl⟩,
          (h.hit_removed hd hj hr hd' hout).mpr ⟨hit, hx⟩⟩

end Inv

end SevenOS
