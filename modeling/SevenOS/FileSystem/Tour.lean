import SevenOS.FileSystem.Removing

/-! # The way of a recursive removal

`fs_init` looks at the superblock only, so directory blocks and inode table may
hold anything. A removal goes down wherever the entries lead; nothing stops it
from entering a directory that it is still emptying, as the inodes are cleared
after the recursive call. This is its way on the volume alone: one step for each
call of `remove_dir_contents`, each used entry and each return.
-/

namespace SevenOS

variable {v : Volume}

/-- The inode numbers in the used entries among `js`. -/
def namesIn (b : Block) (js : List Slot) : List UInt8 :=
  (js.filter (entryUsed b)).map (entryInode b)

def Volume.names (v : Volume) (d : InodeNo) : List UInt8 := namesIn (v.blockOf d) slots

/-- Inode `k` is cleared, and its block given back if it has one. -/
def Volume.discard (v : Volume) (k : InodeNo) : Volume :=
  (if blockFreeable v (v.inodes k).direct0 then
      (v.freeBlock (v.inodes k).direct0).setSector (v.sectorOf k) Bytes.zero
    else v).putInode k Inode.zero

/-- The calls of `remove_dir_contents` that have not returned, the last one first. Each has its
directory and, when it has read the block, the inode numbers in the entries still to come. -/
structure Tour where
  calls : List (InodeNo × Option (List UInt8))
  volume : Volume

namespace Tour

/-- The next entry of directory `d` names inode `k`. -/
def enter (d : InodeNo) (ns : List UInt8) (calls : List (InodeNo × Option (List UInt8)))
    (v : Volume) (k : InodeNo) : Option Tour :=
  if k = 0 then none
  else if (v.inodes k).type = inodeDir then some ⟨(k, none) :: (d, some ns) :: calls, v⟩
  else if (v.inodes k).type = inodeFile then some ⟨(d, some ns) :: calls, v.discard k⟩
  else none

/-- There is no next step when all calls have returned, and when one returns false. -/
def next : Tour → Option Tour
  | ⟨[], _⟩ => none
  | ⟨(d, none) :: calls, v⟩ =>
      if d ≠ 0 ∧ isDirInode v d then some ⟨(d, some (v.names d)) :: calls, v⟩ else none
  | ⟨(d, some []) :: calls, v⟩ =>
      some ⟨calls, (v.setSector (v.sectorOf d) Bytes.zero).discard d⟩
  | ⟨(d, some (n :: ns)) :: calls, v⟩ => (inodeIndex n).bind (enter d ns calls v)

theorem bind_enter_none {n : UInt8} (h : rootOrOutOfTable n ≠ false) (d : InodeNo)
    (ns : List UInt8) (calls : List (InodeNo × Option (List UInt8))) (v : Volume) :
    (inodeIndex n).bind (enter d ns calls v) = none := by
  by_cases hn : n = 0
  · rw [hn]
    rfl
  · have hout : ¬n.toNat < 64 := by simpa [rootOrOutOfTable, hn] using h
    rw [inodeIndex, dif_neg hout]
    rfl

theorem ne_zero_of_inodeIndex {n : UInt8} (h : rootOrOutOfTable n = false) {k : InodeNo}
    (hk : inodeIndex n = some k) : k ≠ 0 := by
  rintro rfl
  rw [inodeIndex_eq_some.mp hk] at h
  cases h

def Leads : Tour → Tour → Prop := Relation.ReflTransGen fun t t' => t.next = some t'

/-- A directory is entered again while it is being emptied. -/
def Reentered (t : Tour) : Prop := ¬(t.calls.map Prod.fst).Nodup

/-- More than 64 calls are open at some time. -/
def Sinks (t : Tour) : Prop := ∃ t', t.Leads t' ∧ 64 < t'.calls.length

theorem Leads.sinks {t t' : Tour} (h : t.Leads t') (hs : t'.Sinks) : t.Sinks := by
  obtain ⟨t'', h', hlen⟩ := hs
  exact ⟨t'', h.trans h', hlen⟩

/-- There are 64 inodes. -/
theorem reentered_of_length {t : Tour} (h : 64 < t.calls.length) : t.Reentered := by
  intro hnodup
  have hcard := hnodup.length_le_card
  rw [List.length_map, Fintype.card_fin] at hcard
  omega

/-- One step, with not too many calls open. -/
def Advances (t t' : Tour) : Prop := t.next = some t' ∧ t.calls.length ≤ 64

/-- The way comes to an end, and up to there never were more than 64 calls open. -/
def Stops (t : Tour) : Prop :=
  ∃ t', Relation.ReflTransGen Advances t t' ∧ t'.next = none ∧ t'.calls.length ≤ 64

theorem leads_of_advances {t t' : Tour} (h : Relation.ReflTransGen Advances t t') : t.Leads t' :=
  Relation.ReflTransGen.mono (fun _ _ hstep => And.left hstep) _ _ h

theorem Stops.trans {t t' : Tour} (h : Relation.ReflTransGen Advances t t') (hs : t'.Stops) :
    t.Stops := by
  obtain ⟨t'', h', hlast⟩ := hs
  exact ⟨t'', h.trans h', hlast⟩

/-- A way has no forks. -/
theorem Stops.not_sinks {t : Tour} (h : t.Stops) : ¬t.Sinks := by
  obtain ⟨last, hway, hnone, hlast⟩ := h
  rintro ⟨deep, hleads, hdeep⟩
  induction hway using Relation.ReflTransGen.head_induction_on with
  | refl =>
      rcases Relation.ReflTransGen.cases_head hleads with rfl | ⟨t', hstep, -⟩
      · omega
      · rw [hnone] at hstep
        cases hstep
  | head hstep _ ih =>
      rcases Relation.ReflTransGen.cases_head hleads with rfl | ⟨t', hstep', hrest⟩
      · have := hstep.2
        omega
      · obtain rfl := Option.some.inj (hstep.1.symm.trans hstep')
        exact ih hrest

/-- Look at the next `n` steps of a way that stops within them. -/
def distinct : Nat → Tour → Bool
  | 0, _ => false
  | n + 1, t => decide (t.calls.map Prod.fst).Nodup && (t.next.map (distinct n)).getD true

theorem not_reentered_of_distinct {n : Nat} {t t' : Tour} (h : t.distinct n = true)
    (hleads : t.Leads t') : ¬t'.Reentered := by
  induction n generalizing t with
  | zero => cases h
  | succ n ih =>
      obtain ⟨hnodup, hrest⟩ := Bool.and_eq_true_iff.mp h
      rcases Relation.ReflTransGen.cases_head hleads with rfl | ⟨t₁, hstep, hleads'⟩
      · exact not_not.mpr (of_decide_eq_true hnodup)
      · rw [hstep] at hrest
        exact ih hrest hleads'

end Tour

/-! ## First entries -/

/-- The directory that the first used entry of a directory names. -/
def Volume.firstDir (v : Volume) (d : InodeNo) : Option InodeNo :=
  if d ≠ 0 ∧ isDirInode v d then
    ((v.names d).head?.bind inodeIndex).filter fun k => k ≠ 0 ∧ (v.inodes k).type = inodeDir
  else none

/-- Down along the first entries. -/
def Volume.descend (v : Volume) : Nat → InodeNo → Option InodeNo
  | 0, d => some d
  | n + 1, d => (v.firstDir d).bind (v.descend n)

/-- A call goes down along the first entry as soon as it has read the block. -/
theorem Tour.leads_firstDir {d k : InodeNo} (h : v.firstDir d = some k)
    (calls : List (InodeNo × Option (List UInt8))) :
    ∃ ns, Tour.Leads ⟨(d, none) :: calls, v⟩ ⟨(k, none) :: (d, some ns) :: calls, v⟩ := by
  unfold Volume.firstDir at h
  by_cases hd : d ≠ 0 ∧ isDirInode v d
  · rw [if_pos hd] at h
    obtain ⟨hhead, hk⟩ := Option.filter_eq_some_iff.mp h
    obtain ⟨n, hn, hk'⟩ := Option.bind_eq_some_iff.mp hhead
    obtain ⟨ns, hnames⟩ := List.head?_eq_some_iff.mp hn
    obtain ⟨hk0, hdir⟩ := of_decide_eq_true hk
    have hread : Tour.next ⟨(d, none) :: calls, v⟩ = some ⟨(d, some (n :: ns)) :: calls, v⟩ := by
      rw [← hnames]
      exact if_pos hd
    have hdown : Tour.next ⟨(d, some (n :: ns)) :: calls, v⟩ =
        some ⟨(k, none) :: (d, some ns) :: calls, v⟩ := by
      rw [Tour.next, hk', Option.bind_some, Tour.enter, if_neg hk0, if_pos hdir]
    refine ⟨ns, ?_⟩
    unfold Tour.Leads
    exact .head hread (.single hdown)
  · rw [if_neg hd] at h
    cases h

theorem Tour.sinks_descend {n : Nat} {d : InodeNo} (h : (v.descend n d).isSome)
    (calls : List (InodeNo × Option (List UInt8))) (hlen : 64 ≤ calls.length + n) :
    Tour.Sinks ⟨(d, none) :: calls, v⟩ := by
  induction n generalizing d calls with
  | zero => exact ⟨_, .refl, by simp; omega⟩
  | succ n ih =>
      obtain ⟨e, he⟩ := Option.isSome_iff_exists.mp h
      obtain ⟨k, hk, hrest⟩ := Option.bind_eq_some_iff.mp he
      obtain ⟨ns, hleads⟩ := leads_firstDir hk calls
      exact hleads.sinks (ih (Option.isSome_iff_exists.mpr ⟨e, hrest⟩) _ (by simp; omega))

/-! ## The way from a path -/

/-- The inode a recursive removal takes out of a directory. -/
def Volume.removableIn (v : Volume) (d : InodeNo) (name : CStr) : Option InodeNo :=
  if (v.inodes d).direct0 = 0 then none
  else
    match findRemovable name (v.blockOf d) v.inodes with
    | .found _ k => some k
    | _ => none

/-- The inode a recursive removal of `path` takes. -/
def Volume.removeTarget (v : Volume) (path : CStr) : Option InodeNo :=
  if path = CStr.empty ∨ ¬ rootReadable v then none
  else
    match splitPath path with
    | none => v.removableIn 0 path
    | some (dirname, name) =>
        if name = CStr.empty then none
        else (v.findIn 0 dirname inodeDir).bind fun d => v.removableIn d name

/-- The first call, if a directory is to be removed. -/
def Volume.tour (v : Volume) (path : CStr) : Option Tour :=
  (v.removeTarget path).bind fun k =>
    if (v.inodes k).type = inodeDir then some ⟨[(k, none)], v⟩ else none

/-- The removal of `path` comes to `t`. -/
def Volume.ComesTo (v : Volume) (path : CStr) (t : Tour) : Prop :=
  ∃ t₀, v.tour path = some t₀ ∧ t₀.Leads t

/-- It comes to an entry for a directory that it is still emptying. -/
def Volume.Reenters (v : Volume) (path : CStr) : Prop := ∃ t, v.ComesTo path t ∧ t.Reentered

/-- It comes to a directory from which the first entries lead through more directories than
there are inodes, so in a circle. -/
def Volume.Circles (v : Volume) (path : CStr) : Prop :=
  ∃ t d calls, v.ComesTo path t ∧ t.calls = (d, none) :: calls ∧
    (t.volume.descend dirNesting d).isSome

/-- It has more calls open than there are inodes. -/
def Volume.Sinks (v : Volume) (path : CStr) : Prop := ∃ t, v.tour path = some t ∧ t.Sinks

theorem Volume.not_reenters_of_distinct {path : CStr} {n : Nat}
    (h : (v.tour path).all (Tour.distinct n) = true) : ¬v.Reenters path := by
  rintro ⟨t, ⟨t₀, htour, hleads⟩, hreentered⟩
  rw [htour] at h
  exact Tour.not_reentered_of_distinct h hleads hreentered

theorem Volume.Sinks.reenters {path : CStr} (h : v.Sinks path) : v.Reenters path := by
  obtain ⟨t₀, htour, t, hleads, hlen⟩ := h
  exact ⟨t, ⟨t₀, htour, hleads⟩, Tour.reentered_of_length hlen⟩

theorem Volume.Circles.sinks {path : CStr} (h : v.Circles path) : v.Sinks path := by
  obtain ⟨⟨calls, v'⟩, d, rest, ⟨t₀, htour, hleads⟩, hcalls, hdown⟩ := h
  obtain rfl : calls = (d, none) :: rest := hcalls
  exact ⟨t₀, htour, hleads.sinks (Tour.sinks_descend hdown rest (Nat.le_add_left _ _))⟩

end SevenOS
