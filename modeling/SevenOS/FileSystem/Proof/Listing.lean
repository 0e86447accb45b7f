import SevenOS.FileSystem.Operations

/-! # Directory blocks as listings

What a directory block says: for each slot nothing, or a name and an inode
number. The in-place edits of the entries are assignments to a listing as long
as names fit, and the scan loops search a listing.
-/

namespace SevenOS

abbrev Listing : Type := Slot → Option (CStr × UInt8)

def listing (b : Block) : Listing := fun i =>
  if entryUsed b i then some (entryName b i, entryInode b i) else none

/-- Every name is non-empty and ends within its 30 bytes. -/
def Listing.WellNamed (l : Listing) : Prop :=
  ∀ i name n, l i = some (name, n) → 1 ≤ name.length ∧ name.length < 30

/-- The inode number as an entry stores it. -/
def inodeByte (k : InodeNo) : UInt8 := UInt8.ofNat k.val

@[simp] theorem inodeByte_toNat (k : InodeNo) : (inodeByte k).toNat = k.val := by
  simp only [inodeByte, UInt8.toNat_ofNat']
  omega

theorem inodeIndex_eq_some {n : UInt8} {k : InodeNo} : inodeIndex n = some k ↔ n = inodeByte k := by
  unfold inodeIndex
  constructor
  · intro h
    split at h
    · cases h
      apply UInt8.toNat.inj
      simp
    · cases h
  · rintro rfl
    simp [k.isLt]

@[simp] theorem inodeIndex_inodeByte (k : InodeNo) : inodeIndex (inodeByte k) = some k :=
  inodeIndex_eq_some.mpr rfl

theorem inodeByte_injective {k k' : InodeNo} (h : inodeByte k = inodeByte k') : k = k' := by
  have := congrArg inodeIndex h
  simpa using this

theorem listing_eq_some {b : Block} {i : Slot} {name : CStr} {n : UInt8} :
    listing b i = some (name, n) ↔ entryUsed b i = true ∧ entryName b i = name ∧
      entryInode b i = n := by
  unfold listing
  split <;> simp_all

theorem listing_eq_none {b : Block} {i : Slot} : listing b i = none ↔ entryUsed b i = false := by
  unfold listing
  split <;> simp_all

/-! ## Edits -/

/-- A name that fits is determined by the 32 bytes of its entry. -/
theorem listing_congr {b c : Block} {i : Slot}
    (h : ∀ t, t < 32 → c.at_ (32 * i.val + t) = b.at_ (32 * i.val + t))
    (hfit : ∀ name n, listing b i = some (name, n) → name.length < 30) :
    listing c i = listing b i := by
  have hused : entryUsed c i = entryUsed b i := by
    have := h 0 (by decide)
    simp only [Nat.add_zero] at this
    simp [entryUsed, this]
  have hinode : entryInode c i = entryInode b i := h 1 (by decide)
  cases hb : entryUsed b i with
  | false => rw [listing_eq_none.mpr hb, listing_eq_none.mpr (hused.trans hb)]
  | true =>
      have hlen : (entryName b i).length < 30 := hfit _ _ (listing_eq_some.mpr ⟨hb, rfl, rfl⟩)
      have hname : entryName c i = entryName b i := by
        apply Bytes.cstr_congr b c (Bytes.at_cstr_length b _)
        intro t ht
        have ht' : t ≤ (entryName b i).length := ht
        have := h (2 + t) (by omega)
        rwa [← Nat.add_assoc] at this
      rw [listing_eq_some.mpr ⟨hb, rfl, rfl⟩]
      exact listing_eq_some.mpr ⟨hused.trans hb, hname, hinode⟩

/-- An edit that stays inside entry `j` assigns that slot. -/
theorem listing_assign {b c : Block} {j : Slot} (hwf : (listing b).WellNamed)
    (h : ∀ o, o < 512 → (o < 32 * j.val ∨ 32 * j.val + 32 ≤ o) → c.at_ o = b.at_ o) :
    listing c = assign (listing b) j (listing c j) := by
  funext i
  by_cases hij : i = j
  · subst hij; simp
  · rw [assign_of_ne _ _ hij]
    apply listing_congr
    · intro t ht
      have hne : i.val ≠ j.val := fun h => hij (Fin.ext h)
      have hi := i.isLt
      apply h <;> omega
    · intro name n hl
      exact (hwf i name n hl).2

theorem clearEntry_at (b : Block) (j : Slot) {o : Nat} (ho : o < 512) :
    (clearEntry b j).at_ o = if 32 * j.val ≤ o ∧ o < 32 * j.val + 32 then 0 else b.at_ o :=
  Bytes.at_fill _ _ _ _ ho

/-- The bytes of an entry that was filled in; those of a name that fits stay inside. -/
theorem fillEntry_at (b : Block) (j : Slot) (k : InodeNo) (name : CStr) {o : Nat} (ho : o < 512) :
    (fillEntry b j k name).at_ o =
      if 32 * j.val + 2 ≤ o ∧ o < 32 * j.val + 2 + name.chars.length then
        name.chars.getD (o - (32 * j.val + 2)) 0
      else if o = 32 * j.val + 1 then inodeByte k
      else if o = 32 * j.val then 1
      else if 32 * j.val ≤ o ∧ o < 32 * j.val + 32 then 0 else b.at_ o := by
  simp only [fillEntry, copyName]
  rw [Bytes.at_paste _ _ _ ho, Bytes.at_put _ _ _ ho, Bytes.at_put _ _ _ ho, clearEntry_at _ _ ho]
  rfl

theorem fillEntry_outside (b : Block) (j : Slot) (k : InodeNo) (name : CStr)
    (hname : name.length < 30) {o : Nat} (ho : o < 512)
    (hout : o < 32 * j.val ∨ 32 * j.val + 32 ≤ o) : (fillEntry b j k name).at_ o = b.at_ o := by
  have hlen : name.chars.length < 30 := hname
  rw [fillEntry_at _ _ _ _ ho, if_neg (by omega), if_neg (by omega), if_neg (by omega),
    if_neg (by omega)]

theorem listing_zero : listing Bytes.zero = fun _ => none := by
  funext i
  exact listing_eq_none.mpr (by simp [entryUsed])

theorem listing_clearEntry {b : Block} (hwf : (listing b).WellNamed) (j : Slot) :
    listing (clearEntry b j) = assign (listing b) j none := by
  have hj := j.isLt
  have hnone : listing (clearEntry b j) j = none := by
    apply listing_eq_none.mpr
    simp [entryUsed, clearEntry_at b j (o := 32 * j.val) (by omega)]
  rw [← hnone]
  apply listing_assign hwf
  intro o ho hout
  rw [clearEntry_at _ _ ho, if_neg (by omega)]

theorem listing_fillEntry {b : Block} (hwf : (listing b).WellNamed) (j : Slot) (k : InodeNo)
    (name : CStr) (hname : name.length < 30) :
    listing (fillEntry b j k name) = assign (listing b) j (some (name, inodeByte k)) := by
  have hj := j.isLt
  have hlen : name.chars.length < 30 := hname
  have hsome : listing (fillEntry b j k name) j = some (name, inodeByte k) := by
    apply listing_eq_some.mpr
    refine ⟨?_, ?_, ?_⟩
    · rw [entryUsed, fillEntry_at _ _ _ _ (by omega), if_neg (by omega), if_neg (by omega),
        if_pos rfl]
      rfl
    · apply Bytes.cstr_eq
      · intro i hi
        rw [fillEntry_at _ _ _ _ (by omega), if_pos (by omega)]
        simp [hi]
      · rw [fillEntry_at _ _ _ _ (by omega), if_neg (by omega), if_neg (by omega),
          if_neg (by omega), if_pos (by omega)]
    · rw [entryInode, fillEntry_at _ _ _ _ (by omega), if_neg (by omega), if_pos rfl]
  rw [← hsome]
  apply listing_assign hwf
  intro o ho hout
  exact fillEntry_outside b j k name hname ho hout

theorem renameEntry_at (b : Block) (j : Slot) (name : CStr) {o : Nat} (ho : o < 512) :
    (renameEntry b j name).at_ o =
      if 32 * j.val + 2 ≤ o ∧ o < 32 * j.val + 2 + name.chars.length then
        name.chars.getD (o - (32 * j.val + 2)) 0
      else if 32 * j.val + 2 ≤ o ∧ o < 32 * j.val + 2 + 30 then 0 else b.at_ o := by
  simp only [renameEntry, copyName]
  rw [Bytes.at_paste _ _ _ ho, Bytes.at_fill _ _ _ _ ho]

theorem listing_renameEntry {b : Block} (hwf : (listing b).WellNamed) {j : Slot} {old : CStr}
    {n : UInt8} (hold : listing b j = some (old, n)) (name : CStr) (hname : name.length < 30) :
    listing (renameEntry b j name) = assign (listing b) j (some (name, n)) := by
  have hj := j.isLt
  have hlen : name.chars.length < 30 := hname
  obtain ⟨hused, -, hinode⟩ := listing_eq_some.mp hold
  have hsome : listing (renameEntry b j name) j = some (name, n) := by
    apply listing_eq_some.mpr
    refine ⟨?_, ?_, ?_⟩
    · rw [entryUsed, renameEntry_at _ _ _ (by omega), if_neg (by omega), if_neg (by omega)]
      exact hused
    · apply Bytes.cstr_eq
      · intro i hi
        rw [renameEntry_at _ _ _ (by omega), if_pos (by omega)]
        simp [hi]
      · rw [renameEntry_at _ _ _ (by omega), if_neg (by omega), if_pos (by omega)]
    · rw [entryInode, renameEntry_at _ _ _ (by omega), if_neg (by omega), if_neg (by omega)]
      exact hinode
  rw [← hsome]
  apply listing_assign hwf
  intro o ho hout
  rw [renameEntry_at _ _ _ ho, if_neg (by omega), if_neg (by omega)]

/-! ## Searches -/

/-- Slot `i` names the live inode `k` of this name and type. -/
structure Hit (l : Listing) (inodes : InodeNo → Inode) (name : CStr) (type : UInt8) (i : Slot)
    (k : InodeNo) : Prop where
  entry : l i = some (name, inodeByte k)
  used : (inodes k).used ≠ 0
  type : (inodes k).type = type

theorem nameMatches_iff {b : Block} {name : CStr} {i : Slot} :
    nameMatches b name i = true ↔ entryName b i = name := by
  rw [nameMatches, CStr.equals_iff]
  exact ⟨CStr.ext, fun h => congrArg CStr.chars h⟩

theorem isLive_iff {inodes : InodeNo → Inode} {type : UInt8} {k : InodeNo} :
    isLive inodes type k = true ↔ (inodes k).used ≠ 0 ∧ (inodes k).type = type := by
  simp [isLive]

/-- The test of `find_dir_entry` at one slot. -/
theorem findTest_iff {name : CStr} {b : Block} {inodes : InodeNo → Inode} {type : UInt8}
    (ht : type ≠ 0) (i : Slot) :
    (entryUsed b i && nameMatches b name i &&
      match inodeIndex (entryInode b i) with
      | none => false
      | some k => (inodes k).used != 0 && (type == 0 || (inodes k).type == type)) = true ↔
      ∃ k, Hit (listing b) inodes name type i k := by
  constructor
  · intro h
    simp only [Bool.and_eq_true] at h
    obtain ⟨⟨hused, hname⟩, hlive⟩ := h
    cases hk : inodeIndex (entryInode b i) with
    | none => simp [hk] at hlive
    | some k =>
        simp only [hk, Bool.and_eq_true, Bool.or_eq_true, beq_iff_eq, bne_iff_ne, ht,
          false_or] at hlive
        exact ⟨k, listing_eq_some.mpr ⟨hused, nameMatches_iff.mp hname, inodeIndex_eq_some.mp hk⟩,
          hlive.1, hlive.2⟩
  · rintro ⟨k, hentry, hlive, htype⟩
    obtain ⟨hused, hname, hinode⟩ := listing_eq_some.mp hentry
    simp [hused, nameMatches_iff.mpr hname, hinode, hlive, htype]

theorem findDirEntry_some {name : CStr} {b : Block} {inodes : InodeNo → Inode} {type : UInt8}
    (ht : type ≠ 0) {i : Slot} (h : findDirEntry name b inodes type = some i) :
    ∃ k, Hit (listing b) inodes name type i k := by
  have hit := List.find?_some h
  exact (findTest_iff ht i).mp hit

theorem findDirEntry_none {name : CStr} {b : Block} {inodes : InodeNo → Inode} {type : UInt8}
    (ht : type ≠ 0) (h : findDirEntry name b inodes type = none) (i : Slot) (k : InodeNo) :
    ¬ Hit (listing b) inodes name type i k := by
  intro hit
  have := List.find?_eq_none.mp h i (mem_slots i)
  exact this ((findTest_iff ht i).mpr ⟨k, hit⟩)

/-- The entry found carries the number of the inode it hits. -/
theorem Hit.inodeIndex {b : Block} {inodes : InodeNo → Inode} {name : CStr} {type : UInt8}
    {i : Slot} {k : InodeNo} (h : Hit (listing b) inodes name type i k) :
    inodeIndex (entryInode b i) = some k :=
  inodeIndex_eq_some.mpr (listing_eq_some.mp h.entry).2.2

theorem firstFreeSlot_some {b : Block} {i : Slot} (h : firstFreeSlot b = some i) :
    listing b i = none := by
  have := List.find?_some h
  exact listing_eq_none.mpr (by simpa using this)

theorem firstFreeSlot_none {b : Block} (h : firstFreeSlot b = none) (i : Slot) :
    listing b i ≠ none := by
  have := List.find?_eq_none.mp h i (mem_slots i)
  rw [Ne, listing_eq_none]
  simpa using this

/-- What a scan over some slots has established when it ends. -/
def ScanResult (bad : UInt8 → Bool) (name : CStr) (type : UInt8) (b : Block)
    (inodes : InodeNo → Inode) (seen : List Slot) (free : Option Slot) : Scan → Prop
  | .bad => ∃ i n, listing b i = some (name, n) ∧ bad n = true
  | .found i k => Hit (listing b) inodes name type i k ∧ bad (inodeByte k) = false
  | .absent free' => (∀ i ∈ seen, ∀ k, bad (inodeByte k) = false →
      ¬ Hit (listing b) inodes name type i k) ∧
      free' = free.or (seen.find? fun i => !entryUsed b i)

theorem scanFrom_result (bad : UInt8 → Bool) (name : CStr) (type : UInt8) (b : Block)
    (inodes : InodeNo → Inode) (seen : List Slot) (free : Option Slot) :
    ScanResult bad name type b inodes seen free (scanFrom bad name type b inodes seen free) := by
  induction seen generalizing free with
  | nil => simp [scanFrom, ScanResult]
  | cons i rest ih =>
      -- skipping slot `i` is sound when it hits nothing and its freedom is recorded
      have skip : ∀ free', (∀ k, bad (inodeByte k) = false → ¬ Hit (listing b) inodes name type i k) →
          free'.or (rest.find? fun i => !entryUsed b i) =
            free.or ((i :: rest).find? fun i => !entryUsed b i) →
          ScanResult bad name type b inodes (i :: rest) free
            (scanFrom bad name type b inodes rest free') := by
        intro free' hmiss hfree
        have := ih free'
        revert this
        cases scanFrom bad name type b inodes rest free' with
        | bad => exact id
        | found j k => exact id
        | absent free'' =>
            rintro ⟨hrest, rfl⟩
            refine ⟨?_, hfree⟩
            intro j hj
            rcases List.mem_cons.mp hj with rfl | hj
            · exact hmiss
            · exact hrest j hj
      unfold scanFrom
      by_cases hused : entryUsed b i = true
      · have hfree : free.or (rest.find? fun i => !entryUsed b i) =
            free.or ((i :: rest).find? fun i => !entryUsed b i) := by
          simp [hused]
        rw [if_pos hused]
        by_cases hname : nameMatches b name i = true
        · rw [if_pos hname]
          have hentry : listing b i = some (name, entryInode b i) :=
            listing_eq_some.mpr ⟨hused, nameMatches_iff.mp hname, rfl⟩
          by_cases hbad : bad (entryInode b i) = true
          · rw [if_pos hbad]
            exact ⟨i, _, hentry, hbad⟩
          · rw [if_neg hbad]
            cases hk : inodeIndex (entryInode b i) with
            | none =>
                refine skip free (fun k _ hit => ?_) hfree
                rw [hit.inodeIndex] at hk
                cases hk
            | some k =>
                have hbyte := inodeIndex_eq_some.mp hk
                by_cases hlive : isLive inodes type k = true
                · simp only [hlive, if_true]
                  obtain ⟨hu, ht⟩ := isLive_iff.mp hlive
                  exact ⟨⟨hbyte ▸ hentry, hu, ht⟩, by simpa [hbyte] using hbad⟩
                · simp only [hlive]
                  refine skip free (fun k' _ hit => ?_) hfree
                  rw [hit.inodeIndex] at hk
                  cases hk
                  exact hlive (isLive_iff.mpr ⟨hit.used, hit.type⟩)
        · rw [if_neg hname]
          refine skip free (fun k _ hit => ?_) hfree
          exact hname (nameMatches_iff.mpr (listing_eq_some.mp hit.entry).2.1)
      · rw [if_neg hused]
        refine skip (free.or (some i)) (fun k _ hit => ?_) ?_
        · exact hused (listing_eq_some.mp hit.entry).1
        · have : entryUsed b i = false := by simpa using hused
          cases free <;> simp [this]

theorem scanEntries_result (bad : UInt8 → Bool) (name : CStr) (type : UInt8) (b : Block)
    (inodes : InodeNo → Inode) :
    ScanResult bad name type b inodes slots none (scanEntries bad name type b inodes) :=
  scanFrom_result bad name type b inodes slots none

theorem scan_found {bad : UInt8 → Bool} {name : CStr} {type : UInt8} {b : Block}
    {inodes : InodeNo → Inode} {i : Slot} {k : InodeNo}
    (h : scanEntries bad name type b inodes = .found i k) :
    Hit (listing b) inodes name type i k ∧ bad (inodeByte k) = false := by
  have := scanEntries_result bad name type b inodes
  rwa [h] at this

theorem scan_bad {bad : UInt8 → Bool} {name : CStr} {type : UInt8} {b : Block}
    {inodes : InodeNo → Inode} (h : scanEntries bad name type b inodes = .bad) :
    ∃ i n, listing b i = some (name, n) ∧ bad n = true := by
  have := scanEntries_result bad name type b inodes
  rwa [h] at this

theorem scan_absent {bad : UInt8 → Bool} {name : CStr} {type : UInt8} {b : Block}
    {inodes : InodeNo → Inode} {free : Option Slot}
    (h : scanEntries bad name type b inodes = .absent free) :
    (∀ i k, bad (inodeByte k) = false → ¬ Hit (listing b) inodes name type i k) ∧
      free = firstFreeSlot b := by
  have := scanEntries_result bad name type b inodes
  rw [h] at this
  exact ⟨fun i => this.1 i (mem_slots i), by simpa [firstFreeSlot] using this.2⟩

end SevenOS
