import SevenOS.FileSystem.Proof.Perfect

/-! # The representation invariant

Two halves. `Allocated` ties block pointers to the bitmap; it speaks of the
superblock, the bitmap and the inode table. `Linked` says what the directories
may name; it speaks of the inode table and the listings. Inodes that a refused
call took and never linked are `stray`: no directory names them and nothing is
said about the block of a stray directory.
-/

namespace SevenOS

abbrev Table : Type := InodeNo → Inode

def Live (tab : Table) (i : InodeNo) : Prop := (tab i).used ≠ 0

def LiveDir (tab : Table) (i : InodeNo) : Prop := Live tab i ∧ (tab i).type = inodeDir

instance (tab : Table) (i : InodeNo) : Decidable (LiveDir tab i) :=
  inferInstanceAs (Decidable ((tab i).used ≠ 0 ∧ (tab i).type = inodeDir))

/-- A directory whose block is looked after. -/
def Kept (stray : InodeNo → Prop) (tab : Table) (d : InodeNo) : Prop := LiveDir tab d ∧ ¬ stray d

/-! ## Blocks and inodes -/

structure Allocated (sb : Superblock) (bitmap : Bitmap) (tab : Table) : Prop where
  countPos : 1 ≤ sb.blockCount.toNat
  countLe : sb.blockCount.toNat ≤ 32768
  unused : ∀ i, ¬ Live tab i → tab i = Inode.zero
  typed : ∀ i, Live tab i → (tab i).type = inodeFile ∨ (tab i).type = inodeDir
  sizeLe : ∀ i, Live tab i → (tab i).size.toNat ≤ 512
  blockPos : ∀ i, Live tab i → 1 ≤ (tab i).direct0.toNat
  blockLt : ∀ i, Live tab i → (tab i).direct0.toNat < sb.blockCount.toNat
  blockInj : ∀ i j, Live tab i → Live tab j → (tab i).direct0 = (tab j).direct0 → i = j
  bits : ∀ b, b < 32768 →
    (bitmap.testBit b = true ↔ ∃ i, Live tab i ∧ (tab i).direct0.toNat = b)

theorem Live.of_assign_ne {tab : Table} {k i : InodeNo} {ino : Inode} (h : i ≠ k) :
    Live (assign tab k ino) i ↔ Live tab i := by
  simp [Live, h]

namespace Allocated

variable {sb : Superblock} {bitmap : Bitmap} {tab : Table}

theorem blockBound (h : Allocated sb bitmap tab) {i : InodeNo} (hi : Live tab i) :
    (tab i).direct0.toNat < 32768 :=
  Nat.lt_of_lt_of_le (h.blockLt i hi) h.countLe

theorem ne_of_free (h : Allocated sb bitmap tab) {b : UInt32} (hb : b.toNat < 32768)
    (hfree : bitmap.testBit b.toNat = false) {i : InodeNo} (hi : Live tab i) :
    (tab i).direct0 ≠ b := by
  intro heq
  have := (h.bits b.toNat hb).mpr ⟨i, hi, by rw [heq]⟩
  rw [hfree] at this
  cases this

theorem take (h : Allocated sb bitmap tab) {k : InodeNo} (hk : ¬ Live tab k) {ino : Inode}
    (hused : ino.used ≠ 0) (htype : ino.type = inodeFile ∨ ino.type = inodeDir)
    (hsize : ino.size.toNat ≤ 512) (hpos : 1 ≤ ino.direct0.toNat)
    (hlt : ino.direct0.toNat < sb.blockCount.toNat)
    (hfree : bitmap.testBit ino.direct0.toNat = false) :
    Allocated sb (bitmap.setBit ino.direct0.toNat) (assign tab k ino) := by
  have hb : ino.direct0.toNat < 32768 := Nat.lt_of_lt_of_le hlt h.countLe
  have hne := fun {i} (hi : Live tab i) => h.ne_of_free hb hfree hi
  have live : ∀ {i}, Live (assign tab k ino) i → i = k ∨ (i ≠ k ∧ Live tab i) := by
    intro i hi
    by_cases hik : i = k
    · exact .inl hik
    · exact .inr ⟨hik, (Live.of_assign_ne hik).mp hi⟩
  refine ⟨h.countPos, h.countLe, ?_, ?_, ?_, ?_, ?_, ?_, ?_⟩
  · intro i hi
    have hik : i ≠ k := fun heq => hi (by simpa [Live, heq] using hused)
    simpa [hik] using h.unused i fun hl => hi ((Live.of_assign_ne hik).mpr hl)
  · intro i hi
    rcases live hi with rfl | ⟨hik, hi⟩
    · simpa using htype
    · simpa [hik] using h.typed i hi
  · intro i hi
    rcases live hi with rfl | ⟨hik, hi⟩
    · simpa using hsize
    · simpa [hik] using h.sizeLe i hi
  · intro i hi
    rcases live hi with rfl | ⟨hik, hi⟩
    · simpa using hpos
    · simpa [hik] using h.blockPos i hi
  · intro i hi
    rcases live hi with rfl | ⟨hik, hi⟩
    · simpa using hlt
    · simpa [hik] using h.blockLt i hi
  · intro i j hi hj heq
    rcases live hi with hik | ⟨hik, hi⟩ <;> rcases live hj with hjk | ⟨hjk, hj⟩
    · rw [hik, hjk]
    · simp only [hik, assign_same, assign_of_ne _ _ hjk] at heq
      exact (hne hj heq.symm).elim
    · simp only [hjk, assign_same, assign_of_ne _ _ hik] at heq
      exact (hne hi heq).elim
    · simp only [assign_of_ne _ _ hik, assign_of_ne _ _ hjk] at heq
      exact h.blockInj i j hi hj heq
  · intro b hblt
    rw [Bytes.testBit_setBit _ hblt]
    simp only [Bool.or_eq_true, decide_eq_true_eq, h.bits b hblt]
    constructor
    · rintro (rfl | ⟨i, hi, hib⟩)
      · exact ⟨k, by simpa [Live] using hused, by simp⟩
      · have hik : i ≠ k := fun heq => hk (heq ▸ hi)
        exact ⟨i, (Live.of_assign_ne hik).mpr hi, by simpa [hik] using hib⟩
    · rintro ⟨i, hi, hib⟩
      rcases live hi with rfl | ⟨hik, hi⟩
      · exact .inl (by simpa using hib.symm)
      · exact .inr ⟨i, hi, by simpa [hik] using hib⟩

theorem resize (h : Allocated sb bitmap tab) {k : InodeNo} (hk : Live tab k) {size : UInt32}
    (hsize : size.toNat ≤ 512) :
    Allocated sb bitmap (assign tab k { tab k with size := size }) := by
  have live : ∀ i, Live (assign tab k { tab k with size := size }) i ↔ Live tab i := by
    intro i
    by_cases hik : i = k
    · subst hik; simp [Live]
    · exact Live.of_assign_ne hik
  have type : ∀ i, (assign tab k { tab k with size := size } i).type = (tab i).type := by
    intro i
    by_cases hik : i = k
    · subst hik; simp
    · simp [hik]
  have block : ∀ i, (assign tab k { tab k with size := size } i).direct0 = (tab i).direct0 := by
    intro i
    by_cases hik : i = k
    · subst hik; simp
    · simp [hik]
  refine ⟨h.countPos, h.countLe, ?_, ?_, ?_, ?_, ?_, ?_, ?_⟩
  · intro i hi
    have hi' : ¬ Live tab i := fun hl => hi ((live i).mpr hl)
    have hik : i ≠ k := fun heq => hi' (heq ▸ hk)
    simpa [hik] using h.unused i hi'
  · intro i hi; rw [type]; exact h.typed i ((live i).mp hi)
  · intro i hi
    by_cases hik : i = k
    · subst hik; simpa using hsize
    · simpa [hik] using h.sizeLe i ((live i).mp hi)
  · intro i hi; rw [block]; exact h.blockPos i ((live i).mp hi)
  · intro i hi; rw [block]; exact h.blockLt i ((live i).mp hi)
  · intro i j hi hj heq
    rw [block, block] at heq
    exact h.blockInj i j ((live i).mp hi) ((live j).mp hj) heq
  · intro b hb
    simp only [h.bits b hb, live, block]

/-- The inodes of `S` are zeroed and exactly their bits are cleared. -/
theorem free (h : Allocated sb bitmap tab) {bitmap' : Bitmap} {tab' : Table} {S : InodeNo → Prop}
    (hS : ∀ i, S i → Live tab i) (hzero : ∀ i, S i → tab' i = Inode.zero)
    (hkeep : ∀ i, ¬ S i → tab' i = tab i)
    (hbits : ∀ b, b < 32768 → (bitmap'.testBit b = true ↔
      bitmap.testBit b = true ∧ ¬ ∃ i, S i ∧ (tab i).direct0.toNat = b)) :
    Allocated sb bitmap' tab' := by
  have live : ∀ {i}, Live tab' i → ¬ S i := by
    intro i hi hSi
    simp [Live, hzero i hSi, Inode.zero] at hi
  have same : ∀ {i}, Live tab' i → tab' i = tab i ∧ Live tab i := by
    intro i hi
    have heq := hkeep i (live hi)
    refine ⟨heq, ?_⟩
    rwa [Live, heq] at hi
  refine ⟨h.countPos, h.countLe, ?_, ?_, ?_, ?_, ?_, ?_, ?_⟩
  · intro i hi
    by_cases hSi : S i
    · exact hzero i hSi
    · rw [hkeep i hSi]
      exact h.unused i fun hl => hi (by rwa [Live, hkeep i hSi])
  · intro i hi; rw [(same hi).1]; exact h.typed i (same hi).2
  · intro i hi; rw [(same hi).1]; exact h.sizeLe i (same hi).2
  · intro i hi; rw [(same hi).1]; exact h.blockPos i (same hi).2
  · intro i hi; rw [(same hi).1]; exact h.blockLt i (same hi).2
  · intro i j hi hj heq
    rw [(same hi).1, (same hj).1] at heq
    exact h.blockInj i j (same hi).2 (same hj).2 heq
  · intro b hb
    rw [hbits b hb, h.bits b hb]
    constructor
    · rintro ⟨⟨i, hi, hib⟩, hout⟩
      have hiS : ¬ S i := fun hSi => hout ⟨i, hSi, hib⟩
      exact ⟨i, by rwa [Live, hkeep i hiS], by rw [hkeep i hiS, hib]⟩
    · rintro ⟨i, hi', hib⟩
      have hi := (same hi').2
      rw [(same hi').1] at hib
      refine ⟨⟨i, hi, hib⟩, ?_⟩
      rintro ⟨j, hSj, hjb⟩
      have hij : i = j := h.blockInj i j hi (hS j hSj) (UInt32.toNat.inj (hib.trans hjb.symm))
      exact live hi' (hij ▸ hSj)

end Allocated

/-! ## Directories -/

/-- What the directories that are looked after name. -/
structure Linked (stray : InodeNo → Prop) (tab : Table) (dir : InodeNo → Listing) : Prop where
  root : Kept stray tab 0
  strayLive : ∀ i, stray i → Live tab i
  fits : ∀ d, Kept stray tab d → (dir d).WellNamed
  names : ∀ d j name n, Kept stray tab d → dir d j = some (name, n) →
    ∃ k, n = inodeByte k ∧ k ≠ 0 ∧ Live tab k ∧ ¬ stray k
  once : ∀ d d' j j' name name' n, Kept stray tab d → Kept stray tab d' →
    dir d j = some (name, n) → dir d' j' = some (name', n) → d = d' ∧ j = j'
  distinct : ∀ d j j' name k k', Kept stray tab d → dir d j = some (name, inodeByte k) →
    dir d j' = some (name, inodeByte k') → (tab k).type = (tab k').type → j = j'

namespace Linked

variable {stray : InodeNo → Prop} {tab tab' : Table} {dir dir' : InodeNo → Listing}

theorem kept_congr (hlive : ∀ i, Live tab' i ↔ Live tab i)
    (htype : ∀ i, Live tab i → (tab' i).type = (tab i).type) (d : InodeNo) :
    Kept stray tab' d ↔ Kept stray tab d := by
  constructor
  · rintro ⟨⟨hl, ht⟩, hs⟩
    have hl' := (hlive d).mp hl
    exact ⟨⟨hl', by rw [← htype d hl', ht]⟩, hs⟩
  · rintro ⟨⟨hl, ht⟩, hs⟩
    exact ⟨⟨(hlive d).mpr hl, by rw [htype d hl, ht]⟩, hs⟩

/-- The invariant looks at used flags, types and the listings of kept directories. -/
theorem congr (h : Linked stray tab dir) (hlive : ∀ i, Live tab' i ↔ Live tab i)
    (htype : ∀ i, Live tab i → (tab' i).type = (tab i).type)
    (hdir : ∀ d, Kept stray tab d → dir' d = dir d) : Linked stray tab' dir' := by
  have kept : ∀ d, Kept stray tab' d ↔ Kept stray tab d := kept_congr hlive htype
  refine ⟨(kept 0).mpr h.root, fun i hi => (hlive i).mpr (h.strayLive i hi), ?_, ?_, ?_, ?_⟩
  · intro d hd
    rw [hdir d ((kept d).mp hd)]
    exact h.fits d ((kept d).mp hd)
  · intro d j name n hd he
    rw [hdir d ((kept d).mp hd)] at he
    obtain ⟨k, hn, hk0, hk, hs⟩ := h.names d j name n ((kept d).mp hd) he
    exact ⟨k, hn, hk0, (hlive k).mpr hk, hs⟩
  · intro d d' j j' name name' n hd hd' he he'
    rw [hdir d ((kept d).mp hd)] at he
    rw [hdir d' ((kept d').mp hd')] at he'
    exact h.once d d' j j' name name' n ((kept d).mp hd) ((kept d').mp hd') he he'
  · intro d j j' name k k' hd he he' ht
    have hd := (kept d).mp hd
    rw [hdir d hd] at he he'
    have live : ∀ {i k}, dir d i = some (name, inodeByte k) → Live tab k := by
      intro i k hi
      obtain ⟨k₁, hn, -, hk, -⟩ := h.names d i name _ hd hi
      rwa [inodeByte_injective hn]
    rw [htype k (live he), htype k' (live he')] at ht
    exact h.distinct d j j' name k k' hd he he' ht

theorem named (h : Linked stray tab dir) {d : InodeNo} {j : Slot} {name : CStr} {k : InodeNo}
    (hd : Kept stray tab d) (he : dir d j = some (name, inodeByte k)) :
    k ≠ 0 ∧ Live tab k ∧ ¬ stray k := by
  obtain ⟨k', hn, hk0, hk, hs⟩ := h.names d j name _ hd he
  obtain rfl := inodeByte_injective hn
  exact ⟨hk0, hk, hs⟩

/-- An unused inode is taken; until it is adopted it is stray. -/
theorem take (h : Linked stray tab dir) {k : InodeNo} (hk : ¬ Live tab k) {ino : Inode}
    (hused : ino.used ≠ 0) (hdir : ∀ d, Kept stray tab d → dir' d = dir d) :
    Linked (fun i => stray i ∨ i = k) (assign tab k ino) dir' := by
  have ne : ∀ {i}, Live tab i → i ≠ k := fun hi heq => hk (heq ▸ hi)
  have same : ∀ {i}, Live tab i → assign tab k ino i = tab i :=
    fun hi => assign_of_ne _ _ (ne hi)
  have kept : ∀ d, Kept (fun i => stray i ∨ i = k) (assign tab k ino) d ↔ Kept stray tab d := by
    intro d
    constructor
    · rintro ⟨⟨hl, ht⟩, hs⟩
      have hdk : d ≠ k := fun heq => hs (.inr heq)
      rw [Live, assign_of_ne _ _ hdk] at hl
      rw [assign_of_ne _ _ hdk] at ht
      exact ⟨⟨hl, ht⟩, fun hsd => hs (.inl hsd)⟩
    · rintro ⟨⟨hl, ht⟩, hs⟩
      refine ⟨⟨by rwa [Live, same hl], by rw [same hl, ht]⟩, ?_⟩
      rintro (hsd | hdk)
      · exact hs hsd
      · exact ne hl hdk
  refine ⟨(kept 0).mpr h.root, ?_, ?_, ?_, ?_, ?_⟩
  · rintro i (hi | rfl)
    · have hl := h.strayLive i hi
      rwa [Live, same hl]
    · simpa [Live] using hused
  · intro d hd
    rw [hdir d ((kept d).mp hd)]
    exact h.fits d ((kept d).mp hd)
  · intro d j name n hd he
    rw [hdir d ((kept d).mp hd)] at he
    obtain ⟨i, hn, hi0, hi, hs⟩ := h.names d j name n ((kept d).mp hd) he
    refine ⟨i, hn, hi0, by rwa [Live, same hi], ?_⟩
    rintro (hsi | hik)
    · exact hs hsi
    · exact ne hi hik
  · intro d d' j j' name name' n hd hd' he he'
    rw [hdir d ((kept d).mp hd)] at he
    rw [hdir d' ((kept d').mp hd')] at he'
    exact h.once d d' j j' name name' n ((kept d).mp hd) ((kept d').mp hd') he he'
  · intro d j j' name i i' hd he he' ht
    have hd := (kept d).mp hd
    rw [hdir d hd] at he he'
    rw [same (h.named hd he).2.1, same (h.named hd he').2.1] at ht
    exact h.distinct d j j' name i i' hd he he' ht

/-- A stray inode is looked after from now on: a directory must be empty. -/
theorem adopt {k : InodeNo} (h : Linked (fun i => stray i ∨ i = k) tab dir)
    (hempty : LiveDir tab k → dir k = fun _ => none) : Linked stray tab dir := by
  have kept : ∀ {d}, Kept stray tab d →
      Kept (fun i => stray i ∨ i = k) tab d ∨ (∀ j, dir d j = none) := by
    rintro d ⟨hl, hs⟩
    by_cases hdk : d = k
    · subst hdk
      exact .inr fun j => by rw [hempty hl]
    · refine .inl ⟨hl, ?_⟩
      rintro (hsd | heq)
      · exact hs hsd
      · exact hdk heq
  have entry : ∀ {d j e}, Kept stray tab d → dir d j = some e →
      Kept (fun i => stray i ∨ i = k) tab d := by
    intro d j e hd he
    rcases kept hd with hd | hnone
    · exact hd
    · rw [hnone j] at he
      cases he
  refine ⟨⟨h.root.1, fun hs => h.root.2 (.inl hs)⟩, fun i hi => h.strayLive i (.inl hi), ?_, ?_, ?_,
    ?_⟩
  · intro d hd i name n he
    exact h.fits d (entry hd he) i name n he
  · intro d j name n hd he
    obtain ⟨i, hn, hi0, hi, hs⟩ := h.names d j name n (entry hd he) he
    exact ⟨i, hn, hi0, hi, fun hsi => hs (.inl hsi)⟩
  · intro d d' j j' name name' n hd hd' he he'
    exact h.once d d' j j' name name' n (entry hd he) (entry hd' he') he he'
  · intro d j j' name i i' hd he he' ht
    exact h.distinct d j j' name i i' (entry hd he) he he' ht

/-- No kept directory names `k`. -/
def Unnamed (stray : InodeNo → Prop) (tab : Table) (dir : InodeNo → Listing) (k : InodeNo) :
    Prop :=
  ∀ d j name, Kept stray tab d → dir d j ≠ some (name, inodeByte k)

theorem enter (h : Linked stray tab dir) {d : InodeNo} (hd : Kept stray tab d) {j : Slot}
    {name : CStr} (hname : 1 ≤ name.length ∧ name.length < 30) {k : InodeNo} (hk0 : k ≠ 0)
    (hk : Live tab k) (hks : ¬ stray k) (hun : Unnamed stray tab dir k)
    (hclash : ∀ i k', dir d i = some (name, inodeByte k') → (tab k').type ≠ (tab k).type) :
    Linked stray tab (assign dir d (assign (dir d) j (some (name, inodeByte k)))) := by
  -- an entry of the new listings is the new one or an old one
  have old : ∀ {d' j' name' n}, assign dir d (assign (dir d) j (some (name, inodeByte k))) d' j' =
      some (name', n) → (d' = d ∧ j' = j ∧ name' = name ∧ n = inodeByte k) ∨
        ((d' = d → j' ≠ j) ∧ dir d' j' = some (name', n)) := by
    intro d' j' name' n he
    by_cases hdd : d' = d
    · subst hdd
      rw [assign_same] at he
      by_cases hjj : j' = j
      · subst hjj
        rw [assign_same] at he
        cases he
        exact .inl ⟨rfl, rfl, rfl, rfl⟩
      · rw [assign_of_ne _ _ hjj] at he
        exact .inr ⟨fun _ => hjj, he⟩
    · rw [assign_of_ne _ _ hdd] at he
      exact .inr ⟨fun heq => (hdd heq).elim, he⟩
  refine ⟨h.root, h.strayLive, ?_, ?_, ?_, ?_⟩
  · intro d' hd' i name' n he
    rcases old he with ⟨-, -, rfl, -⟩ | ⟨-, he⟩
    · exact hname
    · exact h.fits d' hd' i name' n he
  · intro d' j' name' n hd' he
    rcases old he with ⟨-, -, -, rfl⟩ | ⟨-, he⟩
    · exact ⟨k, rfl, hk0, hk, hks⟩
    · exact h.names d' j' name' n hd' he
  · intro d₁ d₂ j₁ j₂ name₁ name₂ n hd₁ hd₂ he₁ he₂
    rcases old he₁ with ⟨rfl, rfl, rfl, rfl⟩ | ⟨-, he₁⟩ <;>
      rcases old he₂ with ⟨hdd, hjj, -, hn⟩ | ⟨-, he₂⟩
    · exact ⟨hdd.symm, hjj.symm⟩
    · exact (hun d₂ j₂ name₂ hd₂ he₂).elim
    · exact (hun d₁ j₁ name₁ hd₁ (hn ▸ he₁)).elim
    · exact h.once d₁ d₂ j₁ j₂ name₁ name₂ n hd₁ hd₂ he₁ he₂
  · intro d' i i' name' k₁ k₂ hd' he₁ he₂ ht
    rcases old he₁ with ⟨hdd₁, hi₁, hn₁, hk₁⟩ | ⟨-, he₁⟩ <;>
      rcases old he₂ with ⟨hdd₂, hi₂, hn₂, hk₂⟩ | ⟨-, he₂⟩
    · rw [hi₁, hi₂]
    · rw [inodeByte_injective hk₁] at ht
      exact (hclash i' k₂ (hdd₁ ▸ hn₁ ▸ he₂) ht.symm).elim
    · rw [inodeByte_injective hk₂] at ht
      exact (hclash i k₁ (hdd₂ ▸ hn₂ ▸ he₁) ht).elim
    · exact h.distinct d' i i' name' k₁ k₂ hd' he₁ he₂ ht

theorem leave (h : Linked stray tab dir) (d : InodeNo) (j : Slot) :
    Linked stray tab (assign dir d (assign (dir d) j none)) := by
  have old : ∀ {d' j' e}, assign dir d (assign (dir d) j none) d' j' = some e →
      dir d' j' = some e := by
    intro d' j' e he
    by_cases hdd : d' = d
    · subst hdd
      rw [assign_same] at he
      by_cases hjj : j' = j
      · subst hjj
        rw [assign_same] at he
        cases he
      · rwa [assign_of_ne _ _ hjj] at he
    · rwa [assign_of_ne _ _ hdd] at he
  refine ⟨h.root, h.strayLive, ?_, ?_, ?_, ?_⟩
  · intro d' hd' i name n he
    exact h.fits d' hd' i name n (old he)
  · intro d' j' name n hd' he
    exact h.names d' j' name n hd' (old he)
  · intro d₁ d₂ j₁ j₂ name₁ name₂ n hd₁ hd₂ he₁ he₂
    exact h.once d₁ d₂ j₁ j₂ name₁ name₂ n hd₁ hd₂ (old he₁) (old he₂)
  · intro d' i i' name k₁ k₂ hd' he₁ he₂ ht
    exact h.distinct d' i i' name k₁ k₂ hd' (old he₁) (old he₂) ht

theorem unnamed_leave (h : Linked stray tab dir) {d : InodeNo} (hd : Kept stray tab d) {j : Slot}
    {name : CStr} {k : InodeNo} (he : dir d j = some (name, inodeByte k)) :
    Unnamed stray tab (assign dir d (assign (dir d) j none)) k := by
  intro d' j' name' hd' he'
  by_cases hdd : d' = d
  · subst hdd
    rw [assign_same] at he'
    by_cases hjj : j' = j
    · subst hjj
      rw [assign_same] at he'
      cases he'
    · rw [assign_of_ne _ _ hjj] at he'
      exact hjj (h.once _ _ _ _ _ _ _ hd' hd he' he).2
  · rw [assign_of_ne _ _ hdd] at he'
    exact hdd (h.once _ _ _ _ _ _ _ hd' hd he' he).1

theorem free (h : Linked stray tab dir) {S : InodeNo → Prop} (h0 : ¬ S 0)
    (hstray : ∀ i, S i → ¬ stray i) (hzero : ∀ i, S i → tab' i = Inode.zero)
    (hkeep : ∀ i, ¬ S i → tab' i = tab i)
    (hclosed : ∀ d j name k, Kept stray tab d → ¬ S d → dir d j = some (name, inodeByte k) → ¬ S k)
    (hdir : ∀ d, Kept stray tab d → ¬ S d → dir' d = dir d) : Linked stray tab' dir' := by
  have kept : ∀ {d}, Kept stray tab' d → Kept stray tab d ∧ ¬ S d := by
    rintro d ⟨⟨hl, ht⟩, hs⟩
    have hSd : ¬ S d := by
      intro hSd
      simp [Live, hzero d hSd, Inode.zero] at hl
    rw [Live, hkeep d hSd] at hl
    rw [hkeep d hSd] at ht
    exact ⟨⟨⟨hl, ht⟩, hs⟩, hSd⟩
  have entry : ∀ {d j e}, Kept stray tab' d → dir' d j = some e →
      Kept stray tab d ∧ ¬ S d ∧ dir d j = some e := by
    intro d j e hd he
    obtain ⟨hd, hSd⟩ := kept hd
    exact ⟨hd, hSd, by rwa [← hdir d hd hSd]⟩
  refine ⟨?_, ?_, ?_, ?_, ?_, ?_⟩
  · simpa only [Kept, LiveDir, Live, hkeep 0 h0] using h.root
  · intro i hi
    have hSi : ¬ S i := fun hSi => hstray i hSi hi
    rw [Live, hkeep i hSi]
    exact h.strayLive i hi
  · intro d hd i name n he
    obtain ⟨hd, -, he⟩ := entry hd he
    exact h.fits d hd i name n he
  · intro d j name n hd he
    obtain ⟨hd, hSd, he⟩ := entry hd he
    obtain ⟨k, rfl, hk0, hk, hs⟩ := h.names d j name n hd he
    have hSk := hclosed d j name k hd hSd he
    exact ⟨k, rfl, hk0, by rwa [Live, hkeep k hSk], hs⟩
  · intro d d' j j' name name' n hd hd' he he'
    obtain ⟨hd, -, he⟩ := entry hd he
    obtain ⟨hd', -, he'⟩ := entry hd' he'
    exact h.once d d' j j' name name' n hd hd' he he'
  · intro d j j' name k k' hd he he' ht
    obtain ⟨-, -, he'⟩ := entry hd he'
    obtain ⟨hd, hSd, he⟩ := entry hd he
    rw [hkeep k (hclosed d j name k hd hSd he), hkeep k' (hclosed d j' name k' hd hSd he')] at ht
    exact h.distinct d j j' name k k' hd he he' ht

end Linked

end SevenOS
