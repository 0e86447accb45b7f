import SevenOS.Heap.Sequences

/-! # Enough room or null

What `kmalloc` owes its caller, and when it pays. The size is rounded up in 32 bits:
a request within 7 bytes of the top of the range becomes one of no bytes, and any
free block serves it.
-/

namespace SevenOS.Kheap

open Tiling

variable {area : HeapArea} {m : Memory} {h : Kheap} {size : UInt32}
  {blocks : List Tiling.Block}

/-! ## Rounding -/

theorem and_mask (x : Nat) (hx : x < 2 ^ 32) : x &&& (2 ^ 32 - 8) = 8 * (x / 8) := by
  have hmask : 2 ^ 32 - 8 = (2 ^ 29 - 1) * 2 ^ 3 := by decide
  have hdiv : 8 * (x / 8) = x / 2 ^ 3 * 2 ^ 3 := by omega
  rw [hmask, hdiv]
  apply Nat.eq_of_testBit_eq
  intro i
  rw [Nat.testBit_and, Nat.testBit_mul_two_pow, Nat.testBit_mul_two_pow,
    Nat.testBit_two_pow_sub_one, Nat.testBit_div_two_pow]
  by_cases hlow : 3 ≤ i
  · by_cases hhigh : i < 32
    · simp [hlow, show i - 3 < 29 by omega]
    · have hnone : x.testBit i = false :=
        Nat.testBit_lt_two_pow (Nat.lt_of_lt_of_le hx (Nat.pow_le_pow_right (by decide) (by omega)))
      simp [hlow, hnone]
  · simp [hlow]

/-- The size rounded up to a multiple of 8, as an unbounded integer. -/
def roundUp8 (n : Nat) : Nat := 8 * ((n + 7) / 8)

/-- Rounding is right up to the last multiple of 8 in 32 bits; then it gives 0. -/
theorem align8_toNat (size : UInt32) : (align8 size).toNat =
    if size.toNat ≤ 2 ^ 32 - 8 then roundUp8 size.toNat else 0 := by
  have hlt := size.toNat_lt
  have hmask : (~~~7 : UInt32).toNat = 2 ^ 32 - 8 := by decide
  rw [align8, UInt32.toNat_and, hmask, and_mask _ (UInt32.toNat_lt _), UInt32.toNat_add]
  change 8 * ((size.toNat + 7) % 2 ^ 32 / 8) = _
  unfold roundUp8
  split
  · omega
  · omega

/-! ## The blocks of a heap -/

/-- The blocks that `kmalloc` walks over, once the heap is laid out. -/
def Blocks (area : HeapArea) (h : Kheap) (blocks : List Tiling.Block) : Prop :=
  Reached (heapInit area h).memory (heapInit area h).heapHead blocks

theorem Reached.size_lt {p : Nat} (h : Reached m p blocks) {b : Tiling.Block} (hb : b ∈ blocks) :
    b.size < 2 ^ 32 := by
  induction blocks generalizing p with
  | nil => exact absurd hb List.not_mem_nil
  | cons first rest ih =>
      obtain ⟨-, rfl, hrest⟩ := h
      rcases List.mem_cons.mp hb with rfl | hb
      · exact UInt32.toNat_lt _
      · exact ih hrest hb

theorem Managed.blocks_heap {r : HeapRun} (h : Managed area r blocks) : Blocks area r.heap blocks := by
  have hinit : heapInit area r.heap = r.heap := by rw [heapInit, if_pos h.head_ne]
  rw [Blocks, hinit]
  exact h.represents.reached

/-- A pointer that is not null is the payload of a block that was free and now is not, with
room for `size` bytes; blocks in use stay; and null means that nothing was asked for or that
no free block is large enough. -/
def GivesRoom (area : HeapArea) (h : Kheap) (size : UInt32) (blocks : List Tiling.Block) : Prop :=
  ∃ h' ptr blocks', kmalloc area h size = some (h', ptr) ∧ Blocks area h' blocks' ∧
    (ptr ≠ 0 → ∃ b ∈ blocks, b.free = true ∧ ptr = b.addr + 16 ∧
      ∃ b' ∈ blocks', b'.addr = b.addr ∧ b'.free = false ∧ size.toNat ≤ b'.size) ∧
    (∀ b ∈ blocks, b.free = false → b ∈ blocks') ∧
    (ptr = 0 ↔ size = 0 ∨ ∀ b ∈ blocks, b.free = true → b.size < roundUp8 size.toNat)

theorem givesRoom_zero (hblocks : Blocks area h blocks) : GivesRoom area h 0 blocks :=
  ⟨h, 0, blocks, rfl, hblocks, fun hne => absurd rfl hne, fun _ hb _ => hb,
    ⟨fun _ => .inl rfl, fun _ => rfl⟩⟩

/-- `kmalloc` keeps its promise when the size can be rounded, or when it has nothing to give. -/
theorem Managed.givesRoom_iff {r : HeapRun} (h : Managed area r blocks) (hsize : size ≠ 0) :
    GivesRoom area r.heap size blocks ↔
      size.toNat ≤ 2 ^ 32 - 8 ∨ ∀ b ∈ blocks, b.free = false := by
  obtain ⟨heap, ptr, blocks', hrun, hserved, hmanaged⟩ := h.kmalloc_served hsize
  have halign := align8_toNat size
  constructor
  · rintro ⟨heap', ptr', -, hrun', -, -, -, hnull⟩
    obtain ⟨rfl, rfl⟩ : heap = heap' ∧ ptr = ptr' := by
      rw [hrun] at hrun'
      exact Prod.mk.inj (Option.some.inj hrun')
    by_contra hcond
    rw [not_or] at hcond
    rw [if_neg hcond.1] at halign
    -- a request of this kind has to be refused, but any free block is taken for it
    have hsmall : ∀ b ∈ blocks, b.free = true → b.size < roundUp8 size.toNat := by
      intro b hb _
      have hlt := h.blocks_heap.size_lt hb
      unfold roundUp8
      omega
    have hptr := hnull.mpr (.inr hsmall)
    rcases hserved with ⟨-, -, hnone⟩ | ⟨front, b, rest, -, -, -, -, -, hptr', -⟩
    · refine hcond.2 fun b hb => ?_
      by_contra hfree
      have := hnone b hb (by simpa using hfree)
      omega
    · omega
  · intro hcond
    refine ⟨heap, ptr, blocks', hrun, hmanaged.blocks_heap, ?_⟩
    have hkeeps : ∀ b ∈ blocks, b.free = false → b ∈ blocks' := fun _ hb hused =>
      hserved.keeps hb hused
    rcases hserved with ⟨rfl, rfl, hnone⟩ |
      ⟨front, b, rest, size', extra, rfl, hfree, hfits, rfl, hle, -, rfl⟩
    · refine ⟨fun hne => absurd rfl hne, hkeeps, fun _ => .inr fun b hb hfree => ?_, fun _ => rfl⟩
      rcases hcond with hround | hused
      · rw [if_pos hround] at halign
        exact halign ▸ hnone b hb hfree
      · rw [hused b hb] at hfree
        cases hfree
    · have hb : b ∈ front ++ b :: rest := by simp
      have hround : size.toNat ≤ 2 ^ 32 - 8 := by
        refine hcond.resolve_right fun hused => ?_
        rw [hused b hb] at hfree
        cases hfree
      rw [if_pos hround] at halign
      have hup : size.toNat ≤ roundUp8 size.toNat := by
        unfold roundUp8
        omega
      have hroom : size.toNat ≤ size' := by omega
      refine ⟨fun _ => ⟨b, hb, hfree, rfl, ⟨b.addr, size', false⟩, by simp, rfl, rfl, hroom⟩,
        hkeeps, ?_⟩
      constructor
      · intro h0
        omega
      · rintro (h0 | hsmall)
        · exact absurd h0 hsize
        · have := hsmall b hb hfree
          omega

/-- In every state that `kmalloc` and `kfree` of allocated pointers lead to. -/
theorem kmalloc_givesRoom {calls : List HeapCall} (hlegal : (HeapRun.start m).Legal area calls)
    {r : HeapRun} (hrun : (HeapRun.start m).run area calls = some r) (size : UInt32) :
    ∃ blocks, Blocks area r.heap blocks ∧ (GivesRoom area r.heap size blocks ↔
      size.toNat ≤ 2 ^ 32 - 8 ∨ ∀ b ∈ blocks, b.free = false) := by
  obtain ⟨r', hrun', hcases⟩ := start_run_cases hlegal
  obtain rfl : r' = r := Option.some.inj (hrun'.symm.trans hrun)
  obtain ⟨r₀, blocks, hheap, hmanaged⟩ : ∃ r₀ blocks, heapInit area r'.heap = heapInit area r₀.heap ∧
      Managed area r₀ blocks := by
    rcases hcases with rfl | ⟨blocks, h⟩
    · obtain ⟨m', hinit, h⟩ := start_managed area m
      refine ⟨_, _, ?_, h⟩
      rw [HeapRun.start, hinit, heapInit, if_pos h.head_ne]
    · exact ⟨r', blocks, rfl, h⟩
  have hblocks : Blocks area r'.heap blocks := by
    rw [Blocks, hheap]
    exact hmanaged.blocks_heap
  refine ⟨blocks, hblocks, ?_⟩
  by_cases hsize : size = 0
  · subst hsize
    exact iff_of_true (givesRoom_zero hblocks) (.inl (by decide))
  · rw [← hmanaged.givesRoom_iff hsize, GivesRoom, GivesRoom, ← kmalloc_heapInit hsize, hheap,
      kmalloc_heapInit hsize]

/-- The first request of all, for five bytes. -/
theorem kmalloc_givesRoom_first :
    ∃ blocks, Blocks imageArea (HeapRun.start ⟨fun _ => 0⟩).heap blocks ∧
      (GivesRoom imageArea (HeapRun.start ⟨fun _ => 0⟩).heap 5 blocks ↔
        (5 : UInt32).toNat ≤ 2 ^ 32 - 8 ∨ ∀ b ∈ blocks, b.free = false) :=
  @kmalloc_givesRoom imageArea ⟨fun _ => 0⟩ [] trivial _ rfl 5

/-- A request for all bytes but one gets a pointer to none. -/
theorem not_kmalloc_givesRoom :
    ¬ ∀ (area : HeapArea) (m : Memory) (calls : List HeapCall) (r : HeapRun) (size : UInt32)
      (blocks : List Tiling.Block), (HeapRun.start m).Legal area calls →
      (HeapRun.start m).run area calls = some r → Blocks area r.heap blocks →
      GivesRoom area r.heap size blocks := by
  intro hall
  obtain ⟨m', hinit, hmanaged⟩ := start_managed imageArea ⟨fun _ => 0⟩
  have hblocks : Blocks imageArea ⟨⟨fun _ => 0⟩, 0⟩ [⟨imageArea.base, 65520, true⟩] := by
    rw [Blocks, hinit]
    exact hmanaged.represents.reached
  obtain ⟨h', ptr, blocks', hrun, -, -, -, hnull⟩ :=
    hall imageArea ⟨fun _ => 0⟩ [] _ 0xFFFFFFFF _ trivial rfl hblocks
  have hptr : (kmalloc imageArea ⟨⟨fun _ => 0⟩, 0⟩ 0xFFFFFFFF).map Prod.snd = some 0x20010 := by
    decide +kernel
  have hzero : ptr = 0 := by
    refine hnull.mpr (.inr fun b hb _ => ?_)
    obtain rfl := List.mem_singleton.mp hb
    decide
  change kmalloc imageArea ⟨⟨fun _ => 0⟩, 0⟩ 0xFFFFFFFF = some (h', ptr) at hrun
  rw [hrun, hzero] at hptr
  exact absurd hptr (by simp)

end SevenOS.Kheap
