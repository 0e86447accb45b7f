import SevenOS.Heap.Blocks

/-! # Sequences of `kmalloc` and `kfree`

The invariant `Managed` of a run: memory represents a list of blocks without free
neighbours whose payloads in use are the allocations not yet freed. It holds after
the first call that allocates, since only that call lays out the heap, and every
call keeps it.
-/

namespace SevenOS.Kheap

open Tiling

section Calls

variable {area : HeapArea} {m : Memory} {front rest : List Tiling.Block} {b : Tiling.Block}

/-! ## `kmalloc` -/

theorem heapInit_rep (area : HeapArea) (m : Memory) :
    ∃ m', heapInit area ⟨m, 0⟩ = ⟨m', area.base⟩ ∧ Rep area m' [⟨area.base, 65520, true⟩] := by
  obtain ⟨m', hm'⟩ : ∃ m', m' = setPrev (setNext (setFree (setSize m area.base
      (heapBytes - headerBytes)) area.base true) area.base 0) area.base 0 := ⟨_, rfl⟩
  have hheader : header m' area.base = ⟨65520, true, 0, 0⟩ := by
    have hself := Clear.refl area.base
    have hzero : 0 < 2 ^ 32 := by decide
    have hsize : heapBytes - headerBytes = 65520 := by decide
    rw [hm', hsize]
    simp (disch := assumption) only [header_setSize, header_setFree, header_setNext,
      header_setPrev, if_true]
  refine ⟨m', by rw [heapInit, if_neg (by simp), hm'], ?_⟩
  have hend : area.base + 16 + 65520 = area.base + 65536 := by omega
  refine ⟨⟨rfl, hend⟩, ⟨by simp only [hheader], by simp only [hheader]; rfl, trivial⟩, ?_, ?_, ?_⟩
  · intro b hb
    obtain rfl := List.mem_singleton.mp hb
    simp only [hheader]
    decide
  · intro b hb
    obtain rfl := List.mem_singleton.mp hb
    simp only [hheader]
  · intro b hb
    obtain rfl := List.mem_singleton.mp hb
    exact ⟨8190, rfl⟩

/-- `kmalloc` cuts when a header and eight bytes are left over. -/
theorem Rep.cut_iff (h : Rep area m (front ++ b :: rest)) {size : UInt32}
    (hsize : size.toNat ≤ b.size) :
    (header m b.addr).size ≥ size + headerBytes + 8 ↔ size.toNat + 24 ≤ b.size := by
  have hb := h.size b (by simp)
  obtain ⟨-, hstop, hfits⟩ := h.bounds
  have hbase := (h.tiles.bounds (b := b) (by simp)).1
  rw [ge_iff_le, UInt32.le_iff_toNat_le, hb, UInt32.toNat_add, UInt32.toNat_add]
  change (((size.toNat + 16) % 2 ^ 32 + 8) % 2 ^ 32 ≤ b.size) ↔ _
  have := size.toNat_lt
  omega

theorem Rep.take (h : Rep area m (front ++ b :: rest)) (hfree : b.free = true) {size : UInt32}
    (h8 : 8 ∣ size.toNat) (hsize : size.toNat ≤ b.size) :
    ∃ size' extra, size.toNat ≤ size' ∧ (∀ x ∈ extra, x.free = true) ∧
      Rep area (takeBlock m b.addr size) (front ++ ⟨b.addr, size', false⟩ :: (extra ++ rest)) ∧
      ∀ _ : Settled (front ++ b :: rest),
        Settled (front ++ ⟨b.addr, size', false⟩ :: (extra ++ rest)) := by
  have hroom := h.cut_iff hsize
  unfold takeBlock
  by_cases hcut : size.toNat + 24 ≤ b.size
  · rw [if_pos (hroom.mpr hcut)]
    refine ⟨size.toNat, [⟨b.addr + 16 + size.toNat, b.size - size.toNat - 16, true⟩], le_refl _,
      by simp, (h.cut h8 (by omega)).mark false, fun hsettled => hsettled.cut hfree rfl⟩
  · rw [if_neg fun hge => hcut (hroom.mp hge)]
    exact ⟨b.size, [], hsize, by simp, h.mark false, fun hsettled => hsettled.take rfl⟩

/-- The search ends: with null and the heap as it was, when no free block is large enough, or
with one that is. -/
theorem search_spec (size : UInt32) (h : Rep area m (front ++ rest)) {fuel : Nat}
    (hfuel : rest.length < fuel) :
    (search size fuel m (headAddr rest) = some (m, 0) ∧
        ∀ b ∈ rest, b.free = true → b.size < size.toNat) ∨
      ∃ mid b tail, rest = mid ++ b :: tail ∧ b.free = true ∧ size.toNat ≤ b.size ∧
        search size fuel m (headAddr rest) = some (takeBlock m b.addr size, b.addr + 16) := by
  induction rest generalizing front fuel with
  | nil =>
      obtain ⟨fuel, rfl⟩ : ∃ k, fuel = k + 1 := ⟨fuel - 1, by omega⟩
      exact Or.inl ⟨rfl, by simp⟩
  | cons b rest ih =>
      obtain ⟨fuel, rfl⟩ : ∃ k, fuel = k + 1 := ⟨fuel - 1, by omega⟩
      have hpos := h.bounds.1
      have hfree := h.free b (by simp)
      have hsize := h.size b (by simp)
      rw [headAddr_cons, search, if_neg (by omega)]
      by_cases hfit : b.free = true ∧ size.toNat ≤ b.size
      · refine Or.inr ⟨[], b, rest, rfl, hfit.1, hfit.2, ?_⟩
        rw [if_pos]
        exact ⟨hfree.trans hfit.1, by rw [ge_iff_le, UInt32.le_iff_toNat_le, hsize]; exact hfit.2⟩
      · have hskip : ¬((header m b.addr).free = true ∧ (header m b.addr).size ≥ size) := by
          rintro ⟨hf, hs⟩
          rw [ge_iff_le, UInt32.le_iff_toNat_le, hsize] at hs
          exact hfit ⟨hfree ▸ hf, hs⟩
        rw [if_neg hskip, h.next_eq]
        have hassoc : front ++ b :: rest = (front ++ [b]) ++ rest := by simp
        rw [List.length_cons] at hfuel
        rcases ih (hassoc ▸ h) (show rest.length < fuel by omega) with
          ⟨hnull, hsmall⟩ | ⟨mid, c, tail, hrest, hfound⟩
        · refine Or.inl ⟨hnull, fun c hc hcfree => ?_⟩
          rcases List.mem_cons.mp hc with rfl | hc
          · exact Nat.lt_of_not_le fun hle => hfit ⟨hcfree, hle⟩
          · exact hsmall c hc hcfree
        · exact Or.inr ⟨b :: mid, c, tail, by rw [hrest, List.cons_append], hfound⟩

theorem Rep.length_lt (h : Rep area m rest) : rest.length < searchFuel := by
  have := h.tiles.length_le
  rw [searchFuel]
  omega

theorem Rep.headAddr_eq (h : Rep area m rest) : headAddr rest = area.base := by
  cases rest with
  | nil =>
      have : area.base = area.base + 65536 := h.tiles
      omega
  | cons b rest => exact h.tiles.1

theorem align8_dvd (size : UInt32) : 8 ∣ (align8 size).toNat := by
  have hmask : (~~~7 : UInt32).toNat = 2 ^ 32 - 8 := by decide
  refine Nat.dvd_of_mod_eq_zero ?_
  rw [align8, UInt32.toNat_and, hmask, show (8 : Nat) = 2 ^ 3 from rfl, Nat.and_mod_two_pow]
  simp

/-! ## `kfree` -/

/-- First half of `coalesce`: a free next block is absorbed. -/
theorem Rep.mergeNext (h : Rep area m (front ++ b :: rest)) (hrest : Settled rest) :
    ∃ b' rest', b'.addr = b.addr ∧ b'.free = b.free ∧ Settled rest' ∧
      (∀ c ∈ rest'.head?, c.free = false) ∧ held 16 rest' = held 16 rest ∧
      (∀ x ∈ rest, x.free = false → x ∈ rest') ∧ (∀ x ∈ rest', x ∈ rest) ∧
      Rep area (if (header m b.addr).next ≠ 0 ∧ (header m (header m b.addr).next).free = true then
        Kheap.absorb m b.addr (header m b.addr).next else m) (front ++ b' :: rest') := by
  rw [h.next_eq]
  cases rest with
  | nil =>
      refine ⟨b, [], rfl, rfl, hrest, by simp, rfl, by simp, by simp, ?_⟩
      rw [if_neg (by simp)]
      exact h
  | cons c rest =>
      have hassoc : front ++ b :: c :: rest = (front ++ [b]) ++ c :: rest := by simp
      have hc : Rep area m ((front ++ [b]) ++ c :: rest) := hassoc ▸ h
      have hpos := hc.bounds.1
      have hfree := hc.free c (by simp)
      obtain ⟨htail, hhead⟩ := settled_cons.mp hrest
      rw [headAddr_cons, hfree]
      by_cases hcfree : c.free = true
      · rw [if_pos ⟨by omega, hcfree⟩]
        refine ⟨⟨b.addr, b.size + 16 + c.size, b.free⟩, rest, rfl, rfl, htail, ?_,
          (held_cons_free rest hcfree).symm, ?_, fun x hx => List.mem_cons_of_mem _ hx, h.absorb⟩
        · intro d hd
          simpa [hcfree] using hhead d hd
        · intro x hx hused
          rcases List.mem_cons.mp hx with rfl | hx
          · simp [hcfree] at hused
          · exact hx
      · rw [if_neg fun hboth => hcfree hboth.2]
        refine ⟨b, c :: rest, rfl, rfl, hrest, ?_, rfl, fun x hx _ => hx, fun x hx => hx, h⟩
        simpa using hcfree

/-- Second half of `coalesce`: a free previous block absorbs this one. -/
theorem Rep.mergePrev (h : Rep area m (front ++ b :: rest)) (hb : b.free = true)
    (hfront : Settled front) :
    ∃ front' b', b'.free = true ∧ Settled front' ∧
      (∀ a ∈ front'.getLast?, a.free = false) ∧ held 16 front' = held 16 front ∧
      (∀ x ∈ front, x.free = false → x ∈ front') ∧
      Rep area (if (header m b.addr).prev ≠ 0 ∧ (header m (header m b.addr).prev).free = true then
        Kheap.absorb m (header m b.addr).prev b.addr else m) (front' ++ b' :: rest) := by
  rw [h.prev_eq]
  rcases List.eq_nil_or_concat' front with rfl | ⟨init, a, rfl⟩
  · refine ⟨[], b, hb, hfront, by simp, rfl, by simp, ?_⟩
    rw [if_neg (by simp)]
    exact h
  · have hassoc : (init ++ [a]) ++ b :: rest = init ++ a :: b :: rest := by simp
    have ha : Rep area m (init ++ a :: b :: rest) := hassoc ▸ h
    have hpos := ha.bounds.1
    have hfree := ha.free a (by simp)
    obtain ⟨hinit, -, hlast⟩ := settled_append.mp hfront
    have hprev : ((init ++ [a]).map Tiling.Block.addr).getLastD 0 = a.addr := by simp
    rw [hprev, hfree]
    by_cases hafree : a.free = true
    · rw [if_pos ⟨by omega, hafree⟩]
      refine ⟨init, ⟨a.addr, a.size + 16 + b.size, a.free⟩, hafree, hinit, ?_, ?_, ?_, ha.absorb⟩
      · intro x hx
        simpa [hafree] using hlast x hx
      · rw [held_append, held_cons_free [] hafree]
        simp [held]
      · intro x hx hused
        rcases List.mem_append.mp hx with hx | hx
        · exact hx
        · obtain rfl := List.mem_singleton.mp hx
          simp [hafree] at hused
    · rw [if_neg fun hboth => hafree hboth.2]
      refine ⟨init ++ [a], b, hb, hfront, ?_, rfl, fun x hx _ => hx, h⟩
      simpa using hafree

/-- A block in use is freed and joined with its free neighbours; the other blocks in use
stay as they are. -/
theorem Rep.release (h : Rep area m (front ++ b :: rest)) (hsettled : Settled (front ++ b :: rest)) :
    ∃ blocks, Rep area (coalesce (setFree m b.addr true) b.addr) blocks ∧ Settled blocks ∧
      held 16 blocks = held 16 front ++ held 16 rest ∧
      ∀ x ∈ front ++ rest, x.free = false → x ∈ blocks := by
  obtain ⟨hfront, hrest, -⟩ := settled_append.mp hsettled
  have hmark := h.mark true
  obtain ⟨b', rest', haddr, hfree, hrest', hhead, hheld, hkeep, -, hnext⟩ :=
    hmark.mergeNext (settled_cons.mp hrest).1
  obtain ⟨front', b'', hfree', hfront', hlast, hheld', hkeep', hprev⟩ :=
    hnext.mergePrev hfree hfront
  refine ⟨front' ++ b'' :: rest', ?_, hfront'.between b'' hrest' hlast hhead, ?_, ?_⟩
  · rw [haddr] at hprev
    exact hprev
  · rw [held_append, held_cons_free rest' hfree', hheld, hheld']
  · intro x hx hused
    rcases List.mem_append.mp hx with hx | hx
    · exact List.mem_append_left _ (hkeep' x hx hused)
    · exact List.mem_append_right _ (List.mem_cons_of_mem _ (hkeep x hx hused))

end Calls

/-! ## Runs -/

/-- Memory represents blocks without free neighbours, and the payloads in use are the
allocations not yet freed, each large enough for its request. -/
structure Managed (area : HeapArea) (r : HeapRun) (blocks : List Tiling.Block) : Prop where
  head : r.heap.heapHead = area.base
  rep : Rep area r.heap.memory blocks
  settled : Settled blocks
  live : (r.live.map Allocation.ptr).Perm (held 16 blocks)
  roomy : ∀ a ∈ r.live, ∃ b ∈ blocks, b.free = false ∧ a.ptr = b.addr + 16 ∧
    (align8 a.asked).toNat ≤ b.size

theorem Managed.head_ne {area : HeapArea} {r : HeapRun} {blocks : List Tiling.Block}
    (h : Managed area r blocks) : r.heap.heapHead ≠ 0 := by
  have := area.pos
  rw [h.head]
  omega

/-- What `kmalloc` of a nonzero size did: the pointer it returned and the blocks afterwards. -/
def Served (size : UInt32) (blocks : List Tiling.Block) (ptr : Nat)
    (blocks' : List Tiling.Block) : Prop :=
  ptr = 0 ∧ blocks' = blocks ∧ (∀ b ∈ blocks, b.free = true → b.size < (align8 size).toNat) ∨
    ∃ front b rest size' extra, blocks = front ++ b :: rest ∧ b.free = true ∧
      (align8 size).toNat ≤ b.size ∧ ptr = b.addr + 16 ∧ (align8 size).toNat ≤ size' ∧
      (∀ x ∈ extra, x.free = true) ∧
      blocks' = front ++ ⟨b.addr, size', false⟩ :: (extra ++ rest)

theorem Served.keeps {size : UInt32} {blocks blocks' : List Tiling.Block} {ptr : Nat}
    (h : Served size blocks ptr blocks') {x : Tiling.Block} (hx : x ∈ blocks)
    (hused : x.free = false) : x ∈ blocks' := by
  rcases h with ⟨-, rfl, -⟩ | ⟨front, b, rest, size', extra, rfl, hfree, -, -, -, -, rfl⟩
  · exact hx
  · simp only [List.mem_append, List.mem_cons] at hx ⊢
    rcases hx with hx | rfl | hx
    · exact .inl hx
    · rw [hfree] at hused
      cases hused
    · exact .inr (.inr (.inr hx))

/-- `kmalloc` returns, a free block when there is one, and keeps the heap in order. -/
theorem Managed.kmalloc_served {area : HeapArea} {r : HeapRun} {blocks : List Tiling.Block}
    (h : Managed area r blocks) {size : UInt32} (hsize : size ≠ 0) :
    ∃ heap ptr blocks', Kheap.kmalloc area r.heap size = some (heap, ptr) ∧
      Served size blocks ptr blocks' ∧
      Managed area ⟨heap, if ptr = 0 then r.live else ⟨ptr, size⟩ :: r.live⟩ blocks' := by
  have hinit : heapInit area r.heap = r.heap := by rw [heapInit, if_pos h.head_ne]
  have hhead : r.heap.heapHead = headAddr blocks := by rw [h.head, h.rep.headAddr_eq]
  have hrep : Rep area r.heap.memory ([] ++ blocks) := h.rep
  rcases search_spec (align8 size) hrep h.rep.length_lt with
    ⟨hnull, hsmall⟩ | ⟨front, b, rest, rfl, hfree, hfits, hfound⟩
  · refine ⟨r.heap, 0, blocks, ?_, .inl ⟨rfl, rfl, hsmall⟩, h⟩
    simp only [Kheap.kmalloc, if_neg hsize, hinit, hhead, hnull]
    rw [← hhead]
  · obtain ⟨size', extra, hle, hextra, htaken, hsettled⟩ := h.rep.take hfree (align8_dvd size) hfits
    refine ⟨⟨takeBlock r.heap.memory b.addr (align8 size), area.base⟩, b.addr + 16,
      front ++ ⟨b.addr, size', false⟩ :: (extra ++ rest), ?_,
      .inr ⟨front, b, rest, size', extra, rfl, hfree, hfits, rfl, hle, hextra, rfl⟩, ?_⟩
    · simp only [Kheap.kmalloc, if_neg hsize, hinit, hhead, hfound]
      rw [← hhead, h.head]
    rw [if_neg (by omega)]
    refine ⟨rfl, htaken, hsettled h.settled, ?_, ?_⟩
    · have hheld : held 16 extra = [] := by
        rw [List.eq_nil_iff_forall_not_mem]
        intro p hp
        obtain ⟨x, hx, hused, -⟩ := mem_held.mp hp
        rw [hextra x hx] at hused
        exact absurd hused (by decide)
      have hlive := h.live
      rw [held_append, held_cons_free rest hfree] at hlive
      rw [held_append, held_cons_used _ rfl, held_append, hheld, List.nil_append, List.map_cons]
      exact (hlive.cons _).trans List.perm_middle.symm
    · intro a ha
      rcases List.mem_cons.mp ha with rfl | ha
      · exact ⟨⟨b.addr, size', false⟩, by simp, rfl, rfl, hle⟩
      · obtain ⟨x, hx, hused, hptr, hroom⟩ := h.roomy a ha
        refine ⟨x, ?_, hused, hptr, hroom⟩
        simp only [List.mem_append, List.mem_cons] at hx ⊢
        rcases hx with hx | rfl | hx
        · exact Or.inl hx
        · rw [hfree] at hused
          exact absurd hused (by decide)
        · exact Or.inr (Or.inr (Or.inr hx))

theorem Managed.kmalloc {area : HeapArea} {r : HeapRun} {blocks : List Tiling.Block}
    (h : Managed area r blocks) (size : UInt32) :
    ∃ r' blocks', r.step area (.kmalloc size) = some r' ∧ Managed area r' blocks' := by
  by_cases hzero : size = 0
  · exact ⟨r, blocks, by simp [HeapRun.step, Kheap.kmalloc, hzero], h⟩
  · obtain ⟨heap, ptr, blocks', hrun, -, hmanaged⟩ := h.kmalloc_served hzero
    exact ⟨_, blocks', by rw [HeapRun.step, hrun], hmanaged⟩

theorem live_erase (live : List Allocation) (ptr : Nat) :
    (live.eraseP (·.ptr = ptr)).map Allocation.ptr = (live.map Allocation.ptr).erase ptr := by
  rw [List.erase_eq_eraseP, List.eraseP_map]
  congr 2
  funext x
  rw [Function.comp_apply, beq_eq_decide]
  exact decide_eq_decide.mpr eq_comm

/-- `kfree` of a pointer currently allocated keeps the heap in order, and the other blocks in
use. -/
theorem Managed.kfree_keeps {area : HeapArea} {r : HeapRun} {blocks : List Tiling.Block}
    (h : Managed area r blocks) {ptr : Nat} (hptr : ∃ a ∈ r.live, a.ptr = ptr) :
    ∃ r' blocks', r.step area (.kfree ptr) = some r' ∧ Managed area r' blocks' ∧
      ∀ x ∈ blocks, x.free = false → x.addr + 16 ≠ ptr → x ∈ blocks' := by
  obtain ⟨a, ha, rfl⟩ := hptr
  obtain ⟨b, hb, hused, haddr, -⟩ := h.roomy a ha
  obtain ⟨front, rest, rfl⟩ := List.append_of_mem hb
  obtain ⟨blocks', hrep, hsettled, hheld, hkeep⟩ := h.rep.release h.settled
  have hblock : a.ptr - 16 = b.addr := by omega
  have herase := live_erase r.live a.ptr
  have hothers : ∀ x ∈ front ++ b :: rest, x.free = false → x.addr + 16 ≠ a.ptr →
      x ∈ blocks' := by
    intro x hx hxused hne
    refine hkeep x ?_ hxused
    simp only [List.mem_append, List.mem_cons] at hx ⊢
    rcases hx with hx | rfl | hx
    · exact Or.inl hx
    · exact absurd haddr.symm hne
    · exact Or.inr hx
  refine ⟨_, blocks', rfl, ⟨?_, ?_, hsettled, ?_, ?_⟩, hothers⟩
  · rw [Kheap.kfree, if_neg (by omega)]
    exact h.head
  · rw [Kheap.kfree, if_neg (by omega), hblock]
    exact hrep
  · have hlive := h.live
    rw [held_append, held_cons_used rest hused] at hlive
    rw [herase, hheld, haddr]
    have := (hlive.trans List.perm_middle).erase (b.addr + 16)
    rwa [List.erase_cons_head] at this
  · intro x hx
    obtain ⟨c, hc, hcused, hcptr, hroom⟩ := h.roomy x (List.mem_of_mem_eraseP hx)
    have hnodup := h.live.nodup_iff.mpr (h.rep.tiles.held_nodup (by decide))
    have hmem : x.ptr ∈ (r.live.map Allocation.ptr).erase a.ptr :=
      herase ▸ List.mem_map_of_mem hx
    have hne := (hnodup.mem_erase_iff.mp hmem).1
    exact ⟨c, hothers c hc hcused (hcptr ▸ hne), hcused, hcptr, hroom⟩

theorem Managed.kfree {area : HeapArea} {r : HeapRun} {blocks : List Tiling.Block}
    (h : Managed area r blocks) {ptr : Nat} (hptr : ∃ a ∈ r.live, a.ptr = ptr) :
    ∃ r' blocks', r.step area (.kfree ptr) = some r' ∧ Managed area r' blocks' := by
  obtain ⟨r', blocks', hstep, hmanaged, -⟩ := h.kfree_keeps hptr
  exact ⟨r', blocks', hstep, hmanaged⟩

/-- Every call of a legal sequence returns and keeps the heap in order. -/
theorem Managed.run {area : HeapArea} {calls : List HeapCall} {r : HeapRun}
    {blocks : List Tiling.Block} (h : Managed area r blocks) (hlegal : r.Legal area calls) :
    ∃ r' blocks', r.run area calls = some r' ∧ Managed area r' blocks' := by
  induction calls generalizing r blocks with
  | nil => exact ⟨r, blocks, rfl, h⟩
  | cons call calls ih =>
      obtain ⟨hfreed, hrest⟩ := hlegal
      obtain ⟨r', blocks', hstep, h'⟩ :
          ∃ r' blocks', r.step area call = some r' ∧ Managed area r' blocks' := by
        cases call with
        | kmalloc size => exact h.kmalloc size
        | kfree ptr => exact h.kfree (hfreed ptr rfl)
      obtain ⟨r'', blocks'', hrun, h''⟩ := ih h' (hrest r' hstep)
      exact ⟨r'', blocks'', by rw [HeapRun.run, hstep]; exact hrun, h''⟩

/-- The heap once it is laid out. -/
theorem start_managed (area : HeapArea) (m : Memory) :
    ∃ m', heapInit area ⟨m, 0⟩ = ⟨m', area.base⟩ ∧
      Managed area ⟨⟨m', area.base⟩, []⟩ [⟨area.base, 65520, true⟩] := by
  obtain ⟨m', hinit, hrep⟩ := heapInit_rep area m
  exact ⟨m', hinit, rfl, hrep, List.isChain_singleton _, List.Perm.refl _, fun a ha =>
    absurd ha List.not_mem_nil⟩

/-- `kmalloc` lays out the heap before anything else. -/
theorem kmalloc_heapInit {area : HeapArea} {h : Kheap} {size : UInt32} (hsize : size ≠ 0) :
    Kheap.kmalloc area (heapInit area h) size = Kheap.kmalloc area h size := by
  have hagain : heapInit area (heapInit area h) = heapInit area h := by
    by_cases h0 : h.heapHead ≠ 0
    · simp only [heapInit, if_pos h0]
    · have hhead : (heapInit area h).heapHead ≠ 0 := by
        have := area.pos
        rw [heapInit, if_neg h0]
        change area.base ≠ 0
        omega
      rw [heapInit, if_pos hhead]
  rw [Kheap.kmalloc, Kheap.kmalloc, if_neg hsize, if_neg hsize, hagain]

theorem start_kmalloc (area : HeapArea) (m : Memory) {size : UInt32} (hsize : size ≠ 0) :
    ∃ r blocks, (HeapRun.start m).step area (.kmalloc size) = some r ∧ Managed area r blocks := by
  obtain ⟨m', hinit, hmanaged⟩ := start_managed area m
  obtain ⟨r, blocks, hstep, h⟩ := hmanaged.kmalloc size
  refine ⟨r, blocks, ?_, h⟩
  rw [HeapRun.step] at hstep ⊢
  rw [← hstep, HeapRun.start, ← kmalloc_heapInit hsize, hinit]

theorem start_run {area : HeapArea} {m : Memory} {calls : List HeapCall}
    (hlegal : (HeapRun.start m).Legal area calls)
    (hused : ∃ size, HeapCall.kmalloc size ∈ calls ∧ size ≠ 0) :
    ∃ r blocks, (HeapRun.start m).run area calls = some r ∧ Managed area r blocks := by
  induction calls with
  | nil =>
      obtain ⟨size, hmem, -⟩ := hused
      exact absurd hmem List.not_mem_nil
  | cons call calls ih =>
      obtain ⟨hfreed, hrest⟩ := hlegal
      cases call with
      | kfree ptr =>
          obtain ⟨a, ha, -⟩ := hfreed ptr rfl
          exact absurd ha List.not_mem_nil
      | kmalloc size =>
          by_cases hsize : size = 0
          · subst hsize
            have hstep : (HeapRun.start m).step area (.kmalloc 0) = some (HeapRun.start m) := rfl
            have hused' : ∃ size, HeapCall.kmalloc size ∈ calls ∧ size ≠ 0 := by
              obtain ⟨size, hmem, hne⟩ := hused
              rcases List.mem_cons.mp hmem with heq | hmem
              · exact absurd (HeapCall.kmalloc.inj heq) hne
              · exact ⟨size, hmem, hne⟩
            obtain ⟨r, blocks, hrun, h⟩ := ih (hrest _ hstep) hused'
            exact ⟨r, blocks, by rw [HeapRun.run, hstep]; exact hrun, h⟩
          · obtain ⟨r, blocks, hstep, h⟩ := start_kmalloc area m hsize
            obtain ⟨r', blocks', hrun, h'⟩ := h.run (hrest r hstep)
            exact ⟨r', blocks', by rw [HeapRun.run, hstep]; exact hrun, h'⟩

/-- Whatever the calls: nothing has been allocated yet, or the heap is in order. -/
theorem start_run_cases {area : HeapArea} {m : Memory} {calls : List HeapCall}
    (hlegal : (HeapRun.start m).Legal area calls) :
    ∃ r, (HeapRun.start m).run area calls = some r ∧
      (r = HeapRun.start m ∨ ∃ blocks, Managed area r blocks) := by
  by_cases hused : ∃ size, HeapCall.kmalloc size ∈ calls ∧ size ≠ 0
  · obtain ⟨r, blocks, hrun, h⟩ := start_run hlegal hused
    exact ⟨r, hrun, .inr ⟨blocks, h⟩⟩
  refine ⟨HeapRun.start m, ?_, .inl rfl⟩
  induction calls with
  | nil => rfl
  | cons call calls ih =>
      obtain ⟨hfreed, hrest⟩ := hlegal
      cases call with
      | kfree ptr =>
          obtain ⟨a, ha, -⟩ := hfreed ptr rfl
          exact absurd ha List.not_mem_nil
      | kmalloc size =>
          have hzero : size = 0 := by
            by_contra hne
            exact hused ⟨size, List.mem_cons_self, hne⟩
          subst hzero
          have hstep : (HeapRun.start m).step area (.kmalloc 0) = some (HeapRun.start m) := rfl
          rw [HeapRun.run, hstep]
          refine ih (hrest _ hstep) ?_
          rintro ⟨size, hmem, hne⟩
          exact hused ⟨size, List.mem_cons_of_mem _ hmem, hne⟩

/-! ## What the heap looks like -/

/-- The blocks reached from `p` by `next`. -/
def Reached (m : Memory) : Nat → List Tiling.Block → Prop
  | p, [] => p = 0
  | p, b :: rest => p ≠ 0 ∧ b = ⟨p, (header m p).size.toNat, (header m p).free⟩ ∧
      Reached m (header m p).next rest

/-- The heap's representation: the blocks reached from `heap_head` tile it, `prev` is the
inverse of `next`, sizes are multiples of 8, no two neighbours are free, and the payloads in
use are disjoint and are the allocations not yet freed. -/
structure Represents (area : HeapArea) (r : HeapRun) (blocks : List Tiling.Block) : Prop where
  reached : Reached r.heap.memory r.heap.heapHead blocks
  tiles : Tiles 16 area.base blocks (area.base + 65536)
  first : (header r.heap.memory r.heap.heapHead).prev = 0
  inverse : ∀ b ∈ blocks, ∀ c ∈ blocks,
    (header r.heap.memory b.addr).next = c.addr ↔ (header r.heap.memory c.addr).prev = b.addr
  aligned : ∀ b ∈ blocks, 8 ∣ b.size
  settled : Settled blocks
  disjoint : (blocks.filter fun b => !b.free).Pairwise fun b c =>
    b.addr + 16 + b.size ≤ c.addr + 16
  live : (r.live.map Allocation.ptr).Perm (held 16 blocks)
  roomy : ∀ a ∈ r.live, ∃ b ∈ blocks, b.free = false ∧ a.ptr = b.addr + 16 ∧
    (align8 a.asked).toNat ≤ b.size

theorem Rep.reached {area : HeapArea} {m : Memory} {front blocks : List Tiling.Block}
    (h : Rep area m (front ++ blocks)) : Reached m (headAddr blocks) blocks := by
  induction blocks generalizing front with
  | nil => rfl
  | cons b rest ih =>
      have hpos := h.bounds.1
      have hb : b ∈ front ++ b :: rest := by simp
      have hassoc : front ++ b :: rest = (front ++ [b]) ++ rest := by simp
      refine ⟨by rw [headAddr_cons]; omega, ?_, ?_⟩
      · rw [headAddr_cons, h.size b hb, h.free b hb]
      · rw [headAddr_cons, h.next_eq]
        exact ih (hassoc ▸ h)

theorem Rep.zero_notMem {area : HeapArea} {m : Memory} {blocks : List Tiling.Block}
    (h : Rep area m blocks) : 0 ∉ blocks.map Tiling.Block.addr := by
  intro hzero
  obtain ⟨b, hb, haddr⟩ := List.mem_map.mp hzero
  have := (h.tiles.bounds hb).1
  have := area.pos
  omega

theorem Managed.represents {area : HeapArea} {r : HeapRun} {blocks : List Tiling.Block}
    (h : Managed area r blocks) : Represents area r blocks := by
  have hhead : r.heap.heapHead = headAddr blocks := by rw [h.head, h.rep.headAddr_eq]
  refine ⟨?_, h.rep.tiles, ?_, ?_, h.rep.aligned, h.settled, ?_, h.live, h.roomy⟩
  · rw [hhead]
    have hrep : Rep area r.heap.memory ([] ++ blocks) := h.rep
    exact hrep.reached
  · rw [hhead]
    have hlinked := h.rep.linked
    cases blocks with
    | nil =>
        have : area.base = area.base + 65536 := h.rep.tiles
        omega
    | cons b rest => exact hlinked.1
  · intro b hb c hc
    exact h.rep.linked.inverse h.rep.zero_notMem h.rep.zero_notMem (List.mem_map_of_mem hb)
      (List.mem_map_of_mem hc)
  · refine (h.rep.tiles.pairwise.filter fun b => !b.free).imp fun hab => ?_
    rw [Tiling.Block.stop] at hab
    omega

theorem Managed.allFreed {area : HeapArea} {r : HeapRun} {blocks : List Tiling.Block}
    (h : Managed area r blocks) (hfreed : r.live = []) :
    blocks = [⟨area.base, 65520, true⟩] := by
  have hheld : held 16 blocks = [] := by
    have hlive := h.live
    rw [hfreed] at hlive
    exact hlive.symm.eq_nil
  have hfree : ∀ b ∈ blocks, b.free = true := by
    intro b hb
    by_contra hused
    have hmem : b.addr + 16 ∈ held 16 blocks := mem_held.mpr ⟨b, hb, by simpa using hused, rfl⟩
    rw [hheld] at hmem
    exact absurd hmem List.not_mem_nil
  have hne : blocks ≠ [] := by
    rintro rfl
    have : area.base = area.base + 65536 := h.rep.tiles
    omega
  obtain ⟨b, rfl⟩ := h.settled.eq_singleton hne hfree
  obtain ⟨haddr, hstop⟩ := h.rep.tiles
  have hb := hfree b (by simp)
  rw [Tiles, Tiling.Block.stop] at hstop
  have hsize : b.size = 65520 := by omega
  rw [← haddr, ← hsize, ← hb]

/-- Every legal sequence with a `kmalloc` of a nonzero size returns and leaves the heap
represented by the blocks reached from `heap_head`; when everything has been freed they are
one free block. -/
theorem kheap_represents (area : HeapArea) (m : Memory) (calls : List HeapCall)
    (hlegal : (HeapRun.start m).Legal area calls)
    (hused : ∃ size, HeapCall.kmalloc size ∈ calls ∧ size ≠ 0) :
    ∃ r blocks, (HeapRun.start m).run area calls = some r ∧ Represents area r blocks ∧
      (r.live = [] → blocks = [⟨area.base, 65520, true⟩]) := by
  obtain ⟨r, blocks, hrun, h⟩ := start_run hlegal hused
  exact ⟨r, blocks, hrun, h.represents, h.allFreed⟩

/-- A place for the array in the kernel image. -/
def imageArea : HeapArea := ⟨0x20000, by decide, by decide⟩

theorem kheap_represents_freed :
    ∃ r blocks, (HeapRun.start ⟨fun _ => 0⟩).run imageArea
        [.kmalloc 5, .kfree 0x20010] = some r ∧ Represents imageArea r blocks ∧
      (r.live = [] → blocks = [⟨imageArea.base, 65520, true⟩]) := by
  have hlive : ((HeapRun.start ⟨fun _ => 0⟩).step imageArea (.kmalloc 5)).map HeapRun.live =
      some [⟨0x20010, 5⟩] := by decide +kernel
  have hlegal : (HeapRun.start ⟨fun _ => 0⟩).Legal imageArea [.kmalloc 5, .kfree 0x20010] := by
    refine ⟨fun ptr h => HeapCall.noConfusion h, fun r hr => ⟨?_, fun _ _ => trivial⟩⟩
    rintro ptr ⟨rfl⟩
    rw [hr, Option.map_some] at hlive
    exact ⟨⟨0x20010, 5⟩, by rw [Option.some.inj hlive]; simp, rfl⟩
  exact kheap_represents imageArea ⟨fun _ => 0⟩ [.kmalloc 5, .kfree 0x20010] hlegal
    ⟨5, by simp, by decide⟩

/-- Before the first allocation `heap_head` is null and no block is reached. -/
theorem not_kheap_represents :
    ¬∃ r blocks, (HeapRun.start ⟨fun _ => 0⟩).run imageArea [] = some r ∧
      Represents imageArea r blocks := by
  rintro ⟨r, blocks, hrun, h⟩
  obtain rfl := Option.some.inj hrun
  cases blocks with
  | nil =>
      have : imageArea.base = imageArea.base + 65536 := h.tiles
      omega
  | cons b rest => exact absurd rfl h.reached.1

end SevenOS.Kheap
