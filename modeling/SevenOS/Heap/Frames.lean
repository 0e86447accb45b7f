import SevenOS.Heap.Room

/-! # What the heap leaves alone

`kmalloc` and `kfree` write into headers only, so the bytes of a buffer that stays
allocated stay too; and what is stored in a buffer does not touch the headers.
-/

namespace SevenOS.Kheap

open Tiling

variable {area : HeapArea} {m : Memory} {p a : Nat}

/-! ## Bytes outside headers -/

/-- The byte is not one of the header at `p`. -/
def Beside (p a : Nat) : Prop := a < p ∨ p + 16 ≤ a

theorem byte_setSize (h : Beside p a) (v : UInt32) : (setSize m p v).byte a = m.byte a :=
  Memory.load8_store32_apart m v (by unfold Beside at h; omega)

theorem byte_setFree (h : Beside p a) (v : Bool) : (setFree m p v).byte a = m.byte a :=
  Memory.load8_store8_apart m _ (by unfold Beside at h; omega)

theorem byte_setNext (h : Beside p a) (v : Nat) : (setNext m p v).byte a = m.byte a :=
  Memory.load8_store32_apart m _ (by unfold Beside at h; omega)

theorem byte_setPrev (h : Beside p a) (v : Nat) : (setPrev m p v).byte a = m.byte a :=
  Memory.load8_store32_apart m _ (by unfold Beside at h; omega)

theorem byte_splitBlock {cur split next : Nat} {size : UInt32}
    (hsplit : split = cur + 16 + size.toNat) (hnext : (header m cur).next = next)
    (hsplit32 : split < 2 ^ 32) (hnext32 : next < 2 ^ 32) (hcur : Beside cur a)
    (hbeside : Beside split a) (hbehind : next = 0 ∨ Beside next a) :
    (splitBlock m cur size).byte a = m.byte a := by
  have hcur32 : cur < 2 ^ 32 := by omega
  have hself := Clear.refl split
  have hsc : Clear split cur := Or.inr (Or.inr (by omega))
  have hne : cur ≠ split := by omega
  unfold splitBlock
  simp only [← hsplit]
  rw [byte_setNext hcur, byte_setSize hcur]
  simp (disch := assumption) only [header_setSize, header_setFree, header_setNext, header_setPrev,
    hnext, if_neg hne, if_true]
  have hnew : ∀ s, (setPrev (setNext (setFree (setSize m split s) split true) split next) split
      cur).byte a = m.byte a := fun s => by
    rw [byte_setPrev hbeside, byte_setNext hbeside, byte_setFree hbeside, byte_setSize hbeside]
  by_cases h0 : next = 0
  · rw [if_neg (not_not_intro h0)]
    exact hnew _
  · rw [if_pos h0, byte_setPrev (hbehind.resolve_left h0)]
    exact hnew _

theorem byte_absorb {left right next : Nat} (hnext : (header m right).next = next)
    (hright : left + 16 ≤ right) (hnext32 : next < 2 ^ 32) (hleft : Beside left a)
    (hbehind : next = 0 ∨ Beside next a) : (absorb m left right).byte a = m.byte a := by
  have hself := Clear.refl left
  have hlr : Clear left right := Or.inr (Or.inl hright)
  have hne : right ≠ left := by omega
  unfold absorb
  simp (disch := assumption) only [header_setSize, header_setNext, hnext, if_neg hne, if_true]
  by_cases h0 : next = 0
  · rw [if_neg (not_not_intro h0), byte_setNext hleft, byte_setSize hleft]
  · rw [if_pos h0, byte_setPrev (hbehind.resolve_left h0), byte_setNext hleft, byte_setSize hleft]

/-! ## Bytes of payloads -/

section Payload

variable {blocks front rest : List Tiling.Block} {b : Tiling.Block}

/-- The byte belongs to the payload of the block. -/
def InPayload (b : Tiling.Block) (a : Nat) : Prop := b.addr + 16 ≤ a ∧ a < b.addr + 16 + b.size

theorem Rep.beside (h : Rep area m blocks) (hb : b ∈ blocks) (ha : InPayload b a)
    {x : Tiling.Block} (hx : x ∈ blocks) : Beside x.addr a := by
  unfold InPayload at ha
  obtain ⟨front, rest, rfl⟩ := List.append_of_mem hb
  rcases List.mem_append.mp hx with hx | hx
  · have := h.before hx
    exact .inr (by omega)
  · rcases List.mem_cons.mp hx with rfl | hx
    · exact .inr (by omega)
    · have := h.behind hx
      exact .inl (by omega)

theorem beside_headAddr (ha : ∀ x ∈ rest, Beside x.addr a) :
    headAddr rest = 0 ∨ Beside (headAddr rest) a := by
  cases rest with
  | nil => exact .inl rfl
  | cons c rest => exact .inr (ha c List.mem_cons_self)

/-- The block that is taken is not the one of the byte, and it is cut in its payload. -/
theorem Rep.byte_takeBlock (h : Rep area m (front ++ b :: rest)) {x : Tiling.Block}
    (hx : x ∈ front ++ rest) (ha : InPayload x a) {size : UInt32} (hsize : size.toNat ≤ b.size) :
    (takeBlock m b.addr size).byte a = m.byte a := by
  have hx' : x ∈ front ++ b :: rest := by
    rcases List.mem_append.mp hx with hx | hx <;> simp [hx]
  have hbeside := h.beside hx' ha (x := b) (by simp)
  unfold takeBlock
  by_cases hcut : size.toNat + 24 ≤ b.size
  · have hnext : headAddr rest = 0 ∨ Beside (headAddr rest) a :=
      beside_headAddr fun y hy => h.beside hx' ha (by simp [hy])
    obtain ⟨-, hstop, hfits⟩ := h.bounds
    have hsplit : Beside (b.addr + 16 + size.toNat) a := by
      unfold InPayload at ha
      rcases List.mem_append.mp hx with hx | hx
      · have := h.before hx
        exact .inl (by omega)
      · have := h.behind hx
        exact .inr (by omega)
    rw [if_pos ((h.cut_iff hsize).mpr hcut), byte_setFree hbeside,
      byte_splitBlock rfl h.next_eq (by omega) h.headAddr_rest.2 hbeside hsplit hnext]
  · rw [if_neg fun hge => hcut ((h.cut_iff hsize).mp hge), byte_setFree hbeside]

/-- `coalesce` writes into headers of the blocks there are. -/
theorem Rep.byte_coalesce (h : Rep area m (front ++ b :: rest)) (hrest : Settled rest)
    (ha : ∀ x ∈ front ++ b :: rest, Beside x.addr a) : (coalesce m b.addr).byte a = m.byte a := by
  have hb := ha b (by simp)
  -- the next block is absorbed, or it is not
  have hfirst : (if (header m b.addr).next ≠ 0 ∧ (header m (header m b.addr).next).free = true then
      Kheap.absorb m b.addr (header m b.addr).next else m).byte a = m.byte a := by
    split
    · rw [h.next_eq]
      cases rest with
      | nil => rename_i hnext; exact absurd h.next_eq hnext.1
      | cons c rest =>
          have hassoc : front ++ b :: c :: rest = (front ++ [b]) ++ c :: rest := by simp
          have hc : Rep area m ((front ++ [b]) ++ c :: rest) := hassoc ▸ h
          have hbefore := hc.before (x := b) (by simp)
          exact byte_absorb hc.next_eq (by rw [headAddr_cons]; omega) hc.headAddr_rest.2 hb
            (beside_headAddr fun y hy => ha y (by simp [hy]))
    · rfl
  obtain ⟨b', rest', haddr, -, -, -, -, -, hsub, hmerged⟩ := h.mergeNext hrest
  unfold coalesce
  simp only
  generalize (if (header m b.addr).next ≠ 0 ∧ (header m (header m b.addr).next).free = true then
      Kheap.absorb m b.addr (header m b.addr).next else m) = m₁ at hfirst hmerged ⊢
  -- and so is this block, by the one in front
  split
  · rename_i hprev
    have hlast := haddr ▸ hmerged.prev_eq
    rcases List.eq_nil_or_concat' front with rfl | ⟨init, c, rfl⟩
    · exact absurd hlast hprev.1
    · have hc : ((init ++ [c]).map Tiling.Block.addr).getLastD 0 = c.addr := by simp
      have hbefore := hmerged.before (x := c) (by simp)
      have hnext : headAddr rest' = 0 ∨ Beside (headAddr rest') a :=
        beside_headAddr fun y hy => ha y (by simp [hsub y hy])
      rw [hlast, hc, byte_absorb (haddr ▸ hmerged.next_eq) (by omega) hmerged.headAddr_rest.2
        (ha c (by simp)) hnext, hfirst]
  · exact hfirst

theorem Rep.fill (h : Rep area m blocks) (hb : b ∈ blocks) {n : Nat} (hlow : b.addr + 16 ≤ a)
    (hhigh : a + n ≤ b.addr + 16 + b.size) (f : Nat → UInt8) : Rep area (m.fill a n f) blocks := by
  have hheader : ∀ x ∈ blocks, header (m.fill a n f) x.addr = header m x.addr := by
    intro x hx
    have hapart : x.addr + 16 ≤ a ∨ a + n ≤ x.addr := by
      obtain ⟨front, rest, rfl⟩ := List.append_of_mem hb
      rcases List.mem_append.mp hx with hx | hx
      · have := h.before hx
        exact .inl (by omega)
      · rcases List.mem_cons.mp hx with rfl | hx
        · exact .inl hlow
        · have := h.behind hx
          exact .inr (by omega)
    simp only [header, Memory.load8]
    rw [Memory.load32_fill_apart _ _ (by omega), Memory.byte_fill_apart _ _ (by omega),
      Memory.load32_fill_apart _ _ (by omega), Memory.load32_fill_apart _ _ (by omega)]
  refine ⟨h.tiles, h.linked.frame ?_ ?_, fun x hx => ?_, fun x hx => ?_, h.aligned⟩
  · intro p hp
    obtain ⟨x, hx, rfl⟩ := List.mem_map.mp hp
    rw [hheader x hx]
  · intro p hp
    obtain ⟨x, hx, rfl⟩ := List.mem_map.mp hp
    rw [hheader x hx]
  · rw [hheader x hx]
    exact h.size x hx
  · rw [hheader x hx]
    exact h.free x hx

end Payload

/-! ## Calls -/

section Calls

variable {r : HeapRun} {blocks : List Tiling.Block} {x : Tiling.Block}

theorem Managed.kmalloc_byte (h : Managed area r blocks) (hx : x ∈ blocks) (hused : x.free = false)
    (ha : InPayload x a) {size : UInt32} {heap : Kheap} {ptr : Nat}
    (hrun : Kheap.kmalloc area r.heap size = some (heap, ptr)) :
    heap.memory.byte a = r.heap.memory.byte a := by
  rw [Kheap.kmalloc] at hrun
  by_cases hsize : size = 0
  · rw [if_pos hsize] at hrun
    rw [(Prod.mk.inj (Option.some.inj hrun)).1]
  · have hinit : heapInit area r.heap = r.heap := by rw [heapInit, if_pos h.head_ne]
    have hhead : r.heap.heapHead = headAddr blocks := by rw [h.head, h.rep.headAddr_eq]
    have hrep : Rep area r.heap.memory ([] ++ blocks) := h.rep
    rw [if_neg hsize, hinit] at hrun
    simp only [hhead] at hrun
    rcases search_spec (align8 size) hrep h.rep.length_lt with
      ⟨hnull, -⟩ | ⟨front, b, rest, rfl, hfree, hfits, hfound⟩
    · rw [hnull] at hrun
      rw [← (Prod.mk.inj (Option.some.inj hrun)).1]
    · rw [hfound] at hrun
      rw [← (Prod.mk.inj (Option.some.inj hrun)).1]
      have hne : x ∈ front ++ rest := by
        simp only [List.mem_append, List.mem_cons] at hx ⊢
        rcases hx with hx | rfl | hx
        · exact .inl hx
        · rw [hfree] at hused
          cases hused
        · exact .inr hx
      exact h.rep.byte_takeBlock hne ha hfits

theorem Managed.kfree_byte (h : Managed area r blocks) (hx : x ∈ blocks) (ha : InPayload x a)
    {b : Tiling.Block} (hb : b ∈ blocks) :
    (Kheap.kfree r.heap (b.addr + 16)).memory.byte a = r.heap.memory.byte a := by
  have hbeside : ∀ y ∈ blocks, Beside y.addr a := fun y hy => h.rep.beside hx ha hy
  have hhere := hbeside b hb
  obtain ⟨front, rest, rfl⟩ := List.append_of_mem hb
  have hmark := h.rep.mark true
  have hsettled := h.settled
  rw [settled_append] at hsettled
  have hcoalesce := hmark.byte_coalesce (a := a) (settled_cons.mp hsettled.2.1).1 fun y hy => by
    simp only [List.mem_append, List.mem_cons] at hy
    rcases hy with hy | rfl | hy
    · exact hbeside y (by simp [hy])
    · exact hhere
    · exact hbeside y (by simp [hy])
  rw [Kheap.kfree, if_neg (by omega), Nat.add_sub_cancel]
  exact hcoalesce.trans (byte_setFree hhere true)

end Calls

end SevenOS.Kheap
