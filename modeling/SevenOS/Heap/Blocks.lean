import Mathlib.Tactic.Common
import SevenOS.Lib.Tiling
import SevenOS.Heap.Kheap

/-! # The blocks of the heap

`Rep` relates the bytes of memory to a list of blocks: the blocks tile the heap and
their headers hold sizes, flags and links. Each of the two edits the heap makes,
cutting a free block and absorbing a neighbour, is described header by header and
then carried over to the list.
-/

namespace SevenOS.Kheap

open Tiling

/-! ## Headers in memory -/

/-- Two headers are the same or do not overlap. -/
def Clear (p q : Nat) : Prop := p = q ∨ p + 16 ≤ q ∨ q + 16 ≤ p

theorem header_setSize {p q : Nat} (h : Clear p q) (m : Memory) (v : UInt32) :
    header (setSize m p v) q = if q = p then { header m p with size := v } else header m q := by
  unfold Clear at h
  simp only [header, setSize]
  split
  next hq =>
    subst hq
    rw [Memory.load32_store32, Memory.load8_store32_apart _ _ (by omega),
      Memory.load32_store32_apart _ _ (by omega), Memory.load32_store32_apart _ _ (by omega)]
  next hq =>
    rw [Memory.load32_store32_apart _ _ (by omega), Memory.load8_store32_apart _ _ (by omega),
      Memory.load32_store32_apart _ _ (by omega), Memory.load32_store32_apart _ _ (by omega)]

theorem header_setFree {p q : Nat} (h : Clear p q) (m : Memory) (v : Bool) :
    header (setFree m p v) q = if q = p then { header m p with free := v } else header m q := by
  unfold Clear at h
  by_cases hq : q = p
  · subst hq
    simp only [header, setFree, if_true]
    rw [Memory.load8_store8, Memory.load32_store8_apart _ _ (by omega),
      Memory.load32_store8_apart _ _ (by omega), Memory.load32_store8_apart _ _ (by omega)]
    cases v <;> rfl
  · simp only [header, setFree, if_neg hq]
    rw [Memory.load8_store8_apart _ _ (by omega), Memory.load32_store8_apart _ _ (by omega),
      Memory.load32_store8_apart _ _ (by omega), Memory.load32_store8_apart _ _ (by omega)]

theorem toNat_pointer {v : Nat} (h : v < 2 ^ 32) : (UInt32.ofNat v).toNat = v := by
  rw [UInt32.toNat_ofNat']
  omega

theorem header_setNext {p q v : Nat} (h : Clear p q) (hv : v < 2 ^ 32) (m : Memory) :
    header (setNext m p v) q = if q = p then { header m p with next := v } else header m q := by
  unfold Clear at h
  simp only [header, setNext]
  split
  next hq =>
    subst hq
    rw [Memory.load32_store32, Memory.load8_store32_apart _ _ (by omega),
      Memory.load32_store32_apart _ _ (by omega), Memory.load32_store32_apart _ _ (by omega),
      toNat_pointer hv]
  next hq =>
    rw [Memory.load32_store32_apart _ _ (by omega), Memory.load8_store32_apart _ _ (by omega),
      Memory.load32_store32_apart _ _ (by omega), Memory.load32_store32_apart _ _ (by omega)]

theorem header_setPrev {p q v : Nat} (h : Clear p q) (hv : v < 2 ^ 32) (m : Memory) :
    header (setPrev m p v) q = if q = p then { header m p with prev := v } else header m q := by
  unfold Clear at h
  simp only [header, setPrev]
  split
  next hq =>
    subst hq
    rw [Memory.load32_store32, Memory.load8_store32_apart _ _ (by omega),
      Memory.load32_store32_apart _ _ (by omega), Memory.load32_store32_apart _ _ (by omega),
      toNat_pointer hv]
  next hq =>
    rw [Memory.load32_store32_apart _ _ (by omega), Memory.load8_store32_apart _ _ (by omega),
      Memory.load32_store32_apart _ _ (by omega), Memory.load32_store32_apart _ _ (by omega)]

theorem Clear.refl (p : Nat) : Clear p p := Or.inl rfl

/-! ## The two edits, header by header -/

/-- Cutting a block touches its header, the new one and the back link of the next. -/
theorem header_splitBlock {m : Memory} {cur split next x : Nat} {size : UInt32}
    (hsplit : split = cur + 16 + size.toNat) (hnext : (header m cur).next = next)
    (hbehind : next = 0 ∨ split + 16 ≤ next) (hsplit32 : split < 2 ^ 32)
    (hnext32 : next < 2 ^ 32) (hcurx : Clear cur x) (hsplitx : Clear split x)
    (hnextx : next = 0 ∨ Clear next x) :
    header (splitBlock m cur size) x =
      if x = cur then { header m cur with size := size, next := split }
      else if x = split then ⟨(header m cur).size - size - headerBytes, true, next, cur⟩
      else if next ≠ 0 ∧ x = next then { header m x with prev := split }
      else header m x := by
  have hcur32 : cur < 2 ^ 32 := by omega
  have hself := Clear.refl cur
  have hself' := Clear.refl split
  have hsc : Clear split cur := Or.inr (Or.inr (by omega))
  have hne : cur ≠ split := by omega
  unfold splitBlock
  simp only [← hsplit]
  by_cases h0 : next = 0
  · subst h0
    simp (disch := assumption) only [header_setSize, header_setFree, header_setNext,
      header_setPrev, hnext, if_neg hne, if_true, ne_eq, not_true_eq_false, false_and, if_false]
    by_cases hxc : x = cur
    · subst hxc
      simp only [if_true, if_neg hne]
    · simp only [if_neg hxc]
      split <;> rfl
  · have hbehind' : split + 16 ≤ next := hbehind.resolve_left h0
    have hnextx' : Clear next x := hnextx.resolve_left h0
    have hnc : Clear next cur := Or.inr (Or.inr (by omega))
    have hns : Clear next split := Or.inr (Or.inr hbehind')
    have hsn : Clear split next := Or.inr (Or.inl hbehind')
    have hcn : Clear cur next := Or.inr (Or.inl (by omega))
    have hne' : next ≠ cur := by omega
    have hne'' : next ≠ split := by omega
    simp (disch := assumption) only [header_setSize, header_setFree, header_setNext,
      header_setPrev, hnext, if_neg hne, if_true, ne_eq, not_false_eq_true, true_and, h0]
    by_cases hxc : x = cur
    · subst hxc
      simp only [if_true, if_neg hne, if_neg hne'.symm]
    · by_cases hxs : x = split
      · subst hxs
        simp only [if_true, if_neg hxc, if_neg hne''.symm]
      · simp only [if_neg hxc, if_neg hxs, if_neg hne'']
        by_cases hxn : x = next
        · subst hxn
          rfl
        · simp only [if_neg hxn]

/-- Absorbing the next block touches the header in front and the back link behind. -/
theorem header_absorb {m : Memory} {left right next x : Nat}
    (hnext : (header m right).next = next) (hright : left + 16 ≤ right)
    (hbehind : next = 0 ∨ right + 16 ≤ next)
    (hleft32 : left < 2 ^ 32) (hnext32 : next < 2 ^ 32) (hleft : Clear left x)
    (hx : next = 0 ∨ Clear next x) :
    header (absorb m left right) x =
      if x = left then { header m left with
        size := (header m left).size + (headerBytes + (header m right).size), next := next }
      else if next ≠ 0 ∧ x = next then { header m x with prev := left }
      else header m x := by
  have hself := Clear.refl left
  have hlr : Clear left right := Or.inr (Or.inl hright)
  have hne : right ≠ left := by omega
  unfold absorb
  by_cases h0 : next = 0
  · subst h0
    simp (disch := assumption) only [header_setSize, header_setNext, hnext, if_neg hne, if_true,
      ne_eq, not_true_eq_false, false_and, if_false]
    split <;> rfl
  · have hbehind' : right + 16 ≤ next := hbehind.resolve_left h0
    have hx' : Clear next x := hx.resolve_left h0
    have hln : Clear left next := Or.inr (Or.inl (by omega))
    have hne' : next ≠ left := by omega
    simp (disch := assumption) only [header_setSize, header_setNext, header_setPrev, hnext,
      if_neg hne, if_true, ne_eq, not_false_eq_true, true_and, h0]
    by_cases hxl : x = left
    · subst hxl
      simp only [if_true, if_neg hne'.symm]
    · simp only [if_neg hxl, if_neg hne']
      by_cases hxn : x = next
      · subst hxn
        rfl
      · simp only [if_neg hxn]

/-! ## Memory and the list of blocks -/

/-- The blocks tile the heap and their headers say so. -/
structure Rep (area : HeapArea) (m : Memory) (blocks : List Tiling.Block) : Prop where
  tiles : Tiles 16 area.base blocks (area.base + 65536)
  linked : Tiling.Linked (fun p => (header m p).next) (fun p => (header m p).prev) 0
    (blocks.map Tiling.Block.addr) 0
  size : ∀ b ∈ blocks, (header m b.addr).size.toNat = b.size
  free : ∀ b ∈ blocks, (header m b.addr).free = b.free
  aligned : ∀ b ∈ blocks, 8 ∣ b.size

/-- The address of the first block of a list, null when there is none. -/
def headAddr (blocks : List Tiling.Block) : Nat := (blocks.map Tiling.Block.addr).headD 0

@[simp] theorem headAddr_nil : headAddr [] = 0 := rfl

@[simp] theorem headAddr_cons (b : Tiling.Block) (rest : List Tiling.Block) :
    headAddr (b :: rest) = b.addr := rfl

section Rep

variable {area : HeapArea} {m : Memory} {front rest : List Tiling.Block} {b : Tiling.Block}

theorem Rep.next_eq (h : Rep area m (front ++ b :: rest)) :
    (header m b.addr).next = headAddr rest := by
  have hlinked := h.linked
  rw [List.map_append, List.map_cons, linked_append] at hlinked
  exact hlinked.2.2.1

theorem Rep.prev_eq (h : Rep area m (front ++ b :: rest)) :
    (header m b.addr).prev = (front.map Tiling.Block.addr).getLastD 0 := by
  have hlinked := h.linked
  rw [List.map_append, List.map_cons, linked_append] at hlinked
  exact hlinked.2.1

theorem Rep.bounds (h : Rep area m (front ++ b :: rest)) :
    0 < b.addr ∧ b.addr + 16 + b.size ≤ area.base + 65536 ∧ area.base + 65536 ≤ 2 ^ 32 := by
  have hb := h.tiles.bounds (b := b) (by simp)
  have hpos := area.pos
  exact ⟨by omega, hb.2, area.fits⟩

theorem Rep.before (h : Rep area m (front ++ b :: rest)) {x : Tiling.Block} (hx : x ∈ front) :
    x.addr + 16 + x.size ≤ b.addr :=
  h.tiles.around.1 x hx

theorem Rep.behind (h : Rep area m (front ++ b :: rest)) {x : Tiling.Block} (hx : x ∈ rest) :
    b.addr + 16 + b.size ≤ x.addr :=
  h.tiles.around.2 x hx

/-- The next block, when there is one, lies behind this one. -/
theorem Rep.headAddr_rest (h : Rep area m (front ++ b :: rest)) :
    (headAddr rest = 0 ∨ b.addr + 16 + b.size ≤ headAddr rest) ∧ headAddr rest < 2 ^ 32 := by
  cases rest with
  | nil => exact ⟨Or.inl rfl, by decide⟩
  | cons c rest =>
      have hb := h.tiles.bounds (b := c) (by simp)
      have hfits := area.fits
      rw [Tiling.Block.stop] at hb
      refine ⟨Or.inr (h.behind List.mem_cons_self), ?_⟩
      rw [headAddr_cons]
      omega

theorem Rep.behind_head (h : Rep area m (front ++ b :: rest)) {x : Tiling.Block} (hx : x ∈ rest) :
    x.addr = headAddr rest ∨ headAddr rest + 16 ≤ x.addr := by
  cases rest with
  | nil => simp at hx
  | cons c rest =>
      have hsplit : front ++ b :: c :: rest = (front ++ [b]) ++ c :: rest := by simp
      rw [hsplit] at h
      rcases List.mem_cons.mp hx with rfl | hx
      · exact Or.inl rfl
      · have := h.behind hx
        exact Or.inr (by rw [headAddr_cons]; omega)

theorem Rep.tail_ne_head (h : Rep area m (front ++ b :: rest)) {p : Nat}
    (hp : p ∈ (rest.map Tiling.Block.addr).tail) : p ≠ headAddr rest := by
  cases rest with
  | nil => simp at hp
  | cons c rest =>
      have hsplit : front ++ b :: c :: rest = (front ++ [b]) ++ c :: rest := by simp
      rw [hsplit] at h
      obtain ⟨x, hx, rfl⟩ := List.mem_map.mp hp
      have := h.behind hx
      rw [headAddr_cons]
      omega

theorem head?_eq_headAddr {p : Nat} (hp : p ∈ (rest.map Tiling.Block.addr).head?) :
    p = headAddr rest := by
  cases rest with
  | nil => simp at hp
  | cons c rest => simpa using hp.symm

theorem Rep.clear (h : Rep area m (front ++ b :: rest)) {x : Tiling.Block}
    (hx : x ∈ front ++ b :: rest) : Clear b.addr x.addr := by
  rcases List.mem_append.mp hx with hx | hx
  · have := h.before hx
    exact Or.inr (Or.inr (by omega))
  · rcases List.mem_cons.mp hx with rfl | hx
    · exact Clear.refl _
    · have := h.behind hx
      exact Or.inr (Or.inl (by omega))

/-! ## Edits of the list -/

theorem Rep.mark (h : Rep area m (front ++ b :: rest)) (v : Bool) :
    Rep area (setFree m b.addr v) (front ++ { b with free := v } :: rest) := by
  have haddrs : (front ++ { b with free := v } :: rest).map Tiling.Block.addr =
      (front ++ b :: rest).map Tiling.Block.addr := by simp
  have hheader {x : Tiling.Block} (hx : x ∈ front ++ b :: rest) :
      header (setFree m b.addr v) x.addr =
        if x.addr = b.addr then { header m b.addr with free := v } else header m x.addr :=
    header_setFree (h.clear hx) m v
  have hold {x : Tiling.Block} (hx : x ∈ front ++ { b with free := v } :: rest) :
      x = { b with free := v } ∨ (x ∈ front ++ b :: rest ∧ x.addr ≠ b.addr) := by
    rcases List.mem_append.mp hx with hx | hx
    · have := h.before hx
      exact Or.inr ⟨List.mem_append_left _ hx, by omega⟩
    · rcases List.mem_cons.mp hx with rfl | hx
      · exact Or.inl rfl
      · have := h.behind hx
        exact Or.inr ⟨by simp [hx], by omega⟩
  have hb : b ∈ front ++ b :: rest := by simp
  refine ⟨h.tiles.mark rfl rfl, ?_, ?_, ?_, ?_⟩
  · rw [haddrs]
    refine h.linked.frame ?_ ?_ <;>
    · intro p hp
      obtain ⟨x, hx, rfl⟩ := List.mem_map.mp hp
      simp only [hheader hx]
      split
      · rename_i heq
        rw [heq]
      · rfl
  · intro x hx
    rcases hold hx with rfl | ⟨hx, hne⟩
    · rw [hheader hb, if_pos rfl]
      exact h.size b hb
    · rw [hheader hx, if_neg hne]
      exact h.size x hx
  · intro x hx
    rcases hold hx with rfl | ⟨hx, hne⟩
    · rw [hheader hb, if_pos rfl]
    · rw [hheader hx, if_neg hne]
      exact h.free x hx
  · intro x hx
    rcases hold hx with rfl | ⟨hx, hne⟩
    · exact h.aligned b hb
    · exact h.aligned x hx

/-- A block is cut behind the first `size` bytes of its payload. -/
theorem Rep.cut (h : Rep area m (front ++ b :: rest)) {size : UInt32} (h8 : 8 ∣ size.toNat)
    (hroom : size.toNat + 16 ≤ b.size) :
    Rep area (splitBlock m b.addr size) (front ++ ⟨b.addr, size.toNat, b.free⟩ ::
      ⟨b.addr + 16 + size.toNat, b.size - size.toNat - 16, true⟩ :: rest) := by
  obtain ⟨hpos, hstop, hfits⟩ := h.bounds
  obtain ⟨hnext, hnext32⟩ := h.headAddr_rest
  have hb : b ∈ front ++ b :: rest := by simp
  have hheader {x : Nat} (hcur : Clear b.addr x) (hsplit : Clear (b.addr + 16 + size.toNat) x)
      (hx : headAddr rest = 0 ∨ Clear (headAddr rest) x) :=
    header_splitBlock (show b.addr + 16 + size.toNat = b.addr + 16 + size.toNat from rfl) h.next_eq
      (hnext.imp_right fun h => by omega) (by omega) hnext32 hcur hsplit hx
  -- the header in front and the new one
  have hcur : header (splitBlock m b.addr size) b.addr =
      { header m b.addr with size := size, next := b.addr + 16 + size.toNat } := by
    rw [hheader (Clear.refl _) (Or.inr (Or.inr (by omega)))
      (hnext.imp_right fun h => Or.inr (Or.inr (by omega))), if_pos rfl]
  have hsplit : header (splitBlock m b.addr size) (b.addr + 16 + size.toNat) =
      ⟨(header m b.addr).size - size - headerBytes, true, headAddr rest, b.addr⟩ := by
    rw [hheader (Or.inr (Or.inl (by omega))) (Clear.refl _)
      (hnext.imp_right fun h => Or.inr (Or.inr (by omega))), if_neg (by omega), if_pos rfl]
  -- the others keep theirs, but for the back link of the next
  have hfront {x : Tiling.Block} (hx : x ∈ front) :
      header (splitBlock m b.addr size) x.addr = header m x.addr := by
    have hbefore := h.before hx
    rw [hheader (Or.inr (Or.inr (by omega))) (Or.inr (Or.inr (by omega)))
      (hnext.imp_right fun h => Or.inr (Or.inr (by omega))), if_neg (by omega),
      if_neg (by omega), if_neg (by omega)]
  have hrest {x : Tiling.Block} (hx : x ∈ rest) : header (splitBlock m b.addr size) x.addr =
      if headAddr rest ≠ 0 ∧ x.addr = headAddr rest then
        { header m x.addr with prev := b.addr + 16 + size.toNat } else header m x.addr := by
    have hbehind := h.behind hx
    have hclear : Clear (headAddr rest) x.addr :=
      (h.behind_head hx).elim (fun h => Or.inl h.symm) fun h => Or.inr (Or.inl h)
    rw [hheader (Or.inr (Or.inl (by omega))) (Or.inr (Or.inl (by omega))) (Or.inr hclear),
      if_neg (by omega), if_neg (by omega)]
  refine ⟨?_, ?_, ?_, ?_, ?_⟩
  · refine h.tiles.cut rfl rfl ?_
    simp only [Tiling.Block.stop]
    omega
  · have hlinked := h.linked
    rw [List.map_append, List.map_cons] at hlinked
    rw [List.map_append, List.map_cons, List.map_cons]
    refine hlinked.insert (by rw [hcur]) (by rw [hcur]) (by rw [hsplit, h.next_eq])
      (by rw [hsplit]) ?_ ?_ ?_ ?_
    · intro p hp
      obtain ⟨x, hx, rfl⟩ := List.mem_map.mp hp
      exact ⟨by rw [hfront hx], by rw [hfront hx]⟩
    · intro p hp
      obtain ⟨x, hx, rfl⟩ := List.mem_map.mp hp
      rw [hrest hx]
      split <;> rfl
    · intro p hp
      obtain ⟨x, hx, rfl⟩ := List.mem_map.mp (List.mem_of_mem_tail hp)
      rw [hrest hx, if_neg fun hc => h.tail_ne_head hp hc.2]
    · intro p hp
      obtain rfl := head?_eq_headAddr hp
      obtain ⟨x, hx, hxp⟩ := List.mem_map.mp (List.mem_of_mem_head? hp)
      have hbehind := h.behind hx
      rw [← hxp, hrest hx, if_pos ⟨by omega, hxp⟩]
  · intro x hx
    simp only [List.mem_append, List.mem_cons] at hx
    rcases hx with hx | rfl | rfl | hx
    · rw [hfront hx]
      exact h.size x (List.mem_append_left _ hx)
    · rw [hcur]
    · have hsize := h.size b hb
      have hle : size ≤ (header m b.addr).size := by
        rw [UInt32.le_iff_toNat_le]
        omega
      have hsub := UInt32.toNat_sub_of_le _ _ hle
      have hle' : headerBytes ≤ (header m b.addr).size - size := by
        rw [UInt32.le_iff_toNat_le, hsub, hsize]
        change 16 ≤ _
        omega
      rw [hsplit]
      simp only
      rw [UInt32.toNat_sub_of_le _ _ hle', hsub, hsize]
      rfl
    · have := h.size x (by simp [hx])
      rw [hrest hx]
      split <;> exact this
  · intro x hx
    simp only [List.mem_append, List.mem_cons] at hx
    rcases hx with hx | rfl | rfl | hx
    · rw [hfront hx]
      exact h.free x (List.mem_append_left _ hx)
    · rw [hcur]
      exact h.free b hb
    · rw [hsplit]
    · have := h.free x (by simp [hx])
      rw [hrest hx]
      split <;> exact this
  · intro x hx
    simp only [List.mem_append, List.mem_cons] at hx
    rcases hx with hx | rfl | rfl | hx
    · exact h.aligned x (List.mem_append_left _ hx)
    · exact h8
    · have hb8 := h.aligned b hb
      simp only
      omega
    · exact h.aligned x (by simp [hx])

theorem Rep.absorb {c : Tiling.Block} (h : Rep area m (front ++ b :: c :: rest)) :
    Rep area (absorb m b.addr c.addr)
      (front ++ ⟨b.addr, b.size + 16 + c.size, b.free⟩ :: rest) := by
  have hassoc : front ++ b :: c :: rest = (front ++ [b]) ++ c :: rest := by simp
  have hc : Rep area m ((front ++ [b]) ++ c :: rest) := hassoc ▸ h
  obtain ⟨hpos, hstop, hfits⟩ := hc.bounds
  obtain ⟨hnext, hnext32⟩ := hc.headAddr_rest
  have hbc : b.addr + 16 + b.size = c.addr := by
    obtain ⟨mid, -, -, hmid, -⟩ := tiles_append.mp h.tiles
    exact hmid.symm
  have hheader {x : Nat} (hcur : Clear b.addr x)
      (hx : headAddr rest = 0 ∨ Clear (headAddr rest) x) :=
    header_absorb (x := x) hc.next_eq (show b.addr + 16 ≤ c.addr by omega)
      (hnext.imp_right fun h => by omega) (by omega) hnext32 hcur hx
  have hleft : header (Kheap.absorb m b.addr c.addr) b.addr = { header m b.addr with
      size := (header m b.addr).size + (headerBytes + (header m c.addr).size),
      next := headAddr rest } := by
    rw [hheader (Clear.refl _) (hnext.imp_right fun h => Or.inr (Or.inr (by omega))), if_pos rfl]
  have hfront {x : Tiling.Block} (hx : x ∈ front) :
      header (Kheap.absorb m b.addr c.addr) x.addr = header m x.addr := by
    have hbefore := h.before hx
    rw [hheader (Or.inr (Or.inr (by omega))) (hnext.imp_right fun h => Or.inr (Or.inr (by omega))),
      if_neg (by omega), if_neg (by omega)]
  have hrest {x : Tiling.Block} (hx : x ∈ rest) : header (Kheap.absorb m b.addr c.addr) x.addr =
      if headAddr rest ≠ 0 ∧ x.addr = headAddr rest then
        { header m x.addr with prev := b.addr } else header m x.addr := by
    have hbehind := hc.behind hx
    have hclear : Clear (headAddr rest) x.addr :=
      (hc.behind_head hx).elim (fun h => Or.inl h.symm) fun h => Or.inr (Or.inl h)
    rw [hheader (Or.inr (Or.inl (by omega))) (Or.inr hclear), if_neg (by omega)]
  have hb : b ∈ front ++ b :: c :: rest := by simp
  have hc' : c ∈ front ++ b :: c :: rest := by simp
  refine ⟨?_, ?_, ?_, ?_, ?_⟩
  · refine h.tiles.join rfl ?_
    simp only [Tiling.Block.stop]
    omega
  · have hlinked := h.linked
    rw [List.map_append, List.map_cons, List.map_cons] at hlinked
    rw [List.map_append, List.map_cons]
    refine hlinked.remove (by rw [hleft, hc.next_eq]) (by rw [hleft]) ?_ ?_ ?_ ?_
    · intro p hp
      obtain ⟨x, hx, rfl⟩ := List.mem_map.mp hp
      exact ⟨by rw [hfront hx], by rw [hfront hx]⟩
    · intro p hp
      obtain ⟨x, hx, rfl⟩ := List.mem_map.mp hp
      rw [hrest hx]
      split <;> rfl
    · intro p hp
      obtain ⟨x, hx, rfl⟩ := List.mem_map.mp (List.mem_of_mem_tail hp)
      rw [hrest hx, if_neg fun heq => hc.tail_ne_head hp heq.2]
    · intro p hp
      obtain rfl := head?_eq_headAddr hp
      obtain ⟨x, hx, hxp⟩ := List.mem_map.mp (List.mem_of_mem_head? hp)
      have hbehind := hc.behind hx
      rw [← hxp, hrest hx, if_pos ⟨by omega, hxp⟩]
  · intro x hx
    simp only [List.mem_append, List.mem_cons] at hx
    rcases hx with hx | rfl | hx
    · rw [hfront hx]
      exact h.size x (List.mem_append_left _ hx)
    · rw [hleft]
      simp only
      rw [UInt32.toNat_add, UInt32.toNat_add, h.size b hb, h.size c hc']
      change (b.size + (16 + c.size) % 2 ^ 32) % 2 ^ 32 = _
      omega
    · have := h.size x (by simp [hx])
      rw [hrest hx]
      split <;> exact this
  · intro x hx
    simp only [List.mem_append, List.mem_cons] at hx
    rcases hx with hx | rfl | hx
    · rw [hfront hx]
      exact h.free x (List.mem_append_left _ hx)
    · rw [hleft]
      exact h.free b hb
    · have := h.free x (by simp [hx])
      rw [hrest hx]
      split <;> exact this
  · intro x hx
    simp only [List.mem_append, List.mem_cons] at hx
    rcases hx with hx | rfl | hx
    · exact h.aligned x (List.mem_append_left _ hx)
    · have hb8 := h.aligned b hb
      have hc8 := h.aligned c hc'
      simp only
      omega
    · exact h.aligned x (by simp [hx])

end Rep

end SevenOS.Kheap
