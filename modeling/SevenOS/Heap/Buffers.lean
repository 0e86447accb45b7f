import SevenOS.Heap.Frames
import SevenOS.Heap.Ownership

/-! # Buffers and their bytes

`Buffers` lists the allocated buffers with the room they have. A new buffer overlaps
no other one, one that is given back takes no other along, and a store changes one
buffer only.
-/

namespace SevenOS

open Prog Kheap

variable {area : HeapArea} {own own' : List (Nat × Nat)} {r : HeapRun} {a : Nat}

/-- The memory is written to. -/
def HeapRun.write (f : Memory → Memory) (r : HeapRun) : HeapRun :=
  ⟨⟨f r.heap.memory, r.heap.heapHead⟩, r.live⟩

def writes (f : Memory → Memory) : HeapProg Unit := modify (HeapRun.write f)

/-- The allocated buffers are those of `own`, each once and with this room. -/
structure Buffers (area : HeapArea) (own : List (Nat × Nat)) (r : HeapRun) : Prop where
  live : (r.live.map Allocation.ptr).Perm (own.map Prod.fst)
  heap : (∃ m, r = HeapRun.start m) ∨ ∃ blocks, Managed area r blocks ∧ ∀ b ∈ own,
    ∃ x ∈ blocks, x.free = false ∧ b.1 = x.addr + 16 ∧ b.2 ≤ x.size

/-- A byte of one of the buffers. -/
def InBuffers (own : List (Nat × Nat)) (a : Nat) : Prop := ∃ b ∈ own, b.1 ≤ a ∧ a < b.1 + b.2

def SameBytes (own : List (Nat × Nat)) (r r' : HeapRun) : Prop :=
  ∀ a, InBuffers own a → r'.heap.memory.byte a = r.heap.memory.byte a

theorem SameBytes.refl (own : List (Nat × Nat)) (r : HeapRun) : SameBytes own r r :=
  fun _ _ => rfl

theorem SameBytes.trans {r' r'' : HeapRun} (h : SameBytes own r r') (h' : SameBytes own r' r'') :
    SameBytes own r r'' := fun a ha => (h' a ha).trans (h a ha)

theorem SameBytes.sub {r' : HeapRun} (h : SameBytes own r r') (hsub : ∀ b ∈ own', b ∈ own) :
    SameBytes own' r r' := fun a ha => by
  obtain ⟨b, hb, hin⟩ := ha
  exact h a ⟨b, hsub b hb, hin⟩

namespace Buffers

theorem perm (h : Buffers area own r) (hperm : own.Perm own') : Buffers area own' r := by
  refine ⟨h.live.trans (hperm.map _), h.heap.imp_right fun hheap => ?_⟩
  obtain ⟨blocks, hmanaged, hroom⟩ := hheap
  exact ⟨blocks, hmanaged, fun b hb => hroom b (hperm.mem_iff.mpr hb)⟩

theorem owns (h : Buffers area own r) : Owns area (own.map Prod.fst) r := by
  refine ⟨h.live, h.heap.imp_right fun hheap => ?_⟩
  obtain ⟨blocks, hmanaged, -⟩ := hheap
  exact ⟨blocks, hmanaged⟩

theorem nil_of_start {m : Memory} (h : Buffers area own (HeapRun.start m)) : own = [] :=
  List.map_eq_nil_iff.mp (List.nil_perm.mp h.live)

/-- The heap with its blocks, laid out already or by the first call. -/
theorem laidOut (h : Buffers area own r) : ∃ heap blocks,
    heapInit area r.heap = heapInit area heap ∧ Managed area ⟨heap, r.live⟩ blocks ∧
      SameBytes own r ⟨heap, r.live⟩ ∧
      ∀ b ∈ own, ∃ x ∈ blocks, x.free = false ∧ b.1 = x.addr + 16 ∧ b.2 ≤ x.size := by
  rcases h.heap with ⟨m, rfl⟩ | ⟨blocks, hmanaged, hroom⟩
  · obtain rfl := h.nil_of_start
    obtain ⟨m', hinit, hmanaged⟩ := start_managed area m
    refine ⟨_, _, ?_, hmanaged, ?_, by simp⟩
    · rw [HeapRun.start, hinit, heapInit, if_pos hmanaged.head_ne]
    · intro a ha
      obtain ⟨b, hb, -⟩ := ha
      cases hb
  · exact ⟨r.heap, blocks, rfl, hmanaged, .refl own r, hroom⟩

theorem nodup (h : Buffers area own r) : (own.map Prod.fst).Nodup :=
  let ⟨_, _, _, hnodup, _⟩ := h.owns.blocks
  hnodup

theorem bounds (h : Buffers area own r) {b : Nat × Nat} (hb : b ∈ own) :
    b.1 ≠ 0 ∧ b.1 + b.2 ≤ 2 ^ 32 ∧ b.2 ≤ 65536 := by
  obtain ⟨heap, blocks, -, hmanaged, -, hroom⟩ := h.laidOut
  obtain ⟨x, hx, -, hptr, hle⟩ := hroom b hb
  have hbounds := hmanaged.rep.tiles.bounds hx
  have hfits := area.fits
  rw [Tiling.Block.stop] at hbounds
  omega

theorem apart (h : Buffers area own r) {b c : Nat × Nat} (hb : b ∈ own) (hc : c ∈ own)
    (hne : b.1 ≠ c.1) : b.1 + b.2 ≤ c.1 ∨ c.1 + c.2 ≤ b.1 := by
  obtain ⟨heap, blocks, -, hmanaged, -, hroom⟩ := h.laidOut
  obtain ⟨x, hx, -, hxptr, hxle⟩ := hroom b hb
  obtain ⟨y, hy, -, hyptr, hyle⟩ := hroom c hc
  obtain ⟨front, rest, rfl⟩ := List.append_of_mem hx
  rcases List.mem_append.mp hy with hy | hy
  · have := hmanaged.rep.before hy
    exact .inr (by omega)
  · rcases List.mem_cons.mp hy with rfl | hy
    · omega
    · have := hmanaged.rep.behind hy
      exact .inl (by omega)

theorem head_ne {b c : Nat × Nat} (h : Buffers area (b :: own) r) (hc : c ∈ own) :
    b.1 ≠ c.1 := fun heq =>
  (List.nodup_cons.mp h.nodup).1 (List.mem_map.mpr ⟨c, hc, heq.symm⟩)

theorem head_apart {b c : Nat × Nat} (h : Buffers area (b :: own) r) (hc : c ∈ own) :
    b.1 + b.2 ≤ c.1 ∨ c.1 + c.2 ≤ b.1 :=
  h.apart List.mem_cons_self (List.mem_cons_of_mem b hc) (h.head_ne hc)

/-- What is written to one buffer leaves the others and the heap as they were. -/
theorem write {b : Nat × Nat} (h : Buffers area (b :: own) r) {f : Memory → Memory}
    (hout : ∀ a, a < b.1 ∨ b.1 + b.2 ≤ a → (f r.heap.memory).byte a = r.heap.memory.byte a) :
    Buffers area (b :: own) (r.write f) ∧ SameBytes own r (r.write f) := by
  constructor
  · refine ⟨h.live, ?_⟩
    rcases h.heap with ⟨m, rfl⟩ | ⟨blocks, hmanaged, hroom⟩
    · exact absurd h.nil_of_start (List.cons_ne_nil _ _)
    · obtain ⟨x, hx, hused, hptr, hle⟩ := hroom b List.mem_cons_self
      have hrep := hmanaged.rep.fill hx (a := b.1) (n := b.2) (by omega) (by omega)
        fun i => (f r.heap.memory).byte (b.1 + i)
      rw [← Memory.eq_fill hout] at hrep
      exact .inr ⟨blocks, ⟨hmanaged.head, hrep, hmanaged.settled, hmanaged.live, hmanaged.roomy⟩,
        hroom⟩
  · intro a ha
    obtain ⟨c, hc, hlow, hhigh⟩ := ha
    have happart := h.head_apart hc
    exact hout a (by omega)

end Buffers

/-- The buffers that calls of `kmalloc` and `kfree` leave allocated. -/
theorem start_buffers {m : Memory} {calls : List HeapCall}
    (hlegal : (HeapRun.start m).Legal area calls)
    (hrun : (HeapRun.start m).run area calls = some r) :
    Buffers area (r.live.map fun a => (a.ptr, (align8 a.asked).toNat)) r := by
  obtain ⟨r', hrun', hcases⟩ := start_run_cases hlegal
  obtain rfl : r' = r := Option.some.inj (hrun'.symm.trans hrun)
  refine ⟨?_, hcases.imp (fun hstart => ⟨m, hstart⟩) ?_⟩
  · rw [List.map_map]
    exact List.Perm.refl _
  · rintro ⟨blocks, hmanaged⟩
    refine ⟨blocks, hmanaged, fun b hb => ?_⟩
    obtain ⟨a, ha, rfl⟩ := List.mem_map.mp hb
    obtain ⟨x, hx, hused, hptr, hle⟩ := hmanaged.roomy a ha
    exact ⟨x, hx, hused, hptr, hle⟩

/-! ## Allocation -/

/-- A new buffer is one more, and nothing happens to the others. The size must be one that
`align8` can round up: for a larger one the block may be shorter. -/
theorem newBytes_buffers (h : Buffers area own r) {size : Nat} (hsize : size ≤ 2 ^ 32 - 8) :
    wp (newBytes area size) (fun ptr r' => ptr ≠ 0 ∧ Buffers area ((ptr, size) :: own) r' ∧
      SameBytes own r r') (fun _ => True) (fun _ => False) r := by
  obtain ⟨heap, blocks, hheap, hmanaged, hsame, hroom⟩ := h.laidOut
  rcases newBytes_cases hheap hmanaged size with
    ⟨r', hnull⟩ | ⟨heap', ptr, blocks', hnew, hptr, hrun, hserved, hmanaged'⟩
  · rw [wp, hnull]
    trivial
  rw [wp, hnew]
  refine ⟨hptr, ⟨h.live.cons ptr, .inr ⟨blocks', hmanaged', ?_⟩⟩, ?_⟩
  · intro b hb
    rcases List.mem_cons.mp hb with rfl | hb
    · rcases hserved with ⟨rfl, -⟩ | ⟨front, x, rest, size', extra, -, -, -, rfl, hle, -, rfl⟩
      · exact absurd rfl hptr
      · have hx : (⟨x.addr, size', false⟩ : Tiling.Block) ∈
            front ++ ⟨x.addr, size', false⟩ :: (extra ++ rest) := by simp
        have hnat : (UInt32.ofNat size).toNat = size :=
          UInt32.toNat_ofNat_of_lt' (Nat.lt_of_le_of_lt hsize (by decide))
        have hrounded : size ≤ roundUp8 size := by
          unfold roundUp8
          omega
        rw [align8_toNat, hnat, if_pos hsize] at hle
        exact ⟨_, hx, rfl, rfl, Nat.le_trans hrounded hle⟩
    · obtain ⟨x, hx, hused, hroom⟩ := hroom b hb
      exact ⟨x, hserved.keeps hx hused, hused, hroom⟩
  · apply hsame.trans
    intro a ha
    obtain ⟨b, hb, hlow, hhigh⟩ := ha
    obtain ⟨x, hx, hused, hbptr, hle⟩ := hroom b hb
    exact hmanaged.kmalloc_byte hx hused ⟨by omega, by omega⟩ hrun

/-- Whatever the size, `kmalloc` comes back. -/
theorem newBytes_returns (h : Buffers area own r) (size : Nat) :
    wp (newBytes area size) (fun _ _ => True) (fun _ => True) (fun _ => False) r := by
  obtain ⟨heap, blocks, hheap, hmanaged, -, -⟩ := h.laidOut
  rcases newBytes_cases hheap hmanaged size with ⟨r', hnull⟩ | ⟨heap', ptr, blocks', hnew, -⟩
  · rw [wp, hnull]
    trivial
  · rw [wp, hnew]
    trivial

/-- A buffer given back is one less; its bytes stay for the moment. -/
theorem deleteBytes_buffers {ptr n : Nat} (h : Buffers area ((ptr, n) :: own) r)
    {Q : Unit → HeapRun → Prop} (hQ : ∀ r', Buffers area own r' →
      SameBytes ((ptr, n) :: own) r r' → Q () r') :
    wp (deleteBytes ptr) Q (fun _ => True) (fun _ => False) r := by
  rw [deleteBytes, wp_modify]
  rcases h.heap with ⟨m, rfl⟩ | ⟨blocks, hmanaged, hroom⟩
  · exact absurd h.nil_of_start (List.cons_ne_nil _ _)
  obtain ⟨x, hx, hused, hptr, hle⟩ := hroom (ptr, n) List.mem_cons_self
  have hmem : ptr ∈ r.live.map Allocation.ptr := h.live.mem_iff.mpr List.mem_cons_self
  obtain ⟨a, ha, haptr⟩ := List.mem_map.mp hmem
  obtain ⟨r', blocks', hstep, hmanaged', hkeeps⟩ := hmanaged.kfree_keeps ⟨a, ha, haptr⟩
  obtain rfl := Option.some.inj hstep
  have hnodup := (List.nodup_cons.mp h.nodup).1
  apply hQ
  · refine ⟨?_, .inr ⟨blocks', hmanaged', fun b hb => ?_⟩⟩
    · rw [live_erase]
      have := h.live.erase ptr
      rwa [List.map_cons, List.erase_cons_head] at this
    · obtain ⟨y, hy, hyused, hyptr, hyle⟩ := hroom b (List.mem_cons_of_mem _ hb)
      have hne : y.addr + 16 ≠ ptr := fun heq =>
        hnodup (List.mem_map.mpr ⟨b, hb, hyptr.trans heq⟩)
      exact ⟨y, hkeeps y hy hyused hne, hyused, hyptr, hyle⟩
  · intro a ha
    obtain ⟨b, hb, hlow, hhigh⟩ := ha
    obtain ⟨y, hy, -, hyptr, hyle⟩ := hroom b hb
    have hbyte := hmanaged.kfree_byte hy (a := a) ⟨by omega, by omega⟩ hx
    rwa [← hptr] at hbyte

end SevenOS
