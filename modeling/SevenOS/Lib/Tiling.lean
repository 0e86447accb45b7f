import Mathlib.Data.List.Chain
import Mathlib.Data.List.Pairwise

/-! # Intervals cut into blocks

An interval of addresses cut without gaps into blocks, each a header of fixed
length in front of its payload, and the doubly linked list that runs through the
headers. Cutting one block in two and joining two neighbours keep both.
-/

namespace Tiling

/-- A block: where its header is, how long its payload is, whether it is free. -/
structure Block where
  addr : Nat
  size : Nat
  free : Bool
  deriving DecidableEq, Repr

section Tiles

variable (header : Nat)

def Block.stop (b : Block) : Nat := b.addr + header + b.size

/-- The blocks cover the interval from `lo` to `hi`, in order and without gaps. -/
def Tiles : Nat → List Block → Nat → Prop
  | lo, [], hi => lo = hi
  | lo, b :: rest, hi => b.addr = lo ∧ Tiles (b.stop header) rest hi

variable {header}

theorem tiles_append {lo hi : Nat} {front rest : List Block} :
    Tiles header lo (front ++ rest) hi ↔
      ∃ mid, Tiles header lo front mid ∧ Tiles header mid rest hi := by
  induction front generalizing lo with
  | nil => simp [Tiles]
  | cons b front ih => simp only [List.cons_append, Tiles, ih, and_assoc, exists_and_left]

theorem Tiles.le {lo hi : Nat} {blocks : List Block} (h : Tiles header lo blocks hi) :
    lo ≤ hi := by
  induction blocks generalizing lo with
  | nil => exact Nat.le_of_eq h
  | cons b rest ih =>
      have hrest := ih h.2
      have hlo := h.1
      rw [Block.stop] at hrest
      omega

theorem Tiles.bounds {lo hi : Nat} {blocks : List Block} (h : Tiles header lo blocks hi)
    {b : Block} (hb : b ∈ blocks) : lo ≤ b.addr ∧ b.stop header ≤ hi := by
  induction blocks generalizing lo with
  | nil => exact absurd hb List.not_mem_nil
  | cons first rest ih =>
      obtain ⟨hfirst, hrest⟩ := h
      rcases List.mem_cons.mp hb with rfl | hb
      · exact ⟨Nat.le_of_eq hfirst.symm, hrest.le⟩
      · have hstop : lo ≤ first.stop header := by
          rw [Block.stop, hfirst]
          omega
        exact ⟨hstop.trans (ih hrest hb).1, (ih hrest hb).2⟩

theorem Tiles.pairwise {lo hi : Nat} {blocks : List Block} (h : Tiles header lo blocks hi) :
    blocks.Pairwise fun a b => a.stop header ≤ b.addr := by
  induction blocks generalizing lo with
  | nil => exact List.Pairwise.nil
  | cons first rest ih =>
      exact List.pairwise_cons.mpr ⟨fun b hb => (h.2.bounds hb).1, ih h.2⟩

/-- Around one block: what is before it and what is behind it. -/
theorem Tiles.around {lo hi : Nat} {front rest : List Block} {b : Block}
    (h : Tiles header lo (front ++ b :: rest) hi) :
    (∀ x ∈ front, x.stop header ≤ b.addr) ∧ ∀ x ∈ rest, b.stop header ≤ x.addr := by
  have hpairs := List.pairwise_append.mp h.pairwise
  refine ⟨fun x hx => hpairs.2.2 x hx b List.mem_cons_self, ?_⟩
  exact (List.pairwise_cons.mp hpairs.2.1).1

theorem Tiles.mark {lo hi : Nat} {front rest : List Block} {b b' : Block}
    (h : Tiles header lo (front ++ b :: rest) hi) (haddr : b'.addr = b.addr)
    (hsize : b'.size = b.size) : Tiles header lo (front ++ b' :: rest) hi := by
  obtain ⟨mid, hfront, hb, hrest⟩ := tiles_append.mp h
  have hstop : b'.stop header = b.stop header := by rw [Block.stop, Block.stop, haddr, hsize]
  exact tiles_append.mpr ⟨mid, hfront, haddr.trans hb, hstop ▸ hrest⟩

theorem Tiles.cut {lo hi : Nat} {front rest : List Block} {b left right : Block}
    (h : Tiles header lo (front ++ b :: rest) hi) (haddr : left.addr = b.addr)
    (hcut : left.stop header = right.addr) (hstop : right.stop header = b.stop header) :
    Tiles header lo (front ++ left :: right :: rest) hi := by
  obtain ⟨mid, hfront, hb, hrest⟩ := tiles_append.mp h
  exact tiles_append.mpr ⟨mid, hfront, haddr.trans hb, hcut.symm, hstop ▸ hrest⟩

theorem Tiles.join {lo hi : Nat} {front rest : List Block} {left right b : Block}
    (h : Tiles header lo (front ++ left :: right :: rest) hi) (haddr : b.addr = left.addr)
    (hstop : b.stop header = right.stop header) :
    Tiles header lo (front ++ b :: rest) hi := by
  obtain ⟨mid, hfront, hleft, -, hrest⟩ := tiles_append.mp h
  exact tiles_append.mpr ⟨mid, hfront, haddr.trans hleft, hstop ▸ hrest⟩

/-- Every block takes at least a header. -/
theorem Tiles.length_le {lo hi : Nat} {blocks : List Block} (h : Tiles header lo blocks hi) :
    lo + header * blocks.length ≤ hi := by
  induction blocks generalizing lo with
  | nil => simpa using Nat.le_of_eq h
  | cons b rest ih =>
      have hrest := ih h.2
      have hlo := h.1
      rw [Block.stop] at hrest
      rw [List.length_cons, Nat.mul_succ]
      omega

end Tiles

/-! ## Free neighbours -/

/-- No two neighbours are both free. -/
def Settled (blocks : List Block) : Prop :=
  blocks.IsChain fun a b => ¬(a.free = true ∧ b.free = true)

/-- When all blocks are free there is only one. -/
theorem Settled.eq_singleton {blocks : List Block} (h : Settled blocks) (hne : blocks ≠ [])
    (hfree : ∀ b ∈ blocks, b.free = true) : ∃ b, blocks = [b] := by
  match blocks, hne with
  | [b], _ => exact ⟨b, rfl⟩
  | a :: b :: rest, _ =>
      have hpair : ¬(a.free = true ∧ b.free = true) := (List.isChain_cons_cons.mp h).1
      exact absurd ⟨hfree a (by simp), hfree b (by simp)⟩ hpair

theorem settled_append {front rest : List Block} :
    Settled (front ++ rest) ↔ Settled front ∧ Settled rest ∧
      ∀ a ∈ front.getLast?, ∀ b ∈ rest.head?, ¬(a.free = true ∧ b.free = true) :=
  List.isChain_append

theorem settled_cons {b : Block} {rest : List Block} :
    Settled (b :: rest) ↔ Settled rest ∧ ∀ c ∈ rest.head?, ¬(b.free = true ∧ c.free = true) := by
  rw [← List.singleton_append, settled_append]
  simp [Settled]

theorem Settled.take {front rest : List Block} {b b' : Block}
    (h : Settled (front ++ b :: rest)) (hb' : b'.free = false) :
    Settled (front ++ b' :: rest) := by
  obtain ⟨hfront, hrest, -⟩ := settled_append.mp h
  refine settled_append.mpr ⟨hfront, settled_cons.mpr ⟨(settled_cons.mp hrest).1, ?_⟩, ?_⟩
  · simp [hb']
  · simp [hb']

theorem Settled.cut {front rest : List Block} {b left right : Block}
    (h : Settled (front ++ b :: rest)) (hb : b.free = true) (hleft : left.free = false) :
    Settled (front ++ left :: right :: rest) := by
  obtain ⟨hfront, hrest, -⟩ := settled_append.mp h
  obtain ⟨htail, hnext⟩ := settled_cons.mp hrest
  have hright : Settled (right :: rest) :=
    settled_cons.mpr ⟨htail, fun c hc hboth => hnext c hc ⟨hb, hboth.2⟩⟩
  refine settled_append.mpr ⟨hfront, settled_cons.mpr ⟨hright, ?_⟩, ?_⟩
  · simp [hleft]
  · simp [hleft]

theorem Settled.between {front rest : List Block} (b : Block) (hfront : Settled front)
    (hrest : Settled rest) (hlast : ∀ a ∈ front.getLast?, a.free = false)
    (hhead : ∀ c ∈ rest.head?, c.free = false) : Settled (front ++ b :: rest) := by
  refine settled_append.mpr ⟨hfront, settled_cons.mpr ⟨hrest, ?_⟩, ?_⟩
  · intro c hc
    simp [hhead c hc]
  · intro a ha
    simp [hlast a ha]

/-! ## Payloads in use -/

/-- The payloads of the blocks that are not free. -/
def held (header : Nat) (blocks : List Block) : List Nat :=
  (blocks.filter fun b => !b.free).map fun b => b.addr + header

theorem held_append (header : Nat) (front rest : List Block) :
    held header (front ++ rest) = held header front ++ held header rest := by
  rw [held, List.filter_append, List.map_append]
  rfl

theorem held_cons_free {header : Nat} {b : Block} (rest : List Block) (hb : b.free = true) :
    held header (b :: rest) = held header rest := by
  simp [held, hb]

theorem held_cons_used {header : Nat} {b : Block} (rest : List Block) (hb : b.free = false) :
    held header (b :: rest) = (b.addr + header) :: held header rest := by
  simp [held, hb]

theorem mem_held {header p : Nat} {blocks : List Block} :
    p ∈ held header blocks ↔ ∃ b ∈ blocks, b.free = false ∧ p = b.addr + header := by
  simp only [held, List.mem_map, List.mem_filter, Bool.not_eq_true']
  constructor
  · rintro ⟨b, ⟨hb, hfree⟩, rfl⟩
    exact ⟨b, hb, hfree, rfl⟩
  · rintro ⟨b, hb, hfree, rfl⟩
    exact ⟨b, ⟨hb, hfree⟩, rfl⟩

theorem Tiles.held_nodup {header lo hi : Nat} {blocks : List Block} (hheader : 0 < header)
    (h : Tiles header lo blocks hi) : (held header blocks).Nodup := by
  have hpairs := h.pairwise.filter fun b => !b.free
  refine List.Pairwise.map _ (fun a b hab => ?_) hpairs
  rw [Block.stop] at hab
  omega

/-! ## The links -/

section Links

variable (next prev : Nat → Nat)

/-- A doubly linked list of addresses: `before` is behind the first and `after`
follows the last. -/
def Linked : Nat → List Nat → Nat → Prop
  | _, [], _ => True
  | before, p :: rest, after =>
      prev p = before ∧ next p = rest.headD after ∧ Linked p rest after

variable {next prev}

theorem headD_append (front rest : List Nat) (after : Nat) :
    (front ++ rest).headD after = front.headD (rest.headD after) := by
  cases front <;> rfl

theorem linked_append {before after : Nat} {front rest : List Nat} :
    Linked next prev before (front ++ rest) after ↔
      Linked next prev before front (rest.headD after) ∧
        Linked next prev (front.getLastD before) rest after := by
  induction front generalizing before with
  | nil => exact ⟨fun h => ⟨trivial, h⟩, fun h => h.2⟩
  | cons p front ih =>
      simp only [List.cons_append, Linked, List.getLastD_cons, headD_append, ih, and_assoc]

/-- Links that only change in what the first address has behind it. -/
theorem Linked.transport {next' prev' : Nat → Nat} {before before' after : Nat}
    {list : List Nat} (h : Linked next prev before list after)
    (hnext : ∀ x ∈ list, next' x = next x) (hprev : ∀ x ∈ list.tail, prev' x = prev x)
    (hhead : ∀ x ∈ list.head?, prev' x = before') : Linked next' prev' before' list after := by
  induction list generalizing before before' with
  | nil => trivial
  | cons p rest ih =>
      obtain ⟨-, hp, hrest⟩ := h
      refine ⟨hhead p rfl, (hnext p List.mem_cons_self).trans hp, ?_⟩
      refine ih hrest (fun x hx => hnext x (List.mem_cons_of_mem p hx))
        (fun x hx => hprev x (List.mem_of_mem_tail hx)) fun x hx => ?_
      cases rest with
      | nil => simp at hx
      | cons q rest =>
          obtain rfl : q = x := by simpa using hx
          exact (hprev q List.mem_cons_self).trans hrest.1

/-- The links of a list are not touched by stores elsewhere. -/
theorem Linked.frame {next' prev' : Nat → Nat} {before after : Nat} {list : List Nat}
    (h : Linked next prev before list after) (hnext : ∀ x ∈ list, next' x = next x)
    (hprev : ∀ x ∈ list, prev' x = prev x) : Linked next' prev' before list after := by
  refine h.transport hnext (fun x hx => hprev x (List.mem_of_mem_tail hx)) fun x hx => ?_
  cases list with
  | nil => simp at hx
  | cons p rest =>
      obtain rfl : p = x := by simpa using hx
      exact (hprev p List.mem_cons_self).trans h.1

/-- A new address is linked in behind `p`. -/
theorem Linked.insert {next' prev' : Nat → Nat} {before after p q : Nat}
    {front rest : List Nat} (h : Linked next prev before (front ++ p :: rest) after)
    (hp : next' p = q) (hp' : prev' p = prev p) (hq : next' q = next p) (hq' : prev' q = p)
    (hfront : ∀ x ∈ front, next' x = next x ∧ prev' x = prev x)
    (hrest : ∀ x ∈ rest, next' x = next x) (htail : ∀ x ∈ rest.tail, prev' x = prev x)
    (hhead : ∀ x ∈ rest.head?, prev' x = q) :
    Linked next' prev' before (front ++ p :: q :: rest) after := by
  obtain ⟨hbefore, hprev, hnext, hbehind⟩ := linked_append.mp h
  refine linked_append.mpr ⟨?_, hp'.trans hprev, hp, hq', hq.trans hnext, ?_⟩
  · exact hbefore.frame (fun x hx => (hfront x hx).1) fun x hx => (hfront x hx).2
  · exact hbehind.transport hrest htail hhead

/-- The address behind `p` is taken out. -/
theorem Linked.remove {next' prev' : Nat → Nat} {before after p q : Nat}
    {front rest : List Nat} (h : Linked next prev before (front ++ p :: q :: rest) after)
    (hp : next' p = next q) (hp' : prev' p = prev p)
    (hfront : ∀ x ∈ front, next' x = next x ∧ prev' x = prev x)
    (hrest : ∀ x ∈ rest, next' x = next x) (htail : ∀ x ∈ rest.tail, prev' x = prev x)
    (hhead : ∀ x ∈ rest.head?, prev' x = p) :
    Linked next' prev' before (front ++ p :: rest) after := by
  obtain ⟨hbefore, hprev, -, -, hnext, hbehind⟩ := linked_append.mp h
  refine linked_append.mpr ⟨?_, hp'.trans hprev, hp.trans hnext, ?_⟩
  · exact hbefore.frame (fun x hx => (hfront x hx).1) fun x hx => (hfront x hx).2
  · exact hbehind.transport hrest htail hhead

theorem Linked.at_mid {before after p : Nat} {front rest : List Nat}
    (h : Linked next prev before (front ++ p :: rest) after) :
    prev p = front.getLastD before ∧ next p = rest.headD after :=
  ⟨(linked_append.mp h).2.1, (linked_append.mp h).2.2.1⟩

/-- Forward and back links are inverse to each other. -/
theorem Linked.inverse {before after p q : Nat} {list : List Nat}
    (h : Linked next prev before list after) (hbefore : before ∉ list) (hafter : after ∉ list)
    (hp : p ∈ list) (hq : q ∈ list) : next p = q ↔ prev q = p := by
  constructor
  · intro hpq
    obtain ⟨front, rest, rfl⟩ := List.append_of_mem hp
    rw [h.at_mid.2] at hpq
    cases rest with
    | nil =>
        obtain rfl : after = q := hpq
        exact absurd hq hafter
    | cons q' rest =>
        obtain rfl : q' = q := hpq
        have hmid : Linked next prev before ((front ++ [p]) ++ q' :: rest) after := by simpa using h
        rw [hmid.at_mid.1, List.getLastD_concat]
  · intro hqp
    obtain ⟨front, rest, rfl⟩ := List.append_of_mem hq
    rw [h.at_mid.1] at hqp
    rcases List.eq_nil_or_concat' front with rfl | ⟨init, p', rfl⟩
    · obtain rfl : before = p := hqp
      exact absurd hp hbefore
    · rw [List.getLastD_concat] at hqp
      subst hqp
      have hmid : Linked next prev before (init ++ p' :: q :: rest) after := by simpa using h
      rw [hmid.at_mid.2]
      rfl

end Links

end Tiling
