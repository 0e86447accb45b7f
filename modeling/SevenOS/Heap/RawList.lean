import SevenOS.Lib.Cells
import SevenOS.Heap.Buffers

/-! # Lists in memory

`ArrayList<T>` with its elements where they are, in the bytes of its buffer. A value
of `T` is its bytes, which assignment copies. Each method is given by what it makes
of the elements, and it leaves the buffers of everybody else alone. (For who owns
which buffer, `Heap.Strings` keeps the elements beside the pointer instead.)
-/

namespace SevenOS.Raw

open Prog

/-- A type of elements, with its `sizeof`. -/
structure ElemType where
  width : Nat
  pos : 0 < width

abbrev ElemType.Value (T : ElemType) : Type := Bytes T.width

/-- `ArrayList<T>` -/
structure ArrayList (T : ElemType) where
  data : Nat
  len : UInt32
  cap : UInt32
  deriving DecidableEq

namespace ArrayList

variable {T : ElemType} (area : HeapArea)

/-- `ArrayList()` -/
def new : ArrayList T := ⟨0, 0, 0⟩

/-- `if (data) kfree(data);` -/
def freeData (l : ArrayList T) : HeapProg Unit :=
  if l.data ≠ 0 then deleteBytes l.data else pure ()

def grow (l : ArrayList T) (newCap : UInt32) : HeapProg (ArrayList T) := do
  let newData ← newBytes area (T.width * newCap.toNat)
  writes fun m => m.copyCells T.width l.data newData l.len.toNat
  l.freeData
  return ⟨newData, l.len, newCap⟩

/-- `push_back`; the value is given by reference, and read when the list has grown. -/
def pushBack (l : ArrayList T) (value : Memory → T.Value) : HeapProg (ArrayList T) :=
  (if l.len + 1 > l.cap then l.grow area (if l.cap = 0 then 4 else l.cap * 2) else pure l) >>=
    fun l => do
      writes fun m => m.setCell l.data l.len.toNat (value m)
      return ⟨l.data, l.len + 1, l.cap⟩

def popBack (l : ArrayList T) : ArrayList T :=
  if l.len = 0 then l else ⟨l.data, l.len - 1, l.cap⟩

def removeAt (l : ArrayList T) (index : UInt32) : HeapProg (ArrayList T) :=
  if index ≥ l.len then pure l else do
    writes fun m =>
      m.moveDown T.width l.data (index.toNat + 1) (l.len.toNat - (index.toNat + 1))
    return ⟨l.data, l.len - 1, l.cap⟩

def clear (l : ArrayList T) : ArrayList T := ⟨l.data, 0, l.cap⟩

def reserve (l : ArrayList T) (newCap : UInt32) : HeapProg (ArrayList T) :=
  if newCap ≤ l.cap then pure l else l.grow area newCap

def release (l : ArrayList T) : HeapProg (ArrayList T) := do
  l.freeData
  return new

/-- `~ArrayList` -/
def destroy (l : ArrayList T) : HeapProg Unit := l.freeData

/-- `ArrayList(ArrayList&&)`: the list that is constructed, and what the other one becomes. -/
def moveNew (other : ArrayList T) : ArrayList T × ArrayList T := (other, new)

/-- `operator=(ArrayList&&)` from another object. -/
def moveAssign (l other : ArrayList T) : HeapProg (ArrayList T × ArrayList T) := do
  l.freeData
  return (other, new)

/-! ## What a list holds -/

/-- The first `len` cells of `data`. -/
def contents (m : Memory) (l : ArrayList T) : List T.Value := m.cells T.width l.data l.len.toNat

/-- The buffer of the list, if it has one, and its room. -/
def held (l : ArrayList T) : List (Nat × Nat) :=
  if l.data = 0 then [] else [(l.data, T.width * l.cap.toNat)]

/-- The capacity in bytes is a number of 32 bits. -/
def Fits (l : ArrayList T) : Prop := T.width * l.cap.toNat < 2 ^ 32

/-- The elements lie in the buffer. -/
structure Fine (l : ArrayList T) : Prop where
  len_le : l.len.toNat ≤ l.cap.toNat
  null : l.data = 0 → l.cap = 0

/-- The list has become `l'` with elements `elems`, and the other buffers are as they were. -/
structure Becomes (rest : List (Nat × Nat)) (r : HeapRun) (elems : List T.Value)
    (l' : ArrayList T) (r' : HeapRun) : Prop where
  buffers : Buffers area (l'.held ++ rest) r'
  fine : l'.Fine
  contents : l'.contents r'.heap.memory = elems
  same : SameBytes rest r r'

variable {area} {l : ArrayList T} {rest : List (Nat × Nat)} {r r' : HeapRun}

@[simp] theorem contents_length (m : Memory) (l : ArrayList T) :
    (l.contents m).length = l.len.toNat := Memory.cells_length _ _ _ _

@[simp] theorem contents_new (m : Memory) : (new : ArrayList T).contents m = [] := rfl

@[simp] theorem held_new : (new : ArrayList T).held = [] := rfl

theorem held_of_ne (h : l.data ≠ 0) : l.held = [(l.data, T.width * l.cap.toNat)] := if_neg h

theorem fine_new : (new : ArrayList T).Fine := ⟨Nat.le_refl _, fun _ => rfl⟩

namespace Fine

theorem data_ne (h : l.Fine) {n : Nat} (hn : n < l.cap.toNat) : l.data ≠ 0 := by
  intro hnull
  rw [h.null hnull] at hn
  exact absurd hn (Nat.not_lt_zero n)

theorem room_le (h : l.Fine) : T.width * l.len.toNat ≤ T.width * l.cap.toNat :=
  Nat.mul_le_mul_left _ h.len_le

theorem contents_eq (h : l.Fine) (hsame : SameBytes l.held r r') :
    l.contents r'.heap.memory = l.contents r.heap.memory := by
  apply Memory.cells_congr
  intro a hlow hhigh
  have hroom := h.room_le
  have hne : l.data ≠ 0 := by
    apply h.data_ne (n := 0)
    by_contra hcap
    have hzero : l.cap.toNat = 0 := by omega
    rw [hzero, Nat.mul_zero] at hroom
    omega
  apply hsame
  rw [held_of_ne hne]
  exact ⟨_, List.mem_singleton_self _, hlow, by omega⟩

theorem cap_le (h : l.Fine) (hbuf : Buffers area (l.held ++ rest) r) :
    T.width * l.cap.toNat ≤ 65536 ∧ l.cap.toNat ≤ 65536 := by
  have hroom : T.width * l.cap.toNat ≤ 65536 := by
    by_cases hnull : l.data = 0
    · rw [h.null hnull]
      exact Nat.zero_le _
    · rw [held_of_ne hnull] at hbuf
      exact (hbuf.bounds List.mem_cons_self).2.2
  exact ⟨hroom, Nat.le_trans (Nat.le_mul_of_pos_left _ T.pos) hroom⟩

end Fine

/-! ## Rules -/

theorem freeData_rule (h : Buffers area (l.held ++ rest) r) :
    wp l.freeData (fun _ r' => Buffers area rest r' ∧ SameBytes (l.held ++ rest) r r')
      (fun _ => True) (fun _ => False) r := by
  unfold freeData
  by_cases hnull : l.data = 0
  · rw [held, if_pos hnull] at h ⊢
    rw [if_neg (not_not_intro hnull)]
    exact ⟨h, .refl _ _⟩
  · rw [held_of_ne hnull] at h ⊢
    rw [if_pos hnull]
    exact deleteBytes_buffers h fun r' hbuf hsame => ⟨hbuf, hsame⟩

theorem freeData_returns (l : ArrayList T) (r : HeapRun) :
    wp l.freeData (fun _ _ => True) (fun _ => True) (fun _ => False) r := by
  unfold freeData
  split
  · exact trivial
  · exact trivial

/-- `grow` moves the elements to a new buffer. What was in the old one can still be read. -/
theorem grow_rule (hfine : l.Fine) (h : Buffers area (l.held ++ rest) r) {newCap : UInt32}
    (hle : l.len.toNat ≤ newCap.toNat) (hasked : T.width * newCap.toNat ≤ 2 ^ 32 - 8) :
    wp (l.grow area newCap) (fun l' r' => l'.len = l.len ∧ l'.cap = newCap ∧
      Becomes area rest r (l.contents r.heap.memory) l' r' ∧ SameBytes (l.held ++ rest) r r')
      (fun _ => True) (fun _ => False) r := by
  rw [grow]
  apply wp_call (newBytes_buffers h hasked) _ (fun _ h => h) fun _ h => h
  intro newData r₁ hnew
  obtain ⟨hne, hbuf₁, hsame₁⟩ := hnew
  rw [writes, wp_bind, wp_modify]
  have hlen := Nat.mul_le_mul_left T.width hle
  obtain ⟨hbuf₂, hsame₂⟩ := hbuf₁.write
    (f := fun m => m.copyCells T.width l.data newData l.len.toNat)
    fun a ha => Memory.byte_copyCells (by omega)
  have hcopied : (Memory.copyCells T.width r₁.heap.memory l.data newData l.len.toNat).cells
      T.width newData l.len.toNat = l.contents r.heap.memory := by
    have hold := hfine.contents_eq
      (hsame₁.sub fun b hb => List.mem_append_left rest hb)
    rw [← hold]
    apply Memory.cells_copyCells
    -- the two arrays do not overlap, or there is nothing to copy
    by_cases hnull : l.data = 0
    · have hzero : l.len.toNat = 0 := by
        have hle := hfine.len_le
        rw [hfine.null hnull] at hle
        exact Nat.le_zero.mp hle
      rw [hzero]
      omega
    · have hmem : (l.data, T.width * l.cap.toNat) ∈ l.held ++ rest := by
        rw [held_of_ne hnull]
        exact List.mem_cons_self
      have happart := hbuf₁.head_apart hmem
      have hold := hfine.room_le
      simp only at happart
      omega
  have hfree := freeData_rule (hbuf₂.perm List.perm_middle.symm)
  apply wp_call hfree _ (fun _ h => h) fun _ h => h
  rintro - r₃ ⟨hbuf₃, hsame₃⟩
  have hkept : ∀ b ∈ l.held ++ rest, b ∈ l.held ++ (newData, T.width * newCap.toNat) :: rest :=
    fun b hb => List.perm_middle.mem_iff.mpr (List.mem_cons_of_mem _ hb)
  have hsame := (hsame₁.trans hsame₂).trans (hsame₃.sub hkept)
  refine ⟨rfl, rfl, ⟨?_, ⟨hle, fun hnull => absurd hnull hne⟩, ?_, ?_⟩, hsame⟩
  · rw [held_of_ne hne]
    exact hbuf₃
  · rw [← hcopied]
    apply Memory.cells_congr
    intro a hlow hhigh
    simp only at hlow hhigh
    apply hsame₃
    exact ⟨_, List.mem_append_right _ List.mem_cons_self, hlow, by simp only; omega⟩
  · exact hsame.sub fun b hb => List.mem_append_right _ hb

theorem grow_returns (h : Buffers area (l.held ++ rest) r) (newCap : UInt32) :
    wp (l.grow area newCap) (fun _ _ => True) (fun _ => True) (fun _ => False) r := by
  rw [grow]
  apply wp_call (newBytes_returns h _) _ (fun _ h => h) fun _ h => h
  intro newData r₁ _
  rw [writes, wp_bind, wp_modify]
  exact wp_call (freeData_returns l _) (fun _ _ _ => trivial) (fun _ h => h) fun _ h => h

/-- What is read through a reference, whatever happens outside the buffers. -/
def Reads (own : List (Nat × Nat)) (r : HeapRun) (value : Memory → T.Value) (v : T.Value) :
    Prop := ∀ r', SameBytes own r r' → value r'.heap.memory = v

theorem reads_value (own : List (Nat × Nat)) (r : HeapRun) (v : T.Value) :
    Reads own r (fun _ => v) v := fun _ _ => rfl

theorem reads_cell (hfine : l.Fine) {own : List (Nat × Nat)} (hheld : ∀ b ∈ l.held, b ∈ own)
    {k : Nat} {v : T.Value} (hv : (l.contents r.heap.memory)[k]? = some v) :
    Reads own r (Memory.cell T.width · l.data k) v := by
  intro r' hsame
  have hcontents := hfine.contents_eq (hsame.sub hheld)
  rw [← hcontents] at hv
  obtain ⟨hk, rfl⟩ := List.getElem?_eq_some_iff.mp hv
  exact (Memory.getElem_cells hk).symm

/-- `data[len++] = value` with a cell to spare. -/
theorem store_rule (hfine : l.Fine) (h : Buffers area (l.held ++ rest) r)
    (hspare : l.len.toNat < l.cap.toNat) {value : Memory → T.Value} {v : T.Value}
    (hvalue : value r.heap.memory = v) :
    Becomes area rest r (l.contents r.heap.memory ++ [v]) ⟨l.data, l.len + 1, l.cap⟩
      (r.write fun m => m.setCell l.data l.len.toNat (value m)) := by
  subst hvalue
  have hne := hfine.data_ne hspare
  have hcap := (hfine.cap_le h).2
  have hstop := Memory.cell_stop_le T.width hspare
  have hlen : (l.len + 1).toNat = l.len.toNat + 1 := by
    have hone : (1 : UInt32).toNat = 1 := rfl
    rw [UInt32.toNat_add, hone, Nat.mod_eq_of_lt (by omega)]
  rw [held_of_ne hne] at h
  obtain ⟨hbuf, hsame⟩ := h.write (f := fun m => m.setCell l.data l.len.toNat (value m))
    fun a ha => Memory.byte_setCell_apart _ (by simp only at ha; omega)
  refine ⟨?_, ⟨by rw [hlen]; exact hspare, hfine.null⟩, ?_, hsame⟩
  · change Buffers area (l.held ++ rest) _
    rw [held_of_ne hne]
    exact hbuf
  · rw [contents, hlen]
    exact Memory.cells_setCell _

theorem lt_doubled (hfine : l.Fine) (hcap : l.cap.toNat ≤ 65536) :
    l.len.toNat < (if l.cap = 0 then 4 else l.cap * 2 : UInt32).toNat := by
  have hlen := hfine.len_le
  by_cases hzero : l.cap = 0
  · rw [hzero] at hlen
    rw [if_pos hzero]
    exact Nat.lt_of_le_of_lt hlen (by decide)
  · have hpos : l.cap.toNat ≠ 0 := fun h => hzero (UInt32.toNat_inj.mp h)
    have htwo : (2 : UInt32).toNat = 2 := rfl
    rw [if_neg hzero, UInt32.toNat_mul, htwo, Nat.mod_eq_of_lt (by omega)]
    omega

/-- A list that grows by doubling does not come near 2^32. -/
theorem doubled_le {cap : UInt32} (hroom : T.width * cap.toNat ≤ 65536)
    (hcap : cap.toNat ≤ 65536) (hfirst : cap = 0 → T.width * 4 ≤ 2 ^ 32 - 8) :
    T.width * (if cap = 0 then 4 else cap * 2 : UInt32).toNat ≤ 2 ^ 32 - 8 := by
  by_cases hzero : cap = 0
  · rw [if_pos hzero]
    exact hfirst hzero
  · have htwo : (2 : UInt32).toNat = 2 := rfl
    rw [if_neg hzero, UInt32.toNat_mul, htwo, Nat.mod_eq_of_lt (by omega), ← Nat.mul_assoc]
    omega

theorem lt_of_not_full (hcap : l.cap.toNat ≤ 65536) (hlen : l.len.toNat ≤ l.cap.toNat)
    (hfull : ¬ l.len + 1 > l.cap) : l.len.toNat < l.cap.toNat := by
  have hone : (1 : UInt32).toNat = 1 := rfl
  rw [gt_iff_lt, UInt32.lt_iff_toNat_lt, UInt32.toNat_add, hone,
    Nat.mod_eq_of_lt (by omega)] at hfull
  omega

theorem pushBack_rule (hfine : l.Fine) (h : Buffers area (l.held ++ rest) r)
    (hfirst : l.cap = 0 → T.width * 4 ≤ 2 ^ 32 - 8)
    {value : Memory → T.Value} {v : T.Value} (hvalue : Reads (l.held ++ rest) r value v) :
    wp (l.pushBack area value)
      (Becomes area rest r (l.contents r.heap.memory ++ [v])) (fun _ => True)
      (fun _ => False) r := by
  obtain ⟨hroom, hcap⟩ := hfine.cap_le h
  unfold pushBack
  by_cases hfull : l.len + 1 > l.cap
  · have hgrown := lt_doubled hfine hcap
    rw [if_pos hfull]
    apply wp_call (grow_rule hfine h (Nat.le_of_lt hgrown) (doubled_le hroom hcap hfirst)) _
      (fun _ h => h) fun _ h => h
    intro l' r' hgrow
    obtain ⟨hlen', hcap', hbecomes, hsame⟩ := hgrow
    have hstore := store_rule hbecomes.fine hbecomes.buffers
      (by rw [hlen', hcap']; exact hgrown) (hvalue r' hsame)
    rw [hbecomes.contents] at hstore
    exact ⟨hstore.buffers, hstore.fine, hstore.contents, hbecomes.same.trans hstore.same⟩
  · rw [if_neg hfull]
    exact store_rule hfine h (lt_of_not_full hcap hfine.len_le hfull) (hvalue r (.refl _ _))

theorem pushBack_returns (h : Buffers area (l.held ++ rest) r) (value : Memory → T.Value) :
    wp (l.pushBack area value) (fun _ _ => True) (fun _ => True) (fun _ => False) r := by
  unfold pushBack
  by_cases hfull : l.len + 1 > l.cap
  · rw [if_pos hfull]
    exact wp_call (grow_returns h _) (fun _ _ _ => trivial) (fun _ h => h) fun _ h => h
  · rw [if_neg hfull]
    trivial

theorem len_pred (h : 0 < l.len.toNat) : (l.len - 1).toNat = l.len.toNat - 1 :=
  UInt32.toNat_sub_of_le _ _ (UInt32.le_iff_toNat_le.mpr h)

theorem shorter (hfine : l.Fine) (h : Buffers area (l.held ++ rest) r) {n : UInt32}
    (hle : n.toNat ≤ l.len.toNat) {elems : List T.Value}
    (helems : r.heap.memory.cells T.width l.data n.toNat = elems) :
    Becomes area rest r elems ⟨l.data, n, l.cap⟩ r :=
  ⟨h, ⟨Nat.le_trans hle hfine.len_le, hfine.null⟩, helems, .refl _ _⟩

theorem popBack_rule (hfine : l.Fine) (h : Buffers area (l.held ++ rest) r) :
    Becomes area rest r (l.contents r.heap.memory).dropLast l.popBack r := by
  unfold popBack
  by_cases hempty : l.len = 0
  · rw [if_pos hempty]
    refine ⟨h, hfine, ?_, .refl _ _⟩
    rw [contents, hempty]
    rfl
  · have hpos : 0 < l.len.toNat :=
      Nat.pos_of_ne_zero fun h => hempty (UInt32.toNat_inj.mp h)
    have hpred := len_pred hpos
    rw [if_neg hempty]
    refine shorter hfine h (by omega) ?_
    rw [hpred]
    exact Memory.cells_pred _ _ _ _

theorem clear_rule (hfine : l.Fine) (h : Buffers area (l.held ++ rest) r) :
    Becomes area rest r [] l.clear r := shorter hfine h (Nat.zero_le _) rfl

theorem removeAt_rule (hfine : l.Fine) (h : Buffers area (l.held ++ rest) r) (index : UInt32) :
    wp (l.removeAt index)
      (Becomes area rest r ((l.contents r.heap.memory).eraseIdx index.toNat)) (fun _ => True)
      (fun _ => False) r := by
  unfold removeAt
  by_cases hout : index ≥ l.len
  · rw [if_pos hout]
    refine ⟨h, hfine, ?_, .refl _ _⟩
    rw [List.eraseIdx_of_length_le]
    rw [contents_length]
    exact hout
  · have hindex : index.toNat < l.len.toNat := UInt32.not_le.mp hout
    have hpred := len_pred (l := l) (by omega)
    have hlen := hfine.len_le
    have hroom := hfine.room_le
    have hne := hfine.data_ne (n := 0) (by omega)
    have hlast : index.toNat + (l.len.toNat - (index.toNat + 1)) ≤ l.len.toNat := by omega
    have hmoved := Nat.mul_le_mul_left T.width hlast
    have hshort : l.len.toNat - 1 ≤ l.cap.toNat := by omega
    rw [held_of_ne hne] at h
    obtain ⟨hbuf, hsame⟩ := h.write (f := fun m => m.moveDown T.width l.data (index.toNat + 1)
      (l.len.toNat - (index.toNat + 1))) fun a ha =>
        Memory.byte_moveDown (by simp only at ha; omega)
    rw [if_neg hout]
    refine ⟨?_, ⟨by rw [hpred]; exact hshort, hfine.null⟩, ?_, hsame⟩
    · change Buffers area (l.held ++ rest) _
      rw [held_of_ne hne]
      exact hbuf
    · rw [contents, hpred]
      exact Memory.cells_moveDown hindex

theorem reserve_rule (hfine : l.Fine) (h : Buffers area (l.held ++ rest) r) {newCap : UInt32}
    (hasked : ¬ newCap ≤ l.cap → T.width * newCap.toNat ≤ 2 ^ 32 - 8) :
    wp (l.reserve area newCap) (Becomes area rest r (l.contents r.heap.memory)) (fun _ => True)
      (fun _ => False) r := by
  unfold reserve
  by_cases hle : newCap ≤ l.cap
  · rw [if_pos hle]
    exact ⟨h, hfine, rfl, .refl _ _⟩
  · have hcap : l.cap.toNat < newCap.toNat := UInt32.not_le.mp hle
    have hlen := hfine.len_le
    rw [if_neg hle]
    apply wp_mono (grow_rule hfine h (by omega) (hasked hle)) _ (fun _ h => h) fun _ h => h
    intro l' r' hgrow
    exact hgrow.2.2.1

theorem reserve_returns (h : Buffers area (l.held ++ rest) r) (newCap : UInt32) :
    wp (l.reserve area newCap) (fun _ _ => True) (fun _ => True) (fun _ => False) r := by
  unfold reserve
  split
  · trivial
  · exact grow_returns h newCap

theorem freeData_becomes (h : Buffers area (l.held ++ rest) r) :
    wp l.freeData (fun _ r' => Becomes area rest r [] (new : ArrayList T) r') (fun _ => True)
      (fun _ => False) r := by
  apply wp_mono (freeData_rule h) _ (fun _ h => h) fun _ h => h
  intro _ r' hfreed
  exact ⟨hfreed.1, fine_new, rfl, hfreed.2.sub fun b hb => List.mem_append_right _ hb⟩

theorem release_rule (h : Buffers area (l.held ++ rest) r) :
    wp l.release (Becomes area rest r []) (fun _ => True) (fun _ => False) r :=
  wp_call (freeData_becomes h) (fun _ _ h => h) (fun _ h => h) fun _ h => h

end ArrayList

end SevenOS.Raw
