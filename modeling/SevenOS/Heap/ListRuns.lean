import SevenOS.Heap.RawList

/-! # Runs over lists

Any number of `ArrayList` objects, on one heap with whatever else is allocated there,
and any sequence of calls of their methods. What the objects hold is what the same
operations make of mathematical lists.
-/

namespace SevenOS.Raw

open Prog Raw.ArrayList

/-- What a `const T&` refers to: a value elsewhere, or element `k` of list `j`. -/
inductive ElemRef (T : ElemType) where
  | value (v : T.Value)
  | elem (j k : Nat)

/-- A call. Objects are named by their index; a call on an object that does not exist is none. -/
inductive ListOp (T : ElemType) where
  | new
  | pushBack (i : Nat) (value : ElemRef T)
  | popBack (i : Nat)
  | removeAt (i : Nat) (index : UInt32)
  | clear (i : Nat)
  | reserve (i : Nat) (newCap : UInt32)
  | release (i : Nat)
  /-- A new object is constructed from object `i`. -/
  | moveNew (i : Nat)
  /-- Object `j` is moved to object `i`. -/
  | moveAssign (i j : Nat)
  | destroy (i : Nat)

abbrev Lists (T : ElemType) : Type := List (ArrayList T)

variable {T : ElemType}

namespace ElemRef

/-- How the value is read. -/
def read (lists : Lists T) : ElemRef T → Option (Memory → T.Value)
  | value v => some fun _ => v
  | elem j k => lists[j]?.bind fun l =>
      if k < l.len.toNat then some fun m => m.cell T.width l.data k else none

/-- The value, where the lists hold `elems`. -/
def denote (elems : List (List T.Value)) : ElemRef T → Option T.Value
  | value v => some v
  | elem j k => elems[j]?.bind fun es => es[k]?

end ElemRef

namespace ListOp

def update (lists : Lists T) (i : Nat) (f : ArrayList T → HeapProg (ArrayList T)) :
    HeapProg (Lists T) :=
  match lists[i]? with
  | none => pure lists
  | some l => do
      let l' ← f l
      return lists.set i l'

def run (area : HeapArea) (lists : Lists T) : ListOp T → HeapProg (Lists T)
  | new => pure (lists ++ [ArrayList.new])
  | pushBack i value =>
      match value.read lists with
      | none => pure lists
      | some value => update lists i fun l => l.pushBack area value
  | popBack i => update lists i fun l => pure l.popBack
  | removeAt i index => update lists i fun l => l.removeAt index
  | clear i => update lists i fun l => pure l.clear
  | reserve i newCap => update lists i fun l => l.reserve area newCap
  | release i => update lists i fun l => l.release
  | moveNew i =>
      match lists[i]? with
      | none => pure lists
      | some other => pure (lists.set i other.moveNew.2 ++ [other.moveNew.1])
  | moveAssign i j =>
      if i = j then pure lists else
      match lists[i]?, lists[j]? with
      | some l, some other => do
          let moved ← l.moveAssign other
          return (lists.set i moved.1).set j moved.2
      | _, _ => pure lists
  | destroy i =>
      match lists[i]? with
      | none => pure lists
      | some l => do
          l.destroy
          return lists.eraseIdx i

/-- The bytes that `kmalloc` is asked for, if the list of the call has to grow. -/
def asked (lists : Lists T) : ListOp T → Nat
  | pushBack i value =>
      match value.read lists, lists[i]? with
      | some _, some l =>
          if l.len + 1 > l.cap then T.width * (if l.cap = 0 then 4 else l.cap * 2 : UInt32).toNat
          else 0
      | _, _ => 0
  | reserve i newCap =>
      match lists[i]? with
      | some l => if newCap ≤ l.cap then 0 else T.width * newCap.toNat
      | none => 0
  | _ => 0

def apply (elems : List (List T.Value)) : ListOp T → List (List T.Value)
  | new => elems ++ [[]]
  | pushBack i value =>
      match value.denote elems with
      | none => elems
      | some v => elems.modify i (· ++ [v])
  | popBack i => elems.modify i List.dropLast
  | removeAt i index => elems.modify i (·.eraseIdx index.toNat)
  | clear i => elems.modify i fun _ => []
  | reserve _ _ => elems
  | release i => elems.modify i fun _ => []
  | moveNew i =>
      match elems[i]? with
      | none => elems
      | some es => elems.set i [] ++ [es]
  | moveAssign i j =>
      if i = j then elems else
      match elems[i]?, elems[j]? with
      | some _, some es => (elems.set i es).set j []
      | _, _ => elems
  | destroy i => elems.eraseIdx i

end ListOp

/-! ## What holds between calls -/

def allContents (r : HeapRun) (lists : Lists T) : List (List T.Value) :=
  lists.map (contents r.heap.memory)

/-- The lists own their buffers, and nobody else but `others` owns one. -/
structure Sound (area : HeapArea) (others : List (Nat × Nat)) (lists : Lists T) (r : HeapRun) :
    Prop where
  buffers : Buffers area (lists.flatMap held ++ others) r
  fine : ∀ l ∈ lists, l.Fine

/-- From `r` to `r'` the lists have become `lists'`, which hold `elems`. -/
structure Advances (area : HeapArea) (others : List (Nat × Nat)) (r : HeapRun)
    (elems : List (List T.Value)) (lists' : Lists T) (r' : HeapRun) : Prop where
  sound : Sound area others lists' r'
  contents : allContents r' lists' = elems
  same : SameBytes others r r'

variable {area : HeapArea} {others : List (Nat × Nat)} {lists : Lists T} {r r' : HeapRun}
  {l l' : ArrayList T} {i j : Nat}

/-- The buffers of the objects but one, and the others. -/
def besides (others : List (Nat × Nat)) (lists : Lists T) (i : Nat) : List (Nat × Nat) :=
  (lists.eraseIdx i).flatMap held ++ others

theorem held_perm (others : List (Nat × Nat)) (hl : lists[i]? = some l) :
    (lists.flatMap held ++ others).Perm (l.held ++ besides others lists i) := by
  obtain ⟨hi, rfl⟩ := List.getElem?_eq_some_iff.mp hl
  have hperm := ((List.getElem_cons_eraseIdx_perm hi).symm.flatMap_right held).append_right others
  rwa [List.flatMap_cons, List.append_assoc] at hperm

theorem held_set_perm (others : List (Nat × Nat)) (hi : i < lists.length) (l' : ArrayList T) :
    ((lists.set i l').flatMap held ++ others).Perm (l'.held ++ besides others lists i) := by
  have hperm := ((List.set_perm_cons_eraseIdx hi l').flatMap_right held).append_right others
  rwa [List.flatMap_cons, List.append_assoc] at hperm

namespace Sound

theorem refl (hs : Sound area others lists r) :
    Advances area others r (allContents r lists) lists r := ⟨hs, rfl, .refl _ _⟩

theorem fine_at (hs : Sound area others lists r) (hl : lists[i]? = some l) : l.Fine :=
  hs.fine l (List.mem_of_getElem? hl)

theorem buffers_at (hs : Sound area others lists r) (hl : lists[i]? = some l) :
    Buffers area (l.held ++ besides others lists i) r := hs.buffers.perm (held_perm others hl)

theorem contents_besides (hs : Sound area others lists r)
    (hsame : SameBytes (besides others lists i) r r') (hl : l ∈ lists.eraseIdx i) :
    l.contents r'.heap.memory = l.contents r.heap.memory := by
  apply (hs.fine l (List.mem_of_mem_eraseIdx hl)).contents_eq
  apply hsame.sub
  intro b hb
  exact List.mem_append_left _ (List.mem_flatMap.mpr ⟨l, hl, hb⟩)

theorem set_contents (hs : Sound area others lists r)
    (hsame : SameBytes (besides others lists i) r r') (l' : ArrayList T) :
    allContents r' (lists.set i l') =
      (allContents r lists).set i (l'.contents r'.heap.memory) := by
  apply List.ext_getElem
  · simp only [allContents, List.length_map, List.length_set]
  · intro k hk hk'
    simp only [allContents, List.length_map, List.length_set] at hk
    simp only [allContents, List.getElem_map, List.getElem_set]
    by_cases hik : i = k
    · rw [if_pos hik, if_pos hik]
    · rw [if_neg hik, if_neg hik]
      exact hs.contents_besides hsame
        (List.mem_eraseIdx_iff_getElem.mpr ⟨k, hk, Ne.symm hik, rfl⟩)

theorem replace (hs : Sound area others lists r) (hl : lists[i]? = some l) {es : List T.Value}
    (h : Becomes area (besides others lists i) r es l' r') :
    Advances area others r ((allContents r lists).set i es) (lists.set i l') r' := by
  obtain ⟨hi, -⟩ := List.getElem?_eq_some_iff.mp hl
  refine ⟨⟨h.buffers.perm (held_set_perm others hi l').symm, fun x hx => ?_⟩, ?_, ?_⟩
  · rcases List.mem_or_eq_of_mem_set hx with hx | rfl
    · exact hs.fine x hx
    · exact h.fine
  · rw [hs.set_contents h.same, h.contents]
  · exact h.same.sub fun b hb => List.mem_append_right _ hb

end Sound

/-! ## One call -/

theorem allContents_getElem? (r : HeapRun) (lists : Lists T) (i : Nat) :
    (allContents r lists)[i]? = lists[i]?.map (contents r.heap.memory) := List.getElem?_map

/-- A method that makes `g` of the elements. -/
theorem update_rule (hs : Sound area others lists r) (i : Nat)
    (g : List T.Value → List T.Value) {f : ArrayList T → HeapProg (ArrayList T)}
    (hf : ∀ l, lists[i]? = some l → wp (f l)
      (Becomes area (besides others lists i) r (g (l.contents r.heap.memory)))
      (fun _ => True) (fun _ => False) r) :
    wp (ListOp.update lists i f) (Advances area others r ((allContents r lists).modify i g))
      (fun _ => True) (fun _ => False) r := by
  rw [List.modify_eq_set_getElem?, allContents_getElem?]
  unfold ListOp.update
  cases hl : lists[i]? with
  | none => exact hs.refl
  | some l =>
      apply wp_call (hf l hl) _ (fun _ h => h) fun _ h => h
      intro l' r' h
      exact hs.replace hl h

theorem update_returns (hs : Sound area others lists r) (i : Nat)
    {f : ArrayList T → HeapProg (ArrayList T)} (hf : ∀ l rest, Buffers area (l.held ++ rest) r →
      wp (f l) (fun _ _ => True) (fun _ => True) (fun _ => False) r) :
    wp (ListOp.update lists i f) (fun _ _ => True) (fun _ => True) (fun _ => False) r := by
  unfold ListOp.update
  cases hl : lists[i]? with
  | none => trivial
  | some l =>
      exact wp_call (hf l _ (hs.buffers_at hl)) (fun _ _ _ => trivial) (fun _ h => h) fun _ h => h

theorem pushBack_update (hs : Sound area others lists r) (i : Nat) {ref : ElemRef T}
    {value : Memory → T.Value} (hread : ref.read lists = some value)
    (hasked : (ListOp.pushBack i ref).asked lists ≤ 2 ^ 32 - 8)
    {v : T.Value} (hvalue : Reads (lists.flatMap held ++ others) r value v) :
    wp (ListOp.update lists i fun l => l.pushBack area value)
      (Advances area others r ((allContents r lists).modify i (· ++ [v])))
      (fun _ => True) (fun _ => False) r := by
  apply update_rule hs i
  intro l hl
  have hreads : Reads (l.held ++ besides others lists i) r value v := fun r' hsame =>
    hvalue r' (hsame.sub fun b hb => (held_perm others hl).mem_iff.mp hb)
  refine pushBack_rule (hs.fine_at hl) (hs.buffers_at hl) (fun hempty => ?_) hreads
  -- a list without room has to grow
  have hlen := (hs.fine_at hl).len_le
  rw [hempty] at hlen
  have hzero : l.len = 0 := UInt32.toNat_inj.mp (Nat.le_zero.mp hlen)
  simp only [ListOp.asked, hread, hl, hzero, hempty] at hasked
  exact hasked

/-- The buffer of object `i` goes to a new object. -/
theorem moveNew_rule (hs : Sound area others lists r) (hl : lists[i]? = some l) :
    Advances area others r ((allContents r lists).set i [] ++ [l.contents r.heap.memory])
      (lists.set i ArrayList.new ++ [l]) r := by
  obtain ⟨hi, -⟩ := List.getElem?_eq_some_iff.mp hl
  refine ⟨⟨hs.buffers.perm ?_, fun x hx => ?_⟩, ?_, .refl _ _⟩
  · have hset := held_set_perm (l.held ++ others) hi ArrayList.new
    have hcomm := List.perm_append_comm_assoc l.held ((lists.eraseIdx i).flatMap held) others
    rw [List.flatMap_append, List.append_assoc, List.flatMap_singleton]
    exact ((held_perm others hl).trans hcomm).trans hset.symm
  · rcases List.mem_append.mp hx with hx | hx
    · rcases List.mem_or_eq_of_mem_set hx with hx | rfl
      · exact hs.fine x hx
      · exact fine_new
    · rw [List.mem_singleton.mp hx]
      exact hs.fine_at hl
  · rw [allContents, List.map_append, List.map_set]
    rfl

/-- The buffer of object `i` is freed, and that of object `j` goes to object `i`. -/
theorem moveAssign_rule (hs : Sound area others lists r) (hne : i ≠ j) (hl : lists[i]? = some l)
    (hl' : lists[j]? = some l') : wp (l.moveAssign l') (fun moved r' =>
      Advances area others r
        (((allContents r lists).set i (l'.contents r.heap.memory)).set j [])
        ((lists.set i moved.1).set j moved.2) r') (fun _ => True) (fun _ => False) r := by
  obtain ⟨hi, -⟩ := List.getElem?_eq_some_iff.mp hl
  obtain ⟨hj, rfl⟩ := List.getElem?_eq_some_iff.mp hl'
  apply wp_call (freeData_becomes (hs.buffers_at hl)) _ (fun _ h => h) fun _ h => h
  intro _ r' hbecomes
  obtain ⟨hsound, hcontents, hsame⟩ := hs.replace hl hbecomes
  -- objects `i`, which is empty now, and `j` change places
  have hi' : i < (lists.set i ArrayList.new).length := by rwa [List.length_set]
  have hj' : j < (lists.set i ArrayList.new).length := by rwa [List.length_set]
  have hperm := List.set_set_perm hi' hj'
  rw [List.getElem_set_self, List.getElem_set_ne hne, List.set_set] at hperm
  refine ⟨⟨hsound.buffers.perm ?_, fun x hx => ?_⟩, ?_, hsame⟩
  · exact (hperm.symm.flatMap_right held).append_right others
  · exact hsound.fine x (hperm.mem_iff.mp hx)
  · have hkept := hs.contents_besides hbecomes.same
      (List.mem_eraseIdx_iff_getElem.mpr ⟨j, hj, Ne.symm hne, rfl⟩)
    have hset : allContents r' ((lists.set i lists[j]).set j ArrayList.new) =
        ((allContents r' (lists.set i ArrayList.new)).set i
          ((lists[j]).contents r'.heap.memory)).set j [] := by
      simp only [allContents, List.map_set, List.set_set, contents_new]
    rw [hcontents, hkept, List.set_set] at hset
    exact hset

theorem destroy_rule (hs : Sound area others lists r) (hl : lists[i]? = some l) :
    wp l.destroy (fun _ r' => Advances area others r ((allContents r lists).eraseIdx i)
      (lists.eraseIdx i) r') (fun _ => True) (fun _ => False) r := by
  apply wp_mono (freeData_rule (hs.buffers_at hl)) _ (fun _ h => h) fun _ h => h
  intro _ r' hfreed
  have hsame := hfreed.2.sub fun b hb => List.mem_append_right _ hb
  refine ⟨⟨hfreed.1, fun x hx => hs.fine x (List.mem_of_mem_eraseIdx hx)⟩, ?_, ?_⟩
  · rw [allContents, allContents, List.eraseIdx_map]
    exact List.map_congr_left fun x hx => hs.contents_besides hsame hx
  · exact hsame.sub fun b hb => List.mem_append_right _ hb

/-- A reference is good for reading while nothing is written to the buffers. -/
theorem ElemRef.read_reads (hs : Sound area others lists r) {ref : ElemRef T}
    {value : Memory → T.Value} (hread : ref.read lists = some value) :
    ∃ v, ref.denote (allContents r lists) = some v ∧
      Reads (lists.flatMap held ++ others) r value v := by
  cases ref with
  | value v =>
      obtain rfl := Option.some.inj hread
      exact ⟨v, rfl, reads_value _ r v⟩
  | elem j k =>
      obtain ⟨l, hl, hread⟩ := Option.bind_eq_some_iff.mp hread
      by_cases hk : k < l.len.toNat
      · rw [if_pos hk] at hread
        obtain rfl := Option.some.inj hread
        have hlength := contents_length r.heap.memory l
        have hget : (l.contents r.heap.memory)[k]? =
            some ((l.contents r.heap.memory)[k]) := List.getElem?_eq_getElem (by omega)
        refine ⟨_, ?_, reads_cell (hs.fine_at hl) (fun b hb => ?_) hget⟩
        · rw [ElemRef.denote, allContents_getElem?, hl]
          exact hget
        · exact List.mem_append_left _
            (List.mem_flatMap.mpr ⟨l, List.mem_of_getElem? hl, hb⟩)
      · rw [if_neg hk] at hread
        cases hread

theorem ElemRef.read_none {ref : ElemRef T} (hread : ref.read lists = none) (r : HeapRun) :
    ref.denote (allContents r lists) = none := by
  cases ref with
  | value v => cases hread
  | elem j k =>
      rw [ElemRef.denote, allContents_getElem?]
      cases hl : lists[j]? with
      | none => rfl
      | some l =>
          rw [ElemRef.read, hl, Option.bind_some] at hread
          have hk : ¬k < l.len.toNat := fun hk => by
            rw [if_pos hk] at hread
            cases hread
          exact List.getElem?_eq_none (by rw [contents_length]; omega)

/-- A call does to the objects what it does to mathematical lists, unless it asks for more bytes
than `kmalloc` can round up. -/
theorem run_rule (hs : Sound area others lists r) (op : ListOp T)
    (hasked : op.asked lists ≤ 2 ^ 32 - 8) :
    wp (op.run area lists) (Advances area others r (op.apply (allContents r lists)))
      (fun _ => True) (fun _ => False) r := by
  cases op with
  | new =>
      refine ⟨⟨?_, fun x hx => ?_⟩, ?_, .refl _ _⟩
      · rw [List.flatMap_append, List.flatMap_singleton, held_new, List.append_nil]
        exact hs.buffers
      · rcases List.mem_append.mp hx with hx | hx
        · exact hs.fine x hx
        · rw [List.mem_singleton.mp hx]
          exact fine_new
      · exact List.map_append
  | pushBack i ref =>
      simp only [ListOp.run, ListOp.apply]
      cases hread : ref.read lists with
      | none =>
          rw [ElemRef.read_none hread r]
          exact hs.refl
      | some value =>
          obtain ⟨v, hv, hreads⟩ := ElemRef.read_reads hs hread
          rw [hv]
          exact pushBack_update hs i hread hasked hreads
  | popBack i =>
      apply update_rule hs i
      intro l hl
      exact popBack_rule (hs.fine_at hl) (hs.buffers_at hl)
  | removeAt i index =>
      apply update_rule hs i
      intro l hl
      exact removeAt_rule (hs.fine_at hl) (hs.buffers_at hl) index
  | clear i =>
      apply update_rule hs i
      intro l hl
      exact clear_rule (hs.fine_at hl) (hs.buffers_at hl)
  | reserve i newCap =>
      have hrule := update_rule hs i id (f := fun l => l.reserve area newCap) fun l hl => by
        refine reserve_rule (hs.fine_at hl) (hs.buffers_at hl) fun hgrows => ?_
        simpa only [ListOp.asked, hl, if_neg hgrows] using hasked
      rw [List.modify_id] at hrule
      exact hrule
  | release i =>
      apply update_rule hs i
      intro l hl
      exact release_rule (hs.buffers_at hl)
  | moveNew i =>
      simp only [ListOp.run, ListOp.apply]
      rw [allContents_getElem?]
      cases hl : lists[i]? with
      | none => exact hs.refl
      | some l => exact moveNew_rule hs hl
  | moveAssign i j =>
      simp only [ListOp.run, ListOp.apply]
      by_cases hij : i = j
      · rw [if_pos hij, if_pos hij]
        exact hs.refl
      · rw [if_neg hij, if_neg hij, allContents_getElem?, allContents_getElem?]
        cases hl : lists[i]? with
        | none => exact hs.refl
        | some l =>
            cases hl' : lists[j]? with
            | none => exact hs.refl
            | some l' =>
                exact wp_call (moveAssign_rule hs hij hl hl') (fun _ _ h => h) (fun _ h => h)
                  fun _ h => h
  | destroy i =>
      simp only [ListOp.run, ListOp.apply]
      cases hl : lists[i]? with
      | none =>
          have hlength : (allContents r lists).length ≤ i := by
            rw [allContents, List.length_map]
            exact List.getElem?_eq_none_iff.mp hl
          rw [List.eraseIdx_of_length_le hlength]
          exact hs.refl
      | some l =>
          exact wp_call (destroy_rule hs hl) (fun _ _ h => h) (fun _ h => h) fun _ h => h

theorem run_returns (hs : Sound area others lists r) (op : ListOp T) :
    wp (op.run area lists) (fun _ _ => True) (fun _ => True) (fun _ => False) r := by
  cases op with
  | pushBack i ref =>
      simp only [ListOp.run]
      cases ref.read lists with
      | none => trivial
      | some value => exact update_returns hs i fun l rest h => ArrayList.pushBack_returns h value
  | reserve i newCap => exact update_returns hs i fun l rest h => ArrayList.reserve_returns h newCap
  | _ =>
      exact wp_mono (run_rule hs _ (Nat.zero_le _)) (fun _ _ _ => trivial) (fun _ h => h)
        fun _ h => h

/-! ## Runs -/

/-- The capacities in bytes are numbers of 32 bits. -/
def AllFit (lists : Lists T) : Prop := ∀ l ∈ lists, l.Fits

/-- From the heap `r₀`, with no object yet, calls that are `ok` lead to `lists` and `r`: no
allocation fails, and the capacities in bytes stay below 2^32. -/
inductive Reaches (area : HeapArea) (r₀ : HeapRun) (ok : Lists T → ListOp T → Prop) :
    List (ListOp T) → Lists T → HeapRun → Prop
  | start : Reaches area r₀ ok [] [] r₀
  | call {ops : List (ListOp T)} {op : ListOp T} {lists lists' : Lists T} {r r' : HeapRun}
      (h : Reaches area r₀ ok ops lists r) (hok : ok lists op)
      (hrun : op.run area lists r = (.ok lists', r')) (hfit : AllFit lists') :
      Reaches area r₀ ok (ops ++ [op]) lists' r'

/-- `align8` does not wrap around for what the call asks for. -/
def RoundsUp (lists : Lists T) (op : ListOp T) : Prop := op.asked lists ≤ 2 ^ 32 - 8

theorem Reaches.sound {ops : List (ListOp T)} (h₀ : Buffers area others r)
    (h : Reaches area r RoundsUp ops lists r') :
    Advances area others r (ops.foldl ListOp.apply []) lists r' := by
  induction h with
  | start => exact ⟨⟨h₀, fun _ hl => absurd hl List.not_mem_nil⟩, rfl, .refl _ _⟩
  | call _ hok hrun _ ih =>
      obtain ⟨hsound, hcontents, hsame⟩ := ih
      rcases wp_run (run_rule hsound _ hok) hrun with ⟨_, ⟨⟩, hadvances⟩ | ⟨⟨⟩, -⟩ | ⟨⟨⟩, -⟩
      obtain ⟨hsound', hcontents', hsame'⟩ := hadvances
      refine ⟨hsound', ?_, hsame.trans hsame'⟩
      rw [List.foldl_append, ← hcontents]
      exact hcontents'

theorem flatMap_held (lists : Lists T) :
    (lists.flatMap held).map Prod.fst = (lists.map ArrayList.data).filter (· ≠ 0) := by
  induction lists with
  | nil => rfl
  | cons l lists ih =>
      rw [List.flatMap_cons, List.map_append, ih, List.map_cons]
      by_cases hnull : l.data = 0
      · rw [List.filter_cons_of_neg (by simpa using hnull), held, if_pos hnull]
        rfl
      · rw [List.filter_cons_of_pos (by simpa using hnull), held_of_ne hnull]
        rfl

/-- The objects hold `elems`, which lie in their buffers. The allocated buffers are `others`
and one for each object that has one, and no buffer is among them twice. -/
structure Implements (others : List Nat) (elems : List (List T.Value)) (lists : Lists T)
    (r : HeapRun) : Prop where
  contents : allContents r lists = elems
  len_le : ∀ l ∈ lists, l.len ≤ l.cap
  owned : (r.live.map Allocation.ptr).Perm
    ((lists.map ArrayList.data).filter (· ≠ 0) ++ others)
  once : ((lists.map ArrayList.data).filter (· ≠ 0) ++ others).Nodup

/-- On every heap that calls of `kmalloc` and `kfree` lead to, `ArrayList` implements lists as
long as what its calls ask for can be rounded up, and each of its methods returns. -/
theorem arrayList_implements {m : Memory} {calls : List HeapCall} {r₀ : HeapRun}
    {ops : List (ListOp T)} (hlegal : (HeapRun.start m).Legal area calls)
    (hrun : (HeapRun.start m).run area calls = some r₀)
    (h : Reaches area r₀ RoundsUp ops lists r) :
    Implements (r₀.live.map Allocation.ptr) (ops.foldl ListOp.apply []) lists r ∧
      ∀ op : ListOp T, (op.run area lists r).1 ≠ .diverged := by
  obtain ⟨hsound, hcontents, -⟩ := h.sound (start_buffers hlegal hrun)
  have howned := hsound.buffers.live
  have honce := hsound.buffers.nodup
  rw [List.map_append, flatMap_held, List.map_map] at howned honce
  refine ⟨⟨hcontents, fun l hl => (hsound.fine l hl).len_le, howned, honce⟩, fun op => ?_⟩
  intro hdiverged
  rcases wp_run (run_returns hsound op) (run_eq hdiverged) with ⟨_, ⟨⟩, -⟩ | ⟨⟨⟩, -⟩ | ⟨-, hfalse⟩
  exact hfalse

/-- `u32` -/
def word : ElemType := ⟨4, by decide⟩

def pushWord : ListOp word := .pushBack 0 (.value fun _ => 7)

/-- One element in the first buffer of the heap. -/
theorem arrayList_implements_push :
    @Implements word [] [[fun _ => 7]] [⟨0x20010, 1, 4⟩]
      (pushWord.run Kheap.imageArea [ArrayList.new] (HeapRun.start ⟨fun _ => 0⟩)).2 := by
  have hpush : (pushWord.run Kheap.imageArea [ArrayList.new] (HeapRun.start ⟨fun _ => 0⟩)).1 =
      .ok [⟨0x20010, 1, 4⟩] := by decide +kernel
  have hnew : AllFit [(ArrayList.new : ArrayList word)] := by
    intro l hl
    rw [List.mem_singleton.mp hl]
    exact (by decide : 4 * 0 < 2 ^ 32)
  have hpushed : AllFit [(⟨0x20010, 1, 4⟩ : ArrayList word)] := by
    intro l hl
    rw [List.mem_singleton.mp hl]
    exact (by decide : 4 * 4 < 2 ^ 32)
  have hreaches : Reaches Kheap.imageArea (HeapRun.start ⟨fun _ => 0⟩) RoundsUp
      ([.new] ++ [pushWord]) [⟨0x20010, 1, 4⟩] _ :=
    (Reaches.start.call (by decide : 0 ≤ 2 ^ 32 - 8) rfl hnew).call
      (by decide : 4 * 4 ≤ 2 ^ 32 - 8) (run_eq hpush) hpushed
  exact (@arrayList_implements word Kheap.imageArea _ _ ⟨fun _ => 0⟩ [] _ _ trivial rfl hreaches).1

/-! ## A size that cannot be rounded up -/

instance (lists : Lists T) : Decidable (AllFit lists) :=
  inferInstanceAs (Decidable (∀ l ∈ lists, T.width * l.cap.toNat < 2 ^ 32))

/-- One call after the other, as long as they succeed and the capacities fit. -/
def runFitting (area : HeapArea) :
    List (ListOp T) → Lists T → HeapRun → Option (Lists T × HeapRun)
  | [], lists, r => some (lists, r)
  | op :: ops, lists, r =>
      match op.run area lists r with
      | (.ok lists', r') => if AllFit lists' then runFitting area ops lists' r' else none
      | _ => none

theorem Reaches.runFitting {r₀ : HeapRun} {ops more : List (ListOp T)} {lists' : Lists T}
    (h : Reaches area r₀ (fun _ _ => True) ops lists r)
    (hrun : runFitting area more lists r = some (lists', r')) :
    Reaches area r₀ (fun _ _ => True) (ops ++ more) lists' r' := by
  induction more generalizing ops lists r with
  | nil =>
      obtain ⟨⟩ := hrun
      rwa [List.append_nil]
  | cons op more ih =>
      unfold Raw.runFitting at hrun
      split at hrun
      case h_1 lists₁ r₁ hcall =>
        split at hrun
        case isTrue hfit =>
          rw [List.append_cons]
          exact ih (h.call trivial hcall hfit) hrun
        case isFalse => cases hrun
      case h_2 => cases hrun

/-- A structure of seven words. -/
def sevenWords : ElemType := ⟨28, by decide⟩

/-- Two lists, each with room for 2^32 - 4 bytes, and an element in each. -/
def hugeBuffers : List (ListOp sevenWords) :=
  [.new, .new, .reserve 0 153391689, .reserve 1 153391689, .pushBack 1 (.value fun _ => 1),
    .pushBack 0 (.value fun _ => 2)]

/-- The two buffers have no byte, and the element of the first list is written over that of the
second. -/
theorem not_arrayList_implements :
    ¬∀ (T : ElemType) (area : HeapArea) (m : Memory) (calls : List HeapCall) (r₀ r : HeapRun)
      (ops : List (ListOp T)) (lists : Lists T), (HeapRun.start m).Legal area calls →
      (HeapRun.start m).run area calls = some r₀ →
      Reaches area r₀ (fun _ _ => True) ops lists r →
      Implements (r₀.live.map Allocation.ptr) (ops.foldl ListOp.apply []) lists r := by
  intro h
  have hsome : (runFitting Kheap.imageArea hugeBuffers [] (HeapRun.start ⟨fun _ => 0⟩)).isSome =
      true := by decide +kernel
  obtain ⟨⟨lists, r⟩, hrun⟩ := Option.isSome_iff_exists.mp hsome
  have hreaches := Reaches.start.runFitting hrun
  have hcontents := (h sevenWords Kheap.imageArea ⟨fun _ => 0⟩ [] _ r _ lists trivial rfl
    hreaches).contents
  have hbyte : (runFitting Kheap.imageArea hugeBuffers [] (HeapRun.start ⟨fun _ => 0⟩)).map
      (fun s => (allContents s.2 s.1).map (·.map fun v => v ⟨0, by decide⟩)) =
      some [[2], [2]] := by decide +kernel
  rw [hrun, Option.map_some, hcontents] at hbyte
  exact absurd hbyte (by decide)

end SevenOS.Raw
