import Mathlib.Data.List.Perm.Basic
import SevenOS.Heap.Room
import SevenOS.Heap.Strings

/-! # Who owns a buffer

`Owns` lists the buffers that `kmalloc` gave out and `kfree` has not got back.
`Allots` is a triple over such lists: it says what a program does to them unless an
allocation fails. `KeepsHeap` is what a scope owes the heap.
-/

namespace SevenOS

open Prog Tiling

variable {area : HeapArea} {α β : Type}

/-- The allocated buffers are those of `own`, each once. -/
structure Owns (area : HeapArea) (own : List Nat) (r : HeapRun) : Prop where
  live : (r.live.map Allocation.ptr).Perm own
  heap : (∃ m, r = HeapRun.start m) ∨ ∃ blocks, Kheap.Managed area r blocks

namespace Owns

variable {own : List Nat} {r : HeapRun}

theorem perm {own' : List Nat} (h : Owns area own r) (hperm : own.Perm own') :
    Owns area own' r := ⟨h.live.trans hperm, h.heap⟩

theorem laidOut (h : Owns area own r) : ∃ heap blocks,
    Kheap.heapInit area r.heap = Kheap.heapInit area heap ∧
      Kheap.Managed area ⟨heap, r.live⟩ blocks := by
  rcases h.heap with ⟨m, rfl⟩ | ⟨blocks, hmanaged⟩
  · obtain ⟨m', hinit, hmanaged⟩ := Kheap.start_managed area m
    refine ⟨_, _, ?_, hmanaged⟩
    rw [HeapRun.start, hinit, Kheap.heapInit, if_pos hmanaged.head_ne]
  · exact ⟨r.heap, blocks, rfl, hmanaged⟩

theorem blocks (h : Owns area own r) :
    ∃ blocks, Kheap.Blocks area r.heap blocks ∧ own.Perm (held 16 blocks) ∧ own.Nodup ∧
      own.length ≤ 4096 := by
  obtain ⟨heap, blocks, hheap, hmanaged⟩ := h.laidOut
  have hblocks : Kheap.Blocks area r.heap blocks := by
    rw [Kheap.Blocks, hheap]
    exact hmanaged.blocks_heap
  have hperm : own.Perm (held 16 blocks) := h.live.symm.trans hmanaged.live
  refine ⟨blocks, hblocks, hperm, ?_, ?_⟩
  · exact hperm.nodup_iff.mpr (hmanaged.rep.tiles.held_nodup (by decide))
  · have hlength : (held 16 blocks).length ≤ blocks.length := by
      rw [held, List.length_map]
      exact List.length_filter_le _ _
    have := hmanaged.rep.tiles.length_le
    rw [hperm.length_eq]
    omega

end Owns

theorem Kheap.start_owns {m : Memory} {calls : List HeapCall} {r : HeapRun}
    (hlegal : (HeapRun.start m).Legal area calls)
    (hrun : (HeapRun.start m).run area calls = some r) :
    Owns area (r.live.map Allocation.ptr) r := by
  obtain ⟨r', hrun', hcases⟩ := start_run_cases hlegal
  obtain rfl : r' = r := Option.some.inj (hrun'.symm.trans hrun)
  refine ⟨List.Perm.refl _, ?_⟩
  cases hcases with
  | inl hstart => exact .inl ⟨m, hstart⟩
  | inr hmanaged => exact .inr hmanaged

/-! ## Triples -/

/-- From buffers `own` the program comes to an end with a result and buffers of `Q`, or an
allocation fails. -/
def Allots (area : HeapArea) (m : HeapProg α) (own : List Nat) (Q : α → List Nat → Prop) : Prop :=
  ∀ r, Owns area own r →
    wp m (fun a r' => ∃ own', Owns area own' r' ∧ Q a own') (fun _ => True) (fun _ => False) r

namespace Allots

variable {own : List Nat} {Q : α → List Nat → Prop}

theorem pure {a : α} (h : Q a own) : Allots area (Pure.pure a) own Q :=
  fun _ howns => ⟨own, howns, h⟩

theorem bind {m : HeapProg β} {f : β → HeapProg α} {Q' : β → List Nat → Prop}
    (hm : Allots area m own Q') (hf : ∀ b own', Q' b own' → Allots area (f b) own' Q) :
    Allots area (m >>= f) own Q := by
  intro r howns
  refine wp_call (hm r howns) ?_ (fun _ h => h) fun _ h => h
  rintro b r' ⟨own', howns', hQ'⟩
  exact hf b own' hQ' r' howns'

theorem mono {m : HeapProg α} {Q' : α → List Nat → Prop} (h : Allots area m own Q')
    (hQ : ∀ a own', Q' a own' → Q a own') : Allots area m own Q := by
  intro r howns
  refine wp_mono (h r howns) ?_ (fun _ h => h) fun _ h => h
  rintro a r' ⟨own', howns', hQ'⟩
  exact ⟨own', howns', hQ a own' hQ'⟩

theorem perm {m : HeapProg α} {own' : List Nat} (h : Allots area m own' Q)
    (hperm : own.Perm own') : Allots area m own Q := fun r howns => h r (howns.perm hperm)

/-- A loop over a list, with an invariant on the part already done. -/
theorem foldlM {ι : Type} {step : β → ι → HeapProg β} {items : List ι} {b : β}
    (J : List ι → β → List Nat → Prop) (h : J [] b own)
    (hstep : ∀ done i rest b own, items = done ++ i :: rest → J done b own →
      Allots area (step b i) own (J (done ++ [i]))) :
    Allots area (items.foldlM step b) own (J items) := by
  intro r howns
  refine wp_foldlM step (fun done b r => ∃ own, Owns area own r ∧ J done b own) items ?_ b
    ⟨own, howns, h⟩
  rintro done i rest b' r' hitems ⟨own', howns', hJ⟩
  exact hstep done i rest b' own' hitems hJ r' howns'

end Allots

/-! ## Buffers -/

/-- `newBytes` is refused, or it gives out a block that was free. -/
theorem newBytes_cases {r : HeapRun} {heap : Kheap} {blocks : List Tiling.Block}
    (hheap : Kheap.heapInit area r.heap = Kheap.heapInit area heap)
    (hmanaged : Kheap.Managed area ⟨heap, r.live⟩ blocks) (size : Nat) :
    (∃ r', newBytes area size r = (.refused, r')) ∨
      ∃ heap' ptr blocks', newBytes area size r =
          (.ok ptr, ⟨heap', ⟨ptr, UInt32.ofNat size⟩ :: r.live⟩) ∧ ptr ≠ 0 ∧
        Kheap.kmalloc area heap (UInt32.ofNat size) = some (heap', ptr) ∧
        Kheap.Served (UInt32.ofNat size) blocks ptr blocks' ∧
        Kheap.Managed area ⟨heap', ⟨ptr, UInt32.ofNat size⟩ :: r.live⟩ blocks' := by
  by_cases hsize : UInt32.ofNat size = 0
  · have hnull : newBytes area size r = (.refused, r) := by
      rw [newBytes, hsize]
      rfl
    exact .inl ⟨r, hnull⟩
  · obtain ⟨heap', ptr, blocks', hrun, hserved, hmanaged'⟩ := hmanaged.kmalloc_served hsize
    have hcall : Kheap.kmalloc area r.heap (UInt32.ofNat size) = some (heap', ptr) := by
      rw [← Kheap.kmalloc_heapInit hsize, hheap, Kheap.kmalloc_heapInit hsize]
      exact hrun
    by_cases hptr : ptr = 0
    · have hnull : newBytes area size r = (.refused, ⟨heap', r.live⟩) := by
        simp only [newBytes, hcall, if_pos hptr]
      exact .inl ⟨_, hnull⟩
    · have hnew : newBytes area size r =
          (.ok ptr, ⟨heap', ⟨ptr, UInt32.ofNat size⟩ :: r.live⟩) := by
        simp only [newBytes, hcall, if_neg hptr]
      rw [if_neg hptr] at hmanaged'
      exact .inr ⟨heap', ptr, blocks', hnew, hptr, hrun, hserved, hmanaged'⟩

/-- A new buffer is one more. -/
theorem newBytes_allots (own : List Nat) (size : Nat) :
    Allots area (newBytes area size) own fun ptr own' => ptr ≠ 0 ∧ own' = ptr :: own := by
  intro r howns
  obtain ⟨heap, blocks, hheap, hmanaged⟩ := howns.laidOut
  rcases newBytes_cases hheap hmanaged size with
    ⟨r', hnull⟩ | ⟨heap', ptr, blocks', hnew, hptr, -, -, hmanaged'⟩
  · rw [wp, hnull]
    trivial
  · rw [wp, hnew]
    exact ⟨ptr :: own, ⟨howns.live.cons ptr, .inr ⟨blocks', hmanaged'⟩⟩, hptr, rfl⟩

/-- A buffer given back is one less. -/
theorem deleteBytes_allots {own own' : List Nat} {ptr : Nat} (hown : own.Perm (ptr :: own')) :
    Allots area (deleteBytes ptr) own fun _ own'' => own'' = own' := by
  refine Allots.perm ?_ hown
  intro r howns
  have hmem : ptr ∈ r.live.map Allocation.ptr := howns.live.mem_iff.mpr List.mem_cons_self
  obtain ⟨a, ha, haptr⟩ := List.mem_map.mp hmem
  rcases howns.heap with ⟨m, rfl⟩ | ⟨blocks, hmanaged⟩
  · exact absurd ha List.not_mem_nil
  · obtain ⟨r', blocks', hstep, hmanaged'⟩ := hmanaged.kfree ⟨a, ha, haptr⟩
    obtain rfl := Option.some.inj hstep
    refine ⟨own', ⟨?_, .inr ⟨blocks', hmanaged'⟩⟩, rfl⟩
    rw [Kheap.live_erase]
    have := howns.live.erase ptr
    rwa [List.erase_cons_head] at this

/-! ## Leaks -/

/-- Every allocation of the program is served, and it leaves the allocated blocks that it
found. -/
def KeepsHeap (area : HeapArea) (m : HeapProg α) (r : HeapRun) : Prop :=
  ∃ a r' blocks blocks', m r = (.ok a, r') ∧ Kheap.Blocks area r.heap blocks ∧
    Kheap.Blocks area r'.heap blocks' ∧ ∀ p, p ∈ held 16 blocks' ↔ p ∈ held 16 blocks

theorem Kheap.Reached.unique {m : Memory} {p : Nat} {blocks blocks' : List Tiling.Block}
    (h : Reached m p blocks) (h' : Reached m p blocks') : blocks = blocks' := by
  induction blocks generalizing p blocks' with
  | nil =>
      cases blocks' with
      | nil => rfl
      | cons b' rest' => exact absurd h h'.1
  | cons b rest ih =>
      cases blocks' with
      | nil => exact absurd h' h.1
      | cons b' rest' =>
          obtain ⟨-, rfl, hrest⟩ := h
          obtain ⟨-, rfl, hrest'⟩ := h'
          rw [ih hrest hrest']

theorem KeepsHeap.lost {m : HeapProg α} {own : List Nat} {r : HeapRun}
    {P : α → List Nat → Prop} (h : KeepsHeap area m r) (howns : Owns area own r)
    (hm : Allots area m own fun a own' => ∃ lost, own' = lost ++ own ∧ P a lost) :
    ∃ a, P a [] := by
  obtain ⟨a, r', found, left, hrun, hfound, hleft, hsame⟩ := h
  rcases wp_run (hm r howns) hrun with
    ⟨_, ⟨⟩, _, howns', lost, rfl, hP⟩ | ⟨⟨⟩, -⟩ | ⟨⟨⟩, -⟩
  obtain ⟨blocks, hblocks, hperm, -, -⟩ := howns.blocks
  obtain ⟨blocks', hblocks', hperm', hnodup', -⟩ := howns'.blocks
  rw [hfound.unique hblocks, hleft.unique hblocks'] at hsame
  have hlost : lost = [] := by
    rw [List.eq_nil_iff_forall_not_mem]
    intro p hp
    have hnew : p ∈ held 16 blocks' := hperm'.mem_iff.mp (List.mem_append_left own hp)
    have hold : p ∈ own := hperm.mem_iff.mpr ((hsame p).mp hnew)
    exact (List.nodup_append.mp hnodup').2.2 p hp p hold rfl
  exact ⟨a, hlost ▸ hP⟩

theorem Owns.keepsHeap {m : HeapProg α} {own : List Nat} {r : HeapRun} {a : α}
    (howns : Owns area own r) (hrun : m r = (.ok a, r)) : KeepsHeap area m r := by
  obtain ⟨blocks, hblocks, -⟩ := howns.blocks
  exact ⟨a, r, blocks, blocks, hrun, hblocks, hblocks, fun _ => Iff.rfl⟩

/-! ## Lists and strings -/

namespace ArrayList

/-- The buffer of a list, if it has one. -/
def held (list : ArrayList α) : List Nat := if list.data = 0 then [] else [list.data]

theorem freeData_allots {list : ArrayList α} {own own' : List Nat}
    (hown : own.Perm (list.held ++ own')) :
    Allots area list.freeData own fun _ own'' => own'' = own' := by
  refine Allots.perm ?_ hown
  unfold freeData held
  by_cases hdata : list.data = 0
  · rw [if_neg (not_not.mpr hdata), if_pos hdata]
    exact .pure rfl
  · rw [if_pos hdata, if_neg hdata]
    exact deleteBytes_allots (List.Perm.refl _)

theorem grow_allots (list : ArrayList α) (own : List Nat) (width newCap : Nat) :
    Allots area (list.grow area width newCap) (list.held ++ own) fun list' own' =>
      own' = list'.held ++ own ∧ list'.elems = list.elems := by
  apply Allots.bind (newBytes_allots _ _)
  intro newData own' hown'
  obtain ⟨hnew, rfl⟩ := hown'
  apply Allots.bind (freeData_allots List.perm_middle.symm)
  intro _ own' hown'
  subst hown'
  refine .pure ⟨?_, rfl⟩
  rw [held, if_neg hnew]
  rfl

theorem pushBack_allots (list : ArrayList α) (own : List Nat) (width : Nat) (value : α) :
    Allots area (list.pushBack area width value) (list.held ++ own) fun list' own' =>
      own' = list'.held ++ own ∧ list'.elems = list.elems ++ [value] := by
  by_cases hfull : list.elems.length + 1 > list.cap
  · simp only [pushBack, if_pos hfull]
    apply Allots.bind (grow_allots list own width _)
    intro list' own' hown'
    obtain ⟨rfl, helems⟩ := hown'
    exact .pure ⟨rfl, by rw [helems]⟩
  · simp only [pushBack, if_neg hfull]
    exact .pure ⟨rfl, rfl⟩

end ArrayList

namespace KString

variable (own : List Nat)

theorem new_allots : Allots area (new area) own fun s own' =>
    own' = s.data :: own ∧ s.chars = [] := by
  apply Allots.bind (newBytes_allots own _)
  intro data own' hown'
  exact .pure ⟨hown'.2, rfl⟩

theorem ofChars_allots (cs : CStr) : Allots area (ofChars area cs) own fun s own' =>
    own' = s.data :: own ∧ s.chars = cs.chars := by
  apply Allots.bind (newBytes_allots own _)
  intro data own' hown'
  exact .pure ⟨hown'.2, rfl⟩

theorem copy_allots (other : KString) : Allots area (copy area other) own fun s own' =>
    own' = s.data :: own ∧ s.chars = other.chars := by
  apply Allots.bind (newBytes_allots own _)
  intro data own' hown'
  exact .pure ⟨hown'.2, rfl⟩

/-- The buffer of before stays allocated. -/
theorem append_allots (s : KString) (c : UInt8) : Allots area (s.append area c) own fun s' own' =>
    own' = s'.data :: own ∧ s'.chars = s.chars ++ [c] := by
  apply Allots.bind (newBytes_allots own _)
  intro data own' hown'
  exact .pure ⟨hown'.2, rfl⟩

/-- The buffer of before is exchanged for a new one. -/
theorem addChar_allots (s : KString) (c : UInt8) :
    Allots area (s.addChar area c) (s.data :: own) fun s' own' =>
      own' = s'.data :: own ∧ s'.chars = s.chars ++ [c] := by
  apply Allots.bind (newBytes_allots _ _)
  intro data own' hown'
  obtain ⟨-, rfl⟩ := hown'
  apply Allots.bind (deleteBytes_allots (List.Perm.swap _ _ _))
  intro _ own' hown'
  exact .pure ⟨hown', rfl⟩

theorem addString_allots (s other : KString) :
    Allots area (s.addString area other) (s.data :: own) fun s' own' =>
      own' = s'.data :: own ∧ s'.chars = s.chars ++ other.chars := by
  apply Allots.bind (newBytes_allots _ _)
  intro data own' hown'
  obtain ⟨-, rfl⟩ := hown'
  apply Allots.bind (deleteBytes_allots (List.Perm.swap _ _ _))
  intro _ own' hown'
  exact .pure ⟨hown', rfl⟩

end KString

/-! ## Scopes -/

namespace StringOp

/-- The buffers of the strings of a scope. -/
def buffers (strings : List KString) : List Nat := strings.map KString.data

/-- The program comes to `strings`, of which there is one if `full`; buffers may be lost. -/
def Turns (own : List Nat) (full : Prop) (strings : List KString) (own' : List Nat) : Prop :=
  ∃ lost, own' = buffers strings ++ (lost ++ own) ∧ (full → strings ≠ [])

theorem Turns.weaken {own own' : List Nat} {full full' : Prop} {strings : List KString}
    (h : Turns own full strings own') (himp : full' → full) : Turns own full' strings own' := by
  obtain ⟨lost, hown', hne⟩ := h
  exact ⟨lost, hown', fun hfull => hne (himp hfull)⟩

theorem construct_allots {strings : List KString} {m : HeapProg KString} (own : List Nat)
    (hm : ∀ own, Allots area m own fun s own' => own' = s.data :: own) :
    Allots area (construct strings m) (buffers strings ++ own) (Turns own True) := by
  apply Allots.bind (hm _)
  intro s own' hown'
  subst hown'
  refine Allots.perm (.pure ⟨[], rfl, by simp⟩) ?_
  rw [buffers, buffers, List.map_append, List.append_assoc]
  exact List.perm_middle.symm

theorem update_allots {strings : List KString} {f : KString → HeapProg KString} (i : Nat)
    (own : List Nat) (hf : ∀ s own, Allots area (f s) (s.data :: own) fun s' own' =>
      ∃ lost, own' = s'.data :: (lost ++ own)) :
    Allots area (update strings i f) (buffers strings ++ own)
      (Turns own (strings ≠ [])) := by
  unfold update
  cases hs : strings[i]? with
  | none => exact .pure ⟨[], rfl, fun h => h⟩
  | some s =>
      obtain ⟨hi, rfl⟩ := List.getElem?_eq_some_iff.mp hs
      have hout : strings.Perm (strings[i] :: strings.eraseIdx i) :=
        (List.getElem_cons_eraseIdx_perm hi).symm
      apply Allots.bind ((hf strings[i] (buffers (strings.eraseIdx i) ++ own)).perm
        ((hout.map KString.data).append_right own))
      intro s' own' hown'
      obtain ⟨lost, rfl⟩ := hown'
      have hin : (strings.set i s').Perm (s' :: strings.eraseIdx i) :=
        List.set_perm_cons_eraseIdx hi s'
      refine Allots.perm (.pure ⟨lost, rfl, by simp⟩) ?_
      refine List.Perm.trans ?_ ((hin.symm.map KString.data).append_right _)
      exact (List.perm_append_comm_assoc _ _ _).cons _

theorem run_allots (op : StringOp) (strings : List KString) (own : List Nat) :
    Allots area (op.run area strings) (buffers strings ++ own)
      (Turns own (op.makes = true ∨ strings ≠ [])) := by
  have hsame : ∀ (op : StringOp) strings' own', op.makes = false →
      Turns own (strings ≠ []) strings' own' →
      Turns own (op.makes = true ∨ strings ≠ []) strings' own' := by
    intro op strings' own' hmakes h
    exact h.weaken fun hor => hor.resolve_left (by rw [hmakes]; decide)
  have hnone : Allots area (pure strings) (buffers strings ++ own) (Turns own (strings ≠ [])) :=
    .pure ⟨[], rfl, fun h => h⟩
  cases op with
  | new =>
      refine (construct_allots own fun own => ?_).mono fun _ _ h => h.weaken fun _ => trivial
      exact (KString.new_allots own).mono fun _ _ h => h.1
  | ofChars s =>
      refine (construct_allots own fun own => ?_).mono fun _ _ h => h.weaken fun _ => trivial
      exact (KString.ofChars_allots own s).mono fun _ _ h => h.1
  | copy i =>
      refine Allots.mono ?_ fun strings' own' => hsame (.copy i) strings' own' rfl
      rw [run]
      cases strings[i]? with
      | none => exact hnone
      | some s =>
          refine (construct_allots own fun own => ?_).mono fun _ _ h => h.weaken fun _ => trivial
          exact (KString.copy_allots own s).mono fun _ _ h => h.1
  | append i c =>
      refine Allots.mono ?_ fun strings' own' => hsame (.append i c) strings' own' rfl
      refine update_allots i own fun s own => ?_
      exact (KString.append_allots _ s c).mono fun s' own' h => ⟨[s.data], h.1⟩
  | addChar i c =>
      refine Allots.mono ?_ fun strings' own' => hsame (.addChar i c) strings' own' rfl
      refine update_allots i own fun s own => ?_
      exact (KString.addChar_allots own s c).mono fun s' own' h => ⟨[], h.1⟩
  | addString i j =>
      refine Allots.mono ?_ fun strings' own' => hsame (.addString i j) strings' own' rfl
      rw [run]
      cases strings[j]? with
      | none => exact hnone
      | some other =>
          refine update_allots i own fun s own => ?_
          exact (KString.addString_allots own s other).mono fun s' own' h => ⟨[], h.1⟩
  | popBack i =>
      refine Allots.mono ?_ fun strings' own' => hsame (.popBack i) strings' own' rfl
      exact update_allots i own fun s own => .pure ⟨[], rfl⟩

theorem scope_allots (ops : List StringOp) (own : List Nat) :
    Allots area (scope area ops) own fun _ own' =>
      ∃ lost, own' = lost ++ own ∧ ((∃ op ∈ ops, op.makes = true) → lost ≠ []) := by
  have hrun : Allots area (ops.foldlM (run area) []) own
      (Turns own (∃ op ∈ ops, op.makes = true)) := by
    refine Allots.foldlM (fun (done : List StringOp) => Turns own (∃ op ∈ done, op.makes = true))
      ⟨[], rfl, by simp⟩ ?_
    rintro done op rest strings _ - ⟨lost, rfl, hne⟩
    refine (run_allots op strings (lost ++ own)).mono ?_
    rintro strings' _ ⟨lost', rfl, hne'⟩
    refine ⟨lost' ++ lost, by rw [List.append_assoc], ?_⟩
    rintro ⟨x, hx, hmakes⟩
    apply hne'
    rcases List.mem_append.mp hx with hx | hx
    · exact .inr (hne ⟨x, hx, hmakes⟩)
    · exact .inl (List.mem_singleton.mp hx ▸ hmakes)
  apply Allots.bind hrun
  rintro strings _ ⟨lost, rfl, hne⟩
  refine (Allots.foldlM (fun _ _ own' => own' = buffers strings ++ (lost ++ own)) rfl ?_).mono ?_
  · intro done s rest _ own' _ hown'
    exact .pure hown'
  · intro _ own' hown'
    refine ⟨buffers strings ++ lost, by rw [hown', List.append_assoc], fun hmakes hnil => ?_⟩
    exact hne hmakes (List.map_eq_nil_iff.mp (List.append_eq_nil_iff.mp hnil).1)

theorem scope_idle {ops : List StringOp} (hidle : ∀ op ∈ ops, op.makes = false) (r : HeapRun) :
    scope area ops r = (.ok (), r) := by
  have hrun : ops.foldlM (run area) [] = (pure [] : HeapProg (List KString)) := by
    induction ops with
    | nil => rfl
    | cons op ops ih =>
        have hop : op.run area [] = pure [] := by
          have hmakes := hidle op List.mem_cons_self
          cases op with
          | new => cases hmakes
          | ofChars s => cases hmakes
          | _ => rfl
        rw [List.foldlM_cons, hop]
        exact ih fun op hmem => hidle op (List.mem_cons_of_mem _ hmem)
  rw [scope, hrun]
  rfl

/-- A scope gives everything back just when it constructs nothing. -/
theorem keepsHeap_iff {own : List Nat} {r : HeapRun} (howns : Owns area own r)
    (ops : List StringOp) :
    KeepsHeap area (scope area ops) r ↔ ∀ op ∈ ops, op.makes = false := by
  constructor
  · intro hkeeps op hop
    obtain ⟨-, hlost⟩ := hkeeps.lost howns (scope_allots ops own)
    by_contra hmakes
    exact hlost ⟨op, hop, by simpa using hmakes⟩ rfl
  · intro hidle
    exact howns.keepsHeap (scope_idle hidle r)

end StringOp

end SevenOS
