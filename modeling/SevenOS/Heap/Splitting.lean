import SevenOS.Lib.Words
import SevenOS.Heap.RawString

/-! # Splitting a string

`String::split` walks over the characters and one place further. Where a segment ends
it goes through a temporary buffer and the constructor into a list of strings. The list
holds the words, each in a buffer of its own, and nothing temporary stays allocated.
-/

namespace SevenOS.Raw

open Prog

namespace KString

variable (area : HeapArea)

/-- A segment that ends: `segLen` characters from `start` on. -/
def addPart (s : KString) (start segLen : Nat) (parts : ArrayList stringType) :
    HeapProg (ArrayList stringType) :=
  if segLen > 0 then do
    let temp ← newCopy area (s.data + start) segLen
    let part ← ofCStr area temp
    deleteBytes temp
    parts.pushBack area fun _ => part.toCell
  else pure parts

/-- One round, with `start` and `parts`. The counters stay below 2^32, since a string with
its NUL has room in the heap. -/
def splitStep (s : KString) (delimiter : UInt8) (acc : Nat × ArrayList stringType) (i : Nat) :
    HeapProg (Nat × ArrayList stringType) := do
  let r ← get
  if i = s.len.toNat ∨ r.heap.memory.byte (s.data + i) = delimiter then do
    let parts ← addPart area s acc.1 (i - acc.1) acc.2
    return (i + 1, parts)
  else return acc

def split (s : KString) (delimiter : UInt8) : HeapProg (ArrayList stringType) := do
  let acc ← (List.range (s.len.toNat + 1)).foldlM (splitStep area s delimiter)
    (0, ArrayList.new)
  return acc.2

/-! ## Characters and segments -/

variable {area} {own : List (Nat × Nat)} {r r' : HeapRun} {b : Nat × Nat} {s : KString}
  {text : List UInt8} {delimiter : UInt8} {m : Memory} {start i : Nat}

namespace Holds

theorem bytes_text (h : s.Holds m text) : m.bytes s.data text.length = text := by
  have hfront := congrArg (List.take text.length) h.bytes
  rwa [Memory.bytes_succ, List.take_left' (Memory.length_bytes _ _ _), List.take_left] at hfront

theorem getElem? (h : s.Holds m text) (hi : i < text.length) :
    text[i]? = some (m.byte (s.data + i)) := by
  rw [← Memory.getElem?_bytes m s.data hi, h.bytes_text]

theorem slice (h : s.Holds m text) (hi : i ≤ text.length) (start : Nat) :
    m.bytes (s.data + start) (i - start) = Words.slice text start i := by
  rw [Memory.bytes_drop m s.data hi, h.bytes_text]
  rfl

theorem ends_iff (h : s.Holds m text) (hi : i ≤ text.length) :
    (i = s.len.toNat ∨ m.byte (s.data + i) = delimiter) ↔ Words.Ends delimiter text i := by
  rw [Words.Ends, h.len]
  by_cases hlast : i = text.length
  · exact iff_of_true (.inl hlast) (.inl hlast)
  · rw [h.getElem? (Nat.lt_of_le_of_ne hi hlast), Option.some_inj]

end Holds

/-! ## The list of parts -/

/-- The list holds `strings` with these characters, each of them in a buffer of its own. -/
structure Gathered (area : HeapArea) (own : List (Nat × Nat)) (r : HeapRun)
    (texts : List (List UInt8)) (parts : ArrayList stringType) (strings : List KString)
    (r' : HeapRun) : Prop where
  buffers : Buffers area (parts.held ++ (strings.map buffer ++ own)) r'
  fine : parts.Fine
  contents : parts.contents r'.heap.memory = strings.map toCell
  texts : List.Forall₂ (Holds r'.heap.memory) strings texts
  same : SameBytes own r r'

variable {texts : List (List UInt8)} {parts : ArrayList stringType} {strings : List KString}

/-- Strings keep their characters when the bytes of their buffers stay. -/
theorem holds_same (h : List.Forall₂ (Holds r.heap.memory) strings texts)
    (hsame : SameBytes own r r') (hown : ∀ str ∈ strings, str.buffer ∈ own) :
    List.Forall₂ (Holds r'.heap.memory) strings texts := by
  induction h with
  | nil => exact .nil
  | cons hstr _ ih =>
      refine .cons (hstr.same hsame (hown _ List.mem_cons_self) rfl ?_)
        (ih fun str hmem => hown str (List.mem_cons_of_mem _ hmem))
      rw [buffer, hstr.len]
      exact Nat.lt_succ_self _

/-- A segment becomes one more string of the list, and the temporary buffer is gone. -/
theorem addPart_rule (h : Gathered area own r texts parts strings r')
    (hs : s.Holds r'.heap.memory text) (hb : b ∈ own) (hdata : b.1 = s.data)
    (hroom : text.length < b.2) (hnul : 0 ∉ text) (hi : i ≤ text.length) (hlt : start < i) :
    wp (addPart area s start (i - start) parts) (fun parts' r'' => ∃ str,
      Gathered area own r (texts ++ [Words.slice text start i]) parts' (strings ++ [str]) r'')
      (fun _ => True) (fun _ => False) r' := by
  let segment := Words.slice text start i
  have hlength : segment.length = i - start := Words.length_slice hi start
  have hbounds := (h.buffers.bounds (b := b) (by simp [hb])).2.2
  rw [addPart, if_pos (by omega)]
  -- the temporary copy of the segment
  apply wp_call (newCopy_rule h.buffers (b := b) (by simp [hb]) (by omega) (by omega) (by omega)) _
    (fun _ h => h) fun _ h => h
  intro temp r₁ hcopy
  obtain ⟨hbuf₁, hsame₁, hbytes⟩ := hcopy
  rw [hs.slice hi, ← hlength] at hbytes
  -- the string that is made of it
  have hnone : (0 : UInt8) ∉ segment := fun hmem => by
    obtain ⟨j, -, -, hj⟩ := Words.mem_slice hmem
    exact hnul (List.mem_of_getElem? hj)
  apply wp_call (ofCStr_rule hbuf₁ List.mem_cons_self (Nat.le_refl _) (by simp only; omega) hbytes
    hnone) _ (fun _ h => h) fun _ h => h
  intro part r₂ hpart
  obtain ⟨hholds, hbuf₂, hsame₂⟩ := hpart
  rw [wp_bind]
  apply deleteBytes_buffers (hbuf₂.perm (List.Perm.swap _ _ _))
  intro r₃ hbuf₃ hsame₃
  have hsame : SameBytes (parts.held ++ (strings.map buffer ++ own)) r' r₃ :=
    (hsame₁.trans (hsame₂.sub fun x hx => List.mem_cons_of_mem _ hx)).trans
      (hsame₃.sub fun x hx => List.mem_cons_of_mem _ (List.mem_cons_of_mem _ hx))
  have hroomy : segment.length < part.buffer.2 := by
    rw [buffer, hholds.len]
    exact Nat.lt_succ_self _
  have hholds₃ := hholds.same hsame₃ (b := part.buffer) (by simp) rfl hroomy
  -- and the list with the string
  apply wp_mono (ArrayList.pushBack_rule h.fine (hbuf₃.perm List.perm_middle.symm)
    (fun _ => by decide) (ArrayList.reads_value _ _ part.toCell)) _ (fun _ h => h) fun _ h => h
  intro parts' r₄ hbecomes
  have hkept : ∀ x ∈ strings.map buffer ++ own, x ∈ part.buffer :: (strings.map buffer ++ own) :=
    fun x hx => List.mem_cons_of_mem _ hx
  have hsame₄ : SameBytes (strings.map buffer ++ own) r' r₄ :=
    (hsame.sub fun x hx => List.mem_append_right _ hx).trans (hbecomes.same.sub hkept)
  have hperm : (part.buffer :: (strings.map buffer ++ own)).Perm
      ((strings ++ [part]).map buffer ++ own) := by
    rw [List.map_append, List.append_assoc]
    exact List.perm_middle.symm
  refine ⟨part, hbecomes.buffers.perm (hperm.append_left _), hbecomes.fine, ?_, ?_, ?_⟩
  · rw [hbecomes.contents, h.fine.contents_eq (hsame.sub fun x hx => List.mem_append_left _ hx),
      h.contents, List.map_append]
    rfl
  · have hold := holds_same h.texts hsame₄ fun str hmem =>
      List.mem_append_left _ (List.mem_map_of_mem hmem)
    have hnew := hholds₃.same hbecomes.same (b := part.buffer) List.mem_cons_self rfl hroomy
    exact List.rel_append hold (.cons hnew .nil)
  · exact h.same.trans (hsame₄.sub fun x hx => List.mem_append_right _ hx)

/-! ## The loop -/

/-- The texts of the segments between delimiters that have ended before place `k`. -/
def segments (delimiter : UInt8) (text : List UInt8) (k : Nat) : List (List UInt8) :=
  (Words.scan delimiter text k).2.map fun run => Words.slice text run.1 run.2

/-- After `k` rounds. -/
def SplitTo (area : HeapArea) (own : List (Nat × Nat)) (r : HeapRun) (delimiter : UInt8)
    (text : List UInt8) (k : Nat) (acc : Nat × ArrayList stringType) (r' : HeapRun) : Prop :=
  acc.1 = (Words.scan delimiter text k).1 ∧
    ∃ strings, Gathered area own r (segments delimiter text k) acc.2 strings r'

theorem splitStep_rule {acc : Nat × ArrayList stringType}
    (h : SplitTo area own r delimiter text i acc r') (hs : s.Holds r.heap.memory text)
    (hb : b ∈ own) (hdata : b.1 = s.data) (hroom : text.length < b.2) (hnul : 0 ∉ text)
    (hi : i ≤ text.length) :
    wp (splitStep area s delimiter acc i)
      (fun acc' r'' => SplitTo area own r delimiter text (i + 1) acc' r'') (fun _ => True)
      (fun _ => False) r' := by
  obtain ⟨hstart, strings, hgathered⟩ := h
  have hs' := hs.same hgathered.same hb hdata hroom
  rw [splitStep, wp_bind, wp_get]
  unfold SplitTo segments
  rw [Words.scan_succ, Words.step, ← hstart]
  by_cases hends : Words.Ends delimiter text i
  · rw [if_pos ((hs'.ends_iff hi).mpr hends), if_pos hends]
    by_cases hlt : acc.1 < i
    · apply wp_call (addPart_rule hgathered hs' hb hdata hroom hnul hi hlt) _ (fun _ h => h)
        fun _ h => h
      intro parts' r'' hpart
      obtain ⟨str, hpart⟩ := hpart
      refine ⟨rfl, strings ++ [str], ?_⟩
      rw [if_pos hlt, List.map_append]
      exact hpart
    · rw [addPart, if_neg (by omega), if_neg hlt]
      exact ⟨rfl, strings, hgathered⟩
  · rw [if_neg fun h => hends ((hs'.ends_iff hi).mp h), if_neg hends]
    exact ⟨hstart, strings, hgathered⟩

/-- The elements of a list of strings. -/
def elems (m : Memory) (parts : ArrayList stringType) : List KString :=
  (parts.contents m).map ofCell

/-- The elements of the list are strings with these characters, and each of them has a buffer
of its own. -/
structure Parts (area : HeapArea) (own : List (Nat × Nat)) (texts : List (List UInt8))
    (parts : ArrayList stringType) (r : HeapRun) : Prop where
  buffers : Buffers area (parts.held ++ ((elems r.heap.memory parts).map buffer ++ own)) r
  texts : List.Forall₂ (Holds r.heap.memory) (elems r.heap.memory parts) texts

theorem Gathered.toParts (h : Gathered area own r texts parts strings r') :
    Parts area own texts parts r' := by
  have hread : ∀ str ∈ strings, ofCell str.toCell = str := by
    intro str hmem
    have hbounds := h.buffers.bounds (b := str.buffer)
      (List.mem_append_right _ (List.mem_append_left own (List.mem_map_of_mem hmem)))
    rw [buffer] at hbounds
    exact ofCell_toCell (by omega)
  have helems : elems r'.heap.memory parts = strings := by
    rw [elems, h.contents, List.map_map]
    exact (List.map_congr_left hread).trans (List.map_id strings)
  exact ⟨by rw [helems]; exact h.buffers, by rw [helems]; exact h.texts⟩

/-- With its NUL the string has room in the heap, and then the loop comes to an end. -/
theorem split_rule {room : Nat} (hbuf : Buffers area ((s.data, room) :: own) r)
    (hs : s.Holds r.heap.memory text) (hroom : text.length < room) (hnul : 0 ∉ text)
    (delimiter : UInt8) :
    wp (s.split area delimiter) (fun parts r' =>
      Parts area ((s.data, room) :: own) (Words.words delimiter text) parts r') (fun _ => True)
      (fun _ => False) r := by
  have hstart : SplitTo area ((s.data, room) :: own) r delimiter text 0 (0, ArrayList.new) r :=
    ⟨rfl, [], ⟨hbuf, ArrayList.fine_new, rfl, .nil, .refl _ _⟩⟩
  rw [split, hs.len]
  apply wp_call (wp_foldlM_range _ (SplitTo area ((s.data, room) :: own) r delimiter text) _ _ _
    hstart) _ (fun _ h => h) fun _ h => h
  · intro i acc r' hi h
    exact splitStep_rule h hs List.mem_cons_self rfl hroom hnul (Nat.le_of_lt_succ hi)
  · intro acc r' h
    obtain ⟨-, strings, hgathered⟩ := h
    exact hgathered.toParts

/-- `split` returns, and if every allocation succeeds the parts are the words of the string:
the maximal non-empty runs of other characters, in order. -/
theorem split_words {room : Nat} (hbuf : Buffers area ((s.data, room) :: own) r)
    (hs : s.Holds r.heap.memory text) (hroom : text.length < room) (hnul : 0 ∉ text)
    (delimiter : UInt8) :
    (s.split area delimiter r).1 ≠ .diverged ∧
      ∀ parts r', s.split area delimiter r = (.ok parts, r') →
        ∃ words, Parts area ((s.data, room) :: own) words parts r' ∧
          Words.AreWords delimiter text words ∧
          (∀ word ∈ words, word ≠ [] ∧ delimiter ∉ word) ∧
          words.flatten = text.filter (· ≠ delimiter) := by
  have hrule := split_rule hbuf hs hroom hnul delimiter
  constructor
  · intro hdiverged
    rcases wp_run hrule (run_eq hdiverged) with ⟨_, ⟨⟩, -⟩ | ⟨⟨⟩, -⟩ | ⟨-, hfalse⟩
    exact hfalse
  · intro parts r' hrun
    rcases wp_run hrule hrun with ⟨_, ⟨⟩, hparts⟩ | ⟨⟨⟩, -⟩ | ⟨⟨⟩, -⟩
    have hwords := Words.areWords_words delimiter text
    exact ⟨_, hparts, hwords, fun _ hword => ⟨hwords.ne_nil hword, hwords.not_mem hword⟩,
      Words.flatten_words delimiter text⟩

/-- A blank and two letters where the first buffer will be. -/
def textMemory : Memory :=
  ⟨fun a => if a = 0x20010 then 32 else if a = 0x20011 then 97 else if a = 0x20012 then 98 else 0⟩

theorem split_words_ab :
    ∃ r, (HeapRun.start textMemory).run Kheap.imageArea [.kmalloc 4] = some r ∧
      (KString.split Kheap.imageArea ⟨0x20010, 3⟩ 32 r).1 ≠ .diverged ∧
      ∀ parts r', KString.split Kheap.imageArea ⟨0x20010, 3⟩ 32 r = (.ok parts, r') →
        ∃ words, Parts Kheap.imageArea [(0x20010, 8)] words parts r' ∧
          Words.AreWords 32 [32, 97, 98] words ∧ (∀ word ∈ words, word ≠ [] ∧ 32 ∉ word) ∧
          words.flatten = [32, 97, 98].filter (· ≠ 32) := by
  have hlegal : (HeapRun.start textMemory).Legal Kheap.imageArea [.kmalloc 4] :=
    ⟨fun ptr h => HeapCall.noConfusion h, fun _ _ => trivial⟩
  obtain ⟨r, hrun, -⟩ := Kheap.start_run_cases hlegal
  have hmade : ((HeapRun.start textMemory).run Kheap.imageArea [.kmalloc 4]).map (fun r =>
      (r.live.map fun a => (a.ptr, (Kheap.align8 a.asked).toNat), r.heap.memory.bytes 0x20010 4)) =
      some ([(0x20010, 8)], [32, 97, 98] ++ [0]) := by decide +kernel
  rw [hrun] at hmade
  obtain ⟨hlive, hbytes⟩ := Prod.mk.inj (Option.some.inj hmade)
  have hbuf := start_buffers hlegal hrun
  rw [hlive] at hbuf
  exact ⟨r, hrun, split_words hbuf ⟨rfl, hbytes⟩ (by decide) (by decide) 32⟩

end KString

end SevenOS.Raw
