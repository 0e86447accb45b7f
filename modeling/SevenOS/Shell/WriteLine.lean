import SevenOS.Heap.Ownership
import SevenOS.Shell.Commands

/-! # Strings that are never freed

`~String` is empty, so every buffer a `String` holds at the end of its scope stays
allocated, and so does every buffer that `append` leaves behind. A turn of the
shell loop on a write command loses them by the dozen.
-/

namespace SevenOS

open Prog

variable {area : HeapArea} {own : List Nat}

/-! ## One turn of the loop -/

def KString.appendAll (area : HeapArea) (s : KString) (chars : List UInt8) : HeapProg KString :=
  chars.foldlM (fun s c => s.append area c) s

namespace Command

/-- The words behind the first, each with a blank in front. -/
def appendWords (area : HeapArea) : KString → List KString → HeapProg KString
  | data, [] => pure data
  | data, word :: words => do
      let data ← data.append area space
      let data ← data.appendAll area word.cStr.chars
      appendWords area data words

/-- `String data` and the loops that fill it. -/
def buildData (area : HeapArea) (word : KString) (words : List KString) : HeapProg KString := do
  let data ← KString.new area
  let data ← data.appendAll area word.cStr.chars
  appendWords area data words

/-- The name handed to `resolve_fs_path` and the data for `fs_write_path`, which takes no room
on the heap; nothing with fewer than three words. -/
def writeArgs (area : HeapArea) : List KString → HeapProg (Option (CStr × CStr))
  | _ :: file :: word :: words => do
      let data ← buildData area word words
      data.destroy
      pure (some (file.cStr, data.cStr))
  | _ => pure none

/-- A turn of the loop of `handleCommands` on a line with the write command. -/
def writeLine (area : HeapArea) (line : CStr) : HeapProg (Option (CStr × CStr)) := do
  let command ← KString.ofChars area line
  let parts ← command.split area space
  let args ← writeArgs area parts.elems
  parts.destroy
  command.destroy
  pure args

def writeLines (area : HeapArea) (lines : List CStr) : HeapProg Unit :=
  lines.foldlM (fun _ line => do let _ ← writeLine area line; pure ()) ()

end Command

/-! ## Splitting a line -/

namespace KString

/-- From parts in hand `parts` the words `words` have been added, each in a buffer of its own. -/
def Adds (own : List Nat) (parts : ArrayList KString) (words : List CStr)
    (parts' : ArrayList KString) (own' : List Nat) : Prop :=
  ∃ lost, own' = parts'.held ++ (lost ++ own) ∧ lost.length = words.length ∧
    parts'.elems.map cStr = parts.elems.map cStr ++ words

theorem splitPart_allots (own : List Nat) (segment : List UInt8) (parts : ArrayList KString) :
    Allots area (splitPart area segment parts) (parts.held ++ own)
      (Adds own parts (SevenOS.splitPart segment)) := by
  unfold splitPart SevenOS.splitPart
  by_cases hempty : segment = []
  · rw [if_pos hempty, if_pos hempty]
    exact .pure ⟨[], rfl, rfl, (List.append_nil _).symm⟩
  · rw [if_neg hempty, if_neg hempty]
    apply Allots.bind (newBytes_allots _ _)
    intro temp own' hown'
    obtain ⟨-, rfl⟩ := hown'
    apply Allots.bind (ofChars_allots _ _)
    intro part own' hown'
    obtain ⟨rfl, hchars⟩ := hown'
    apply Allots.bind (deleteBytes_allots (List.Perm.swap temp part.data _))
    intro _ own' hown'
    subst hown'
    apply Allots.bind ((ArrayList.pushBack_allots parts (part.data :: own) bytes part).perm
      List.perm_middle.symm)
    intro parts' own' hown'
    obtain ⟨rfl, helems⟩ := hown'
    refine .pure ⟨[part.data], rfl, rfl, ?_⟩
    rw [helems, List.map_append, List.map_singleton, cStr, hchars, CStr.ofBytes_chars]

theorem splitFrom_allots (delimiter : UInt8) (chars segment : List UInt8)
    (parts : ArrayList KString) (own : List Nat) :
    Allots area (splitFrom area delimiter chars segment parts) (parts.held ++ own)
      (Adds own parts (SevenOS.splitFrom delimiter chars segment)) := by
  induction chars generalizing segment parts own with
  | nil => exact splitPart_allots own segment parts
  | cons c rest ih =>
      rw [splitFrom, SevenOS.splitFrom]
      by_cases hc : c = delimiter
      · rw [if_pos hc, if_pos hc]
        apply Allots.bind (splitPart_allots own segment parts)
        intro parts' own' hadds
        obtain ⟨lost, rfl, hlength, hwords⟩ := hadds
        refine (ih [] parts' (lost ++ own)).mono ?_
        intro parts'' own'' hadds
        obtain ⟨lost', rfl, hlength', hwords'⟩ := hadds
        refine ⟨lost' ++ lost, by rw [List.append_assoc], ?_, ?_⟩
        · rw [List.length_append, List.length_append, hlength, hlength', Nat.add_comm]
        · rw [hwords', hwords, List.append_assoc]
      · rw [if_neg hc, if_neg hc]
        exact ih (segment ++ [c]) parts own

theorem split_allots (s : KString) (delimiter : UInt8) (own : List Nat) :
    Allots area (s.split area delimiter) own
      (Adds own .new (SevenOS.splitFrom delimiter s.chars [])) :=
  splitFrom_allots delimiter s.chars [] .new own

/-! ## Building the data -/

theorem appendAll_allots (s : KString) (chars : List UInt8) (own : List Nat) :
    Allots area (s.appendAll area chars) (s.data :: own) fun s' own' =>
      ∃ lost, own' = s'.data :: (lost ++ own) ∧ lost.length = chars.length ∧
        s'.chars = s.chars ++ chars := by
  induction chars generalizing s own with
  | nil => exact .pure ⟨[], rfl, rfl, (List.append_nil _).symm⟩
  | cons c rest ih =>
      apply Allots.bind (append_allots _ s c)
      intro s' own' hown'
      obtain ⟨rfl, hchars⟩ := hown'
      refine (ih s' (s.data :: own)).mono ?_
      intro s'' own'' hown''
      obtain ⟨lost, rfl, hlength, hchars'⟩ := hown''
      refine ⟨lost ++ [s.data], by simp, by simp [hlength], ?_⟩
      rw [hchars', hchars, List.append_assoc, List.singleton_append]

end KString

/-- The write command's data is the words with one blank between them. -/
theorem joinWords_cons (word : CStr) (words : List CStr) :
    joinWords (word :: words) = word.chars ++ words.flatMap fun w => space :: w.chars := by
  induction words generalizing word with
  | nil => simp [joinWords]
  | cons next rest ih => simp [joinWords, ih]

namespace Command

theorem appendWords_allots (data : KString) (words : List KString) (own : List Nat) :
    Allots area (appendWords area data words) (data.data :: own) fun data' own' =>
      ∃ lost, own' = data'.data :: (lost ++ own) ∧
        lost.length + data.chars.length = data'.chars.length ∧
        data'.chars = data.chars ++ (words.map KString.cStr).flatMap fun w => space :: w.chars := by
  induction words generalizing data own with
  | nil => exact .pure ⟨[], rfl, Nat.zero_add _, (List.append_nil _).symm⟩
  | cons word words ih =>
      apply Allots.bind (KString.append_allots _ data space)
      intro data₁ own₁ hown₁
      obtain ⟨rfl, hchars₁⟩ := hown₁
      apply Allots.bind (KString.appendAll_allots data₁ word.cStr.chars (data.data :: own))
      intro data₂ own₂ hown₂
      obtain ⟨lost, rfl, hlost, hchars₂⟩ := hown₂
      refine (ih data₂ (lost ++ data.data :: own)).mono ?_
      intro data₃ own₃ hown₃
      obtain ⟨lost', rfl, hlost', hchars₃⟩ := hown₃
      refine ⟨lost' ++ (lost ++ [data.data]), by simp, ?_, ?_⟩
      · rw [← hlost', hchars₂, hchars₁]
        simp only [List.length_append, List.length_singleton]
        omega
      · rw [hchars₃, hchars₂, hchars₁]
        simp

/-- One buffer for the data and one for each character of it. -/
theorem buildData_allots (word : KString) (words : List KString) (own : List Nat) :
    Allots area (buildData area word words) own fun data own' =>
      ∃ lost, own' = lost ++ own ∧ lost.length = data.chars.length + 1 ∧
        data.chars = joinWords ((word :: words).map KString.cStr) := by
  apply Allots.bind (KString.new_allots own)
  intro data own' hown'
  obtain ⟨rfl, hchars⟩ := hown'
  apply Allots.bind (KString.appendAll_allots data word.cStr.chars own)
  intro data₁ own₁ hown₁
  obtain ⟨lost, rfl, hlost, hchars₁⟩ := hown₁
  rw [hchars, List.nil_append] at hchars₁
  refine (appendWords_allots data₁ words (lost ++ own)).mono ?_
  intro data₂ own₂ hown₂
  obtain ⟨lost', rfl, hlost', hchars₂⟩ := hown₂
  refine ⟨data₂.data :: (lost' ++ lost), by simp, ?_, ?_⟩
  · rw [List.length_cons, List.length_append, hlost, ← hchars₁, hlost']
  · rw [hchars₂, hchars₁, List.map_cons, joinWords_cons]

/-- The buffers that the data of a write command costs. -/
def dataBuffers : List CStr → Nat
  | _ :: word :: words => (joinWords (word :: words)).length + 1
  | _ => 0

/-- The call that the handed over name and data end up in. -/
def writeCall (kRoot : CStr) (passed : CStr × CStr) : Call :=
  .writePath (resolveFsPath kRoot passed.1 64) passed.2

theorem writeArgs_allots (cmd : KString) (args : List KString) (own : List Nat) :
    Allots area (writeArgs area (cmd :: args)) own fun passed own' =>
      ∃ lost, own' = lost ++ own ∧ lost.length = dataBuffers (args.map KString.cStr) ∧
        ∀ kRoot, (passed.map (writeCall kRoot)).toList =
          write.calls kRoot (args.map KString.cStr) := by
  match args with
  | [] => exact .pure ⟨[], rfl, rfl, fun _ => rfl⟩
  | [file] => exact .pure ⟨[], rfl, rfl, fun _ => rfl⟩
  | file :: word :: words =>
      apply Allots.bind (buildData_allots word words own)
      intro data own' hown'
      obtain ⟨lost, rfl, hlost, hchars⟩ := hown'
      refine .pure ⟨lost, rfl, ?_, fun kRoot => ?_⟩
      · rw [hlost, hchars]
        rfl
      · have hdata : data.cStr = CStr.ofBytes (joinWords ((word :: words).map KString.cStr)) := by
          rw [KString.cStr, hchars]
        change [writeCall kRoot (file.cStr, data.cStr)] = _
        rw [hdata]
        rfl

/-- What a write command loses: the line, its words, and the data with all it grew out of. -/
theorem writeLine_allots {line : CStr} {args : List CStr}
    (hline : parseLine line = some (.write, args)) (own : List Nat) :
    Allots area (writeLine area line) own fun passed own' =>
      ∃ lost, own' = lost ++ own ∧ lost.length = args.length + 2 + dataBuffers args ∧
        ∀ kRoot, (passed.map (writeCall kRoot)).toList = write.calls kRoot args := by
  obtain ⟨word, hwords⟩ : ∃ word, stringSplit line space = word :: args := by
    unfold parseLine at hline
    cases hsplit : stringSplit line space with
    | nil =>
        rw [hsplit] at hline
        cases hline
    | cons word rest =>
        rw [hsplit] at hline
        obtain ⟨cmd, -, hcmd⟩ := Option.map_eq_some_iff.mp hline
        exact ⟨word, by rw [(Prod.mk.inj hcmd).2]⟩
  apply Allots.bind (KString.ofChars_allots own line)
  intro command own₁ hown₁
  obtain ⟨rfl, hchars⟩ := hown₁
  apply Allots.bind (KString.split_allots command space (command.data :: own))
  intro parts own₂ hadds
  obtain ⟨lost, rfl, hlost, helems⟩ := hadds
  rw [hchars] at hlost helems
  change lost.length = (stringSplit line space).length at hlost
  change _ = _ ++ stringSplit line space at helems
  rw [hwords] at hlost helems
  obtain ⟨cmd, elems, hcons, -, hargs⟩ := List.map_eq_cons_iff.mp helems
  rw [hcons]
  apply Allots.bind (writeArgs_allots cmd elems _)
  intro passed own₃ hown₃
  obtain ⟨lost', rfl, hlost', hcalls⟩ := hown₃
  rw [hargs] at hlost' hcalls
  apply Allots.bind (ArrayList.freeData_allots (List.perm_append_comm_assoc _ _ _))
  intro _ own₄ hown₄
  subst hown₄
  refine .pure ⟨lost' ++ (lost ++ [command.data]), by simp, ?_, hcalls⟩
  simp only [List.length_append, List.length_cons, List.length_nil, hlost', hlost]
  omega

def Writes (line : CStr) : Prop := ∃ args, parseLine line = some (.write, args)

theorem not_keepsHeap_writeLine {r : HeapRun} (howns : Owns area own r) {line : CStr}
    (hline : Writes line) : ¬KeepsHeap area (writeLine area line) r := by
  intro hkeeps
  obtain ⟨args, hargs⟩ := hline
  obtain ⟨-, hlength, -⟩ := hkeeps.lost howns (writeLine_allots hargs own)
  rw [List.length_nil] at hlength
  omega

/-- Every line loses at least its own text and its first word. -/
theorem writeLines_allots {lines : List CStr} (hlines : ∀ line ∈ lines, Writes line)
    (own : List Nat) : Allots area (writeLines area lines) own fun _ own' =>
      2 * lines.length + own.length ≤ own'.length := by
  refine Allots.foldlM (fun (done : List CStr) _ own' =>
    2 * done.length + own.length ≤ own'.length) (by simp) ?_
  intro done line rest _ own' hitems hle
  obtain ⟨args, hargs⟩ := hlines line (by simp [hitems])
  apply Allots.bind (writeLine_allots hargs own')
  intro passed own'' hown''
  obtain ⟨lost, rfl, hlost, -⟩ := hown''
  apply Allots.pure
  rw [List.length_append, List.length_append, List.length_singleton]
  omega

/-- More buffers than the heap has room for headers. -/
theorem writeLines_fails {r : HeapRun} (howns : Owns area own r) {lines : List CStr}
    (hlines : ∀ line ∈ lines, Writes line) (hmany : 2048 < lines.length) :
    (writeLines area lines r).1 = .refused := by
  refine wp_outcome (wp_mono (writeLines_allots hlines own r howns) ?_ (fun _ _ => rfl)
    fun _ h => h.elim)
  rintro _ r' ⟨own', howns', hle⟩
  obtain ⟨-, -, -, -, hmax⟩ := howns'.blocks
  omega

/-- From every heap that `kmalloc` and `kfree` of allocated pointers lead to: no write command
keeps the heap, no scope with a construction does, and after enough write commands an allocation
fails. -/
theorem shell_leaks {m : Memory} {calls : List HeapCall} {r : HeapRun}
    (hlegal : (HeapRun.start m).Legal area calls)
    (hrun : (HeapRun.start m).run area calls = some r) :
    (∀ line, Writes line → ¬KeepsHeap area (writeLine area line) r) ∧
      (∀ ops, KeepsHeap area (StringOp.scope area ops) r ↔ ∀ op ∈ ops, op.makes = false) ∧
      ∀ lines : List CStr, (∀ line ∈ lines, Writes line) → 2048 < lines.length →
        (writeLines area lines r).1 = .refused := by
  have howns := Kheap.start_owns hlegal hrun
  refine ⟨?_, ?_, ?_⟩
  · intro line hline
    exact not_keepsHeap_writeLine howns hline
  · exact StringOp.keepsHeap_iff howns
  · intro lines hlines hmany
    exact writeLines_fails howns hlines hmany

/-- At power on. -/
theorem shell_leaks_start :
    (∀ line, Writes line →
        ¬KeepsHeap Kheap.imageArea (writeLine Kheap.imageArea line) (.start ⟨fun _ => 0⟩)) ∧
      (∀ ops, KeepsHeap Kheap.imageArea (StringOp.scope Kheap.imageArea ops)
          (.start ⟨fun _ => 0⟩) ↔ ∀ op ∈ ops, op.makes = false) ∧
      ∀ lines : List CStr, (∀ line ∈ lines, Writes line) → 2048 < lines.length →
        (writeLines Kheap.imageArea lines (.start ⟨fun _ => 0⟩)).1 = .refused :=
  @shell_leaks Kheap.imageArea ⟨fun _ => 0⟩ [] _ trivial rfl

/-- "write a b" -/
def writeAB : CStr := ⟨[119, 114, 105, 116, 101, 32, 97, 32, 98], by simp⟩

/-- On an empty heap every allocation for "write a b" is served, and six blocks stay. -/
theorem not_keepsHeap :
    ((writeLine Kheap.imageArea writeAB (.start ⟨fun _ => 0⟩)).1.isOk = true ∧
        (writeLine Kheap.imageArea writeAB (.start ⟨fun _ => 0⟩)).2.live.length = 6) ∧
      ¬ ∀ (area : HeapArea) (m : Memory) (calls : List HeapCall) (r : HeapRun) (line : CStr),
        (HeapRun.start m).Legal area calls → (HeapRun.start m).run area calls = some r →
          Writes line → KeepsHeap area (writeLine area line) r := by
  have hwrites : Writes writeAB := by
    refine ⟨[⟨[97], by simp⟩, ⟨[98], by simp⟩], ?_⟩
    decide +kernel
  have howns : Owns Kheap.imageArea [] (.start ⟨fun _ => 0⟩) :=
    ⟨List.Perm.refl _, .inl ⟨_, rfl⟩⟩
  refine ⟨⟨by decide +kernel, by decide +kernel⟩, fun hall => ?_⟩
  exact not_keepsHeap_writeLine howns hwrites
    (hall Kheap.imageArea ⟨fun _ => 0⟩ [] _ writeAB trivial rfl hwrites)

end Command

end SevenOS
