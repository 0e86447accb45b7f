import SevenOS.Console.Display
import SevenOS.Drivers.Readl

/-! # What the typist sees

Every key goes to the screen as it goes to the line: at each moment the screen
shows what was printed before and, behind it, the line that Enter would send off.
The same holds of the line that is put together by interrupts, which is edited by
lines of its own.
-/

namespace SevenOS

namespace Keyboard

variable {k : Keyboard} {line : Line} {printed text : List UInt8} {scancodes : List UInt8}

/-! ## One key -/

/-- `readl` up to its loop. -/
def beginLine (k : Keyboard) : Keyboard × Line :=
  ({ k with picMask := k.picMask ||| 0x02 },
    ⟨Bytes.put (fun i => k.stack.byte i) 0 0, 0⟩)

/-- The scancode ends the loop of `readl`. -/
def endsLine (k : Keyboard) (scancode : UInt8) : Bool :=
  !isShift scancode && !isRelease scancode && k.charOf (keyOf scancode) == Vga.newLine

/-- A round of the loop of `readl` that does not end it. -/
def readlStep (s : Keyboard × Line) (scancode : UInt8) : Keyboard × Line :=
  if isShift scancode then ({ s.1 with shiftPressed := !isRelease scancode }, s.2)
  else if isRelease scancode then s
  else s.1.typed s.2 (s.1.charOf (keyOf scancode))

/-- The end of `readl`. -/
def endLine (savedMask : UInt8) (s : Keyboard × Line) : CStr × Keyboard :=
  (CStr.ofBytes (s.2.buffer.suffix 0), { s.1.putChar Vga.newLine with picMask := savedMask })

theorem endsLine_iff (scancode : UInt8) : k.endsLine scancode = true ↔ scancode = enter := by
  constructor
  · intro h
    simp only [endsLine, Bool.and_eq_true, Bool.not_eq_true', beq_iff_eq] at h
    exact eq_enter h.1.2 ((charOf_newLine scancode).mp h.2)
  · rintro rfl
    have hchar : k.charOf (keyOf enter) = Vga.newLine := (charOf_newLine enter).mpr rfl
    simp only [endsLine, hchar]
    decide

theorem readlLoop_cons (savedMask : UInt8) (s : Keyboard × Line) (scancode : UInt8)
    (rest : List UInt8) : readlLoop savedMask s.1 s.2 (scancode :: rest) =
      if s.1.endsLine scancode then
        some ((endLine savedMask s).1, (endLine savedMask s).2, rest)
      else readlLoop savedMask (readlStep s scancode).1 (readlStep s scancode).2 rest := by
  rw [readlLoop, endsLine, readlStep]
  cases isShift scancode with
  | true => simp
  | false =>
      cases isRelease scancode with
      | true => simp
      | false =>
          by_cases hend : s.1.charOf (keyOf scancode) = Vga.newLine
          · simp [hend, endLine]
          · simp [hend]

/-- `readl` goes key by key. -/
theorem readl_eq (henter : enter ∉ scancodes) (rest : List UInt8) :
    k.readl (scancodes ++ enter :: rest) =
      some ((endLine k.picMask (scancodes.foldl readlStep k.beginLine)).1,
        (endLine k.picMask (scancodes.foldl readlStep k.beginLine)).2, rest) := by
  have loop : ∀ s : Keyboard × Line, readlLoop k.picMask s.1 s.2 (scancodes ++ enter :: rest) =
      some ((endLine k.picMask (scancodes.foldl readlStep s)).1,
        (endLine k.picMask (scancodes.foldl readlStep s)).2, rest) := by
    induction scancodes with
    | nil =>
        intro s
        rw [List.nil_append, readlLoop_cons, if_pos ((endsLine_iff enter).mpr rfl)]
        rfl
    | cons scancode scancodes ih =>
        intro s
        have hne : ¬ s.1.endsLine scancode = true := fun hend =>
          henter ((endsLine_iff scancode).mp hend ▸ List.mem_cons_self)
        rw [List.cons_append, readlLoop_cons, if_neg hne]
        exact ih (fun hmem => henter (List.mem_cons_of_mem _ hmem)) _
  exact loop k.beginLine

/-! ## The screen -/

/-- The line holds a text of visible characters, and the screen shows it behind what was
printed before. -/
structure Echoes (k : Keyboard) (line : Line) (printed text : List UInt8) : Prop where
  holds : line.Holds text
  noBreak : Vga.newLine ∉ text
  noBackspace : Vga.backspace ∉ text
  shows : Vga.backspace ∉ printed → ∃ top,
    80 * top ≤ (Text.Page.write 80 Vga.newLine printed).position 80 ∧
    k.vga.ShowsFrom (Text.Page.write 80 Vga.newLine (printed ++ text)) top

theorem Echoes.begin (hshows : Vga.backspace ∉ printed → k.vga.Displays printed) :
    Echoes k.beginLine.1 k.beginLine.2 printed [] := by
  refine ⟨holds_nil _, by simp, by simp, fun hplain => ?_⟩
  obtain ⟨top, h⟩ := hshows hplain
  have hcursor := h.cursor
  have hscreen := h.onScreen
  refine ⟨top, by omega, ?_⟩
  rw [List.append_nil]
  exact h

/-- One character: the screen follows the line, whether it is added or taken away. -/
theorem Echoes.typed (h : Echoes k line printed text) {c : UInt8} (hc : c ≠ Vga.newLine) :
    Echoes (k.typed line c).1 (k.typed line c).2 printed (keep text c) := by
  have hholds := (typed_holds (k := k) h.holds c).1
  have hlength := h.holds.length
  by_cases hback : c = Vga.backspace
  · have hne : c ≠ 0 := by
      rw [hback]
      decide
    have hkeep : keep text c = text.dropLast := by rw [keep, if_neg hne, if_pos hback]
    rw [hkeep] at hholds ⊢
    refine ⟨hholds, fun hmem => h.noBreak (List.mem_of_mem_dropLast hmem),
      fun hmem => h.noBackspace (List.mem_of_mem_dropLast hmem), fun hplain => ?_⟩
    obtain ⟨top, htop, hshows⟩ := h.shows hplain
    refine ⟨top, htop, ?_⟩
    rw [Keyboard.typed, if_pos hback]
    cases List.eq_nil_or_concat text with
    | inl hnil =>
        subst hnil
        rw [if_neg (by rw [hlength]; exact Nat.lt_irrefl 0)]
        exact hshows
    | inr hlast =>
        obtain ⟨front, last, rfl⟩ := hlast
        rw [List.concat_eq_append] at *
        rw [if_pos (by rw [hlength, List.length_append, List.length_singleton]; omega)]
        rw [← List.append_assoc, Text.Page.write_concat] at hshows
        rw [List.dropLast_concat]
        refine hshows.unput (Text.Page.write_line_lt (by decide) _ _)
          (fun heq => h.noBreak (by simp [heq])) ?_
        rw [Text.Page.position_write_append (by decide) printed fun hmem =>
          h.noBreak (List.mem_append_left _ hmem)]
        omega
  · by_cases hadd : c ≠ 0 ∧ line.length < 255
    · have hroom : text.length < 255 := by omega
      have hkeep : keep text c = text ++ [c] := by
        rw [keep, if_neg hadd.1, if_neg hback, if_pos hroom]
      rw [hkeep] at hholds ⊢
      have hbreak' : Vga.newLine ∉ text ++ [c] := by
        intro hmem
        cases List.mem_append.mp hmem with
        | inl hmem => exact h.noBreak hmem
        | inr hmem => exact hc (List.mem_singleton.mp hmem).symm
      refine ⟨hholds, hbreak', ?_, fun hplain => ?_⟩
      · intro hmem
        cases List.mem_append.mp hmem with
        | inl hmem => exact h.noBackspace hmem
        | inr hmem => exact hback (List.mem_singleton.mp hmem).symm
      · obtain ⟨top, htop, hshows⟩ := h.shows hplain
        have hend := Text.Page.position_write_append (show 0 < 80 by decide) printed hbreak'
        rw [← List.append_assoc] at hend ⊢
        rw [Keyboard.typed, if_neg hback, if_pos hadd, Text.Page.write_concat]
        obtain ⟨top', hshows', hmoved⟩ := hshows.putChar (Text.Page.write_line_lt (by decide) _ _) hback
        refine ⟨top', ?_, hshows'⟩
        -- a row of the text above the screen would be more than 255 characters up
        rw [Text.Page.write_concat, List.length_append, List.length_singleton] at hend
        rcases hmoved with rfl | ⟨rfl, hfull⟩
        · exact htop
        · omega
    · have hkeep : keep text c = text := by
        rw [keep, if_neg hback]
        by_cases h0 : c = 0
        · rw [if_pos h0]
        · rw [if_neg h0, if_neg fun hroom => hadd ⟨h0, by omega⟩]
      rw [Keyboard.typed, if_neg hback, if_neg hadd, hkeep]
      exact h

theorem Echoes.step (h : Echoes k line printed text) {scancode : UInt8} (hne : scancode ≠ enter) :
    Echoes (readlStep (k, line) scancode).1 (readlStep (k, line) scancode).2 printed
        (Flagged.step ⟨k.shiftPressed, text⟩ scancode).text ∧
      (readlStep (k, line) scancode).1.shiftPressed =
        (Flagged.step ⟨k.shiftPressed, text⟩ scancode).shift := by
  rw [readlStep, Flagged.step]
  cases hshift : isShift scancode with
  | true => exact ⟨⟨h.holds, h.noBreak, h.noBackspace, h.shows⟩, rfl⟩
  | false =>
      cases hrelease : isRelease scancode with
      | true => exact ⟨h, rfl⟩
      | false =>
          have hc : k.charOf (keyOf scancode) ≠ Vga.newLine := fun heq =>
            hne (eq_enter hrelease ((charOf_newLine scancode).mp heq))
          exact ⟨h.typed hc, (typed_holds h.holds _).2⟩

theorem Echoes.steps (h : Echoes k line printed text) (henter : enter ∉ scancodes) :
    Echoes (scancodes.foldl readlStep (k, line)).1 (scancodes.foldl readlStep (k, line)).2 printed
        (scancodes.foldl Flagged.step ⟨k.shiftPressed, text⟩).text := by
  induction scancodes generalizing k line text with
  | nil => exact h
  | cons scancode scancodes ih =>
      obtain ⟨hnext, hflag⟩ := h.step fun heq => henter (heq ▸ List.mem_cons_self)
      have hrest := ih hnext fun hmem => henter (List.mem_cons_of_mem _ hmem)
      rw [hflag] at hrest
      exact hrest

theorem Echoes.endLine (h : Echoes k line printed text) (savedMask : UInt8) :
    (endLine savedMask (k, line)).1.chars = text ∧
      (Vga.backspace ∉ printed → (Keyboard.endLine savedMask (k, line)).2.vga.Displays
        (printed ++ text ++ [Vga.newLine])) := by
  refine ⟨h.holds.takeWhile, fun hplain => ?_⟩
  obtain ⟨top, -, hshows⟩ := h.shows hplain
  exact Vga.Displays.putChar ⟨top, hshows⟩ (by decide)

/-! ## The line by interrupt -/

/-- The string that `handle_command` compares. -/
def commandLine (k : Keyboard) : CStr :=
  CStr.ofBytes ((k.inputBuffer.put k.inputPtr 0).suffix 0)

/-- Both editors have the same line and the same screen. -/
structure Agrees (k : Keyboard) (s : Keyboard × Line) (text : List UInt8) : Prop where
  vga : k.vga = s.1.vga
  shift : k.shiftPressed = s.1.shiftPressed
  ptr : k.inputPtr = s.2.length
  bytes : ∀ i, i < text.length → k.inputBuffer.at_ i = text.getD i 0
  holds : s.2.Holds text

theorem Agrees.charOf {s : Keyboard × Line} (h : Agrees k s text) (key : UInt8) :
    k.charOf key = s.1.charOf key := by
  rw [Keyboard.charOf, Keyboard.charOf, h.shift]

/-- The terminator that Enter stores makes it the line of `readl`. -/
theorem Agrees.commandLine {s : Keyboard × Line} (h : Agrees k s text) :
    k.commandLine.chars = text := by
  have hfits := h.holds.fits
  have hlength := h.holds.length
  have hptr := h.ptr
  have hline : Line.Holds ⟨k.inputBuffer.put k.inputPtr 0, k.inputPtr⟩ text := by
    refine ⟨by rw [hptr, hlength], hfits, h.holds.noNul, fun i hi => ?_⟩
    simp only
    rw [Bytes.at_put _ _ _ (by omega)]
    by_cases hend : i = k.inputPtr
    · rw [if_pos hend, List.getD_eq_default _ _ (by omega)]
    · rw [if_neg hend, h.bytes i (by omega)]
  exact hline.takeWhile

theorem Agrees.step {s : Keyboard × Line} (h : Agrees k s text) {scancode : UInt8}
    (hne : scancode ≠ enter) :
    ∃ text', Agrees (k.processScancode scancode) (readlStep s scancode) text' := by
  have hlength := h.holds.length
  have hptr := h.ptr
  rw [processScancode, readlStep]
  cases hshift : isShift scancode with
  | true => exact ⟨text, h.vga, rfl, h.ptr, h.bytes, h.holds⟩
  | false =>
      cases hrelease : isRelease scancode with
      | true => exact ⟨text, h⟩
      | false =>
          have hc : k.charOf (keyOf scancode) ≠ Vga.newLine := fun heq =>
            hne (eq_enter hrelease ((charOf_newLine scancode).mp heq))
          have hchar := h.charOf (keyOf scancode)
          obtain ⟨hholds, hflag⟩ := typed_holds (k := s.1) h.holds (s.1.charOf (keyOf scancode))
          simp only [Bool.false_eq_true, if_false]
          rw [if_neg hc]
          refine ⟨keep text (s.1.charOf (keyOf scancode)), ?_⟩
          generalize s.1.charOf (keyOf scancode) = c at *
          generalize k.charOf (keyOf scancode) = d at *
          subst hchar
          by_cases hback : d = Vga.backspace
          · subst hback
            by_cases hpos : 0 < k.inputPtr
            · have htyped : s.1.typed s.2 Vga.backspace = (s.1.putChar Vga.backspace,
                  ⟨s.2.buffer.put (s.2.length - 1) 0, s.2.length - 1⟩) := by
                rw [Keyboard.typed, if_pos rfl, if_pos (by omega)]
              rw [htyped] at hholds ⊢
              rw [if_pos rfl, if_pos hpos]
              refine ⟨congrArg (fun v => v.putChar Vga.backspace) h.vga, h.shift, ?_, ?_, hholds⟩
              · simp only [putChar]
                omega
              · intro i hi
                have htext : keep text Vga.backspace = text.dropLast := rfl
                rw [htext, List.length_dropLast] at hi
                rw [htext, List.getD_eq_getElem _ _ (by rw [List.length_dropLast]; omega),
                  List.getElem_dropLast, ← List.getD_eq_getElem _ 0]
                exact h.bytes i (by omega)
            · have htyped : s.1.typed s.2 Vga.backspace = s := by
                rw [Keyboard.typed, if_pos rfl, if_neg (by omega)]
              rw [htyped, if_pos rfl, if_neg hpos]
              have hnil : text = [] := List.length_eq_zero_iff.mp (by omega)
              subst hnil
              exact h
          · by_cases hadd : d ≠ 0 ∧ k.inputPtr < 255
            · have htext : keep text d = text ++ [d] := by
                rw [keep, if_neg hadd.1, if_neg hback, if_pos (by omega)]
              have htyped : s.1.typed s.2 d = (s.1.putChar d,
                  ⟨(s.2.buffer.put s.2.length d).put (s.2.length + 1) 0, s.2.length + 1⟩) := by
                rw [Keyboard.typed, if_neg hback, if_pos ⟨hadd.1, by omega⟩]
              rw [htyped] at hholds ⊢
              rw [if_neg hback, if_pos hadd]
              refine ⟨congrArg (fun v => v.putChar d) h.vga, h.shift, ?_, ?_, hholds⟩
              · simp only [putChar]
                omega
              · intro i hi
                rw [htext, List.length_append, List.length_singleton] at hi
                simp only [putChar]
                rw [htext, Bytes.at_put _ _ _ (by omega)]
                by_cases hlast : i = k.inputPtr
                · rw [if_pos hlast, List.getD_append_right _ _ _ _ (by omega), hlast, hptr, hlength,
                    Nat.sub_self]
                  rfl
                · rw [if_neg hlast, List.getD_append _ _ _ _ (by omega)]
                  exact h.bytes i (by omega)
            · have htyped : s.1.typed s.2 d = s := by
                rw [Keyboard.typed, if_neg hback, if_neg fun hand => hadd ⟨hand.1, by omega⟩]
              rw [htyped, if_neg hback, if_neg hadd]
              have htext : keep text d = text := by
                rw [keep, if_neg hback]
                by_cases h0 : d = 0
                · rw [if_pos h0]
                · rw [if_neg h0, if_neg fun hroom => hadd ⟨h0, by omega⟩]
              rw [htext]
              exact h

theorem Agrees.steps {s : Keyboard × Line} (h : Agrees k s text) (henter : enter ∉ scancodes) :
    ∃ text', Agrees (scancodes.foldl processScancode k) (scancodes.foldl readlStep s) text' := by
  induction scancodes generalizing k s text with
  | nil => exact ⟨text, h⟩
  | cons scancode scancodes ih =>
      obtain ⟨text', hnext⟩ := h.step fun heq => henter (heq ▸ List.mem_cons_self)
      exact ih hnext fun hmem => henter (List.mem_cons_of_mem _ hmem)

/-- The two ways of reading a line agree at every moment: the screen, the flag, the length and
the text that Enter hands on. -/
theorem interrupt_agrees (hptr : k.inputPtr = 0) (henter : enter ∉ scancodes) :
    (scancodes.foldl processScancode k).vga = (scancodes.foldl readlStep k.beginLine).1.vga ∧
    (scancodes.foldl processScancode k).inputPtr =
      (scancodes.foldl readlStep k.beginLine).2.length ∧
    (k.readl (scancodes ++ [enter])).map Prod.fst =
      some (scancodes.foldl processScancode k).commandLine ∧
    ((scancodes ++ [enter]).foldl processScancode k).inputPtr = 0 := by
  have hbegin : Agrees k k.beginLine [] := ⟨rfl, rfl, hptr, by simp, holds_nil _⟩
  obtain ⟨text, h⟩ := hbegin.steps henter
  refine ⟨h.vga, h.ptr, ?_, ?_⟩
  · rw [readl_eq henter [], Option.map_some]
    exact congrArg some (CStr.ext (h.holds.takeWhile.trans h.commandLine.symm))
  · have hend : (scancodes.foldl processScancode k).charOf (keyOf enter) = Vga.newLine :=
      (charOf_newLine enter).mpr rfl
    rw [List.foldl_append, List.foldl_cons, List.foldl_nil, processScancode, if_neg (by decide),
      if_neg (by decide)]
    simp only [hend, if_true]
    rfl

theorem interrupt_agrees_help :
    ([0x2A, 0x08, 0xAA, 0x23, 0x12].foldl processScancode booted).vga =
      ([0x2A, 0x08, 0xAA, 0x23, 0x12].foldl readlStep booted.beginLine).1.vga ∧
    ([0x2A, 0x08, 0xAA, 0x23, 0x12].foldl processScancode booted).inputPtr =
      ([0x2A, 0x08, 0xAA, 0x23, 0x12].foldl readlStep booted.beginLine).2.length ∧
    (booted.readl ([0x2A, 0x08, 0xAA, 0x23, 0x12] ++ [enter])).map Prod.fst =
      some ([0x2A, 0x08, 0xAA, 0x23, 0x12].foldl processScancode booted).commandLine ∧
    (([0x2A, 0x08, 0xAA, 0x23, 0x12] ++ [enter]).foldl processScancode booted).inputPtr = 0 :=
  interrupt_agrees rfl (by decide)

end Keyboard

end SevenOS
