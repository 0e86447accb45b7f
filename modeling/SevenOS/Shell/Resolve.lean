import Mathlib.Data.List.TakeDrop
import SevenOS.Lib.Joined
import SevenOS.Shell.Commands

/-! # Relative paths

`resolve_fs_path` takes the leading `..` of a path off the working directory and
puts what is left of the directory in front of what is left of the path. Whether
it does is decided by the second alone: a `/` in the remainder makes it forget the
working directory, `..` and all.
-/

namespace SevenOS

open Joined

/-- A component of a path: something without a `/`. -/
structure PathPart (c : List UInt8) : Prop where
  ne_nil : c ≠ []
  noSlash : slash ∉ c

/-- ".." -/
def dotDot : List UInt8 := [dot, dot]

/-! ## The loop over the leading `..` -/

theorem popDir_last {c : List UInt8} (hc : slash ∉ c) : popDir c = [] := by
  have hall : c.reverse.dropWhile (· ≠ slash) = [] := by
    rw [List.dropWhile_eq_nil_iff]
    intro x hx
    simp only [decide_eq_true_eq]
    rintro rfl
    exact hc (List.mem_reverse.mp hx)
  rw [popDir, hall]
  rfl

theorem popDir_append (front : List UInt8) {c : List UInt8} (hc : slash ∉ c) :
    popDir (front ++ slash :: c) = front := by
  have hskip : ∀ x ∈ c.reverse, decide (x ≠ slash) = true := by
    intro x hx
    simp only [decide_eq_true_eq]
    rintro rfl
    exact hc (List.mem_reverse.mp hx)
  rw [popDir, List.reverse_append, List.reverse_cons, List.append_assoc,
    List.dropWhile_append_of_pos hskip]
  simp

/-- `popDir` drops the last component. -/
theorem popDir_joined {cwd : List (List UInt8)} (hcwd : ∀ c ∈ cwd, PathPart c) :
    popDir (joined slash cwd) = joined slash cwd.dropLast := by
  rcases List.eq_nil_or_concat' cwd with rfl | ⟨front, c, rfl⟩
  · rfl
  · have hc : slash ∉ c := (hcwd c (by simp)).noSlash
    rw [List.dropLast_concat]
    by_cases hfront : front = []
    · rw [hfront, List.nil_append, joined_singleton, popDir_last hc, joined_nil]
    · rw [joined_append hfront (List.cons_ne_nil c []), joined_singleton, popDir_append _ hc]

/-- Nothing is left, or what stands before some `/`. -/
theorem popDir_cases (cwd : List UInt8) :
    popDir cwd = [] ∨ ∃ c, cwd = popDir cwd ++ slash :: c := by
  have hsplit := List.takeWhile_append_dropWhile (p := (· ≠ slash)) (l := cwd.reverse)
  cases hrest : cwd.reverse.dropWhile (· ≠ slash) with
  | nil =>
      left
      rw [popDir, hrest]
      rfl
  | cons x rest =>
      right
      have hx : x = slash := by
        have hhead := List.head?_dropWhile_not (· ≠ slash) cwd.reverse
        rw [hrest] at hhead
        simpa using hhead
      rw [hrest, hx] at hsplit
      refine ⟨(cwd.reverse.takeWhile (· ≠ slash)).reverse, ?_⟩
      rw [popDir, hrest, List.drop_succ_cons, List.drop_zero]
      have := congrArg List.reverse hsplit
      rw [List.reverse_append, List.reverse_cons, List.reverse_reverse] at this
      rw [List.append_assoc, List.singleton_append] at this
      exact this.symm

theorem popDir_front (cwd : List UInt8) : popDir cwd <+: cwd := by
  rcases popDir_cases cwd with hnil | ⟨c, hc⟩
  · rw [hnil]
    exact List.nil_prefix
  · exact ⟨_, hc.symm⟩

theorem climb_dotDot (cwd rest : List UInt8) :
    climb cwd (dotDot ++ slash :: rest) = climb (popDir cwd) rest := by
  rw [dotDot, List.cons_append, List.cons_append, List.nil_append, climb, if_pos ⟨rfl, rfl, rfl⟩]

/-- The condition of the loop: the path begins with a `..` of its own. -/
def StartsUp (path : List UInt8) : Prop := path = dotDot ∨ ∃ rest, path = dotDot ++ slash :: rest

theorem climb_eq_self (cwd : List UInt8) {input : List UInt8} (h : ¬StartsUp input) :
    climb cwd input = (cwd, input) := by
  match input with
  | [] => rfl
  | [a] => rfl
  | [a, b] =>
      rw [climb, if_neg]
      rintro ⟨rfl, rfl⟩
      exact h (.inl rfl)
  | a :: b :: c :: rest =>
      rw [climb, if_neg]
      rintro ⟨rfl, rfl, rfl⟩
      exact h (.inr ⟨rest, rfl⟩)

/-- The loop does not stop before it has to. -/
theorem climb_stops (cwd input : List UInt8) : ¬StartsUp (climb cwd input).2 := by
  fun_induction climb cwd input with
  | case1 cwd a b h => rintro (h | ⟨rest, h⟩) <;> cases h
  | case2 cwd a b h =>
      rintro (hend | ⟨rest, hmore⟩)
      · cases hend
        exact h ⟨rfl, rfl⟩
      · cases hmore
  | case3 cwd a b c rest h ih => exact ih
  | case4 cwd a b c rest h =>
      rintro (hend | ⟨rest, hmore⟩)
      · cases hend
      · cases hmore
        exact h ⟨rfl, rfl, rfl⟩
  | case5 cwd input htwo hmore =>
      rintro (rfl | ⟨rest, rfl⟩)
      · exact htwo _ _ rfl
      · exact hmore _ _ _ _ rfl

/-- What holds of a directory and of its parents holds of what is left of it. -/
theorem climb_fst {P : List UInt8 → Prop} (hpop : ∀ cwd, P cwd → P (popDir cwd))
    (cwd input : List UInt8) (h : P cwd) : P (climb cwd input).1 := by
  fun_induction climb cwd input with
  | case1 cwd a b _ => exact hpop cwd h
  | case2 cwd a b _ => exact h
  | case3 cwd a b c rest _ ih => exact ih (hpop cwd h)
  | case4 cwd a b c rest _ => exact h
  | case5 cwd input _ _ => exact h

theorem climb_suffix (cwd input : List UInt8) : (climb cwd input).2 <:+ input := by
  fun_induction climb cwd input with
  | case1 cwd a b _ => exact List.nil_suffix
  | case2 cwd a b _ => exact List.suffix_rfl
  | case3 cwd a b c rest _ ih => exact ih.trans ⟨[a, b, c], rfl⟩
  | case4 cwd a b c rest _ => exact List.suffix_rfl
  | case5 cwd input _ _ => exact List.suffix_rfl

/-- The loop stops at anything but `..`. -/
theorem climb_stop (cwd : List UInt8) {r : List (List UInt8)} (hr : ∀ c ∈ r, PathPart c)
    (hhead : r.head? ≠ some dotDot) : climb cwd (joined slash r) = (cwd, joined slash r) := by
  cases r with
  | nil => rfl
  | cons c rest =>
      have hc := (hr c List.mem_cons_self).noSlash
      have hfirst : (joined slash (c :: rest)).takeWhile (· ≠ slash) = c := takeWhile_joined hc
      have hne : c ≠ dotDot := fun h => hhead (congrArg some h)
      apply climb_eq_self
      rintro (hend | ⟨more, hmore⟩)
      · rw [hend] at hfirst
        exact hne hfirst.symm
      · rw [hmore] at hfirst
        exact hne hfirst.symm

/-- Every `..` takes one component. -/
theorem climb_joined {cwd r : List (List UInt8)} (k : Nat) (hcwd : ∀ c ∈ cwd, PathPart c)
    (hr : ∀ c ∈ r, PathPart c) (hhead : r.head? ≠ some dotDot) :
    climb (joined slash cwd) (joined slash (List.replicate k dotDot ++ r)) =
      (joined slash (cwd.take (cwd.length - k)), joined slash r) := by
  induction k generalizing cwd with
  | zero => rw [List.replicate_zero, List.nil_append, climb_stop _ hr hhead, Nat.sub_zero,
      List.take_length]
  | succ k ih =>
      have hpop := popDir_joined hcwd
      have htake : cwd.dropLast.take (cwd.dropLast.length - k) = cwd.take (cwd.length - (k + 1)) := by
        rw [List.dropLast_eq_take, List.take_take, List.length_take]
        congr 1
        omega
      rw [List.replicate_succ, List.cons_append, ← htake]
      by_cases hlast : List.replicate k dotDot ++ r = []
      · obtain ⟨hk, rfl⟩ := List.append_eq_nil_iff.mp hlast
        obtain rfl : k = 0 := by simpa using hk
        rw [List.replicate_zero, List.nil_append, joined_singleton, Nat.sub_zero, List.take_length,
          ← hpop]
        rfl
      · rw [joined_cons dotDot hlast, climb_dotDot, hpop]
        exact ih fun c hc => hcwd c (List.dropLast_subset cwd hc)

/-! ## The path it writes -/

/-- `k_root` is "7:/" and the components `cwd`; `input` is `k` times `..` and the components `r`,
one at most when there is no `..`. -/
structure Relative (kRoot input : CStr) (cwd : List (List UInt8)) (k : Nat)
    (r : List (List UInt8)) : Prop where
  fits : kRoot.length ≤ 63
  root : kRoot.chars = rootPrompt.chars ++ joined slash cwd
  cwdParts : ∀ c ∈ cwd, PathPart c
  input : input.chars = joined slash (List.replicate k dotDot ++ r)
  parts : ∀ c ∈ r, PathPart c
  remainder : r.head? ≠ some dotDot
  single : k = 0 → r.length ≤ 1

/-- The working directory without its last `k` components, and then `r`. -/
def relativePath (cwd : List (List UInt8)) (k : Nat) (r : List (List UInt8)) : List UInt8 :=
  joined slash (cwd.take (cwd.length - k) ++ r)

theorem workingDir_chars {kRoot : CStr} {rest : List UInt8}
    (hroot : kRoot.chars = rootPrompt.chars ++ rest) : (workingDir kRoot).chars = rest := by
  have hsep : pathSep kRoot = 2 := by
    rw [pathSep, hroot]
    rfl
  change kRoot.chars.drop (pathSep kRoot + 1) = rest
  rw [hsep, hroot]
  rfl

/-- What is left of the working directory in front of what is left of the path. -/
def underDir (cwd inp : List UInt8) : List UInt8 :=
  (if slash ∉ inp ∧ cwd ≠ [] then cwd ++ if inp = [] then [] else [slash] else []) ++ inp

theorem mem_underDir {cwd inp : List UInt8} {c : UInt8} (h : c ∈ underDir cwd inp) :
    c ∈ cwd ∨ c = slash ∨ c ∈ inp := by
  unfold underDir at h
  rcases List.mem_append.mp h with hfront | hinp
  · split at hfront
    · rcases List.mem_append.mp hfront with hcwd | hsep
      · exact .inl hcwd
      · split at hsep
        · exact absurd hsep List.not_mem_nil
        · exact .inr (.inl (List.mem_singleton.mp hsep))
    · exact absurd hfront List.not_mem_nil
  · exact .inr (.inr hinp)

theorem resolveFsPath_chars (kRoot input : CStr) (maxLen : Nat) :
    (resolveFsPath kRoot input maxLen).chars =
      (underDir (climb ((workingDir kRoot).chars.take 63) input.chars).1
        (climb ((workingDir kRoot).chars.take 63) input.chars).2).take (maxLen - 1) := by
  apply CStr.ofBytes_eq
  intro c hc
  rcases mem_underDir (List.mem_of_mem_take hc) with hcwd | rfl | hinp
  · refine climb_fst (P := fun cwd => ∀ c ∈ cwd, c ≠ 0) ?_ _ _ ?_ c hcwd
    · intro cwd hcwd c hc
      exact hcwd c ((popDir_front cwd).subset hc)
    · intro c hc
      exact (workingDir kRoot).noNul c (List.mem_of_mem_take hc)
  · decide
  · exact input.noNul c ((climb_suffix _ _).subset hinp)

theorem underDir_joined {cwd r : List (List UInt8)} (hcwd : ∀ c ∈ cwd, PathPart c)
    (hr : ∀ c ∈ r, PathPart c) : underDir (joined slash cwd) (joined slash r) =
      if r.length ≤ 1 ∨ cwd = [] then joined slash (cwd ++ r) else joined slash r := by
  unfold underDir
  have hslash : slash ∉ joined slash r ↔ r.length ≤ 1 := by
    rw [sep_mem_joined fun c hc => (hr c hc).noSlash, Nat.not_lt]
  by_cases hempty : cwd = []
  · have hcond : r.length ≤ 1 ∨ cwd = [] := .inr hempty
    rw [if_pos hcond, if_neg (by simp [hempty]), hempty]
    rfl
  have hne : joined slash cwd ≠ [] := joined_ne_nil (fun c hc => (hcwd c hc).ne_nil) hempty
  by_cases hshort : r.length ≤ 1
  · have hcond : r.length ≤ 1 ∨ cwd = [] := .inl hshort
    rw [if_pos ⟨hslash.mpr hshort, hne⟩, if_pos hcond]
    by_cases hnil : r = []
    · rw [hnil, joined_nil, if_pos rfl, List.append_nil, List.append_nil, List.append_nil]
    · rw [if_neg (joined_ne_nil (fun c hc => (hr c hc).ne_nil) hnil), joined_append hempty hnil,
        List.append_assoc, List.singleton_append]
  · rw [if_neg fun h => hshort (hslash.mp h.1), if_neg (not_or.mpr ⟨hshort, hempty⟩)]
    rfl

namespace Relative

variable {kRoot input : CStr} {cwd r : List (List UInt8)} {k : Nat}

/-- What `resolve_fs_path` writes. -/
theorem resolved (h : Relative kRoot input cwd k r) (maxLen : Nat) :
    (resolveFsPath kRoot input maxLen).chars =
      (if r.length ≤ 1 ∨ cwd.length ≤ k then relativePath cwd k r
        else joined slash r).take (maxLen - 1) := by
  have hfits : (joined slash cwd).length ≤ 63 := by
    have hlen := h.fits
    rw [CStr.length, h.root, List.length_append] at hlen
    omega
  have hcwd : ∀ c ∈ cwd.take (cwd.length - k), PathPart c := fun c hc =>
    h.cwdParts c (List.mem_of_mem_take hc)
  have hnil : cwd.take (cwd.length - k) = [] ↔ cwd.length ≤ k := by
    rw [List.take_eq_nil_iff, ← List.length_eq_zero_iff]
    omega
  have hclimb := climb_joined k h.cwdParts h.parts h.remainder
  rw [resolveFsPath_chars, workingDir_chars h.root, List.take_of_length_le hfits, h.input, hclimb,
    underDir_joined hcwd h.parts]
  simp only [hnil, relativePath]

end Relative

/-- `resolve_fs_path` gives the path relative to the working directory just when the path fits
and the remainder has no `/` or nothing is left of the working directory. -/
theorem resolveFsPath_relative {kRoot input : CStr} {cwd r : List (List UInt8)} {k maxLen : Nat}
    (h : Relative kRoot input cwd k r) (hmax : 0 < maxLen) :
    (resolveFsPath kRoot input maxLen).chars = relativePath cwd k r ∧
        (resolveFsPath kRoot input maxLen).length < maxLen ↔
      (relativePath cwd k r).length < maxLen ∧ (r.length ≤ 1 ∨ cwd.length ≤ k) := by
  have hchars := h.resolved maxLen
  have hshort : (resolveFsPath kRoot input maxLen).length < maxLen := by
    rw [CStr.length, hchars, List.length_take]
    omega
  rw [hchars]
  by_cases hcond : r.length ≤ 1 ∨ cwd.length ≤ k
  · rw [if_pos hcond, List.take_eq_self_iff]
    constructor
    · rintro ⟨hle, -⟩
      exact ⟨by omega, hcond⟩
    · rintro ⟨hlt, -⟩
      exact ⟨by omega, hshort⟩
  · -- the path written is a piece of the remainder alone, which is shorter
    rw [if_neg hcond]
    refine iff_of_false ?_ fun hright => hcond hright.2
    rintro ⟨heq, -⟩
    have hlength := congrArg List.length heq
    obtain ⟨hlong, hleft⟩ := not_or.mp hcond
    have hr : r ≠ [] := by
      rintro rfl
      exact hlong (by simp)
    have hfront : cwd.take (cwd.length - k) ≠ [] := by
      rw [Ne, List.take_eq_nil_iff, ← List.length_eq_zero_iff]
      omega
    rw [relativePath, joined_append hfront hr, List.length_take, List.length_append,
      List.length_cons] at hlength
    omega

/-- "7:/a/b" -/
def rootAB : CStr := ⟨[55, 58, 47, 97, 47, 98], by simp⟩

theorem relative_rootAB {input : CStr} {r : List (List UInt8)}
    (hinput : input.chars = joined slash (dotDot :: r)) (hr : ∀ c ∈ r, PathPart c)
    (hhead : r.head? ≠ some dotDot) : Relative rootAB input [[97], [98]] 1 r where
  fits := by decide
  root := rfl
  cwdParts := by
    intro c hc
    simp only [List.mem_cons, List.not_mem_nil, or_false] at hc
    rcases hc with rfl | rfl
    · exact ⟨by decide, by decide⟩
    · exact ⟨by decide, by decide⟩
  input := hinput
  parts := hr
  remainder := hhead
  single := fun h => absurd h (by decide)

/-- "../c" from there. -/
theorem resolveFsPath_relative_up :
    (resolveFsPath rootAB ⟨[46, 46, 47, 99], by simp⟩ 64).chars =
          relativePath [[97], [98]] 1 [[99]] ∧
        (resolveFsPath rootAB ⟨[46, 46, 47, 99], by simp⟩ 64).length < 64 ↔
      (relativePath [[97], [98]] 1 [[99]]).length < 64 ∧
        ([[99]].length ≤ 1 ∨ [[97], [98]].length ≤ 1) := by
  refine resolveFsPath_relative (relative_rootAB rfl ?_ (by decide)) (by decide)
  intro c hc
  obtain rfl := List.mem_singleton.mp hc
  exact ⟨by decide, by decide⟩

/-- "../x/y" from there is "x/y", not "a/x/y". -/
theorem not_resolveFsPath_relative :
    ¬ ∀ (kRoot input : CStr) (cwd : List (List UInt8)) (k : Nat) (r : List (List UInt8)),
      Relative kRoot input cwd k r → (relativePath cwd k r).length ≤ 63 →
        (resolveFsPath kRoot input 64).chars = relativePath cwd k r := by
  intro hall
  have hrel : Relative rootAB ⟨[46, 46, 47, 120, 47, 121], by simp⟩ [[97], [98]] 1
      [[120], [121]] := by
    refine relative_rootAB rfl ?_ (by decide)
    intro c hc
    simp only [List.mem_cons, List.not_mem_nil, or_false] at hc
    rcases hc with rfl | rfl
    · exact ⟨by decide, by decide⟩
    · exact ⟨by decide, by decide⟩
  exact absurd (hall _ _ _ _ _ hrel (by decide)) (by decide +kernel)

end SevenOS
