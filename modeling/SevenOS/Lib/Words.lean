import Mathlib.Data.List.Basic

/-! # The words of a text

The words of a text are the maximal runs of elements other than a delimiter. One loop
finds them, with the start of the current run for all its state; it goes one place
past the end, where the last run ends if no delimiter ends it.
-/

namespace Words

variable {α : Type} {c x : α} {text : List α} {start i k : Nat} {run : Nat × Nat}

/-- The elements from `start` up to `stop`. -/
def slice (text : List α) (start stop : Nat) : List α := (text.take stop).drop start

/-- A run comes to an end here. -/
def Ends (c : α) (text : List α) (i : Nat) : Prop := i = text.length ∨ text[i]? = some c

instance [DecidableEq α] (c : α) (text : List α) (i : Nat) : Decidable (Ends c text i) :=
  inferInstanceAs (Decidable (_ ∨ _))

/-- A run of elements other than `c`, not empty, that cannot be made longer. -/
structure MaximalRun (c : α) (text : List α) (run : Nat × Nat) : Prop where
  nonempty : run.1 < run.2
  stop_le : run.2 ≤ text.length
  differs : ∀ i, run.1 ≤ i → i < run.2 → text[i]? ≠ some c
  left : run.1 = 0 ∨ text[run.1 - 1]? = some c
  right : Ends c text run.2

/-- The words are the maximal runs, in order, with a delimiter between two of them. -/
def AreWords (c : α) (text : List α) (words : List (List α)) : Prop :=
  ∃ runs : List (Nat × Nat), words = runs.map (fun run => slice text run.1 run.2) ∧
    (∀ run, run ∈ runs ↔ MaximalRun c text run) ∧
    runs.Pairwise fun a b => ∃ i, a.2 ≤ i ∧ i < b.1 ∧ text[i]? = some c

/-! ## Slices -/

theorem slice_self (text : List α) (i : Nat) : slice text i i = [] :=
  List.drop_eq_nil_of_le (by rw [List.length_take]; omega)

theorem slice_succ (hx : text[i]? = some x) (hle : start ≤ i) :
    slice text start (i + 1) = slice text start i ++ [x] := by
  obtain ⟨hi, -⟩ := List.getElem?_eq_some_iff.mp hx
  rw [slice, slice, List.take_add_one, hx, List.drop_append_of_le_length]
  · rfl
  · rw [List.length_take]
    omega

theorem length_slice (hstop : i ≤ text.length) (start : Nat) :
    (slice text start i).length = i - start := by
  rw [slice, List.length_drop, List.length_take, Nat.min_eq_left hstop]

theorem mem_slice (hx : x ∈ slice text start i) :
    ∃ j, start ≤ j ∧ j < i ∧ text[j]? = some x := by
  obtain ⟨n, hn⟩ := List.mem_iff_getElem?.mp hx
  rw [slice, List.getElem?_drop, List.getElem?_take] at hn
  by_cases hlt : start + n < i
  · rw [if_pos hlt] at hn
    exact ⟨start + n, by omega, hlt, hn⟩
  · rw [if_neg hlt] at hn
    cases hn

namespace AreWords

variable {words : List (List α)}

theorem ne_nil (h : AreWords c text words) {word : List α} (hword : word ∈ words) :
    word ≠ [] := by
  obtain ⟨runs, rfl, hruns, -⟩ := h
  obtain ⟨run, hrun, rfl⟩ := List.mem_map.mp hword
  have hmax := (hruns run).mp hrun
  intro hnil
  have hlength := length_slice hmax.stop_le run.1
  have := hmax.nonempty
  rw [hnil, List.length_nil] at hlength
  omega

theorem not_mem (h : AreWords c text words) {word : List α} (hword : word ∈ words) :
    c ∉ word := by
  obtain ⟨runs, rfl, hruns, -⟩ := h
  obtain ⟨run, hrun, rfl⟩ := List.mem_map.mp hword
  intro hc
  obtain ⟨j, hlow, hhigh, hj⟩ := mem_slice hc
  exact ((hruns run).mp hrun).differs j hlow hhigh hj

end AreWords

/-! ## The loop -/

variable [DecidableEq α]

/-- One round: the run that ends here is kept unless it is empty. -/
def step (c : α) (text : List α) (acc : Nat × List (Nat × Nat)) (i : Nat) :
    Nat × List (Nat × Nat) :=
  if Ends c text i then (i + 1, if acc.1 < i then acc.2 ++ [(acc.1, i)] else acc.2) else acc

/-- The first `k` rounds. -/
def scan (c : α) (text : List α) (k : Nat) : Nat × List (Nat × Nat) :=
  (List.range k).foldl (step c text) (0, [])

def words (c : α) (text : List α) : List (List α) :=
  (scan c text (text.length + 1)).2.map fun run => slice text run.1 run.2

theorem scan_succ (c : α) (text : List α) (k : Nat) :
    scan c text (k + 1) = step c text (scan c text k) k := by
  rw [scan, List.range_succ, List.foldl_append]
  rfl

/-- After `k` rounds the runs that end before `k` have been found. -/
structure Scanned (c : α) (text : List α) (k : Nat) (acc : Nat × List (Nat × Nat)) : Prop where
  start_le : acc.1 ≤ k
  left : acc.1 = 0 ∨ Ends c text (acc.1 - 1)
  open_ : ∀ i, acc.1 ≤ i → i < k → ¬Ends c text i
  mem : ∀ run, run ∈ acc.2 ↔ MaximalRun c text run ∧ run.2 < k
  sorted : acc.2.Pairwise fun a b => a.2 < b.1
  flat : (acc.2.map fun run => slice text run.1 run.2).flatten ++ slice text acc.1 k =
    (text.take k).filter (· ≠ c)

namespace Scanned

variable {acc : Nat × List (Nat × Nat)}

theorem maximal (h : Scanned c text k acc) (hk : k ≤ text.length) (hends : Ends c text k)
    (hlt : acc.1 < k) : MaximalRun c text (acc.1, k) := by
  refine ⟨hlt, hk, fun i hlow hhigh hi => h.open_ i hlow hhigh (.inr hi), ?_, hends⟩
  rcases h.left with hzero | hprev | hprev
  · exact .inl hzero
  · omega
  · exact .inr hprev

theorem start_eq (h : Scanned c text k acc) (hk : k ≤ text.length)
    (hrun : MaximalRun c text run) (hstop : run.2 = k) : run.1 = acc.1 := by
  have hnonempty := hrun.nonempty
  rcases Nat.lt_trichotomy run.1 acc.1 with hlt | heq | hgt
  · rcases h.left with hzero | hprev | hprev
    · omega
    · have := h.start_le
      omega
    · have := h.start_le
      exact absurd hprev (hrun.differs (acc.1 - 1) (by omega) (by omega))
  · exact heq
  · rcases hrun.left with hzero | hprev
    · omega
    · exact absurd (.inr hprev) (h.open_ (run.1 - 1) (by omega) (by omega))

theorem before (h : Scanned c text k acc) (hrun : run ∈ acc.2) : run.2 < acc.1 := by
  obtain ⟨hmax, hlt⟩ := (h.mem run).mp hrun
  by_contra hle
  exact h.open_ run.2 (by omega) hlt hmax.right

theorem close (h : Scanned c text k acc) (hk : k ≤ text.length) (hends : Ends c text k) :
    Scanned c text (k + 1)
      (k + 1, if acc.1 < k then acc.2 ++ [(acc.1, k)] else acc.2) := by
  have hfilter : (text.take (k + 1)).filter (· ≠ c) = (text.take k).filter (· ≠ c) := by
    rw [List.take_add_one, List.filter_append]
    rcases hends with hlast | hc
    · rw [List.getElem?_eq_none (by omega)]
      exact List.append_nil _
    · rw [hc]
      simp
  have hflat := h.flat
  by_cases hlt : acc.1 < k
  · rw [if_pos hlt]
    refine ⟨Nat.le_refl _, .inr hends, fun i hlow hhigh => by omega, fun run => ?_, ?_, ?_⟩
    · rw [List.mem_append, List.mem_singleton, h.mem]
      constructor
      · rintro (⟨hmax, hstop⟩ | rfl)
        · exact ⟨hmax, Nat.lt_succ_of_lt hstop⟩
        · exact ⟨h.maximal hk hends hlt, Nat.lt_succ_self k⟩
      · intro hrun
        rcases Nat.lt_succ_iff_lt_or_eq.mp hrun.2 with hstop | hstop
        · exact .inl ⟨hrun.1, hstop⟩
        · exact .inr (Prod.ext (h.start_eq hk hrun.1 hstop) hstop)
    · rw [List.pairwise_append]
      refine ⟨h.sorted, List.pairwise_singleton _ _, fun a ha b hb => ?_⟩
      rw [List.mem_singleton.mp hb]
      exact h.before ha
    · rw [hfilter, ← hflat, slice_self, List.append_nil, List.map_append, List.flatten_append]
      exact congrArg _ (List.append_nil _)
  · have heq : acc.1 = k := Nat.le_antisymm h.start_le (Nat.le_of_not_lt hlt)
    rw [if_neg hlt]
    refine ⟨Nat.le_refl _, .inr hends, fun i hlow hhigh => by omega, fun run => ?_, h.sorted, ?_⟩
    · rw [h.mem]
      constructor
      · intro hrun
        exact ⟨hrun.1, Nat.lt_succ_of_lt hrun.2⟩
      · intro hrun
        rcases Nat.lt_succ_iff_lt_or_eq.mp hrun.2 with hstop | hstop
        · exact ⟨hrun.1, hstop⟩
        · have hstart := h.start_eq hk hrun.1 hstop
          have := hrun.1.nonempty
          omega
    · rw [hfilter, ← hflat, heq, slice_self, slice_self]

theorem extend (h : Scanned c text k acc) (hk : k ≤ text.length) (hends : ¬Ends c text k) :
    Scanned c text (k + 1) acc := by
  have hlt : k < text.length := Nat.lt_of_le_of_ne hk fun heq => hends (.inl heq)
  have hx : text[k]? = some text[k] := List.getElem?_eq_getElem hlt
  have hne : text[k] ≠ c := fun heq => hends (.inr (heq ▸ hx))
  refine ⟨Nat.le_succ_of_le h.start_le, h.left, fun i hlow hhigh => ?_, fun run => ?_, h.sorted, ?_⟩
  · rcases Nat.lt_succ_iff_lt_or_eq.mp hhigh with hlt | rfl
    · exact h.open_ i hlow hlt
    · exact hends
  · rw [h.mem]
    constructor
    · intro hrun
      exact ⟨hrun.1, Nat.lt_succ_of_lt hrun.2⟩
    · intro hrun
      rcases Nat.lt_succ_iff_lt_or_eq.mp hrun.2 with hstop | hstop
      · exact ⟨hrun.1, hstop⟩
      · exact absurd (hstop ▸ hrun.1.right) hends
  · rw [slice_succ hx h.start_le, ← List.append_assoc, h.flat, List.take_add_one, hx,
      List.filter_append]
    simp [hne]

theorem step (h : Scanned c text k acc) (hk : k ≤ text.length) :
    Scanned c text (k + 1) (step c text acc k) := by
  unfold Words.step
  by_cases hends : Ends c text k
  · rw [if_pos hends]
    exact h.close hk hends
  · rw [if_neg hends]
    exact h.extend hk hends

end Scanned

theorem scan_scanned (c : α) (text : List α) (hk : k ≤ text.length + 1) :
    Scanned c text k (scan c text k) := by
  induction k with
  | zero =>
      refine ⟨Nat.le_refl 0, .inl rfl, fun i _ hhigh => absurd hhigh (Nat.not_lt_zero i), ?_,
        List.Pairwise.nil, rfl⟩
      intro run
      exact iff_of_false List.not_mem_nil fun h => absurd h.2 (Nat.not_lt_zero _)
  | succ k ih =>
      rw [scan_succ]
      exact (ih (by omega)).step (by omega)

/-- The loop finds the words. -/
theorem areWords_words (c : α) (text : List α) : AreWords c text (words c text) := by
  have hscan := scan_scanned c text (Nat.le_refl (text.length + 1))
  have hmem : ∀ run, run ∈ (scan c text (text.length + 1)).2 ↔ MaximalRun c text run := by
    intro run
    rw [hscan.mem]
    exact and_iff_left_of_imp fun h => Nat.lt_succ_of_le h.stop_le
  refine ⟨_, rfl, hmem, hscan.sorted.imp_of_mem fun {a b} ha hb hlt => ?_⟩
  have hb' := (hmem b).mp hb
  have hnonempty := hb'.nonempty
  have hstop := hb'.stop_le
  exact ⟨a.2, Nat.le_refl _, hlt, ((hmem a).mp ha).right.resolve_left (by omega)⟩

theorem flatten_words (c : α) (text : List α) :
    (words c text).flatten = text.filter (· ≠ c) := by
  have hscan := scan_scanned c text (Nat.le_refl (text.length + 1))
  have hlast : (scan c text (text.length + 1)).1 = text.length + 1 := by
    rw [scan_succ, Words.step, if_pos (.inl rfl)]
  have hflat := hscan.flat
  rw [hlast, slice_self, List.append_nil, List.take_of_length_le (Nat.le_succ _)] at hflat
  exact hflat

end Words
