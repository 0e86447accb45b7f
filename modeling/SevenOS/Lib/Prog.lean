/-! # Programs over a state that may refuse

A small program logic for routines that read and change a state and either
return a value, refuse (the C idiom `return false`), or do not come back to their
caller: they exhaust the recursion depth they were given, or jump elsewhere. A refusal
keeps every change made before it, so partial updates stay visible to whoever runs next.
-/

universe u

inductive Outcome (α : Type u) where
  | ok (value : α)
  | refused
  | diverged
  deriving DecidableEq, Repr

namespace Outcome

def isOk {α : Type u} : Outcome α → Bool
  | ok _ => true
  | _ => false

@[simp] theorem isOk_ok {α : Type u} (a : α) : (ok a).isOk = true := rfl
@[simp] theorem isOk_refused {α : Type u} : (refused : Outcome α).isOk = false := rfl
@[simp] theorem isOk_diverged {α : Type u} : (diverged : Outcome α).isOk = false := rfl

end Outcome

/-- A program from states `σ` to results `α`, together with the state it leaves. -/
def Prog (σ α : Type) : Type := σ → Outcome α × σ

namespace Prog

variable {σ α β : Type}

def bind (m : Prog σ α) (f : α → Prog σ β) : Prog σ β := fun s =>
  match m s with
  | (.ok a, s') => f a s'
  | (.refused, s') => (.refused, s')
  | (.diverged, s') => (.diverged, s')

instance : Monad (Prog σ) where
  pure a := fun s => (.ok a, s)
  bind := Prog.bind

def get : Prog σ σ := fun s => (.ok s, s)
def modify (f : σ → σ) : Prog σ Unit := fun s => (.ok (), f s)
def refuse : Prog σ α := fun s => (.refused, s)
def diverge : Prog σ α := fun s => (.diverged, s)

/-- Go on only if `p` holds: `if (!p) return false;`. -/
def require (p : Prop) [Decidable p] : Prog σ Unit := if p then pure () else refuse

/-- Go on only with a value that is there. -/
def demand : Option α → Prog σ α
  | some a => pure a
  | none => refuse

theorem run_eq {m : Prog σ α} {s : σ} {o : Outcome α} (h : (m s).1 = o) : m s = (o, (m s).2) :=
  Prod.ext h rfl

/-! ## Weakest preconditions

`wp m Q R D s`: run from `s`, the program returns into `Q`, refuses into `R`,
or runs out of depth into `D`.
-/

def wp (m : Prog σ α) (Q : α → σ → Prop) (R D : σ → Prop) (s : σ) : Prop :=
  match m s with
  | (.ok a, s') => Q a s'
  | (.refused, s') => R s'
  | (.diverged, s') => D s'

section Rules

variable {Q : α → σ → Prop} {R D : σ → Prop} {s : σ}

@[simp] theorem wp_pure (a : α) : wp (pure a) Q R D s ↔ Q a s := Iff.rfl

@[simp] theorem wp_refuse : wp (refuse : Prog σ α) Q R D s ↔ R s := Iff.rfl

@[simp] theorem wp_diverge : wp (diverge : Prog σ α) Q R D s ↔ D s := Iff.rfl

@[simp] theorem wp_get {Q : σ → σ → Prop} : wp get Q R D s ↔ Q s s := Iff.rfl

theorem wp_modify (f : σ → σ) {Q : Unit → σ → Prop} :
    wp (modify f) Q R D s ↔ Q () (f s) := Iff.rfl

@[simp] theorem wp_bind (m : Prog σ β) (f : β → Prog σ α) :
    wp (m >>= f) Q R D s ↔ wp m (fun b s' => wp (f b) Q R D s') R D s := by
  simp only [wp, Bind.bind, Prog.bind]
  rcases m s with ⟨_ | _ | _, s'⟩ <;> rfl

@[simp] theorem wp_require (p : Prop) [Decidable p] {Q : Unit → σ → Prop} :
    wp (require p) Q R D s ↔ (p → Q () s) ∧ (¬ p → R s) := by
  unfold require
  by_cases h : p <;> simp [h]

@[simp] theorem wp_demand (o : Option α) :
    wp (demand o) Q R D s ↔ (∀ a, o = some a → Q a s) ∧ (o = none → R s) := by
  cases o <;> simp [demand]

theorem wp_ite (p : Prop) [Decidable p] (m n : Prog σ α) :
    wp (if p then m else n) Q R D s ↔ (p → wp m Q R D s) ∧ (¬ p → wp n Q R D s) := by
  by_cases h : p <;> simp [h]

theorem wp_mono {m : Prog σ α} {Q' : α → σ → Prop} {R' D' : σ → Prop}
    (h : wp m Q R D s) (hQ : ∀ a s', Q a s' → Q' a s') (hR : ∀ s', R s' → R' s')
    (hD : ∀ s', D s' → D' s') : wp m Q' R' D' s := by
  unfold wp at h ⊢
  generalize m s = r at h ⊢
  obtain ⟨_ | _ | _, s'⟩ := r
  · exact hQ _ _ h
  · exact hR _ h
  · exact hD _ h

theorem wp_and {m : Prog σ α} {Q' : α → σ → Prop} {R' D' : σ → Prop} (h : wp m Q R D s)
    (h' : wp m Q' R' D' s) : wp m (fun a s' => Q a s' ∧ Q' a s') (fun s' => R s' ∧ R' s')
      (fun s' => D s' ∧ D' s') s := by
  unfold wp at h h' ⊢
  generalize m s = r at h h' ⊢
  obtain ⟨_ | _ | _, s'⟩ := r
  · exact ⟨h, h'⟩
  · exact ⟨h, h'⟩
  · exact ⟨h, h'⟩

theorem wp_of_forall {m : Prog σ α} (hQ : ∀ a s', Q a s') (hR : ∀ s', R s') (hD : ∀ s', D s') :
    wp m Q R D s := by
  unfold wp
  rcases m s with ⟨_ | _ | _, s'⟩
  · exact hQ _ _
  · exact hR _
  · exact hD _

/-- The rule for a call: what the callee establishes feeds the continuation. -/
theorem wp_call {m : Prog σ β} {f : β → Prog σ α} {Q' : β → σ → Prop} {R' D' : σ → Prop}
    (h : wp m Q' R' D' s) (hQ : ∀ b s', Q' b s' → wp (f b) Q R D s')
    (hR : ∀ s', R' s' → R s') (hD : ∀ s', D' s' → D s') : wp (m >>= f) Q R D s :=
  (wp_bind m f).mpr (wp_mono h hQ hR hD)

/-- Read a run off a weakest precondition. -/
theorem wp_run {m : Prog σ α} {o : Outcome α} {s' : σ} (h : wp m Q R D s)
    (run : m s = (o, s')) :
    (∃ a, o = .ok a ∧ Q a s') ∨ (o = .refused ∧ R s') ∨ (o = .diverged ∧ D s') := by
  unfold wp at h
  rw [run] at h
  cases o with
  | ok a => exact .inl ⟨a, rfl, h⟩
  | refused => exact .inr (.inl ⟨rfl, h⟩)
  | diverged => exact .inr (.inr ⟨rfl, h⟩)

/-- What a run returns, when the precondition says it. -/
theorem wp_outcome {m : Prog σ α} {r : Outcome α}
    (h : wp m (fun a _ => r = .ok a) (fun _ => r = .refused) (fun _ => r = .diverged) s) :
    (m s).1 = r := by
  rcases wp_run h rfl with ⟨a, ho, rfl⟩ | ⟨ho, rfl⟩ | ⟨ho, rfl⟩ <;> exact ho

/-- The outcome that a rule is about is the outcome of the run. -/
theorem wp_known {m : Prog σ α} (h : wp m Q R D s) :
    wp m (fun a s' => (m s).1 = .ok a ∧ Q a s') (fun s' => (m s).1 = .refused ∧ R s')
      (fun s' => (m s).1 = .diverged ∧ D s') s := by
  unfold wp at h ⊢
  generalize m s = r at h ⊢
  obtain ⟨_ | _ | _, s'⟩ := r
  · exact ⟨rfl, h⟩
  · exact ⟨rfl, h⟩
  · exact ⟨rfl, h⟩

/-- The state that a rule is about is the state that the run leaves. -/
theorem wp_reached {m : Prog σ α} (h : wp m Q R D s) :
    wp m (fun a s' => s' = (m s).2 ∧ Q a s') (fun s' => s' = (m s).2 ∧ R s')
      (fun s' => s' = (m s).2 ∧ D s') s := by
  unfold wp at h ⊢
  generalize m s = r at h ⊢
  obtain ⟨_ | _ | _, s'⟩ := r
  · exact ⟨rfl, h⟩
  · exact ⟨rfl, h⟩
  · exact ⟨rfl, h⟩

/-- A loop over a list keeps an invariant indexed by the part already done. -/
theorem wp_foldlM {ι : Type} (step : α → ι → Prog σ α) (Inv : List ι → α → σ → Prop)
    (items : List ι)
    (hstep : ∀ done i rest a s, items = done ++ i :: rest → Inv done a s →
      wp (step a i) (fun a' s' => Inv (done ++ [i]) a' s') R D s)
    (a : α) (h : Inv [] a s) :
    wp (items.foldlM step a) (fun a' s' => Inv items a' s') R D s := by
  suffices main : ∀ rest done a s, items = done ++ rest → Inv done a s →
      wp (rest.foldlM step a) (fun a' s' => Inv items a' s') R D s from
    main items [] a s rfl h
  intro rest
  induction rest with
  | nil =>
      intro done a s hitems hinv
      simpa [hitems] using hinv
  | cons i rest ih =>
      intro done a s hitems hinv
      rw [List.foldlM_cons, wp_bind]
      refine wp_mono (hstep done i rest a s hitems hinv) ?_ (fun _ h => h) (fun _ h => h)
      intro a' s' hinv'
      exact ih (done ++ [i]) a' s' (by simp [hitems]) hinv'

/-- A counting loop keeps an invariant indexed by the counter. -/
theorem wp_foldlM_range (step : α → Nat → Prog σ α) (Inv : Nat → α → σ → Prop) (n : Nat)
    (hstep : ∀ i a s, i < n → Inv i a s → wp (step a i) (fun a' s' => Inv (i + 1) a' s') R D s)
    (a : α) (h : Inv 0 a s) :
    wp ((List.range n).foldlM step a) (fun a' s' => Inv n a' s') R D s := by
  have hloop : wp ((List.range n).foldlM step a)
      (fun a' s' => Inv (List.range n).length a' s') R D s := by
    apply wp_foldlM step (fun done a s => Inv done.length a s) _ _ a h
    intro done i rest a s hitems hinv
    have hget : (List.range n)[done.length]? = some i := by
      rw [hitems, List.getElem?_append_right (Nat.le_refl _), Nat.sub_self]
      rfl
    obtain ⟨hlt, rfl⟩ := List.getElem?_eq_some_iff.mp hget
    rw [List.length_range] at hlt
    rw [List.getElem_range, List.length_append, List.length_singleton]
    exact hstep _ a s hlt hinv
  rwa [List.length_range] at hloop

end Rules

/-! ## Decisions -/

/-- The program returns when `A` holds and refuses when it does not. -/
abbrev Decides (A : Prop) (m : Prog σ α) (s : σ) : Prop :=
  wp m (fun _ _ => A) (fun _ => ¬ A) (fun _ => False) s

namespace Decides

variable {A : Prop} {s : σ}

theorem call {m : Prog σ β} {f : β → Prog σ α} {Q : β → σ → Prop} {R : σ → Prop}
    (hm : wp m Q R (fun _ => False) s) (hno : ∀ s', R s' → ¬ A)
    (h : ∀ b s', Q b s' → Decides A (f b) s') : Decides A (m >>= f) s :=
  wp_call hm h hno fun _ hd => hd

theorem congr {B : Prop} {m : Prog σ α} (h : Decides B m s) (hiff : A ↔ B) : Decides A m s :=
  wp_mono h (fun _ _ hb => hiff.mpr hb) (fun _ hb ha => hb (hiff.mp ha)) fun _ hd => hd

/-- The outcome is one of two, and tells whether `A` holds. -/
theorem outcome {m : Prog σ α} (h : Decides A m s) :
    ((∃ a, (m s).1 = .ok a) ↔ A) ∧ ((m s).1 = .refused ↔ ¬ A) := by
  rcases wp_run h rfl with ⟨a, ho, ha⟩ | ⟨ho, ha⟩ | ⟨-, hno⟩
  · rw [ho]
    simp [ha]
  · rw [ho]
    simp [ha]
  · exact hno.elim

end Decides

/-! ## Invariants -/

/-- However it ends from `s`, the program leaves a state of the invariant. -/
abbrev Ends (I : σ → Prop) (m : Prog σ α) (s : σ) : Prop := wp m (fun _ => I) I I s

namespace Ends

variable {I : σ → Prop} {s : σ}

theorem bind {m : Prog σ β} {f : β → Prog σ α} {Q : β → σ → Prop} (hm : wp m Q I I s)
    (hf : ∀ b s', Q b s' → Ends I (f b) s') : Ends I (m >>= f) s :=
  wp_call hm hf (fun _ h => h) fun _ h => h

theorem get {f : σ → Prog σ α} (h : Ends I (f s) s) : Ends I (get >>= f) s :=
  (wp_bind _ _).mpr h

theorem require {p : Prop} [Decidable p] {f : Unit → Prog σ α} (hs : I s)
    (h : p → Ends I (f ()) s) : Ends I (require p >>= f) s := by
  rw [Ends, wp_bind, wp_require]
  exact ⟨h, fun _ => hs⟩

theorem demand {o : Option β} {f : β → Prog σ α} (hs : I s)
    (h : ∀ b, o = some b → Ends I (f b) s) : Ends I (demand o >>= f) s := by
  rw [Ends, wp_bind, wp_demand]
  exact ⟨h, fun _ => hs⟩

theorem ite {p : Prop} [Decidable p] {m n : Prog σ α} (hm : p → Ends I m s)
    (hn : ¬ p → Ends I n s) : Ends I (if p then m else n) s :=
  (wp_ite p m n).mpr ⟨hm, hn⟩

theorem run {m : Prog σ α} (h : Ends I m s) : I (m s).2 := by
  rcases wp_run h rfl with ⟨_, -, h'⟩ | ⟨-, h'⟩ | ⟨-, h'⟩ <;> exact h'

end Ends

/-- However it ends, the program leaves a state of the invariant. -/
def Keeps (I : σ → Prop) (m : Prog σ α) : Prop := ∀ s, I s → wp m (fun _ => I) I I s

namespace Keeps

variable {I : σ → Prop}

theorem pure (a : α) : Keeps I (Pure.pure a : Prog σ α) := fun _ h => h

theorem refuse : Keeps I (refuse : Prog σ α) := fun _ h => h

theorem diverge : Keeps I (diverge : Prog σ α) := fun _ h => h

theorem get : Keeps I (get : Prog σ σ) := fun _ h => h

theorem modify {f : σ → σ} (hf : ∀ s, I s → I (f s)) : Keeps I (modify f) := hf

theorem require (p : Prop) [Decidable p] : Keeps I (require p : Prog σ Unit) := fun _ h =>
  (wp_require p).mpr ⟨fun _ => h, fun _ => h⟩

theorem demand (o : Option α) : Keeps I (demand o : Prog σ α) := fun _ h =>
  (wp_demand o).mpr ⟨fun _ _ => h, fun _ => h⟩

theorem bind {m : Prog σ β} {f : β → Prog σ α} (hm : Keeps I m) (hf : ∀ b, Keeps I (f b)) :
    Keeps I (m >>= f) := fun s h =>
  wp_call (hm s h) (fun b s' h' => hf b s' h') (fun _ h => h) fun _ h => h

theorem ite {p : Prop} [Decidable p] {m n : Prog σ α} (hm : p → Keeps I m)
    (hn : ¬ p → Keeps I n) : Keeps I (if p then m else n) := fun s h =>
  (wp_ite p m n).mpr ⟨fun hp => hm hp s h, fun hp => hn hp s h⟩

theorem foldlM {ι : Type} {step : α → ι → Prog σ α} (items : List ι)
    (hstep : ∀ a i, i ∈ items → Keeps I (step a i)) (a : α) :
    Keeps I (items.foldlM step a) := fun s h =>
  wp_mono (wp_foldlM step (fun _ _ s => I s) items
    (fun done i rest a s hi hs => hstep a i (by simp [hi]) s hs) a h)
    (fun _ _ h => h) (fun _ h => h) fun _ h => h

theorem run {m : Prog σ α} (h : Keeps I m) {s s' : σ} {o : Outcome α} (hs : I s)
    (hrun : m s = (o, s')) : I s' := by
  have hends := Ends.run (h s hs)
  rwa [hrun] at hends

end Keeps

end Prog
