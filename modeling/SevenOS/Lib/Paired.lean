import SevenOS.Lib.Prog

/-! # Two runs side by side

What two runs of a program have in common although they start from different
states. The programs go in step: they take the same branches, hand on the same
values and end alike; only the states differ, and a relation between them is
carried along.
-/

namespace Prog

variable {σ α β : Type}

/-- From `s` and `t` the programs end alike, and when they return, with one value
and in states that `Q` relates. -/
def Paired (m n : Prog σ α) (Q : α → σ → σ → Prop) (s t : σ) : Prop :=
  match m s, n t with
  | (.ok a, s'), (.ok b, t') => a = b ∧ Q a s' t'
  | (.refused, _), (.refused, _) => True
  | (.diverged, _), (.diverged, _) => True
  | _, _ => False

namespace Paired

variable {m n : Prog σ α} {Q Q' : α → σ → σ → Prop} {s t : σ}

theorem pure {a : α} (h : Q a s t) : Paired (Pure.pure a) (Pure.pure a) Q s t := ⟨rfl, h⟩

theorem mono (h : Paired m n Q s t) (hQ : ∀ a s' t', Q a s' t' → Q' a s' t') :
    Paired m n Q' s t := by
  unfold Paired at h ⊢
  generalize m s = r, n t = r' at h ⊢
  obtain ⟨_ | _ | _, s'⟩ := r <;> obtain ⟨_ | _ | _, t'⟩ := r' <;>
    try first | exact h | exact False.elim h
  exact ⟨h.1, hQ _ _ _ h.2⟩

theorem bind {f g : α → Prog σ β} {R : β → σ → σ → Prop} (h : Paired m n Q s t)
    (hf : ∀ a s' t', Q a s' t' → Paired (f a) (g a) R s' t') :
    Paired (m >>= f) (n >>= g) R s t := by
  unfold Paired at h
  unfold Paired
  simp only [Bind.bind, Prog.bind]
  generalize m s = r, n t = r' at h ⊢
  obtain ⟨a | _ | _, s'⟩ := r <;> obtain ⟨b | _ | _, t'⟩ := r' <;>
    try first | exact h | exact False.elim h
  obtain ⟨rfl, hQ⟩ := h
  exact hf a s' t' hQ

theorem step {f g : α → Prog σ β} {R : β → σ → σ → Prop}
    (h : Paired m n (fun a s' t' => Paired (f a) (g a) R s' t') s t) :
    Paired (m >>= f) (n >>= g) R s t :=
  bind h fun _ _ _ h => h

/-- The states themselves are read: each program goes on with its own. -/
theorem get {f g : σ → Prog σ α} (h : Paired (f s) (g t) Q s t) :
    Paired (Prog.get >>= f) (Prog.get >>= g) Q s t := h

theorem modify {c d : σ → σ} {f g : Unit → Prog σ α} (h : Paired (f ()) (g ()) Q (c s) (d t)) :
    Paired (Prog.modify c >>= f) (Prog.modify d >>= g) Q s t := h

theorem require {p q : Prop} [Decidable p] [Decidable q] {f g : Unit → Prog σ α} (hpq : p ↔ q)
    (h : p → Paired (f ()) (g ()) Q s t) :
    Paired (Prog.require p >>= f) (Prog.require q >>= g) Q s t := by
  unfold Prog.require
  by_cases hp : p
  · rw [if_pos hp, if_pos (hpq.mp hp)]
    exact h hp
  · rw [if_neg hp, if_neg fun hq => hp (hpq.mpr hq)]
    trivial

theorem demand {o o' : Option β} {f g : β → Prog σ α} (ho : o = o')
    (h : ∀ b, o = some b → Paired (f b) (g b) Q s t) :
    Paired (Prog.demand o >>= f) (Prog.demand o' >>= g) Q s t := by
  subst ho
  cases o with
  | none => trivial
  | some b => exact h b rfl

/-- What one of the runs establishes by itself may be added. -/
theorem also {P : α → σ → Prop} {R D : σ → Prop} (h : Paired m n Q s t) (hm : wp m P R D s) :
    Paired m n (fun a s' t' => P a s' ∧ Q a s' t') s t := by
  unfold Paired at h ⊢
  unfold wp at hm
  generalize m s = r, n t = r' at h hm ⊢
  obtain ⟨_ | _ | _, s'⟩ := r <;> obtain ⟨_ | _ | _, t'⟩ := r' <;>
    try first | exact h | exact False.elim h
  exact ⟨h.1, hm, h.2⟩

theorem of_wp {a : α} {s' t' : σ}
    (hm : wp m (fun b r => b = a ∧ r = s') (fun _ => False) (fun _ => False) s)
    (hn : wp n (fun b r => b = a ∧ r = t') (fun _ => False) (fun _ => False) t)
    (h : Q a s' t') : Paired m n Q s t := by
  unfold Paired
  unfold wp at hm hn
  generalize m s = r, n t = r' at hm hn ⊢
  obtain ⟨_ | _ | _, s₁⟩ := r <;> obtain ⟨_ | _ | _, t₁⟩ := r' <;>
    try first | exact hm | exact hn | exact False.elim hm | exact False.elim hn
  obtain ⟨rfl, rfl⟩ := hm
  obtain ⟨rfl, rfl⟩ := hn
  exact ⟨rfl, h⟩

theorem run (h : Paired m n Q s t) {a : α} {s' : σ} (hrun : m s = (.ok a, s')) :
    ∃ t', n t = (.ok a, t') ∧ Q a s' t' := by
  unfold Paired at h
  rw [hrun] at h
  generalize n t = r at h ⊢
  obtain ⟨b | _ | _, t'⟩ := r
  · obtain ⟨rfl, hQ⟩ := h
    exact ⟨t', rfl, hQ⟩
  · exact h.elim
  · exact h.elim

end Paired

end Prog
