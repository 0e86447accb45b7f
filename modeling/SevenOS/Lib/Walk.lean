import Mathlib.Data.Fintype.Card

/-! # Walks in a rooted graph

Labelled edges in which a node has at most one edge in and the root none. Such a
graph need not be a tree, as it may have cycles that the root does not reach; but
from the root there is at most one walk to each node, so over finitely many nodes
every such walk is short.
-/

universe u w

section Walk

variable {N : Type u} {L : Type w} (edge : N → L → N → Prop)

/-- A walk along the edges, by its labels. -/
inductive Walk : N → List L → N → Prop
  | nil (a : N) : Walk a [] a
  | cons {a b c : N} {l : L} {ls : List L} : edge a l b → Walk b ls c → Walk a (l :: ls) c

variable {edge}

namespace Walk

theorem append {a b c : N} {ls ms : List L} (h : Walk edge a ls b) (h' : Walk edge b ms c) :
    Walk edge a (ls ++ ms) c := by
  induction h with
  | nil => exact h'
  | cons e _ ih => exact .cons e (ih h')

theorem single {a b : N} {l : L} (e : edge a l b) : Walk edge a [l] b := .cons e (.nil b)

theorem nil_inv {a b : N} (h : Walk edge a [] b) : a = b := by
  cases h; rfl

theorem split {a c : N} {ls ms : List L} (h : Walk edge a (ls ++ ms) c) :
    ∃ b, Walk edge a ls b ∧ Walk edge b ms c := by
  induction ls generalizing a with
  | nil => exact ⟨a, .nil a, h⟩
  | cons l ls ih =>
      cases h with
      | cons e h =>
          obtain ⟨b, h₁, h₂⟩ := ih h
          exact ⟨b, .cons e h₁, h₂⟩

theorem snoc_inv {a c : N} {ls : List L} {l : L} (h : Walk edge a (ls ++ [l]) c) :
    ∃ b, Walk edge a ls b ∧ edge b l c := by
  obtain ⟨b, h₁, h₂⟩ := h.split
  cases h₂ with
  | cons e h₂ => exact ⟨b, h₁, h₂.nil_inv ▸ e⟩

/-- Induction along a walk from its start. -/
theorem reach_induction {motive : N → Prop} {a x : N} {ls : List L} (h : Walk edge a ls x)
    (start : motive a) (step : ∀ b l c, motive b → edge b l c → motive c) : motive x := by
  induction h with
  | nil => exact start
  | cons e _ ih => exact ih (step _ _ _ start e)

end Walk

/-- `x` hangs below `a`, or is `a`. -/
def Below (edge : N → L → N → Prop) (a x : N) : Prop := ∃ ls, Walk edge a ls x

/-- `x` hangs below `a` and is not `a` itself, as long as `a` is on no cycle. -/
def StrictlyBelow (edge : N → L → N → Prop) (a x : N) : Prop := ∃ l b, edge a l b ∧ Below edge b x

theorem below_refl (a : N) : Below edge a a := ⟨[], .nil a⟩

theorem StrictlyBelow.below {a x : N} (h : StrictlyBelow edge a x) : Below edge a x := by
  obtain ⟨l, b, e, ls, w⟩ := h
  exact ⟨l :: ls, .cons e w⟩

theorem below_iff {a x : N} : Below edge a x ↔ x = a ∨ StrictlyBelow edge a x := by
  constructor
  · rintro ⟨ls, w⟩
    cases w with
    | nil => exact .inl rfl
    | cons e w => exact .inr ⟨_, _, e, _, w⟩
  · rintro (rfl | h)
    · exact below_refl x
    · exact h.below

theorem Below.trans_edge {a b c : N} {l : L} (h : Below edge a b) (e : edge b l c) :
    Below edge a c := by
  obtain ⟨ls, w⟩ := h
  exact ⟨ls ++ [l], w.append (.single e)⟩

theorem Below.trans {a b c : N} (h : Below edge a b) (h' : Below edge b c) : Below edge a c := by
  obtain ⟨ls, w⟩ := h
  obtain ⟨ms, w'⟩ := h'
  exact ⟨ls ++ ms, w.append w'⟩

/-- What does not hang below `k` is reached without the edges that lead there. -/
theorem Below.pruned {edge' : N → L → N → Prop} {a k x : N} (h : Below edge a x)
    (hx : ¬ Below edge k x) (hkeep : ∀ b l c, edge b l c → ¬ Below edge k c → edge' b l c) :
    Below edge' a x := by
  obtain ⟨ls, w⟩ := h
  induction w with
  | nil => exact below_refl _
  | cons e w ih =>
      obtain ⟨ms, w'⟩ := ih hx
      exact ⟨_ :: ms, .cons (hkeep _ _ _ e fun hc => hx (hc.trans ⟨_, w⟩)) w'⟩

theorem Below.within {edge' : N → L → N → Prop} {a x : N} (h : Below edge a x)
    (hkeep : ∀ b l c, Below edge a b → edge b l c → edge' b l c) : Below edge' a x := by
  obtain ⟨ls, w⟩ := h
  induction w with
  | nil => exact below_refl _
  | cons e w ih =>
      have hstep : Below edge _ _ := ⟨_, .single e⟩
      obtain ⟨ms, w'⟩ := ih fun b l c hb e' => hkeep b l c (hstep.trans hb) e'
      exact ⟨_ :: ms, .cons (hkeep _ _ _ (below_refl _) e) w'⟩

theorem Walk.length_lt [Fintype N] {a x : N} {ls : List L} (h : Walk edge a ls x)
    (hacyclic : ∀ b, Below edge a b → ¬ StrictlyBelow edge b b) :
    ls.length < Fintype.card N := by
  have visited : ∃ nodes : List N, nodes.Nodup ∧ nodes.length = ls.length + 1 ∧
      ∀ y ∈ nodes, Below edge a y := by
    induction h with
    | nil a =>
        refine ⟨[a], List.nodup_singleton a, rfl, fun y hy => ?_⟩
        rw [List.mem_singleton.mp hy]
        exact below_refl a
    | @cons a b x l ls e w ih =>
        have hstep : Below edge a b := ⟨[l], .single e⟩
        obtain ⟨nodes, hnodup, hlen, hbelow⟩ := ih fun c hc => hacyclic c (hstep.trans hc)
        refine ⟨a :: nodes, List.nodup_cons.mpr ⟨fun ha => ?_, hnodup⟩, by simp [hlen], ?_⟩
        · exact hacyclic a (below_refl a) ⟨l, b, e, hbelow a ha⟩
        · intro y hy
          rcases List.mem_cons.mp hy with rfl | hy
          · exact below_refl y
          · exact hstep.trans (hbelow y hy)
  obtain ⟨nodes, hnodup, hlen, -⟩ := visited
  have := hnodup.length_le_card
  omega

/-- An edge is given by its start and label and by its end, and none enters the root. -/
structure Rooted (edge : N → L → N → Prop) (root : N) : Prop where
  det : ∀ a l b c, edge a l b → edge a l c → b = c
  top : ∀ a l, ¬ edge a l root
  once : ∀ a b l m c, edge a l c → edge b m c → a = b ∧ l = m

namespace Rooted

variable {root : N} (h : Rooted edge root)

include h

theorem below_root {a : N} : Below edge a root → a = root := by
  rintro ⟨ls, w⟩
  induction ls using List.reverseRecOn with
  | nil => exact w.nil_inv
  | append_singleton ls l _ =>
      obtain ⟨b, -, e⟩ := w.snoc_inv
      exact (h.top b l e).elim

theorem unique {x : N} {ls ms : List L} (hl : Walk edge root ls x) (hm : Walk edge root ms x) :
    ls = ms := by
  induction ls using List.reverseRecOn generalizing x ms with
  | nil =>
      obtain rfl := hl.nil_inv
      induction ms using List.reverseRecOn with
      | nil => rfl
      | append_singleton ms m =>
          obtain ⟨b, -, e⟩ := hm.snoc_inv
          exact (h.top b m e).elim
  | append_singleton ls l ih =>
      obtain ⟨b, hb, e⟩ := hl.snoc_inv
      induction ms using List.reverseRecOn with
      | nil =>
          obtain rfl := hm.nil_inv
          exact (h.top b l e).elim
      | append_singleton ms m =>
          obtain ⟨c, hc, e'⟩ := hm.snoc_inv
          obtain ⟨rfl, rfl⟩ := h.once b c l m x e e'
          rw [ih hb hc]

/-- What hangs below different edges of a reached node is different. -/
theorem below_disjoint {a b c x : N} {l m : L} {ws ls ms : List L} (hw : Walk edge root ws a)
    (hb : edge a l b) (hc : edge a m c) (hl : Walk edge b ls x) (hm : Walk edge c ms x) :
    l = m := by
  have := h.unique (hw.append (.cons hb hl)) (hw.append (.cons hc hm))
  have := List.append_cancel_left this
  exact (List.cons.inj this).1

theorem below_irrefl {a b : N} {l : L} {ws ls : List L} (hw : Walk edge root ws a)
    (hb : edge a l b) : ¬ Walk edge b ls a := by
  intro hl
  have := h.unique hw (hw.append (.cons hb hl))
  have := congrArg List.length this
  simp at this

/-- The one edge that leads from outside to what hangs below `c`. -/
theorem entered {a b c x : N} {l m : L} (hc : edge a m c)
    (hx : edge b l x) (hbelow : Below edge c x) (hout : ¬ Below edge c b) : b = a ∧ l = m := by
  obtain ⟨ls, w⟩ := hbelow
  induction ls using List.reverseRecOn with
  | nil =>
      obtain rfl := w.nil_inv
      exact h.once _ _ _ _ _ hx hc
  | append_singleton ls n _ =>
      obtain ⟨b', w, hx'⟩ := w.snoc_inv
      obtain ⟨rfl, -⟩ := h.once _ _ _ _ _ hx hx'
      exact (hout ⟨ls, w⟩).elim

theorem length_lt [Fintype N] {x : N} {ws : List L} (hw : Walk edge root ws x) :
    ws.length < Fintype.card N := by
  refine hw.length_lt ?_
  rintro a ⟨us, hu⟩ ⟨l, b, e, ls, hl⟩
  exact h.below_irrefl hu e hl

/-- One edge is moved, and not to below its own end: every node is still reached. -/
theorem moved {edge' : N → L → N → Prop} {a b c : N} {l m : L} (ha : Below edge root a)
    (hc : edge a l c) (hkeep : ∀ x n y, edge x n y → ¬ (x = a ∧ n = l) → edge' x n y)
    (hb : Below edge root b) (hc' : edge' b m c) (hout : ¬ Below edge c b) {x : N}
    (hx : Below edge root x) : Below edge' root x := by
  have outside : ∀ {y}, Below edge root y → ¬ Below edge c y → Below edge' root y :=
    fun hy hyc => hy.pruned hyc fun x n y e hyc => hkeep x n y e fun heq => by
      obtain ⟨rfl, rfl⟩ := heq
      exact hyc (h.det _ _ _ _ hc e ▸ below_refl _)
  by_cases hcx : Below edge c x
  · have hcx' : Below edge' c x := hcx.within fun y n z hy e => hkeep y n z e fun heq => by
      obtain ⟨rfl, -⟩ := heq
      obtain ⟨ws, hw⟩ := ha
      obtain ⟨ls, hl⟩ := hy
      exact h.below_irrefl hw hc hl
    exact ((outside hb hout).trans_edge hc').trans hcx'
  · exact outside hx hcx

end Rooted

end Walk
