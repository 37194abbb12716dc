import Mathlib.Data.List.Perm.Subperm
import Clamator.Base.Reach

/-!
# What a run gives out

A system that makes things, holds some of them and gives some out. Where no step gives out or
comes to hold more than it had or made, a run gives each thing out at most as often as it was
made; where nothing gets lost either, exactly as often once nothing is held.
-/

namespace Clamator.Base

variable {σ α β : Type}

/-- What the steps of a run give out; the run ends at a step that is not enabled. -/
def given (step : α → σ → Option σ) (gives : α → σ → Option β) : List α → σ → List β
  | [],_ => []
  | a::as,s => match step a s with
    | none => []
    | some t => (gives a s).toList++given step gives as t

section

variable {step : α → σ → Option σ} {gives : α → σ → Option β}

theorem given_append (before after : List α) (s t : σ) (h : run step before s=some t) :
    given step gives (before++after) s=given step gives before s++given step gives after t := by
  induction before generalizing s with
  | nil =>
    cases h
    rfl
  | cons a before ih =>
    obtain ⟨u,hu,hrun⟩ := Option.bind_eq_some_iff.mp h
    simp only [List.cons_append,given,hu]
    rw [ih u hrun,List.append_assoc]

theorem given_concat (as : List α) (a : α) (s t u : σ) (h : run step as s=some t)
    (ha : step a t=some u) :
    given step gives (as++[a]) s=given step gives as s++(gives a t).toList := by
  rw [given_append as [a] s t h]
  simp only [given,ha,List.append_nil]

end

section

variable [DecidableEq β] {step : α → σ → Option σ} {gives : α → σ → Option β}
  {guard : α → σ → Prop} {made : σ → List β} {held : σ → β → ℕ}

theorem given_count_le (hs : ∀ a s t, step a s=some t → ∀ x,
      (gives a s).toList.count x+held t x+(made s).count x ≤ held s x+(made t).count x)
    (as : List α) (s t : σ) (hr : run step as s=some t) (x : β) :
    (given step gives as s).count x+held t x+(made s).count x ≤ held s x+(made t).count x := by
  induction as generalizing s with
  | nil =>
    cases hr
    simp [given]
  | cons a as ih =>
    obtain ⟨u,hu,hr⟩ := Option.bind_eq_some_iff.mp hr
    have hstep := hs a s u hu x
    have hrest := ih u hr
    simp only [given,hu,List.count_append]
    omega

theorem given_count_eq (hs : ∀ a s t, guard a s → step a s=some t → ∀ x,
      (gives a s).toList.count x+held t x+(made s).count x=held s x+(made t).count x)
    (as : List α) (s t : σ) (hg : Guarded step guard as s) (hr : run step as s=some t) (x : β) :
    (given step gives as s).count x+held t x+(made s).count x=held s x+(made t).count x := by
  induction as generalizing s with
  | nil =>
    cases hr
    simp [given]
  | cons a as ih =>
    obtain ⟨u,hu,hr⟩ := Option.bind_eq_some_iff.mp hr
    simp only [Guarded,hu] at hg
    have hstep := hs a s u hg.1 hu x
    have hrest := ih u hg.2 hr
    simp only [given,hu,List.count_append]
    omega

theorem given_subperm (hs : ∀ a s t, step a s=some t → ∀ x,
      (gives a s).toList.count x+held t x+(made s).count x ≤ held s x+(made t).count x)
    (as : List α) (s t : σ) (hr : run step as s=some t) (h0 : ∀ x, held s x=0) :
    (given step gives as s).Subperm (made t) := by
  apply List.subperm_ext_iff.mpr
  intro x _
  have hcount := given_count_le hs as s t hr x
  have hheld := h0 x
  omega

theorem given_perm (hs : ∀ a s t, guard a s → step a s=some t → ∀ x,
      (gives a s).toList.count x+held t x+(made s).count x=held s x+(made t).count x)
    (as : List α) (s t : σ) (hg : Guarded step guard as s) (hr : run step as s=some t)
    (h0 : ∀ x, held s x=0) (hmade : made s=[]) (hheld : ∀ x, held t x=0) :
    (given step gives as s).Perm (made t) := by
  apply List.perm_iff_count.mpr
  intro x
  have hcount := given_count_eq hs as s t hg hr x
  rw [h0,hheld,hmade,List.count_nil] at hcount
  omega

end

end Clamator.Base
