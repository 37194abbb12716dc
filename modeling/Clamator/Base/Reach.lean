import Mathlib.Data.List.Basic
import Mathlib.Data.List.Induction

/-!
# Transition systems

States reachable from an initial state by labelled steps, runs as lists of
labels, and the induction rules: an invariant of the steps holds in every
reachable state, and a run whose steps all meet a guard keeps what guarded
steps keep.
-/

namespace Clamator.Base

variable {σ α : Type}

inductive Reachable (init : σ → Prop) (step : σ → σ → Prop) : σ → Prop
  | start {s : σ} : init s → Reachable init step s
  | next {s t : σ} : Reachable init step s → step s t → Reachable init step t

theorem Reachable.invariant {init : σ → Prop} {step : σ → σ → Prop} {I : σ → Prop}
    (hi : ∀ s, init s → I s) (hs : ∀ s t, I s → step s t → I t) {s : σ}
    (h : Reachable init step s) : I s := by
  induction h with
  | start h0 => exact hi _ h0
  | next _ hst ih => exact hs _ _ ih hst

def run (step : α → σ → Option σ) : List α → σ → Option σ
  | [],s => some s
  | a::as,s => (step a s).bind (run step as)

theorem Reachable.run {init : σ → Prop} {step : α → σ → Option σ} (as : List α) (s t : σ)
    (h : Reachable init (fun s t => ∃ a, step a s=some t) s) (hr : run step as s=some t) :
    Reachable init (fun s t => ∃ a, step a s=some t) t := by
  induction as generalizing s with
  | nil =>
    cases hr
    exact h
  | cons a as ih =>
    obtain ⟨u,hu,hr⟩ := Option.bind_eq_some_iff.mp hr
    exact ih u (h.next ⟨a,hu⟩) hr

theorem run_append (step : α → σ → Option σ) (before after : List α) (s t : σ)
    (h : run step before s=some t) : run step (before++after) s=run step after t := by
  induction before generalizing s with
  | nil =>
    cases h
    rfl
  | cons a before ih =>
    obtain ⟨u,hu,hr⟩ := Option.bind_eq_some_iff.mp h
    simp only [List.cons_append,Clamator.Base.run,hu,Option.bind_some]
    exact ih u hr

/-- The states a run of an executable step function goes through, its start
included; the run ends early at a step that is not enabled. -/
def states (step : α → σ → Option σ) : List α → σ → List σ
  | [],s => [s]
  | a::as,s => s::match step a s with
    | none => []
    | some t => states step as t

theorem run_mem_states (step : α → σ → Option σ) (as : List α) (s t : σ) (h : run step as s=some t) :
    t∈states step as s := by
  induction as generalizing s with
  | nil =>
    cases h
    exact List.mem_singleton.mpr rfl
  | cons a as ih =>
    obtain ⟨u,hu,hr⟩ := Option.bind_eq_some_iff.mp h
    simp only [states,hu]
    exact List.mem_cons_of_mem _ (ih u hr)

/-- Every step that the run takes meets the guard in the state it is taken from. -/
def Guarded (step : α → σ → Option σ) (guard : α → σ → Prop) : List α → σ → Prop
  | [],_ => True
  | a::as,s => match step a s with
    | none => True
    | some t => guard a s ∧ Guarded step guard as t

theorem Reachable.guarded {init : σ → Prop} {step : α → σ → Option σ} {guard : α → σ → Prop}
    (as : List α) (s t : σ) (h : Reachable init (fun s t => ∃ a, guard a s ∧ step a s=some t) s)
    (hg : Guarded step guard as s) (hr : Clamator.Base.run step as s=some t) :
    Reachable init (fun s t => ∃ a, guard a s ∧ step a s=some t) t := by
  induction as generalizing s with
  | nil =>
    cases hr
    exact h
  | cons a as ih =>
    obtain ⟨u,hu,hr⟩ := Option.bind_eq_some_iff.mp hr
    simp only [Guarded,hu] at hg
    exact ih u (h.next ⟨a,hg.1,hu⟩) hg.2 hr

/- Two guards that agree wherever the invariant holds guard the same runs, where one of
them keeps the invariant. -/
theorem guarded_congr {step : α → σ → Option σ} {P Q : α → σ → Prop} {I : σ → Prop}
    (hpq : ∀ a s, I s → (P a s ↔ Q a s)) (hs : ∀ a s t, I s → Q a s → step a s=some t → I t)
    (as : List α) (s : σ) (h0 : I s) : Guarded step P as s ↔ Guarded step Q as s := by
  induction as generalizing s with
  | nil => exact Iff.rfl
  | cons a as ih =>
    cases hstep : step a s with
    | none => simp only [Guarded,hstep]
    | some t =>
      simp only [Guarded,hstep,hpq a s h0]
      exact and_congr_right fun hq => ih t (hs a s t h0 hq hstep)

theorem guarded_iff {step : α → σ → Option σ} {guard : α → σ → Prop} (as : List α) (s : σ) :
    Guarded step guard as s ↔ ∀ before a after t u, as=before++a::after →
      run step before s=some t → step a t=some u → guard a t := by
  induction as generalizing s with
  | nil => simp [Guarded]
  | cons a as ih =>
    constructor
    · intro hg before b after t u hsplit hrun hstep
      cases before with
      | nil =>
        cases hsplit
        cases hrun
        simp only [Guarded,hstep] at hg
        exact hg.1
      | cons c before =>
        obtain ⟨rfl,htail⟩ := List.cons.inj hsplit
        obtain ⟨v,hv,hrun⟩ := Option.bind_eq_some_iff.mp hrun
        simp only [Guarded,hv] at hg
        exact (ih v).mp hg.2 before b after t u htail hrun hstep
    · intro h
      cases hstep : step a s with
      | none => simp only [Guarded,hstep]
      | some v =>
        simp only [Guarded,hstep]
        refine ⟨h [] a as s v rfl rfl hstep,(ih v).mpr fun before b after t u hsplit hrun => ?_⟩
        refine h (a::before) b after t u (by rw [hsplit]; rfl) ?_
        simp only [run,hstep,Option.bind_some,hrun]

theorem guarded_append {step : α → σ → Option σ} {guard : α → σ → Prop} (before after : List α)
    (s t : σ) (hr : run step before s=some t) : Guarded step guard (before++after) s ↔
      Guarded step guard before s ∧ Guarded step guard after t := by
  induction before generalizing s with
  | nil =>
    cases hr
    simp [Guarded]
  | cons a before ih =>
    obtain ⟨u,hu,hr⟩ := Option.bind_eq_some_iff.mp hr
    simp only [List.cons_append,Guarded,hu,ih u hr,and_assoc]

instance Guarded.decidable (step : α → σ → Option σ) (guard : α → σ → Prop)
    [hd : ∀ a s, Decidable (guard a s)] : ∀ as s, Decidable (Guarded step guard as s)
  | [],_ => .isTrue trivial
  | a::as,s => match h : step a s with
    | none => .isTrue (by simp [Guarded,h])
    | some t =>
      have := Guarded.decidable step guard as t
      decidable_of_iff (guard a s ∧ Guarded step guard as t) (by simp [Guarded,h])

theorem states_invariant {step : α → σ → Option σ} {guard : α → σ → Prop} {I : σ → Prop}
    (hs : ∀ a s t, I s → guard a s → step a s=some t → I t) (as : List α) (s : σ)
    (h0 : I s) (hg : Guarded step guard as s) : ∀ t∈states step as s, I t := by
  induction as generalizing s with
  | nil =>
    intro t ht
    rw [List.mem_singleton.mp ht]
    exact h0
  | cons a as ih =>
    intro t ht
    rcases List.mem_cons.mp ht with rfl | ht
    · exact h0
    · cases hstep : step a s with
      | none => simp [hstep] at ht
      | some u =>
        simp only [hstep] at ht
        simp only [Guarded,hstep] at hg
        exact ih u (hs a s u h0 hg.1 hstep) hg.2 t ht

/- Where a step keeps the property exactly when it meets the guard, the property holds all
along a run exactly when all its steps meet the guard. -/
theorem states_iff_guarded {step : α → σ → Option σ} {domain guard : α → σ → Prop} {I P : σ → Prop}
    (hp : ∀ a s t, I s → domain a s → step a s=some t → (P t ↔ guard a s))
    (hi : ∀ a s t, I s → domain a s → guard a s → step a s=some t → I t) (as : List α) (s : σ)
    (h0 : I s) (hs : P s) (hd : Guarded step domain as s) :
    (∀ t∈states step as s, P t) ↔ Guarded step guard as s := by
  induction as generalizing s with
  | nil => simp [states,Guarded,hs]
  | cons a as ih =>
    cases hstep : step a s with
    | none => simp [states,Guarded,hstep,hs]
    | some u =>
      simp only [Guarded,hstep] at hd
      simp only [states,Guarded,hstep,List.forall_mem_cons]
      have hu := hp a s u h0 hd.1 hstep
      constructor
      · intro h
        have hmem : u∈states step as u := by
          cases as <;> simp [states]
        have hg := hu.mp (h.2 u hmem)
        exact ⟨hg,(ih u (hi a s u h0 hd.1 hg hstep) (hu.mpr hg) hd.2).mp h.2⟩
      · intro h
        exact ⟨hs,(ih u (hi a s u h0 hd.1 h.1 hstep) (hu.mpr h.1) hd.2).mpr h.2⟩

theorem run_concat (step : α → σ → Option σ) (as : List α) (a : α) (s : σ) :
    run step (as++[a]) s=(run step as s).bind (step a) := by
  induction as generalizing s with
  | nil =>
    simp only [List.nil_append,run,Option.bind_some]
    cases step a s <;> rfl
  | cons b as ih =>
    simp only [List.cons_append,run]
    cases step b s with
    | none => rfl
    | some t => exact ih t

/-- The induction over runs that sees the steps taken so far. -/
theorem run_induction {step : α → σ → Option σ} {guard : α → σ → Prop} {I : List α → σ → Prop} {s : σ}
    (h0 : I [] s) (hs : ∀ before a t u, run step before s=some t → I before t → guard a t →
      step a t=some u → I (before++[a]) u) (as : List α) (t : σ) (hg : Guarded step guard as s)
    (hr : run step as s=some t) : I as t := by
  induction as using List.reverseRecOn generalizing t with
  | nil =>
    cases hr
    exact h0
  | append_singleton before a ih =>
    rw [run_concat] at hr
    obtain ⟨u,hu,hstep⟩ := Option.bind_eq_some_iff.mp hr
    obtain ⟨hbefore,ha⟩ := (guarded_append before [a] s u hu).mp hg
    simp only [Guarded,hstep] at ha
    exact hs before a u t hu (ih u hbefore hu) ha.1 hstep

theorem guarded_true {step : α → σ → Option σ} (as : List α) (s : σ) :
    Guarded step (fun _ _ => True) as s :=
  (guarded_iff as s).mpr fun _ _ _ _ _ _ _ _ => trivial

/- Each counted step lowers the rank, and no other step raises it. -/
theorem run_countP_le {step : α → σ → Option σ} (counted : α → Bool) (rank : σ → ℕ) (I : σ → Prop)
    (hs : ∀ a s t, I s → step a s=some t → I t ∧ (if counted a then 1 else 0)+rank t ≤ rank s)
    (as : List α) (s t : σ) (h0 : I s) (hr : run step as s=some t) :
    I t ∧ as.countP counted+rank t ≤ rank s := by
  induction as generalizing s with
  | nil =>
    cases hr
    exact ⟨h0,by simp⟩
  | cons a as ih =>
    obtain ⟨u,hu,hr⟩ := Option.bind_eq_some_iff.mp hr
    obtain ⟨hI,hrank⟩ := hs a s u h0 hu
    obtain ⟨hend,hcount⟩ := ih u hI hr
    rw [List.countP_cons]
    exact ⟨hend,by omega⟩

/-- Some run of allowed steps leads from one state to the other. -/
def Leads (step : α → σ → Option σ) (allowed : α → Prop) (s t : σ) : Prop :=
  ∃ as, (∀ a∈as, allowed a) ∧ run step as s=some t

section

variable {step : α → σ → Option σ} {allowed : α → Prop} {s t u : σ}

theorem Leads.refl (s : σ) : Leads step allowed s s := ⟨[],by simp,rfl⟩

theorem Leads.single {a : α} (ha : allowed a) (h : step a s=some t) : Leads step allowed s t := by
  refine ⟨[a],by simpa using ha,?_⟩
  simp only [run,h,Option.bind_some]

/- What allowed steps keep holds at the end. -/
theorem Leads.invariant {I : σ → Prop} (hs : ∀ a s t, allowed a → I s → step a s=some t → I t)
    (h : Leads step allowed s t) (h0 : I s) : I t := by
  obtain ⟨as,hallowed,hrun⟩ := h
  induction as generalizing s with
  | nil =>
    cases hrun
    exact h0
  | cons a as ih =>
    obtain ⟨u,hu,hrun⟩ := Option.bind_eq_some_iff.mp hrun
    have ha := hallowed a List.mem_cons_self
    exact ih (hs a s u ha h0 hu) (fun b hb => hallowed b (List.mem_cons_of_mem _ hb)) hrun

/- The same run in another system that has its steps. -/
theorem Leads.mono {step' : α → σ → Option σ} {allowed' : α → Prop}
    (hs : ∀ a s t, allowed a → step a s=some t → allowed' a ∧ step' a s=some t)
    (h : Leads step allowed s t) : Leads step' allowed' s t := by
  obtain ⟨as,hallowed,hrun⟩ := h
  induction as generalizing s with
  | nil => exact ⟨[],by simp,hrun⟩
  | cons a as ih =>
    obtain ⟨u,hu,hrun⟩ := Option.bind_eq_some_iff.mp hrun
    obtain ⟨ha,hstep⟩ := hs a s u (hallowed a List.mem_cons_self) hu
    obtain ⟨bs,hbs,hrun'⟩ := ih (fun b hb => hallowed b (List.mem_cons_of_mem _ hb)) hrun
    refine ⟨a::bs,fun b hb => ?_,?_⟩
    · rcases List.mem_cons.mp hb with rfl | hb
      · exact ha
      · exact hbs b hb
    · simp only [run,hstep,Option.bind_some,hrun']

theorem Leads.trans (h : Leads step allowed s t) (h' : Leads step allowed t u) :
    Leads step allowed s u := by
  obtain ⟨before,hbefore,hrun⟩ := h
  obtain ⟨after,hafter,hrun'⟩ := h'
  refine ⟨before++after,fun a ha => ?_,(run_append step before after s t hrun).trans hrun'⟩
  rcases List.mem_append.mp ha with ha | ha
  · exact hbefore a ha
  · exact hafter a ha

end

end Clamator.Base
