import Clamator.Lifecycle.Core

/-!
# Overlapping calls of start and stop (`server-core.ts`, `client-core.ts`, and in Python)

Every await of `start` and `stop` is a point where another call can run. `start` looks at the
state before its awaits and sets it after them, so a `stop` that comes in between is undone,
and a second `start` goes through the transport again.
-/

namespace Clamator.Lifecycle
open Clamator.Base

/-- Where a call stands: `registering` at the registration of the first of the services left,
`starting` and `stopping` at the transport's start and stop, which have taken effect or
not. -/
inductive CallPc where
  | registering (services : List String)
  | starting (effective : Bool)
  | draining
  | stopping (effective : Bool)
  | done

def CallPc.InStart : CallPc → Prop
  | .registering _ => True
  | .starting _ => True
  | _ => False

def CallPc.InStop : CallPc → Prop
  | .draining => True
  | .stopping _ => True
  | _ => False

/-- A core of a server, or of a client, which registers no services. `running` is whether its
transport runs, `stopReturned` whether a call of `stop` has returned. -/
structure SharedCore where
  services : List String
  state : LifeState
  running : Bool
  calls : List CallPc
  stopReturned : Bool

inductive OverlapAct where
  | start
  | stop
  /-- A registration ends. -/
  | registered (i : ℕ) (ok : Bool)
  | startEffect (i : ℕ)
  /-- The transport's start ends. -/
  | started (i : ℕ) (ok : Bool)
  /-- The wait for the handlers ends; a client has none. -/
  | drained (i : ℕ)
  | stopEffect (i : ℕ)
  /-- The transport's stop ends. -/
  | stopped (i : ℕ) (ok : Bool)

namespace SharedCore

def setCall (w : SharedCore) (i : ℕ) (pc : CallPc) : SharedCore := { w with calls := w.calls.set i pc }

def register : List String → CallPc
  | [] => .starting false
  | services => .registering services

def step (a : OverlapAct) (w : SharedCore) : Option SharedCore := match a with
  | .start => match w.state with
    | .started => some w
    | .stopped => some w
    | .idle => some { w with calls := w.calls++[register w.services] }
  | .stop => match w.state with
    | .started => some { w with calls := w.calls++[.draining] }
    | _ => some { w with state := .stopped,stopReturned := true }
  | .registered i ok => match w.calls[i]? with
    | some (.registering services) => some (w.setCall i (if ok then register services.tail else .done))
    | _ => none
  | .startEffect i => match w.calls[i]? with
    | some (.starting false) => some { w.setCall i (.starting true) with running := true }
    | _ => none
  | .started i ok => match w.calls[i]?,ok with
    | some (.starting _),false => some (w.setCall i .done)
    | some (.starting true),true => some { w.setCall i .done with state := .started }
    | _,_ => none
  | .drained i => match w.calls[i]? with
    | some .draining => some (w.setCall i (.stopping false))
    | _ => none
  | .stopEffect i => match w.calls[i]? with
    | some (.stopping false) => some { w.setCall i (.stopping true) with running := false }
    | _ => none
  | .stopped i ok => match w.calls[i]?,ok with
    | some (.stopping _),false => some (w.setCall i .done)
    | some (.stopping true),true =>
      some { w.setCall i .done with state := .stopped,stopReturned := true }
    | _,_ => none

def Once (w : SharedCore) : Prop := ∀ (i j : ℕ) (pc pc' : CallPc), w.calls[i]?=some pc →
  w.calls[j]?=some pc' → pc.InStart → pc'.InStart → i=j

/-- Once a `stop` has returned, the core is stopped and its transport does not run. -/
structure Final (w : SharedCore) : Prop where
  stopped : w.stopReturned=true → w.state=.stopped ∧ w.running=false
  once : w.Once

def NoStart (w : SharedCore) : Prop := ∀ pc∈w.calls, ¬pc.InStart

/-- While a `start` is under way, neither `stop` is called nor another `start` that passes
the check of the state; and a transport's start that throws has not taken effect. -/
def Exclusive : OverlapAct → SharedCore → Prop
  | .start,w => w.state=.idle → w.NoStart
  | .stop,w => w.NoStart
  | .started i false,w => w.calls[i]?≠some (.starting true)
  | _,_ => True

/-! ### Every step -/

structure Sequential (w : SharedCore) : Prop where
  once : w.Once
  noStart : w.state≠.idle → w.NoStart
  noStop : w.state=.idle → ∀ pc∈w.calls, ¬pc.InStop
  unstopped : w.state≠.stopped → w.stopReturned=false
  silent : w.state=.stopped → w.running=false
  starting : w.state=.idle → w.running=true → .starting true∈w.calls
  stopping : .stopping true∈w.calls → w.running=false

end SharedCore

open SharedCore

theorem SharedCore.Sequential.final {w : SharedCore} (hw : w.Sequential) : w.Final := by
  refine ⟨fun hs => ?_,hw.once⟩
  have hstate : w.state=.stopped := by
    by_contra h
    rw [hw.unstopped h] at hs
    cases hs
  exact ⟨hstate,hw.silent hstate⟩

theorem inStart_set (calls : List CallPc) (i : ℕ) (old new : CallPc) (hold : calls[i]?=some old)
    (h : new.InStart → old.InStart) (j : ℕ) (pc : CallPc) (hj : (calls.set i new)[j]?=some pc)
    (hpc : pc.InStart) : ∃ pc', calls[j]?=some pc' ∧ pc'.InStart := by
  rw [List.getElem?_set] at hj
  split at hj
  · rename_i hij
    subst hij
    split at hj
    · cases hj
      exact ⟨old,hold,h hpc⟩
    · cases hj
  · exact ⟨pc,hj,hpc⟩

theorem once_set (w w' : SharedCore) (i : ℕ) (old new : CallPc) (hold : w.calls[i]?=some old)
    (hcalls : w'.calls=w.calls.set i new) (h : new.InStart → old.InStart) (hw : w.Once) : w'.Once := by
  intro j k pc pc' hj hk hpc hpc'
  rw [hcalls] at hj hk
  obtain ⟨pc1,hj1,h1⟩ := inStart_set w.calls i old new hold h j pc hj hpc
  obtain ⟨pc2,hk2,h2⟩ := inStart_set w.calls i old new hold h k pc' hk hpc'
  exact hw j k pc1 pc2 hj1 hk2 h1 h2

theorem noStart_set (w : SharedCore) (i : ℕ) (old new : CallPc) (hold : w.calls[i]?=some old)
    (hin : old.InStart) (hnew : ¬new.InStart) (hw : w.Once) : ∀ pc∈w.calls.set i new, ¬pc.InStart := by
  intro pc hpc hs
  obtain ⟨j,hj⟩ := List.mem_iff_getElem?.mp hpc
  rw [List.getElem?_set] at hj
  split at hj
  · split at hj
    · cases hj
      exact hnew hs
    · cases hj
  · rename_i hij
    exact hij (hw i j old pc hold hj hin hs)

theorem register_ne (services : List String) : register services≠.starting true ∧
    ¬(register services).InStop := by
  cases services <;> simp [register,CallPc.InStop]

theorem getElem?_concat (calls : List CallPc) (new : CallPc) (i : ℕ) (pc : CallPc)
    (h : (calls++[new])[i]?=some pc) : calls[i]?=some pc ∨ (i=calls.length ∧ pc=new) := by
  rw [List.getElem?_append] at h
  split at h
  · exact .inl h
  · rename_i hlt
    rw [List.getElem?_singleton] at h
    split at h
    · cases h
      exact .inr ⟨by omega,rfl⟩
    · cases h

theorem sequential_start (w w' : SharedCore) (hw : w.Sequential) (hg : Exclusive .start w)
    (h : step .start w=some w') : w'.Sequential := by
  simp only [step] at h
  split at h
  · cases h
    exact hw
  · cases h
    exact hw
  · rename_i hidle
    cases h
    have hno := hg hidle
    have hrunning : w.running=false := by
      by_contra hr
      simp only [Bool.not_eq_false] at hr
      exact hno _ (hw.starting hidle hr) trivial
    refine ⟨?_,fun hs => (hs hidle).elim,fun _ pc hpc => ?_,fun hs => hw.unstopped hs,fun _ => hrunning,
      fun _ hr => ?_,fun _ => hrunning⟩
    · have hlast : ∀ (i : ℕ) (pc : CallPc), (w.calls++[register w.services])[i]?=some pc →
          pc.InStart → i=w.calls.length := by
        intro i pc hi hpc
        rcases getElem?_concat w.calls _ i pc hi with hi | ⟨hi,-⟩
        · exact (hno pc (List.mem_of_getElem? hi) hpc).elim
        · exact hi
      intro i j pc pc' hi hj hpc hpc'
      rw [hlast i pc hi hpc,hlast j pc' hj hpc']
    · rcases List.mem_append.mp hpc with hpc | hpc
      · exact hw.noStop hidle pc hpc
      · rw [List.mem_singleton.mp hpc]
        exact (register_ne w.services).2
    · rw [hrunning] at hr
      cases hr

theorem sequential_stop (w w' : SharedCore) (hw : w.Sequential) (hno : w.NoStart)
    (h : step .stop w=some w') : w'.Sequential := by
  have hrunning : w.state≠.started → w.running=false := by
    intro hs
    cases hstate : w.state with
    | started => exact (hs hstate).elim
    | stopped => exact hw.silent hstate
    | idle =>
      by_contra hr
      simp only [Bool.not_eq_false] at hr
      exact hno _ (hw.starting hstate hr) trivial
  simp only [step] at h
  split at h
  · rename_i hstarted
    cases h
    have hin : ∀ pc∈w.calls++[.draining], pc∈w.calls ∨ pc=.draining := by
      intro pc hpc
      rcases List.mem_append.mp hpc with hpc | hpc
      · exact .inl hpc
      · exact .inr (List.mem_singleton.mp hpc)
    have hno' : ∀ pc∈w.calls++[CallPc.draining], ¬pc.InStart := by
      intro pc hpc
      rcases hin pc hpc with hpc | rfl
      · exact hno pc hpc
      · exact not_false
    refine ⟨fun i j pc pc' hi _ hpc _ => (hno' pc (List.mem_of_getElem? hi) hpc).elim,fun _ => hno',
      fun hidle => ?_,hw.unstopped,hw.silent,fun hidle => ?_,fun hstopping => ?_⟩
    · exact absurd (hidle.symm.trans hstarted) (by simp)
    · exact absurd (hidle.symm.trans hstarted) (by simp)
    · rcases hin _ hstopping with hpc | hpc
      · exact hw.stopping hpc
      · cases hpc
  · rename_i hstate
    cases h
    exact ⟨hw.once,fun _ => hno,(fun hs => by cases hs),fun hs => (hs rfl).elim,
      fun _ => hrunning hstate,(fun hs => by cases hs),fun _ => hrunning hstate⟩

theorem SharedCore.Sequential.idle {w : SharedCore} (hw : w.Sequential) (i : ℕ) (pc : CallPc)
    (hpc : w.calls[i]?=some pc) (hin : pc.InStart) : w.state=.idle := by
  by_contra hs
  exact hw.noStart hs pc (List.mem_of_getElem? hpc) hin

theorem SharedCore.Sequential.goesOn {w : SharedCore} (hw : w.Sequential) (i : ℕ) (old new : CallPc)
    (hold : w.calls[i]?=some old) (hin : old.InStart) (hne : old≠.starting true)
    (hstop : ¬new.InStop) (hnew : new≠.starting true) : (w.setCall i new).Sequential := by
  have hidle := hw.idle i old hold hin
  have hmem : ∀ pc∈w.calls.set i new, pc∈w.calls ∨ pc=new := fun pc hpc => List.mem_or_eq_of_mem_set hpc
  refine ⟨once_set w _ i old new hold rfl (fun _ => hin) hw.once,fun hs => (hs hidle).elim,
    fun _ pc hpc => ?_,hw.unstopped,hw.silent,fun _ hr => ?_,fun hs => ?_⟩
  · rcases hmem pc hpc with hpc | rfl
    · exact hw.noStop hidle pc hpc
    · exact hstop
  · obtain ⟨j,hj⟩ := List.mem_iff_getElem?.mp (hw.starting hidle hr)
    have hij : i≠j := by
      rintro rfl
      rw [hold] at hj
      exact hne (Option.some.inj hj)
    exact List.mem_iff_getElem?.mpr ⟨j,by
      show (w.calls.set i new)[j]?=_
      rw [List.getElem?_set_ne hij]
      exact hj⟩
  · rcases hmem _ hs with hs | hs
    · exact hw.stopping hs
    · subst hs
      exact (hstop trivial).elim

theorem sequential_startEffect (w w' : SharedCore) (i : ℕ) (hw : w.Sequential)
    (h : step (.startEffect i) w=some w') : w'.Sequential := by
  simp only [step] at h
  split at h
  · rename_i hold
    cases h
    have hidle := hw.idle i _ hold trivial
    have hlt := (List.getElem?_eq_some_iff.mp hold).1
    have hmem : ∀ pc∈w.calls.set i (.starting true), pc∈w.calls ∨ pc=.starting true :=
      fun pc hpc => List.mem_or_eq_of_mem_set hpc
    refine ⟨once_set w _ i _ _ hold rfl (fun _ => trivial) hw.once,fun hs => (hs hidle).elim,
      fun _ pc hpc => ?_,hw.unstopped,fun hs => absurd (hidle.symm.trans hs) (by simp),
      fun _ _ => List.mem_set hlt _,fun hs => ?_⟩
    · rcases hmem pc hpc with hpc | rfl
      · exact hw.noStop hidle pc hpc
      · exact not_false
    · rcases hmem _ hs with hs | hs
      · exact (hw.noStop hidle _ hs trivial).elim
      · cases hs
  · cases h

theorem sequential_started (w w' : SharedCore) (i : ℕ) (ok : Bool) (hw : w.Sequential)
    (hg : Exclusive (.started i ok) w) (h : step (.started i ok) w=some w') : w'.Sequential := by
  simp only [step] at h
  split at h
  · rename_i effective hold
    cases h
    refine hw.goesOn i _ .done hold trivial (fun heq => hg ?_) not_false (by simp)
    rw [hold,heq]
  · rename_i hold
    cases h
    have hidle := hw.idle i _ hold trivial
    have hmem : ∀ pc∈w.calls.set i .done, pc∈w.calls ∨ pc=.done :=
      fun pc hpc => List.mem_or_eq_of_mem_set hpc
    refine ⟨once_set w _ i _ _ hold rfl (fun _ => trivial) hw.once,
      fun _ => noStart_set w i _ _ hold trivial not_false hw.once,(fun hs => by cases hs),
      fun _ => hw.unstopped (by simp [hidle]),(fun hs => by cases hs),(fun hs => by cases hs),fun hs => ?_⟩
    rcases hmem _ hs with hs | hs
    · exact (hw.noStop hidle _ hs trivial).elim
    · cases hs
  · cases h

theorem SharedCore.Sequential.stops {w w' : SharedCore} (hw : w.Sequential) (i : ℕ) (old new : CallPc)
    (hold : w.calls[i]?=some old) (hin : old.InStop) (hcalls : w'.calls=w.calls.set i new)
    (hnew : ¬new.InStart) (hrunning : w'.running=w.running ∨ w'.running=false)
    (hstate : (w'.state=w.state ∧ w'.stopReturned=w.stopReturned) ∨
      (w'.state=.stopped ∧ w'.running=false))
    (hstop : new=.stopping true → w'.running=false) : w'.Sequential := by
  have hbusy : w.state≠.idle := fun hs => hw.noStop hs old (List.mem_of_getElem? hold) hin
  have hbusy' : w'.state≠.idle := by
    rcases hstate with ⟨hs,-⟩ | ⟨hs,-⟩
    · rwa [hs]
    · simp [hs]
  have hmem : ∀ pc∈w.calls.set i new, pc∈w.calls ∨ pc=new := fun pc hpc => List.mem_or_eq_of_mem_set hpc
  have hquiet : w.running=false → w'.running=false := by
    intro hr
    rcases hrunning with h | h
    · rw [h,hr]
    · exact h
  refine ⟨once_set w w' i old new hold hcalls (fun h => (hnew h).elim) hw.once,fun _ => ?_,
    fun hs => (hbusy' hs).elim,fun hs => ?_,fun hs => ?_,fun hs => (hbusy' hs).elim,fun hs => ?_⟩
  · rw [NoStart,hcalls]
    intro pc hpc
    rcases hmem pc hpc with hpc | rfl
    · exact hw.noStart hbusy pc hpc
    · exact hnew
  · rcases hstate with ⟨hs',hr⟩ | ⟨hs',-⟩
    · rw [hr]
      exact hw.unstopped (hs' ▸ hs)
    · exact (hs hs').elim
  · rcases hstate with ⟨hs',-⟩ | ⟨-,hr⟩
    · exact hquiet (hw.silent (hs' ▸ hs))
    · exact hr
  · rw [hcalls] at hs
    rcases hmem _ hs with hs | hs
    · exact hquiet (hw.stopping hs)
    · exact hstop hs.symm

theorem sequential_step (a : OverlapAct) (w w' : SharedCore) (hw : w.Sequential) (hg : Exclusive a w)
    (h : step a w=some w') : w'.Sequential := by
  cases a with
  | start => exact sequential_start w w' hw hg h
  | stop => exact sequential_stop w w' hw hg h
  | registered i ok =>
    simp only [step] at h
    split at h
    · rename_i services hold
      cases h
      cases ok with
      | false => exact hw.goesOn i _ .done hold trivial (by simp) not_false (by simp)
      | true =>
        have hr := register_ne services.tail
        exact hw.goesOn i _ (register services.tail) hold trivial (by simp) hr.2 hr.1
    · cases h
  | startEffect i => exact sequential_startEffect w w' i hw h
  | started i ok => exact sequential_started w w' i ok hw hg h
  | drained i =>
    simp only [step] at h
    split at h
    · rename_i hold
      cases h
      exact hw.stops i _ (.stopping false) hold trivial rfl not_false (.inl rfl) (.inl ⟨rfl,rfl⟩) (by simp)
    · cases h
  | stopEffect i =>
    simp only [step] at h
    split at h
    · rename_i hold
      cases h
      exact hw.stops i _ (.stopping true) hold trivial rfl not_false (.inr rfl) (.inl ⟨rfl,rfl⟩)
        (fun _ => rfl)
    · cases h
  | stopped i ok =>
    simp only [step] at h
    split at h
    · rename_i hold
      cases h
      exact hw.stops i _ .done hold trivial rfl not_false (.inl rfl) (.inl ⟨rfl,rfl⟩) (by simp)
    · rename_i hold
      cases h
      have hr := hw.stopping (List.mem_of_getElem? hold)
      exact hw.stops i _ .done hold trivial rfl not_false (.inl rfl) (.inr ⟨rfl,hr⟩) (by simp)
    · cases h

def newSharedCore (services : List String) : SharedCore := ⟨services,.idle,false,[],false⟩

theorem sequential_new (services : List String) : (newSharedCore services).Sequential := by
  refine ⟨fun i j pc pc' hi => ?_,(fun hs => by cases hs rfl),fun _ pc hpc => ?_,fun _ => rfl,
    (fun hs => by cases hs),(fun _ hr => by cases hr),fun hs => ?_⟩
  · simp [newSharedCore] at hi
  · cases hpc
  · cases hs

/-- Stop is final, and starts do not overlap, in every run whose calls keep out of each
other's way. -/
theorem stop_final (services : List String) (acts : List OverlapAct)
    (hg : Guarded SharedCore.step Exclusive acts (newSharedCore services)) :
    ∀ w∈states SharedCore.step acts (newSharedCore services), w.Final := by
  intro w hw
  have hseq := states_invariant (fun a w w' hseq he hstep => sequential_step a w w' hseq he hstep) acts _
    (sequential_new services) hg w hw
  exact hseq.final

def twoStops : List OverlapAct :=
  [.start,.registered 0 true,.startEffect 0,.started 0 true,.stop,.stop,.start,.drained 1,.stopEffect 1,
    .stopped 1 true,.start]

theorem stop_final_twice : ∃ w, run SharedCore.step twoStops (newSharedCore ["greeter"])=some w ∧
    w.stopReturned=true ∧ w.Final := by
  have hrun : run SharedCore.step twoStops (newSharedCore ["greeter"])=
    some ⟨["greeter"],.stopped,false,[.done,.done,.draining],true⟩ := rfl
  refine ⟨_,hrun,rfl,stop_final _ twoStops ?_ _ (run_mem_states _ _ _ _ hrun)⟩
  have hnone : (newSharedCore ["greeter"]).NoStart := fun pc hpc => by cases hpc
  have hstarted : ∀ pc∈[CallPc.done], ¬pc.InStart := by simp [CallPc.InStart]
  have hstopping : ∀ pc∈[CallPc.done,.draining], ¬pc.InStart := by simp [CallPc.InStart]
  refine ⟨fun _ => hnone,trivial,trivial,trivial,hstarted,hstopping,fun h => ?_,trivial,trivial,trivial,
    fun h => ?_,trivial⟩
  · cases h
  · cases h

/-- A `stop` that comes while the transport starts returns, and the core ends up started
with its transport running; two calls of `start` both start the transport. -/
theorem stop_undone : ∃ w w', run SharedCore.step [.start,.stop,.startEffect 0,.started 0 true]
      (newSharedCore [])=some w ∧ w.stopReturned=true ∧ w.state=.started ∧ w.running=true ∧ ¬w.Final ∧
    run SharedCore.step [.start,.start] (newSharedCore ["greeter"])=some w' ∧ ¬w'.Final := by
  refine ⟨_,_,rfl,rfl,rfl,rfl,fun h => ?_,rfl,fun h => ?_⟩
  · have hstate := (h.stopped rfl).1
    cases hstate
  · have hij := h.once 0 1 _ _ rfl rfl trivial trivial
    cases hij

end Clamator.Lifecycle
