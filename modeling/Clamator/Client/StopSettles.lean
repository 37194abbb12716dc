import Clamator.Client.Bookkeeping

/-!
# What a stop leaves behind (`over-redis/src/client-transport.ts`, `stop`)

`stop` rejects what waits and empties the map, and publishes the stopped state
after three more awaits. A send in between passes the check of the state and is left
to its timer. The Python client publishes the state first.
-/

namespace Clamator.Client
open Clamator.Base Clamator.Protocol Clamator.Lifecycle

namespace ClientRedisTransport

/-- Some call of `stop` has swept the map, or found the client not started. -/
def Swept (c : ClientRedisTransport) : Prop := ∃ pc∈c.stops, pc≠.loop

def AllSettled (c : ClientRedisTransport) : Prop := c.calls.pending=[] ∧
  ∀ (n : ℕ) (s : Slot String Outcome), c.calls.slots[n]?=some s → s.outcome≠none ∧ s.armed=false

/-- Once a call of `stop` has returned, nobody waits; and whoever waits at the sweep of one is
rejected with "transport stopped". -/
structure StopSettles (T : Texts) (c : ClientRedisTransport) : Prop where
  returned : .returned∈c.stops → c.AllSettled
  rejected : ∀ i c', c.stops[i]?=some .loop → step T (.stopGoesOn i) c=some c' →
    ∀ (n : ℕ) (s : Slot String Outcome), c.calls.slots[n]?=some s → s.outcome=none →
      ∃ s', c'.calls.slots[n]?=some s' ∧ s'.outcome=some .stopped

/-- No send is accepted once a call of `stop` has swept the map, and none replaces the entry of
a call that waits. -/
def BeforeSweep (T : Texts) (a : ClientAct) (c : ClientRedisTransport) : Prop :=
  NoReplace T a c ∧ match a with
    | .send env => requestKey T env≠none → c.state=.started → ¬c.Swept
    | _ => True

structure Stopping (c : ClientRedisTransport) : Prop where
  kept : c.calls.Kept
  empty : c.Swept → c.calls.pending=[]
  swept : c.state≠.started → c.Swept

theorem Stopping.allSettled {c : ClientRedisTransport} (h : Stopping c) (hs : c.Swept) : c.AllSettled :=
  ⟨h.empty hs,h.kept.settled_of_empty (h.empty hs)⟩

inductive StopMoves (c : ClientRedisTransport) : ClientAct → ClientRedisTransport → Prop
  | none (a : ClientAct) (c' : ClientRedisTransport) : c'.stops=c.stops → c'.state=c.state →
    StopMoves c a c'
  | called (c' : ClientRedisTransport) : c.state=.started → c'.stops=c.stops++[.loop] →
    c'.state=c.state → StopMoves c .stop c'
  | found (c' : ClientRedisTransport) : c.state≠.started → c'.stops=c.stops++[.returned] →
    StopMoves c .stop c'
  | swept (i : ℕ) (c' : ClientRedisTransport) : c.stops[i]?=some .loop → c'.stops=c.stops.set i .del →
    c'.calls=c.calls.sweep .stopped → StopMoves c (.stopGoesOn i) c'
  | went (i : ℕ) (pc pc' : StopPc) (c' : ClientRedisTransport) : c.stops[i]?=some pc → pc≠.loop →
    c'.stops=c.stops.set i pc' → pc'≠.loop → c'.calls=c.calls → StopMoves c (.stopGoesOn i) c'

theorem step_stopMoves (T : Texts) (a : ClientAct) (c c' : ClientRedisTransport)
    (h : step T a c=some c') : StopMoves c a c' := by
  cases a with
  | send env =>
    cases h
    unfold send
    split
    · dsimp only
      split <;> exact .none _ _ rfl rfl
    · exact .none _ _ rfl rfl
  | xaddEnds n ok =>
    simp only [step] at h
    split at h
    · cases h
    · split at h
      · cases h
      · split at h <;> cases h <;> exact .none _ _ rfl rfl
  | timer n =>
    simp only [step] at h
    split at h
    · cases h
    · split at h <;> cases h
      exact .none _ _ rfl rfl
  | reply v =>
    simp only [step] at h
    split at h
    · split at h <;> cases h <;> exact .none _ _ rfl rfl
    · cases h
  | loopEnds =>
    simp only [step] at h
    split at h <;> cases h
    exact .none _ _ rfl rfl
  | stop =>
    simp only [step] at h
    split at h
    · rename_i hstate
      cases h
      exact .called _ hstate rfl rfl
    · rename_i hstate
      cases h
      exact .found _ hstate rfl
  | stopGoesOn i =>
    simp only [step,stopGoesOn] at h
    split at h
    · rename_i hi
      split at h
      · cases h
      · cases h
        exact .swept i _ hi rfl rfl
    · rename_i hi
      cases h
      exact .went i .del .quit _ hi (by decide) rfl (by decide) rfl
    · rename_i hi
      split at h
      · cases h
        exact .went i .quit .quitMain _ hi (by decide) rfl (by decide) rfl
      · cases h
        exact .went i .quit .returned _ hi (by decide) rfl (by decide) rfl
    · rename_i hi
      cases h
      exact .went i .quitMain .returned _ hi (by decide) rfl (by decide) rfl
    · cases h

theorem swept_set (stops : List StopPc) (i : ℕ) (pc pc' : StopPc) (hi : stops[i]?=some pc)
    (hpc : pc'≠.loop) : ∃ q∈stops.set i pc', q≠.loop := by
  have hlt := (List.getElem?_eq_some_iff.mp hi).1
  exact ⟨pc',List.mem_iff_getElem?.mpr ⟨i,List.getElem?_set_self hlt⟩,hpc⟩

theorem Moves.empty {T : Texts} {c : ClientRedisTransport} {a : ClientAct} {calls : Calls String Outcome}
    (h : Moves T c a calls) (hg : BeforeSweep T a c) (hs : c.Swept) (hp : c.calls.pending=[]) :
    calls.pending=[] := by
  have hfinish : ∀ key o, (c.calls.finish key o).pending=[] := by
    intro key o
    refine List.eq_nil_iff_forall_not_mem.mpr fun kn hkn => ?_
    have hm := ((Calls.mem_finish c.calls key kn.1 kn.2 o).mp hkn).1
    rw [hp] at hm
    cases hm
  cases h with
  | same => exact hp
  | sent env key hkey hstate _ => exact (hg.2 (by simp [hkey]) hstate hs).elim
  | unsendable env key hkey hstate _ => exact (hg.2 (by simp [hkey]) hstate hs).elim
  | xaddFailed n s _ => exact hfinish _ _
  | timeout n s _ _ => simp [Calls.retire,Calls.remove,hp]
  | replied v key _ => exact hfinish _ _
  | swept i _ => exact Calls.sweep_pending _ _

theorem Stopping.step {T : Texts} {a : ClientAct} {c c' : ClientRedisTransport} (h : Stopping c)
    (hg : BeforeSweep T a c) (hstep : step T a c=some c') : Stopping c' := by
  have hm := step_moves T a c c' hstep
  have hs := step_stopMoves T a c c' hstep
  refine ⟨hm.kept hg.1 h.kept,?_,?_⟩
  · intro hswept
    cases hs with
    | none _ _ hstops hstate =>
      have hc : c.Swept := by
        unfold Swept
        rw [← hstops]
        exact hswept
      exact hm.empty hg hc (h.empty hc)
    | called _ _ hstops _ =>
      obtain ⟨pc,hpc,hne⟩ := hswept
      rw [hstops] at hpc
      have hc : c.Swept := by
        rcases List.mem_append.mp hpc with hpc | hpc
        · exact ⟨pc,hpc,hne⟩
        · exact (hne (List.mem_singleton.mp hpc)).elim
      exact hm.empty hg hc (h.empty hc)
    | found _ hstate _ =>
      have hc := h.swept hstate
      exact hm.empty hg hc (h.empty hc)
    | swept i _ _ _ hcalls =>
      rw [hcalls]
      exact Calls.sweep_pending _ _
    | went i pc pc' _ hi hne _ _ hcalls =>
      rw [hcalls]
      exact h.empty ⟨pc,List.mem_of_getElem? hi,hne⟩
  · intro hstate'
    cases hs with
    | none _ _ hstops hstate =>
      rw [hstate] at hstate'
      unfold Swept
      rw [hstops]
      exact h.swept hstate'
    | called _ hstarted _ hstate =>
      rw [hstate] at hstate'
      exact (hstate' hstarted).elim
    | found _ _ hstops => exact ⟨.returned,by rw [hstops]; simp,by decide⟩
    | swept i _ hi hstops _ =>
      unfold Swept
      rw [hstops]
      exact swept_set c.stops i .loop .del hi (by decide)
    | went i pc pc' _ hi _ hstops hne _ =>
      unfold Swept
      rw [hstops]
      exact swept_set c.stops i pc pc' hi hne

theorem Stopping.settles {T : Texts} {c : ClientRedisTransport} (h : Stopping c) : StopSettles T c where
  returned := fun hr => h.allSettled ⟨.returned,hr,by decide⟩
  rejected := by
    intro i c' hi hstep n s hs hwait
    simp only [ClientRedisTransport.step,stopGoesOn,hi] at hstep
    split at hstep
    · cases hstep
    · cases hstep
      exact Calls.sweep_outcome h.kept _ n s hs hwait

theorem Started.stopping {c : ClientRedisTransport} (h : c.Started) : Stopping c := by
  obtain ⟨hstate,hcalls,_,_,_,hstops⟩ := h
  refine ⟨?_,?_,fun hne => (hne hstate).elim⟩
  · rw [hcalls]
    exact Calls.Kept.empty
  · intro _
    rw [hcalls]
    rfl

/-- In a run whose sends all come before the sweeps, a stop that has returned leaves nobody
waiting. -/
theorem stop_settles (T : Texts) (acts : List ClientAct) (c : ClientRedisTransport) (h : c.Started)
    (hg : Guarded (step T) (BeforeSweep T) acts c) :
    ∀ c'∈states (step T) acts c, StopSettles T c' := by
  intro c' hc'
  exact (states_invariant (I := Stopping) (fun a s t hs hga hstep => hs.step hga hstep) acts c
    h.stopping hg c' hc').settles

end ClientRedisTransport

def stopRun : List ClientAct :=
  [.send (addRequest (Js.str "1")),.stop,.loopEnds,.stopGoesOn 0,.stopGoesOn 0,.stopGoesOn 0,.stopGoesOn 0]

def lateSendRun : List ClientAct :=
  [.send (addRequest (Js.str "1")),.stop,.loopEnds,.stopGoesOn 0,.send (addRequest (Js.str "2")),
    .stopGoesOn 0,.stopGoesOn 0,.stopGoesOn 0]

theorem stop_settles_one : ∃ c : ClientRedisTransport,
    run (ClientRedisTransport.step plainTexts) stopRun startedClient=some c ∧ .returned∈c.stops ∧
      c.AllSettled := by
  have hrun : (run (ClientRedisTransport.step plainTexts) stopRun startedClient).isSome := rfl
  have hg : Guarded (ClientRedisTransport.step plainTexts) (ClientRedisTransport.BeforeSweep plainTexts)
      stopRun startedClient := by
    refine ⟨⟨?_,?_⟩,⟨trivial,trivial⟩,⟨trivial,trivial⟩,⟨trivial,trivial⟩,⟨trivial,trivial⟩,
      ⟨trivial,trivial⟩,⟨trivial,trivial⟩,trivial⟩
    · intro key n _ hm
      cases hm
    · rintro _ _ ⟨pc,hpc,_⟩
      cases hpc
  have hmem := run_mem_states _ _ _ _ (Option.some_get hrun).symm
  exact ⟨_,(Option.some_get hrun).symm,List.mem_singleton.mpr rfl,
    (ClientRedisTransport.stop_settles plainTexts stopRun startedClient startedClient_started hg _
      hmem).returned (List.mem_singleton.mpr rfl)⟩

/-- The second send waits for its timeout after `stop` has returned, and no reply loop runs. -/
theorem late_send_stranded : ∃ c : ClientRedisTransport,
    run (ClientRedisTransport.step plainTexts) lateSendRun startedClient=some c ∧ .returned∈c.stops ∧
      c.state=.stopped ∧ c.looping=false ∧ c.calls.slots[1]?=some ⟨"2",none,true⟩ ∧
      c.calls.pending=[("2",1)] ∧ ¬ClientRedisTransport.StopSettles plainTexts c := by
  have hrun : (run (ClientRedisTransport.step plainTexts) lateSendRun startedClient).isSome := rfl
  refine ⟨_,(Option.some_get hrun).symm,List.mem_singleton.mpr rfl,rfl,rfl,rfl,rfl,fun h => ?_⟩
  have hempty := (h.returned (List.mem_singleton.mpr rfl)).1
  cases hempty

end Clamator.Client
