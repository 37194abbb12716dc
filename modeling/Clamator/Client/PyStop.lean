import Clamator.Client.PyBookkeeping

/-!
# What a stop of the Python client leaves (`over-redis/client_transport.py`, `stop`)

The state is published before the first await, so that no send comes between the sweep and
the end of `stop`. What the sweep leaves are coroutines that can go on at once.
-/

namespace Clamator.Client
open Clamator.Base Clamator.Protocol Clamator.Lifecycle

/-- How often a coroutine may still be resumed. -/
def PySend.turns (s : PySend) : ℕ := match s.pc with
  | .xadd => 2
  | .reply => 1
  | .finished _ => 0

theorem PySend.resume_turns (s : PySend) (w : Wake) (pc : SendPc) (pops : Bool)
    (h : s.resume w=some (pc,pops)) : PySend.turns { s with pc := pc }+1 ≤ s.turns := by
  cases s.resumes w pc pops h with
  | xadded hpc => simp [PySend.turns,hpc]
  | xaddRaised hpc => simp [PySend.turns,hpc]
  | returned v hpc _ => simp [PySend.turns,hpc]
  | raised m hpc _ => simp [PySend.turns,hpc]
  | timeout hpc _ => simp [PySend.turns,hpc]
  | cancelled _ hu =>
    unfold PySend.unfinished at hu
    unfold PySend.turns
    cases hpc : s.pc with
    | xadd => simp
    | reply => simp
    | finished e => simp [hpc] at hu

/- At the XADD, and where its future is set, a coroutine can go on. -/
theorem PySend.resume_enabled (s : PySend) (hu : s.unfinished=true) (hf : s.future≠none)
    (hinner : s.future=some .cancelled → s.expired=true ∨ s.cancelling=true) :
    ∃ w p, s.resume w=some p := by
  cases hpc : s.pc with
  | xadd => exact ⟨.xadded,(.reply,false),by simp [PySend.resume,hpc]⟩
  | finished e => simp [PySend.unfinished,hpc] at hu
  | reply =>
    cases hr : s.future with
    | none => exact (hf hr).elim
    | some r =>
      cases r with
      | result v => exact ⟨.done,(.finished (.returned v),false),by simp [PySend.resume,hpc,hr]⟩
      | exception m => exact ⟨.done,(.finished (.raised m),false),by simp [PySend.resume,hpc,hr]⟩
      | cancelled =>
        rcases hinner hr with he | hflag
        · exact ⟨.timeout,(.finished (.raised "call timeout"),true),by simp [PySend.resume,hpc,he]⟩
        · exact ⟨.cancelled,(.finished .cancelled,false),by simp [PySend.resume,hflag,hu]⟩

def PyClientAct.resumes : PyClientAct → Bool
  | .resume _ _ => true
  | _ => false

namespace PyClientRedisTransport

variable {str : PyVal → Option String} {c c' : PyClientRedisTransport} {a : PyClientAct}

/-- Nothing is accepted, and no stop waits for the end of the reply loop. -/
def Resting (c : PyClientRedisTransport) : Prop := c.state≠.started ∧ c.stopping=false

def turns (c : PyClientRedisTransport) : ℕ := (c.sends.map PySend.turns).sum

theorem send_refused (env : PyVal) (h : c.state≠.started) : c.send str env=c := by
  unfold send
  split
  · rename_i hstate _
    exact (h hstate).elim
  · rfl

theorem step_send_refused (env : PyVal) (h : c.state≠.started) (hstep : step str (.send env) c=some c') :
    c'=c := by
  cases hstep
  exact send_refused env h

theorem pending_stays_nil (hp : c.pending=[]) (hs : c.state≠.started) (hstep : step str a c=some c') :
    c'.pending=[] := by
  have hm := step_moves a c c' hstep
  by_cases hsend : ∃ env, a=.send env
  · obtain ⟨env,rfl⟩ := hsend
    rwa [step_send_refused env hs hstep]
  · generalize c'.sends=sends at hm
    generalize c'.pending=pending at hm
    cases hm with
    | same => exact hp
    | sent env _ _ => exact (hsend ⟨env,rfl⟩).elim
    | unsent env _ _ => exact (hsend ⟨env,rfl⟩).elim
    | flagged _ n f _ _ => exact hp
    | innerCancelled n => exact hp
    | resumed n w s pc pops _ _ => cases pops <;> simp [popped,hp]
    | replied v key n _ hlook => simp [hp] at hlook
    | swept => rfl

/- Where nothing is accepted and no stop is under way, there is no entry. -/
theorem resting_pending (hi : c.Resting → c.pending=[]) (hstep : step str a c=some c') :
    c'.Resting → c'.pending=[] := by
  rintro ⟨hstate',hstopping'⟩
  have hbefore : c.Resting → c'.pending=[] := fun h => pending_stays_nil (hi h) h.1 hstep
  have hphases := step_phases hstep
  generalize hstate : c'.state=state at hphases hstate'
  generalize hlooping : c'.looping=looping at hphases
  generalize hstopping : c'.stopping=stopping at hphases hstopping'
  cases hphases with
  | same => exact hbefore ⟨hstate',hstopping'⟩
  | started _ => exact (hstate' rfl).elim
  | stopping _ => cases hstopping'
  | stopped hne => exact hbefore ⟨hne,hstopping'⟩
  | loopEnded hs => rw [hs] at hstopping'; cases hstopping'
  | swept hs hl =>
    simp only [step,hs,hl,Bool.not_false,Bool.and_self,if_true,Option.some.injEq] at hstep
    rw [← hstep]

theorem run_resting (acts : List PyClientAct) (c : PyClientRedisTransport)
    (h : run (step str) acts new=some c) : c.Resting → c.pending=[] := by
  refine run_induction (I := fun _ c => c.Resting → c.pending=[]) ?_ ?_ acts c (guarded_true acts new) h
  · intro _
    rfl
  · intro before a t u _ hi _ hstep
    exact resting_pending hi hstep

/-! ### After the sweep -/

theorem stopped_rests (hs : c.state=.stopped) (hstop : c.stopping=false) (hstep : step str a c=some c') :
    c'.state=.stopped ∧ c'.stopping=false := by
  have hphases := step_phases hstep
  refine ⟨hphases.stays_stopped hs,?_⟩
  generalize c'.state=state at hphases
  generalize c'.looping=looping at hphases
  generalize c'.stopping=stopping at hphases
  cases hphases with
  | same => exact hstop
  | started hidle => rw [hs] at hidle; cases hidle
  | stopping hstarted => rw [hs] at hstarted; cases hstarted
  | stopped _ => exact hstop
  | loopEnded h => exact hstop
  | swept _ _ => rfl

theorem rejectAll_map {β : Type} (g : PySend → β) (hg : ∀ r s, g (PySend.settle r s)=g s)
    (c : PyClientRedisTransport) : c.rejectAll.map g=c.sends.map g := by
  rw [rejectAll_eq]
  generalize c.sends=sends
  induction c.pending.map Prod.snd generalizing sends with
  | nil => rfl
  | cons n ns ih => rw [List.foldl_cons,ih,map_modify_of_keep sends n _ g (hg _)]

theorem resume_turns (n : ℕ) (w : Wake) (hstep : c.resume n w=some c') :
    c'.sends.length=c.sends.length ∧ c'.turns+1 ≤ c.turns := by
  unfold resume at hstep
  split at hstep
  · cases hstep
  · rename_i s hs
    obtain ⟨⟨pc,pops⟩,hw,rfl⟩ := Option.map_eq_some_iff.mp hstep
    have hsum := sum_map_modify (fun s => { s with pc := pc }) PySend.turns c.sends n s hs
    have hless := PySend.resume_turns s w pc pops hw
    simp only [turns,modify,List.length_modify]
    exact ⟨trivial,by omega⟩

/- No step but a resumed coroutine's changes the turns of the sends that there are. -/
theorem turns_same (hsend : ∀ env, a≠.send env) (hresume : ∀ n w, a≠.resume n w)
    (hstep : step str a c=some c') : c'.sends.map PySend.turns=c.sends.map PySend.turns := by
  have hm := step_moves a c c' hstep
  generalize c'.sends=sends at hm
  generalize c'.pending=pending at hm
  cases hm with
  | same => rfl
  | sent env _ _ => exact (hsend env rfl).elim
  | unsent env _ _ => exact (hsend env rfl).elim
  | flagged _ n f _ hf =>
    apply map_modify_of_keep
    intro s
    simp only [PySend.turns,(hf s).2.1]
  | innerCancelled n => exact map_modify_of_keep _ _ _ _ fun _ => rfl
  | resumed n w _ _ _ _ _ => exact (hresume n w rfl).elim
  | replied v key n _ _ => exact map_modify_of_keep _ _ _ _ fun _ => rfl
  | swept => exact rejectAll_map PySend.turns (fun _ _ => rfl) c

/- Where nothing is accepted, a coroutine that is resumed uses up a turn, and no step adds one. -/
theorem step_turns (hs : c.state≠.started) (hstep : step str a c=some c') :
    c'.sends.length=c.sends.length ∧ c'.turns+(if a.resumes then 1 else 0) ≤ c.turns := by
  by_cases hsend : ∃ env, a=.send env
  · obtain ⟨env,rfl⟩ := hsend
    rw [step_send_refused env hs hstep]
    exact ⟨rfl,Nat.le_refl _⟩
  by_cases hresume : ∃ n w, a=.resume n w
  · obtain ⟨n,w,rfl⟩ := hresume
    exact resume_turns n w hstep
  · have hkeep := turns_same (fun env h => hsend ⟨env,h⟩) (fun n w h => hresume ⟨n,w,h⟩) hstep
    have hlen := congrArg List.length hkeep
    simp only [List.length_map] at hlen
    have hno : a.resumes=false := by
      cases a <;> first | rfl | exact (hresume ⟨_,_,rfl⟩).elim
    simp only [turns,hkeep,hno]
    exact ⟨hlen,Nat.le_refl _⟩

theorem run_turns (acts : List PyClientAct) (hs : c.state=.stopped) (hstop : c.stopping=false)
    (hp : c.pending=[]) (h : run (step str) acts c=some c') : c'.sends.length=c.sends.length ∧
      c'.pending=[] ∧ c'.turns+acts.countP PyClientAct.resumes ≤ c.turns := by
  induction acts generalizing c with
  | nil =>
    cases h
    exact ⟨rfl,hp,Nat.le_refl _⟩
  | cons a acts ih =>
    obtain ⟨d,hstep,hrun⟩ := Option.bind_eq_some_iff.mp h
    have hne : c.state≠.started := by
      rw [hs]
      simp
    obtain ⟨hstate,hstopping⟩ := stopped_rests hs hstop hstep
    obtain ⟨hlen,hturns⟩ := step_turns hne hstep
    obtain ⟨hlen',hpending,hrest⟩ := ih hstate hstopping (pending_stays_nil hp hne hstep) hrun
    refine ⟨hlen'.trans hlen,hpending,?_⟩
    rw [List.countP_cons]
    omega

theorem sweep_rejects (hw : c.Waiting) (hstep : step str .sweep c=some c') (n : ℕ) (s : PySend)
    (hs : c.sends[n]?=some s) (hu : s.unfinished=true) (hf : s.future=none) :
    c'.sends[n]?=some { s with future := some (.exception "transport stopped") } := by
  simp only [step] at hstep
  split at hstep
  · cases hstep
    have hm : n∈c.pending.map Prod.snd := List.mem_map_of_mem (hw n s hs hu hf)
    rw [rejectAll_eq,getElem?_foldl_modify _ (PySend.settle_twice _),if_pos hm,hs]
    simp [PySend.settle,hf]
  · cases hstep

/-- The sweep of a stop rejects whoever waits. After it the dictionary stays empty, no send is
accepted, and every coroutine left has its future set: it needs no reply and no timer to come,
and all of them together are resumed at most twice each until they have ended. -/
theorem py_stop_settles (str : PyVal → Option String) (acts : List PyClientAct)
    (c : PyClientRedisTransport) (h : run (step str) acts new=some c)
    (hg : Guarded (step str) (Fresh str) acts new) :
    (∀ c', step str .sweep c=some c' → ∀ (n : ℕ) (s : PySend), c.sends[n]?=some s → s.unfinished=true →
      s.future=none →
        c'.sends[n]?=some { s with future := some (.exception "transport stopped") }) ∧
    (c.state=.stopped → c.stopping=false →
      (∀ (n : ℕ) (s : PySend), c.sends[n]?=some s → s.unfinished=true → s.future≠none ∧
        ∃ w c', step str (.resume n w) c=some c') ∧
      ∀ acts' c', run (step str) acts' c=some c' → c'.pending=[] ∧ c'.sends.length=c.sends.length ∧
        c'.turns+acts'.countP PyClientAct.resumes ≤ c.turns) := by
  have hwait := (run_waiting acts c hg h).2
  refine ⟨fun c' hstep => sweep_rejects hwait hstep,fun hs hstop => ⟨fun n s hs' hu => ?_,?_⟩⟩
  · have hne : c.state≠.started := by
      rw [hs]
      simp
    have hp := run_resting acts c h ⟨hne,hstop⟩
    have hf : s.future≠none := by
      intro hnone
      have hm := hwait n s hs' hu hnone
      rw [hp] at hm
      cases hm
    obtain ⟨w,p,hw⟩ := s.resume_enabled hu hf ((run_traced acts c h).caused n s hs').inner
    have hsome : (step str (.resume n w) c).isSome := by simp [step,resume,hs',hw]
    exact ⟨hf,w,Option.isSome_iff_exists.mp hsome⟩
  · intro acts' c' hrun
    have hne : c.state≠.started := by
      rw [hs]
      simp
    have hp := run_resting acts c h ⟨hne,hstop⟩
    obtain ⟨hlen,hpending,hturns⟩ := run_turns acts' hs hstop hp hrun
    exact ⟨hpending,hlen,hturns⟩

end PyClientRedisTransport

open PyClientRedisTransport

/- One call at each await. -/
def stoppedRun : List PyClientAct :=
  [.start,.send addCall,.resume 0 .xadded,.send (pyBuildRequest "arith.add" (.obj []) (Py.str "2")),
    .stop,.loopEnds,.sweep]

theorem stoppedRun_fresh : Guarded (step plainStr) (Fresh plainStr) stoppedRun new := by
  refine ⟨trivial,fun _ _ h => List.not_mem_nil h,trivial,?_,trivial,trivial,trivial,trivial⟩
  intro key hkey hmem
  cases hkey
  exact absurd (List.mem_singleton.mp hmem) (by decide)

theorem py_stop_settles_two : ∃ c, run (step plainStr) stoppedRun new=some c ∧ c.turns=3 ∧
    (∀ (n : ℕ) (s : PySend), c.sends[n]?=some s → s.unfinished=true → s.future≠none ∧
      ∃ w c', step plainStr (.resume n w) c=some c') ∧
    ∀ acts' c', run (step plainStr) acts' c=some c' → acts'.countP PyClientAct.resumes ≤ 3 := by
  have hrun : (run (step plainStr) stoppedRun new).isSome := rfl
  have hall := py_stop_settles plainStr stoppedRun _ (Option.some_get hrun).symm stoppedRun_fresh
  obtain ⟨hleft,hafter⟩ := hall.2 rfl rfl
  refine ⟨_,(Option.some_get hrun).symm,rfl,hleft,fun acts' c' h => ?_⟩
  exact (Nat.le_add_left _ _).trans (hafter acts' c' h).2.2

end Clamator.Client
