import Clamator.Client.MemoryEntries

/-!
# How calls over memory end (`over-memory/src/transport.ts`, `over-memory/transport.py`)

A call ends for a cause of its own: the reply, the `null` or the exception of the dispatcher
that was called for it, its deadline, a stop, in Python its cancellation. `stop` has no await:
it rejects whoever waits, and from then on the map is empty and nothing is accepted.
-/

namespace Clamator.Client
open Clamator.Base Clamator.Protocol Clamator.Lifecycle

/-! ### TypeScript -/

namespace MemoryTransport

variable {T : Texts} {m m' : MemoryTransport} {a : MemoryAct} {acts : List MemoryAct}

/-- What of a run an outcome of the call in place `n` comes from. -/
def Cause (acts : List MemoryAct) (n : ℕ) : Outcome → Prop
  | .resolved v => .dispatched n (.reply v)∈acts
  | .nullReply => .dispatched n .null∈acts
  | .dispatcherThrew => .dispatched n .threw∈acts
  | .timeout => .timer n∈acts
  | .stopped => .stop∈acts
  | _ => False

theorem Cause.concat {n : ℕ} {o : Outcome} (h : Cause acts n o) (a : MemoryAct) : Cause (acts++[a]) n o := by
  cases o <;> first | exact List.mem_append_left _ h | exact h

theorem cause_dispatched (n : ℕ) (e : DispatchEnd) : Cause (acts++[.dispatched n e]) n e.outcome := by
  cases e <;> simp [Cause,DispatchEnd.outcome]

/-- The table of a run whose ids are distinct as strings. -/
structure Tabled (T : Texts) (acts : List MemoryAct) (m : MemoryTransport) : Prop where
  kept : m.calls.Kept
  text : TextKeys T m.calls m.ids
  keys : m.calls.keys.Nodup
  caused : m.calls.Placed (Cause acts)

theorem Started.tabled (h : m.Started) : Tabled T [] m := by
  obtain ⟨_,hcalls,hids,_⟩ := h
  constructor
  · rw [hcalls]
    exact Calls.Kept.empty
  · rw [hcalls,hids]
    rfl
  · rw [hcalls]
    exact List.nodup_nil
  · intro n s o hs
    rw [hcalls] at hs
    simp [Calls.empty] at hs

theorem place_unique (hk : m.calls.Kept) (hn : m.calls.keys.Nodup) (n i : ℕ) (s : Slot String Outcome)
    (hs : m.calls.slots[n]?=some s) (hi : (s.key,i)∈m.calls.pending) : i=n := by
  obtain ⟨s',hs',hkey⟩ := hk.entry s.key i hi
  exact place_inj Slot.key hn hs' hs hkey

theorem Tabled.step (h : Tabled T acts m) (hf : Fresh T a m) (hstep : step T a m=some m') :
    Tabled T (acts++[a]) m' := by
  have hm := step_moves T a m m' hstep
  have htext := hm.textKeys h.text
  have hold : m.calls.Placed (Cause (acts++[a])) := h.caused.mono fun n o ho => ho.concat a
  generalize hcalls : m'.calls=calls at hm
  generalize m'.ids=ids at hm
  suffices hall : calls.Kept ∧ calls.keys.Nodup ∧ calls.Placed (Cause (acts++[a])) by
    rw [← hcalls] at hall
    exact ⟨hall.1,htext,hall.2.1,hall.2.2⟩
  cases hm with
  | same => exact ⟨h.kept,h.keys,hold⟩
  | sent env id key hkey _ =>
    have hfresh : key∉m.calls.keys := by
      intro hmem
      obtain ⟨s,hs,hsk⟩ := List.mem_map.mp hmem
      exact hf key hkey s hs hsk
    refine ⟨h.kept.insert key fun n hn => ?_,?_,hold.insert key⟩
    · obtain ⟨s,hs,hsk⟩ := h.kept.entry key n hn
      exact hf key hkey s (List.mem_of_getElem? hs) hsk
    · rw [Calls.keys_insert]
      exact List.nodup_append.mpr ⟨h.keys,List.nodup_singleton _,fun x hx y hy hxy =>
        hfresh (by rwa [← List.mem_singleton.mp hy,← hxy])⟩
  | dispatched n s e hs =>
    refine ⟨h.kept.finish s.key _,by rw [Calls.keys_finish]; exact h.keys,?_⟩
    apply hold.finish
    intro i hi
    rw [place_unique h.kept h.keys n i s hs hi]
    exact cause_dispatched n e
  | timeout n s id hs ha hid =>
    have hkeys : ((mapDelete m.calls id).modify n (Slot.close .timeout)).keys=m.calls.keys :=
      (Calls.keys_modify (mapDelete m.calls id) n (Slot.close Outcome.timeout) fun _ => rfl).trans
        (keys_mapDelete _ _)
    have hplaced : (mapDelete m.calls id).Placed (Cause (acts++[.timer n])) := by
      unfold mapDelete
      split <;> exact hold
    refine ⟨?_,by rw [hkeys]; exact h.keys,hplaced.close n .timeout (by simp [Cause])⟩
    unfold mapDelete
    split
    · rename_i str
      have hkey : some str=some s.key := (T.text_str str).symm.trans (h.text.text n s _ hs hid)
      rw [Option.some.inj hkey]
      exact h.kept.retire n s.key _ (h.kept.armed n s hs ha)
    · exact h.kept.close n _
  | swept =>
    refine ⟨h.kept.sweep _,by rw [Calls.keys_sweep]; exact h.keys,hold.sweep _ fun n => ?_⟩
    simp [Cause]

theorem run_tabled (h0 : m.Started) (hg : Guarded (step T) (Fresh T) acts m)
    (h : run (step T) acts m=some m') : Tabled T acts m' :=
  run_induction (I := Tabled T) h0.tabled (fun _ _ _ _ _ hi hf hstep => hi.step hf hstep) acts m' hg h

theorem send_refused (env : JsVal) (h : m.state≠.started) : m.send T env=m := by
  unfold MemoryTransport.send
  split
  · rename_i hstate _
    exact (h hstate).elim
  · rfl

/- Once it is stopped the map stays empty. -/
theorem stopped_step (hstate : m.state≠.started → m.calls.pending=[]) (hstep : step T a m=some m') :
    m'.state≠.started → m'.calls.pending=[] := by
  cases a with
  | send env =>
    cases hstep
    by_cases hs : m.state=.started
    · intro hne
      have hsame : (m.send T env).state=m.state := by
        unfold MemoryTransport.send
        split
        · split
          · rfl
          · split <;> rfl
        · rfl
      rw [hsame] at hne
      exact (hne hs).elim
    · rw [send_refused env hs]
      exact hstate
  | dispatched n e =>
    simp only [MemoryTransport.step] at hstep
    split at hstep
    · cases hstep
    · split at hstep <;> cases hstep
      intro hne
      refine List.eq_nil_iff_forall_not_mem.mpr fun x hx => ?_
      have hold := ((Calls.mem_finish _ _ _ _ _).mp hx).1
      rw [hstate hne] at hold
      cases hold
  | timer n =>
    simp only [MemoryTransport.step] at hstep
    split at hstep
    · split at hstep
      · cases hstep
        intro hne
        refine List.eq_nil_iff_forall_not_mem.mpr fun x hx => ?_
        have hold := mem_mapDelete _ _ _ _ hx
        rw [hstate hne] at hold
        cases hold
      · cases hstep
    · cases hstep
  | stop =>
    cases hstep
    intro _
    exact Calls.sweep_pending _ _

end MemoryTransport

/-! ### Python -/

namespace PyMemoryTransport

variable {str : PyVal → Option String} {m m' : PyMemoryTransport} {a : PyMemoryAct}
  {acts : List PyMemoryAct} {n : ℕ} {s s' : PySend}

/-- What of a run an exception set on the future in place `n` comes from. -/
def Thrown (acts : List PyMemoryAct) (n : ℕ) (message : String) : Prop :=
  (message="dispatcher threw" ∧ .runnerEnds n .raised∈acts) ∨
  (message="dispatcher returned None for a request" ∧ .runnerEnds n .returnedNone∈acts) ∨
  (message="transport stopped" ∧ .stop∈acts)

variable (str) in
/-- What is set on the future and how the coroutine ends, each with what of the run it comes
from. -/
structure Caused (acts : List PyMemoryAct) (n : ℕ) (s : PySend) : Prop where
  awaits : s.pc≠.xadd
  result : ∀ v, s.future=some (.result v) → .runnerEnds n (.reply v)∈acts
  exception : ∀ message, s.future=some (.exception message) → Thrown acts n message
  inner : s.future=some .cancelled → s.expired=true ∨ s.cancelling=true
  expired : s.expired=true → .expire n∈acts
  cancelling : s.cancelling=true → .cancel n∈acts
  returned : ∀ v, s.pc=.finished (.returned v) → s.future=some (.result v) ∨ NotFound str s.key v
  raised : ∀ message, s.pc=.finished (.raised message) →
    (message="call timeout" ∧ s.expired=true) ∨ s.future=some (.exception message)
  cancelled : s.pc=.finished .cancelled → s.cancelling=true

theorem Thrown.concat {message : String} (h : Thrown acts n message) (a : PyMemoryAct) :
    Thrown (acts++[a]) n message :=
  h.imp (fun h => ⟨h.1,List.mem_append_left _ h.2⟩) fun h =>
    h.imp (fun h => ⟨h.1,List.mem_append_left _ h.2⟩) fun h => ⟨h.1,List.mem_append_left _ h.2⟩

theorem Caused.concat (h : Caused str acts n s) (a : PyMemoryAct) : Caused str (acts++[a]) n s where
  awaits := h.awaits
  result := fun v hv => List.mem_append_left _ (h.result v hv)
  exception := fun message hm => (h.exception message hm).concat a
  inner := h.inner
  expired := fun he => List.mem_append_left _ (h.expired he)
  cancelling := fun hc => List.mem_append_left _ (h.cancelling hc)
  returned := h.returned
  raised := h.raised
  cancelled := h.cancelled

theorem Caused.settle (h : Caused str acts n s) (r : FutureResult)
    (hresult : ∀ v, r=.result v → .runnerEnds n (.reply v)∈acts)
    (hexception : ∀ message, r=.exception message → Thrown acts n message)
    (hinner : r=.cancelled → s.expired=true ∨ s.cancelling=true) : Caused str acts n (s.settle r) where
  awaits := h.awaits
  result := by
    intro v hv
    rcases s.settle_cases r _ hv with hold | ⟨_,hr⟩
    · exact h.result v hold
    · exact hresult v hr.symm
  exception := by
    intro message hm
    rcases s.settle_cases r _ hm with hold | ⟨_,hr⟩
    · exact h.exception message hold
    · exact hexception message hr.symm
  inner := by
    intro hc
    rcases s.settle_cases r _ hc with hold | ⟨_,hr⟩
    · exact h.inner hold
    · exact hinner hr.symm
  expired := h.expired
  cancelling := h.cancelling
  returned := by
    intro v hv
    rcases h.returned v hv with hold | hfound
    · exact Or.inl (by simp [PySend.settle,hold])
    · exact Or.inr hfound
  raised := by
    intro message hm
    rcases h.raised message hm with ht | hf
    · exact Or.inl ht
    · exact Or.inr (by simp [PySend.settle,hf])
  cancelled := h.cancelled

theorem Caused.resume (h : Caused str acts n s) (w : Wake) (pc : SendPc) (pops : Bool)
    (hw : s.resume w=some (pc,pops)) : Caused str acts n { s with pc := pc } := by
  cases s.resumes w pc pops hw with
  | xadded hpc => exact (h.awaits hpc).elim
  | xaddRaised hpc => exact (h.awaits hpc).elim
  | returned v _ hf =>
    refine ⟨by simp,h.result,h.exception,h.inner,h.expired,h.cancelling,fun v' hv => ?_,by simp,by simp⟩
    cases hv
    exact Or.inl hf
  | raised message _ hf =>
    refine ⟨by simp,h.result,h.exception,h.inner,h.expired,h.cancelling,by simp,fun m' hm => ?_,by simp⟩
    cases hm
    exact Or.inr hf
  | timeout _ he =>
    refine ⟨by simp,h.result,h.exception,h.inner,h.expired,h.cancelling,by simp,fun m' hm => ?_,by simp⟩
    cases hm
    exact Or.inl ⟨rfl,he⟩
  | cancelled hc _ =>
    exact ⟨by simp,h.result,h.exception,h.inner,h.expired,h.cancelling,by simp,by simp,fun _ => hc⟩

theorem Evolves.caused (he : Evolves m n a s s') (h : Caused str acts n s) :
    Caused str (acts++[a]) n s' := by
  have hold := h.concat a
  have hlast : a∈acts++[a] := by simp
  cases he with
  | same => exact hold
  | expired => exact ⟨hold.awaits,hold.result,hold.exception,fun _ => Or.inl rfl,fun _ => hlast,
      hold.cancelling,hold.returned,fun m' hm => (hold.raised m' hm).imp_left fun ht => ⟨ht.1,rfl⟩,
      hold.cancelled⟩
  | cancelling => exact ⟨hold.awaits,hold.result,hold.exception,fun _ => Or.inr rfl,hold.expired,
      fun _ => hlast,hold.returned,hold.raised,fun _ => rfl⟩
  | innerCancelled _ hflag => exact hold.settle _ (by simp) (by simp) fun _ => hflag
  | resumed w _ pc pops hw => exact hold.resume w pc pops hw
  | runnerEnded e r _ hr _ =>
    apply hold.settle
    · rintro v rfl
      cases e <;> cases hr
      exact hlast
    · rintro message rfl
      cases e <;> cases hr
      · exact Or.inr (Or.inl ⟨rfl,hlast⟩)
      · exact Or.inl ⟨rfl,hlast⟩
    · rintro rfl
      cases e <;> cases hr
  | stopped _ _ =>
    apply hold.settle
    · simp
    · intro message hm
      cases hm
      exact Or.inr (Or.inr ⟨rfl,hlast⟩)
    · simp

theorem Added.caused (h : Added str m a n s) (acts : List PyMemoryAct) : Caused str acts n s := by
  obtain ⟨_,_,_,hfuture,hpc,he,hc⟩ := h
  rcases hpc with hpc | ⟨v,hpc,hfound⟩
  · constructor <;> simp [hfuture,hpc,he,hc]
  · constructor <;> simp [hfuture,hpc,he,hc]
    exact hfound

theorem run_caused (services : List String) (acts : List PyMemoryAct) (m : PyMemoryTransport)
    (h : run (step str) acts (.new services)=some m) :
    ∀ (n : ℕ) (s : PySend), m.sends[n]?=some s → Caused str acts n s := by
  refine run_induction (I := fun acts m => ∀ (n : ℕ) (s : PySend), m.sends[n]?=some s →
    Caused str acts n s) ?_ ?_ acts m (guarded_true acts _) h
  · intro n s hs
    simp [new] at hs
  · intro before a t u _ hi _ hstep n s' hs'
    rcases (step_spec hstep).1.cases n s' hs' with ⟨s,hs,he⟩ | ⟨_,hadded⟩
    · exact he.caused (hi n s hs)
    · exact hadded.caused _

/-! ### Who waits -/

variable (str) in
/-- The id of a send is, as a string, no earlier one's. -/
def Fresh : PyMemoryAct → PyMemoryTransport → Prop
  | .send env,m => ∀ key, pyRequestKey str env=some key → key∉m.sends.map PySend.key
  | _,_ => True

theorem Evolves.key (h : Evolves m n a s s') : s'.key=s.key := by
  cases h <;> rfl

theorem keys_nodup (hf : Fresh str a m) (hk : (m.sends.map PySend.key).Nodup)
    (hstep : step str a m=some m') : (m'.sends.map PySend.key).Nodup := by
  have hgrown := (step_spec hstep).1
  rcases hgrown.map_cases PySend.key (fun _ _ _ h => h.key) (fun _ _ h => h.place) with
    heq | ⟨s,⟨_,⟨env,rfl,hkey⟩,_⟩,heq⟩
  · rwa [heq]
  · rw [heq]
    exact List.nodup_append.mpr ⟨hk,List.nodup_singleton _,fun x hx y hy hxy =>
      hf s.key hkey (by rwa [← List.mem_singleton.mp hy,← hxy])⟩

def Waiting (m : PyMemoryTransport) : Prop := ∀ (n : ℕ) (s : PySend), m.sends[n]?=some s →
  s.unfinished=true → s.future=none → (s.key,n)∈m.pending

/- A coroutine that has ended stays so, and a future that is set. -/
theorem Evolves.waited (h : Evolves m n a s s') (hu : s'.unfinished=true) (hf : s'.future=none) :
    s.unfinished=true ∧ s.future=none := by
  cases h with
  | same => exact ⟨hu,hf⟩
  | expired => exact ⟨hu,hf⟩
  | cancelling => exact ⟨hu,hf⟩
  | innerCancelled _ _ => exact (s.settle_future _ hf).elim
  | resumed w _ pc pops hw =>
    refine ⟨?_,hf⟩
    rw [PyClientRedisTransport.unfinished_iff]
    intro hfin
    rw [PySend.resume_finished s w hfin] at hw
    cases hw
  | runnerEnded e r _ _ _ => exact (s.settle_future _ hf).elim
  | stopped _ _ => exact (s.settle_future _ hf).elim

theorem Waiting.step (hw : m.Waiting) (hf : Fresh str a m) (hk : (m.sends.map PySend.key).Nodup)
    (hstep : step str a m=some m') : m'.Waiting := by
  intro n s' hs' hu hn
  obtain ⟨hgrown,hentries⟩ := step_spec hstep
  have hself : ∀ i (x : PySend) (f : PySend → PySend), m'.sends=m.sends.modify i f →
      m.sends[i]?=some x → (f x).unfinished=false ∨ (f x).future≠none → n≠i := by
    rintro i x f hsends hx hend rfl
    rw [hsends,List.getElem?_modify_eq,hx] at hs'
    cases hs'
    rcases hend with hend | hend
    · rw [hend] at hu
      cases hu
    · exact hend hn
  rcases hgrown.cases n s' hs' with ⟨s,hs,he⟩ | ⟨_,hadded⟩
  · obtain ⟨hu0,hn0⟩ := he.waited hu hn
    have hold := hw n s hs hu0 hn0
    rw [he.key]
    have hother : ∀ i (x : PySend), m.sends[i]?=some x → n≠i → (s.key,n)∈m.popped x.key := by
      intro i x hx hne
      exact (mem_filter_key _ _ _).mpr ⟨hold,fun hkey => hne (place_inj _ hk hs hx hkey)⟩
    generalize hsends : m'.sends=sends at hentries hself
    generalize m'.pending=pending at hentries
    generalize m'.runners=runners at hentries
    cases hentries with
    | same => exact hold
    | sent env key hkey _ =>
      refine List.mem_cons_of_mem _ ((mem_filter_key _ _ _).mpr ⟨hold,?_⟩)
      rintro rfl
      exact hf s.key hkey (List.mem_map_of_mem (List.mem_of_getElem? hs))
    | popped i w x pc hx hres =>
      refine hother i x hx (hself i x _ rfl hx (Or.inl ?_))
      cases x.resumes w pc true hres <;> rfl
    | runnerSettled i e x r hx _ _ => exact hother i x hx (hself i x _ rfl hx (Or.inr (x.settle_future r)))
    | runnerDropped => exact hold
    | stopped =>
      rw [hsends,PyMemoryTransport.rejectAll,getElem?_foldl_modify _ (PySend.settle_twice _),
        if_pos (List.mem_map_of_mem hold),hs] at hs'
      cases hs'
      exact (s.settle_future _ hn).elim
  · obtain ⟨⟩ := hadded.place
    generalize hsends : m'.sends=sends at hentries
    generalize m'.pending=pending at hentries
    generalize m'.runners=runners at hentries
    obtain ⟨env,rfl,_⟩ := hadded.sent
    cases hentries with
    | same _ _ _ _ hlast =>
      rw [hsends] at hs'
      rw [hlast s' hs'] at hu
      cases hu
    | sent _ key _ _ =>
      rw [hsends] at hs'
      simp only [List.getElem?_concat_length,Option.some.injEq] at hs'
      subst hs'
      exact List.mem_cons_self

/-! ### After a stop -/

theorem send_refused (env : PyVal) (h : m.state≠.started) : m.send str env=m := by
  unfold send
  split
  · rename_i hstate _
    exact (h hstate).elim
  · rfl

theorem send_state (env : PyVal) (m : PyMemoryTransport) : (m.send str env).state=m.state := by
  unfold send
  split
  · split
    · rfl
    · split <;> rfl
  · rfl

theorem step_state (hstep : step str a m=some m') : m'.state=m.state ∨
    (a=.start ∧ m.state≠.stopped ∧ m'.state=.started) ∨ (a=.stop ∧ m'.state=.stopped) := by
  cases a with
  | start =>
    simp only [step,Option.some.injEq] at hstep
    split at hstep
    · cases hstep
      exact Or.inl rfl
    · rename_i hne
      cases hstep
      exact Or.inr (Or.inl ⟨rfl,hne,rfl⟩)
  | registerService name =>
    simp only [step,Option.some.injEq] at hstep
    split at hstep <;> cases hstep <;> exact Or.inl rfl
  | bus services =>
    cases hstep
    exact Or.inl rfl
  | send env =>
    cases hstep
    exact Or.inl (send_state env m)
  | expire n =>
    simp only [step] at hstep
    split at hstep <;> cases hstep
    exact Or.inl rfl
  | cancel n =>
    simp only [step] at hstep
    split at hstep <;> cases hstep
    split <;> exact Or.inl rfl
  | cancelInner n =>
    simp only [step] at hstep
    split at hstep
    · cases hstep
    · split at hstep
      · split at hstep <;> cases hstep
        exact Or.inl rfl
      · cases hstep
  | resume n w =>
    simp only [step,resume] at hstep
    split at hstep
    · cases hstep
    · obtain ⟨⟨pc,pops⟩,_,rfl⟩ := Option.map_eq_some_iff.mp hstep
      exact Or.inl rfl
  | runnerEnds n e =>
    simp only [step,runnerEnds] at hstep
    split at hstep
    · cases hstep
    · split at hstep
      · cases hstep
      · split at hstep <;> cases hstep <;> exact Or.inl rfl
  | stop =>
    cases hstep
    exact Or.inr (Or.inr ⟨rfl,rfl⟩)

/- Where nothing is accepted there is no entry. -/
theorem stopped_pending (hi : m.state≠.started → m.pending=[]) (hstep : step str a m=some m') :
    m'.state≠.started → m'.pending=[] := by
  intro hne
  rcases step_state hstep with heq | ⟨_,_,hstarted⟩ | ⟨rfl,_⟩
  · rw [heq] at hne
    have hp := hi hne
    have hentries := (step_spec hstep).2
    generalize m'.sends=sends at hentries
    generalize m'.pending=pending at hentries
    generalize m'.runners=runners at hentries
    cases hentries with
    | same => exact hp
    | sent _ _ _ hstarted => exact (hne hstarted).elim
    | popped => simp [popped,hp]
    | runnerSettled => simp [popped,hp]
    | runnerDropped => exact hp
    | stopped => rfl
  · exact (hne hstarted).elim
  · cases hstep
    rfl

def turns (m : PyMemoryTransport) : ℕ := (m.sends.map PySend.turns).sum

theorem resume_turns (w : Wake) (hstep : m.resume n w=some m') :
    m'.sends.length=m.sends.length ∧ m'.turns+1 ≤ m.turns := by
  unfold resume at hstep
  split at hstep
  · cases hstep
  · rename_i s hs
    obtain ⟨⟨pc,pops⟩,hw,rfl⟩ := Option.map_eq_some_iff.mp hstep
    have hsum := sum_map_modify (fun s => { s with pc := pc }) PySend.turns m.sends n s hs
    have hless := PySend.resume_turns s w pc pops hw
    simp only [turns,modify,List.length_modify]
    exact ⟨trivial,by omega⟩

end PyMemoryTransport

def PyMemoryAct.resumes : PyMemoryAct → Bool
  | .resume _ _ => true
  | _ => false

namespace PyMemoryTransport

variable {str : PyVal → Option String} {m m' : PyMemoryTransport} {a : PyMemoryAct}

/- Where nothing is accepted, a coroutine that is resumed uses up a turn, and no step adds one. -/
theorem step_turns (hne : m.state≠.started) (hstep : step str a m=some m') :
    m'.sends.length=m.sends.length ∧ m'.turns+(if a.resumes then 1 else 0) ≤ m.turns := by
  by_cases hresume : ∃ n w, a=.resume n w
  · obtain ⟨n,w,rfl⟩ := hresume
    exact resume_turns w hstep
  · have hkeep : m'.sends.map PySend.turns=m.sends.map PySend.turns := by
      have hsame : ∀ n s s', Evolves m n a s s' → s'.turns=s.turns := by
        intro n s s' he
        cases he with
        | resumed w _ pc pops _ => exact (hresume ⟨n,w,rfl⟩).elim
        | _ => rfl
      rcases (step_spec hstep).1.map_cases PySend.turns hsame (fun _ _ h => h.place) with
        heq | ⟨s,hadded,_⟩
      · exact heq
      · exact (hne hadded.started).elim
    have hlen := congrArg List.length hkeep
    simp only [List.length_map] at hlen
    have hno : a.resumes=false := by
      cases a <;> first | rfl | exact (hresume ⟨_,_,rfl⟩).elim
    simp only [turns,hkeep,hno]
    exact ⟨hlen,Nat.le_refl _⟩

theorem run_turns (acts : List PyMemoryAct) (hs : m.state=.stopped) (hp : m.pending=[])
    (h : run (step str) acts m=some m') : m'.state=.stopped ∧ m'.sends.length=m.sends.length ∧
      m'.pending=[] ∧ m'.turns+acts.countP PyMemoryAct.resumes ≤ m.turns := by
  induction acts generalizing m with
  | nil =>
    cases h
    exact ⟨hs,rfl,hp,Nat.le_refl _⟩
  | cons a acts ih =>
    obtain ⟨u,hstep,hrun⟩ := Option.bind_eq_some_iff.mp h
    have hne : m.state≠.started := by
      rw [hs]
      simp
    have hstate : u.state=.stopped := by
      rcases step_state hstep with heq | ⟨_,hno,_⟩ | ⟨_,heq⟩
      · rw [heq,hs]
      · exact (hno hs).elim
      · exact heq
    have hpending : u.pending=[] := by
      apply stopped_pending (fun _ => hp) hstep
      rw [hstate]
      simp
    obtain ⟨hlen,hturns⟩ := step_turns hne hstep
    obtain ⟨hlast,hlen',hnone,hrest⟩ := ih hstate hpending hrun
    refine ⟨hlast,hlen'.trans hlen,hnone,?_⟩
    rw [List.countP_cons]
    omega

/-- What holds of a run whose ids are distinct as strings. -/
structure Kept (str : PyVal → Option String) (acts : List PyMemoryAct) (m : PyMemoryTransport) : Prop where
  keys : (m.sends.map PySend.key).Nodup
  waiting : m.Waiting
  stopped : m.state≠.started → m.pending=[]

theorem run_kept (services : List String) (acts : List PyMemoryAct) (m : PyMemoryTransport)
    (hg : Guarded (step str) (Fresh str) acts (.new services))
    (h : run (step str) acts (.new services)=some m) : Kept str acts m := by
  refine run_induction (I := Kept str) ?_ ?_ acts m hg h
  · refine ⟨List.nodup_nil,fun n s hs => ?_,fun _ => rfl⟩
    simp [new] at hs
  · intro before a t u _ hi hf hstep
    exact ⟨keys_nodup hf hi.keys hstep,hi.waiting.step hf hi.keys hstep,stopped_pending hi.stopped hstep⟩

end PyMemoryTransport

/-- Over memory each call ends for a cause of its own, in either language: what it resolves to or
returns is the reply of the dispatcher that was called for it, whatever the ids in that reply are
(in Python an answer made up for a service that is not on the bus, for its own id); it fails only
for its dispatcher's failure, its deadline, a stop or its cancellation. -/
theorem memory_causes (T : Texts) (str : PyVal → Option String) :
    (∀ (acts : List MemoryAct) (m m' : MemoryTransport), m.Started →
      Guarded (MemoryTransport.step T) (MemoryTransport.Fresh T) acts m →
      run (MemoryTransport.step T) acts m=some m' → m'.calls.Placed (MemoryTransport.Cause acts)) ∧
    ∀ (acts : List PyMemoryAct) (services : List String) (m : PyMemoryTransport),
      run (PyMemoryTransport.step str) acts (.new services)=some m →
      ∀ (n : ℕ) (s : PySend), m.sends[n]?=some s →
        (∀ v, s.pc=.finished (.returned v) → .runnerEnds n (.reply v)∈acts ∨
          PyMemoryTransport.NotFound str s.key v) ∧
        (∀ message, s.pc=.finished (.raised message) →
          (message="call timeout" ∧ .expire n∈acts) ∨ PyMemoryTransport.Thrown acts n message) ∧
        (s.pc=.finished .cancelled → .cancel n∈acts) := by
  refine ⟨fun acts m m' h0 hg h => (MemoryTransport.run_tabled h0 hg h).caused,?_⟩
  intro acts services m h n s hs
  have hc := PyMemoryTransport.run_caused services acts m h n s hs
  refine ⟨fun v hv => ?_,fun message hm => ?_,fun hcancel => hc.cancelling (hc.cancelled hcancel)⟩
  · exact (hc.returned v hv).imp_left (hc.result v)
  · exact (hc.raised message hm).imp (fun ht => ⟨ht.1,hc.expired ht.2⟩) (hc.exception message)

/-- A stop over memory settles everything, in either language. It rejects whoever waits; from then
on the map is empty and nothing is accepted. In TypeScript every promise is settled and no timer
runs; in Python every coroutine left has its future set, needs no reply and no timer to come, and
is resumed at most twice until it has ended. -/
theorem memory_stop_settles (T : Texts) (str : PyVal → Option String) :
    (∀ (acts : List MemoryAct) (m m' : MemoryTransport), m.Started →
      Guarded (MemoryTransport.step T) (MemoryTransport.Fresh T) acts m →
      run (MemoryTransport.step T) acts m=some m' →
        (∀ m'', MemoryTransport.step T .stop m'=some m'' → ∀ (n : ℕ) (s : Slot String Outcome),
          m'.calls.slots[n]?=some s → s.outcome=none →
            ∃ s', m''.calls.slots[n]?=some s' ∧ s'.outcome=some .stopped) ∧
        (m'.state≠.started → m'.calls.pending=[] ∧ (∀ env, m'.send T env=m') ∧
          ∀ (n : ℕ) (s : Slot String Outcome), m'.calls.slots[n]?=some s →
            s.outcome≠none ∧ s.armed=false)) ∧
    ∀ (acts : List PyMemoryAct) (services : List String) (m : PyMemoryTransport),
      Guarded (PyMemoryTransport.step str) (PyMemoryTransport.Fresh str) acts (.new services) →
      run (PyMemoryTransport.step str) acts (.new services)=some m →
        (∀ m', PyMemoryTransport.step str .stop m=some m' → ∀ (n : ℕ) (s : PySend),
          m.sends[n]?=some s → s.unfinished=true → s.future=none →
            m'.sends[n]?=some { s with future := some (.exception "transport stopped") }) ∧
        (m.state=.stopped →
          (∀ (n : ℕ) (s : PySend), m.sends[n]?=some s → s.unfinished=true → s.future≠none ∧
            ∃ w m', PyMemoryTransport.step str (.resume n w) m=some m') ∧
          ∀ acts' m', run (PyMemoryTransport.step str) acts' m=some m' → m'.state=.stopped ∧
            m'.pending=[] ∧ m'.sends.length=m.sends.length ∧
            m'.turns+acts'.countP PyMemoryAct.resumes ≤ m.turns) := by
  constructor
  · intro acts m m' h0 hg h
    have htabled := MemoryTransport.run_tabled h0 hg h
    refine ⟨fun m'' hstep n s hs hwait => ?_,fun hne => ?_⟩
    · cases hstep
      exact Calls.sweep_outcome htabled.kept .stopped n s hs hwait
    · have hp : m'.calls.pending=[] := by
        refine run_induction (I := fun _ m => m.state≠.started → m.calls.pending=[]) ?_ ?_ acts m' hg h hne
        · intro hstate
          exact (hstate h0.1).elim
        · intro before a t u _ hi _ hstep
          exact MemoryTransport.stopped_step hi hstep
      exact ⟨hp,fun env => MemoryTransport.send_refused env hne,htabled.kept.settled_of_empty hp⟩
  · intro acts services m hg h
    have hkept := PyMemoryTransport.run_kept services acts m hg h
    refine ⟨fun m' hstep n s hs hu hf => ?_,fun hstopped => ?_⟩
    · cases hstep
      have hmem : n∈m.pending.map Prod.snd := List.mem_map_of_mem (hkept.waiting n s hs hu hf)
      simp only [PyMemoryTransport.stop,PyMemoryTransport.rejectAll]
      rw [getElem?_foldl_modify _ (PySend.settle_twice _),if_pos hmem,hs]
      simp [PySend.settle,hf]
    · have hp : m.pending=[] := by
        apply hkept.stopped
        rw [hstopped]
        simp
      refine ⟨fun n s hs hu => ?_,fun acts' m' hrun => ?_⟩
      · have hf : s.future≠none := by
          intro hnone
          have hmem := hkept.waiting n s hs hu hnone
          rw [hp] at hmem
          cases hmem
        have hc := PyMemoryTransport.run_caused services acts m h n s hs
        obtain ⟨w,p,hw⟩ := s.resume_enabled hu hf hc.inner
        have hsome : (PyMemoryTransport.step str (.resume n w) m).isSome := by
          simp [PyMemoryTransport.step,PyMemoryTransport.resume,hs,hw]
        exact ⟨hf,w,Option.isSome_iff_exists.mp hsome⟩
      · obtain ⟨hstate,hlen,hpending,hturns⟩ := PyMemoryTransport.run_turns acts' hstopped hp hrun
        exact ⟨hstate,hpending,hlen,hturns⟩

/-! ### One run of each -/

def stoppedMemory : List MemoryAct :=
  [.send (addRequest (Js.str "1")),.send (addRequest (Js.str "2")),
    .dispatched 0 (.reply (buildSuccessResponse (Js.str "1") Js.null)),.stop]

theorem stoppedMemory_fresh : Guarded (MemoryTransport.step plainTexts)
    (MemoryTransport.Fresh plainTexts) stoppedMemory startedMemory := by
  refine ⟨?_,?_,trivial,trivial,trivial⟩
  · intro key hkey s hs
    cases hs
  · intro key hkey s hs
    cases hkey
    cases List.mem_singleton.mp hs
    simp

def stoppedPyMemory : List PyMemoryAct :=
  [.start,.send addCall,.send (pyBuildRequest "arith.add" (.obj []) (Py.str "2")),
    .runnerEnds 0 (.reply Py.null),.resume 0 .done,.stop]

theorem stoppedPyMemory_fresh : Guarded (PyMemoryTransport.step plainStr)
    (PyMemoryTransport.Fresh plainStr) stoppedPyMemory (.new ["arith"]) := by
  refine ⟨trivial,fun _ _ h => List.not_mem_nil h,?_,trivial,trivial,trivial,trivial⟩
  intro key hkey hmem
  cases hkey
  exact absurd (List.mem_singleton.mp hmem) (by decide)

theorem memory_causes_two :
    (∃ m, run (MemoryTransport.step plainTexts) stoppedMemory startedMemory=some m ∧
      m.calls.Placed (MemoryTransport.Cause stoppedMemory)) ∧
    ∃ m s, run (PyMemoryTransport.step plainStr) stoppedPyMemory (.new ["arith"])=some m ∧
      m.sends[0]?=some s ∧ s.pc=.finished (.returned Py.null) ∧
      (.runnerEnds 0 (.reply Py.null)∈stoppedPyMemory ∨
        PyMemoryTransport.NotFound plainStr s.key Py.null) := by
  have hts : (run (MemoryTransport.step plainTexts) stoppedMemory startedMemory).isSome := rfl
  have hpy : (run (PyMemoryTransport.step plainStr) stoppedPyMemory (.new ["arith"])).isSome := rfl
  have hall := memory_causes plainTexts plainStr
  refine ⟨⟨_,(Option.some_get hts).symm,?_⟩,⟨_,_,(Option.some_get hpy).symm,rfl,rfl,?_⟩⟩
  · exact hall.1 _ _ _ startedMemory_started stoppedMemory_fresh (Option.some_get hts).symm
  · exact (hall.2 _ _ _ (Option.some_get hpy).symm 0 _ rfl).1 _ rfl

theorem memory_stop_settles_two :
    (∃ m s, run (MemoryTransport.step plainTexts) stoppedMemory startedMemory=some m ∧
      m.calls.slots[1]?=some s ∧ s.outcome≠none ∧ m.calls.pending=[]) ∧
    ∃ m, run (PyMemoryTransport.step plainStr) stoppedPyMemory (.new ["arith"])=some m ∧ m.turns=1 ∧
      ∃ w m', PyMemoryTransport.step plainStr (.resume 1 w) m=some m' := by
  have hts : (run (MemoryTransport.step plainTexts) stoppedMemory startedMemory).isSome := rfl
  have hpy : (run (PyMemoryTransport.step plainStr) stoppedPyMemory (.new ["arith"])).isSome := rfl
  have hall := memory_stop_settles plainTexts plainStr
  have hne : LifeState.stopped≠.started := by decide
  have hafter := (hall.1 _ _ _ startedMemory_started stoppedMemory_fresh (Option.some_get hts).symm).2 hne
  have hleft := ((hall.2 _ _ _ stoppedPyMemory_fresh (Option.some_get hpy).symm).2 rfl).1
  exact ⟨⟨_,_,(Option.some_get hts).symm,rfl,(hafter.2.2 1 _ rfl).1,hafter.1⟩,
    ⟨_,(Option.some_get hpy).symm,rfl,(hleft 1 _ rfl rfl).2⟩⟩

end Clamator.Client
