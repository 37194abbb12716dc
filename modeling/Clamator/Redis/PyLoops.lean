import Clamator.Base.Reach
import Clamator.Redis.ServerLoop
import Clamator.Redis.HandleEntry

/-!
# The Python loops under their handlers (`_consumer_loop`, `_reclaim_loop`)

Both loops take CancelledError for their own cancellation and return. A handler that ends in
one, for instance because it awaited a task it had cancelled, ends the loop as well, on a
server that nobody stopped. Nothing else does: every other outcome, and every error of
Redis, leads to another read.
-/

namespace Clamator.Redis
open Clamator.Base Clamator.Protocol

/-- What a loop meets at its awaits, the dispatch with the user code that it runs. -/
inductive PyEv where
  | wake
  | got (batch : List Item)
  | readThrew
  | enter (now : ℕ)
  | settle (entry : PyServiceEntry)
  | replied (ok : Bool)
  | acked (ok : Bool)

def PyEv.event : PyEv → Pc → Option LoopEv
  | .wake,_ => some .wake
  | .got batch,_ => some (.got batch)
  | .readThrew,_ => some .readThrew
  | .enter now,_ => some (.enter now)
  | .settle entry,.handle _ cur _ => (dispatch (.py entry) cur.2).map .settled
  | .settle _,_ => none
  | .replied ok,_ => some (.replied ok)
  | .acked ok,_ => some (.acked ok)

def pyLoopStep (kind : LoopKind) (ev : PyEv) (pc : Pc) : Option Pc :=
  (ev.event pc).bind fun ev => Loop.step .py kind false ev pc

/-! ### Cancellation -/

def handlerRun (entry : PyServiceEntry) (method : String) (params : PyVal) :
    Option (HandlerRun PyVal PyThrown) := match entry.contract.methods.lookup method with
  | none => none
  | some m => match m.paramsModel params with
    | .valid params => (entry.handlers m.handlerAttr).map fun handler => handler params
    | _ => none

def EndsCancelled : HandlerRun PyVal PyThrown → Prop
  | .threw .base => True
  | .rejected .base => True
  | _ => False

theorem pySettleHandler_cancelled_iff (m : MethodEntry) (id : Option PyVal)
    (run : HandlerRun PyVal PyThrown) : pySettleHandler m id run=.cancelled ↔ EndsCancelled run := by
  cases run with
  | threw e => cases e <;> simp [pySettleHandler,EndsCancelled]
  | rejected e =>
    cases e with
    | base => simp [pySettleHandler,EndsCancelled]
    | rpcError code message data => cases id <;> simp [pySettleHandler,EndsCancelled]
    | exception e =>
      cases id with
      | none => simp [pySettleHandler,EndsCancelled]
      | some id =>
        simp only [pySettleHandler,EndsCancelled,iff_false]
        cases pyExceptionToErrorData e <;> simp
  | resolved result =>
    cases id with
    | none => simp [pySettleHandler,EndsCancelled]
    | some id =>
      simp only [pySettleHandler,EndsCancelled,iff_false]
      cases m.resultModel with
      | none => simp
      | some model =>
        simp only
        cases model result with
        | valid dump => cases dump <;> simp
        | invalid errors => simp
        | raised => simp

theorem pyDispatchCall_cancelled_iff (entry : PyServiceEntry) (method : String) (params : PyVal)
    (id : Option PyVal) : (pyDispatchCall entry method params id).settled=.cancelled ↔
      ∃ run, handlerRun entry method params=some run ∧ EndsCancelled run := by
  simp only [pyDispatchCall,handlerRun]
  cases entry.contract.methods.lookup method with
  | none => simp [Dispatch.early]
  | some m =>
    simp only
    cases m.paramsModel params with
    | invalid errors => simp [Dispatch.early]
    | raised => simp
    | valid params =>
      simp only
      cases entry.handlers m.handlerAttr with
      | none => simp [Dispatch.early]
      | some handler => simp [pySettleHandler_cancelled_iff]

def Cancels (entry : PyServiceEntry) : Envelope PyVal → Prop
  | .request _ method _ params _ => ∃ run, handlerRun entry method params=some run ∧ EndsCancelled run
  | .notification _ method _ params => ∃ run, handlerRun entry method params=some run ∧ EndsCancelled run
  | _ => False

theorem pyDispatcher_cancelled_iff (entry : PyServiceEntry) (env : Envelope PyVal) :
    (pyDispatcher (some entry) env).settled=.cancelled ↔ Cancels entry env := by
  cases env with
  | request service method fullMethod params id => exact pyDispatchCall_cancelled_iff entry method params _
  | notification service method fullMethod params =>
    exact pyDispatchCall_cancelled_iff entry method params none
  | success id result => simp [pyDispatcher,Dispatch.early,Cancels]
  | error id code message data => simp [pyDispatcher,Dispatch.early,Cancels]

def Uncancelled : PyEv → Pc → Prop
  | .settle entry,.handle _ cur _ =>
    ∀ env replyTo, pyReadEntry cur.2=.decoded env replyTo → ¬Cancels entry env
  | _,_ => True

theorem settled_map_cancelled {V W : Type} (f : V → W) (s : Settled V) :
    Settled.map f s=.cancelled ↔ s=.cancelled := by
  cases s <;> simp [Settled.map]

theorem dispatch_cancelled_iff (entry : PyServiceEntry) (fields : List Bulk) :
    dispatch (.py entry) fields=some .cancelled ↔
      ∃ env replyTo, pyReadEntry fields=.decoded env replyTo ∧ Cancels entry env := by
  simp only [dispatch]
  cases hr : pyReadEntry fields with
  | decoded env replyTo =>
    simp only [Option.some.injEq,settled_map_cancelled,pyDispatcher_cancelled_iff]
    constructor
    · intro h
      exact ⟨env,replyTo,rfl,h⟩
    · rintro ⟨env',replyTo',h,hc⟩
      cases h
      exact hc
  | missing => simp
  | poison => simp
  | raised => simp

/-! ### Steps -/

theorem stage_cancelled_iff (lang : Lang) (fields : List Bulk) (ev : LoopEv) (stage : Stage) :
    stage.step lang fields ev=some .cancelled ↔
      ev=.settled .cancelled ∧ ∃ since, stage=.dispatch since := by
  constructor
  · intro h
    cases Stage.step_stepped h with
    | cancelled since => exact ⟨rfl,since,rfl⟩
  · rintro ⟨rfl,since,rfl⟩
    rfl

theorem top_ne_exited (kind : LoopKind) : kind.top false≠.exited := by
  cases kind <;> simp [LoopKind.top]

theorem batch_ne_exited (kind : LoopKind) (batch : List Item) : kind.batch false batch≠.exited := by
  cases batch with
  | nil => exact top_ne_exited kind
  | cons cur rest => simp [LoopKind.batch]

theorem after_exited_iff (kind : LoopKind) (cur : Item) (rest : List Item) (progress : Progress) :
    Pc.after kind false cur rest progress=.exited ↔ progress=.cancelled := by
  cases progress with
  | stage stage => simp [Pc.after]
  | returned => simp [Pc.after,batch_ne_exited]
  | threw => simp [Pc.after,Pc.caught]
  | cancelled => simp [Pc.after]

theorem event_settled (ev : PyEv) (stage : Stage) (cur : Item) (rest : List Item)
    (h : ev.event (.handle stage cur rest)=some (.settled .cancelled)) :
    ∃ entry, ev=.settle entry ∧ dispatch (.py entry) cur.2=some .cancelled := by
  cases ev with
  | settle entry =>
    obtain ⟨out,ho,hs⟩ := Option.map_eq_some_iff.mp h
    cases hs
    exact ⟨entry,rfl,ho⟩
  | _ => simp [PyEv.event] at h

/- A step ends a loop exactly when the handler that it dispatches to ends in
CancelledError. -/
theorem pyLoopStep_exited_iff (kind : LoopKind) (ev : PyEv) (pc pc' : Pc)
    (h : pyLoopStep kind ev pc=some pc') : pc'=.exited ↔ ¬Uncancelled ev pc := by
  obtain ⟨lev,hev,hstep⟩ := Option.bind_eq_some_iff.mp h
  cases pc with
  | sleep =>
    cases ev with
    | wake =>
      cases hev
      cases hstep
      simp [Uncancelled]
    | _ => cases hev <;> cases hstep
  | poll =>
    cases ev with
    | got batch =>
      cases hev
      cases hstep
      simp [Uncancelled,batch_ne_exited]
    | readThrew =>
      cases hev
      cases hstep
      simp [Uncancelled,Pc.caught]
    | _ => cases hev <;> cases hstep
  | exited =>
    cases lev <;> cases hstep
  | handle stage cur rest =>
    rw [Loop.step_handle] at hstep
    obtain ⟨progress,hp,rfl⟩ := Option.map_eq_some_iff.mp hstep
    rw [after_exited_iff]
    constructor
    · rintro rfl
      obtain ⟨rfl,-⟩ := (stage_cancelled_iff .py cur.2 lev stage).mp hp
      obtain ⟨entry,rfl,hd⟩ := event_settled ev stage cur rest hev
      obtain ⟨env,replyTo,hr,hc⟩ := (dispatch_cancelled_iff entry cur.2).mp hd
      exact fun hu => hu env replyTo hr hc
    · intro hu
      cases ev with
      | settle entry =>
        simp only [Uncancelled,not_forall,not_not] at hu
        obtain ⟨env,replyTo,hr,hc⟩ := hu
        have hd := (dispatch_cancelled_iff entry cur.2).mpr ⟨env,replyTo,hr,hc⟩
        simp only [PyEv.event,hd,Option.map_some,Option.some.injEq] at hev
        subst hev
        cases stage <;> cases hp
        rfl
      | _ => exact (hu trivial).elim

/-! ### The next read -/

/-- The awaits that `handleEntry` has left at most. -/
def Stage.awaits : Stage → ℕ
  | .start => 4
  | .dispatch _ => 3
  | .reply _ _ => 2
  | .ack => 1

/-- The awaits that a loop has left at most before its next read. -/
def Pc.awaits : Pc → ℕ
  | .sleep => 1
  | .poll => 0
  | .handle stage _ rest => stage.awaits+4*rest.length+1
  | .exited => 0

theorem stage_awaits_lt (lang : Lang) (fields : List Bulk) (ev : LoopEv) (stage stage' : Stage)
    (h : stage.step lang fields ev=some (.stage stage')) : stage'.awaits < stage.awaits := by
  cases Stage.step_stepped h <;> simp [Stage.awaits]

theorem batch_awaits (kind : LoopKind) (batch : List Item) :
    (kind.batch false batch).awaits ≤ 4*batch.length+1 := by
  cases batch with
  | nil => cases kind <;> simp [LoopKind.batch,LoopKind.top,Pc.awaits]
  | cons cur rest =>
    simp only [LoopKind.batch,Pc.awaits,Stage.awaits,List.length_cons]
    omega

/- Every step away from the read comes closer to the next one. -/
theorem pyLoopStep_awaits_lt (kind : LoopKind) (ev : PyEv) (pc pc' : Pc)
    (h : pyLoopStep kind ev pc=some pc') (hpoll : pc≠.poll) : pc'.awaits < pc.awaits := by
  obtain ⟨lev,hev,hstep⟩ := Option.bind_eq_some_iff.mp h
  cases pc with
  | sleep =>
    cases lev with
    | wake =>
      cases hstep
      simp [Pc.awaits]
    | _ => cases hstep
  | poll => exact (hpoll rfl).elim
  | exited => cases lev <;> cases hstep
  | handle stage cur rest =>
    rw [Loop.step_handle] at hstep
    obtain ⟨progress,hp,rfl⟩ := Option.map_eq_some_iff.mp hstep
    have hpos : 0 < stage.awaits := by cases stage <;> simp [Stage.awaits]
    cases progress with
    | stage stage' =>
      have hlt := stage_awaits_lt .py cur.2 lev stage stage' hp
      simp only [Pc.after,Pc.awaits]
      omega
    | returned =>
      have hb := batch_awaits kind rest
      show (kind.batch false rest).awaits < stage.awaits+4*rest.length+1
      omega
    | threw =>
      simp only [Pc.after,Pc.caught,Bool.false_eq_true,if_false,Pc.awaits]
      omega
    | cancelled =>
      simp only [Pc.after,Pc.awaits]
      omega

theorem passes_poll (kind : LoopKind) (evs : List PyEv) (pc pc' : Pc)
    (h : run (pyLoopStep kind) evs pc=some pc') (hlen : pc.awaits ≤ evs.length)
    (hne : ∀ pc2∈states (pyLoopStep kind) evs pc, pc2≠.exited) :
    .poll∈states (pyLoopStep kind) evs pc := by
  induction evs generalizing pc with
  | nil =>
    have hpc := hne pc (List.mem_singleton.mpr rfl)
    cases pc with
    | poll => exact List.mem_singleton.mpr rfl
    | exited => exact (hpc rfl).elim
    | sleep => simp [Pc.awaits] at hlen
    | handle stage cur rest => simp [Pc.awaits] at hlen
  | cons ev evs ih =>
    by_cases hpoll : pc=.poll
    · subst hpoll
      simp [states]
    · obtain ⟨pc1,hstep,hrun⟩ := Option.bind_eq_some_iff.mp h
      have hlt := pyLoopStep_awaits_lt kind ev pc pc1 hstep hpoll
      simp only [states,hstep,List.mem_cons] at hne ⊢
      simp only [List.length_cons] at hlen
      exact .inr (ih pc1 hrun (by omega) fun pc2 h2 => hne pc2 (.inr h2))

/-! ### Every await ends -/

def Decoded : Pc → Prop
  | .handle (.dispatch _) cur _ => ∃ env replyTo, pyReadEntry cur.2=.decoded env replyTo
  | _ => True

theorem decoded_top (kind : LoopKind) : Decoded (kind.top false) := by
  cases kind <;> exact trivial

theorem decoded_batch (kind : LoopKind) (batch : List Item) : Decoded (kind.batch false batch) := by
  cases batch with
  | nil => exact decoded_top kind
  | cons cur rest => exact trivial

theorem stage_decoded (fields : List Bulk) (ev : LoopEv) (stage : Stage) (since : ℕ)
    (h : stage.step .py fields ev=some (.stage (.dispatch since))) :
    ∃ env replyTo, pyReadEntry fields=.decoded env replyTo := by
  cases Stage.step_stepped h with
  | dispatched now replyTo hi =>
    obtain ⟨env,henv⟩ := Reading.inspection_dispatch hi
    exact ⟨env,replyTo,henv⟩

theorem pyLoopStep_decoded (kind : LoopKind) (ev : PyEv) (pc pc' : Pc)
    (h : pyLoopStep kind ev pc=some pc') : Decoded pc' := by
  obtain ⟨lev,hev,hstep⟩ := Option.bind_eq_some_iff.mp h
  cases pc with
  | sleep =>
    cases lev with
    | wake =>
      cases hstep
      exact trivial
    | _ => cases hstep
  | poll =>
    cases lev with
    | got batch =>
      cases hstep
      exact decoded_batch kind batch
    | readThrew =>
      cases hstep
      exact trivial
    | _ => cases hstep
  | exited => cases lev <;> cases hstep
  | handle stage cur rest =>
    rw [Loop.step_handle] at hstep
    obtain ⟨progress,hp,rfl⟩ := Option.map_eq_some_iff.mp hstep
    cases progress with
    | stage stage' =>
      cases stage' with
      | dispatch since => exact stage_decoded cur.2 lev stage since hp
      | _ => exact trivial
    | returned => exact decoded_batch kind rest
    | threw => exact trivial
    | cancelled => exact trivial

def emptyService : PyServiceEntry := ⟨⟨"",[]⟩,fun _ => none⟩

theorem pyLoopStep_enabled (kind : LoopKind) (pc : Pc) (hd : Decoded pc) (hne : pc≠.exited) :
    ∃ ev, (pyLoopStep kind ev pc).isSome := by
  cases pc with
  | sleep => exact ⟨.wake,rfl⟩
  | poll => exact ⟨.readThrew,rfl⟩
  | exited => exact (hne rfl).elim
  | handle stage cur rest =>
    cases stage with
    | start => exact ⟨.enter 0,rfl⟩
    | dispatch since =>
      obtain ⟨env,replyTo,hr⟩ := hd
      refine ⟨.settle emptyService,?_⟩
      simp only [pyLoopStep,PyEv.event,dispatch,hr]
      rfl
    | reply replyTo envelope => exact ⟨.replied true,rfl⟩
    | ack => exact ⟨.acked true,rfl⟩

/-- A loop that runs, and issues its next read within the awaits it has left. -/
structure Consuming (kind : LoopKind) (pc : Pc) (after : List PyEv) : Prop where
  running : pc≠.exited
  enabled : ∃ ev, (pyLoopStep kind ev pc).isSome
  reads : pc.awaits ≤ after.length → (run (pyLoopStep kind) after pc).isSome →
    .poll∈states (pyLoopStep kind) after pc

theorem running_states (kind : LoopKind) (evs : List PyEv) (pc : Pc) (hd : Decoded pc)
    (hne : pc≠.exited) (hg : Guarded (pyLoopStep kind) Uncancelled evs pc) :
    ∀ pc'∈states (pyLoopStep kind) evs pc, pc'≠.exited ∧ Decoded pc' := by
  refine states_invariant (fun ev pc pc' _ hu hstep => ?_) evs pc ⟨hne,hd⟩ hg
  refine ⟨fun hx => ?_,pyLoopStep_decoded kind ev pc pc' hstep⟩
  exact (pyLoopStep_exited_iff kind ev pc pc' hstep).mp hx hu

/-- A loop keeps consuming, at every point of a run, exactly when no handler that it
dispatches to ends in CancelledError. -/
theorem consuming_iff (kind : LoopKind) (evs : List PyEv) :
    (∀ before after pc, evs=before++after → run (pyLoopStep kind) before (kind.top false)=some pc →
      Consuming kind pc after) ↔ Guarded (pyLoopStep kind) Uncancelled evs (kind.top false) := by
  constructor
  · intro h
    rw [guarded_iff]
    intro before ev after pc pc' hsplit hrun hstep
    have hrun' : run (pyLoopStep kind) (before++[ev]) (kind.top false)=some pc' := by
      rw [Clamator.Base.run_append _ before [ev] _ pc hrun]
      simp only [run,hstep,Option.bind_some]
    have hc := h (before++[ev]) after pc' (by rw [hsplit]; simp) hrun'
    by_contra hu
    exact hc.running ((pyLoopStep_exited_iff kind ev pc pc' hstep).mpr hu)
  · intro hg before after pc hsplit hrun
    subst hsplit
    obtain ⟨hb,ha⟩ := (guarded_append before after _ pc hrun).mp hg
    have hpc := running_states kind before _ (decoded_top kind) (top_ne_exited kind) hb pc
      (run_mem_states _ _ _ _ hrun)
    have hafter := running_states kind after pc hpc.2 hpc.1 ha
    refine ⟨hpc.1,pyLoopStep_enabled kind pc hpc.2 hpc.1,fun hlen hsome => ?_⟩
    obtain ⟨pc',hpc'⟩ := Option.isSome_iff_exists.mp hsome
    exact passes_poll kind after pc pc' hpc' hlen fun pc2 h2 => (hafter pc2 h2).1

def cancellingEntry : PyServiceEntry :=
  ⟨⟨"arith",[("add",⟨.valid,some fun v => .valid (some v),"add"⟩)]⟩,
    fun _ => some fun _ => .rejected .base⟩

/-- One entry ends the consumer loop. -/
theorem consumer_cancelled : run (pyLoopStep .consumer)
      [.got [(0,addFields)],.enter 0,.settle cancellingEntry] (LoopKind.consumer.top false)=
        some .exited ∧
    ¬∀ before after pc, [PyEv.got [(0,addFields)],.enter 0,.settle cancellingEntry]=before++after →
      run (pyLoopStep .consumer) before (LoopKind.consumer.top false)=some pc →
        Consuming .consumer pc after := by
  have hrun : run (pyLoopStep .consumer) [.got [(0,addFields)],.enter 0,.settle cancellingEntry]
    (LoopKind.consumer.top false)=some .exited := rfl
  exact ⟨hrun,fun h => (h _ [] .exited (List.append_nil _).symm hrun).running rfl⟩

end Clamator.Redis
