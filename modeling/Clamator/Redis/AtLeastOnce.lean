import Clamator.Redis.History
import Clamator.Redis.NamedField
import Clamator.Base.Reach

/-!
# At-least-once with reply before ack

Every entry added to a command stream after its group exists is undelivered,
pending or acknowledged, and it is acknowledged only where a server could not
decode it or has dispatched it and written the reply. The invariant follows each
loop through `handleEntry`: where it stands at the XACK, that condition holds.
What a server could not decode is at first what it reads; where the entry is
legible, it is what the fields of these names hold.
-/

namespace Clamator.Redis
open Clamator.Base Clamator.Protocol

/-- The server has decoded the entry, and the reply of its dispatch, if there is one and the
entry asks for it, has been added to the stream to reply to. -/
def Replied (D : Deployment) (w : World) (r : Completed) : Prop :=
  ∃ replyTo, inspect (w.servers r.server).lang r.fields=.dispatch replyTo ∧
    ∀ key answer, replyTo=some key → r.reply=some answer →
      ∃ d, answer.text=some d ∧ D.plainFields d∈(w.streams key).entries

/-- Acked undispatched by a server that has been started, or dispatched by one and replied to. -/
def AckCause (D : Deployment) (started : ℕ → String → Prop) (w : World) (service : String)
    (item : Item) : Prop :=
  (∃ s, started s service ∧ inspect (w.servers s).lang item.2=.ack) ∨
  ∃ r∈w.completed, started r.server service ∧ r.service=service ∧ r.index=item.1 ∧
    r.fields=item.2 ∧ Replied D w r

def Holds (D : Deployment) (w : World) (service : String) (item : Item) : Prop :=
  (w.streams (D.commandStream service)).entries[item.1]?=some item.2

def StageOk (D : Deployment) (started : ℕ → String → Prop) (w : World) (s : ℕ) (service : String) (cur : Item) : Stage → Prop
  | .start => True
  | .dispatch _ => True
  | .reply replyTo envelope => ∃ r∈w.completed, r.server=s ∧ r.service=service ∧ r.index=cur.1 ∧
    r.fields=cur.2 ∧ inspect (w.servers s).lang cur.2=.dispatch (some replyTo) ∧
    ∃ answer, r.reply=some answer ∧ answer.text=some envelope
  | .ack => AckCause D started w service cur

def LoopOk (D : Deployment) (started : ℕ → String → Prop) (w : World) (s : ℕ) (service : String) : Pc → Prop
  | .handle stage cur rest =>
    (∀ item∈cur::rest, Holds D w service item) ∧ StageOk D started w s service cur stage
  | _ => True

structure AckAccount (D : Deployment) (started : ℕ → String → Prop) (w : World) : Prop where
  running : ∀ s service kind, (w.servers s).loops service kind≠.exited → started s service
  loops : ∀ s service kind, LoopOk D started w s service ((w.servers s).loops service kind)
  acked : ∀ service i, (w.streams (D.commandStream service)).Acked i →
    ∃ fields, Holds D w service (i,fields) ∧ AckCause D started w service (i,fields)

/-- The account where nothing is said of the servers that have been started. -/
abbrev AckInvariant (D : Deployment) (w : World) : Prop := AckAccount D (fun _ _ => True) w

/-- The run has started the server with the service. -/
def Started (acts : List Act) (s : ℕ) (service : String) : Prop := .start s service .ok∈acts

/-- By the fields of the entry: some server that was started with the service cannot decode its
envelope; or the dispatcher of one ran to completion, and its reply is in the stream that the entry
names. -/
def Ackable (D : Deployment) (started : ℕ → String → Prop) (w : World) (service : String)
    (item : Item) : Prop :=
  (∃ s, started s service ∧ Undecodable (w.servers s).lang item.2) ∨
  ∃ r∈w.completed, started r.server service ∧ r.service=service ∧ r.index=item.1 ∧
    r.fields=item.2 ∧ ∀ replyTo answer, namedReplyTo item.2=some replyTo → r.reply=some answer →
      ∃ d, answer.text=some d ∧ D.plainFields d∈(w.streams replyTo).entries

variable {started : ℕ → String → Prop}

/-! ### What growth keeps -/

theorem Replied.mono {D : Deployment} {w w' : World} {r : Completed} (hg : Grows w w')
    (h : Replied D w r) : Replied D w' r := by
  obtain ⟨replyTo,hi,h⟩ := h
  refine ⟨replyTo,?_,fun key answer hk hr => ?_⟩
  · rw [hg.lang]
    exact hi
  · obtain ⟨d,hd,hm⟩ := h key answer hk hr
    exact ⟨d,hd,(hg.entries key).subset hm⟩

theorem AckCause.mono {D : Deployment} {w w' : World} {service : String} {item : Item}
    (hg : Grows w w') (h : AckCause D started w service item) : AckCause D started w' service item := by
  rcases h with ⟨s,hs,hi⟩ | ⟨r,hr,hs,h1,h2,h3,h4⟩
  · refine Or.inl ⟨s,hs,?_⟩
    rw [hg.lang]
    exact hi
  · exact Or.inr ⟨r,hg.completed.subset hr,hs,h1,h2,h3,h4.mono hg⟩

theorem Holds.mono {D : Deployment} {w w' : World} {service : String} {item : Item}
    (hg : Grows w w') (h : Holds D w service item) : Holds D w' service item := by
  obtain ⟨rest,hr⟩ := hg.entries (D.commandStream service)
  unfold Holds at h ⊢
  rw [← hr,List.getElem?_append_left (List.getElem?_eq_some_iff.mp h).1]
  exact h

theorem StageOk.mono {D : Deployment} {w w' : World} {s : ℕ} {service : String} {cur : Item}
    {stage : Stage} (hg : Grows w w') (h : StageOk D started w s service cur stage) :
    StageOk D started w' s service cur stage := by
  cases stage with
  | start => trivial
  | dispatch since => trivial
  | reply replyTo envelope =>
    obtain ⟨r,hr,h1,h2,h3,h4,h5,h6⟩ := h
    refine ⟨r,hg.completed.subset hr,h1,h2,h3,h4,?_,h6⟩
    rw [hg.lang]
    exact h5
  | ack => exact AckCause.mono hg h

theorem LoopOk.mono {D : Deployment} {w w' : World} {s : ℕ} {service : String} {pc : Pc}
    (hg : Grows w w') (h : LoopOk D started w s service pc) : LoopOk D started w' s service pc := by
  cases pc with
  | handle stage cur rest => exact ⟨fun item hi => (h.1 item hi).mono hg,h.2.mono hg⟩
  | _ => trivial

theorem loopOk_top (D : Deployment) (w : World) (s : ℕ) (service : String) (kind : LoopKind)
    (stopping : Bool) : LoopOk D started w s service (kind.top stopping) := by
  cases kind <;> cases stopping <;> trivial

theorem loopOk_batch (D : Deployment) (w : World) (s : ℕ) (service : String) (kind : LoopKind)
    (stopping : Bool) (batch : List Item) (h : ∀ item∈batch, Holds D w service item) :
    LoopOk D started w s service (kind.batch stopping batch) := by
  cases batch with
  | nil => exact loopOk_top D w s service kind stopping
  | cons cur rest => exact ⟨h,trivial⟩

theorem loopOk_caught (D : Deployment) (w : World) (s : ℕ) (service : String) (stopping : Bool) :
    LoopOk D started w s service (.caught stopping) := by
  cases stopping <;> trivial

/-! ### One step of a loop -/

/- A dispatch that returned leaves the loop at its XADD or its XACK, and either way its
record says why. -/
theorem stageOk_settled (D : Deployment) (w : World) (s : ℕ) (service : String) (cur : Item)
    (r : Completed) (hr : r∈w.completed) (h1 : r.server=s) (h2 : r.service=service)
    (h3 : r.index=cur.1) (h4 : r.fields=cur.2) (hs : started s service)
    (hdis : ∃ replyTo, inspect (w.servers s).lang cur.2=.dispatch replyTo) (since : ℕ) (stage : Stage)
    (h : Stage.step (w.servers s).lang cur.2 (.settled (.returned r.reply)) (.dispatch since)=
      some (.stage stage)) : StageOk D started w s service cur stage := by
  generalize hreply : r.reply=reply at h
  cases Stage.step_stepped h with
  | answered _ replyTo answer envelope hi ht => exact ⟨r,hr,h1,h2,h3,h4,hi,answer,hreply,ht⟩
  | unanswered _ _ hno =>
    obtain ⟨replyTo,hi⟩ := hdis
    refine Or.inr ⟨r,hr,by rw [h1]; exact hs,h2,h3,h4,replyTo,by rw [h1,h4]; exact hi,?_⟩
    rintro key answer rfl hans
    exact (hno key answer hi (hreply.symm.trans hans)).elim

theorem loopOk_after (D : Deployment) (w : World) (s : ℕ) (service : String) (kind : LoopKind)
    (stopping : Bool) (cur : Item) (rest : List Item) (progress : Progress)
    (hitems : ∀ item∈cur::rest, Holds D w service item)
    (hstage : ∀ stage, progress=.stage stage → StageOk D started w s service cur stage) :
    LoopOk D started w s service (.after kind stopping cur rest progress) := by
  cases progress with
  | stage stage => exact ⟨hitems,hstage stage rfl⟩
  | returned =>
    exact loopOk_batch D w s service kind stopping rest fun item hi =>
      hitems item (List.mem_cons_of_mem _ hi)
  | threw => exact loopOk_caught D w s service stopping
  | cancelled => trivial

/- Each await of `handleEntry` hands the next one what it needs. -/
theorem stageOk_step {D : Deployment} {w w' : World} {s : ℕ} {service : String} {kind : LoopKind}
    {act : LoopAct} {ev : LoopEv} {stage stage' : Stage} {cur : Item} {rest : List Item}
    (he : LoopEffected D w s service kind act (.handle stage cur rest) ev w') (hg : Grows w w')
    (hrun : started s service) (hok : StageOk D started w s service cur stage)
    (hs : stage.step (w.servers s).lang cur.2 ev=some (.stage stage')) :
    StageOk D started w' s service cur stage' := by
  cases he with
  | entered _ _ hno =>
    cases Stage.step_stepped hs with
    | skipped _ hi => exact Or.inl ⟨s,hrun,hi⟩
    | dispatched _ replyTo hi => exact (hno replyTo hi).elim
  | dispatched _ _ replyTo hi =>
    cases Stage.step_stepped hs with
    | skipped _ hack =>
      rw [hack] at hi
      cases hi
    | dispatched => trivial
  | returned user since _ _ answer hlang hservice hout =>
    have hdis := dispatch_inspected hout
    rw [hlang] at hdis
    have hmem : ⟨s,service,cur.1,cur.2,user,answer⟩∈({ w with completed :=
        w.completed++[⟨s,service,cur.1,cur.2,user,answer⟩] } : World).completed :=
      List.mem_append_right _ (List.mem_singleton.mpr rfl)
    exact stageOk_settled D _ s service cur _ hmem rfl rfl rfl rfl hrun hdis since stage' hs
  | raised user since _ _ out hout hno =>
    cases out with
    | returned answer => exact (hno answer rfl).elim
    | rejected => cases hs
    | cancelled => cases hs
  | replyFailed => cases hs
  | replied fate replyTo envelope _ _ hf =>
    by_cases hfate : fate=.ok
    · subst hfate
      cases hs
      obtain ⟨r,hr,h1,h2,h3,h4,h5,answer,h6,h7⟩ := hok
      refine Or.inr ⟨r,hg.completed.subset hr,by rw [h1]; exact hrun,h2,h3,h4,some replyTo,?_,?_⟩
      · rw [hg.lang,h1,h4]
        exact h5
      · intro key answer' hk hans
        cases hk
        rw [h6] at hans
        cases hans
        refine ⟨envelope,h7,?_⟩
        simp [World.setStream]
    · simp only [hfate,decide_false] at hs
      cases hs
  | ackFailed => cases hs
  | acked fate _ _ hf => cases hfate : decide (fate=.ok) <;> rw [hfate] at hs <;> cases hs

theorem loopOk_step (D : Deployment) (w w' : World) (s : ℕ) (service : String) (kind : LoopKind)
    (act : LoopAct) (ev : LoopEv) (pc : Pc)
    (hrun : (w.servers s).loops service kind≠.exited → started s service)
    (hok : LoopOk D started w s service ((w.servers s).loops service kind))
    (he : loopEffect D w s service kind act=some (ev,w'))
    (hp : Loop.step (w.servers s).lang kind (w.servers s).stopping ev
      ((w.servers s).loops service kind)=some pc) : LoopOk D started w' s service pc := by
  have hg := (loopEffect_grows D w w' s service kind act ev he).1
  cases hpc : (w.servers s).loops service kind with
  | sleep =>
    rw [hpc] at hp
    cases loopEffect_effected hpc he
    cases hp
    cases (w.servers s).stopping <;> trivial
  | poll =>
    rw [hpc] at hp
    cases loopEffect_effected hpc he with
    | readFailed =>
      cases hp
      exact loopOk_caught D w s service _
    | consumed fate hf =>
      by_cases hfate : fate=.ok
      · subst hfate
        cases hp
        refine loopOk_batch D _ s service _ _ _ fun item hi => Holds.mono hg ?_
        exact Stream.readItems_entries _ _ item hi
      · rw [if_neg hfate] at hp
        cases hp
        exact loopOk_caught D _ s service _
    | reclaimed fate hf =>
      by_cases hfate : fate=.ok
      · subst hfate
        cases hp
        refine loopOk_batch D _ s service _ _ _ fun item hi => Holds.mono hg ?_
        exact Stream.claimItems_entries _ _ _ _ item hi
      · rw [if_neg hfate] at hp
        cases hp
        exact loopOk_caught D _ s service _
  | handle stage cur rest =>
    rw [hpc] at hok hp
    rw [Loop.step_handle] at hp
    obtain ⟨progress,hs,rfl⟩ := Option.map_eq_some_iff.mp hp
    refine loopOk_after D w' s service kind _ cur rest progress
      (fun item hi => (hok.1 item hi).mono hg) ?_
    rintro stage' rfl
    exact stageOk_step (loopEffect_effected hpc he) hg (hrun (by simp [hpc])) hok.2 hs
  | exited =>
    rw [hpc] at hp
    exact (Loop.step_ne_exited _ _ _ _ _ _ hp rfl).elim

/-! ### Acknowledgements -/

def NoAcks (w w' : World) : Prop :=
  ∀ key i, (w'.streams key).Acked i → (w.streams key).Acked i

theorem noAcks_setStream (w : World) (key : String) (s : Stream (List Bulk))
    (h : ∀ i, s.Acked i → (w.streams key).Acked i) : NoAcks w (w.setStream key s) := by
  intro key' i hi
  simp only [World.setStream] at hi
  split at hi
  · rename_i hk
    rw [hk]
    exact h i hi
  · exact hi

theorem noAcks_xadd (w : World) (key : String) (fields : List Bulk) :
    NoAcks w (w.setStream key ((w.streams key).xadd fields)) :=
  noAcks_setStream w key _ fun _ hi => hi

theorem noAcks_xgroupCreate (w : World) (key : String) :
    NoAcks w (w.setStream key (w.streams key).xgroupCreate) :=
  noAcks_setStream w key _ fun i hi => (w.streams key).acked_xgroupCreate i hi

theorem noAcks_xreadgroup (w : World) (key : String) (now count : ℕ) :
    NoAcks w (w.setStream key ((w.streams key).xreadgroup now count)) :=
  noAcks_setStream w key _ fun i hi => (w.streams key).acked_xreadgroup now count i hi

theorem noAcks_xautoclaim (w : World) (key : String) (now minIdle count : ℕ) :
    NoAcks w (w.setStream key ((w.streams key).xautoclaim now minIdle count)) :=
  noAcks_setStream w key _ fun i hi => (w.streams key).acked_xautoclaim now minIdle count i hi

theorem noAcks_settle (w : World) (c : ℕ) (outcome : Settlement) : NoAcks w (settle w c outcome) := by
  unfold settle
  split
  · exact fun _ _ h => h
  · dsimp only
    split <;> exact fun _ _ h => h

theorem noAcks_examine (D : Deployment) (w : World) (k i : ℕ) (fields : List Bulk) :
    NoAcks w (examine D w k i fields) := by
  unfold examine
  dsimp only
  split
  · exact fun _ _ h => h
  · split
    · exact fun _ _ h => h
    · exact noAcks_settle _ _ _

/- Only a loop at its XACK acknowledges, and only the entry it handles. -/
theorem loopEffect_acked (D : Deployment) (w w' : World) (s : ℕ) (service : String)
    (kind : LoopKind) (act : LoopAct) (ev : LoopEv)
    (h : loopEffect D w s service kind act=some (ev,w')) (key : String) (i : ℕ)
    (hi : (w'.streams key).Acked i) : (w.streams key).Acked i ∨ key=D.commandStream service ∧
      ∃ cur rest, (w.servers s).loops service kind=.handle .ack cur rest ∧ i=cur.1 := by
  generalize hpc : (w.servers s).loops service kind=pc
  cases loopEffect_effected hpc h with
  | consumed fate hf => exact Or.inl (noAcks_xreadgroup w _ _ _ key i hi)
  | reclaimed fate hf => exact Or.inl (noAcks_xautoclaim w _ _ _ _ key i hi)
  | replied fate replyTo envelope cur rest hf => exact Or.inl (noAcks_xadd w _ _ key i hi)
  | acked fate cur rest hf =>
    simp only [World.setStream] at hi
    split at hi
    · rename_i hk
      subst hk
      rcases Stream.acked_xack _ _ _ hi with rfl | hi
      · exact Or.inr ⟨rfl,cur,rest,rfl,rfl⟩
      · exact Or.inl hi
    · exact Or.inl hi
  | _ => exact Or.inl hi

theorem step_noAcks (D : Deployment) (a : Act) (w w' : World) (h : World.step D a w=some w')
    (ha : ∀ s service kind act, a≠.loop s service kind act) : NoAcks w w' := by
  cases step_stepped D a w w' h with
  | foreign key fields => exact noAcks_xadd w key fields
  | startLost s service => exact noAcks_xgroupCreate w _
  | started s service hs => exact noAcks_xgroupCreate w (D.commandStream service)
  | loop s service kind act => exact (ha s service kind act rfl).elim
  | arrive c call hc =>
    intro key i hi
    exact noAcks_xadd w _ _ key i hi
  | giveUp c => exact noAcks_settle w c _
  | notify k service method params d => exact noAcks_xadd w _ _
  | examine k i fields hf => exact noAcks_examine D w k i fields
  | _ => exact fun _ _ h => h

/-! ### The invariant -/

theorem ackAccount_initial (D : Deployment) (w : World) (h : w.Initial) : AckAccount D started w where
  running := by
    intro s service kind hr
    rw [h.loops] at hr
    exact (hr rfl).elim
  loops := by
    intro s service kind
    rw [h.loops]
    trivial
  acked := by
    intro service i hi
    rw [h.streams] at hi
    obtain ⟨g,hg,_⟩ := hi
    cases hg

theorem ackAccount_noAcks {D : Deployment} {w w' : World} (hw : AckAccount D started w)
    (hg : Grows w w') (hn : NoAcks w w')
    (hr : ∀ s service kind, (w'.servers s).loops service kind≠.exited → started s service)
    (hl : ∀ s service kind, LoopOk D started w' s service ((w'.servers s).loops service kind)) :
    AckAccount D started w' where
  running := hr
  loops := hl
  acked := by
    intro service i hi
    obtain ⟨fields,hf,ha⟩ := hw.acked service i (hn _ i hi)
    exact ⟨fields,hf.mono hg,ha.mono hg⟩

/- A loop at its XACK carries what its entry needs to be acknowledged. -/
theorem ackAccount_stepLoop (D : Deployment) (w w' : World) (s : ℕ) (service : String)
    (kind : LoopKind) (act : LoopAct) (hw : AckAccount D started w)
    (h : World.step D (.loop s service kind act) w=some w') : AckAccount D started w' := by
  have hg := step_grows D (.loop s service kind act) w w' h
  have hrun : ∀ s service kind, (w'.servers s).loops service kind≠.exited → started s service := by
    intro s' service' kind' hr
    rcases step_running D _ w w' h s' service' kind' hr with hr | ⟨ha,_⟩
    · exact hw.running s' service' kind' hr
    · cases ha
  cases step_stepped D _ w w' h with | loop _ _ _ _ ev w1 pc he hp => ?_
  have hservers := (loopEffect_grows D w w1 s service kind act ev he).2
  refine ⟨hrun,fun s' service' kind' => ?_,fun service' i hi => ?_⟩
  · have hpc := loopOk_step D w w1 s service kind act ev pc (hw.running s service kind)
      (hw.loops s service kind) he hp
    have hg1 : Grows w1 (w1.setServer s ((w.servers s).setLoop service kind pc)) :=
      grows_setServer w1 s _ (by rw [hservers]; rfl) (by rw [hservers]; rfl)
    rcases setServer_loops w1 s ((w.servers s).setLoop service kind pc) s' with ⟨rfl,hs⟩ | hs
    · rw [hs]
      rcases setLoop_loops (w.servers s') service kind pc service' kind' with ⟨hl,rfl,rfl⟩ | hl
      · rw [hl]
        exact hpc.mono hg1
      · rw [hl]
        exact (hw.loops s' service' kind').mono hg
    · rw [hs,hservers]
      exact (hw.loops s' service' kind').mono hg
  · rcases loopEffect_acked D w w1 s service kind act ev he _ i hi with hi | ⟨hk,cur,rest,hpc,rfl⟩
    · obtain ⟨fields,hf,ha⟩ := hw.acked service' i hi
      exact ⟨fields,hf.mono hg,ha.mono hg⟩
    · have hs := D.commandStream_inj service' service hk
      subst hs
      have hok := hw.loops s service' kind
      rw [hpc] at hok
      exact ⟨cur.2,(hok.1 cur List.mem_cons_self).mono hg,AckCause.mono hg hok.2⟩

theorem ackAccount_step (D : Deployment) (a : Act) (w w' : World) (hw : AckAccount D started w)
    (hs : ∀ s service, a=.start s service .ok → started s service)
    (h : World.step D a w=some w') : AckAccount D started w' := by
  by_cases ha : ∃ s service kind act, a=.loop s service kind act
  · obtain ⟨s,service,kind,act,rfl⟩ := ha
    exact ackAccount_stepLoop D w w' s service kind act hw h
  · have ha' : ∀ s service kind act, a≠.loop s service kind act :=
      fun s service kind act hc => ha ⟨s,service,kind,act,hc⟩
    refine ackAccount_noAcks hw (step_grows D a w w' h) (step_noAcks D a w w' h ha') ?_ ?_
    · intro s service kind hr
      rcases step_running D a w w' h s service kind hr with hr | ⟨ha,_⟩
      · exact hw.running s service kind hr
      · exact hs s service ha
    intro s service kind
    rcases step_loops D a w w' h ha' s service kind with hl | hl
    · rw [hl]
      exact (hw.loops s service kind).mono (step_grows D a w w' h)
    · cases hpc : (w'.servers s).loops service kind with
      | handle stage cur rest =>
        rw [hpc] at hl
        exact hl.elim
      | _ => trivial

theorem ackInvariant_initial (D : Deployment) (w : World) (h : w.Initial) : AckInvariant D w :=
  ackAccount_initial D w h

theorem ackInvariant_step (D : Deployment) (a : Act) (w w' : World) (hw : AckInvariant D w)
    (h : World.step D a w=some w') : AckInvariant D w' :=
  ackAccount_step D a w w' hw (fun _ _ _ => trivial) h

theorem ackInvariant_reachable (D : Deployment) (w : World)
    (h : Reachable World.Initial (fun w w' => ∃ a, World.step D a w=some w') w) :
    AckInvariant D w :=
  h.invariant (ackInvariant_initial D) fun _ _ hw ⟨a,ha⟩ => ackInvariant_step D a _ _ hw ha

/- Only servers that the run has started have taken part in it. -/
theorem ackAccount_run (D : Deployment) (acts : List Act) (w0 w : World) (h0 : w0.Initial)
    (hrun : run (World.step D) acts w0=some w) : AckAccount D (Started acts) w := by
  have hw : Reachable World.Initial (fun w w' => ∃ a, a∈acts ∧ World.step D a w=some w') w := by
    refine @Reachable.guarded _ _ World.Initial (World.step D) (fun a _ => a∈acts) acts w0 w
      (.start h0) ?_ hrun
    refine (guarded_iff acts w0).mpr fun before a after t u hsplit _ _ => ?_
    rw [hsplit]
    exact List.mem_append_right _ List.mem_cons_self
  refine hw.invariant (ackAccount_initial D) ?_
  rintro u u' hu ⟨a,ha,hstep⟩
  exact ackAccount_step D a u u' hu (fun s service hs => by subst hs; exact ha) hstep

/- What a server reads of a legible entry is what its fields hold. -/
theorem AckCause.named {D : Deployment} {w : World} {service : String} {item : Item}
    (h : AckCause D started w service item)
    (hn : ∀ s, started s service → ByName (w.servers s).lang item.2) :
    Ackable D started w service item := by
  rcases h with ⟨s,hs,hi⟩ | ⟨r,hr,hs,hservice,hindex,hfields,replyTo,hi,hreplied⟩
  · exact Or.inl ⟨s,hs,inspect_undecodable (hn s hs) hi⟩
  · refine Or.inr ⟨r,hr,hs,hservice,hindex,hfields,fun key answer hk hans => ?_⟩
    rw [hfields] at hi
    exact hreplied key answer ((inspect_replyTo (hn _ hs) hi).trans hk) hans

/-- In every run, an entry added to a command stream after its group was created is
undelivered, pending or acknowledged; and if each server started with the service reads it
by its fields, it is acknowledged only if it is undecodable, or dispatched to the end and
replied to. -/
theorem at_least_once (D : Deployment) (acts : List Act) (w0 w : World) (h0 : w0.Initial)
    (hrun : run (World.step D) acts w0=some w) (service : String) (i : ℕ)
    (hi : (w.streams (D.commandStream service)).Watched i) :
    Stream.ExactlyOne ((w.streams (D.commandStream service)).Undelivered i)
      ((w.streams (D.commandStream service)).IsPending i)
      ((w.streams (D.commandStream service)).Acked i) ∧
    ((w.streams (D.commandStream service)).Acked i → ∃ fields, Holds D w service (i,fields) ∧
      ((∀ s, Started acts s service → ByName (w.servers s).lang fields) →
        Ackable D (Started acts) w service (i,fields))) := by
  refine ⟨Stream.watched_status _ i hi,fun hacked => ?_⟩
  obtain ⟨fields,hholds,hcause⟩ := (ackAccount_run D acts w0 w h0 hrun).acked service i hacked
  exact ⟨fields,hholds,hcause.named⟩

def greetEnvelope : Bulk :=
  ⟨"\x7b\"jsonrpc\":\"2.0\",\"method\":\"greeter.greet\",\"params\":\x7b\x7d,\"id\":\"1\"\x7d",
    some (.obj [("jsonrpc",.leaf (.str "2.0")),("method",.leaf (.str "greeter.greet")),
      ("params",.obj []),("id",.leaf (.str "1"))]),true⟩

def greetEntry (kind : String) : List Bulk :=
  [word "type",word kind,word "envelope",greetEnvelope,word "reply-to",word "clamator:replies:client"]

def dispatchedRun : List Act :=
  [.start 0 "greeter" .ok,.foreign "clamator:cmds:greeter" (greetEntry "rpc"),
    .loop 0 "greeter" .consumer (.read .ok),.loop 0 "greeter" .consumer .enter,
    .loop 0 "greeter" .consumer (.settle (.ts greeterEntry)),
    .loop 0 "greeter" .consumer (.reply .ok),.loop 0 "greeter" .consumer (.ack .ok)]

theorem at_least_once_greet : ∃ w,
    run (World.step clamator) dispatchedRun (greeterWorld 4000)=some w ∧
    (w.streams "clamator:cmds:greeter").Acked 0 ∧
    Ackable clamator (Started dispatchedRun) w "greeter" (0,greetEntry "rpc") := by
  have hrun : (run (World.step clamator) dispatchedRun (greeterWorld 4000)).isSome := rfl
  have hwatched : (((run (World.step clamator) dispatchedRun (greeterWorld 4000)).get hrun).streams
      "clamator:cmds:greeter").Watched 0 := ⟨Nat.zero_lt_one,_,rfl,Nat.le_refl 0⟩
  have hacked : (((run (World.step clamator) dispatchedRun (greeterWorld 4000)).get hrun).streams
      "clamator:cmds:greeter").Acked 0 := ⟨_,rfl,List.mem_cons_self⟩
  have hentry : Holds clamator ((run (World.step clamator) dispatchedRun (greeterWorld 4000)).get hrun)
      "greeter" (0,greetEntry "rpc") := rfl
  obtain ⟨fields,hholds,hack⟩ := (at_least_once clamator dispatchedRun _ _ (greeterWorld_initial 4000)
    (Option.some_get hrun).symm "greeter" 0 hwatched).2 hacked
  obtain rfl : greetEntry "rpc"=fields := Option.some.inj (hentry.symm.trans hholds)
  refine ⟨_,(Option.some_get hrun).symm,hacked,hack fun _ _ _ => ?_⟩
  constructor <;> simp [Legible,greetEntry,greetEnvelope,word,namedField,fieldPairs]

def misreadRun : List Act :=
  [.start 0 "greeter" .ok,.foreign "clamator:cmds:greeter" (greetEntry "envelope"),
    .loop 0 "greeter" .consumer (.read .ok),.loop 0 "greeter" .consumer .enter,
    .loop 0 "greeter" .consumer (.ack .ok)]

/-- The value of `type` spells the name of the next field, and TypeScript takes that name for
the envelope: the request is acked, and no dispatcher is called. -/
theorem request_acked_undispatched : ∃ w,
    run (World.step clamator) misreadRun (greeterWorld 4000)=some w ∧
    (w.streams "clamator:cmds:greeter").Watched 0 ∧ (w.streams "clamator:cmds:greeter").Acked 0 ∧
    Holds clamator w "greeter" (0,greetEntry "envelope") ∧ w.starts=[] ∧
    (∀ lang, ¬Undecodable lang (greetEntry "envelope")) ∧
    ¬Ackable clamator (Started misreadRun) w "greeter" (0,greetEntry "envelope") := by
  have hrun : (run (World.step clamator) misreadRun (greeterWorld 4000)).isSome := rfl
  have hdecodable : ∀ lang, ¬Undecodable lang (greetEntry "envelope") := by
    intro lang h
    refine h greetEnvelope rfl (by simp [greetEnvelope]) ?_
    cases lang with
    | ts => exact ⟨_,_,rfl,rfl⟩
    | py => exact ⟨_,_,rfl,rfl⟩
  refine ⟨_,(Option.some_get hrun).symm,⟨Nat.zero_lt_one,_,rfl,Nat.le_refl 0⟩,
    ⟨_,rfl,List.mem_cons_self⟩,rfl,rfl,hdecodable,?_⟩
  rintro (⟨s,-,h⟩ | ⟨r,hr,-⟩)
  · exact hdecodable _ h
  · exact absurd hr List.not_mem_nil

end Clamator.Redis
