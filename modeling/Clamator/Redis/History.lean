import Clamator.Redis.World

/-!
# What a deployment keeps

Along every run streams and the list of completed dispatches only grow, and what
servers are does not change. Every entry in a loop's batch is an entry of the
loop's stream, and a loop stands in `handleEntry` where the entry and the
dispatches so far allow it to.
-/

namespace Clamator.Redis
open Clamator.Base Clamator.Protocol

/-! ### What a step does -/

/- What an await of a loop does to the world around it, each with the loop's place and what
the loop gets of it. A command whose answer is lost has taken effect. -/
inductive LoopEffected (D : Deployment) (w : World) (s : ℕ) (service : String) :
    LoopKind → LoopAct → Pc → LoopEv → World → Prop
  | wake {kind : LoopKind} : LoopEffected D w s service kind .wake .sleep .wake w
  | readFailed {kind : LoopKind} : LoopEffected D w s service kind (.read .failed) .poll .readThrew w
  | consumed (fate : Fate) : fate≠.failed →
    LoopEffected D w s service .consumer (.read fate) .poll
      (if fate=.ok then .got ((w.streams (D.commandStream service)).readItems 16) else .readThrew)
      (w.setStream (D.commandStream service)
        ((w.streams (D.commandStream service)).xreadgroup w.now 16))
  | reclaimed (fate : Fate) : fate≠.failed →
    LoopEffected D w s service .reclaim (.read fate) .poll
      (if fate=.ok then .got ((w.streams (D.commandStream service)).claimItems w.now
        (w.servers s).claimIdleMs 32) else .readThrew)
      (w.setStream (D.commandStream service)
        ((w.streams (D.commandStream service)).xautoclaim w.now (w.servers s).claimIdleMs 32))
  | entered {kind : LoopKind} (cur : Item) (rest : List Item) :
    (∀ replyTo, inspect (w.servers s).lang cur.2≠.dispatch replyTo) →
    LoopEffected D w s service kind .enter (.handle .start cur rest) (.enter w.now) w
  | dispatched {kind : LoopKind} (cur : Item) (rest : List Item) (replyTo : Option String) :
    inspect (w.servers s).lang cur.2=.dispatch replyTo →
    LoopEffected D w s service kind .enter (.handle .start cur rest) (.enter w.now)
      { w with starts := w.starts++[(service,cur.1)] }
  | returned {kind : LoopKind} (user : UserCode) (since : ℕ) (cur : Item) (rest : List Item)
      (answer : Option Reply) : user.lang=(w.servers s).lang → user.service=service →
    dispatch user cur.2=some (.returned answer) →
    LoopEffected D w s service kind (.settle user) (.handle (.dispatch since) cur rest)
      (.settled (.returned answer))
      { w with completed := w.completed++[⟨s,service,cur.1,cur.2,user,answer⟩] }
  | raised {kind : LoopKind} (user : UserCode) (since : ℕ) (cur : Item) (rest : List Item)
      (out : Settled Reply) : dispatch user cur.2=some out → (∀ answer, out≠.returned answer) →
    LoopEffected D w s service kind (.settle user) (.handle (.dispatch since) cur rest)
      (.settled out) w
  | replyFailed {kind : LoopKind} (replyTo : String) (envelope : Doc) (cur : Item)
      (rest : List Item) :
    LoopEffected D w s service kind (.reply .failed) (.handle (.reply replyTo envelope) cur rest)
      (.replied false) w
  | replied {kind : LoopKind} (fate : Fate) (replyTo : String) (envelope : Doc) (cur : Item)
      (rest : List Item) : fate≠.failed →
    LoopEffected D w s service kind (.reply fate) (.handle (.reply replyTo envelope) cur rest)
      (.replied (decide (fate=.ok)))
      (w.setStream replyTo ((w.streams replyTo).xadd (D.plainFields envelope)))
  | ackFailed {kind : LoopKind} (cur : Item) (rest : List Item) :
    LoopEffected D w s service kind (.ack .failed) (.handle .ack cur rest) (.acked false) w
  | acked {kind : LoopKind} (fate : Fate) (cur : Item) (rest : List Item) : fate≠.failed →
    LoopEffected D w s service kind (.ack fate) (.handle .ack cur rest)
      (.acked (decide (fate=.ok)))
      (w.setStream (D.commandStream service) ((w.streams (D.commandStream service)).xack cur.1))

theorem loopEffect_effected {D : Deployment} {w w' : World} {s : ℕ} {service : String}
    {kind : LoopKind} {act : LoopAct} {ev : LoopEv} {pc : Pc}
    (hpc : (w.servers s).loops service kind=pc)
    (h : loopEffect D w s service kind act=some (ev,w')) :
    LoopEffected D w s service kind act pc ev w' := by
  subst hpc
  unfold loopEffect at h
  dsimp only at h
  split at h
  · rename_i hpc
    cases h
    rw [hpc]
    exact .wake
  · rename_i hpc
    cases h
    rw [hpc]
    exact .readFailed
  · rename_i fate hfate hpc
    rw [hpc]
    cases kind with
    | consumer =>
      cases h
      exact .consumed fate fun hf => hfate hf
    | reclaim =>
      cases h
      exact .reclaimed fate fun hf => hfate hf
  · rename_i cur rest hpc
    cases h
    rw [hpc]
    cases hi : inspect (w.servers s).lang cur.2 with
    | dispatch replyTo => exact .dispatched cur rest replyTo hi
    | _ =>
      refine .entered cur rest fun replyTo hd => ?_
      rw [hi] at hd
      cases hd
  · rename_i user since cur rest hpc
    rw [hpc]
    split at h
    · rename_i huser
      obtain ⟨out,hout,ho⟩ := Option.map_eq_some_iff.mp h
      cases ho
      cases out with
      | returned answer => exact .returned user since cur rest answer huser.1 huser.2 hout
      | _ =>
        refine .raised user since cur rest _ hout fun answer ha => ?_
        cases ha
    · cases h
  · rename_i fate replyTo envelope cur rest hpc
    cases h
    rw [hpc]
    cases fate with
    | failed => exact .replyFailed replyTo envelope cur rest
    | ok => exact .replied .ok replyTo envelope cur rest Fate.noConfusion
    | lost => exact .replied .lost replyTo envelope cur rest Fate.noConfusion
  · rename_i fate cur rest hpc
    cases h
    rw [hpc]
    cases fate with
    | failed => exact .ackFailed cur rest
    | ok => exact .acked .ok cur rest Fate.noConfusion
    | lost => exact .acked .lost cur rest Fate.noConfusion
  · cases h

/-- The steps of a deployment, each with the world it leads to. -/
inductive Stepped (D : Deployment) (w : World) : Act → World → Prop
  | tick (d : ℕ) : Stepped D w (.tick d) { w with now := w.now+d }
  | foreign (key : String) (fields : List Bulk) :
    Stepped D w (.foreign key fields) (w.setStream key ((w.streams key).xadd fields))
  | startFailed (s : ℕ) (service : String) : Stepped D w (.start s service .failed) w
  | startLost (s : ℕ) (service : String) : Stepped D w (.start s service .lost)
      (w.setStream (D.commandStream service) (w.streams (D.commandStream service)).xgroupCreate)
  | started (s : ℕ) (service : String) : service∈(w.servers s).services →
    (w.servers s).stopping=false → (∀ kind, (w.servers s).loops service kind=.exited) →
    Stepped D w (.start s service .ok)
      ((w.setStream (D.commandStream service)
        (w.streams (D.commandStream service)).xgroupCreate).setServer s
          (((w.servers s).setLoop service .consumer .poll).setLoop service .reclaim .sleep))
  | stop (s : ℕ) : Stepped D w (.stop s) (w.setServer s { w.servers s with stopping := true })
  | halt (s : ℕ) (service : String) (kind : LoopKind) : Stepped D w (.halt s service kind)
      (w.setServer s ((w.servers s).setLoop service kind .exited))
  | crash (s : ℕ) : Stepped D w (.crash s)
      (w.setServer s { w.servers s with stopping := true,loops := fun _ _ => .exited })
  | loop (s : ℕ) (service : String) (kind : LoopKind) (act : LoopAct) (ev : LoopEv) (w1 : World)
      (pc : Pc) : loopEffect D w s service kind act=some (ev,w1) →
    Loop.step (w.servers s).lang kind (w.servers s).stopping ev
      ((w.servers s).loops service kind)=some pc →
    Stepped D w (.loop s service kind act) (w1.setServer s ((w.servers s).setLoop service kind pc))
  | call (k : ℕ) (service method : String) (params : Params) (id : String) (d : Doc) :
    (∀ c∈w.calls, c.id≠id) → requestText service method id params=some d →
    Stepped D w (.call k service method params id)
      { w.setClient k { w.clients k with pending := (id,w.calls.length)::(w.clients k).pending } with
        calls := w.calls++[⟨k,service,method,params,d,id,false,none⟩] }
  | arrive (c : ℕ) (call : Call) : w.calls[c]?=some call →
    Stepped D w (.arrive c)
      { w.setStream (D.commandStream call.service) ((w.streams (D.commandStream call.service)).xadd
          (D.requestFields call.request (D.replyStream (w.clients call.client).instanceId))) with
        calls := w.calls.set c { call with sent := true } }
  | giveUp (c : ℕ) : Stepped D w (.giveUp c) (settle w c .failed)
  | notify (k : ℕ) (service method : String) (params : Params) (d : Doc) :
    Stepped D w (.notify k service method params) (w.setStream (D.commandStream service)
      ((w.streams (D.commandStream service)).xadd (D.plainFields d)))
  | examine (k i : ℕ) (fields : List Bulk) :
    (w.streams (D.replyStream (w.clients k).instanceId)).entries[i]?=some fields →
    Stepped D w (.examine k i) (examine D w k i fields)

theorem step_stepped (D : Deployment) (a : Act) (w w' : World) (h : World.step D a w=some w') :
    Stepped D w a w' := by
  cases a with
  | tick d =>
    cases h
    exact .tick d
  | foreign key fields =>
    cases h
    exact .foreign key fields
  | start s service fate =>
    simp only [World.step] at h
    split at h
    · rename_i hconsumer hreclaim
      split at h
      · rename_i hs
        cases fate <;> cases h
        · refine .started s service hs.1 hs.2 fun kind => ?_
          cases kind <;> assumption
        · exact .startFailed s service
        · exact .startLost s service
      · cases h
    · cases h
  | stop s =>
    cases h
    exact .stop s
  | halt s service kind =>
    simp only [World.step] at h
    split at h
    · cases h
      exact .halt s service kind
    · cases h
  | crash s =>
    cases h
    exact .crash s
  | loop s service kind act =>
    obtain ⟨⟨ev,w1⟩,he,hb⟩ := Option.bind_eq_some_iff.mp h
    obtain ⟨pc,hp,rfl⟩ := Option.map_eq_some_iff.mp hb
    exact .loop s service kind act ev w1 pc he hp
  | call k service method params id =>
    simp only [World.step] at h
    split at h
    · rename_i hfresh
      obtain ⟨d,ht,rfl⟩ := Option.map_eq_some_iff.mp h
      exact .call k service method params id d hfresh.2 ht
    · cases h
  | arrive c =>
    simp only [World.step] at h
    split at h
    · cases h
    · rename_i call hc
      split at h
      · cases h
      · cases h
        exact .arrive c call hc
  | giveUp c =>
    cases h
    exact .giveUp c
  | notify k service method params =>
    simp only [World.step] at h
    split at h
    · obtain ⟨d,_,rfl⟩ := Option.map_eq_some_iff.mp h
      exact .notify k service method params d
    · cases h
  | examine k i =>
    simp only [World.step] at h
    split at h
    · cases h
    · rename_i fields hf
      split at h
      · cases h
        exact .examine k i fields hf
      · cases h

/-! ### Growth -/

structure Call.Later (call call' : Call) : Prop where
  same : call'={ call with sent := call'.sent,settlement := call'.settlement }
  settled : ∀ o, call.settlement=some o → call'.settlement=some o

theorem Call.Later.refl (call : Call) : call.Later call := ⟨rfl,fun _ h => h⟩

theorem Call.Later.trans {call call' call'' : Call} (h : call.Later call') (h' : call'.Later call'') :
    call.Later call'' := by
  refine ⟨?_,fun o ho => h'.settled o (h.settled o ho)⟩
  have h1 := h'.same
  rw [h.same] at h1
  exact h1

def CallsGrow (calls calls' : List Call) : Prop :=
  ∀ (c : ℕ) (call : Call), calls[c]?=some call → ∃ call', calls'[c]?=some call' ∧ call.Later call'

theorem CallsGrow.refl (calls : List Call) : CallsGrow calls calls :=
  fun _ call h => ⟨call,h,.refl call⟩

theorem CallsGrow.trans {calls calls' calls'' : List Call} (h : CallsGrow calls calls')
    (h' : CallsGrow calls' calls'') : CallsGrow calls calls'' := by
  intro c call hc
  obtain ⟨call',hc',hl⟩ := h c call hc
  obtain ⟨call'',hc'',hl'⟩ := h' c call' hc'
  exact ⟨call'',hc'',hl.trans hl'⟩

theorem callsGrow_append (calls : List Call) (call : Call) : CallsGrow calls (calls++[call]) := by
  intro c call' hc
  refine ⟨call',?_,.refl call'⟩
  rw [List.getElem?_append_left (List.getElem?_eq_some_iff.mp hc).1]
  exact hc

theorem callsGrow_set (calls : List Call) (c : ℕ) (call call' : Call) (hc : calls[c]?=some call)
    (h : call.Later call') : CallsGrow calls (calls.set c call') := by
  intro c' call1 hc'
  by_cases hcc : c=c'
  · subst hcc
    rw [hc] at hc'
    cases hc'
    exact ⟨call',by simp [(List.getElem?_eq_some_iff.mp hc).1],h⟩
  · refine ⟨call1,?_,.refl call1⟩
    rw [List.getElem?_set_ne hcc]
    exact hc'

/-- What never goes away from one world to a later one. -/
structure Grows (w w' : World) : Prop where
  entries : ∀ key, (w.streams key).entries<+:(w'.streams key).entries
  completed : w.completed<+:w'.completed
  calls : CallsGrow w.calls w'.calls
  lang : ∀ s, (w'.servers s).lang=(w.servers s).lang
  services : ∀ s, (w'.servers s).services=(w.servers s).services

theorem Grows.refl (w : World) : Grows w w :=
  ⟨fun _ => List.prefix_refl _,List.prefix_refl _,.refl _,fun _ => rfl,fun _ => rfl⟩

theorem Grows.trans {w w' w'' : World} (h : Grows w w') (h' : Grows w' w'') : Grows w w'' :=
  ⟨fun key => (h.entries key).trans (h'.entries key),h.completed.trans h'.completed,
    h.calls.trans h'.calls,
    fun s => (h'.lang s).trans (h.lang s),fun s => (h'.services s).trans (h.services s)⟩

theorem grows_setStream (w : World) (key : String) (s : Stream (List Bulk))
    (h : (w.streams key).entries<+:s.entries) : Grows w (w.setStream key s) := by
  refine ⟨fun key' => ?_,List.prefix_refl _,.refl _,fun _ => rfl,fun _ => rfl⟩
  simp only [World.setStream]
  split
  · rename_i hk
    rw [hk]
    exact h
  · exact List.prefix_refl _

theorem grows_xadd (w : World) (key : String) (fields : List Bulk) :
    Grows w (w.setStream key ((w.streams key).xadd fields)) :=
  grows_setStream w key _ (List.prefix_append _ _)

theorem grows_setServer (w : World) (s : ℕ) (server : Server) (hl : server.lang=(w.servers s).lang)
    (hs : server.services=(w.servers s).services) : Grows w (w.setServer s server) := by
  refine ⟨fun _ => List.prefix_refl _,List.prefix_refl _,.refl _,fun s' => ?_,fun s' => ?_⟩
  all_goals
    simp only [World.setServer]
    split
    · rename_i h
      subst h
      assumption
    · rfl

theorem grows_setClient (w : World) (k : ℕ) (client : Client) : Grows w (w.setClient k client) :=
  ⟨fun _ => List.prefix_refl _,List.prefix_refl _,.refl _,fun _ => rfl,fun _ => rfl⟩

theorem grows_settle (w : World) (c : ℕ) (outcome : Settlement) : Grows w (settle w c outcome) := by
  unfold settle
  split
  · exact Grows.refl w
  · rename_i call hc
    dsimp only
    split
    · exact grows_setClient w _ _
    · rename_i hs
      refine ⟨fun _ => List.prefix_refl _,List.prefix_refl _,?_,fun _ => rfl,fun _ => rfl⟩
      refine callsGrow_set _ c call _ hc ⟨rfl,fun o ho => ?_⟩
      rw [hs] at ho
      cases ho

theorem grows_examine (D : Deployment) (w : World) (k i : ℕ) (fields : List Bulk) :
    Grows w (examine D w k i fields) := by
  unfold examine
  dsimp only
  split
  · exact grows_setClient w k _
  · split
    · exact grows_setClient w k _
    · exact (grows_setClient w k _).trans (grows_settle _ _ _)

theorem loopEffect_grows (D : Deployment) (w w' : World) (s : ℕ) (service : String)
    (kind : LoopKind) (act : LoopAct) (ev : LoopEv)
    (h : loopEffect D w s service kind act=some (ev,w')) : Grows w w' ∧ w'.servers=w.servers := by
  generalize hpc : (w.servers s).loops service kind=pc
  cases loopEffect_effected hpc h with
  | consumed fate hf => exact ⟨grows_setStream w _ _ (List.prefix_refl _),rfl⟩
  | reclaimed fate hf => exact ⟨grows_setStream w _ _ (List.prefix_refl _),rfl⟩
  | dispatched cur rest replyTo hi =>
    exact ⟨⟨fun _ => List.prefix_refl _,List.prefix_refl _,.refl _,fun _ => rfl,fun _ => rfl⟩,rfl⟩
  | returned user since cur rest answer =>
    exact ⟨⟨fun _ => List.prefix_refl _,List.prefix_append _ _,.refl _,fun _ => rfl,fun _ => rfl⟩,rfl⟩
  | replied fate replyTo envelope cur rest hf => exact ⟨grows_xadd w _ _,rfl⟩
  | acked fate cur rest hf => exact ⟨grows_setStream w _ _ (List.prefix_refl _),rfl⟩
  | _ => exact ⟨Grows.refl w,rfl⟩

theorem step_grows (D : Deployment) (a : Act) (w w' : World) (h : World.step D a w=some w') :
    Grows w w' := by
  cases step_stepped D a w w' h with
  | tick d => exact ⟨fun _ => List.prefix_refl _,List.prefix_refl _,.refl _,fun _ => rfl,fun _ => rfl⟩
  | foreign key fields => exact grows_xadd w key fields
  | startFailed s service => exact Grows.refl w
  | startLost s service => exact grows_setStream w _ _ (List.prefix_refl _)
  | started s service hs =>
    have hg := grows_setStream w (D.commandStream service)
      (w.streams (D.commandStream service)).xgroupCreate (List.prefix_refl _)
    exact hg.trans (grows_setServer _ s _ rfl rfl)
  | stop s => exact grows_setServer w s _ rfl rfl
  | halt s service kind => exact grows_setServer w s _ rfl rfl
  | crash s => exact grows_setServer w s _ rfl rfl
  | loop s service kind act ev w1 pc he hp =>
    obtain ⟨hg,hs⟩ := loopEffect_grows D w w1 s service kind act ev he
    refine hg.trans (grows_setServer w1 s _ ?_ ?_) <;> rw [hs] <;> rfl
  | call k service method params id d hfresh ht =>
    exact ⟨fun _ => List.prefix_refl _,List.prefix_refl _,callsGrow_append _ _,fun _ => rfl,
      fun _ => rfl⟩
  | arrive c call hc =>
    exact ⟨(grows_xadd w _ _).entries,List.prefix_refl _,
      callsGrow_set _ c call _ hc ⟨rfl,fun _ ho => ho⟩,fun _ => rfl,fun _ => rfl⟩
  | giveUp c => exact grows_settle w c _
  | notify k service method params d => exact grows_xadd w _ _
  | examine k i fields hf => exact grows_examine D w k i fields

/-! ### Where the loops stand -/

theorem setServer_loops (w : World) (s : ℕ) (server : Server) (s' : ℕ) :
    s'=s ∧ (w.setServer s server).servers s'=server ∨
    (w.setServer s server).servers s'=w.servers s' := by
  simp only [World.setServer]
  split
  · rename_i h
    exact Or.inl ⟨h,rfl⟩
  · exact Or.inr rfl

theorem setLoop_loops (server : Server) (service : String) (kind : LoopKind) (pc : Pc)
    (service' : String) (kind' : LoopKind) :
    (server.setLoop service kind pc).loops service' kind'=pc ∧ service'=service ∧ kind'=kind ∨
    (server.setLoop service kind pc).loops service' kind'=server.loops service' kind' := by
  simp only [Server.setLoop]
  split
  · rename_i h
    exact Or.inl ⟨rfl,h⟩
  · exact Or.inr rfl

def Pc.Idle : Pc → Prop
  | .handle _ _ _ => False
  | _ => True

theorem settle_frame (w : World) (c : ℕ) (outcome : Settlement) :
    (settle w c outcome).streams=w.streams ∧ (settle w c outcome).servers=w.servers ∧
      (settle w c outcome).completed=w.completed := by
  unfold settle
  split
  · exact ⟨rfl,rfl,rfl⟩
  · dsimp only
    split <;> exact ⟨rfl,rfl,rfl⟩

theorem examine_frame (D : Deployment) (w : World) (k i : ℕ) (fields : List Bulk) :
    (examine D w k i fields).streams=w.streams ∧ (examine D w k i fields).servers=w.servers ∧
      (examine D w k i fields).completed=w.completed := by
  unfold examine
  dsimp only
  split
  · exact ⟨rfl,rfl,rfl⟩
  · split
    · exact ⟨rfl,rfl,rfl⟩
    · exact settle_frame _ _ _

theorem step_loops (D : Deployment) (a : Act) (w w' : World) (h : World.step D a w=some w')
    (ha : ∀ s service kind act, a≠.loop s service kind act) (s : ℕ) (service : String)
    (kind : LoopKind) : (w'.servers s).loops service kind=(w.servers s).loops service kind ∨
      ((w'.servers s).loops service kind).Idle := by
  cases step_stepped D a w w' h with
  | started s1 service1 hs =>
    rcases setServer_loops (w.setStream (D.commandStream service1)
      (w.streams (D.commandStream service1)).xgroupCreate) s1
      (((w.servers s1).setLoop service1 .consumer .poll).setLoop service1 .reclaim .sleep) s
      with ⟨rfl,hs⟩ | hs
    · rw [hs]
      rcases setLoop_loops ((w.servers s).setLoop service1 .consumer .poll) service1 .reclaim
        .sleep service kind with ⟨hl,_⟩ | hl
      · rw [hl]
        exact Or.inr trivial
      · rw [hl]
        rcases setLoop_loops (w.servers s) service1 .consumer .poll service kind with ⟨hl,_⟩ | hl
        · rw [hl]
          exact Or.inr trivial
        · exact Or.inl hl
    · rw [hs]
      exact Or.inl rfl
  | stop s1 =>
    rcases setServer_loops w s1 { w.servers s1 with stopping := true } s with ⟨rfl,hs⟩ | hs
    · rw [hs]
      exact Or.inl rfl
    · rw [hs]
      exact Or.inl rfl
  | halt s1 service1 kind1 =>
    rcases setServer_loops w s1 ((w.servers s1).setLoop service1 kind1 .exited) s with ⟨rfl,hs⟩ | hs
    · rw [hs]
      rcases setLoop_loops (w.servers s) service1 kind1 .exited service kind with ⟨hl,_⟩ | hl
      · rw [hl]
        exact Or.inr trivial
      · exact Or.inl hl
    · rw [hs]
      exact Or.inl rfl
  | crash s1 =>
    rcases setServer_loops w s1 { w.servers s1 with stopping := true,loops := fun _ _ => .exited } s
      with ⟨rfl,hs⟩ | hs
    · rw [hs]
      exact Or.inr trivial
    · rw [hs]
      exact Or.inl rfl
  | loop s service kind act => exact (ha s service kind act rfl).elim
  | giveUp c =>
    rw [(settle_frame w c _).2.1]
    exact Or.inl rfl
  | examine k i fields hf =>
    rw [(examine_frame D w k i fields).2.1]
    exact Or.inl rfl
  | _ => exact Or.inl rfl

/- A loop that runs ran before, or its server has just been started with the service. -/
theorem step_running (D : Deployment) (a : Act) (w w' : World) (h : World.step D a w=some w')
    (s : ℕ) (service : String) (kind : LoopKind)
    (hr : (w'.servers s).loops service kind≠.exited) :
    (w.servers s).loops service kind≠.exited ∨
      a=.start s service .ok ∧ service∈(w.servers s).services := by
  cases step_stepped D a w w' h with
  | started s1 service1 hs =>
    rcases setServer_loops (w.setStream (D.commandStream service1)
      (w.streams (D.commandStream service1)).xgroupCreate) s1
      (((w.servers s1).setLoop service1 .consumer .poll).setLoop service1 .reclaim .sleep) s
      with ⟨rfl,hserver⟩ | hserver
    · rw [hserver] at hr
      rcases setLoop_loops ((w.servers s).setLoop service1 .consumer .poll) service1 .reclaim
        .sleep service kind with ⟨_,rfl,_⟩ | hl
      · exact Or.inr ⟨rfl,hs⟩
      · rw [hl] at hr
        rcases setLoop_loops (w.servers s) service1 .consumer .poll service kind with ⟨_,rfl,_⟩ | hl
        · exact Or.inr ⟨rfl,hs⟩
        · rw [hl] at hr
          exact Or.inl hr
    · rw [hserver] at hr
      exact Or.inl hr
  | stop s1 =>
    rcases setServer_loops w s1 { w.servers s1 with stopping := true } s with ⟨rfl,hs⟩ | hs
    all_goals
      rw [hs] at hr
      exact Or.inl hr
  | halt s1 service1 kind1 =>
    rcases setServer_loops w s1 ((w.servers s1).setLoop service1 kind1 .exited) s with ⟨rfl,hs⟩ | hs
    · rw [hs] at hr
      rcases setLoop_loops (w.servers s) service1 kind1 .exited service kind with ⟨hl,_⟩ | hl
      · exact (hr hl).elim
      · rw [hl] at hr
        exact Or.inl hr
    · rw [hs] at hr
      exact Or.inl hr
  | crash s1 =>
    rcases setServer_loops w s1 { w.servers s1 with stopping := true,loops := fun _ _ => .exited } s
      with ⟨rfl,hs⟩ | hs
    · rw [hs] at hr
      exact (hr rfl).elim
    · rw [hs] at hr
      exact Or.inl hr
  | loop s1 service1 kind1 act ev w1 pc he hp =>
    have hservers := (loopEffect_grows D w w1 s1 service1 kind1 act ev he).2
    rcases setServer_loops w1 s1 ((w.servers s1).setLoop service1 kind1 pc) s with ⟨rfl,hs⟩ | hs
    · rw [hs] at hr
      rcases setLoop_loops (w.servers s) service1 kind1 pc service kind with ⟨_,rfl,rfl⟩ | hl
      · exact Or.inl (Loop.step_ne_exited _ _ _ _ _ _ hp)
      · rw [hl] at hr
        exact Or.inl hr
    · rw [hs,hservers] at hr
      exact Or.inl hr
  | giveUp c =>
    rw [(settle_frame w c _).2.1] at hr
    exact Or.inl hr
  | examine k i fields hf =>
    rw [(examine_frame D w k i fields).2.1] at hr
    exact Or.inl hr
  | _ => exact Or.inl hr

/-! ### Groups -/

theorem group_setStream {P : Group → Prop} (w : World) (key : String) (s : Stream (List Bulk))
    (key' : String) (hs : (∃ g∈(w.streams key).group, P g) → ∃ g∈s.group, P g)
    (h : ∃ g∈(w.streams key').group, P g) : ∃ g∈((w.setStream key s).streams key').group, P g := by
  simp only [World.setStream]
  split
  · rename_i hk
    subst hk
    exact hs h
  · exact h

theorem group_map {P : Group → Prop} {s : Option Group} (f : Group → Group) (hf : ∀ g, P g → P (f g))
    (h : ∃ g∈s, P g) : ∃ g∈s.map f, P g := by
  obtain ⟨g,hg,hP⟩ := h
  exact ⟨f g,Option.mem_map_of_mem f hg,hf g hP⟩

theorem group_created {P : Group → Prop} (s : Stream (List Bulk)) (h : ∃ g∈s.group, P g) :
    ∃ g∈s.xgroupCreate.group, P g := by
  obtain ⟨g,hg,hP⟩ := h
  refine ⟨g,?_,hP⟩
  rw [Option.mem_def] at hg ⊢
  simp only [Stream.xgroupCreate,hg,Option.getD_some]

/- What reads, claims and acknowledgements keep of a group, all steps keep. -/
theorem step_group {P : Group → Prop} {D : Deployment} {a : Act} {w w' : World}
    (hread : ∀ g len now count, P g → P (g.read len now count))
    (hclaim : ∀ g now is, P g → P (g.claim now is)) (hack : ∀ g i, P g → P (g.ack i))
    (h : World.step D a w=some w') (key : String) (hP : ∃ g∈(w.streams key).group, P g) :
    ∃ g∈(w'.streams key).group, P g := by
  cases step_stepped D a w w' h with
  | foreign key1 fields => exact group_setStream w _ _ key id hP
  | startLost s service => exact group_setStream w _ _ key (group_created _) hP
  | started s service => exact group_setStream w _ _ key (group_created _) hP
  | loop s service kind act ev w1 pc he hp =>
    generalize hpc : (w.servers s).loops service kind=pc' at hp
    cases loopEffect_effected hpc he with
    | consumed =>
      exact group_setStream w _ _ key (group_map _ fun g => hread g _ _ _) hP
    | reclaimed => exact group_setStream w _ _ key (group_map _ fun g => hclaim g _ _) hP
    | replied => exact group_setStream w _ _ key id hP
    | acked => exact group_setStream w _ _ key (group_map _ fun g => hack g _) hP
    | _ => exact hP
  | arrive c call hc => exact group_setStream w _ _ key id hP
  | giveUp c =>
    rw [(settle_frame w c _).1]
    exact hP
  | notify k service method params d => exact group_setStream w _ _ key id hP
  | examine k i fields hf =>
    rw [(examine_frame D w k i fields).1]
    exact hP
  | _ => exact hP

theorem step_watched {D : Deployment} {a : Act} {w w' : World} (h : World.step D a w=some w')
    (key : String) (i : ℕ) (hi : (w.streams key).Watched i) : (w'.streams key).Watched i := by
  refine ⟨Nat.lt_of_lt_of_le hi.1 ((step_grows D a w w' h).entries key).length_le,?_⟩
  refine step_group (P := fun g => g.start ≤ i) (fun g len now count hg => hg)
    (fun g now is hg => hg) (fun g j hg => ?_) h key hi.2
  rw [(g.ack_range j).1]
  exact hg

theorem step_delivered {D : Deployment} {a : Act} {w w' : World} (h : World.step D a w=some w')
    (key : String) (i : ℕ) (hi : (w.streams key).Delivered i) : (w'.streams key).Delivered i := by
  refine step_group (P := fun g => g.start ≤ i ∧ i < g.next) (fun g len now count hg => ?_)
    (fun g now is hg => hg) (fun g j hg => ?_) h key hi
  · exact ⟨hg.1,Nat.lt_of_lt_of_le hg.2 (Nat.le_add_right _ _)⟩
  · rw [(g.ack_range j).1,(g.ack_range j).2]
    exact hg

end Clamator.Redis
