import Clamator.Redis.Keys
import Clamator.Redis.ReplyIntegrity
import Clamator.Redis.RoundTrip

/-!
# Several deployments on one Redis

Deployments whose keys differ share the streams and the clock. What one of them does, it could do
alone: no step reads or writes a key of another, and replies go to the deployment's own clients.
-/

namespace Clamator.Redis
open Clamator.Base Clamator.Protocol

variable {D : Deployment} {w w' : World} {keep : String → Prop} {other : String → Stream (List Bulk)}

/-! ### Keys of a deployment -/

/-- A service that a client can call or a server has registered. -/
def Named (w : World) (service : String) : Prop :=
  serviceReMatch service.toList=true ∨ ∃ s, service∈(w.servers s).services

/-- The command stream of such a service, or the reply stream of a client. -/
def Uses (D : Deployment) (w : World) (key : String) : Prop :=
  (∃ service, Named w service ∧ key=D.commandStream service) ∨
    ∃ k, key=D.replyStream (w.clients k).instanceId

/-- All that a step can read or write is kept. -/
structure Within (keep : String → Prop) (D : Deployment) (w : World) : Prop where
  named : ∀ service, Named w service → keep (D.commandStream service)
  replies : ∀ k, keep (D.replyStream (w.clients k).instanceId)
  running : ∀ s service kind, (w.servers s).loops service kind≠.exited →
    keep (D.commandStream service)
  calls : ∀ (c : ℕ) (call : Call), w.calls[c]?=some call → keep (D.commandStream call.service)
  replying : ∀ s service kind replyTo envelope cur rest,
    (w.servers s).loops service kind=.handle (.reply replyTo envelope) cur rest → keep replyTo

/-! ### Other streams -/

open Classical in
/-- The streams that are not kept are replaced. -/
noncomputable def World.graft (keep : String → Prop) (other : String → Stream (List Bulk)) (w : World) :
    World := { w with streams := fun key => if keep key then w.streams key else other key }

theorem graft_streams (w : World) (key : String) (hk : keep key) :
    (w.graft keep other).streams key=w.streams key := if_pos hk

theorem graft_setStream (w : World) (key : String) (stream : Stream (List Bulk)) (hk : keep key) :
    (w.graft keep other).setStream key stream=(w.setStream key stream).graft keep other := by
  have hstreams : ((w.graft keep other).setStream key stream).streams=
      ((w.setStream key stream).graft keep other).streams := by
    funext key'
    simp only [World.graft,World.setStream]
    by_cases hkey : key'=key
    · rw [if_pos hkey,if_pos hkey,hkey,if_pos hk]
    · rw [if_neg hkey,if_neg hkey]
  exact congrArg (fun streams => { w with streams := streams }) hstreams

theorem graft_calls (w : World) : (w.graft keep other).calls=w.calls := rfl

theorem graft_clients (w : World) : (w.graft keep other).clients=w.clients := rfl

theorem graft_servers (w : World) : (w.graft keep other).servers=w.servers := rfl

theorem graft_settle (w : World) (c : ℕ) (outcome : Settlement) :
    settle (w.graft keep other) c outcome=(settle w c outcome).graft keep other := by
  unfold settle
  rw [graft_calls]
  cases w.calls[c]? with
  | none => rfl
  | some call =>
    dsimp only
    cases call.settlement <;> rfl

theorem graft_examine (D : Deployment) (w : World) (k i : ℕ) (fields : List Bulk) :
    examine D (w.graft keep other) k i fields=(examine D w k i fields).graft keep other := by
  unfold examine
  rw [graft_clients]
  dsimp only
  cases replyOf D (w.clients k).lang fields with
  | none => rfl
  | some reply =>
    dsimp only
    cases (w.clients k).pending.lookup reply.1 with
    | none => rfl
    | some c => exact graft_settle (w.setClient k { w.clients k with cursor := i+1 }) c reply.2

/- A loop's await does to the kept streams what it does, and to no other. -/
theorem graft_loopEffect (h : Within keep D w) (s : ℕ) (service : String) (kind : LoopKind)
    (act : LoopAct) : loopEffect D (w.graft keep other) s service kind act=
      (loopEffect D w s service kind act).map fun x => (x.1,x.2.graft keep other) := by
  have hrunning := h.running s service kind
  have hreplying := h.replying s service kind
  unfold loopEffect
  rw [graft_servers]
  dsimp only
  generalize (w.servers s).loops service kind=pc at hrunning hreplying
  cases pc with
  | exited =>
    cases act with
    | read fate => cases fate <;> rfl
    | _ => rfl
  | sleep =>
    cases act with
    | read fate => cases fate <;> rfl
    | _ => rfl
  | poll =>
    have hk := hrunning Pc.noConfusion
    cases act with
    | read fate =>
      rw [graft_streams w _ hk]
      cases fate with
      | failed => rfl
      | _ => cases kind <;> exact congrArg (fun w1 => some (_,w1)) (graft_setStream w _ _ hk)
    | _ => rfl
  | handle stage cur rest =>
    have hk := hrunning Pc.noConfusion
    cases act with
    | wake => cases stage <;> rfl
    | read fate => cases stage <;> cases fate <;> rfl
    | enter =>
      cases stage with
      | start =>
        dsimp only
        cases inspect (w.servers s).lang cur.2 <;> rfl
      | _ => rfl
    | settle user =>
      cases stage with
      | dispatch since =>
        dsimp only
        split
        · cases dispatch user cur.2 with
          | none => rfl
          | some out => cases out <;> rfl
        · rfl
      | _ => rfl
    | reply fate =>
      cases stage with
      | reply replyTo envelope =>
        dsimp only
        rw [graft_streams w _ (hreplying replyTo envelope cur rest rfl)]
        cases fate with
        | failed => rfl
        | _ =>
          exact congrArg (fun w1 => some (_,w1))
            (graft_setStream w _ _ (hreplying replyTo envelope cur rest rfl))
      | _ => rfl
    | ack fate =>
      cases stage with
      | ack =>
        rw [graft_streams w _ hk]
        cases fate with
        | failed => rfl
        | _ => exact congrArg (fun w1 => some (_,w1)) (graft_setStream w _ _ hk)
      | _ => rfl

theorem notifyText_named (service method : String) (params : Params) (d : Doc)
    (h : notifyText service method params=some d) : serviceReMatch service.toList=true := by
  unfold notifyText at h
  split at h
  · split at h
    · rename_i hs
      rw [Bool.and_eq_true] at hs
      exact spellsLine_of_spells _ _ _ hs.1
    · cases h
  · split at h
    · rename_i hs
      rw [Bool.and_eq_true] at hs
      exact hs.1
    · cases h

/-- A step does to the kept streams what it does, and to no other. -/
theorem graft_step (h : Within keep D w) (a : Act) (ha : ∀ key fields, a≠.foreign key fields) :
    World.step D a (w.graft keep other)=(World.step D a w).map (World.graft keep other) := by
  cases a with
  | tick d => rfl
  | foreign key fields => exact (ha key fields rfl).elim
  | start s service fate =>
    unfold World.step
    rw [graft_servers]
    dsimp only
    split
    · by_cases hs : service∈(w.servers s).services ∧ (w.servers s).stopping=false
      · have hk := h.named service (Or.inr ⟨s,hs.1⟩)
        rw [if_pos hs,if_pos hs,graft_streams w _ hk,graft_setStream w _ _ hk]
        cases fate <;> rfl
      · rw [if_neg hs,if_neg hs]
        rfl
    · rfl
  | stop s => rfl
  | halt s service kind =>
    unfold World.step
    rw [graft_servers]
    dsimp only
    split <;> rfl
  | crash s => rfl
  | loop s service kind act =>
    simp only [World.step,stepLoop,graft_loopEffect h,graft_servers]
    cases loopEffect D w s service kind act with
    | none => rfl
    | some x =>
      simp only [Option.map_some,Option.bind_some,Option.map_map]
      rfl
  | call k service method params id =>
    unfold World.step
    rw [graft_clients,graft_calls]
    dsimp only
    split
    · rw [Option.map_map]
      rfl
    · rfl
  | arrive c =>
    simp only [World.step,graft_calls,graft_clients]
    cases hc : w.calls[c]? with
    | none => rfl
    | some call =>
      have hk := h.calls c call hc
      dsimp only
      split
      · rfl
      · rw [graft_streams w _ hk,graft_setStream w _ _ hk]
        rfl
  | giveUp c => exact congrArg some (graft_settle w c _)
  | notify k service method params =>
    unfold World.step
    rw [graft_clients]
    dsimp only
    split
    · cases ht : notifyText service method params with
      | none => rfl
      | some d =>
        have hk := h.named service (Or.inl (notifyText_named _ _ _ _ ht))
        simp only [Option.map_some,graft_streams w _ hk,graft_setStream w _ _ hk]
    · rfl
  | examine k i =>
    simp only [World.step,graft_clients,graft_streams w _ (h.replies k),graft_examine]
    split
    · rfl
    · split <;> rfl

/-! ### A deployment alone -/

theorem truthy_eq (s t : String) (h : truthy (some s)=some t) : t=s := by
  unfold truthy at h
  split at h
  · cases h
  · cases h
    rfl

theorem inspect_requestFields (hD : D.PrintsObjects) (lang : Lang) (fs : List (String × Doc))
    (stream replyTo : String)
    (h : inspect lang (D.requestFields (.obj fs) stream)=.dispatch (some replyTo)) : replyTo=stream := by
  have hrender := hD.ne fs "reply-to" (by decide)
  cases lang with
  | ts =>
    have hreply : ((fieldAfter (D.requestFields (.obj fs) stream) "reply-to").join).map Bulk.text=
        some stream := by
      simp [Deployment.requestFields,fieldAfter,List.findIdx?_cons,word,Deployment.json,hrender]
    obtain ⟨env,henv⟩ := Reading.inspection_dispatch h
    obtain ⟨_,_,_,_,_,hr⟩ := readEntry_decoded henv
    rw [hreply] at hr
    exact truthy_eq _ _ hr.symm
  | py =>
    obtain ⟨env,henv⟩ := Reading.inspection_dispatch h
    obtain ⟨_,_,_,_,_,hr⟩ := pyReadEntry_decoded henv
    obtain ⟨value,hv,rfl⟩ := Option.map_eq_some_iff.mp hr.symm
    have hl : (fieldPairs (D.requestFields (.obj fs) stream)).lookup "reply-to"=some (word stream) := rfl
    rw [getField,hl] at hv
    rw [← Option.some.inj (Option.filter_eq_some_iff.mp hv).1]
    rfl

theorem examine_instanceId (D : Deployment) (w : World) (k i : ℕ) (fields : List Bulk) (k' : ℕ) :
    ((examine D w k i fields).clients k').instanceId=(w.clients k').instanceId := by
  have hpassed : ((w.setClient k { w.clients k with cursor := i+1 }).clients k').instanceId=
      (w.clients k').instanceId := by
    simp only [World.setClient]
    split
    · rename_i hk
      rw [hk]
    · rfl
  unfold examine
  dsimp only
  split
  · exact hpassed
  · split
    · exact hpassed
    · rw [settle_client]
      exact hpassed

theorem step_instanceId {a : Act} (h : World.step D a w=some w') (k : ℕ) :
    (w'.clients k).instanceId=(w.clients k).instanceId := by
  cases step_stepped D a w w' h with
  | loop s service kind act ev w1 pc he hp =>
    have hclients := (loopEffect_calls D w w1 s service kind act ev he).2
    simp only [World.setServer,hclients]
  | call k1 service method params id d hfresh ht =>
    simp only [World.setClient]
    split
    · rename_i hk
      rw [hk]
    · rfl
  | giveUp c => rw [settle_client]
  | examine k1 i fields hf => exact examine_instanceId D w k1 i fields k
  | _ => rfl

/-- Whoever reads a command stream replies to a client of the deployment. -/
def Homeward (D : Deployment) (w : World) : Prop :=
  ∀ service, ∀ fields∈(w.streams (D.commandStream service)).entries, ∀ lang replyTo,
    inspect lang fields=.dispatch (some replyTo) → ∃ k, replyTo=D.replyStream (w.clients k).instanceId

theorem homeward_step {a : Act} (hD : D.PrintsObjects) (hw : Homeward D w) (hi : Integrity D w)
    (h : World.step D a w=some w') (ha : ∀ key fields, a≠.foreign key fields) : Homeward D w' := by
  intro service fields hf lang replyTo hto
  have hids := step_instanceId h
  have hold : fields∈(w.streams (D.commandStream service)).entries →
      ∃ k, replyTo=D.replyStream (w'.clients k).instanceId := by
    intro hf
    obtain ⟨k,hk⟩ := hw service fields hf lang replyTo hto
    exact ⟨k,by rw [hids k,hk]⟩
  have hplain : ∀ d, fields≠D.plainFields d := by
    rintro d rfl
    exact inspect_plainFields D lang d replyTo hto
  cases step_stepped D a w w' h with
  | foreign key fields => exact (ha key fields rfl).elim
  | startLost s service1 =>
    exact hold (mem_setStream_same w (D.commandStream service1) _ _ fields
      (Stream.xgroupCreate_entries _) hf)
  | started s service1 hs =>
    exact hold (mem_setStream_same w (D.commandStream service1) _ _ fields
      (Stream.xgroupCreate_entries _) hf)
  | loop s service1 kind act ev w1 pc he hp =>
    rcases loopEffect_entries D w w1 s service1 kind act ev he _ fields hf with
      hf | ⟨envelope,cur,rest,_,rfl⟩
    · exact hold hf
    · exact (hplain envelope rfl).elim
  | arrive c call hc =>
    rcases mem_xadd w _ _ _ fields hf with hf | ⟨_,rfl⟩
    · exact hold hf
    · obtain ⟨fs,hfs,_⟩ := (requestText_isRequest _ _ _ _ _ (hi.texts c call hc)).says_id
      rw [hfs] at hto
      exact ⟨call.client,inspect_requestFields hD lang fs _ replyTo hto⟩
  | giveUp c =>
    rw [(settle_frame w c _).1] at hf
    exact hold hf
  | notify k service1 method params d =>
    rcases mem_xadd w _ _ _ fields hf with hf | ⟨_,rfl⟩
    · exact hold hf
    · exact (hplain d rfl).elim
  | examine k i fields1 hf1 =>
    rw [(examine_frame D w k i fields1).1] at hf
    exact hold hf
  | _ => exact hold hf

/-- What a deployment alone keeps. -/
structure Alone (D : Deployment) (w0 w : World) : Prop where
  integrity : Integrity D w
  acks : AckInvariant D w
  homeward : Homeward D w
  grown : Grows w0 w
  ids : ∀ k, (w.clients k).instanceId=(w0.clients k).instanceId

theorem alone_initial (h : w.Initial) : Alone D w w := by
  refine ⟨integrity_initial D w h,ackInvariant_initial D w h,?_,Grows.refl w,fun _ => rfl⟩
  intro service fields hf
  rw [h.streams] at hf
  cases hf

theorem alone_step {w0 : World} {a : Act} (hD : D.PrintsObjects) (hw : Alone D w0 w)
    (h : World.closedStep D a w=some w') : Alone D w0 w' := by
  obtain ⟨hstep,ha⟩ := closedStep_eq D a w w' h
  refine ⟨integrity_step D a w w' hw.integrity hw.acks ha hstep,ackInvariant_step D a w w' hw.acks hstep,
    homeward_step hD hw.homeward hw.integrity hstep ha,hw.grown.trans (step_grows D a w w' hstep),?_⟩
  intro k
  rw [step_instanceId hstep,hw.ids]

theorem Alone.within {w0 : World} (h : Alone D w0 w) : Within (Uses D w0) D w := by
  have hnamed : ∀ service, Named w service → Uses D w0 (D.commandStream service) := by
    rintro service (hs | ⟨s,hs⟩)
    · exact Or.inl ⟨service,Or.inl hs,rfl⟩
    · rw [h.grown.services] at hs
      exact Or.inl ⟨service,Or.inr ⟨s,hs⟩,rfl⟩
  have hreply : ∀ k, Uses D w0 (D.replyStream (w.clients k).instanceId) := by
    intro k
    rw [h.ids]
    exact Or.inr ⟨k,rfl⟩
  refine ⟨hnamed,hreply,fun s service kind hr => ?_,fun c call hc => ?_,?_⟩
  · exact hnamed service (Or.inr ⟨s,h.integrity.running s service kind hr⟩)
  · exact hnamed call.service
      (Or.inl (requestText_isRequest _ _ _ _ _ (h.integrity.texts c call hc)).service_ok)
  · intro s service kind replyTo envelope cur rest hpc
    have hloop := h.acks.loops s service kind
    rw [hpc] at hloop
    obtain ⟨r,_,_,_,_,_,hto,_⟩ := hloop.2
    have hcur := List.mem_of_getElem? (hloop.1 cur List.mem_cons_self)
    obtain ⟨k,rfl⟩ := h.homeward service cur.2 hcur _ replyTo hto
    exact hreply k

/-! ### Side by side -/

/-- But for the streams under other keys. -/
structure Alike (keys : String → Prop) (u v : World) : Prop where
  now : v.now=u.now
  servers : v.servers=u.servers
  clients : v.clients=u.clients
  calls : v.calls=u.calls
  completed : v.completed=u.completed
  starts : v.starts=u.starts
  streams : ∀ key, keys key → v.streams key=u.streams key

theorem alike_graft (u : World) : Alike keep u (u.graft keep other) :=
  ⟨rfl,rfl,rfl,rfl,rfl,rfl,fun _ hk => if_pos hk⟩

theorem Alike.eq {u v : World} (h : Alike keep u v) : v=u.graft keep v.streams := by
  have hstreams : v.streams=(u.graft keep v.streams).streams := by
    funext key
    simp only [World.graft]
    split
    · rename_i hk
      exact h.streams key hk
    · rfl
  cases u
  cases v
  obtain ⟨rfl,rfl,rfl,rfl,rfl,rfl,_⟩ := h
  exact congrArg (fun streams => World.mk _ streams _ _ _ _ _) hstreams

theorem closedStep_of_ne {a : Act} (ha : ∀ key fields, a≠.foreign key fields) (w : World) :
    World.closedStep D a w=World.step D a w := by
  cases a with
  | foreign key fields => exact (ha key fields rfl).elim
  | _ => rfl

/-- A step over the shared streams is the deployment's own, and leaves other streams alone. -/
theorem alike_step {w0 u v v' : World} {a : Act} (hu : Alone D w0 u) (h : Alike (Uses D w0) u v)
    (hstep : World.closedStep D a v=some v') : ∃ u', World.closedStep D a u=some u' ∧
      Alike (Uses D w0) u' v' ∧ ∀ key, ¬ Uses D w0 key → v'.streams key=v.streams key := by
  obtain ⟨hstep,ha⟩ := closedStep_eq D a v v' hstep
  rw [h.eq,graft_step hu.within a ha] at hstep
  obtain ⟨u',hu',rfl⟩ := Option.map_eq_some_iff.mp hstep
  exact ⟨u',(closedStep_of_ne ha u).trans hu',alike_graft u',fun key hk => if_neg hk⟩

theorem alike_enabled {w0 u v : World} (hu : Alone D w0 u) (h : Alike (Uses D w0) u v) (a : Act) :
    (World.closedStep D a v).isSome=(World.closedStep D a u).isSome := by
  by_cases ha : ∀ key fields, a≠.foreign key fields
  · rw [closedStep_of_ne ha,closedStep_of_ne ha,h.eq,graft_step hu.within a ha,Option.isSome_map]
  · simp only [not_forall,not_not] at ha
    obtain ⟨key,fields,rfl⟩ := ha
    rfl

def Act.elapsed : Act → ℕ
  | .tick d => d
  | _ => 0

theorem settle_now (w : World) (c : ℕ) (outcome : Settlement) : (settle w c outcome).now=w.now := by
  unfold settle
  split
  · rfl
  · dsimp only
    split <;> rfl

theorem step_now {a : Act} (h : World.step D a w=some w') : w'.now=w.now+a.elapsed := by
  cases step_stepped D a w w' h with
  | loop s service kind act ev w1 pc he hp =>
    have hnow : w1.now=w.now := by
      generalize hpc : (w.servers s).loops service kind=pc at he
      cases loopEffect_effected hpc he <;> rfl
    exact hnow
  | giveUp c => exact settle_now w c _
  | examine k i fields hf =>
    unfold examine
    dsimp only
    split
    · rfl
    · split
      · rfl
      · exact settle_now _ _ _
  | _ => rfl

section
variable {ι : Type} [DecidableEq ι]

/-- One deployment takes a step; the others see the streams and the clock. -/
def sharedStep (D : ι → Deployment) (x : ι × Act) (ws : ι → World) : Option (ι → World) :=
  (World.closedStep (D x.1) x.2 (ws x.1)).map fun w j =>
    if j=x.1 then w else { ws j with streams := w.streams,now := w.now }

/-- What a deployment sees of a step: its own, or that time passes. -/
def ownAct (j : ι) (x : ι × Act) : Option Act :=
  if x.1=j then some x.2 else match x.2 with
  | .tick d => some (.tick d)
  | _ => none

/-- Each deployment is where its own steps have led it, but for the streams of the others. -/
structure Beside (D : ι → Deployment) (ws : ι → World) (acts : List (ι × Act)) (vs : ι → World) :
    Prop where
  streams : ∀ i j, (vs i).streams=(vs j).streams
  now : ∀ i j, (vs i).now=(vs j).now
  each : ∀ j, ∃ u, run (World.closedStep (D j)) (acts.filterMap (ownAct j)) (ws j)=some u ∧
    Alone (D j) (ws j) u ∧ Alike (Uses (D j) (ws j)) u (vs j)

theorem ownAct_self (j : ι) (a : Act) : ownAct j (j,a)=some a := if_pos rfl

theorem ownAct_tick (i j : ι) (d : ℕ) : ownAct j (i,.tick d)=some (.tick d) := by
  unfold ownAct
  split <;> rfl

theorem ownAct_of_ne {i j : ι} (hij : j≠i) {a : Act} (ha : ∀ d, a≠.tick d) : ownAct j (i,a)=none := by
  unfold ownAct
  rw [if_neg hij.symm]
  cases a with
  | tick d => exact (ha d rfl).elim
  | _ => rfl

variable {D : ι → Deployment} {ws : ι → World}

theorem beside_step (hD : ∀ j, (D j).PrintsObjects)
    (hapart : ∀ i j, i≠j → ∀ key, ¬ (Uses (D i) (ws i) key ∧ Uses (D j) (ws j) key))
    {acts : List (ι × Act)} {x : ι × Act} {vs vs' : ι → World} (h : Beside D ws acts vs)
    (hstep : sharedStep D x vs=some vs') : Beside D ws (acts++[x]) vs' := by
  obtain ⟨i,a⟩ := x
  obtain ⟨w,hw,rfl⟩ := Option.map_eq_some_iff.mp hstep
  dsimp only at hw
  obtain ⟨u,hu,halone,halike⟩ := h.each i
  obtain ⟨u',hu',halike',hothers⟩ := alike_step halone halike hw
  have hnow := step_now (closedStep_eq _ _ _ _ hw).1
  refine ⟨fun j k => ?_,fun j k => ?_,fun j => ?_⟩
  · dsimp only
    split <;> split <;> rfl
  · dsimp only
    split <;> split <;> rfl
  · rw [List.filterMap_append]
    by_cases hij : j=i
    · subst hij
      have hown : [(j,a)].filterMap (ownAct j)=[a] := List.filterMap_cons_some (ownAct_self j a)
      refine ⟨u',?_,alone_step (hD j) halone hu',?_⟩
      · rw [hown,run_concat,hu]
        exact hu'
      · rw [if_pos rfl]
        exact halike'
    · obtain ⟨uj,hrun,halonej,halikej⟩ := h.each j
      rw [if_neg hij]
      -- the step is at no stream of `j`
      have hkept : ∀ key, Uses (D j) (ws j) key → w.streams key=uj.streams key := by
        intro key hk
        rw [hothers key fun hk' => hapart j i hij key ⟨hk,hk'⟩,h.streams i j]
        exact halikej.streams key hk
      by_cases ha : ∃ d, a=.tick d
      · obtain ⟨d,rfl⟩ := ha
        have hown : [(i,Act.tick d)].filterMap (ownAct j)=[.tick d] :=
          List.filterMap_cons_some (ownAct_tick i j d)
        have htick : World.closedStep (D j) (.tick d) uj=some { uj with now := uj.now+d } := rfl
        refine ⟨_,?_,alone_step (hD j) halonej htick,?_⟩
        · rw [hown,run_concat,hrun]
          exact htick
        · refine ⟨?_,halikej.servers,halikej.clients,halikej.calls,halikej.completed,halikej.starts,hkept⟩
          rw [hnow,h.now i j,halikej.now]
          rfl
      · rw [not_exists] at ha
        have hown : [(i,a)].filterMap (ownAct j)=[] := List.filterMap_cons_none (ownAct_of_ne hij ha)
        have helapsed : a.elapsed=0 := by
          cases a with
          | tick d => exact (ha d rfl).elim
          | _ => rfl
        refine ⟨uj,?_,halonej,?_⟩
        · rw [hown,List.append_nil]
          exact hrun
        · refine ⟨?_,halikej.servers,halikej.clients,halikej.calls,halikej.completed,halikej.starts,hkept⟩
          rw [hnow,h.now i j,halikej.now,helapsed]
          rfl

/-- Deployments with keys of their own, on one Redis, run in any interleaving: each is where its own
steps, and the time that passed, lead it alone, and what it can do next is what it can do there. -/
theorem deployments_apart {ι : Type} [DecidableEq ι] (D : ι → Deployment) (ws vs : ι → World)
    (hD : ∀ j, (D j).PrintsObjects) (hinit : ∀ j, (ws j).Initial) (hnow : ∀ i j, (ws i).now=(ws j).now)
    (hapart : ∀ i j, i≠j → ∀ key, ¬ (Uses (D i) (ws i) key ∧ Uses (D j) (ws j) key))
    (acts : List (ι × Act)) (hrun : run (sharedStep D) acts ws=some vs) (j : ι) :
    ∃ u, run (World.closedStep (D j)) (acts.filterMap (ownAct j)) (ws j)=some u ∧
      Alike (Uses (D j) (ws j)) u (vs j) ∧
      ∀ a, (sharedStep D (j,a) vs).isSome=(World.closedStep (D j) a u).isSome := by
  have hstart : Beside D ws [] ws := by
    refine ⟨fun i j => by rw [(hinit i).streams,(hinit j).streams],hnow,fun j => ?_⟩
    exact ⟨ws j,rfl,alone_initial (hinit j),⟨rfl,rfl,rfl,rfl,rfl,rfl,fun _ _ => rfl⟩⟩
  have hbeside := run_induction hstart
    (fun before x t u _ h _ hs => beside_step hD hapart h hs) acts vs (guarded_true acts ws) hrun
  obtain ⟨u,hu,halone,halike⟩ := hbeside.each j
  refine ⟨u,hu,halike,fun a => ?_⟩
  rw [sharedStep,Option.isSome_map]
  exact alike_enabled halone halike a

end

/-! ### Keys without further colons -/

theorem last_colon {a b s s' : List Char} (hs : ':'∉s) (hs' : ':'∉s')
    (h : a++ ':'::s=b++ ':'::s') : a=b ∧ s=s' := by
  rcases List.append_eq_append_iff.mp h with ⟨v,rfl,hv⟩ | ⟨v,rfl,hv⟩
  · cases v with
    | nil => exact ⟨(List.append_nil a).symm,(List.cons.inj hv).2⟩
    | cons d ds =>
      rw [(List.cons.inj hv).2] at hs
      exact (hs (by simp)).elim
  · cases v with
    | nil => exact ⟨List.append_nil b,(List.cons.inj hv).2.symm⟩
    | cons d ds =>
      rw [(List.cons.inj hv).2] at hs'
      exact (hs' (by simp)).elim

/-- Registered services and instance ids have no colon: contract names and UUIDs. -/
structure ColonFree (w : World) : Prop where
  services : ∀ s, ∀ service∈(w.servers s).services, ':'∉service.toList
  ids : ∀ k, ':'∉(w.clients k).instanceId.toList

theorem ColonFree.split (h : ColonFree w) (key : String) (hk : Uses D w key) : ∃ kind name : List Char,
    ':'∉kind ∧ ':'∉name ∧ key.toList=(D.keyPrefix.toList++ ':'::kind)++ ':'::name := by
  rcases hk with ⟨service,hs,rfl⟩ | ⟨k,rfl⟩
  · have hname : ':'∉service.toList := by
      rcases hs with hs | ⟨s,hs⟩
      · intro hm
        have hall := spellsLine_all lower serviceTail (· != ':')
          (fun c hc => bne_iff_ne.mpr (ne_of_class lower c ':' (by decide) hc))
          (fun c hc => bne_iff_ne.mpr (ne_of_class serviceTail c ':' (by decide) hc)) (by decide) _ hs
        exact absurd (hall ':' hm) (by decide)
      · exact h.services s service hs
    refine ⟨"cmds".toList,service.toList,by decide,hname,?_⟩
    rw [D.commandStream_eq,commandStream_toList,List.append_assoc]
  · refine ⟨"replies".toList,_,by decide,h.ids k,?_⟩
    rw [D.replyStream_eq,replyStream_toList,List.append_assoc]

/-- Under different prefixes no key is shared. -/
theorem uses_apart {D D' : Deployment} {w w' : World} (h : ColonFree w) (h' : ColonFree w')
    (hne : D.keyPrefix≠D'.keyPrefix) (key : String) : ¬ (Uses D w key ∧ Uses D' w' key) := by
  rintro ⟨hk,hk'⟩
  obtain ⟨kind,name,hkind,hname,hkey⟩ := h.split key hk
  obtain ⟨kind',name',hkind',hname',hkey'⟩ := h'.split key hk'
  have hprefix := (last_colon hname hname' (hkey.symm.trans hkey')).1
  exact hne (String.toList_inj.mp (last_colon hkind hkind' hprefix).1)

/-- Two deployments, one under each prefix. -/
def besideDeployment (second : Bool) : Deployment :=
  { addDeployment with keyPrefix := if second then "tally" else "clamator" }

/-- A call in each, and time for both. -/
def besideRun : List (Bool × Act) :=
  [(false,.start 0 "greeter" .ok),(true,.call 0 "greeter" "greet" (.js (.obj [])) "id-1"),
    (true,.arrive 0),(false,.call 0 "greeter" "greet" (.js (.obj [])) "id-1"),(true,.tick 5),
    (false,.arrive 0),(false,.loop 0 "greeter" .consumer (.read .ok))]

theorem deployments_apart_two : ∃ vs, run (sharedStep besideDeployment) besideRun (fun _ => greeterWorld 4000)=
      some vs ∧ ∀ j, ∃ u, run (World.closedStep (besideDeployment j)) (besideRun.filterMap (ownAct j))
        (greeterWorld 4000)=some u ∧ Alike (Uses (besideDeployment j) (greeterWorld 4000)) u (vs j) := by
  have hrun : (run (sharedStep besideDeployment) besideRun fun _ => greeterWorld 4000).isSome := rfl
  have hfree : ColonFree (greeterWorld 4000) := by
    refine ⟨fun s service hs => ?_,fun k => (by decide : ':'∉"client".toList)⟩
    obtain rfl := List.mem_singleton.mp hs
    decide
  have hapart : ∀ i j, i≠j → ∀ key, ¬ (Uses (besideDeployment i) (greeterWorld 4000) key ∧
      Uses (besideDeployment j) (greeterWorld 4000) key) := by
    intro i j hij
    refine uses_apart hfree hfree ?_
    cases i <;> cases j
    · exact (hij rfl).elim
    · decide
    · decide
    · exact (hij rfl).elim
  refine ⟨_,(Option.some_get hrun).symm,fun j => ?_⟩
  obtain ⟨u,hu,halike,_⟩ := deployments_apart besideDeployment (fun _ => greeterWorld 4000) _
    (fun _ => addDeployment_prints) (fun _ => greeterWorld_initial 4000) (fun _ _ => rfl) hapart besideRun
    (Option.some_get hrun).symm j
  exact ⟨u,hu,halike⟩

end Clamator.Redis
