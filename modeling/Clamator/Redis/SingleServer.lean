import Clamator.Redis.AtLeastOnce
import Clamator.Redis.BatchLoop

/-!
# A single server dispatches in order (`README.md`, "Single-server in-order invariant")

One server is the only consumer of a service's group, no command fails, nothing stops
or crashes. Its consumer loop hands the entries of a batch to their handlers one by one,
but the idle time of all of them counts from the delivery of the batch. The order lasts
as long as the reclaim loop finds no entry overdue and no exception ends a batch early.
-/

namespace Clamator.Redis
open Clamator.Base Clamator.Protocol

/-! ### Serving a stream in order -/

/-- Of the entries from `start` to `next`, the first have been served in order, those
that decode by a handler, and the others wait. -/
def Served (decodes : ℕ → Bool) (starts waiting : List ℕ) (start next : ℕ) : Prop :=
  ∃ n, starts=(List.range' start n).filter decodes ∧
    waiting=List.range' (start+n) (next-(start+n)) ∧ start+n ≤ next

theorem served_create (decodes : ℕ → Bool) (start : ℕ) : Served decodes [] [] start start :=
  ⟨0,rfl,by simp,Nat.le_refl _⟩

theorem Served.congr {decodes decodes' : ℕ → Bool} {starts waiting : List ℕ} {start next : ℕ}
    (h : Served decodes starts waiting start next) (hd : ∀ i, i < next → decodes' i=decodes i) :
    Served decodes' starts waiting start next := by
  obtain ⟨n,hs,hw,hle⟩ := h
  refine ⟨n,?_,hw,hle⟩
  rw [hs]
  refine List.filter_congr fun i hi => (hd i ?_).symm
  have h1 := List.mem_range'_1.mp hi
  omega

theorem Served.read {decodes : ℕ → Bool} {starts : List ℕ} {start next : ℕ}
    (h : Served decodes starts [] start next) (k : ℕ) :
    Served decodes starts (List.range' next k) start (next+k) := by
  obtain ⟨n,hs,hw,hle⟩ := h
  have hlen := congrArg List.length hw
  rw [List.length_nil,List.length_range'] at hlen
  have hn : start+n=next := by omega
  refine ⟨n,hs,?_,by omega⟩
  rw [hn]
  congr 1
  omega

theorem Served.enter {decodes : ℕ → Bool} {starts waiting : List ℕ} {start next i : ℕ}
    (h : Served decodes starts (i::waiting) start next) :
    Served decodes (starts++if decodes i then [i] else []) waiting start next := by
  obtain ⟨n,hs,hw,hle⟩ := h
  have hlen := congrArg List.length hw
  rw [List.length_cons,List.length_range'] at hlen
  have hsucc : next-(start+n)=next-(start+(n+1))+1 := by omega
  rw [hsucc,List.range'_succ,List.cons.injEq] at hw
  obtain ⟨rfl,hw⟩ := hw
  refine ⟨n+1,?_,hw,by omega⟩
  rw [List.range'_concat,List.filter_append,hs,Nat.one_mul]
  cases hd : decodes (start+n) <;> simp [hd]

/-! ### The setting -/

/-- Server `s` is the only consumer of the service's group, its commands succeed, and it
neither stops nor crashes. -/
def soleConsumer (s : ℕ) (service : String) : Act → Bool
  | .start s' service' fate => service' != service || s'==s && fate=.ok
  | .stop s' => s' != s
  | .halt s' _ _ => s' != s
  | .crash s' => s' != s
  | .loop _ service' _ (.read fate) => service' != service || fate=.ok
  | .loop _ service' _ (.reply fate) => service' != service || fate=.ok
  | .loop _ service' _ (.ack fate) => service' != service || fate=.ok
  | _ => true

def Pc.waiting : Pc → List Item
  | .handle .start cur rest => cur::rest
  | .handle _ _ rest => rest
  | _ => []

def Pc.dispatching : Pc → Bool
  | .handle (.dispatch _) _ _ => true
  | _ => false

def Inspection.dispatches : Inspection → Bool
  | .dispatch _ => true
  | _ => false

def decodes (D : Deployment) (s : ℕ) (service : String) (w : World) (i : ℕ) : Bool :=
  ((w.streams (D.commandStream service)).entries[i]?).any fun fields =>
    (inspect (w.servers s).lang fields).dispatches

def startsOf (service : String) (w : World) : List ℕ :=
  (w.starts.filter (·.1 == service)).map Prod.snd

/-- At most one handler of the service runs; handlers were started in stream order, once
for every entry up to some point that decodes, and what else has been delivered waits in
the consumer loop's batch, in that order. -/
structure InOrder (D : Deployment) (s : ℕ) (service : String) (w : World) : Prop where
  single : ∀ s1 kind1 s2 kind2, ((w.servers s1).loops service kind1).dispatching=true →
    ((w.servers s2).loops service kind2).dispatching=true → s1=s2 ∧ kind1=kind2
  before : (w.streams (D.commandStream service)).group=none → startsOf service w=[]
  served : ∀ g∈(w.streams (D.commandStream service)).group, Served (decodes D s service w)
    (startsOf service w) (((w.servers s).loops service .consumer).waiting.map Prod.fst) g.start g.next

def Fails (lang : Lang) (fields : List Bulk) : LoopAct → Prop
  | .enter => inspect lang fields=.throw
  | .settle user => ∀ reply, dispatch user fields=some (.returned reply) →
    ∃ replyTo answer, inspect lang fields=.dispatch (some replyTo) ∧ reply=some answer ∧
      answer.text=none
  | _ => False

/-- No XAUTOCLAIM while some entry has been pending for `claimIdleMs` since its delivery,
and no exception out of `handleEntry` while entries of its batch remain. -/
structure Kept (D : Deployment) (s : ℕ) (service : String) (a : Act) (w : World) : Prop where
  punctual : ∀ fate, a=.loop s service .reclaim (.read fate) →
    ∀ g∈(w.streams (D.commandStream service)).group, ∀ p∈g.pending,
      w.now-p.since < (w.servers s).claimIdleMs
  unbroken : ∀ kind act stage cur rest, a=.loop s service kind act →
    (w.servers s).loops service kind=.handle stage cur rest →
    Fails (w.servers s).lang cur.2 act → rest=[]

/-! ### The invariant -/

structure SoleOk (D : Deployment) (s : ℕ) (service : String) (w : World) : Prop where
  others : ∀ s' kind, s'≠s → (w.servers s').loops service kind=.exited
  idle : ((w.servers s).loops service .reclaim).Idle
  before : (w.streams (D.commandStream service)).group=none →
    (∀ kind, (w.servers s).loops service kind=.exited) ∧ startsOf service w=[]
  live : ∀ g∈(w.streams (D.commandStream service)).group, (w.servers s).stopping=false ∧
    (w.servers s).loops service .reclaim≠.exited
  served : ∀ g∈(w.streams (D.commandStream service)).group, Served (decodes D s service w)
    (startsOf service w) (((w.servers s).loops service .consumer).waiting.map Prod.fst) g.start g.next

theorem idle_not_dispatching (pc : Pc) (h : pc.Idle) : pc.dispatching=false := by
  cases pc with
  | handle stage cur rest => exact h.elim
  | _ => rfl

theorem SoleOk.inOrder {D : Deployment} {s : ℕ} {service : String} {w : World}
    (hw : SoleOk D s service w) : InOrder D s service w := by
  have hconsumer : ∀ s' kind, ((w.servers s').loops service kind).dispatching=true →
      s'=s ∧ kind=.consumer := by
    intro s' kind hd
    by_cases hs : s'=s
    · subst hs
      cases kind with
      | consumer => exact ⟨rfl,rfl⟩
      | reclaim =>
        rw [idle_not_dispatching _ hw.idle] at hd
        cases hd
    · rw [hw.others s' kind hs] at hd
      cases hd
  refine ⟨fun s1 kind1 s2 kind2 h1 h2 => ?_,fun hg => (hw.before hg).2,hw.served⟩
  obtain ⟨hs1,hk1⟩ := hconsumer s1 kind1 h1
  obtain ⟨hs2,hk2⟩ := hconsumer s2 kind2 h2
  exact ⟨hs1.trans hs2.symm,hk1.trans hk2.symm⟩

theorem soleOk_initial (D : Deployment) (s : ℕ) (service : String) (w : World) (h : w.Initial) :
    SoleOk D s service w := by
  have hgroup : (w.streams (D.commandStream service)).group=none := by
    rw [h.streams]
    rfl
  refine ⟨fun s' kind _ => h.loops s' service kind,?_,fun _ => ⟨h.loops s service,?_⟩,?_,?_⟩
  · rw [h.loops]
    trivial
  · rw [startsOf,h.starts]
    rfl
  · intro g hg
    rw [hgroup] at hg
    cases hg
  · intro g hg
    rw [hgroup] at hg
    cases hg

theorem decodes_grows (D : Deployment) (s : ℕ) (service : String) (w w' : World) (hg : Grows w w')
    (i : ℕ) (hi : i < (w.streams (D.commandStream service)).entries.length) :
    decodes D s service w' i=decodes D s service w i := by
  obtain ⟨more,hm⟩ := hg.entries (D.commandStream service)
  simp only [decodes,hg.lang,← hm,List.getElem?_append_left hi]

/-! ### Steps beside the service -/

/-- The step leaves the group and the loops of the service alone. -/
structure Aside (D : Deployment) (s : ℕ) (service : String) (w w' : World) : Prop where
  group : (w'.streams (D.commandStream service)).group=(w.streams (D.commandStream service)).group
  starts : startsOf service w'=startsOf service w
  own : ∀ kind, (w'.servers s).loops service kind=(w.servers s).loops service kind
  others : ∀ s' kind, s'≠s → (w.servers s').loops service kind=.exited →
    (w'.servers s').loops service kind=.exited
  stopping : (w'.servers s).stopping=(w.servers s).stopping

theorem SoleOk.aside {D : Deployment} {s : ℕ} {service : String} {w w' : World}
    (hw : SoleOk D s service w) (hg : Grows w w') (ha : Aside D s service w w') :
    SoleOk D s service w' := by
  refine ⟨fun s' kind hs => ha.others s' kind hs (hw.others s' kind hs),?_,?_,?_,?_⟩
  · rw [ha.own]
    exact hw.idle
  · intro hgroup
    rw [ha.group] at hgroup
    obtain ⟨hl,hs⟩ := hw.before hgroup
    refine ⟨fun kind => ?_,?_⟩
    · rw [ha.own]
      exact hl kind
    · rw [ha.starts]
      exact hs
  · intro g hgroup
    rw [ha.group] at hgroup
    rw [ha.stopping,ha.own]
    exact hw.live g hgroup
  · intro g hgroup
    rw [ha.group] at hgroup
    rw [ha.starts,ha.own]
    refine (hw.served g hgroup).congr fun i hi => decodes_grows D s service w w' hg i ?_
    exact Nat.lt_of_lt_of_le hi ((w.streams _).valid g hgroup).next_le

theorem aside_streams (D : Deployment) (s : ℕ) (service : String) (w w' : World)
    (hgroup : (w'.streams (D.commandStream service)).group=
      (w.streams (D.commandStream service)).group)
    (hstarts : w'.starts=w.starts) (hservers : w'.servers=w.servers) : Aside D s service w w' := by
  refine ⟨hgroup,?_,fun kind => ?_,fun s' kind _ h => ?_,?_⟩
  · rw [startsOf,hstarts,startsOf]
  · rw [hservers]
  · rw [hservers]
    exact h
  · rw [hservers]

theorem setStream_group (w : World) (key : String) (stream : Stream (List Bulk)) (key' : String)
    (h : key'=key → stream.group=(w.streams key).group) :
    ((w.setStream key stream).streams key').group=(w.streams key').group := by
  simp only [World.setStream]
  split
  · rename_i hk
    rw [h hk,hk]
  · rfl

theorem aside_setServer (D : Deployment) (s s' : ℕ) (service : String) (w : World) (server : Server)
    (hs : s'≠s) (h : ∀ kind, server.loops service kind=(w.servers s').loops service kind ∨
      server.loops service kind=.exited) : Aside D s service w (w.setServer s' server) := by
  have hself : (w.setServer s' server).servers s=w.servers s := by
    simp [World.setServer,hs.symm]
  refine ⟨rfl,rfl,fun kind => by rw [hself],fun s1 kind _ h1 => ?_,by rw [hself]⟩
  rcases setServer_loops w s' server s1 with ⟨rfl,hserver⟩ | hserver
  · rw [hserver]
    rcases h kind with h2 | h2
    · rw [h2]
      exact h1
    · exact h2
  · rw [hserver]
    exact h1

theorem loopEffect_aside (D : Deployment) (w w' : World) (s : ℕ) (service service' : String)
    (kind : LoopKind) (act : LoopAct) (ev : LoopEv)
    (h : loopEffect D w s service' kind act=some (ev,w')) (hne : service'≠service) :
    (w'.streams (D.commandStream service)).group=(w.streams (D.commandStream service)).group ∧
      startsOf service w'=startsOf service w := by
  have hkey : D.commandStream service≠D.commandStream service' :=
    fun hk => hne (D.commandStream_inj _ _ hk).symm
  generalize hpc : (w.servers s).loops service' kind=pc
  cases loopEffect_effected hpc h with
  | consumed => exact ⟨setStream_group w _ _ _ fun hk => (hkey hk).elim,rfl⟩
  | reclaimed => exact ⟨setStream_group w _ _ _ fun hk => (hkey hk).elim,rfl⟩
  | dispatched cur rest replyTo hi =>
    refine ⟨rfl,?_⟩
    simp [startsOf,List.filter_append,hne]
  | replied => exact ⟨setStream_group w _ _ _ fun _ => rfl,rfl⟩
  | acked => exact ⟨setStream_group w _ _ _ fun hk => (hkey hk).elim,rfl⟩
  | _ => exact ⟨rfl,rfl⟩

theorem setLoop_other (server : Server) (service service' : String) (kind kind' : LoopKind) (pc : Pc)
    (h : service'≠service) :
    (server.setLoop service kind pc).loops service' kind'=server.loops service' kind' := by
  simp [Server.setLoop,h]

theorem aside_loops (D : Deployment) (s s' : ℕ) (service : String) (w : World) (server : Server)
    (hl : ∀ kind, server.loops service kind=(w.servers s').loops service kind)
    (hs : server.stopping=(w.servers s').stopping) : Aside D s service w (w.setServer s' server) := by
  have hloops : ∀ s1 kind, ((w.setServer s' server).servers s1).loops service kind=
      (w.servers s1).loops service kind := by
    intro s1 kind
    rcases setServer_loops w s' server s1 with ⟨rfl,hserver⟩ | hserver
    · rw [hserver,hl]
    · rw [hserver]
  refine ⟨rfl,rfl,hloops s,fun s1 kind _ h1 => by rw [hloops,h1],?_⟩
  rcases setServer_loops w s' server s with ⟨rfl,hserver⟩ | hserver
  · rw [hserver,hs]
  · rw [hserver]

theorem Aside.trans {D : Deployment} {s : ℕ} {service : String} {w w' w'' : World}
    (h : Aside D s service w w') (h' : Aside D s service w' w'') : Aside D s service w w'' where
  group := h'.group.trans h.group
  starts := h'.starts.trans h.starts
  own := fun kind => (h'.own kind).trans (h.own kind)
  others := fun s' kind hs hx => h'.others s' kind hs (h.others s' kind hs hx)
  stopping := h'.stopping.trans h.stopping

theorem settle_starts (w : World) (c : ℕ) (outcome : Settlement) :
    (settle w c outcome).starts=w.starts := by
  unfold settle
  split
  · rfl
  · dsimp only
    split <;> rfl

theorem examine_starts (D : Deployment) (w : World) (k i : ℕ) (fields : List Bulk) :
    (examine D w k i fields).starts=w.starts := by
  unfold examine
  dsimp only
  split
  · rfl
  · split
    · rfl
    · exact settle_starts _ _ _

/- In the setting, only the start of the service and its own loops touch it. -/
theorem step_aside (D : Deployment) (s : ℕ) (service : String) (a : Act) (w w' : World)
    (h : World.step D a w=some w') (ha : soleConsumer s service a=true)
    (hstart : a≠.start s service .ok) (hloop : ∀ s' kind act, a≠.loop s' service kind act) :
    Aside D s service w w' := by
  cases step_stepped D a w w' h with
  | tick d => exact aside_streams D s service w _ rfl rfl rfl
  | foreign key fields =>
    exact aside_streams D s service w _ (setStream_group w _ _ _ fun _ => rfl) rfl rfl
  | startFailed s' service' => exact aside_streams D s service w _ rfl rfl rfl
  | startLost s' service' =>
    have hne : service'≠service := by simpa [soleConsumer] using ha
    refine aside_streams D s service w _ (setStream_group w _ _ _ fun hk => ?_) rfl rfl
    exact (hne (D.commandStream_inj _ _ hk).symm).elim
  | started s' service' hs =>
    have hne : service'≠service := by
      rintro rfl
      have hs' : s'=s := by simpa [soleConsumer] using ha
      subst hs'
      exact hstart rfl
    have hstream : Aside D s service w (w.setStream (D.commandStream service')
        (w.streams (D.commandStream service')).xgroupCreate) := by
      refine aside_streams D s service w _ (setStream_group w _ _ _ fun hk => ?_) rfl rfl
      exact (hne (D.commandStream_inj _ _ hk).symm).elim
    refine hstream.trans (aside_loops D s s' service _ _ (fun kind => ?_) rfl)
    rw [setLoop_other _ _ _ _ _ _ hne.symm,setLoop_other _ _ _ _ _ _ hne.symm]
    rfl
  | stop s' =>
    have hs : s'≠s := by simpa [soleConsumer] using ha
    exact aside_setServer D s s' service w _ hs fun kind => Or.inl rfl
  | halt s' service' kind' =>
    have hs : s'≠s := by simpa [soleConsumer] using ha
    refine aside_setServer D s s' service w _ hs fun kind => ?_
    rcases setLoop_loops (w.servers s') service' kind' .exited service kind with ⟨hl,_⟩ | hl
    · exact Or.inr hl
    · exact Or.inl hl
  | crash s' =>
    have hs : s'≠s := by simpa [soleConsumer] using ha
    exact aside_setServer D s s' service w _ hs fun kind => Or.inr rfl
  | loop s' service' kind act ev w1 pc he hp =>
    have hne : service'≠service := by
      rintro rfl
      exact hloop s' kind act rfl
    have hservers := (loopEffect_grows D w w1 s' service' kind act ev he).2
    have hstream : Aside D s service w w1 := by
      obtain ⟨hgroup,hstarts⟩ := loopEffect_aside D w w1 s' service service' kind act ev he hne
      refine ⟨hgroup,hstarts,fun kind => ?_,fun s1 kind _ h1 => ?_,?_⟩
      all_goals rw [hservers]
      exact h1
    refine hstream.trans (aside_loops D s s' service w1 _ (fun kind' => ?_) ?_)
    · rw [setLoop_other _ _ _ _ _ _ hne.symm,hservers]
    · rw [hservers]
      rfl
  | call k service' method params id d hfresh ht =>
    exact aside_streams D s service w _ rfl rfl rfl
  | arrive c call hc =>
    exact aside_streams D s service w _ (setStream_group w _ _ _ fun _ => rfl) rfl rfl
  | giveUp c =>
    obtain ⟨hstreams,hservers,_⟩ := settle_frame w c .failed
    exact aside_streams D s service w _ (by rw [hstreams]) (settle_starts w c _) hservers
  | notify k service' method params d =>
    exact aside_streams D s service w _ (setStream_group w _ _ _ fun _ => rfl) rfl rfl
  | examine k i fields hf =>
    obtain ⟨hstreams,hservers,_⟩ := examine_frame D w k i fields
    exact aside_streams D s service w _ (by rw [hstreams]) (examine_starts D w k i fields) hservers

/-! ### Steps of the service -/

theorem setServer_self (w : World) (s : ℕ) (server : Server) :
    (w.setServer s server).servers s=server := by
  simp [World.setServer]

theorem setServer_other (w : World) (s s' : ℕ) (server : Server) (h : s'≠s) :
    (w.setServer s server).servers s'=w.servers s' := by
  simp [World.setServer,h]

theorem setLoop_self (server : Server) (service : String) (kind : LoopKind) (pc : Pc) :
    (server.setLoop service kind pc).loops service kind=pc := by
  simp [Server.setLoop]

theorem setLoop_kind (server : Server) (service : String) (kind kind' : LoopKind) (pc : Pc)
    (h : kind'≠kind) :
    (server.setLoop service kind pc).loops service kind'=server.loops service kind' := by
  simp [Server.setLoop,h]

theorem setStream_self (w : World) (key : String) (stream : Stream (List Bulk)) :
    (w.setStream key stream).streams key=stream := by
  simp [World.setStream]

theorem soleOk_started (D : Deployment) (s : ℕ) (service : String) (w w' : World)
    (hw : SoleOk D s service w) (h : World.step D (.start s service .ok) w=some w') :
    SoleOk D s service w' := by
  cases step_stepped D _ w w' h with | started _ _ hs hstop hexited => ?_
  have hgroup : (w.streams (D.commandStream service)).group=none := by
    cases hg : (w.streams (D.commandStream service)).group with
    | none => rfl
    | some g => exact ((hw.live g hg).2 (hexited .reclaim)).elim
  have hstarts := (hw.before hgroup).2
  have hnew : ∀ g, (((w.setStream (D.commandStream service)
      (w.streams (D.commandStream service)).xgroupCreate).setServer s
        (((w.servers s).setLoop service .consumer .poll).setLoop service .reclaim .sleep)).streams
          (D.commandStream service)).group=some g →
      g=Group.create (w.streams (D.commandStream service)).entries.length := by
    intro g hg
    simp only [World.setServer,setStream_self,Stream.xgroupCreate,hgroup,Option.getD_none,
      Option.some.injEq] at hg
    exact hg.symm
  refine ⟨fun s' kind hs' => ?_,?_,fun hg => ?_,fun g hg => ?_,fun g hg => ?_⟩
  · rw [setServer_other _ _ _ _ hs']
    exact hw.others s' kind hs'
  · rw [setServer_self,setLoop_self]
    trivial
  · simp [World.setServer,setStream_self,Stream.xgroupCreate] at hg
  · rw [setServer_self,setLoop_self]
    exact ⟨hstop,Pc.noConfusion⟩
  · rw [hnew g hg,setServer_self,setLoop_kind _ _ _ _ _ (by decide),setLoop_self]
    have hs0 : startsOf service ((w.setStream (D.commandStream service)
        (w.streams (D.commandStream service)).xgroupCreate).setServer s
          (((w.servers s).setLoop service .consumer .poll).setLoop service .reclaim .sleep))=[] :=
      hstarts
    rw [hs0]
    exact served_create _ _

theorem SoleOk.moved {D : Deployment} {s : ℕ} {service : String} {w w' : World}
    (hw : SoleOk D s service w) (g' : Group)
    (hg' : (w'.streams (D.commandStream service)).group=some g')
    (hothers : ∀ s', s'≠s → w'.servers s'=w.servers s') (hstop : (w'.servers s).stopping=false)
    (hidle : ((w'.servers s).loops service .reclaim).Idle)
    (hlive : (w'.servers s).loops service .reclaim≠.exited)
    (hserved : Served (decodes D s service w') (startsOf service w')
      (((w'.servers s).loops service .consumer).waiting.map Prod.fst) g'.start g'.next) :
    SoleOk D s service w' := by
  refine ⟨fun s' kind hs => ?_,hidle,fun hnone => ?_,fun g hg => ⟨hstop,hlive⟩,fun g hg => ?_⟩
  · rw [hothers s' hs]
    exact hw.others s' kind hs
  · rw [hg'] at hnone
    cases hnone
  · rw [hg'] at hg
    cases hg
    exact hserved

theorem waiting_top (kind : LoopKind) (stopping : Bool) : (kind.top stopping).waiting=[] := by
  cases kind <;> cases stopping <;> rfl

theorem waiting_batch (kind : LoopKind) (stopping : Bool) (batch : List Item) :
    (kind.batch stopping batch).waiting=batch := by
  cases batch with
  | nil => exact waiting_top kind stopping
  | cons cur rest => rfl

/- Once an entry is taken up, the rest of the batch waits, unless the entry fails. -/
theorem waiting_after (kind : LoopKind) (stopping : Bool) (cur : Item) (rest : List Item)
    (progress : Progress) (hstart : progress≠.stage .start)
    (hfail : progress=.threw ∨ progress=.cancelled → rest=[]) :
    (Pc.after kind stopping cur rest progress).waiting=rest := by
  cases progress with
  | stage stage =>
    cases stage with
    | start => exact (hstart rfl).elim
    | _ => rfl
  | returned => exact waiting_batch kind stopping rest
  | threw =>
    rw [hfail (Or.inl rfl)]
    cases stopping <;> rfl
  | cancelled =>
    rw [hfail (Or.inr rfl)]
    rfl

theorem soleOk_consumerMoved {D : Deployment} {s : ℕ} {service : String} {w w1 : World}
    (hw : SoleOk D s service w) (hgrows : Grows w w1) (hservers : w1.servers=w.servers)
    (g g' : Group) (hg : (w.streams (D.commandStream service)).group=some g)
    (hg' : (w1.streams (D.commandStream service)).group=some g')
    (hnext : g'.next ≤ (w.streams (D.commandStream service)).entries.length) (pc : Pc)
    (hserved : Served (decodes D s service w) (startsOf service w1) (pc.waiting.map Prod.fst)
      g'.start g'.next) :
    SoleOk D s service (w1.setServer s ((w.servers s).setLoop service .consumer pc)) := by
  have hall : Grows w (w1.setServer s ((w.servers s).setLoop service .consumer pc)) :=
    hgrows.trans (grows_setServer w1 s _ (by rw [hservers]; rfl) (by rw [hservers]; rfl))
  obtain ⟨hstop,hlive⟩ := hw.live g hg
  refine hw.moved g' hg' (fun s' hs => ?_) ?_ ?_ ?_ ?_
  · rw [setServer_other _ _ _ _ hs,hservers]
  · rw [setServer_self]
    exact hstop
  · rw [setServer_self,setLoop_kind _ _ _ _ _ (by decide)]
    exact hw.idle
  · rw [setServer_self,setLoop_kind _ _ _ _ _ (by decide)]
    exact hlive
  · rw [setServer_self,setLoop_self]
    exact hserved.congr fun i hi =>
      decodes_grows D s service w _ hall i (Nat.lt_of_lt_of_le hi hnext)

theorem soleOk_reclaimMoved {D : Deployment} {s : ℕ} {service : String} {w w1 : World}
    (hw : SoleOk D s service w) (hgrows : Grows w w1) (hservers : w1.servers=w.servers)
    (g g' : Group) (hg : (w.streams (D.commandStream service)).group=some g)
    (hg' : (w1.streams (D.commandStream service)).group=some g') (hstart : g'.start=g.start)
    (hnext : g'.next=g.next) (hstarts : startsOf service w1=startsOf service w) (pc : Pc)
    (hidle : pc.Idle) (hlive : pc≠.exited) :
    SoleOk D s service (w1.setServer s ((w.servers s).setLoop service .reclaim pc)) := by
  have hall : Grows w (w1.setServer s ((w.servers s).setLoop service .reclaim pc)) :=
    hgrows.trans (grows_setServer w1 s _ (by rw [hservers]; rfl) (by rw [hservers]; rfl))
  refine hw.moved g' hg' (fun s' hs => ?_) ?_ ?_ ?_ ?_
  · rw [setServer_other _ _ _ _ hs,hservers]
  · rw [setServer_self]
    exact (hw.live g hg).1
  · rw [setServer_self,setLoop_self]
    exact hidle
  · rw [setServer_self,setLoop_self]
    exact hlive
  · have hs : startsOf service (w1.setServer s ((w.servers s).setLoop service .reclaim pc))=
        startsOf service w := hstarts
    rw [setServer_self,setLoop_kind _ _ _ _ _ (by decide),hstart,hnext,hs]
    refine (hw.served g hg).congr fun i hi => decodes_grows D s service w _ hall i ?_
    exact Nat.lt_of_lt_of_le hi ((w.streams _).valid g hg).next_le

/- The reclaim loop sleeps, and reads without taking anything over. -/
theorem soleOk_reclaim (D : Deployment) (s : ℕ) (service : String) (w w1 : World) (act : LoopAct)
    (ev : LoopEv) (pc : Pc) (hw : SoleOk D s service w)
    (he : loopEffect D w s service .reclaim act=some (ev,w1))
    (hp : Loop.step (w.servers s).lang .reclaim (w.servers s).stopping ev
      ((w.servers s).loops service .reclaim)=some pc)
    (ha : soleConsumer s service (.loop s service .reclaim act)=true)
    (hk : Kept D s service (.loop s service .reclaim act) w) (g : Group)
    (hg : (w.streams (D.commandStream service)).group=some g) :
    SoleOk D s service (w1.setServer s ((w.servers s).setLoop service .reclaim pc)) := by
  obtain ⟨hgrows,hservers⟩ := loopEffect_grows D w w1 s service .reclaim act ev he
  have hstop := (hw.live g hg).1
  have hidle := hw.idle
  cases hloop : (w.servers s).loops service .reclaim with
  | handle stage cur rest =>
    rw [hloop] at hidle
    exact hidle.elim
  | exited => exact ((hw.live g hg).2 hloop).elim
  | sleep =>
    rw [hloop,hstop] at hp
    cases loopEffect_effected hloop he
    cases hp
    exact soleOk_reclaimMoved hw hgrows hservers g g hg hg rfl rfl rfl .poll trivial Pc.noConfusion
  | poll =>
    rw [hloop,hstop] at hp
    cases loopEffect_effected hloop he with
    | readFailed => simp [soleConsumer] at ha
    | reclaimed fate =>
      have hfate : fate=.ok := by simpa [soleConsumer] using ha
      subst hfate
      have hnone : g.claimable w.now (w.servers s).claimIdleMs 32=[] := by
        refine List.eq_nil_iff_forall_not_mem.mpr fun i hi => ?_
        obtain ⟨p,hp,_,hle⟩ := g.mem_claimable _ _ _ i hi
        have hlt := hk.punctual .ok rfl g hg p hp
        omega
      have hitems : (w.streams (D.commandStream service)).claimItems w.now
          (w.servers s).claimIdleMs 32=[] := by
        simp only [Stream.claimItems,hg,Option.elim_some,hnone]
        rfl
      simp only [hitems,if_true,Loop.step,LoopKind.batch,LoopKind.top,Bool.false_eq_true,if_false,
        Option.some.injEq] at hp
      subst hp
      refine soleOk_reclaimMoved hw hgrows hservers g (g.claim w.now []) hg ?_ rfl rfl rfl .sleep
        trivial Pc.noConfusion
      rw [setStream_self,Stream.xautoclaim_group,hg,Option.map_some,hnone]

/- Where the commands succeed, `handleEntry` fails at its first two awaits only. -/
theorem fails_of_step (D : Deployment) (w w1 : World) (s : ℕ) (service : String) (kind : LoopKind)
    (act : LoopAct) (ev : LoopEv) (stage : Stage) (cur : Item) (rest : List Item)
    (progress : Progress) (hloop : (w.servers s).loops service kind=.handle stage cur rest)
    (he : loopEffect D w s service kind act=some (ev,w1))
    (hp : stage.step (w.servers s).lang cur.2 ev=some progress)
    (ha : soleConsumer s service (.loop s service kind act)=true)
    (hfail : progress=.threw ∨ progress=.cancelled) : Fails (w.servers s).lang cur.2 act := by
  cases loopEffect_effected hloop he with
  | entered _ _ hno =>
    cases Stage.step_stepped hp with
    | skipped => simp at hfail
    | unreadable _ hi => exact hi
    | dispatched _ replyTo hi => exact (hno replyTo hi).elim
  | dispatched _ _ replyTo hi =>
    cases Stage.step_stepped hp with
    | skipped => simp at hfail
    | unreadable _ hthrow => exact hthrow
    | dispatched => simp at hfail
  | returned user since _ _ answer hlang hservice hout =>
    intro reply hreply
    rw [hout] at hreply
    cases hreply
    cases Stage.step_stepped hp with
    | answered => simp at hfail
    | unsendable _ replyTo reply hi ht => exact ⟨replyTo,reply,hi,rfl,ht⟩
    | unanswered => simp at hfail
  | raised user since _ _ out hout hno =>
    intro reply hreply
    rw [hout] at hreply
    cases hreply
    exact (hno reply rfl).elim
  | replyFailed => simp [soleConsumer] at ha
  | replied fate =>
    have hfate : fate=.ok := by simpa [soleConsumer] using ha
    subst hfate
    cases hp
    simp at hfail
  | ackFailed => simp [soleConsumer] at ha
  | acked fate =>
    have hfate : fate=.ok := by simpa [soleConsumer] using ha
    subst hfate
    cases hp
    simp at hfail

theorem loopEffect_start (D : Deployment) (w w1 : World) (s : ℕ) (service : String)
    (kind : LoopKind) (act : LoopAct) (ev : LoopEv) (cur : Item) (rest : List Item)
    (hloop : (w.servers s).loops service kind=.handle .start cur rest)
    (hcur : Holds D w service cur) (he : loopEffect D w s service kind act=some (ev,w1)) :
    w1.streams=w.streams ∧
      startsOf service w1=startsOf service w++if decodes D s service w cur.1 then [cur.1] else [] := by
  have hd : decodes D s service w cur.1=(inspect (w.servers s).lang cur.2).dispatches := by
    unfold Holds at hcur
    simp only [decodes,hcur,Option.any_some]
  rw [hd]
  cases loopEffect_effected hloop he with
  | entered _ _ hno =>
    cases hi : inspect (w.servers s).lang cur.2 with
    | dispatch replyTo => exact (hno replyTo hi).elim
    | _ => simp [Inspection.dispatches]
  | dispatched _ _ replyTo hi => simp [hi,Inspection.dispatches,startsOf,List.filter_append]

/- The later awaits of `handleEntry` start no handler and deliver nothing. -/
theorem loopEffect_later (D : Deployment) (w w1 : World) (s : ℕ) (service : String)
    (kind : LoopKind) (act : LoopAct) (ev : LoopEv) (stage : Stage) (cur : Item) (rest : List Item)
    (hstage : stage≠.start) (hloop : (w.servers s).loops service kind=.handle stage cur rest)
    (he : loopEffect D w s service kind act=some (ev,w1)) (g : Group)
    (hg : (w.streams (D.commandStream service)).group=some g) :
    startsOf service w1=startsOf service w ∧
      ∃ g', (w1.streams (D.commandStream service)).group=some g' ∧ g'.start=g.start ∧
        g'.next=g.next := by
  cases loopEffect_effected hloop he with
  | entered => exact (hstage rfl).elim
  | dispatched => exact (hstage rfl).elim
  | replied fate replyTo envelope =>
    refine ⟨rfl,g,?_,rfl,rfl⟩
    exact (setStream_group w replyTo ((w.streams replyTo).xadd (D.plainFields envelope)) _
      fun _ => rfl).trans hg
  | acked =>
    refine ⟨rfl,g.ack cur.1,?_,(g.ack_range cur.1).1,(g.ack_range cur.1).2⟩
    rw [setStream_self,Stream.xack_group,hg,Option.map_some]
  | _ => exact ⟨rfl,g,hg,rfl,rfl⟩

theorem waiting_later (stage : Stage) (cur : Item) (rest : List Item) (h : stage≠.start) :
    (Pc.handle stage cur rest).waiting=rest := by
  cases stage with
  | start => exact (h rfl).elim
  | _ => rfl

/- The consumer loop reads what comes next and takes its batch up in order. -/
theorem soleOk_consumer (D : Deployment) (s : ℕ) (service : String) (w w1 : World) (act : LoopAct)
    (ev : LoopEv) (pc : Pc) (hw : SoleOk D s service w) (hack : AckInvariant D w)
    (he : loopEffect D w s service .consumer act=some (ev,w1))
    (hp : Loop.step (w.servers s).lang .consumer (w.servers s).stopping ev
      ((w.servers s).loops service .consumer)=some pc)
    (ha : soleConsumer s service (.loop s service .consumer act)=true)
    (hk : Kept D s service (.loop s service .consumer act) w) (g : Group)
    (hg : (w.streams (D.commandStream service)).group=some g) :
    SoleOk D s service (w1.setServer s ((w.servers s).setLoop service .consumer pc)) := by
  obtain ⟨hgrows,hservers⟩ := loopEffect_grows D w w1 s service .consumer act ev he
  have hstop := (hw.live g hg).1
  have hserved := hw.served g hg
  have hnext := ((w.streams _).valid g hg).next_le
  have hok := hack.loops s service .consumer
  cases hloop : (w.servers s).loops service .consumer with
  | exited =>
    rw [hloop] at hp
    exact (Loop.step_ne_exited _ _ _ _ _ _ hp rfl).elim
  | sleep =>
    rw [hloop] at hp hserved
    rw [hstop] at hp
    cases loopEffect_effected hloop he
    cases hp
    exact soleOk_consumerMoved hw hgrows hservers g g hg hg hnext .poll hserved
  | poll =>
    rw [hloop] at hp hserved
    rw [hstop] at hp
    cases loopEffect_effected hloop he with
    | readFailed => simp [soleConsumer] at ha
    | consumed fate =>
      have hfate : fate=.ok := by simpa [soleConsumer] using ha
      subst hfate
      simp only [if_true,Loop.step,Option.some.injEq] at hp
      subst hp
      refine soleOk_consumerMoved hw hgrows hservers g
        (g.read (w.streams (D.commandStream service)).entries.length w.now 16) hg ?_ ?_ _ ?_
      · rw [setStream_self,Stream.xreadgroup_group,hg,Option.map_some]
      · exact (((w.streams _).valid g hg).read w.now 16).next_le
      · rw [waiting_batch,Stream.readItems_fst _ _ g hg]
        exact Served.read hserved _
  | handle stage cur rest =>
    rw [hloop] at hp hserved hok
    rw [Loop.step_handle] at hp
    obtain ⟨progress,hstep,rfl⟩ := Option.map_eq_some_iff.mp hp
    have hwait : (Pc.after .consumer (w.servers s).stopping cur rest progress).waiting=rest := by
      refine waiting_after _ _ cur rest progress ?_ fun hfail => ?_
      · rintro rfl
        exact Stage.step_ne_start _ _ _ _ _ hstep rfl
      · exact hk.unbroken .consumer act stage cur rest rfl hloop
          (fails_of_step D w w1 s service .consumer act ev stage cur rest progress hloop he hstep ha
            hfail)
    by_cases hstage : stage=.start
    · subst hstage
      have hcur := hok.1 cur List.mem_cons_self
      obtain ⟨hstreams,hstarts⟩ := loopEffect_start D w w1 s service .consumer act ev cur rest hloop
        hcur he
      refine soleOk_consumerMoved hw hgrows hservers g g hg ?_ hnext _ ?_
      · rw [hstreams]
        exact hg
      · rw [hwait,hstarts]
        exact Served.enter hserved
    · obtain ⟨hstarts,g',hg',hs',hn'⟩ := loopEffect_later D w w1 s service .consumer act ev stage
        cur rest hstage hloop he g hg
      refine soleOk_consumerMoved hw hgrows hservers g g' hg hg' ?_ _ ?_
      · rw [hn']
        exact hnext
      · rw [hwait,hstarts,hs',hn']
        rw [waiting_later stage cur rest hstage] at hserved
        exact hserved

theorem soleOk_step (D : Deployment) (s : ℕ) (service : String) (a : Act) (w w' : World)
    (hw : SoleOk D s service w) (hack : AckInvariant D w) (ha : soleConsumer s service a=true)
    (hk : Kept D s service a w) (h : World.step D a w=some w') : SoleOk D s service w' := by
  by_cases hstart : a=.start s service .ok
  · subst hstart
    exact soleOk_started D s service w w' hw h
  · by_cases hloop : ∃ s' kind act, a=.loop s' service kind act
    · obtain ⟨s',kind,act,rfl⟩ := hloop
      cases step_stepped D _ w w' h with | loop _ _ _ _ ev w1 pc he hp => ?_
      have hne := Loop.step_ne_exited _ _ _ _ _ _ hp
      have hs : s'=s := by
        by_contra hs
        exact hne (hw.others s' kind hs)
      subst hs
      cases hg : (w.streams (D.commandStream service)).group with
      | none => exact (hne ((hw.before hg).1 kind)).elim
      | some g =>
        cases kind with
        | consumer => exact soleOk_consumer D s' service w w1 act ev pc hw hack he hp ha hk g hg
        | reclaim => exact soleOk_reclaim D s' service w w1 act ev pc hw he hp ha hk g hg
    · refine hw.aside (step_grows D a w w' h) (step_aside D s service a w w' h ha hstart ?_)
      rintro s' kind act rfl
      exact hloop ⟨s',kind,act,rfl⟩

/-- In every run of the setting whose XAUTOCLAIMs come in time and whose batches are not
broken off, every state is in order, whatever arrives and however the loops interleave. -/
theorem single_server_in_order (D : Deployment) (s : ℕ) (service : String) (acts : List Act)
    (w0 : World) (h0 : w0.Initial) (hg : Guarded (World.step D)
      (fun a w => soleConsumer s service a=true ∧ Kept D s service a w) acts w0) :
    ∀ w∈states (World.step D) acts w0, InOrder D s service w := by
  intro w hw
  refine (states_invariant (I := fun w => SoleOk D s service w ∧ AckInvariant D w) ?_ acts w0 ?_ hg
    w hw).1.inOrder
  · rintro a w w' ⟨hok,hack⟩ ⟨ha,hk⟩ hstep
    exact ⟨soleOk_step D s service a w w' hok hack ha hk hstep,ackInvariant_step D a w w' hack hstep⟩
  · exact ⟨soleOk_initial D s service w0 h0,ackInvariant_initial D w0 h0⟩

/-! ### The guards as checks -/

def fails (lang : Lang) (fields : List Bulk) : LoopAct → Bool
  | .enter => match inspect lang fields with
    | .throw => true
    | _ => false
  | .settle user => match dispatch user fields with
    | some (.returned reply) => match inspect lang fields,reply with
      | .dispatch (some _),some answer => answer.text.isNone
      | _,_ => false
    | _ => true
  | _ => false

def keeps (D : Deployment) (s : ℕ) (service : String) : Act → World → Bool
  | .loop s' service' kind act,w => s' != s || service' != service ||
    (match kind,act with
      | .reclaim,.read _ => (w.streams (D.commandStream service)).group.all fun g =>
          g.pending.all fun p => w.now-p.since < (w.servers s).claimIdleMs
      | _,_ => true) &&
    match (w.servers s).loops service kind with
      | .handle _ cur rest => !fails (w.servers s).lang cur.2 act || rest.isEmpty
      | _ => true
  | _,_ => true

theorem fails_of_fails {lang : Lang} {fields : List Bulk} {act : LoopAct} (h : Fails lang fields act) :
    fails lang fields act=true := by
  cases act with
  | enter =>
    unfold Fails at h
    simp only [fails,h]
  | settle user =>
    simp only [fails]
    split
    · rename_i reply hd
      obtain ⟨replyTo,answer,hi,rfl,ht⟩ := h reply hd
      simp only [hi,ht,Option.isNone_none]
    · rfl
  | _ => exact h.elim

theorem kept_of_keeps {D : Deployment} {s : ℕ} {service : String} {a : Act} {w : World}
    (h : keeps D s service a w=true) : Kept D s service a w := by
  refine ⟨fun fate ha g hg p hp => ?_,fun kind act stage cur rest ha hpc hf => ?_⟩
  · subst ha
    simp only [keeps,bne_self_eq_false,Bool.false_or,Bool.and_eq_true] at h
    have hall := List.all_eq_true.mp ((Option.all_eq_true _ _).mp h.1 g hg) p hp
    simpa using hall
  · subst ha
    simp only [keeps,bne_self_eq_false,Bool.false_or,Bool.and_eq_true,hpc,fails_of_fails hf,
      Bool.not_true,List.isEmpty_iff] at h
    exact h.2

def greetFields : List Bulk := clamator.requestFields (.obj [("jsonrpc",.leaf (.str "2.0")),
  ("method",.leaf (.str "greeter.greet")),("id",.leaf (.str "id-1"))]) "clamator:replies:client"

def greetOne (meanwhile : List Act) : List Act :=
  [.loop 0 "greeter" .consumer .enter]++meanwhile++
    [.loop 0 "greeter" .consumer (.settle (.ts greeterEntry)),
      .loop 0 "greeter" .consumer (.reply .ok),.loop 0 "greeter" .consumer (.ack .ok)]

def patrol : List Act := [.loop 0 "greeter" .reclaim .wake,.loop 0 "greeter" .reclaim (.read .ok)]

/-- A batch of three, handlers of 800 ms, a patrol every 1000 ms, and a fourth entry that
arrives meanwhile. -/
def patrolledRun : List Act :=
  [.start 0 "greeter" .ok]++
  List.replicate 3 (.foreign "clamator:cmds:greeter" greetFields)++
  [.loop 0 "greeter" .consumer (.read .ok)]++
  greetOne [.tick 800]++greetOne ([.tick 200]++patrol++[.tick 600])++
  greetOne ([.foreign "clamator:cmds:greeter" greetFields,.tick 400]++patrol++[.tick 400])++
  [.loop 0 "greeter" .consumer (.read .ok)]++greetOne [.tick 800]

theorem single_server_in_order_patrolled : ∃ w,
    run (World.step clamator) patrolledRun (greeterWorld 4000)=some w ∧
    startsOf "greeter" w=[0,1,2,3] ∧ w.completed.length=4 ∧ InOrder clamator 0 "greeter" w := by
  have hrun : (run (World.step clamator) patrolledRun (greeterWorld 4000)).map
      (fun w => (startsOf "greeter" w,w.completed.length))=some ([0,1,2,3],4) := by decide +kernel
  obtain ⟨w,hw,hfacts⟩ := Option.map_eq_some_iff.mp hrun
  simp only [Prod.mk.injEq] at hfacts
  have hchecked : Guarded (World.step clamator) (fun a w => soleConsumer 0 "greeter" a=true ∧
      keeps clamator 0 "greeter" a w=true) patrolledRun (greeterWorld 4000) := by decide +kernel
  refine ⟨w,hw,hfacts.1,hfacts.2,single_server_in_order clamator 0 "greeter" patrolledRun _
    (greeterWorld_initial 4000) ?_ w (run_mem_states _ _ _ _ hw)⟩
  refine (guarded_iff _ _).mpr fun before a after t u hsplit hbefore hstep => ?_
  obtain ⟨hsole,hkeeps⟩ := (guarded_iff _ _).mp hchecked before a after t u hsplit hbefore hstep
  exact ⟨hsole,kept_of_keeps hkeeps⟩

/-! ### An entry overdue -/

def quick (s : ℕ) (service : String) : Act → World → Bool
  | .loop s' service' kind (.settle _),w => s' != s || service' != service ||
    match (w.servers s).loops service kind with
    | .handle (.dispatch since) _ _ => 10*(w.now-since) ≤ (w.servers s).claimIdleMs
    | _ => true
  | _,_ => true

/-- A batch of eleven, handlers of 400 ms, a patrol every 1000 ms: at 4000 ms, ten are done
and the eleventh has been pending for 4000 ms. -/
def overdueRun : List Act :=
  [.start 0 "greeter" .ok]++
  List.replicate 11 (.foreign "clamator:cmds:greeter" greetFields)++
  [.loop 0 "greeter" .consumer (.read .ok)]++
  greetOne [.tick 400]++greetOne [.tick 400]++greetOne ([.tick 200]++patrol++[.tick 200])++
  greetOne [.tick 400]++greetOne [.tick 400]++patrol++
  greetOne [.tick 400]++greetOne [.tick 400]++greetOne ([.tick 200]++patrol++[.tick 200])++
  greetOne [.tick 400]++greetOne [.tick 400]++patrol++
  [.loop 0 "greeter" .reclaim .enter,.loop 0 "greeter" .consumer .enter]

set_option maxRecDepth 4000 in
/-- The eleventh is started by both loops, and both handlers run. -/
theorem eleventh_started_twice : Guarded (World.step clamator)
      (fun a w => soleConsumer 0 "greeter" a=true ∧ quick 0 "greeter" a w=true) overdueRun
      (greeterWorld 4000) ∧
    ∃ w∈states (World.step clamator) overdueRun (greeterWorld 4000),
      startsOf "greeter" w=[0,1,2,3,4,5,6,7,8,9,10,10] ∧ ¬InOrder clamator 0 "greeter" w := by
  refine ⟨by decide +kernel,?_⟩
  have hrun : (run (World.step clamator) overdueRun (greeterWorld 4000)).map (fun w =>
      (startsOf "greeter" w,((w.servers 0).loops "greeter" .consumer).dispatching,
        ((w.servers 0).loops "greeter" .reclaim).dispatching))=
      some ([0,1,2,3,4,5,6,7,8,9,10,10],true,true) := by decide +kernel
  obtain ⟨w,hw,hfacts⟩ := Option.map_eq_some_iff.mp hrun
  simp only [Prod.mk.injEq] at hfacts
  refine ⟨w,run_mem_states _ _ _ _ hw,hfacts.1,fun h => ?_⟩
  have hkind := (h.single 0 .consumer 0 .reclaim hfacts.2.1 hfacts.2.2).2
  cases hkind

end Clamator.Redis
