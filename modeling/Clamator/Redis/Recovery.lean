import Mathlib.Logic.Function.Basic
import Clamator.Redis.AtLeastOnce
import Clamator.Redis.Calls

/-!
# No entry is out of reach (`runConsumerLoop`, `runReclaimLoop`)

Whatever has happened, crashes of other servers and entries left in their hands included, one
running server whose user code answers can still serve the whole stream: its consumer loop reads
what is undelivered, and its reclaim loop, once everything is idle long enough, claims what is
pending, up to 32 entries of the first 320 at a time.
-/

namespace Clamator.Redis
open Clamator.Base Clamator.Protocol

/-- Time, or an await of the server's own loops for the service. -/
def OwnStep (s : ℕ) (service : String) : Act → Prop
  | .tick _ => True
  | .loop s' service' _ _ => s'=s ∧ service'=service
  | _ => False

/-- An entry that `handleEntry` gets to its XACK: it is not decodable, or its dispatch returns, and
a reply that is wanted can be sent, and not to the command stream itself. -/
structure Answerable (D : Deployment) (service : String) (user : UserCode) (fields : List Bulk)
    (replyTo : Option String) : Prop where
  inspected : inspect user.lang fields=.dispatch replyTo
  elsewhere : replyTo≠some (D.commandStream service)
  returned : ∃ answer, dispatch user fields=some (.returned answer) ∧
    ∀ reply, replyTo≠none → answer=some reply → reply.text.isSome

def Handled (D : Deployment) (service : String) (user : UserCode) (fields : List Bulk) : Prop :=
  inspect user.lang fields=.ack ∨ ∃ replyTo, Answerable D service user fields replyTo

/-- The server runs; `pcs` are its loops for the service, and `g` is the group of the service's
stream with the entries `E`. Since `base` it has completed dispatches by `user`, and no call and no
client has changed. -/
structure Live (D : Deployment) (s : ℕ) (service : String) (user : UserCode) (E : List (List Bulk))
    (base : World) (pcs : LoopKind → Pc) (g : Group) (w : World) : Prop where
  stopping : (w.servers s).stopping=false
  lang : (w.servers s).lang=user.lang
  loops : (w.servers s).loops service=pcs
  entries : (w.streams (D.commandStream service)).entries=E
  group : (w.streams (D.commandStream service)).group=some g
  calls : w.calls=base.calls
  clients : w.clients=base.clients
  completed : ∀ r∈w.completed, r∈base.completed ∨
    r.user=user ∧ dispatch user r.fields=some (.returned r.reply)

/-- The server's own steps lead to where its loop is at `pc` and the group at `g`. -/
def Reaches (D : Deployment) (s : ℕ) (service : String) (user : UserCode) (E : List (List Bulk))
    (base : World) (pcs : LoopKind → Pc) (kind : LoopKind) (pc : Pc) (g : Group) (w : World) : Prop :=
  ∃ w', Leads (World.step D) (OwnStep s service) w w' ∧
    Live D s service user E base (Function.update pcs kind pc) g w'

variable {D : Deployment} {s : ℕ} {service : String} {user : UserCode} {E : List (List Bulk)}
  {base : World} {pcs : LoopKind → Pc} {g g' : Group} {w w1 : World} {kind : LoopKind}

/- One await, and what follows. -/
theorem Reaches.trans {pc pc' : Pc} (h : Reaches D s service user E base pcs kind pc g w)
    (hnext : ∀ w', Live D s service user E base (Function.update pcs kind pc) g w' →
      Reaches D s service user E base (Function.update pcs kind pc) kind pc' g' w') :
    Reaches D s service user E base pcs kind pc' g' w := by
  obtain ⟨w',hleads,h'⟩ := h
  obtain ⟨w'',hleads',h''⟩ := hnext w' h'
  rw [Function.update_idem] at h''
  exact ⟨w'',hleads.trans hleads',h''⟩

theorem Live.await (h : Live D s service user E base pcs g w) {act : LoopAct} {ev : LoopEv} {pc : Pc}
    (he : loopEffect D w s service kind act=some (ev,w1))
    (hp : Loop.step user.lang kind false ev (pcs kind)=some pc)
    (hentries : (w1.streams (D.commandStream service)).entries=E)
    (hgroup : (w1.streams (D.commandStream service)).group=some g')
    (hcompleted : ∀ r∈w1.completed, r∈w.completed ∨
      r.user=user ∧ dispatch user r.fields=some (.returned r.reply)) :
    Reaches D s service user E base pcs kind pc g' w := by
  have hstep : World.step D (.loop s service kind act) w=
      some (w1.setServer s ((w.servers s).setLoop service kind pc)) := by
    show (loopEffect D w s service kind act).bind _=_
    rw [he,Option.bind_some]
    dsimp only
    rw [h.lang,h.stopping,h.loops,hp]
    rfl
  have hown : OwnStep s service (.loop s service kind act) := ⟨rfl,rfl⟩
  obtain ⟨hcalls,hclients⟩ := loopEffect_calls D w w1 s service kind act ev he
  refine ⟨_,Leads.single hown hstep,?_,?_,?_,hentries,hgroup,hcalls.trans h.calls,
    hclients.trans h.clients,fun r hr => ?_⟩
  · simp only [World.setServer,if_true]
    exact h.stopping
  · simp only [World.setServer,if_true]
    exact h.lang
  · funext kind'
    simp only [World.setServer,if_true,Server.setLoop,true_and,Function.update_apply]
    split
    · rfl
    · rw [h.loops]
  · rcases hcompleted r hr with hold | hnew
    · exact h.completed r hold
    · exact Or.inr hnew

/-! ### One entry -/

theorem Live.finishAck (h : Live D s service user E base pcs g w) (cur : Item) (rest : List Item)
    (hpc : pcs kind=.handle .ack cur rest) :
    Reaches D s service user E base pcs kind (kind.batch false rest) (g.ack cur.1) w := by
  have hloop : (w.servers s).loops service kind=.handle .ack cur rest := by rw [h.loops,hpc]
  have he : loopEffect D w s service kind (.ack .ok)=some (.acked true,
      w.setStream (D.commandStream service) ((w.streams (D.commandStream service)).xack cur.1)) := by
    simp [loopEffect,hloop]
  refine h.await he ?_ ?_ ?_ fun r hr => Or.inl hr
  · rw [hpc]
    rfl
  · simp [World.setStream,h.entries]
  · simp [World.setStream,Stream.xack_group,h.group]

theorem Live.finishReply (h : Live D s service user E base pcs g w) (cur : Item) (rest : List Item)
    (replyTo : String) (envelope : Doc) (hne : replyTo≠D.commandStream service)
    (hpc : pcs kind=.handle (.reply replyTo envelope) cur rest) :
    Reaches D s service user E base pcs kind (kind.batch false rest) (g.ack cur.1) w := by
  have hloop : (w.servers s).loops service kind=.handle (.reply replyTo envelope) cur rest := by
    rw [h.loops,hpc]
  have he : loopEffect D w s service kind (.reply .ok)=some (.replied true,
      w.setStream replyTo ((w.streams replyTo).xadd (D.plainFields envelope))) := by
    simp [loopEffect,hloop]
  have hkeep : (w.setStream replyTo ((w.streams replyTo).xadd (D.plainFields envelope))).streams
      (D.commandStream service)=w.streams (D.commandStream service) := by
    simp [World.setStream,hne.symm]
  have hack : Reaches D s service user E base pcs kind (.handle .ack cur rest) g w := by
    refine h.await he ?_ ?_ ?_ fun r hr => Or.inl hr
    · rw [hpc]
      rfl
    · rw [hkeep,h.entries]
    · rw [hkeep,h.group]
  exact hack.trans fun w' h' => h'.finishAck cur rest (by simp)

theorem Live.finishDispatch (h : Live D s service user E base pcs g w) (cur : Item) (rest : List Item)
    (since : ℕ) (replyTo : Option String) (hservice : user.service=service)
    (ha : Answerable D service user cur.2 replyTo) (hpc : pcs kind=.handle (.dispatch since) cur rest) :
    Reaches D s service user E base pcs kind (kind.batch false rest) (g.ack cur.1) w := by
  have hloop : (w.servers s).loops service kind=.handle (.dispatch since) cur rest := by
    rw [h.loops,hpc]
  obtain ⟨hinspect,hne,answer,hdispatch,htext⟩ := ha
  have he : loopEffect D w s service kind (.settle user)=some (.settled (.returned answer),
      { w with completed := w.completed++[⟨s,service,cur.1,cur.2,user,answer⟩] }) := by
    simp [loopEffect,hloop,h.lang,hservice,hdispatch]
  have hcompleted : ∀ r∈w.completed++[(⟨s,service,cur.1,cur.2,user,answer⟩ : Completed)],
      r∈w.completed ∨ r.user=user ∧ dispatch user r.fields=some (.returned r.reply) := by
    intro r hr
    rcases List.mem_append.mp hr with hold | hnew
    · exact Or.inl hold
    · rw [List.mem_singleton.mp hnew]
      exact Or.inr ⟨rfl,hdispatch⟩
  by_cases hreply : ∃ stream reply, replyTo=some stream ∧ answer=some reply
  · obtain ⟨stream,reply,rfl,rfl⟩ := hreply
    obtain ⟨envelope,henvelope⟩ := Option.isSome_iff_exists.mp (htext reply (by simp) rfl)
    have hxadd : Reaches D s service user E base pcs kind (.handle (.reply stream envelope) cur rest) g w := by
      refine h.await he ?_ h.entries h.group hcompleted
      rw [hpc,Loop.step_handle]
      simp [Stage.step,hinspect,henvelope,Pc.after]
    refine hxadd.trans fun w' h' => h'.finishReply cur rest stream envelope ?_ (by simp)
    rintro rfl
    exact hne rfl
  · have hack : Reaches D s service user E base pcs kind (.handle .ack cur rest) g w := by
      refine h.await he ?_ h.entries h.group hcompleted
      rw [hpc,Loop.step_handle]
      simp only [Stage.step,hinspect]
      cases replyTo with
      | none => rfl
      | some stream => cases answer with
        | none => rfl
        | some reply => exact (hreply ⟨stream,reply,rfl,rfl⟩).elim
    exact hack.trans fun w' h' => h'.finishAck cur rest (by simp)

theorem Live.finishStart (h : Live D s service user E base pcs g w) (cur : Item) (rest : List Item)
    (hservice : user.service=service) (hh : Handled D service user cur.2)
    (hpc : pcs kind=.handle .start cur rest) :
    Reaches D s service user E base pcs kind (kind.batch false rest) (g.ack cur.1) w := by
  have hloop : (w.servers s).loops service kind=.handle .start cur rest := by rw [h.loops,hpc]
  rcases hh with hi | ⟨replyTo,ha⟩
  · have he : loopEffect D w s service kind .enter=some (.enter w.now,w) := by
      simp [loopEffect,hloop,h.lang,hi]
    have hack : Reaches D s service user E base pcs kind (.handle .ack cur rest) g w := by
      refine h.await he ?_ h.entries h.group fun r hr => Or.inl hr
      rw [hpc,Loop.step_handle]
      simp [Stage.step,hi,Pc.after]
    exact hack.trans fun w' h' => h'.finishAck cur rest (by simp)
  · have he : loopEffect D w s service kind .enter=
        some (.enter w.now,{ w with starts := w.starts++[(service,cur.1)] }) := by
      simp [loopEffect,hloop,h.lang,ha.inspected]
    have hdispatch : Reaches D s service user E base pcs kind (.handle (.dispatch w.now) cur rest) g w := by
      refine h.await he ?_ h.entries h.group fun r hr => Or.inl hr
      rw [hpc,Loop.step_handle]
      simp [Stage.step,ha.inspected,Pc.after]
    exact hdispatch.trans fun w' h' =>
      h'.finishDispatch cur rest w.now replyTo hservice ha (by simp)

/-! ### A batch -/

theorem Live.finishBatch (items : List Item) (hservice : user.service=service)
    (hh : ∀ item∈items, Handled D service user item.2) (h : Live D s service user E base pcs g w)
    (hpc : pcs kind=kind.batch false items) :
    Reaches D s service user E base pcs kind (kind.top false) (g.ackAll (items.map Prod.fst)) w := by
  induction items generalizing pcs g w with
  | nil =>
    refine ⟨w,Leads.refl w,?_⟩
    have hsame : Function.update pcs kind (kind.top false)=pcs := by
      rw [Function.update_eq_self_iff,hpc]
      rfl
    rw [hsame]
    exact h
  | cons cur rest ih =>
    have hcur := h.finishStart cur rest hservice (hh cur List.mem_cons_self) hpc
    refine hcur.trans fun w' h' => ?_
    exact ih (fun item hi => hh item (List.mem_cons_of_mem _ hi)) h' (by simp)

/- A loop that runs and gets through its batch. -/
def Pc.Ready (D : Deployment) (service : String) (user : UserCode) : Pc → Prop
  | .handle stage cur rest => (∀ item∈rest, Handled D service user item.2) ∧ match stage with
    | .start => Handled D service user cur.2
    | .dispatch _ => ∃ replyTo, Answerable D service user cur.2 replyTo
    | .reply replyTo _ => replyTo≠D.commandStream service
    | .ack => True
  | .exited => False
  | _ => True

theorem Live.stay (h : Live D s service user E base pcs g w) {pc : Pc} (hpc : pcs kind=pc) :
    Reaches D s service user E base pcs kind pc g w := by
  refine ⟨w,Leads.refl w,?_⟩
  have hsame : Function.update pcs kind pc=pcs := by rw [Function.update_eq_self_iff,hpc]
  rw [hsame]
  exact h

theorem Live.wake (h : Live D s service user E base pcs g w) (hpc : pcs kind=.sleep) :
    Reaches D s service user E base pcs kind .poll g w := by
  have hloop : (w.servers s).loops service kind=.sleep := by rw [h.loops,hpc]
  have he : loopEffect D w s service kind .wake=some (.wake,w) := by simp [loopEffect,hloop]
  refine h.await he ?_ h.entries h.group fun r hr => Or.inl hr
  rw [hpc]
  rfl

theorem Live.nextPoll (h : Live D s service user E base pcs g w) (hpc : pcs kind=kind.top false) :
    Reaches D s service user E base pcs kind .poll g w := by
  cases kind with
  | consumer => exact h.stay hpc
  | reclaim => exact h.wake hpc

/- From anywhere to its next read, with some entries acknowledged on the way. -/
theorem Live.toPoll (h : Live D s service user E base pcs g w) (hservice : user.service=service)
    (hready : (pcs kind).Ready D service user) :
    ∃ is, Reaches D s service user E base pcs kind .poll (g.ackAll is) w := by
  cases hpc : pcs kind with
  | sleep => exact ⟨[],h.wake hpc⟩
  | poll => exact ⟨[],h.stay hpc⟩
  | exited =>
    rw [hpc] at hready
    exact hready.elim
  | handle stage cur rest =>
    rw [hpc] at hready
    obtain ⟨hrest,hstage⟩ := hready
    have hfirst : Reaches D s service user E base pcs kind (kind.batch false rest) (g.ack cur.1) w := by
      cases stage with
      | start => exact h.finishStart cur rest hservice hstage hpc
      | dispatch since =>
        obtain ⟨replyTo,ha⟩ := hstage
        exact h.finishDispatch cur rest since replyTo hservice ha hpc
      | reply replyTo envelope => exact h.finishReply cur rest replyTo envelope hstage hpc
      | ack => exact h.finishAck cur rest hpc
    refine ⟨cur.1::rest.map Prod.fst,hfirst.trans fun w' h' => ?_⟩
    have htop : Reaches D s service user E base _ kind (kind.top false) _ w' :=
      h'.finishBatch rest hservice hrest (by simp)
    exact htop.trans fun w'' h'' => h''.nextPoll (by simp)

theorem Live.valid (h : Live D s service user E base pcs g w) : g.Valid E.length := by
  have hv := (w.streams (D.commandStream service)).valid g h.group
  rw [h.entries] at hv
  exact hv

/-! ### The undelivered -/

theorem Live.read (h : Live D s service user E base pcs g w) (hservice : user.service=service)
    (hE : ∀ fields∈E, Handled D service user fields) (hpc : pcs .consumer=.poll) :
    ∃ g', g'.next=g.next+min 16 (E.length-g.next) ∧
      Reaches D s service user E base pcs .consumer .poll g' w := by
  have hloop : (w.servers s).loops service .consumer=.poll := by rw [h.loops,hpc]
  have he : loopEffect D w s service .consumer (.read .ok)=some
      (.got ((w.streams (D.commandStream service)).readItems 16),w.setStream (D.commandStream service)
        ((w.streams (D.commandStream service)).xreadgroup w.now 16)) := by
    simp [loopEffect,hloop]
  have hbatch : Reaches D s service user E base pcs .consumer (LoopKind.consumer.batch false
      ((w.streams (D.commandStream service)).readItems 16)) (g.read E.length w.now 16) w := by
    refine h.await he ?_ ?_ ?_ fun r hr => Or.inl hr
    · rw [hpc]
      rfl
    · simp [World.setStream,h.entries]
    · simp [World.setStream,Stream.xreadgroup_group,h.group,h.entries]
  have hitems : ∀ item∈(w.streams (D.commandStream service)).readItems 16,
      Handled D service user item.2 := by
    intro item hi
    have hmem := List.mem_of_getElem? (Stream.readItems_entries _ 16 item hi)
    rw [h.entries] at hmem
    exact hE _ hmem
  refine ⟨_,?_,hbatch.trans fun w' h' => h'.finishBatch _ hservice hitems (by simp)⟩
  rw [Group.ackAll_next]
  rfl

theorem Live.readAll (n : ℕ) (hn : E.length-g.next ≤ n) (h : Live D s service user E base pcs g w)
    (hservice : user.service=service) (hE : ∀ fields∈E, Handled D service user fields)
    (hpc : pcs .consumer=.poll) :
    ∃ g', g'.next=E.length ∧ Reaches D s service user E base pcs .consumer .poll g' w := by
  have hle := h.valid.next_le
  induction n generalizing pcs g w with
  | zero => exact ⟨g,by omega,h.stay hpc⟩
  | succ n ih =>
    by_cases hdone : g.next=E.length
    · exact ⟨g,hdone,h.stay hpc⟩
    · obtain ⟨g1,hnext,w1,hleads,h1⟩ := h.read hservice hE hpc
      obtain ⟨g2,hend,w2,hleads',h2⟩ := ih (by omega) h1 (by simp) h1.valid.next_le
      rw [Function.update_idem] at h2
      exact ⟨g2,hend,w2,hleads.trans hleads',h2⟩

/-! ### The pending -/

theorem Live.tick (h : Live D s service user E base pcs g w) (d : ℕ) :
    Live D s service user E base pcs g { w with now := w.now+d } :=
  ⟨h.stopping,h.lang,h.loops,h.entries,h.group,h.calls,h.clients,h.completed⟩

/- After a long time everything is idle long enough, so the first pending entry is claimed. -/
theorem claimable_head (g : Group) (now minIdle : ℕ) (p : Pending) (ps : List Pending)
    (hp : g.pending=p::ps) (hidle : minIdle ≤ now-p.since) : p.index∈g.claimable now minIdle 32 := by
  simp [Group.claimable,hp,hidle]

theorem Live.claim (h : Live D s service user E base pcs g w) (hservice : user.service=service)
    (hE : ∀ fields∈E, Handled D service user fields) (hpc : pcs .reclaim=.poll)
    (hpending : g.pendingIds≠[]) : ∃ g', g'.next=g.next ∧
      g'.pendingIds.length < g.pendingIds.length ∧ Reaches D s service user E base pcs .reclaim .poll g' w := by
  obtain ⟨p,ps,hp⟩ : ∃ p ps, g.pending=p::ps := by
    cases hp : g.pending with
    | nil => exact (hpending (by rw [Group.pendingIds,hp]; rfl)).elim
    | cons p ps => exact ⟨p,ps,rfl⟩
  generalize hidle : (w.servers s).claimIdleMs=idle
  have hlate := h.tick (p.since+idle)
  generalize hnow : w.now+(p.since+idle)=now at hlate
  have hloop : (w.servers s).loops service .reclaim=.poll := by rw [h.loops,hpc]
  have he : loopEffect D { w with now := now } s service .reclaim (.read .ok)=some
      (.got ((w.streams (D.commandStream service)).claimItems now idle 32),
        World.setStream { w with now := now } (D.commandStream service)
          ((w.streams (D.commandStream service)).xautoclaim now idle 32)) := by
    simp [loopEffect,hloop,hidle]
  have hbatch : Reaches D s service user E base pcs .reclaim (LoopKind.reclaim.batch false
      ((w.streams (D.commandStream service)).claimItems now idle 32))
        (g.claim now (g.claimable now idle 32)) { w with now := now } := by
    refine hlate.await he ?_ ?_ ?_ fun r hr => Or.inl hr
    · rw [hpc]
      rfl
    · simp [World.setStream,h.entries]
    · simp [World.setStream,Stream.xautoclaim_group,h.group]
  have hitems : ∀ item∈(w.streams (D.commandStream service)).claimItems now idle 32,
      Handled D service user item.2 := by
    intro item hi
    have hmem := List.mem_of_getElem? (Stream.claimItems_entries _ now idle 32 item hi)
    rw [h.entries] at hmem
    exact hE _ hmem
  have hfst : ((w.streams (D.commandStream service)).claimItems now idle 32).map Prod.fst=
      g.claimable now idle 32 := by
    rw [Stream.claimItems,h.group,Option.elim_some]
    refine Stream.items_fst _ _ fun i hi => ?_
    obtain ⟨q,hq,rfl,_⟩ := g.mem_claimable now idle 32 i hi
    have hrange := h.valid.pending_range q.index (List.mem_map_of_mem hq)
    have hnext := h.valid.next_le
    rw [h.entries]
    omega
  have hend : Reaches D s service user E base pcs .reclaim .poll
      ((g.claim now (g.claimable now idle 32)).ackAll (g.claimable now idle 32))
        { w with now := now } := by
    refine hbatch.trans fun w' h' => ?_
    have htop : Reaches D s service user E base _ .reclaim (LoopKind.top .reclaim false) _ w' :=
      h'.finishBatch _ hservice hitems (by simp)
    rw [hfst] at htop
    exact htop.trans fun w'' h'' => h''.nextPoll (by simp)
  obtain ⟨w',hleads,h'⟩ := hend
  have htick : Leads (World.step D) (OwnStep s service) w { w with now := now } := by
    have hown : OwnStep s service (.tick (p.since+idle)) := trivial
    exact Leads.single hown (by rw [← hnow]; rfl)
  refine ⟨_,?_,?_,w',htick.trans hleads,h'⟩
  · rw [Group.ackAll_next]
    rfl
  · rw [Group.ackAll_pendingIds,Group.claim_pendingIds]
    apply List.length_filter_lt_length_iff_exists.mpr
    have hclaimed := claimable_head g now idle p ps hp (by omega)
    refine ⟨p.index,?_,by simpa using hclaimed⟩
    rw [Group.pendingIds,hp]
    exact List.mem_cons_self

theorem Live.claimAll (n : ℕ) (hn : g.pendingIds.length ≤ n) (h : Live D s service user E base pcs g w)
    (hservice : user.service=service) (hE : ∀ fields∈E, Handled D service user fields)
    (hpc : pcs .reclaim=.poll) : ∃ g', g'.next=g.next ∧ g'.pendingIds=[] ∧
      Reaches D s service user E base pcs .reclaim .poll g' w := by
  induction n generalizing pcs g w with
  | zero => exact ⟨g,rfl,List.length_eq_zero_iff.mp (by omega),h.stay hpc⟩
  | succ n ih =>
    by_cases hdone : g.pendingIds=[]
    · exact ⟨g,rfl,hdone,h.stay hpc⟩
    · obtain ⟨g1,hnext,hless,w1,hleads,h1⟩ := h.claim hservice hE hpc hdone
      obtain ⟨g2,hnext',hend,w2,hleads',h2⟩ := ih (by omega) h1 (by simp)
      rw [Function.update_idem] at h2
      exact ⟨g2,hnext'.trans hnext,hend,w2,hleads.trans hleads',h2⟩

/-! ### The whole stream -/

/-- At its dispatch a loop has an entry that decodes. -/
def Dispatching (w : World) : Prop := ∀ s service kind since cur rest,
  (w.servers s).loops service kind=.handle (.dispatch since) cur rest →
  ∃ replyTo, inspect (w.servers s).lang cur.2=.dispatch replyTo

theorem loop_dispatching {lang : Lang} {kind : LoopKind} {stopping : Bool} {ev : LoopEv} {pc : Pc}
    {since : ℕ} {cur : Item} {rest : List Item}
    (h : Loop.step lang kind stopping ev pc=some (.handle (.dispatch since) cur rest)) :
    ∃ replyTo, inspect lang cur.2=.dispatch replyTo := by
  have hbatch : ∀ batch, kind.batch stopping batch≠.handle (.dispatch since) cur rest := by
    intro batch
    cases batch with
    | nil => cases kind <;> cases stopping <;> exact Pc.noConfusion
    | cons item batch => simp [LoopKind.batch]
  have hcaught : Pc.caught stopping≠.handle (.dispatch since) cur rest := by
    cases stopping <;> exact Pc.noConfusion
  cases pc with
  | handle stage cur' rest' =>
    rw [Loop.step_handle] at h
    obtain ⟨progress,hp,hafter⟩ := Option.map_eq_some_iff.mp h
    cases Stage.step_stepped hp with
    | dispatched now replyTo hi =>
      cases hafter
      exact ⟨replyTo,hi⟩
    | acked => exact (hbatch _ hafter).elim
    | unreadable now hi => exact (hcaught hafter).elim
    | rejected since => exact (hcaught hafter).elim
    | unsendable since replyTo answer hi ht => exact (hcaught hafter).elim
    | replyFailed replyTo envelope => exact (hcaught hafter).elim
    | ackFailed => exact (hcaught hafter).elim
    | _ => cases hafter
  | sleep =>
    cases ev with
    | wake => cases stopping <;> cases h
    | _ => cases h
  | poll =>
    cases ev with
    | got batch => exact (hbatch batch (Option.some.inj h)).elim
    | readThrew => exact (hcaught (Option.some.inj h)).elim
    | _ => cases h
  | exited => exact (Loop.step_ne_exited _ _ _ _ _ _ h rfl).elim

theorem dispatching_step {D : Deployment} {a : Act} {w w' : World} (hw : Dispatching w)
    (h : World.step D a w=some w') : Dispatching w' := by
  have hg := step_grows D a w w' h
  intro s service kind since cur rest hpc
  rw [hg.lang]
  by_cases ha : ∃ s service kind act, a=.loop s service kind act
  · obtain ⟨s1,service1,kind1,act,rfl⟩ := ha
    obtain ⟨⟨ev,w1⟩,he,hb⟩ := Option.bind_eq_some_iff.mp h
    obtain ⟨pc,hp,rfl⟩ := Option.map_eq_some_iff.mp hb
    have hservers := (loopEffect_grows D w w1 s1 service1 kind1 act ev he).2
    rcases setServer_loops w1 s1 ((w.servers s1).setLoop service1 kind1 pc) s with ⟨rfl,hs⟩ | hs
    · rw [hs] at hpc
      rcases setLoop_loops (w.servers s) service1 kind1 pc service kind with ⟨hl,rfl,rfl⟩ | hl
      · rw [hl] at hpc
        rw [hpc] at hp
        exact loop_dispatching hp
      · rw [hl] at hpc
        exact hw s service kind since cur rest hpc
    · rw [hs,hservers] at hpc
      exact hw s service kind since cur rest hpc
  · have hne : ∀ s service kind act, a≠.loop s service kind act :=
      fun s service kind act hc => ha ⟨s,service,kind,act,hc⟩
    rcases step_loops D a w w' h hne s service kind with hl | hl
    · rw [hl] at hpc
      exact hw s service kind since cur rest hpc
    · rw [hpc] at hl
      exact hl.elim

theorem dispatching_initial (w : World) (h : w.Initial) : Dispatching w := by
  intro s service kind since cur rest hpc
  rw [h.loops] at hpc
  cases hpc

/- What a loop of a reachable world has in hand are entries of the stream. -/
theorem ready_reachable {D : Deployment} {w : World} {s : ℕ} {service : String} {user : UserCode}
    (hack : AckInvariant D w) (hdis : Dispatching w) (hlang : (w.servers s).lang=user.lang)
    (hE : ∀ fields∈(w.streams (D.commandStream service)).entries, Handled D service user fields)
    (kind : LoopKind) (hrun : (w.servers s).loops service kind≠.exited) :
    ((w.servers s).loops service kind).Ready D service user := by
  have hok := hack.loops s service kind
  have hdispatching := hdis s service kind
  cases hpc : (w.servers s).loops service kind with
  | exited => exact (hrun hpc).elim
  | sleep => trivial
  | poll => trivial
  | handle stage cur rest =>
    rw [hpc] at hok hdispatching
    have hhandled : ∀ item∈cur::rest, Handled D service user item.2 :=
      fun item hi => hE _ (List.mem_of_getElem? (hok.1 item hi))
    have hcur := hhandled cur List.mem_cons_self
    refine ⟨fun item hi => hhandled item (List.mem_cons_of_mem _ hi),?_⟩
    cases stage with
    | start => exact hcur
    | dispatch since =>
      obtain ⟨replyTo,hi⟩ := hdispatching since cur rest rfl
      rcases hcur with hskip | ha
      · rw [← hlang,hi] at hskip
        cases hskip
      · exact ha
    | reply replyTo envelope =>
      obtain ⟨_,_,_,_,_,_,hi,_⟩ := hok.2
      rw [hlang] at hi
      rcases hcur with hskip | ⟨wanted,ha⟩
      · rw [hi] at hskip
        cases hskip
      · have hinspected := ha.inspected
        rw [hi] at hinspected
        cases hinspected
        intro heq
        exact ha.elsewhere (by rw [heq])
    | ack => trivial

/-- Nothing but dispatches by `user` has happened between the two worlds, as far as calls and
clients are concerned, and every entry of the service's stream is acknowledged. -/
structure Recovered (D : Deployment) (user : UserCode) (base w : World) : Prop where
  entries : (w.streams (D.commandStream user.service)).entries=
    (base.streams (D.commandStream user.service)).entries
  calls : w.calls=base.calls
  clients : w.clients=base.clients
  completed : ∀ r∈w.completed, r∈base.completed ∨
    r.user=user ∧ dispatch user r.fields=some (.returned r.reply)
  acked : ∀ i, (w.streams (D.commandStream user.service)).Watched i →
    (w.streams (D.commandStream user.service)).Acked i

/-- A server that runs, with user code that answers every entry of its stream. -/
structure Serving (D : Deployment) (s : ℕ) (user : UserCode) (w : World) : Prop where
  stopping : (w.servers s).stopping=false
  lang : (w.servers s).lang=user.lang
  running : ∀ kind, (w.servers s).loops user.service kind≠.exited
  handled : ∀ fields∈(w.streams (D.commandStream user.service)).entries,
    Handled D user.service user fields

theorem Serving.recovers {w : World} (hs : Serving D s user w)
    (hw : Reachable World.Initial (fun w w' => ∃ a, World.step D a w=some w') w) :
    ∃ w', Leads (World.step D) (OwnStep s user.service) w w' ∧ Recovered D user w w' := by
  cases hgroup : (w.streams (D.commandStream user.service)).group with
  | none =>
    refine ⟨w,Leads.refl w,rfl,rfl,rfl,fun r hr => Or.inl hr,fun i hi => ?_⟩
    obtain ⟨_,g,hg,_⟩ := hi
    rw [hgroup] at hg
    cases hg
  | some g =>
    have hack := ackInvariant_reachable D w hw
    have hdis : Dispatching w :=
      hw.invariant dispatching_initial fun _ _ hd ⟨a,ha⟩ => dispatching_step hd ha
    have hready := fun kind => ready_reachable hack hdis hs.lang hs.handled kind (hs.running kind)
    have hlive : Live D s user.service user (w.streams (D.commandStream user.service)).entries w
        ((w.servers s).loops user.service) g w :=
      ⟨hs.stopping,hs.lang,rfl,rfl,hgroup,rfl,rfl,fun r hr => Or.inl hr⟩
    obtain ⟨is,w1,hleads1,h1⟩ := hlive.toPoll rfl (hready .consumer)
    obtain ⟨g2,hnext2,w2,hleads2,h2⟩ := h1.readAll _ (Nat.le_refl _) rfl hs.handled (by simp)
    rw [Function.update_idem] at h2
    obtain ⟨js,w3,hleads3,h3⟩ : ∃ js, Reaches D s user.service user
        (w.streams (D.commandStream user.service)).entries w _ .reclaim .poll (g2.ackAll js) w2 :=
      h2.toPoll rfl (by simpa using hready .reclaim)
    obtain ⟨g4,hnext4,hpending,w4,hleads4,h4⟩ :=
      h3.claimAll _ (Nat.le_refl _) rfl hs.handled (by simp)
    refine ⟨w4,((hleads1.trans hleads2).trans hleads3).trans hleads4,h4.entries,h4.calls,h4.clients,
      h4.completed,fun i hi => ?_⟩
    have hgroup4 : ∀ P : Group → Prop, (∃ g∈(w4.streams (D.commandStream user.service)).group, P g) →
        P g4 := by
      rintro P ⟨g',hg',hP⟩
      rw [h4.group] at hg'
      cases hg'
      exact hP
    have hlen := hi.1
    rw [h4.entries] at hlen
    have hnext : g4.next=(w.streams (D.commandStream user.service)).entries.length := by
      rw [hnext4,Group.ackAll_next,hnext2]
    rcases Stream.watched_status _ i hi with ⟨hu,_⟩ | ⟨_,hp,_⟩ | ⟨_,_,ha⟩
    · have hle := hgroup4 _ hu
      omega
    · have hmem := hgroup4 _ hp
      rw [hpending] at hmem
      cases hmem
    · exact ha

/-- From every reachable world in which a server runs and its user code answers the entries of a
stream, time and the server's own steps can lead to where every entry is acknowledged. -/
theorem recovery (D : Deployment) (w : World)
    (hw : Reachable World.Initial (fun w w' => ∃ a, World.step D a w=some w') w) (s : ℕ)
    (user : UserCode) (hs : Serving D s user w) :
    ∃ as w', (∀ a∈as, OwnStep s user.service a) ∧ run (World.step D) as w=some w' ∧
      (w'.streams (D.commandStream user.service)).entries=
        (w.streams (D.commandStream user.service)).entries ∧
      ∀ i, (w'.streams (D.commandStream user.service)).Watched i →
        (w'.streams (D.commandStream user.service)).Acked i := by
  obtain ⟨w',⟨as,has,hrun⟩,h⟩ := hs.recovers hw
  exact ⟨as,w',has,hrun,h.entries,h.acked⟩

/-- Server 0 crashes with an entry in its hands; server 1 starts. -/
def crashRun : List Act :=
  [.start 0 "greeter" .ok,.call 0 "greeter" "greet" (.js (.obj [])) "id-1",.arrive 0,
    .loop 0 "greeter" .consumer (.read .ok),.loop 0 "greeter" .consumer .enter,.crash 0,
    .start 1 "greeter" .ok]

theorem recovery_crash : ∃ w, run (World.step clamator) crashRun (greeterWorld 4000)=some w ∧
    (w.streams "clamator:cmds:greeter").IsPending 0 ∧
    ∃ as w', (∀ a∈as, OwnStep 1 "greeter" a) ∧ run (World.step clamator) as w=some w' ∧
      ∀ i, (w'.streams "clamator:cmds:greeter").Watched i →
        (w'.streams "clamator:cmds:greeter").Acked i := by
  have hrun : (run (World.step clamator) crashRun (greeterWorld 4000)).isSome := rfl
  have hw := Reachable.run _ _ _ (.start (greeterWorld_initial 4000)) (Option.some_get hrun).symm
  have hpending : (((run (World.step clamator) crashRun (greeterWorld 4000)).get hrun).streams
      "clamator:cmds:greeter").IsPending 0 := ⟨_,rfl,List.mem_cons_self⟩
  have hentries : ∀ fields∈(((run (World.step clamator) crashRun (greeterWorld 4000)).get hrun).streams
      "clamator:cmds:greeter").entries, Handled clamator "greeter" (.ts greeterEntry) fields := by
    intro fields hf
    obtain rfl : fields=_ := List.mem_singleton.mp hf
    refine Or.inr ⟨some "clamator:replies:client",rfl,by decide,_,rfl,?_⟩
    rintro reply _ ⟨⟩
    rfl
  obtain ⟨as,w',hown,hleads,_,hacked⟩ := recovery clamator _ hw 1 (.ts greeterEntry)
    ⟨rfl,rfl,fun kind => by cases kind <;> exact Pc.noConfusion,hentries⟩
  exact ⟨_,(Option.some_get hrun).symm,hpending,as,w',hown,hleads,hacked⟩

end Clamator.Redis
