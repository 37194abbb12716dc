import Clamator.Redis.AtLeastOnce
import Clamator.Redis.Calls

/-!
# End-to-end reply integrity

Where nobody but the servers and clients writes to the streams, every entry has an
origin: a call, a notification, or a completed dispatch of a call's request. An id
belongs to one call, so what a call settles with is what some dispatch of its own
request has replied.
-/

namespace Clamator.Redis
open Clamator.Base Clamator.Protocol

def Completed.text (r : Completed) : Option Doc := r.reply.bind Reply.text

structure RecordOk (D : Deployment) (w : World) (r : Completed) : Prop where
  holds : Holds D w r.service (r.index,r.fields)
  registered : r.service∈(w.servers r.server).services
  lang : r.user.lang=(w.servers r.server).lang
  service : r.user.service=r.service
  dispatched : dispatch r.user r.fields=some (.returned r.reply)

/-- `r` is a completed dispatch of the very request that `call` sent. -/
structure Answers (D : Deployment) (w : World) (call : Call) (r : Completed) : Prop where
  completed : r∈w.completed
  ok : RecordOk D w r
  service : r.service=call.service
  text : requestText call.service call.method call.id call.params=some call.request
  request : ∃ stream, r.fields=D.requestFields call.request stream
  dispatch : DispatchOf call.service call.method call.id r.fields r.user (.returned r.reply)

inductive Origin (D : Deployment) (w : World) (key : String) (fields : List Bulk) : Prop
  | request (c : ℕ) (call : Call) (stream : String) : w.calls[c]?=some call →
    key=D.commandStream call.service → fields=D.requestFields call.request stream →
    Origin D w key fields
  | notification (service : String) (d : Doc) : key=D.commandStream service →
    fields=D.plainFields d → Origin D w key fields
  | reply (c : ℕ) (call : Call) (r : Completed) (d : Doc) : w.calls[c]?=some call →
    Answers D w call r → r.text=some d → fields=D.plainFields d → Origin D w key fields

/-- What ties the calls, the pending maps, the streams and the completed dispatches
together. -/
structure Integrity (D : Deployment) (w : World) : Prop where
  ids : ∀ (c c' : ℕ) (call call' : Call), w.calls[c]?=some call → w.calls[c']?=some call' →
    call.id=call'.id → c=c'
  texts : ∀ (c : ℕ) (call : Call), w.calls[c]?=some call →
    requestText call.service call.method call.id call.params=some call.request
  running : ∀ s service kind, (w.servers s).loops service kind≠.exited →
    service∈(w.servers s).services
  origins : ∀ key, ∀ fields∈(w.streams key).entries, Origin D w key fields
  records : ∀ r∈w.completed, RecordOk D w r
  pending : ∀ k id c, (id,c)∈(w.clients k).pending →
    ∃ call, w.calls[c]?=some call ∧ call.id=id
  settled : ∀ (c : ℕ) (call : Call) (o : Settlement), w.calls[c]?=some call →
    call.settlement=some o → o≠.failed → ∃ r d, Answers D w call r ∧ r.text=some d ∧ Tells d o

/-! ### What growth keeps -/

theorem RecordOk.mono {D : Deployment} {w w' : World} {r : Completed} (hg : Grows w w')
    (h : RecordOk D w r) : RecordOk D w' r where
  holds := h.holds.mono hg
  registered := by
    rw [hg.services]
    exact h.registered
  lang := by
    rw [hg.lang]
    exact h.lang
  service := h.service
  dispatched := h.dispatched

theorem Answers.mono {D : Deployment} {w w' : World} {call call' : Call} {r : Completed}
    (hg : Grows w w') (hl : call.Later call') (h : Answers D w call r) : Answers D w' call' r := by
  rw [hl.same]
  exact ⟨hg.completed.subset h.completed,h.ok.mono hg,h.service,h.text,h.request,h.dispatch⟩

theorem Origin.mono {D : Deployment} {w w' : World} {key : String} {fields : List Bulk}
    (hg : Grows w w') (h : Origin D w key fields) : Origin D w' key fields := by
  cases h with
  | request c call stream hc hk hf =>
    obtain ⟨call',hc',hl⟩ := hg.calls c call hc
    refine .request c call' stream hc' ?_ ?_
    · rw [hl.same]
      exact hk
    · rw [hl.same]
      exact hf
  | notification service d hk hf => exact .notification service d hk hf
  | reply c call r d hc ha hd hf =>
    obtain ⟨call',hc',hl⟩ := hg.calls c call hc
    exact .reply c call' r d hc' (ha.mono hg hl) hd hf

theorem Deployment.replyStream_ne_commandStream (D : Deployment) (instanceId service : String) :
    D.replyStream instanceId≠D.commandStream service := by
  intro h
  have hl := congrArg String.toList h
  simp [Deployment.replyStream,Deployment.commandStream,String.toList_append] at hl

/-! ### What a text is the reply to -/

theorem Integrity.answers {D : Deployment} {w : World} (hw : Integrity D w) (r : Completed)
    (hr : r∈w.completed) (lang : Lang) (replyTo : String)
    (hi : inspect lang r.fields=.dispatch (some replyTo)) :
    ∃ (c : ℕ) (call : Call), w.calls[c]?=some call ∧ Answers D w call r := by
  have hok := hw.records r hr
  have hmem : r.fields∈(w.streams (D.commandStream r.service)).entries :=
    List.mem_of_getElem? hok.holds
  cases hw.origins _ _ hmem with
  | request c call stream hc hk hf =>
    have hs := D.commandStream_inj _ _ hk
    have htext := hw.texts c call hc
    have hreq := requestText_isRequest _ _ _ _ _ htext
    have hd := hok.dispatched
    rw [hf] at hd
    refine ⟨c,call,hc,hr,hok,hs,htext,⟨stream,hf⟩,?_⟩
    rw [hf]
    exact dispatch_requestFields D r.user _ _ _ _ stream hreq _ hd
  | notification service d hk hf =>
    rw [hf] at hi
    exact (inspect_plainFields D lang d replyTo hi).elim
  | reply c call r' d hc ha hd hf =>
    rw [hf] at hi
    exact (inspect_plainFields D lang d replyTo hi).elim

theorem Answers.says_id {D : Deployment} {w : World} {call : Call} {r : Completed} {d : Doc}
    (h : Answers D w call r) (hd : r.text=some d) : d.Says "id" call.id := by
  obtain ⟨answer,hr,ha⟩ := Option.bind_eq_some_iff.mp hd
  have hdis := h.dispatch
  rw [hr] at hdis
  exact dispatchOf_agrees _ _ _ _ _ answer d hdis ha

/- An answer is an answer to one call only. -/
theorem Integrity.answers_unique {D : Deployment} {w : World} (hw : Integrity D w) {r : Completed}
    {c c' : ℕ} {call call' : Call} (hc : w.calls[c]?=some call) (hc' : w.calls[c']?=some call')
    (h : Answers D w call r) (h' : Answers D w call' r) : c'=c := by
  obtain ⟨stream,hf⟩ := h.request
  obtain ⟨stream',hf'⟩ := h'.request
  rw [hf] at hf'
  have hdoc : call.request=call'.request := by
    simp only [Deployment.requestFields,List.cons.injEq,Deployment.json,Bulk.mk.injEq,
      Option.some.injEq] at hf'
    exact hf'.2.2.2.1.2.1
  obtain ⟨fs,hfs,hm⟩ := (requestText_isRequest _ _ _ _ _ h.text).says_id
  obtain ⟨fs',hfs',hm'⟩ := (requestText_isRequest _ _ _ _ _ h'.text).says_id
  rw [hdoc,hfs'] at hfs
  cases hfs
  rw [hm,Option.some.injEq,JsonTree.leaf.injEq,DocLeaf.str.injEq] at hm'
  exact hw.ids c' c call' call hc' hc hm'.symm

/- What a pending call is settled with by an entry of a reply stream is the reply to
its own request. -/
theorem Integrity.reply_answers {D : Deployment} {w : World} (hw : Integrity D w) (k i c : ℕ)
    (fields : List Bulk) (id : String) (outcome : Settlement)
    (he : (w.streams (D.replyStream (w.clients k).instanceId)).entries[i]?=some fields)
    (hr : replyOf D (w.clients k).lang fields=some (id,outcome))
    (hp : (id,c)∈(w.clients k).pending) : ∃ call r d, w.calls[c]?=some call ∧
      Answers D w call r ∧ r.text=some d ∧ fields=D.plainFields d ∧ Tells d outcome := by
  cases hw.origins _ _ (List.mem_of_getElem? he) with
  | request c0 call stream hc hk hf => exact (D.replyStream_ne_commandStream _ _ hk).elim
  | notification service d hk hf => exact (D.replyStream_ne_commandStream _ _ hk).elim
  | reply c0 call r d hc ha hd hf =>
    rw [hf] at hr
    obtain ⟨hid,ht⟩ := replyOf_plainFields D _ d call.id id outcome (ha.says_id hd) hr
    obtain ⟨call',hc',hid'⟩ := hw.pending k id c hp
    have hcc := hw.ids c c0 call' call hc' hc (hid'.trans hid)
    subst hcc
    exact ⟨call,r,d,hc,ha,hd,hf,ht⟩

/-! ### Entries and dispatches from step to step -/

theorem mem_setStream (w : World) (key : String) (stream : Stream (List Bulk)) (key' : String)
    (fields : List Bulk) (h : fields∈((w.setStream key stream).streams key').entries) :
    fields∈(w.streams key').entries ∨ key'=key ∧ fields∈stream.entries := by
  simp only [World.setStream] at h
  split at h
  · rename_i hk
    exact Or.inr ⟨hk,h⟩
  · exact Or.inl h

theorem mem_xadd (w : World) (key : String) (added : List Bulk) (key' : String)
    (fields : List Bulk)
    (h : fields∈((w.setStream key ((w.streams key).xadd added)).streams key').entries) :
    fields∈(w.streams key').entries ∨ key'=key ∧ fields=added := by
  rcases mem_setStream w key _ key' fields h with hold | ⟨rfl,hnew⟩
  · exact Or.inl hold
  · rcases List.mem_append.mp hnew with hold | hnew
    · exact Or.inl hold
    · exact Or.inr ⟨rfl,List.mem_singleton.mp hnew⟩

theorem mem_setStream_same (w : World) (key : String) (stream : Stream (List Bulk)) (key' : String)
    (fields : List Bulk) (hs : stream.entries=(w.streams key).entries)
    (h : fields∈((w.setStream key stream).streams key').entries) :
    fields∈(w.streams key').entries := by
  rcases mem_setStream w key stream key' fields h with hold | ⟨rfl,hnew⟩
  · exact hold
  · rw [hs] at hnew
    exact hnew

theorem loopEffect_entries (D : Deployment) (w w' : World) (s : ℕ) (service : String)
    (kind : LoopKind) (act : LoopAct) (ev : LoopEv)
    (h : loopEffect D w s service kind act=some (ev,w')) (key : String) (fields : List Bulk)
    (hf : fields∈(w'.streams key).entries) : fields∈(w.streams key).entries ∨
      ∃ envelope cur rest, (w.servers s).loops service kind=.handle (.reply key envelope) cur rest ∧
        fields=D.plainFields envelope := by
  generalize hpc : (w.servers s).loops service kind=pc
  cases loopEffect_effected hpc h with
  | consumed =>
    exact Or.inl (mem_setStream_same w _ _ key fields (Stream.xreadgroup_entries _ _ _) hf)
  | reclaimed =>
    exact Or.inl (mem_setStream_same w _ _ key fields (Stream.xautoclaim_entries _ _ _ _) hf)
  | replied fate replyTo envelope cur rest =>
    rcases mem_xadd w replyTo _ key fields hf with hold | ⟨rfl,hnew⟩
    · exact Or.inl hold
    · exact Or.inr ⟨envelope,cur,rest,rfl,hnew⟩
  | acked => exact Or.inl (mem_setStream_same w _ _ key fields (Stream.xack_entries _ _) hf)
  | _ => exact Or.inl hf

theorem loopEffect_completed (D : Deployment) (w w' : World) (s : ℕ) (service : String)
    (kind : LoopKind) (act : LoopAct) (ev : LoopEv)
    (h : loopEffect D w s service kind act=some (ev,w')) (r : Completed) (hr : r∈w'.completed) :
    r∈w.completed ∨ ∃ since cur rest,
      (w.servers s).loops service kind=.handle (.dispatch since) cur rest ∧ r.server=s ∧
      r.service=service ∧ r.index=cur.1 ∧ r.fields=cur.2 ∧ r.user.lang=(w.servers s).lang ∧
      r.user.service=service ∧ dispatch r.user r.fields=some (.returned r.reply) := by
  generalize hpc : (w.servers s).loops service kind=pc
  cases loopEffect_effected hpc h with
  | returned user since cur rest answer hlang hservice hout =>
    rcases List.mem_append.mp hr with hr | hr
    · exact Or.inl hr
    · rw [List.mem_singleton.mp hr]
      exact Or.inr ⟨since,cur,rest,rfl,rfl,rfl,rfl,rfl,hlang,hservice,hout⟩
  | _ => exact Or.inl hr

/-! ### The invariant -/

theorem integrity_initial (D : Deployment) (w : World) (h : w.Initial) : Integrity D w := by
  have hcalls : ∀ (c : ℕ) (call : Call), w.calls[c]?≠some call := by
    intro c call hc
    rw [h.calls] at hc
    cases hc
  refine ⟨fun c _ call _ hc => (hcalls c call hc).elim,fun c call hc => (hcalls c call hc).elim,
    ?_,?_,?_,?_,fun c call _ hc => (hcalls c call hc).elim⟩
  · intro s service kind hr
    exact (hr (h.loops s service kind)).elim
  · intro key fields hf
    rw [h.streams] at hf
    cases hf
  · intro r hr
    rw [h.completed] at hr
    cases hr
  · intro k id c hp
    rw [h.pending] at hp
    cases hp

theorem integrity_ids {D : Deployment} {a : Act} {w w' : World} (hw : Integrity D w)
    (h : World.step D a w=some w') (c c' : ℕ) (call call' : Call) (hc : w'.calls[c]?=some call)
    (hc' : w'.calls[c']?=some call') (hid : call.id=call'.id) : c=c' := by
  have hsource : ∀ (c : ℕ) (call : Call), w'.calls[c]?=some call →
      (∃ call0, w.calls[c]?=some call0 ∧ call0.id=call.id) ∨
      c=w.calls.length ∧ ∀ call0∈w.calls, call0.id≠call.id := by
    intro c call hc
    cases step_calls D a w w' h c call hc with
    | old call0 h0 hl _ => exact Or.inl ⟨call0,h0,by rw [hl.same]⟩
    | new hlen hfresh _ _ => exact Or.inr ⟨hlen,hfresh⟩
    | failed call0 h0 hl _ => exact Or.inl ⟨call0,h0,by rw [hl.same]⟩
    | replied call0 k i fields id outcome h0 hl _ _ _ _ => exact Or.inl ⟨call0,h0,by rw [hl.same]⟩
  rcases hsource c call hc with ⟨call0,h0,hid0⟩ | ⟨hlen,hfresh⟩
  · rcases hsource c' call' hc' with ⟨call1,h1,hid1⟩ | ⟨hlen',hfresh'⟩
    · exact hw.ids c c' call0 call1 h0 h1 (hid0.trans (hid.trans hid1.symm))
    · exact (hfresh' call0 (List.mem_of_getElem? h0) (hid0.trans hid)).elim
  · rcases hsource c' call' hc' with ⟨call1,h1,hid1⟩ | ⟨hlen',hfresh'⟩
    · exact (hfresh call1 (List.mem_of_getElem? h1) (hid1.trans hid.symm)).elim
    · exact hlen.trans hlen'.symm

theorem Call.Later.text {call call' : Call} (hl : call.Later call')
    (h : requestText call.service call.method call.id call.params=some call.request) :
    requestText call'.service call'.method call'.id call'.params=some call'.request := by
  rw [hl.same]
  exact h

theorem integrity_texts {D : Deployment} {a : Act} {w w' : World} (hw : Integrity D w)
    (h : World.step D a w=some w') (c : ℕ) (call : Call) (hc : w'.calls[c]?=some call) :
    requestText call.service call.method call.id call.params=some call.request := by
  cases step_calls D a w w' h c call hc with
  | old call0 h0 hl _ => exact hl.text (hw.texts c call0 h0)
  | new _ _ _ ht => exact ht
  | failed call0 h0 hl _ => exact hl.text (hw.texts c call0 h0)
  | replied call0 k i fields id outcome h0 hl _ _ _ _ => exact hl.text (hw.texts c call0 h0)

theorem integrity_origins {D : Deployment} {a : Act} {w w' : World} (hw : Integrity D w)
    (hack : AckInvariant D w) (h : World.step D a w=some w') (ha : ∀ key fields, a≠.foreign key fields)
    (key : String) (fields : List Bulk) (hf : fields∈(w'.streams key).entries) :
    Origin D w' key fields := by
  have hg := step_grows D a w w' h
  have hold : fields∈(w.streams key).entries → Origin D w' key fields :=
    fun h => (hw.origins key fields h).mono hg
  cases step_stepped D a w w' h with
  | foreign key fields => exact (ha key fields rfl).elim
  | startLost s service =>
    exact hold (mem_setStream_same w (D.commandStream service) _ key fields
      (Stream.xgroupCreate_entries _) hf)
  | started s service hs =>
    exact hold (mem_setStream_same w (D.commandStream service) _ key fields
      (Stream.xgroupCreate_entries _) hf)
  | loop s service kind act ev w1 pc he hp =>
    rcases loopEffect_entries D w w1 s service kind act ev he key fields hf with
      hf | ⟨envelope,cur,rest,hpc,rfl⟩
    · exact hold hf
    · have hloop := hack.loops s service kind
      rw [hpc] at hloop
      obtain ⟨r,hr,_,_,_,hfields,hi,answer,ha,ht⟩ := hloop.2
      rw [← hfields] at hi
      obtain ⟨c,call,hc,hans⟩ := hw.answers r hr _ key hi
      have htext : r.text=some envelope := by
        rw [Completed.text,ha]
        exact ht
      exact (Origin.reply c call r envelope hc hans htext rfl).mono hg
  | arrive c call hc =>
    rcases mem_xadd w _ _ key fields hf with hf | ⟨hk,hf⟩
    · exact hold hf
    · exact (Origin.request c call _ hc hk hf).mono hg
  | giveUp c =>
    rw [(settle_frame w c _).1] at hf
    exact hold hf
  | notify k service method params d =>
    rcases mem_xadd w _ _ key fields hf with hf | ⟨hk,hf⟩
    · exact hold hf
    · exact .notification service d hk hf
  | examine k i fields1 hf1 =>
    rw [(examine_frame D w k i fields1).1] at hf
    exact hold hf
  | _ => exact hold hf

theorem integrity_records {D : Deployment} {a : Act} {w w' : World} (hw : Integrity D w)
    (hack : AckInvariant D w) (h : World.step D a w=some w') (r : Completed) (hr : r∈w'.completed) :
    RecordOk D w' r := by
  have hg := step_grows D a w w' h
  have hold : r∈w.completed → RecordOk D w' r := fun h => (hw.records r h).mono hg
  cases step_stepped D a w w' h with
  | loop s service kind act ev w1 pc he hp =>
    rcases loopEffect_completed D w w1 s service kind act ev he r hr with
      hr | ⟨since,cur,rest,hpc,hserver,hservice,hindex,hfields,hlang,huser,hdis⟩
    · exact hold hr
    · have hloop := hack.loops s service kind
      have hreg := hw.running s service kind (by simp [hpc])
      rw [hpc] at hloop
      have hholds := hloop.1 cur List.mem_cons_self
      refine RecordOk.mono hg ⟨?_,?_,?_,?_,hdis⟩
      · rw [hservice,hindex,hfields]
        exact hholds
      · rw [hservice,hserver]
        exact hreg
      · rw [hserver]
        exact hlang
      · rw [hservice]
        exact huser
  | giveUp c =>
    rw [(settle_frame w c _).2.2] at hr
    exact hold hr
  | examine k i fields hf =>
    rw [(examine_frame D w k i fields).2.2] at hr
    exact hold hr
  | _ => exact hold hr

theorem integrity_settled {D : Deployment} {a : Act} {w w' : World} (hw : Integrity D w)
    (h : World.step D a w=some w') (c : ℕ) (call : Call) (o : Settlement)
    (hc : w'.calls[c]?=some call) (hs : call.settlement=some o) (ho : o≠.failed) :
    ∃ r d, Answers D w' call r ∧ r.text=some d ∧ Tells d o := by
  have hg := step_grows D a w w' h
  cases step_calls D a w w' h c call hc with
  | old call0 h0 hl hsame =>
    rw [hsame] at hs
    obtain ⟨r,d,ha,hd,ht⟩ := hw.settled c call0 o h0 hs ho
    exact ⟨r,d,ha.mono hg hl,hd,ht⟩
  | new _ _ hnone _ =>
    rw [hnone] at hs
    cases hs
  | failed call0 h0 hl hfailed =>
    rw [hfailed] at hs
    cases hs
    exact (ho rfl).elim
  | replied call0 k i fields id outcome h0 hl hout he hr hp =>
    rw [hout] at hs
    cases hs
    obtain ⟨call1,r,d,h1,ha,hd,_,ht⟩ := hw.reply_answers k i c fields id o he hr hp
    rw [h0] at h1
    cases h1
    exact ⟨r,d,ha.mono hg hl,hd,ht⟩

theorem integrity_step (D : Deployment) (a : Act) (w w' : World) (hw : Integrity D w)
    (hack : AckInvariant D w) (ha : ∀ key fields, a≠.foreign key fields)
    (h : World.step D a w=some w') : Integrity D w' where
  ids := integrity_ids hw h
  texts := integrity_texts hw h
  running := by
    intro s service kind hr
    rw [(step_grows D a w w' h).services]
    exact (step_running D a w w' h s service kind hr).elim (hw.running s service kind) And.right
  origins := integrity_origins hw hack h ha
  records := integrity_records hw hack h
  pending := by
    intro k id c hp
    rcases step_pending D a w w' h k id c hp with hp | hnew
    · obtain ⟨call,hc,hid⟩ := hw.pending k id c hp
      obtain ⟨call',hc',hl⟩ := (step_grows D a w w' h).calls c call hc
      refine ⟨call',hc',?_⟩
      rw [hl.same]
      exact hid
    · exact hnew
  settled := integrity_settled hw h

/-! ### End to end -/

def World.closedStep (D : Deployment) : Act → World → Option World
  | .foreign _ _,_ => none
  | a,w => World.step D a w

theorem closedStep_eq (D : Deployment) (a : Act) (w w' : World)
    (h : World.closedStep D a w=some w') :
    World.step D a w=some w' ∧ ∀ key fields, a≠.foreign key fields := by
  cases a with
  | foreign key fields => cases h
  | _ => exact ⟨h,by simp⟩

/-- The call and its pending lines are as they were. -/
def Untouched (w w' : World) (c : ℕ) : Prop := w'.calls[c]?=w.calls[c]? ∧
  ∀ k id, (id,c)∈(w'.clients k).pending ↔ (id,c)∈(w.clients k).pending

theorem integrity_reachable (D : Deployment) (w : World)
    (h : Reachable World.Initial (fun w w' => ∃ a, World.closedStep D a w=some w') w) :
    Integrity D w ∧ AckInvariant D w := by
  refine Reachable.invariant (I := fun w => Integrity D w ∧ AckInvariant D w) ?_ ?_ h
  · intro w hw
    exact ⟨integrity_initial D w hw,ackInvariant_initial D w hw⟩
  · rintro w w' ⟨hw,hack⟩ ⟨a,hstep⟩
    obtain ⟨ha,hclosed⟩ := closedStep_eq D a w w' hstep
    exact ⟨integrity_step D a w w' hw hack hclosed ha,ackInvariant_step D a w w' hack ha⟩

theorem Integrity.untouched {D : Deployment} {a : Act} {w w' : World} (hw : Integrity D w)
    (h : World.step D a w=some w') (c : ℕ) (call : Call) (hc : w.calls[c]?=some call) :
    Untouched w w' c ∨ a=.arrive c ∨ a=.giveUp c ∨ ∃ k i r d, a=.examine k i ∧
      (w.streams (D.replyStream (w.clients k).instanceId)).entries[i]?=some (D.plainFields d) ∧
      Answers D w call r ∧ r.text=some d := by
  have hlt := (List.getElem?_eq_some_iff.mp hc).1
  cases step_stepped D a w w' h with
  | loop s service kind act ev w1 pc he hp =>
    obtain ⟨hcalls,hclients⟩ := loopEffect_calls D w w1 s service kind act ev he
    refine Or.inl ⟨?_,fun k id => ?_⟩
    · simp only [World.setServer,hcalls]
    · simp only [World.setServer,hclients]
  | call k1 service method params id1 d hfresh ht =>
    refine Or.inl ⟨List.getElem?_append_left hlt,fun k id => ?_⟩
    simp only [World.setClient]
    split
    · rename_i hk
      subst hk
      have hne : c≠w.calls.length := Nat.ne_of_lt hlt
      simp [hne]
    · exact Iff.rfl
  | arrive c1 call1 hc1 =>
    by_cases hcc : c1=c
    · subst hcc
      exact Or.inr (Or.inl rfl)
    · exact Or.inl ⟨List.getElem?_set_ne hcc,fun k id => Iff.rfl⟩
  | giveUp c1 =>
    by_cases hcc : c=c1
    · subst hcc
      exact Or.inr (Or.inr (Or.inl rfl))
    · exact Or.inl ⟨settle_calls_of_ne w c1 c _ hcc,settle_pending_of_ne w c1 c _ hcc⟩
  | examine k1 i fields hf =>
    obtain ⟨w1,hcalls,hpending,hx | ⟨id1,outcome,c1,hr,hp,hx⟩⟩ := examine_cases D w k1 i fields
    · rw [hx]
      refine Or.inl ⟨by rw [hcalls],fun k id => by rw [hpending]⟩
    · by_cases hcc : c=c1
      · subst hcc
        obtain ⟨call1,r,d,h1,ha,hd,hfields,_⟩ := hw.reply_answers k1 i c fields id1 outcome hf hr hp
        rw [hc] at h1
        cases h1
        rw [hfields] at hf
        exact Or.inr (Or.inr (Or.inr ⟨k1,i,r,d,rfl,hf,ha,hd⟩))
      · rw [hx]
        refine Or.inl ⟨?_,fun k id => ?_⟩
        · rw [settle_calls_of_ne w1 c1 c outcome hcc,hcalls]
        · rw [settle_pending_of_ne w1 c1 c outcome hcc k id,hpending]
  | _ => exact Or.inl ⟨rfl,fun k id => Iff.rfl⟩

/-- Whatever a call has settled with, but an error of its own, is the content of the
reply of a completed dispatch of its request, and of no other call's; and no step takes
a settled call back, or lets a reply to one call change another. -/
theorem reply_integrity (D : Deployment) (w : World)
    (h : Reachable World.Initial (fun w w' => ∃ a, World.closedStep D a w=some w') w) (c : ℕ) (call : Call)
    (hc : w.calls[c]?=some call) :
    (∀ o, call.settlement=some o → o≠.failed → ∃ r d, Answers D w call r ∧ r.text=some d ∧
      Tells d o ∧ ∀ (c' : ℕ) (call' : Call), w.calls[c']?=some call' → Answers D w call' r → c'=c) ∧
    ∀ a w', World.closedStep D a w=some w' → (∃ call', w'.calls[c]?=some call' ∧
      ∀ o, call.settlement=some o → call'.settlement=some o) ∧
      (Untouched w w' c ∨ a=.arrive c ∨ a=.giveUp c ∨ ∃ k i r d, a=.examine k i ∧
        (w.streams (D.replyStream (w.clients k).instanceId)).entries[i]?=some (D.plainFields d) ∧
        Answers D w call r ∧ r.text=some d) := by
  have hw := (integrity_reachable D w h).1
  refine ⟨fun o ho hf => ?_,fun a w' hstep => ?_⟩
  · obtain ⟨r,d,hans,hd,ht⟩ := hw.settled c call o hc ho hf
    exact ⟨r,d,hans,hd,ht,fun c' call' hc' hans' => hw.answers_unique hc hc' hans hans'⟩
  · have ha := (closedStep_eq D a w w' hstep).1
    obtain ⟨call',hc',hl⟩ := (step_grows D a w w' ha).calls c call hc
    exact ⟨⟨call',hc',hl.settled⟩,hw.untouched ha c call hc⟩

/-- A handler that answers with the params it gets. -/
def mirrorEntry : ServiceEntry := { greeterEntry with handlers := fun _ => some .resolved }

def twoClients : World := { greeterWorld 4000 with
  clients := fun k => ⟨.ts,if k=0 then "first" else "second",0,[]⟩ }

theorem twoClients_initial : twoClients.Initial := ⟨rfl,fun _ _ _ => rfl,fun _ => rfl,rfl,rfl,rfl⟩

def mirrorOne : List Act :=
  [.loop 0 "greeter" .consumer .enter,.loop 0 "greeter" .consumer (.settle (.ts mirrorEntry)),
    .loop 0 "greeter" .consumer (.reply .ok),.loop 0 "greeter" .consumer (.ack .ok)]

/-- Two calls in flight at once, of two clients; the second is sent first and answered first. -/
def concurrentRun : List Act :=
  [.start 0 "greeter" .ok,.call 0 "greeter" "greet" (.js (.obj [("a",Js.str "one")])) "id-1",
    .call 1 "greeter" "greet" (.js (.obj [("a",Js.str "two")])) "id-2",.arrive 1,.arrive 0,
    .loop 0 "greeter" .consumer (.read .ok)]++mirrorOne++mirrorOne++[.examine 1 0,.examine 0 0]

theorem reply_integrity_concurrent : ∃ (w : World) (call call' : Call) (r r' : Completed),
    run (World.closedStep clamator) concurrentRun twoClients=some w ∧
    w.calls[0]?=some call ∧ w.calls[1]?=some call' ∧
    call.settlement=some (.js (.result (.obj [("a",Js.str "one")]))) ∧
    call'.settlement=some (.js (.result (.obj [("a",Js.str "two")]))) ∧
    Answers clamator w call r ∧ Answers clamator w call' r' ∧
    ¬Answers clamator w call r' ∧ ¬Answers clamator w call' r := by
  have hrun : (run (World.closedStep clamator) concurrentRun twoClients).isSome := rfl
  have hw := Reachable.run _ _ _ (.start twoClients_initial) (Option.some_get hrun).symm
  have h0 : ∃ call : Call, ((run (World.closedStep clamator) concurrentRun twoClients).get
      hrun).calls[0]?=some call ∧
      call.settlement=some (.js (.result (.obj [("a",Js.str "one")]))) := ⟨_,rfl,rfl⟩
  have h1 : ∃ call : Call, ((run (World.closedStep clamator) concurrentRun twoClients).get
      hrun).calls[1]?=some call ∧
      call.settlement=some (.js (.result (.obj [("a",Js.str "two")]))) := ⟨_,rfl,rfl⟩
  obtain ⟨call,hc,hs⟩ := h0
  obtain ⟨call',hc',hs'⟩ := h1
  obtain ⟨r,_,ha,_,_,hunique⟩ := (reply_integrity clamator _ hw 0 call hc).1 _ hs (by simp)
  obtain ⟨r',_,ha',_,_,hunique'⟩ := (reply_integrity clamator _ hw 1 call' hc').1 _ hs' (by simp)
  exact ⟨_,call,call',r,r',(Option.some_get hrun).symm,hc,hc',hs,hs',ha,ha',
    fun h => Nat.zero_ne_one (hunique' 0 call hc h),fun h => Nat.one_ne_zero (hunique 1 call' hc' h)⟩

end Clamator.Redis
