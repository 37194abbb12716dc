import Clamator.Base.Behind
import Clamator.Redis.ReplyIntegrity
import Clamator.Redis.SingleServer

/-!
# An entry behind one that throws (`runConsumerLoop`, `runReclaimLoop`)

The `try` block of a loop is around its whole batch, and XAUTOCLAIM from id 0 gives the batch back in
the same order. An entry that was read behind one on which `handleEntry` always throws is never
dispatched, by any server.
-/

namespace Clamator.Redis
open Clamator.Base Clamator.Protocol

/-! ### What was delivered -/

def Pc.items : Pc → List Item
  | .handle _ cur rest => cur::rest
  | _ => []

theorem batch_items (kind : LoopKind) (stopping : Bool) (batch : List Item) :
    (kind.batch stopping batch).items=batch := by
  cases batch with
  | nil => cases kind <;> cases stopping <;> rfl
  | cons cur rest => rfl

theorem step_items {lang : Lang} {kind : LoopKind} {stopping : Bool} {ev : LoopEv} {pc pc' : Pc}
    (h : Loop.step lang kind stopping ev pc=some pc') (item : Item) (hi : item∈pc'.items) :
    item∈pc.items ∨ ∃ batch, ev=.got batch ∧ item∈batch := by
  have hcaught : item∉(Pc.caught stopping).items := by cases stopping <;> exact List.not_mem_nil
  cases pc with
  | sleep =>
    cases ev with
    | wake =>
      cases stopping <;> cases h <;> cases hi
    | _ => cases h
  | poll =>
    cases ev with
    | got batch =>
      cases h
      rw [batch_items] at hi
      exact Or.inr ⟨batch,rfl,hi⟩
    | readThrew =>
      cases h
      exact (hcaught hi).elim
    | _ => cases h
  | exited => exact (Loop.step_ne_exited _ _ _ _ _ _ h rfl).elim
  | handle stage cur rest =>
    rw [Loop.step_handle] at h
    obtain ⟨progress,_,rfl⟩ := Option.map_eq_some_iff.mp h
    cases progress with
    | stage stage' => exact Or.inl hi
    | returned =>
      simp only [Pc.after,batch_items] at hi
      exact Or.inl (List.mem_cons_of_mem _ hi)
    | threw => exact (hcaught hi).elim
    | cancelled => cases hi

theorem readItems_delivered (s : Stream (List Bulk)) (now count : ℕ) (item : Item)
    (hi : item∈s.readItems count) : (s.xreadgroup now count).Delivered item.1 := by
  obtain ⟨hfresh,_⟩ := s.mem_items _ item hi
  cases hg : s.group with
  | none =>
    rw [hg] at hfresh
    cases hfresh
  | some g =>
    rw [hg,Option.elim_some,g.mem_fresh] at hfresh
    have hstart := (s.valid g hg).start_le
    refine ⟨g.read s.entries.length now count,by rw [Stream.xreadgroup_group,hg]; rfl,?_,hfresh.2⟩
    show g.start ≤ item.1
    omega

theorem claimItems_delivered (s : Stream (List Bulk)) (now minIdle count : ℕ) (item : Item)
    (hi : item∈s.claimItems now minIdle count) :
    (s.xautoclaim now minIdle count).Delivered item.1 := by
  obtain ⟨hclaimable,_⟩ := s.mem_items _ item hi
  cases hg : s.group with
  | none =>
    rw [hg] at hclaimable
    cases hclaimable
  | some g =>
    rw [hg,Option.elim_some] at hclaimable
    obtain ⟨q,hq,hindex,_⟩ := g.mem_claimable now minIdle count item.1 hclaimable
    have hrange := (s.valid g hg).pending_range q.index (List.mem_map_of_mem hq)
    rw [hindex] at hrange
    exact ⟨g.claim now (g.claimable now minIdle count),by rw [Stream.xautoclaim_group,hg]; rfl,hrange⟩

/-- What a loop has in hand and what was dispatched has been delivered. -/
structure Handed (D : Deployment) (w : World) : Prop where
  loops : ∀ s service kind, ∀ item∈((w.servers s).loops service kind).items,
    (w.streams (D.commandStream service)).Delivered item.1
  starts : ∀ x∈w.starts, (w.streams (D.commandStream x.1)).Delivered x.2
  completed : ∀ r∈w.completed, (w.streams (D.commandStream r.service)).Delivered r.index

variable {D : Deployment} {w w' w1 : World} {s : ℕ} {service : String} {kind : LoopKind}

theorem loopEffect_batch {act : LoopAct} {ev : LoopEv} {batch : List Item}
    (h : loopEffect D w s service kind act=some (ev,w1)) (hev : ev=.got batch) (item : Item)
    (hi : item∈batch) : (w1.streams (D.commandStream service)).Delivered item.1 := by
  generalize hpc : (w.servers s).loops service kind=pc
  cases loopEffect_effected hpc h with
  | consumed fate =>
    split at hev
    · cases hev
      simp only [World.setStream,if_true]
      exact readItems_delivered _ _ _ item hi
    · cases hev
  | reclaimed fate =>
    split at hev
    · cases hev
      simp only [World.setStream,if_true]
      exact claimItems_delivered _ _ _ _ item hi
    · cases hev
  | _ => cases hev

theorem loopEffect_starts {act : LoopAct} {ev : LoopEv}
    (h : loopEffect D w s service kind act=some (ev,w1)) (x : String × ℕ) (hx : x∈w1.starts) :
    x∈w.starts ∨ ∃ cur rest, (w.servers s).loops service kind=.handle .start cur rest ∧
      x=(service,cur.1) := by
  generalize hpc : (w.servers s).loops service kind=pc
  cases loopEffect_effected hpc h with
  | dispatched cur rest replyTo hi =>
    rcases List.mem_append.mp hx with hold | hnew
    · exact Or.inl hold
    · exact Or.inr ⟨cur,rest,rfl,List.mem_singleton.mp hnew⟩
  | _ => exact Or.inl hx

theorem handed_initial (h : w.Initial) : Handed D w := by
  refine ⟨fun s service kind item hi => ?_,fun x hx => ?_,fun r hr => ?_⟩
  · rw [h.loops] at hi
    cases hi
  · rw [h.starts] at hx
    cases hx
  · rw [h.completed] at hr
    cases hr

theorem handed_step {a : Act} (hw : Handed D w) (h : World.step D a w=some w') : Handed D w' := by
  have hkeep := fun service i => step_delivered h (D.commandStream service) i
  by_cases ha : ∃ s service kind act, a=.loop s service kind act
  · obtain ⟨s,service,kind,act,rfl⟩ := ha
    obtain ⟨⟨ev,w1⟩,he,hb⟩ := Option.bind_eq_some_iff.mp h
    obtain ⟨pc,hp,rfl⟩ := Option.map_eq_some_iff.mp hb
    have hservers := (loopEffect_grows D w w1 s service kind act ev he).2
    refine ⟨fun s' service' kind' item hi => ?_,fun x hx => ?_,fun r hr => ?_⟩
    · rcases setServer_loops w1 s ((w.servers s).setLoop service kind pc) s' with ⟨rfl,hs⟩ | hs
      · rw [hs] at hi
        rcases setLoop_loops (w.servers s') service kind pc service' kind' with ⟨hl,rfl,rfl⟩ | hl
        · rw [hl] at hi
          rcases step_items hp item hi with hold | ⟨batch,hev,hnew⟩
          · exact hkeep _ _ (hw.loops _ _ _ item hold)
          · exact loopEffect_batch he hev item hnew
        · rw [hl] at hi
          exact hkeep _ _ (hw.loops _ _ _ item hi)
      · rw [hs,hservers] at hi
        exact hkeep _ _ (hw.loops _ _ _ item hi)
    · rcases loopEffect_starts he x hx with hold | ⟨cur,rest,hloop,rfl⟩
      · exact hkeep _ _ (hw.starts x hold)
      · exact hkeep _ _ (hw.loops s service kind cur (by rw [hloop]; exact List.mem_cons_self))
    · rcases loopEffect_completed D w w1 s service kind act ev he r hr with
        hold | ⟨since,cur,rest,hloop,_,rfl,hindex,_⟩
      · exact hkeep _ _ (hw.completed r hold)
      · rw [hindex]
        exact hkeep _ _ (hw.loops s _ kind cur (by rw [hloop]; exact List.mem_cons_self))
  · have hne : ∀ s service kind act, a≠.loop s service kind act :=
      fun s service kind act hc => ha ⟨s,service,kind,act,hc⟩
    have hsame : w'.starts=w.starts ∧ w'.completed=w.completed := by
      cases step_stepped D a w w' h with
      | loop s service kind act => exact (hne s service kind act rfl).elim
      | giveUp c => exact ⟨settle_starts w c _,(settle_frame w c _).2.2⟩
      | examine k i fields hf => exact ⟨examine_starts D w k i fields,(examine_frame D w k i fields).2.2⟩
      | _ => exact ⟨rfl,rfl⟩
    refine ⟨fun s service kind item hi => ?_,fun x hx => ?_,fun r hr => ?_⟩
    · rcases step_loops D a w w' h hne s service kind with hl | hl
      · rw [hl] at hi
        exact hkeep _ _ (hw.loops _ _ _ item hi)
      · cases hpc : (w'.servers s).loops service kind with
        | handle stage cur rest =>
          rw [hpc] at hl
          exact hl.elim
        | _ =>
          rw [hpc] at hi
          cases hi
    · rw [hsame.1] at hx
      exact hkeep _ _ (hw.starts x hx)
    · rw [hsame.2] at hr
      exact hkeep _ _ (hw.completed r hr)

/-! ### In a loop's hands -/

/-- A loop gets to `p` before `e`, and not to the end of it. -/
def Pc.Shields (p e : ℕ) : Pc → Prop
  | .handle stage cur rest => Shielded p e (cur.1::rest.map Prod.fst) ∧
    (cur.1=p → stage=.start ∨ ∃ since, stage=.dispatch since)
  | _ => True

variable {p e : ℕ}

theorem shields_idle {pc : Pc} (h : pc.Idle) : pc.Shields p e := by
  cases pc with
  | handle stage cur rest => exact h.elim
  | _ => trivial

theorem shields_caught (stopping : Bool) : (Pc.caught stopping).Shields p e := by
  cases stopping <;> trivial

theorem shields_batch (kind : LoopKind) (stopping : Bool) (batch : List Item)
    (h : Shielded p e (batch.map Prod.fst)) : (kind.batch stopping batch).Shields p e := by
  cases batch with
  | nil => cases kind <;> cases stopping <;> trivial
  | cons cur rest => exact ⟨h,fun _ => Or.inl rfl⟩

/-- `handleEntry` does not come to the XACK from where it is. -/
def Stuck (lang : Lang) (fields : List Bulk) (ev : LoopEv) : Prop :=
  inspect lang fields≠.ack ∧ ∀ answer, ev=.settled (.returned answer) →
    ∃ replyTo reply, inspect lang fields=.dispatch (some replyTo) ∧ answer=some reply ∧ reply.text=none

theorem loop_shields {lang : Lang} {stopping : Bool} {ev : LoopEv} {pc pc' : Pc}
    (hpc : pc.Shields p e) (h : Loop.step lang kind stopping ev pc=some pc')
    (hgot : ∀ batch, ev=.got batch → Shielded p e (batch.map Prod.fst))
    (hstuck : ∀ stage cur rest, pc=.handle stage cur rest → cur.1=p → Stuck lang cur.2 ev) :
    pc'.Shields p e := by
  cases pc with
  | sleep =>
    cases ev with
    | wake => cases stopping <;> cases h <;> trivial
    | _ => cases h
  | poll =>
    cases ev with
    | got batch =>
      cases h
      exact shields_batch kind stopping batch (hgot batch rfl)
    | readThrew =>
      cases h
      exact shields_caught stopping
    | _ => cases h
  | exited => exact (Loop.step_ne_exited _ _ _ _ _ _ h rfl).elim
  | handle stage cur rest =>
    rw [Loop.step_handle] at h
    obtain ⟨progress,hp,rfl⟩ := Option.map_eq_some_iff.mp h
    obtain ⟨hshielded,hstage⟩ := hpc
    by_cases hcur : cur.1=p
    · obtain ⟨hinspect,hsettled⟩ := hstuck stage cur rest rfl hcur
      cases Stage.step_stepped hp with
      | skipped now hi => exact (hinspect hi).elim
      | unreadable now hi => exact shields_caught stopping
      | dispatched now replyTo hi => exact ⟨hshielded,fun _ => Or.inr ⟨now,rfl⟩⟩
      | rejected since => exact shields_caught stopping
      | cancelled since => trivial
      | answered since replyTo answer envelope hi ht =>
        obtain ⟨_,reply,_,hreply,hnone⟩ := hsettled _ rfl
        cases hreply
        rw [ht] at hnone
        cases hnone
      | unsendable since replyTo answer hi ht => exact shields_caught stopping
      | unanswered since answer hno =>
        obtain ⟨replyTo,reply,hi,hreply,_⟩ := hsettled _ rfl
        exact (hno replyTo reply hi hreply).elim
      | _ =>
        rcases hstage hcur with hs | ⟨since,hs⟩
        · cases hs
        · cases hs
    · have hrest : Shielded p e (rest.map Prod.fst) := (hshielded.resolve_left hcur).2
      cases progress with
      | stage stage' => exact ⟨hshielded,fun hc => (hcur hc).elim⟩
      | returned => exact shields_batch kind stopping rest hrest
      | threw => exact shields_caught stopping
      | cancelled => trivial

/-! ### Starving -/

/-- Entry `e` of the service's stream has not been dispatched, and is pending behind `p`: together
with it in the group's list, and wherever it is in a loop's hands. -/
structure Starving (D : Deployment) (service : String) (p e : ℕ) (w : World) : Prop where
  behind : ∃ g∈(w.streams (D.commandStream service)).group, ∃ front mid back since,
    g.Behind 32 p e front mid back since
  loops : ∀ s kind, ((w.servers s).loops service kind).Shields p e
  started : (service,e)∉w.starts
  completed : ∀ r∈w.completed, r.service=service → r.index≠e

/-- Every server that reads the entry goes on to dispatch it, or throws. -/
def Unackable (D : Deployment) (service : String) (p : ℕ) (w : World) : Prop :=
  ∃ fields, Holds D w service (p,fields) ∧ ∀ s, inspect (w.servers s).lang fields≠.ack

/-- A dispatch of the entry ends in an exception, or with a reply that cannot be sent. -/
def Refuses (service : String) (p : ℕ) : Act → World → Prop
  | .loop s service' kind (.settle user),w => service'=service → ∀ since cur rest,
    (w.servers s).loops service kind=.handle (.dispatch since) cur rest → cur.1=p →
      Fails (w.servers s).lang cur.2 (.settle user)
  | _,_ => True

theorem Unackable.mono (hg : Grows w w') (h : Unackable D service p w) : Unackable D service p w' := by
  obtain ⟨fields,hholds,hinspect⟩ := h
  refine ⟨fields,hholds.mono hg,fun s => ?_⟩
  rw [hg.lang]
  exact hinspect s

theorem Starving.ne (h : Starving D service p e w) : p≠e := by
  obtain ⟨g,_,front,mid,back,since,hb⟩ := h.behind
  exact hb.ne

theorem Starving.cur_ne (h : Starving D service p e w) {stage : Stage} {cur : Item} {rest : List Item}
    (hloop : (w.servers s).loops service kind=.handle stage cur rest) : cur.1≠e := by
  have hshields := h.loops s kind
  rw [hloop] at hshields
  rcases hshields.1 with hp | ⟨he,_⟩
  · rw [hp]
    exact h.ne
  · exact he

/- The group, when a loop of the service has an await. -/
theorem Starving.effect_behind (h : Starving D service p e w) {act : LoopAct} {ev : LoopEv}
    (he : loopEffect D w s service kind act=some (ev,w1)) :
    ∃ g∈(w1.streams (D.commandStream service)).group, ∃ front mid back since,
      g.Behind 32 p e front mid back since := by
  have hshields := h.loops s kind
  have hvalid := (w.streams (D.commandStream service)).valid
  obtain ⟨g,hg,front,mid,back,since,hb⟩ := h.behind
  rw [Option.mem_def] at hg
  generalize hpc : (w.servers s).loops service kind=pc at hshields
  cases loopEffect_effected hpc he with
  | consumed fate =>
    obtain ⟨back',hb'⟩ := hb.read (hvalid g hg) w.now 16
    simp only [World.setStream,if_true,Stream.xreadgroup_group,hg]
    exact ⟨_,rfl,front,mid,back',since,hb'⟩
  | reclaimed fate =>
    obtain ⟨front',mid',back',since',hb'⟩ := hb.claim w.now (w.servers s).claimIdleMs
    simp only [World.setStream,if_true,Stream.xautoclaim_group,hg]
    exact ⟨_,rfl,front',mid',back',since',hb'⟩
  | replied fate replyTo envelope cur rest =>
    exact group_setStream w replyTo _ _ id h.behind
  | acked fate cur rest =>
    have hp : cur.1≠p := by
      intro hp
      rcases hshields.2 hp with hs | ⟨since',hs⟩
      · cases hs
      · cases hs
    obtain ⟨front',mid',back',hb'⟩ := hb.ack cur.1 hp (h.cur_ne hpc)
    simp only [World.setStream,if_true,Stream.xack_group,hg]
    exact ⟨_,rfl,front',mid',back',since,hb'⟩
  | _ => exact h.behind

/- What a loop of the service gets of its read. -/
theorem Starving.effect_batch (h : Starving D service p e w) {act : LoopAct} {ev : LoopEv}
    (he : loopEffect D w s service kind act=some (ev,w1)) (batch : List Item) (hev : ev=.got batch) :
    Shielded p e (batch.map Prod.fst) := by
  have hvalid := (w.streams (D.commandStream service)).valid
  obtain ⟨g,hg,front,mid,back,since,hb⟩ := h.behind
  rw [Option.mem_def] at hg
  generalize hpc : (w.servers s).loops service kind=pc
  cases loopEffect_effected hpc he with
  | consumed fate =>
    split at hev
    · cases hev
      refine shielded_of_not_mem p e _ fun hmem => ?_
      obtain ⟨item,hi,rfl⟩ := List.mem_map.mp hmem
      obtain ⟨hfresh,_⟩ := Stream.mem_items _ _ item hi
      rw [hg,Option.elim_some,g.mem_fresh] at hfresh
      have hlt := ((hvalid g hg).pending_range item.1 hb.isPending).2
      omega
    · cases hev
  | reclaimed fate =>
    split at hev
    · cases hev
      rw [Stream.claimItems,hg,Option.elim_some,Stream.items_fst]
      · exact (hb.claimable w.now (w.servers s).claimIdleMs).1
      · intro i hi
        obtain ⟨q,hq,rfl,_⟩ := g.mem_claimable _ _ _ i hi
        have hrange := (hvalid g hg).pending_range q.index (List.mem_map_of_mem hq)
        have hnext := (hvalid g hg).next_le
        omega
    · cases hev
  | _ => cases hev

theorem starving_loop (hw : Starving D service p e w) (hu : Unackable D service p w)
    (hack : AckInvariant D w) {service' : String} {act : LoopAct} {ev : LoopEv} {pc : Pc}
    (hr : Refuses service p (.loop s service' kind act) w)
    (he : loopEffect D w s service' kind act=some (ev,w1))
    (hp : Loop.step (w.servers s).lang kind (w.servers s).stopping ev
      ((w.servers s).loops service' kind)=some pc) :
    Starving D service p e (w1.setServer s ((w.servers s).setLoop service' kind pc)) := by
  have hservers := (loopEffect_grows D w w1 s service' kind act ev he).2
  have hshields : service'=service → pc.Shields p e := by
    rintro rfl
    refine loop_shields (hw.loops s kind) hp (hw.effect_batch he) fun stage cur rest hpc hcur => ?_
    obtain ⟨fields,hholds,hinspect⟩ := hu
    have hok := hack.loops s service' kind
    rw [hpc] at hok
    have hfields : cur.2=fields := by
      have hcurHolds := hok.1 cur List.mem_cons_self
      unfold Holds at hcurHolds hholds
      rw [hcur,hholds,Option.some.injEq] at hcurHolds
      exact hcurHolds.symm
    refine ⟨by rw [hfields]; exact hinspect s,fun answer hev => ?_⟩
    cases loopEffect_effected hpc he with
    | returned user since _ _ answer' _ _ hout =>
      cases hev
      exact hr rfl since cur rest hpc hcur answer hout
    | raised user since _ _ out hout hno =>
      cases hev
      exact (hno answer rfl).elim
    | _ => cases hev
  refine ⟨?_,fun s' kind' => ?_,fun hx => ?_,fun r hr' hservice => ?_⟩
  · show ∃ g∈(w1.streams (D.commandStream service)).group, _
    by_cases hs : service'=service
    · subst hs
      exact hw.effect_behind he
    · rw [(loopEffect_aside D w w1 s service service' kind act ev he hs).1]
      exact hw.behind
  · rcases setServer_loops w1 s ((w.servers s).setLoop service' kind pc) s' with ⟨rfl,hs⟩ | hs
    · rw [hs]
      rcases setLoop_loops (w.servers s') service' kind pc service kind' with ⟨hl,hservice,_⟩ | hl
      · rw [hl]
        exact hshields hservice.symm
      · rw [hl]
        exact hw.loops s' kind'
    · rw [hs,hservers]
      exact hw.loops s' kind'
  · rcases loopEffect_starts he _ hx with hold | ⟨cur,rest,hloop,heq⟩
    · exact hw.started hold
    · cases heq
      exact hw.cur_ne hloop rfl
  · rcases loopEffect_completed D w w1 s service' kind act ev he r hr' with
      hold | ⟨since,cur,rest,hloop,_,rfl,hindex,_⟩
    · exact hw.completed r hold hservice
    · subst hservice
      rw [hindex]
      exact hw.cur_ne hloop

theorem starving_step {a : Act} (hw : Starving D service p e w) (hu : Unackable D service p w)
    (hack : AckInvariant D w) (hr : Refuses service p a w) (h : World.step D a w=some w') :
    Starving D service p e w' := by
  by_cases ha : ∃ s service kind act, a=.loop s service kind act
  · obtain ⟨s,service',kind,act,rfl⟩ := ha
    obtain ⟨⟨ev,w1⟩,he,hb⟩ := Option.bind_eq_some_iff.mp h
    obtain ⟨pc,hp,rfl⟩ := Option.map_eq_some_iff.mp hb
    exact starving_loop hw hu hack hr he hp
  · have hne : ∀ s service kind act, a≠.loop s service kind act :=
      fun s service kind act hc => ha ⟨s,service,kind,act,hc⟩
    have hsame : (∃ g∈(w'.streams (D.commandStream service)).group, ∃ front mid back since,
        g.Behind 32 p e front mid back since) ∧ w'.starts=w.starts ∧ w'.completed=w.completed := by
      cases step_stepped D a w w' h with
      | foreign key fields => exact ⟨group_setStream w _ _ _ id hw.behind,rfl,rfl⟩
      | startLost s service' => exact ⟨group_setStream w _ _ _ (group_created _) hw.behind,rfl,rfl⟩
      | started s service' => exact ⟨group_setStream w _ _ _ (group_created _) hw.behind,rfl,rfl⟩
      | loop s service kind act => exact (hne s service kind act rfl).elim
      | arrive c call hc => exact ⟨group_setStream w _ _ _ id hw.behind,rfl,rfl⟩
      | giveUp c =>
        obtain ⟨hstreams,_,hcompleted⟩ := settle_frame w c .failed
        rw [hstreams]
        exact ⟨hw.behind,settle_starts w c _,hcompleted⟩
      | notify k service' method params d => exact ⟨group_setStream w _ _ _ id hw.behind,rfl,rfl⟩
      | examine k i fields hf =>
        obtain ⟨hstreams,_,hcompleted⟩ := examine_frame D w k i fields
        rw [hstreams]
        exact ⟨hw.behind,examine_starts D w k i fields,hcompleted⟩
      | _ => exact ⟨hw.behind,rfl,rfl⟩
    refine ⟨hsame.1,fun s kind => ?_,by rw [hsame.2.1]; exact hw.started,?_⟩
    · rcases step_loops D a w w' h hne s service kind with hl | hl
      · rw [hl]
        exact hw.loops s kind
      · exact shields_idle hl
    · rw [hsame.2.2]
      exact hw.completed

/- The read that delivers both. -/
theorem starving_read {fate : Fate} {g : Group} (hw : Handed D w)
    (h : World.step D (.loop s service .consumer (.read fate)) w=some w')
    (hg : (w.streams (D.commandStream service)).group=some g) (hp : g.next ≤ p) (hpe : p < e)
    (he : (w'.streams (D.commandStream service)).Delivered e)
    (hfew : ∀ g'∈(w'.streams (D.commandStream service)).group, g'.pendingIds.length ≤ 32) :
    Starving D service p e w' := by
  have hv := (w.streams (D.commandStream service)).valid g hg
  have hearlier : ∀ i, (w.streams (D.commandStream service)).Delivered i → i < g.next := by
    rintro i ⟨g',hg',_,hi⟩
    rw [hg] at hg'
    cases hg'
    exact hi
  obtain ⟨⟨ev,w1⟩,heffect,hb⟩ := Option.bind_eq_some_iff.mp h
  obtain ⟨pc,hstep,rfl⟩ := Option.map_eq_some_iff.mp hb
  have hservers := (loopEffect_grows D w w1 s service .consumer _ ev heffect).2
  generalize hloop : (w.servers s).loops service .consumer=pc0 at hstep
  have hother : ∀ s kind, ((w.servers s).loops service kind).Shields p e := by
    intro s kind
    cases hpc : (w.servers s).loops service kind with
    | handle stage cur rest =>
      have hin : ∀ item∈cur::rest, item.1 < g.next := by
        intro item hi
        exact hearlier _ (hw.loops s service kind item (by rw [hpc]; exact hi))
      refine ⟨shielded_of_not_mem p e _ fun hmem => ?_,fun hc => ?_⟩
      · obtain ⟨item,hi,rfl⟩ := List.mem_map.mp (show e∈(cur::rest).map Prod.fst from hmem)
        have hlt := hin item hi
        omega
      · have hlt := hin cur List.mem_cons_self
        omega
    | _ => trivial
  cases loopEffect_effected hloop heffect with
  | readFailed =>
    have hlt := hearlier e he
    omega
  | consumed _ hfate =>
    have hgroup : ((w.setStream (D.commandStream service) ((w.streams
        (D.commandStream service)).xreadgroup w.now 16)).streams (D.commandStream service)).group=
          some (g.read (w.streams (D.commandStream service)).entries.length w.now 16) := by
      simp only [World.setStream,if_true,Stream.xreadgroup_group,hg]
      rfl
    have hnext : e < (g.read (w.streams (D.commandStream service)).entries.length w.now 16).next := by
      obtain ⟨g',hg',_,hlt⟩ := he
      have hg'' : g'∈((w.setStream (D.commandStream service) ((w.streams
        (D.commandStream service)).xreadgroup w.now 16)).streams (D.commandStream service)).group := hg'
      rw [hgroup] at hg''
      cases hg''
      exact hlt
    obtain ⟨front,mid,back,hbehind⟩ := Group.behind_read hv w.now 16 hp hpe hnext (hfew _ hgroup)
    refine ⟨⟨_,hgroup,front,mid,back,w.now,hbehind⟩,fun s' kind' => ?_,fun hx => ?_,?_⟩
    · rcases setServer_loops (w.setStream (D.commandStream service) ((w.streams
        (D.commandStream service)).xreadgroup w.now 16)) s ((w.servers s).setLoop service .consumer pc) s'
        with ⟨rfl,hs⟩ | hs
      · rw [hs]
        rcases setLoop_loops (w.servers s') service .consumer pc service kind' with ⟨hl,_⟩ | hl
        · rw [hl]
          have hpoll : Pc.poll.Shields p e := trivial
          refine loop_shields hpoll hstep (fun batch hev => ?_) fun _ _ _ hpc => by cases hpc
          split at hev
          · cases hev
            rw [Stream.readItems_fst _ 16 g hg]
            exact shielded_range' p e _ _ hp hpe
          · cases hev
        · rw [hl]
          exact hother s' kind'
      · rw [hs]
        exact hother s' kind'
    · have hlt := hearlier e (hw.starts _ hx)
      omega
    · rintro r hr rfl rfl
      have hlt := hearlier r.index (hw.completed r hr)
      omega

/-- A consumer loop reads two entries together, with no more than 32 then pending, and dispatches of
the first are refused. Then no server ever dispatches the second, however long they all run. -/
theorem starved (D : Deployment) (w w1 w2 : World)
    (hw : Reachable World.Initial (fun w w' => ∃ a, World.step D a w=some w') w) (s : ℕ)
    (service : String) (fate : Fate)
    (hread : World.step D (.loop s service .consumer (.read fate)) w=some w1) (g : Group)
    (hg : (w.streams (D.commandStream service)).group=some g) (p e : ℕ) (hp : g.next ≤ p) (hpe : p < e)
    (he : (w1.streams (D.commandStream service)).Delivered e)
    (hfew : ∀ g'∈(w1.streams (D.commandStream service)).group, g'.pendingIds.length ≤ 32)
    (hu : Unackable D service p w1) (as : List Act)
    (hr : Guarded (World.step D) (Refuses service p) as w1) (hrun : run (World.step D) as w1=some w2) :
    (w2.streams (D.commandStream service)).IsPending e ∧ (service,e)∉w2.starts ∧
      ∀ r∈w2.completed, r.service=service → r.index≠e := by
  have hstart := starving_read (hw.invariant (fun _ => handed_initial) fun _ _ hh ⟨_,hs⟩ => handed_step hh hs)
    hread hg hp hpe he hfew
  have hend := states_invariant
    (I := fun w => Starving D service p e w ∧ Unackable D service p w ∧ AckInvariant D w)
    (fun a v v' hv hguard hstep => ⟨starving_step hv.1 hv.2.1 hv.2.2 hguard hstep,
      hv.2.1.mono (step_grows D a v v' hstep),ackInvariant_step D a v v' hv.2.2 hstep⟩)
    as w1 ⟨hstart,hu,ackInvariant_reachable D w1 (hw.next ⟨_,hread⟩)⟩ hr w2 (run_mem_states _ as w1 w2 hrun)
  obtain ⟨g2,hg2,front,mid,back,since,hb⟩ := hend.1.behind
  exact ⟨⟨g2,hg2,hb.isPending⟩,hend.1.started,hend.1.completed⟩

/-- The handler returns a BigInt, for which `JSON.stringify` throws. -/
def bigEntry : ServiceEntry := { greeterEntry with
  handlers := fun _ => some fun _ => .resolved (.leaf (.bigint 1)) }

def twoCalls : List Act :=
  [.start 0 "greeter" .ok,.call 0 "greeter" "greet" (.js (.obj [])) "id-1",.arrive 0,
    .call 0 "greeter" "greet" (.js (.obj [])) "id-2",.arrive 1]

/-- The batch, and later the same batch again. -/
def twiceRefused : List Act :=
  [.loop 0 "greeter" .consumer .enter,.loop 0 "greeter" .consumer (.settle (.ts bigEntry)),.tick 5000,
    .loop 0 "greeter" .reclaim .wake,.loop 0 "greeter" .reclaim (.read .ok),
    .loop 0 "greeter" .reclaim .enter,.loop 0 "greeter" .reclaim (.settle (.ts bigEntry))]

def twoSent : World := (run (World.step clamator) twoCalls (greeterWorld 4000)).get rfl

def twoRead : World :=
  (World.step clamator (.loop 0 "greeter" .consumer (.read .ok)) twoSent).get rfl

theorem twoSent_run : run (World.step clamator) twoCalls (greeterWorld 4000)=some twoSent :=
  (Option.some_get _).symm

theorem twoRead_step :
    World.step clamator (.loop 0 "greeter" .consumer (.read .ok)) twoSent=some twoRead :=
  (Option.some_get _).symm

theorem twoRead_refuses : Guarded (World.step clamator) (Refuses "greeter" 0) twiceRefused twoRead := by
  refine ⟨trivial,fun _ since cur rest hloop _ => ?_,trivial,trivial,trivial,trivial,
    fun _ since cur rest hloop _ => ?_,trivial⟩
  · cases hloop
    intro reply hreply
    cases hreply
    exact ⟨"clamator:replies:client",_,rfl,rfl,rfl⟩
  · cases hloop
    intro reply hreply
    cases hreply
    exact ⟨"clamator:replies:client",_,rfl,rfl,rfl⟩

theorem starved_bigint : ∃ w2, run (World.step clamator) twiceRefused twoRead=some w2 ∧
    w2.starts=[("greeter",0),("greeter",0)] ∧
    (w2.streams "clamator:cmds:greeter").IsPending 1 ∧ ("greeter",1)∉w2.starts := by
  have hw := Reachable.run _ _ _ (.start (greeterWorld_initial 4000)) twoSent_run
  have hrun : (run (World.step clamator) twiceRefused twoRead).isSome := rfl
  have hlead : Leads (World.step clamator) (fun _ => True) (greeterWorld 4000) twoRead :=
    .trans ⟨twoCalls,fun _ _ => trivial,twoSent_run⟩ (.single trivial twoRead_step)
  have hgrows := hlead.invariant (I := fun v => Grows (greeterWorld 4000) v)
    (fun a v v' _ hv hstep => hv.trans (step_grows _ a v v' hstep)) (Grows.refl _)
  have hu : Unackable clamator "greeter" 0 twoRead := by
    refine ⟨_,rfl,fun s => ?_⟩
    rw [hgrows.lang]
    exact Inspection.noConfusion
  have hstarved := starved clamator twoSent twoRead _ hw 0 "greeter" .ok twoRead_step
    ⟨0,0,[],[]⟩ rfl 0 1 (Nat.le_refl 0) Nat.zero_lt_one
    ⟨⟨0,2,[⟨0,0⟩,⟨1,0⟩],[]⟩,rfl,Nat.zero_le 1,Nat.one_lt_two⟩
    (fun g hg => by cases hg; show 2 ≤ 32; omega) hu twiceRefused twoRead_refuses
    (Option.some_get hrun).symm
  exact ⟨_,(Option.some_get hrun).symm,rfl,hstarved.1,hstarved.2.1⟩

end Clamator.Redis
