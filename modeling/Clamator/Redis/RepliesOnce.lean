import Clamator.Base.Ledger
import Clamator.Redis.ReplyIntegrity

/-!
# One reply for one dispatch (`handleEntry`, `_handle_entry`)

A dispatch that ends with an answer for an entry with a reply-to makes a reply. Its loop holds it
until the XADD, or loses it by a failed XADD, a halt or a crash. Whatever is re-dispatched, no
reply is written twice for one dispatch, and a reply stream that is neither trimmed nor deleted
holds what was written and no more.
-/

namespace Clamator.Redis
open Clamator.Base Clamator.Protocol

/-- A reply: of which server to which entry, its stream and its text. -/
structure Written where
  server : ℕ
  service : String
  index : ℕ
  replyTo : String
  envelope : Doc

/-- The reply that a loop stands at. -/
def Pc.answering (s : ℕ) (service : String) : Pc → Option Written
  | .handle (.reply replyTo envelope) cur _ => some ⟨s,service,cur.1,replyTo,envelope⟩
  | _ => none

/-- The reply whose XADD takes effect. -/
def writes : Act → World → Option Written
  | .loop _ _ _ (.reply .failed),_ => none
  | .loop s service kind (.reply _),w => ((w.servers s).loops service kind).answering s service
  | _,_ => none

/-- The reply that a completed dispatch makes. -/
def Completed.answer (r : Completed) : Option Written := match inspect r.user.lang r.fields,r.text with
  | .dispatch (some replyTo),some envelope => some ⟨r.server,r.service,r.index,replyTo,envelope⟩
  | _,_ => none

def World.answers (w : World) : List Written := w.completed.filterMap Completed.answer

/-- No answer is lost: no reply XADD fails, and no loop ends while it stands at one. -/
def Lossless : Act → World → Prop
  | .loop _ _ _ (.reply .failed),_ => False
  | .halt s service kind,w => ((w.servers s).loops service kind).answering s service=none
  | .crash s,w => ∀ service kind, ((w.servers s).loops service kind).answering s service=none
  | _,_ => True

/-! ### The loops -/

/-- What a loop comes to stand at with the end of an await. -/
def LoopEv.answering (lang : Lang) (s : ℕ) (service : String) : LoopEv → Pc → Option Written
  | .settled (.returned (some answer)),.handle (.dispatch _) cur _ =>
    match inspect lang cur.2,answer.text with
    | .dispatch (some replyTo),some envelope => some ⟨s,service,cur.1,replyTo,envelope⟩
    | _,_ => none
  | _,_ => none

theorem top_answering (kind : LoopKind) (stopping : Bool) (s : ℕ) (service : String) :
    (kind.top stopping).answering s service=none := by
  cases kind <;> cases stopping <;> rfl

theorem batch_answering (kind : LoopKind) (stopping : Bool) (batch : List Item) (s : ℕ)
    (service : String) : (kind.batch stopping batch).answering s service=none := by
  cases batch with
  | nil => exact top_answering kind stopping s service
  | cons cur rest => rfl

theorem caught_answering (stopping : Bool) (s : ℕ) (service : String) :
    (Pc.caught stopping).answering s service=none := by
  cases stopping <;> rfl

theorem step_answering {lang : Lang} {kind : LoopKind} {stopping : Bool} {ev : LoopEv} {pc pc' : Pc}
    (s : ℕ) (service : String) (h : Loop.step lang kind stopping ev pc=some pc') :
    pc'.answering s service=ev.answering lang s service pc := by
  cases pc with
  | sleep =>
    cases ev with
    | wake => cases h; cases stopping <;> rfl
    | _ => cases h
  | poll =>
    cases ev with
    | got batch => cases h; exact batch_answering kind stopping batch s service
    | readThrew => cases h; exact caught_answering stopping s service
    | _ => cases h
  | exited => exact (Loop.step_ne_exited _ _ _ _ _ _ h rfl).elim
  | handle stage cur rest =>
    rw [Loop.step_handle] at h
    obtain ⟨progress,hp,rfl⟩ := Option.map_eq_some_iff.mp h
    cases Stage.step_stepped hp with
    | answered since replyTo answer envelope hi ht =>
      simp only [Pc.after,Pc.answering,LoopEv.answering,hi,ht]
    | unsendable since replyTo answer hi ht =>
      simp only [Pc.after,LoopEv.answering,hi,ht]
      exact caught_answering stopping s service
    | unanswered since answer hno =>
      cases answer with
      | none => rfl
      | some answer =>
        simp only [Pc.after,LoopEv.answering]
        split
        · rename_i replyTo envelope hi ht
          exact (hno replyTo answer hi rfl).elim
        · rfl
    | acked => exact batch_answering kind stopping rest s service
    | unreadable now hi => exact caught_answering stopping s service
    | rejected since => exact caught_answering stopping s service
    | replyFailed replyTo envelope => exact caught_answering stopping s service
    | ackFailed => exact caught_answering stopping s service
    | _ => rfl

/- The dispatches that complete make what their loops come to hold, and a reply that is written was
held. -/
theorem effect_answers {D : Deployment} {w w1 : World} {s : ℕ} {service : String} {kind : LoopKind}
    {act : LoopAct} {ev : LoopEv} (h : loopEffect D w s service kind act=some (ev,w1)) :
    w1.answers=w.answers++(ev.answering (w.servers s).lang s service
      ((w.servers s).loops service kind)).toList ∧
    (writes (.loop s service kind act) w=((w.servers s).loops service kind).answering s service ∨
      act=.reply .failed ∧ writes (.loop s service kind act) w=none) := by
  generalize hpc : (w.servers s).loops service kind=pc
  cases loopEffect_effected hpc h with
  | returned user since cur rest answer hlang hservice hout =>
    refine ⟨?_,Or.inl rfl⟩
    simp only [World.answers,List.filterMap_append,List.filterMap_cons,List.filterMap_nil]
    congr 1
    cases answer with
    | none =>
      simp only [LoopEv.answering,Completed.answer,Completed.text,Option.bind_none]
      cases inspect user.lang cur.2 with
      | dispatch replyTo => cases replyTo <;> rfl
      | _ => rfl
    | some answer =>
      simp only [LoopEv.answering,Completed.answer,Completed.text,Option.bind_some,hlang]
      split <;> simp_all
  | raised user since cur rest out hout hne =>
    refine ⟨?_,Or.inl rfl⟩
    cases out with
    | returned answer => exact (hne answer rfl).elim
    | _ => exact (List.append_nil _).symm
  | replyFailed replyTo envelope cur rest =>
    exact ⟨(List.append_nil _).symm,Or.inr ⟨rfl,rfl⟩⟩
  | replied fate replyTo envelope cur rest hf =>
    refine ⟨(List.append_nil _).symm,Or.inl ?_⟩
    cases fate with
    | failed => exact (hf rfl).elim
    | _ => exact congrArg (Pc.answering s service) hpc
  | consumed fate hf => cases fate <;> exact ⟨(List.append_nil _).symm,Or.inl rfl⟩
  | reclaimed fate hf => cases fate <;> exact ⟨(List.append_nil _).symm,Or.inl rfl⟩
  | _ => exact ⟨(List.append_nil _).symm,Or.inl rfl⟩

/-! ### What is held -/

section
open Classical

/-- How often a reply is held by the two loops of its service. -/
noncomputable def World.held (w : World) (x : Written) : ℕ :=
  (((w.servers x.server).loops x.service .consumer).answering x.server x.service).toList.count x+
  (((w.servers x.server).loops x.service .reclaim).answering x.server x.service).toList.count x

theorem answering_place {s : ℕ} {service : String} {pc : Pc} {x : Written}
    (h : pc.answering s service=some x) : x.server=s ∧ x.service=service := by
  unfold Pc.answering at h
  split at h
  · cases h
    exact ⟨rfl,rfl⟩
  · cases h

theorem count_elsewhere {s : ℕ} {service : String} {pc : Pc} {x : Written}
    (h : ¬ (x.server=s ∧ x.service=service)) : (pc.answering s service).toList.count x=0 := by
  apply List.count_eq_zero.mpr
  intro hx
  exact h (answering_place (Option.mem_toList.mp hx))

/- One loop has moved. -/
theorem held_setLoop {w w1 : World} {s : ℕ} {service : String} {kind : LoopKind} {pc pc' : Pc}
    (hservers : w1.servers=w.servers) (hpc : (w.servers s).loops service kind=pc) (x : Written) :
    (w1.setServer s ((w.servers s).setLoop service kind pc')).held x+
        (pc.answering s service).toList.count x=
      w.held x+(pc'.answering s service).toList.count x := by
  by_cases hx : x.server=s ∧ x.service=service
  · obtain ⟨rfl,rfl⟩ := hx
    subst hpc
    cases kind with
    | consumer =>
      simp only [World.held,World.setServer,Server.setLoop]
      simp
      omega
    | reclaim =>
      simp only [World.held,World.setServer,Server.setLoop]
      simp
      omega
  · rw [count_elsewhere hx,count_elsewhere hx]
    congr 1
    have hsame : ∀ kind', ((w1.setServer s ((w.servers s).setLoop service kind pc')).servers
        x.server).loops x.service kind'=(w.servers x.server).loops x.service kind' := by
      intro kind'
      simp only [World.setServer,hservers]
      split
      · rename_i hs
        have hservice : x.service≠service := fun h => hx ⟨hs,h⟩
        simp only [Server.setLoop,hs,hservice,false_and,if_false]
      · rfl
    simp only [World.held,hsame]

/- Only a halt or a crash takes a reply out of a loop's hand, but for the loop itself. -/
theorem step_hands {D : Deployment} {a : Act} {w w' : World} (h : World.step D a w=some w')
    (ha : ∀ s service kind act, a≠.loop s service kind act) :
    w'.answers=w.answers ∧ ∀ s service kind,
      ((w'.servers s).loops service kind).answering s service=
        ((w.servers s).loops service kind).answering s service ∨
      ((w'.servers s).loops service kind).answering s service=none ∧
        (a=.halt s service kind ∨ a=.crash s) := by
  cases step_stepped D a w w' h with
  | started s1 service1 _ _ hexited =>
    refine ⟨rfl,fun s service kind => Or.inl ?_⟩
    simp only [World.setServer]
    split
    · rename_i hs
      subst hs
      simp only [Server.setLoop]
      split
      · rename_i hk
        rw [hk.1,hk.2,hexited .reclaim]
        rfl
      · split
        · rename_i hk
          rw [hk.1,hk.2,hexited .consumer]
          rfl
        · rfl
    · rfl
  | stop s1 =>
    refine ⟨rfl,fun s service kind => Or.inl ?_⟩
    simp only [World.setServer]
    split
    · rename_i hs
      subst hs
      rfl
    · rfl
  | halt s1 service1 kind1 =>
    refine ⟨rfl,fun s service kind => ?_⟩
    simp only [World.setServer]
    split
    · rename_i hs
      subst hs
      simp only [Server.setLoop]
      split
      · rename_i hk
        rw [hk.1,hk.2]
        exact Or.inr ⟨rfl,Or.inl rfl⟩
      · exact Or.inl rfl
    · exact Or.inl rfl
  | crash s1 =>
    refine ⟨rfl,fun s service kind => ?_⟩
    simp only [World.setServer]
    split
    · rename_i hs
      subst hs
      exact Or.inr ⟨rfl,Or.inr rfl⟩
    · exact Or.inl rfl
  | loop s service kind act => exact (ha s service kind act rfl).elim
  | giveUp c =>
    obtain ⟨_,hservers,hcompleted⟩ := settle_frame w c .failed
    refine ⟨by rw [World.answers,hcompleted,World.answers],fun s service kind => Or.inl ?_⟩
    rw [hservers]
  | examine k i fields hf =>
    obtain ⟨_,hservers,hcompleted⟩ := examine_frame D w k i fields
    refine ⟨by rw [World.answers,hcompleted,World.answers],fun s service kind => Or.inl ?_⟩
    rw [hservers]
  | _ => exact ⟨rfl,fun _ _ _ => Or.inl rfl⟩

theorem writes_of_ne {a : Act} {w : World} (ha : ∀ s service kind act, a≠.loop s service kind act) :
    writes a w=none := by
  cases a with
  | loop s service kind act => exact (ha s service kind act rfl).elim
  | _ => rfl

/- The accounts of a step. -/
theorem step_count {D : Deployment} (a : Act) (w w' : World) (h : World.step D a w=some w')
    (x : Written) : ∃ lost, (writes a w).toList.count x+w'.held x+w.answers.count x+lost=
      w.held x+w'.answers.count x ∧ (Lossless a w → lost=0) := by
  by_cases ha : ∃ s service kind act, a=.loop s service kind act
  · obtain ⟨s,service,kind,act,rfl⟩ := ha
    obtain ⟨⟨ev,w1⟩,he,hb⟩ := Option.bind_eq_some_iff.mp h
    obtain ⟨pc,hp,rfl⟩ := Option.map_eq_some_iff.mp hb
    obtain ⟨hanswers,hwrites⟩ := effect_answers he
    have hservers := (loopEffect_grows D w w1 s service kind act ev he).2
    have hheld : (w1.setServer s ((w.servers s).setLoop service kind pc)).held x+
        (((w.servers s).loops service kind).answering s service).toList.count x=
        w.held x+(pc.answering s service).toList.count x := held_setLoop hservers rfl x
    rw [step_answering s service hp] at hheld
    show ∃ lost, _+(w1.setServer s _).held x+_+lost=w.held x+w1.answers.count x ∧ _
    rw [hanswers,List.count_append]
    rcases hwrites with hw | ⟨rfl,hw⟩
    · rw [hw]
      exact ⟨0,by omega,fun _ => rfl⟩
    · rw [hw,Option.toList_none,List.count_nil]
      exact ⟨(((w.servers s).loops service kind).answering s service).toList.count x,by omega,
        fun hl => hl.elim⟩
  · have hne : ∀ s service kind act, a≠.loop s service kind act :=
      fun s service kind act hc => ha ⟨s,service,kind,act,hc⟩
    obtain ⟨hanswers,hhands⟩ := step_hands h hne
    rw [writes_of_ne hne,hanswers,Option.toList_none,List.count_nil]
    have hle : w'.held x ≤ w.held x := by
      have hkind : ∀ kind, (((w'.servers x.server).loops x.service kind).answering x.server
          x.service).toList.count x ≤ (((w.servers x.server).loops x.service kind).answering x.server
          x.service).toList.count x := by
        intro kind
        rcases hhands x.server x.service kind with heq | ⟨hnone,_⟩
        · rw [heq]
        · rw [hnone]
          exact Nat.zero_le _
      exact Nat.add_le_add (hkind .consumer) (hkind .reclaim)
    have heq : Lossless a w → w'.held x=w.held x := by
      intro hl
      have hkind : ∀ kind, ((w'.servers x.server).loops x.service kind).answering x.server x.service=
          ((w.servers x.server).loops x.service kind).answering x.server x.service := by
        intro kind
        rcases hhands x.server x.service kind with heq | ⟨hnone,rfl | rfl⟩
        · exact heq
        · rw [hnone]
          exact hl.symm
        · rw [hnone]
          exact (hl x.service kind).symm
      simp only [World.held,hkind]
    exact ⟨w.held x-w'.held x,by omega,fun hl => by rw [heq hl,Nat.sub_self]⟩

end

/-! ### Reply streams -/

theorem setStream_entries (w : World) (key key' : String) (s : Stream (List Bulk)) :
    ((w.setStream key s).streams key').entries=
      if key'=key then s.entries else (w.streams key').entries := by
  simp only [World.setStream]
  split <;> rfl

/- What a step adds to a stream that is no command stream. -/
theorem step_entries {D : Deployment} {a : Act} {w w' : World} (h : World.step D a w=some w')
    (key : String) (hkey : ∀ service, key≠D.commandStream service)
    (ha : ∀ fields, a≠.foreign key fields) : (w'.streams key).entries=(w.streams key).entries++
      ((writes a w).toList.filter (·.replyTo=key)).map fun x => D.plainFields x.envelope := by
  cases step_stepped D a w w' h with
  | foreign key1 fields =>
    have hne : key≠key1 := fun heq => ha fields (by rw [heq])
    simp [writes,setStream_entries,hne]
  | startLost s service =>
    simp [writes,setStream_entries,hkey service]
  | started s service =>
    have hsame : ((w.setStream (D.commandStream service)
        (w.streams (D.commandStream service)).xgroupCreate).setServer s
          (((w.servers s).setLoop service .consumer .poll).setLoop service .reclaim .sleep)).streams=
      (w.setStream (D.commandStream service)
        (w.streams (D.commandStream service)).xgroupCreate).streams := rfl
    rw [hsame]
    simp [writes,setStream_entries,hkey service]
  | loop s service kind act ev w1 pc he hp =>
    show (w1.streams key).entries=_
    generalize hpc : (w.servers s).loops service kind=old at hp
    cases loopEffect_effected hpc he with
    | consumed => simp [writes,setStream_entries,hkey service]
    | reclaimed => simp [writes,setStream_entries,hkey service]
    | acked => simp [writes,setStream_entries,hkey service]
    | replied fate replyTo envelope cur rest hf =>
      have hwrites : writes (.loop s service kind (.reply fate)) w=
          some ⟨s,service,cur.1,replyTo,envelope⟩ := by
        cases fate with
        | failed => exact (hf rfl).elim
        | _ => exact congrArg (Pc.answering s service) hpc
      rw [hwrites,setStream_entries]
      by_cases heq : key=replyTo
      · subst heq
        simp [Stream.xadd]
      · have hne : replyTo≠key := fun h => heq h.symm
        simp [heq,hne]
    | _ => simp [writes]
  | arrive c call hc =>
    show ((w.setStream _ _).streams key).entries=_
    simp [writes,setStream_entries,hkey call.service]
  | giveUp c => simp [writes,(settle_frame w c .failed).1]
  | notify k service method params d =>
    simp [writes,setStream_entries,hkey service]
  | examine k i fields hf => simp [writes,(examine_frame D w k i fields).1]
  | _ => exact (List.append_nil _).symm

/-- What the servers wrote are replies that completed dispatches made, each at most once; each
exactly once if none is lost and none is held; and to a stream that is no command stream and that
nobody else writes to, just what was written has been added, in that order. -/
theorem replies_once (D : Deployment) (w0 w : World) (h0 : w0.Initial) (as : List Act)
    (hr : run (World.step D) as w0=some w) :
    (given (World.step D) writes as w0).Subperm w.answers ∧
    (Guarded (World.step D) Lossless as w0 →
      (∀ s service kind, ((w.servers s).loops service kind).answering s service=none) →
      (given (World.step D) writes as w0).Perm w.answers) ∧
    ∀ key, (∀ service, key≠D.commandStream service) → (∀ fields, .foreign key fields∉as) →
      (w.streams key).entries=((given (World.step D) writes as w0).filter (·.replyTo=key)).map
        fun x => D.plainFields x.envelope := by
  classical
  have hheld : ∀ x, w0.held x=0 := by
    intro x
    simp only [World.held,h0.loops]
    rfl
  refine ⟨?_,fun hg hidle => ?_,fun key hkey hforeign => ?_⟩
  · refine given_subperm (fun a w w' h x => ?_) as w0 w hr hheld
    obtain ⟨lost,hcount,_⟩ := step_count a w w' h x
    omega
  · have hmade : w0.answers=[] := by rw [World.answers,h0.completed]; rfl
    refine given_perm (fun a w w' hl h x => ?_) as w0 w hg hr hheld hmade fun x => ?_
    · obtain ⟨lost,hcount,hlost⟩ := step_count a w w' h x
      rw [hlost hl] at hcount
      omega
    · simp only [World.held,hidle]
      rfl
  · have hguard : Guarded (World.step D) (fun a _ => ∀ fields, a≠.foreign key fields) as w0 := by
      refine (guarded_iff as w0).mpr fun before a after t u hsplit _ _ fields heq => ?_
      apply hforeign fields
      rw [hsplit,heq]
      simp
    refine run_induction (I := fun as w => (w.streams key).entries=
      ((given (World.step D) writes as w0).filter (·.replyTo=key)).map
        fun x => D.plainFields x.envelope) ?_ ?_ as w hguard hr
    · rw [h0.streams]
      rfl
    · intro before a t u ht ih ha hstep
      rw [step_entries hstep key hkey ha,ih,given_concat before a w0 t u ht hstep,
        List.filter_append,List.map_append]

/-- Two calls of one client, both answered; the second reply is written although its XADD fails for
the server. -/
def twiceRun : List Act :=
  [.start 0 "greeter" .ok,.call 0 "greeter" "greet" (.js (.obj [])) "id-1",
    .call 0 "greeter" "greet" (.js (.obj [])) "id-2",.arrive 0,.arrive 1,
    .loop 0 "greeter" .consumer (.read .ok),.loop 0 "greeter" .consumer .enter,
    .loop 0 "greeter" .consumer (.settle (.ts greeterEntry)),
    .loop 0 "greeter" .consumer (.reply .ok),.loop 0 "greeter" .consumer (.ack .ok),
    .loop 0 "greeter" .consumer .enter,.loop 0 "greeter" .consumer (.settle (.ts greeterEntry)),
    .loop 0 "greeter" .consumer (.reply .lost)]

theorem replies_once_twice : ∃ w, run (World.step clamator) twiceRun (greeterWorld 4000)=some w ∧
    (given (World.step clamator) writes twiceRun (greeterWorld 4000)).Subperm w.answers ∧
    (w.streams "clamator:replies:client").entries=((given (World.step clamator) writes twiceRun
      (greeterWorld 4000)).filter (·.replyTo="clamator:replies:client")).map
        fun x => clamator.plainFields x.envelope := by
  have hrun : (run (World.step clamator) twiceRun (greeterWorld 4000)).isSome := rfl
  obtain ⟨hsub,_,hstream⟩ := replies_once clamator (greeterWorld 4000) _
    (greeterWorld_initial 4000) twiceRun (Option.some_get hrun).symm
  refine ⟨_,(Option.some_get hrun).symm,hsub,hstream _ ?_ (by simp [twiceRun])⟩
  exact fun service => clamator.replyStream_ne_commandStream "client" service

end Clamator.Redis
