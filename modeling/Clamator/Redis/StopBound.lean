import Clamator.Redis.AtLeastOnce

/-!
# What a stopping server still does (`stop`, `runConsumerLoop`, `runReclaimLoop`)

The loops look at `stopping` between iterations only. A loop that is told to stop finishes the
batch it has, or the one that its read is about to bring, and does not begin another.
-/

namespace Clamator.Redis
open Clamator.Base Clamator.Protocol

/-- COUNT of the loop's read. -/
def LoopKind.count : LoopKind → ℕ
  | .consumer => 16
  | .reclaim => 32

def Stage.awaitsLeft : Stage → ℕ
  | .start => 4
  | .dispatch _ => 3
  | .reply _ _ => 2
  | .ack => 1

/-- The awaits that a stopping loop may have left. -/
def Pc.awaitsLeft (kind : LoopKind) : Pc → ℕ
  | .sleep => 1
  | .poll => 1+4*kind.count
  | .handle stage _ rest => stage.awaitsLeft+4*rest.length
  | .exited => 0

/-- The entries on which it may still call `handleEntry`. -/
def Pc.uncalled (kind : LoopKind) : Pc → ℕ
  | .poll => kind.count
  | .handle .start _ rest => rest.length+1
  | .handle _ _ rest => rest.length
  | _ => 0

/-- A batch is no longer than COUNT. -/
def Pc.InBatch (kind : LoopKind) : Pc → Prop
  | .handle _ _ rest => rest.length+1 ≤ kind.count
  | _ => True

def LoopEv.calls : LoopEv → ℕ
  | .enter _ => 1
  | _ => 0

def loopAct (s : ℕ) (service : String) (kind : LoopKind) : Act → Bool
  | .loop s' service' kind' _ => s'==s && service'==service && kind'==kind
  | _ => false

def callAct (s : ℕ) (service : String) (kind : LoopKind) : Act → Bool
  | .loop s' service' kind' .enter => s'==s && service'==service && kind'==kind
  | _ => false

/-! ### A loop -/

theorem stopping_batch (kind : LoopKind) (batch : List Item) :
    (kind.batch true batch).awaitsLeft kind=4*batch.length ∧
      (kind.batch true batch).uncalled kind=batch.length := by
  cases batch with
  | nil => exact ⟨rfl,rfl⟩
  | cons cur rest =>
    refine ⟨?_,rfl⟩
    show 4+4*rest.length=4*(rest.length+1)
    omega

theorem loop_awaits {lang : Lang} {kind : LoopKind} {ev : LoopEv} {pc pc' : Pc}
    (hbatch : ∀ batch, ev=.got batch → batch.length ≤ kind.count)
    (h : Loop.step lang kind true ev pc=some pc') :
    1+pc'.awaitsLeft kind ≤ pc.awaitsLeft kind ∧ ev.calls+pc'.uncalled kind ≤ pc.uncalled kind := by
  cases pc with
  | sleep =>
    cases ev with
    | wake => cases h; exact ⟨Nat.le_refl _,Nat.le_refl _⟩
    | _ => cases h
  | poll =>
    cases ev with
    | got batch =>
      cases h
      have hlen := hbatch batch rfl
      obtain ⟨hawaits,huncalled⟩ := stopping_batch kind batch
      rw [hawaits,huncalled]
      simp only [Pc.awaitsLeft,Pc.uncalled,LoopEv.calls]
      omega
    | readThrew =>
      cases h
      exact ⟨Nat.le_add_right 1 _,Nat.zero_le _⟩
    | _ => cases h
  | exited => exact (Loop.step_ne_exited _ _ _ _ _ _ h rfl).elim
  | handle stage cur rest =>
    rw [Loop.step_handle] at h
    obtain ⟨progress,hp,rfl⟩ := Option.map_eq_some_iff.mp h
    obtain ⟨hawaits,huncalled⟩ := stopping_batch kind rest
    cases Stage.step_stepped hp with
    | acked =>
      show 1+(kind.batch true rest).awaitsLeft kind ≤ 1+4*rest.length ∧
        0+(kind.batch true rest).uncalled kind ≤ rest.length
      omega
    | _ =>
      simp only [Pc.after,Pc.caught,if_true,Pc.awaitsLeft,Pc.uncalled,Stage.awaitsLeft,LoopEv.calls]
      omega

theorem loop_inBatch {lang : Lang} {kind : LoopKind} {stopping : Bool} {ev : LoopEv} {pc pc' : Pc}
    (hbatch : ∀ batch, ev=.got batch → batch.length ≤ kind.count) (hpc : pc.InBatch kind)
    (h : Loop.step lang kind stopping ev pc=some pc') : pc'.InBatch kind := by
  have hnext : ∀ batch : List Item, batch.length ≤ kind.count →
      (kind.batch stopping batch).InBatch kind := by
    intro batch hlen
    cases batch with
    | nil => cases kind <;> cases stopping <;> trivial
    | cons cur rest => exact hlen
  have hcaught : (Pc.caught stopping).InBatch kind := by cases stopping <;> trivial
  cases pc with
  | sleep =>
    cases ev with
    | wake => cases h; cases stopping <;> trivial
    | _ => cases h
  | poll =>
    cases ev with
    | got batch => cases h; exact hnext batch (hbatch batch rfl)
    | readThrew => cases h; exact hcaught
    | _ => cases h
  | exited => exact (Loop.step_ne_exited _ _ _ _ _ _ h rfl).elim
  | handle stage cur rest =>
    rw [Loop.step_handle] at h
    obtain ⟨progress,_,rfl⟩ := Option.map_eq_some_iff.mp h
    cases progress with
    | stage stage' => exact hpc
    | returned => exact hnext rest (Nat.le_of_succ_le hpc)
    | threw => exact hcaught
    | cancelled => trivial

/-! ### The deployment -/

theorem readItems_length {E : Type} (s : Stream E) (count : ℕ) : (s.readItems count).length ≤ count := by
  refine (List.length_filterMap_le _ _).trans ?_
  cases s.group with
  | none => exact Nat.zero_le _
  | some g =>
    rw [Option.elim_some,Group.fresh,List.length_range']
    exact Nat.min_le_left _ _

theorem claimItems_length {E : Type} (s : Stream E) (now minIdle count : ℕ) :
    (s.claimItems now minIdle count).length ≤ count := by
  refine (List.length_filterMap_le _ _).trans ?_
  cases s.group with
  | none => exact Nat.zero_le _
  | some g =>
    rw [Option.elim_some,Group.claimable,List.length_map]
    exact List.length_take_le _ _

theorem effect_batch {D : Deployment} {w w1 : World} {s : ℕ} {service : String} {kind : LoopKind}
    {act : LoopAct} {ev : LoopEv} (h : loopEffect D w s service kind act=some (ev,w1)) :
    (∀ batch, ev=.got batch → batch.length ≤ kind.count) ∧
      ev.calls=if callAct s service kind (.loop s service kind act) then 1 else 0 := by
  generalize hpc : (w.servers s).loops service kind=pc
  cases loopEffect_effected hpc h with
  | consumed fate hf =>
    cases fate with
    | ok =>
      refine ⟨?_,rfl⟩
      rintro batch ⟨⟩
      exact readItems_length _ 16
    | _ => exact ⟨fun _ hb => LoopEv.noConfusion hb,rfl⟩
  | reclaimed fate hf =>
    cases fate with
    | ok =>
      refine ⟨?_,rfl⟩
      rintro batch ⟨⟩
      exact claimItems_length _ _ _ 32
    | _ => exact ⟨fun _ hb => LoopEv.noConfusion hb,rfl⟩
  | entered => exact ⟨fun _ hb => LoopEv.noConfusion hb,by simp [LoopEv.calls,callAct]⟩
  | dispatched => exact ⟨fun _ hb => LoopEv.noConfusion hb,by simp [LoopEv.calls,callAct]⟩
  | _ => exact ⟨fun _ hb => LoopEv.noConfusion hb,rfl⟩

/- The step is one of another loop, or none of a loop. -/
theorem step_otherLoop {D : Deployment} {a : Act} {w w' : World} (h : World.step D a w=some w')
    (s : ℕ) (service : String) (kind : LoopKind) (ha : ∀ act, a≠.loop s service kind act) :
    (w'.servers s).loops service kind=(w.servers s).loops service kind ∨
      (w'.servers s).loops service kind=.exited ∨ ((w'.servers s).loops service kind).Idle ∧
        (w.servers s).stopping=false := by
  cases step_stepped D a w w' h with
  | started s1 service1 _ hs =>
    rcases setServer_loops (w.setStream (D.commandStream service1)
      (w.streams (D.commandStream service1)).xgroupCreate) s1
      (((w.servers s1).setLoop service1 .consumer .poll).setLoop service1 .reclaim .sleep) s
      with ⟨rfl,hserver⟩ | hserver
    · rw [hserver]
      rcases setLoop_loops ((w.servers s).setLoop service1 .consumer .poll) service1 .reclaim
        .sleep service kind with ⟨hl,_⟩ | hl
      · rw [hl]
        exact Or.inr (Or.inr ⟨trivial,hs⟩)
      · rw [hl]
        rcases setLoop_loops (w.servers s) service1 .consumer .poll service kind with ⟨hl,_⟩ | hl
        · rw [hl]
          exact Or.inr (Or.inr ⟨trivial,hs⟩)
        · exact Or.inl hl
    · rw [hserver]
      exact Or.inl rfl
  | stop s1 =>
    rcases setServer_loops w s1 { w.servers s1 with stopping := true } s with ⟨rfl,hs⟩ | hs
    all_goals
      rw [hs]
      exact Or.inl rfl
  | halt s1 service1 kind1 =>
    rcases setServer_loops w s1 ((w.servers s1).setLoop service1 kind1 .exited) s with ⟨rfl,hs⟩ | hs
    · rw [hs]
      rcases setLoop_loops (w.servers s) service1 kind1 .exited service kind with ⟨hl,_⟩ | hl
      · exact Or.inr (Or.inl hl)
      · exact Or.inl hl
    · rw [hs]
      exact Or.inl rfl
  | crash s1 =>
    rcases setServer_loops w s1 { w.servers s1 with stopping := true,loops := fun _ _ => .exited } s
      with ⟨rfl,hs⟩ | hs
    · rw [hs]
      exact Or.inr (Or.inl rfl)
    · rw [hs]
      exact Or.inl rfl
  | loop s1 service1 kind1 act ev w1 pc he hp =>
    have hservers := (loopEffect_grows D w w1 s1 service1 kind1 act ev he).2
    rcases setServer_loops w1 s1 ((w.servers s1).setLoop service1 kind1 pc) s with ⟨rfl,hs⟩ | hs
    · rw [hs]
      rcases setLoop_loops (w.servers s) service1 kind1 pc service kind with ⟨_,rfl,rfl⟩ | hl
      · exact (ha act rfl).elim
      · exact Or.inl hl
    · rw [hs,hservers]
      exact Or.inl rfl
  | giveUp c =>
    rw [(settle_frame w c _).2.1]
    exact Or.inl rfl
  | examine k i fields hf =>
    rw [(examine_frame D w k i fields).2.1]
    exact Or.inl rfl
  | _ => exact Or.inl rfl

theorem setServer_stopping (w : World) (s s' : ℕ) (server : Server)
    (hs : (w.servers s').stopping=true → server.stopping=true) (h : (w.servers s).stopping=true) :
    ((w.setServer s' server).servers s).stopping=true := by
  rcases setServer_loops w s' server s with ⟨rfl,heq⟩ | heq
  · rw [heq]
    exact hs h
  · rw [heq]
    exact h

/- Nothing takes a stop back. -/
theorem step_stopping {D : Deployment} {a : Act} {w w' : World} (h : World.step D a w=some w')
    (s : ℕ) (hs : (w.servers s).stopping=true) : (w'.servers s).stopping=true := by
  cases step_stepped D a w w' h with
  | started s1 service1 _ _ =>
    exact setServer_stopping (w.setStream _ _) s s1 _ id hs
  | stop s1 => exact setServer_stopping w s s1 _ (fun _ => rfl) hs
  | halt s1 service1 kind1 => exact setServer_stopping w s s1 _ id hs
  | crash s1 => exact setServer_stopping w s s1 _ (fun _ => rfl) hs
  | loop s1 service1 kind1 act ev w1 pc he hp =>
    have hservers := (loopEffect_grows D w w1 s1 service1 kind1 act ev he).2
    refine setServer_stopping w1 s s1 _ (fun h1 => ?_) (by rw [hservers]; exact hs)
    rw [hservers] at h1
    exact h1
  | giveUp c =>
    rw [(settle_frame w c _).2.1]
    exact hs
  | examine k i fields hf =>
    rw [(examine_frame D w k i fields).2.1]
    exact hs
  | _ => exact hs

theorem loopAct_iff (s : ℕ) (service : String) (kind : LoopKind) (a : Act) :
    loopAct s service kind a=true ↔ ∃ act, a=.loop s service kind act := by
  cases a <;> simp [loopAct,and_assoc]

theorem callAct_loopAct {s : ℕ} {service : String} {kind : LoopKind} {a : Act}
    (h : callAct s service kind a=true) : loopAct s service kind a=true := by
  unfold callAct at h
  split at h
  · exact h
  · cases h

/- One step of the deployment, after the stop. -/
theorem step_awaits {D : Deployment} {a : Act} {w w' : World} (h : World.step D a w=some w') (s : ℕ)
    (hs : (w.servers s).stopping=true) (service : String) (kind : LoopKind) :
    (if loopAct s service kind a then 1 else 0)+((w'.servers s).loops service kind).awaitsLeft kind ≤
        ((w.servers s).loops service kind).awaitsLeft kind ∧
    (if callAct s service kind a then 1 else 0)+((w'.servers s).loops service kind).uncalled kind ≤
        ((w.servers s).loops service kind).uncalled kind := by
  by_cases ha : ∃ act, a=.loop s service kind act
  · obtain ⟨act,rfl⟩ := ha
    obtain ⟨⟨ev,w1⟩,he,hb⟩ := Option.bind_eq_some_iff.mp h
    obtain ⟨pc,hp,rfl⟩ := Option.map_eq_some_iff.mp hb
    obtain ⟨hbatch,hcalls⟩ := effect_batch he
    rw [hs] at hp
    obtain ⟨hawaits,huncalled⟩ := loop_awaits hbatch hp
    rw [if_pos ((loopAct_iff s service kind _).mpr ⟨act,rfl⟩),← hcalls]
    simp only [World.setServer,Server.setLoop,if_true,and_self]
    exact ⟨hawaits,huncalled⟩
  · have hno : loopAct s service kind a≠true := fun hl => ha ((loopAct_iff s service kind a).mp hl)
    have hno' : callAct s service kind a≠true := fun hc => hno (callAct_loopAct hc)
    rw [if_neg hno,if_neg hno',Nat.zero_add,Nat.zero_add]
    rcases step_otherLoop h s service kind fun act hc => ha ⟨act,hc⟩ with hl | hl | ⟨_,hf⟩
    · rw [hl]
      exact ⟨Nat.le_refl _,Nat.le_refl _⟩
    · rw [hl]
      exact ⟨Nat.zero_le _,Nat.zero_le _⟩
    · rw [hs] at hf
      cases hf

theorem inBatch_step {D : Deployment} {a : Act} {w w' : World} (h : World.step D a w=some w') (s : ℕ)
    (service : String) (kind : LoopKind) (hw : ((w.servers s).loops service kind).InBatch kind) :
    ((w'.servers s).loops service kind).InBatch kind := by
  by_cases ha : ∃ act, a=.loop s service kind act
  · obtain ⟨act,rfl⟩ := ha
    obtain ⟨⟨ev,w1⟩,he,hb⟩ := Option.bind_eq_some_iff.mp h
    obtain ⟨pc,hp,rfl⟩ := Option.map_eq_some_iff.mp hb
    simp only [World.setServer,Server.setLoop,if_true,and_self]
    exact loop_inBatch (effect_batch he).1 hw hp
  · rcases step_otherLoop h s service kind fun act hc => ha ⟨act,hc⟩ with hl | hl | ⟨hl,_⟩
    · rw [hl]
      exact hw
    · rw [hl]
      trivial
    · cases hpc : (w'.servers s).loops service kind with
      | handle stage cur rest =>
        rw [hpc] at hl
        exact hl.elim
      | _ => trivial

theorem inBatch_bounds (kind : LoopKind) (pc : Pc) (h : pc.InBatch kind) :
    pc.awaitsLeft kind ≤ 1+4*kind.count ∧ pc.uncalled kind ≤ kind.count := by
  cases pc with
  | sleep => exact ⟨Nat.le_add_right 1 _,Nat.zero_le _⟩
  | poll => exact ⟨Nat.le_refl _,Nat.le_refl _⟩
  | exited => exact ⟨Nat.zero_le _,Nat.zero_le _⟩
  | handle stage cur rest =>
    simp only [Pc.InBatch] at h
    cases stage <;> simp only [Pc.awaitsLeft,Stage.awaitsLeft,Pc.uncalled] <;> omega

theorem awaits_pos (kind : LoopKind) (pc : Pc) (h : pc≠.exited) : 0 < pc.awaitsLeft kind := by
  cases pc with
  | sleep => exact Nat.one_pos
  | poll => exact Nat.add_pos_left Nat.one_pos _
  | exited => exact (h rfl).elim
  | handle stage cur rest =>
    refine Nat.add_pos_left ?_ _
    cases stage <;> simp [Stage.awaitsLeft]

/-- From a stop on, whatever else happens, each loop of the server ends at most the awaits of one
batch and calls `handleEntry` for at most one batch of entries; a loop that has ended stays so. -/
theorem stop_bounds (D : Deployment) (w w' : World)
    (hw : Reachable World.Initial (fun w w' => ∃ a, World.step D a w=some w') w) (s : ℕ)
    (hs : (w.servers s).stopping=true) (as : List Act) (hr : run (World.step D) as w=some w')
    (service : String) (kind : LoopKind) : (w'.servers s).stopping=true ∧
      as.countP (loopAct s service kind) ≤ 1+4*kind.count ∧
      as.countP (callAct s service kind) ≤ kind.count ∧
      ((w.servers s).loops service kind=.exited → (w'.servers s).loops service kind=.exited ∧
        as.countP (loopAct s service kind)=0) := by
  have hin : ((w.servers s).loops service kind).InBatch kind := by
    refine hw.invariant (I := fun w => ((w.servers s).loops service kind).InBatch kind) ?_ ?_
    · intro w h0
      rw [h0.loops]
      trivial
    · rintro w w' hin ⟨a,ha⟩
      exact inBatch_step ha s service kind hin
  obtain ⟨hawaits,huncalled⟩ := inBatch_bounds kind _ hin
  obtain ⟨hstop,hcount⟩ := run_countP_le (loopAct s service kind)
    (fun w => ((w.servers s).loops service kind).awaitsLeft kind) (fun w => (w.servers s).stopping=true)
    (fun a w w' hs h => ⟨step_stopping h s hs,(step_awaits h s hs service kind).1⟩) as w w' hs hr
  obtain ⟨_,hcalls⟩ := run_countP_le (callAct s service kind)
    (fun w => ((w.servers s).loops service kind).uncalled kind) (fun w => (w.servers s).stopping=true)
    (fun a w w' hs h => ⟨step_stopping h s hs,(step_awaits h s hs service kind).2⟩) as w w' hs hr
  refine ⟨hstop,by omega,by omega,fun hexited => ?_⟩
  have hnone : ((w.servers s).loops service kind).awaitsLeft kind=0 := by
    rw [hexited]
    rfl
  refine ⟨?_,by omega⟩
  by_contra hrun
  have hpos := awaits_pos kind _ hrun
  omega

/-- A server is stopped at its dispatch; the loop answers, and ends. -/
def stoppedRun : List Act :=
  [.start 0 "greeter" .ok,.call 0 "greeter" "greet" (.js (.obj [])) "id-1",.arrive 0,
    .loop 0 "greeter" .consumer (.read .ok),.loop 0 "greeter" .consumer .enter,.stop 0]

def endingRun : List Act :=
  [.loop 0 "greeter" .consumer (.settle (.ts greeterEntry)),.loop 0 "greeter" .consumer (.reply .ok),
    .loop 0 "greeter" .consumer (.ack .ok)]

theorem stop_bounds_ending : ∃ w w', run (World.step clamator) stoppedRun (greeterWorld 4000)=some w ∧
    run (World.step clamator) endingRun w=some w' ∧
    endingRun.countP (loopAct 0 "greeter" .consumer) ≤ 1+4*LoopKind.consumer.count ∧
    endingRun.countP (callAct 0 "greeter" .consumer) ≤ LoopKind.consumer.count := by
  have hrun : (run (World.step clamator) stoppedRun (greeterWorld 4000)).isSome := rfl
  have hw := Reachable.run _ _ _ (.start (greeterWorld_initial 4000)) (Option.some_get hrun).symm
  have hend : (run (World.step clamator) endingRun
      ((run (World.step clamator) stoppedRun (greeterWorld 4000)).get hrun)).isSome := rfl
  obtain ⟨_,hawaits,hcalls,_⟩ := stop_bounds clamator _ _ hw 0 rfl endingRun
    (Option.some_get hend).symm "greeter" .consumer
  exact ⟨_,_,(Option.some_get hrun).symm,(Option.some_get hend).symm,hawaits,hcalls⟩

end Clamator.Redis
