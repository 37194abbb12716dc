import Clamator.Redis.Drain

/-!
# What the loops of a draining server owe

A handler that has ended leaves a reply and an ack to its loop, for as long as an XADD and an
XACK take. The invariant follows each such request with its times, step by step, and knows of
the drain that it ends with no handler in flight, and with none that has ended lately.
-/

namespace Clamator.Redis
open Clamator.Base Clamator.Protocol

def Answered (w : PyServer) (f : Finished) (r : PyRequestEntry f.entry) : Prop :=
  (f.loop.1,f.item.1)∈w.acked ∧ ∃ d, (r.replyTo,d)∈w.written ∧ PyIsReply r.id d

def Sendable (entry : PyServiceEntry) (fields : List Bulk) : Prop :=
  ∀ r : PyRequestEntry entry, r.fields=fields → PyRequestSendable entry r

/-- When what the loop awaits is over: a handler ends at its own time, its dispatcher then goes
on at once, and a command of Redis is answered within `latency`. -/
def Hand.due (latency : ℕ) (hand : Hand) : Option ℕ :=
  if hand.cancelled then none else match hand.pc,hand.task with
    | .handle (.dispatch _) _ _,.running _ ends => some ends
    | .handle (.dispatch _) _ _,.finished _ => some hand.since
    | .handle (.reply _ _) _ _,_ => some (hand.since+latency)
    | .handle .ack _ _,_ => some (hand.since+latency)
    | _,_ => none

/-- No time passes over what is due. A handler that is in flight while the server drains ends
within the grace period, and the replies to its requests can be sent. -/
def Punctual (latency : ℕ) : DrainAct → PyServer → Prop
  | .tick d,w => ∀ l due, (w.hands l).due latency=some due → w.now+d ≤ due
  | .enter l entry duration,w => ∀ cur rest, (w.hands l).pc=.handle .start cur rest →
    Sendable entry cur.2 ∧ ∀ deadline, w.stop=.draining deadline →
      startTask entry cur.2 (w.now+duration)=.running entry (w.now+duration) → w.now+duration<deadline
  | .stop graceMs,w => ∀ l∈w.inflight, ∀ due, (w.hands l).due latency=some due → due<w.now+graceMs
  | _,_ => True

/-- The handlers of all requests have ended longer ago than an XADD and an XACK take. -/
def Quiet (latency : ℕ) (w : PyServer) : Prop := ∀ f∈w.completed, ∀ r : PyRequestEntry f.entry,
  r.fields=f.item.2 → f.ended+2*latency<w.now

/-- While the server drains, the last handler leaves the in-flight set in quiet. -/
def Outlasting (latency : ℕ) : DrainAct → PyServer → Prop
  | .resume l,w => ∀ deadline, w.stop=.draining deadline → w.inflight=[l] → Quiet latency w
  | .stop _,w => w.inflight=[] → Quiet latency w
  | _,_ => True

/-! ### handleEntry in one piece and step by step -/

theorem dispatch_of_replies (entry : PyServiceEntry) (r : PyRequestEntry entry) (d : Doc)
    (h : pyHandleEntry entry r.fields=⟨[.xadd r.replyTo d,.xack],false⟩) :
    ∃ answer, dispatch (.py entry) r.fields=some (.returned (some answer)) ∧ answer.text=some d := by
  simp only [pyHandleEntry,r.decodes] at h
  simp only [dispatch,r.decodes]
  cases hs : (pyDispatcher (some entry) (.request r.service r.method r.fullMethod r.params r.id)).settled with
  | rejected => simp [hs,pyFinishEntry] at h
  | cancelled => simp [hs,pyFinishEntry] at h
  | returned reply => cases reply with
    | none => simp [hs,pyFinishEntry] at h
    | some reply =>
      refine ⟨.py reply,rfl,?_⟩
      simp only [hs,pyFinishEntry] at h
      cases hd : jsonDumps reply with
      | none => simp [hd] at h
      | some d' =>
        simp only [hd,Handling.mk.injEq,List.cons.injEq,Command.xadd.injEq,true_and,and_true] at h
        simp only [Reply.text,hd,h]

/- The dispatcher of a sendable request goes on to the XADD of its reply. -/
theorem settled_step (entry : PyServiceEntry) (r : PyRequestEntry entry)
    (hs : PyRequestSendable entry r) : ∃ out d, dispatch (.py entry) r.fields=some out ∧ PyIsReply r.id d ∧
      ∀ since, Stage.step .py r.fields (.settled out) (.dispatch since)=some (.stage (.reply r.replyTo d)) := by
  obtain ⟨d,hd,hreply⟩ := (pyHandleEntry_replies_iff entry r).mpr hs
  obtain ⟨answer,ha,ht⟩ := dispatch_of_replies entry r d hd
  refine ⟨_,d,ha,hreply,fun since => ?_⟩
  simp only [Stage.step,inspect,r.decodes,Reading.inspection,ht]

/-! ### Loops between and within their entries -/

theorem between_handle (kind : LoopKind) (stopping : Bool) (ev : LoopEv) (stage : Stage) (cur : Item)
    (rest : List Item) (hb : ev.isBetween=true) :
    Loop.step .py kind stopping ev (.handle stage cur rest)=none := by
  cases ev with
  | wake => cases stage <;> rfl
  | got batch => cases stage <;> rfl
  | readThrew => cases stage <;> rfl
  | _ => cases hb

theorem step_cur (lang : Lang) (kind : LoopKind) (stopping : Bool) (ev : LoopEv)
    (stage stage' : Stage) (cur cur' : Item) (rest rest' : List Item) (hne : stage'≠.start)
    (h : Loop.step lang kind stopping ev (.handle stage cur rest)=some (.handle stage' cur' rest')) :
    cur'=cur := by
  rw [Loop.step_handle] at h
  obtain ⟨progress,-,hafter⟩ := Option.map_eq_some_iff.mp h
  cases progress with
  | stage s =>
    cases hafter
    rfl
  | returned =>
    cases rest with
    | nil =>
      cases kind <;> cases stopping <;> simp [Pc.after,LoopKind.batch,LoopKind.top] at hafter
    | cons next rest =>
      cases hafter
      exact (hne rfl).elim
  | threw => cases stopping <;> simp [Pc.after,Pc.caught] at hafter
  | cancelled => simp [Pc.after] at hafter

theorem startTask_cases (entry : PyServiceEntry) (fields : List Bulk) (ends : ℕ) :
    startTask entry fields ends=.idle ∨ startTask entry fields ends=.early entry ∨
      startTask entry fields ends=.running entry ends ∧
        ∃ replyTo, inspect .py fields=.dispatch replyTo := by
  have htask : ∀ run, startTask.task entry ends run=.early entry ∨
      startTask.task entry ends run=.running entry ends := by
    intro run
    unfold startTask.task
    split
    · exact .inl rfl
    · exact .inl rfl
    · exact .inr rfl
  have hinspect : ∀ env replyTo, pyReadEntry fields=.decoded env replyTo →
      ∃ replyTo, inspect .py fields=.dispatch replyTo := by
    intro env replyTo hread
    exact ⟨replyTo,by simp only [inspect,hread,Reading.inspection]⟩
  unfold startTask
  split
  · rename_i hread
    exact .inr ((htask _).imp_right fun h => ⟨h,hinspect _ _ hread⟩)
  · rename_i hread
    exact .inr ((htask _).imp_right fun h => ⟨h,hinspect _ _ hread⟩)
  · exact .inr (.inl rfl)
  · exact .inl rfl

/-! ### The hand of a loop -/

def Hand.inFlight (hand : Hand) : Bool := match hand.pc,hand.task with
  | .handle (.dispatch _) _ _,.running _ _ => true
  | .handle (.dispatch _) _ _,.finished _ => true
  | _,_ => false

def SendableHand (hand : Hand) : Prop := match hand.pc,hand.task with
  | .handle _ cur _,.running entry _ => Sendable entry cur.2
  | .handle _ cur _,.finished entry => Sendable entry cur.2
  | _,_ => True

theorem Hand.since_le_due {latency due : ℕ} {hand : Hand}
    (ht : ∀ entry ends, hand.task≠.running entry ends) (h : hand.due latency=some due) :
    hand.since ≤ due := by
  unfold Hand.due at h
  split at h
  · cases h
  · split at h
    · rename_i heq
      exact (ht _ _ heq).elim
    · cases h
      exact Nat.le_refl _
    · cases h
      exact Nat.le_add_right _ _
    · cases h
      exact Nat.le_add_right _ _
    · cases h

section
variable (pc : Pc) (performed : Bool) (since : ℕ) (cancelled : Bool)

theorem sendableHand_idle : SendableHand ⟨pc,.idle,performed,since,cancelled⟩ := by
  cases pc <;> exact trivial

theorem sendableHand_early (entry : PyServiceEntry) :
    SendableHand ⟨pc,.early entry,performed,since,cancelled⟩ := by
  cases pc <;> exact trivial

theorem inFlight_idle : Hand.inFlight ⟨pc,.idle,performed,since,cancelled⟩=false := by
  unfold Hand.inFlight
  split <;> simp_all

theorem inFlight_early (entry : PyServiceEntry) :
    Hand.inFlight ⟨pc,.early entry,performed,since,cancelled⟩=false := by
  unfold Hand.inFlight
  split <;> simp_all

theorem inFlight_after (task : Task) :
    Hand.inFlight ⟨pc,task.after pc,performed,since,cancelled⟩=false := by
  unfold Task.after
  split
  · rfl
  · rfl
  · exact inFlight_idle ..

theorem since_le_after {latency due : ℕ} (task : Task)
    (h : Hand.due latency ⟨pc,task.after pc,performed,since,false⟩=some due) : since ≤ due := by
  unfold Task.after at h
  split at h
  · cases h
    exact Nat.le_add_right _ _
  · cases h
    exact Nat.le_add_right _ _
  · exact Hand.since_le_due (by simp) h

end

/- A loop between its entries owes nothing. -/
theorem hand_between {hand : Hand} (h : ∀ stage cur rest, hand.pc≠.handle stage cur rest) :
    SendableHand hand ∧ hand.inFlight=false ∧ ∀ latency, hand.due latency=none := by
  obtain ⟨pc,task,performed,since,cancelled⟩ := hand
  cases pc with
  | handle stage cur rest => exact (h stage cur rest rfl).elim
  | _ => exact ⟨trivial,rfl,fun latency => ite_self none⟩

theorem Hand.inFlight_due (latency : ℕ) {hand : Hand} (hc : hand.cancelled=false)
    (h : hand.inFlight=true) : ∃ due, hand.due latency=some due := by
  unfold Hand.inFlight at h
  split at h
  · rename_i hpc htask
    exact ⟨_,by simp only [Hand.due,hc,hpc,htask]; rfl⟩
  · rename_i hpc htask
    exact ⟨_,by simp only [Hand.due,hc,hpc,htask]; rfl⟩
  · cases h

/-! ### Requests on their way -/

/-- The request of a handler that has ended: its dispatcher is about to go on, or its loop awaits
the XADD or the XACK. -/
inductive InHand (latency : ℕ) (w : PyServer) (f : Finished) (r : PyRequestEntry f.entry) : Prop where
  | dispatching (entered : ℕ) (rest : List Item) (performed : Bool)
      (hand : w.hands f.loop=
        ⟨.handle (.dispatch entered) f.item rest,.finished f.entry,performed,f.ended,false⟩)
  | replying (d : Doc) (rest : List Item) (performed : Bool) (since : ℕ)
      (hand : w.hands f.loop=
        ⟨.handle (.reply r.replyTo d) f.item rest,.finished f.entry,performed,since,false⟩)
      (reply : PyIsReply r.id d) (written : performed=true → (r.replyTo,d)∈w.written)
      (soon : since ≤ f.ended)
  | acking (d : Doc) (rest : List Item) (since : ℕ)
      (hand : w.hands f.loop=⟨.handle .ack f.item rest,.finished f.entry,false,since,false⟩)
      (reply : PyIsReply r.id d) (written : (r.replyTo,d)∈w.written)
      (soon : since ≤ f.ended+latency)

structure DrainOk (latency : ℕ) (w : PyServer) : Prop where
  sendable : ∀ l, SendableHand (w.hands l)
  nodup : w.inflight.Nodup
  flight : ∀ l, l∈w.inflight ↔ (w.hands l).inFlight=true
  time : ∀ l due, (w.hands l).due latency=some due → w.now ≤ due
  completed : ∀ f∈w.completed, ∀ r : PyRequestEntry f.entry, r.fields=f.item.2 →
    Answered w f r ∨ InHand latency w f r
  drain : ∀ deadline, w.stop=.draining deadline →
    (∀ l∈w.inflight, ∀ due, (w.hands l).due latency=some due → due<deadline) ∧
      (w.inflight=[] → Quiet latency w)
  alive : w.stopped=false → ∀ l, (w.hands l).cancelled=false
  ended : w.stopped=true → ∀ l, (w.hands l).cancelled=true

section
variable {latency : ℕ} {w w' : PyServer} {f : Finished} {r : PyRequestEntry f.entry} {cur : Item}
  {rest : List Item} {task : Task} {performed cancelled : Bool} {since : ℕ}

theorem InHand.finished (h : InHand latency w f r) : ∃ stage rest performed since, stage≠.start ∧
    w.hands f.loop=⟨.handle stage f.item rest,.finished f.entry,performed,since,false⟩ := by
  cases h with
  | dispatching entered rest performed hand => exact ⟨_,rest,performed,_,by simp,hand⟩
  | replying d rest performed since hand => exact ⟨_,rest,performed,since,by simp,hand⟩
  | acking d rest since hand => exact ⟨_,rest,false,since,by simp,hand⟩

/- It is answered before the two commands have had their time. -/
theorem InHand.soon (h : InHand latency w f r) (htime : ∀ l due, (w.hands l).due latency=some due →
    w.now ≤ due) : w.now ≤ f.ended+2*latency := by
  cases h with
  | dispatching entered rest performed hand =>
    have hdue := htime f.loop f.ended (by rw [hand]; rfl)
    omega
  | replying d rest performed since hand _ _ hsoon =>
    have hdue := htime f.loop (since+latency) (by rw [hand]; rfl)
    omega
  | acking d rest since hand _ _ hsoon =>
    have hdue := htime f.loop (since+latency) (by rw [hand]; rfl)
    omega

/- What a request in hand has come to, by where its loop stands. -/
theorem InHand.at_reply {replyTo : String} {envelope : Doc} (h : InHand latency w f r)
    (hhand : w.hands f.loop=⟨.handle (.reply replyTo envelope) cur rest,task,performed,since,cancelled⟩) :
    cur=f.item ∧ replyTo=r.replyTo ∧ task=.finished f.entry ∧ cancelled=false ∧
      PyIsReply r.id envelope ∧ (performed=true → (replyTo,envelope)∈w.written) ∧ since ≤ f.ended := by
  cases h with
  | dispatching entered rest' performed' hhand' =>
    rw [hhand] at hhand'
    cases hhand'
  | acking d rest' since' hhand' =>
    rw [hhand] at hhand'
    cases hhand'
  | replying d rest' performed' since' hhand' hreply hwritten hsoon =>
    rw [hhand] at hhand'
    cases hhand'
    exact ⟨rfl,rfl,rfl,rfl,hreply,hwritten,hsoon⟩

theorem InHand.at_ack (h : InHand latency w f r)
    (hhand : w.hands f.loop=⟨.handle .ack cur rest,task,performed,since,cancelled⟩) :
    cur=f.item ∧ performed=false ∧ ∃ d, PyIsReply r.id d ∧ (r.replyTo,d)∈w.written := by
  cases h with
  | dispatching entered rest' performed' hhand' =>
    rw [hhand] at hhand'
    cases hhand'
  | replying d rest' performed' since' hhand' =>
    rw [hhand] at hhand'
    cases hhand'
  | acking d rest' since' hhand' hreply hwritten =>
    rw [hhand] at hhand'
    cases hhand'
    exact ⟨rfl,rfl,d,hreply,hwritten⟩

theorem Answered.mono (h : Answered w f r) (hw : ∀ x∈w.written, x∈w'.written)
    (ha : ∀ x∈w.acked, x∈w'.acked) : Answered w' f r := by
  obtain ⟨hacked,d,hd,hr⟩ := h
  exact ⟨ha _ hacked,d,hw _ hd,hr⟩

theorem InHand.mono (h : InHand latency w f r) (hh : w'.hands f.loop=w.hands f.loop)
    (hw : ∀ x∈w.written, x∈w'.written) : InHand latency w' f r := by
  cases h with
  | dispatching entered rest performed hand =>
    exact .dispatching entered rest performed (hh.trans hand)
  | replying d rest performed since hand reply written soon =>
    exact .replying d rest performed since (hh.trans hand) reply (fun hp => hw _ (written hp)) soon
  | acking d rest since hand reply written soon =>
    exact .acking d rest since (hh.trans hand) reply (hw _ written) soon

theorem Quiet.mono (h : Quiet latency w) (hc : w'.completed=w.completed) (hnow : w.now ≤ w'.now) :
    Quiet latency w' := by
  intro f hf r hr
  rw [hc] at hf
  exact Nat.lt_of_lt_of_le (h f hf r hr) hnow

end

/-! ### One step -/

section
variable {latency : ℕ} {w w' : PyServer}

theorem DrainOk.not_mem (hok : DrainOk latency w) {l : LoopId} (h : (w.hands l).inFlight=false) :
    l∉w.inflight := by
  rw [hok.flight,h]
  exact Bool.false_ne_true

/- A step that no loop takes. -/
theorem DrainOk.completed_same (hok : DrainOk latency w) (hh : w'.hands=w.hands)
    (hc : w'.completed=w.completed) (hw : w'.written=w.written) (ha : w'.acked=w.acked) :
    ∀ f∈w'.completed, ∀ r : PyRequestEntry f.entry, r.fields=f.item.2 →
      Answered w' f r ∨ InHand latency w' f r := by
  intro f hf r hr
  rw [hc] at hf
  have hkept : ∀ x∈w.written, x∈w'.written := by
    rw [hw]
    exact fun _ hx => hx
  rcases hok.completed f hf r hr with h | h
  · exact .inl (h.mono hkept (by rw [ha]; exact fun _ hx => hx))
  · exact .inr (h.mono (by rw [hh]) hkept)

/- A step of loop `l`: what comes of the request in its hands, of the in-flight set and of the
drain is all there is to show. -/
theorem DrainOk.moved (hok : DrainOk latency w) (l : LoopId) (hand : Hand)
    (hhands : w'.hands=Function.update w.hands l hand) (hnow : w'.now=w.now) (hstop : w'.stop=w.stop)
    (hw : ∀ x∈w.written, x∈w'.written) (ha : ∀ x∈w.acked, x∈w'.acked)
    (hcancelled : hand.cancelled=(w.hands l).cancelled) (hs : SendableHand hand)
    (hnodup : w'.inflight.Nodup)
    (hflight : ∀ l', l'∈w'.inflight ↔ l'≠l ∧ l'∈w.inflight ∨ l'=l ∧ hand.inFlight=true)
    (htime : ∀ due, hand.due latency=some due → w.now ≤ due)
    (hdrain : ∀ deadline, w.stop=.draining deadline →
      (hand.inFlight=true → ∀ due, hand.due latency=some due → due<deadline) ∧
        (w'.inflight=[] → Quiet latency w'))
    (hnew : ∀ f∈w'.completed, f∈w.completed ∨ ∀ r : PyRequestEntry f.entry, InHand latency w' f r)
    (hin : ∀ f : Finished, f.loop=l → ∀ r : PyRequestEntry f.entry, r.fields=f.item.2 →
      InHand latency w f r → Answered w' f r ∨ InHand latency w' f r) : DrainOk latency w' := by
  have hself : w'.hands l=hand := by rw [hhands,Function.update_self]
  have hother : ∀ l', l'≠l → w'.hands l'=w.hands l' := by
    intro l' hl
    rw [hhands,Function.update_of_ne hl]
  have hstopped : w'.stopped=w.stopped := by simp only [PyServer.stopped,hstop]
  refine ⟨fun l' => ?_,hnodup,fun l' => ?_,fun l' due hdue => ?_,fun f hf r hr => ?_,
    fun deadline hd => ⟨fun l' hl' due hdue => ?_,?_⟩,fun hx l' => ?_,fun hx l' => ?_⟩
  · by_cases hl : l'=l
    · rw [hl,hself]
      exact hs
    · rw [hother l' hl]
      exact hok.sendable l'
  · rw [hflight]
    by_cases hl : l'=l
    · simp [hl,hself]
    · simp [hl,hother l' hl,hok.flight]
  · rw [hnow]
    by_cases hl : l'=l
    · rw [hl,hself] at hdue
      exact htime due hdue
    · rw [hother l' hl] at hdue
      exact hok.time l' due hdue
  · rcases hnew f hf with hold | hnew
    · rcases hok.completed f hold r hr with h | h
      · exact .inl (h.mono hw ha)
      · by_cases hl : f.loop=l
        · exact hin f hl r hr h
        · exact .inr (h.mono (hother f.loop hl) hw)
    · exact .inr (hnew r)
  · rw [hstop] at hd
    rcases (hflight l').mp hl' with ⟨hl,hmem⟩ | ⟨rfl,hflying⟩
    · rw [hother l' hl] at hdue
      exact (hok.drain deadline hd).1 l' hmem due hdue
    · rw [hself] at hdue
      exact (hdrain deadline hd).1 hflying due hdue
  · rw [hstop] at hd
    exact (hdrain deadline hd).2
  · rw [hstopped] at hx
    by_cases hl : l'=l
    · rw [hl,hself,hcancelled]
      exact hok.alive hx l
    · rw [hother l' hl]
      exact hok.alive hx l'
  · rw [hstopped] at hx
    by_cases hl : l'=l
    · rw [hl,hself,hcancelled]
      exact hok.ended hx l
    · rw [hother l' hl]
      exact hok.ended hx l'

/- A step of a loop whose hand is in flight neither before nor after it. -/
theorem DrainOk.kept (hok : DrainOk latency w) (l : LoopId) (hand : Hand)
    (hhands : w'.hands=Function.update w.hands l hand) (hi : w'.inflight=w.inflight)
    (hc : w'.completed=w.completed) (hnow : w'.now=w.now) (hstop : w'.stop=w.stop)
    (hw : ∀ x∈w.written, x∈w'.written) (ha : ∀ x∈w.acked, x∈w'.acked)
    (hcancelled : hand.cancelled=(w.hands l).cancelled) (hs : SendableHand hand)
    (hbefore : (w.hands l).inFlight=false) (hafter : hand.inFlight=false)
    (htime : ∀ due, hand.due latency=some due → w.now ≤ due)
    (hin : ∀ f : Finished, f.loop=l → ∀ r : PyRequestEntry f.entry, r.fields=f.item.2 →
      InHand latency w f r → Answered w' f r ∨ InHand latency w' f r) : DrainOk latency w' := by
  have hout := hok.not_mem hbefore
  refine hok.moved l hand hhands hnow hstop hw ha hcancelled hs (by rw [hi]; exact hok.nodup)
    (fun l' => ?_) htime (fun deadline hd => ⟨fun hflying => ?_,fun hnil => ?_⟩) (fun f hf => ?_) hin
  · rw [hi,hafter]
    by_cases hl : l'=l
    · simp [hl,hout]
    · simp [hl]
  · rw [hafter] at hflying
    cases hflying
  · rw [hi] at hnil
    exact ((hok.drain deadline hd).2 hnil).mono hc (Nat.le_of_eq hnow.symm)
  · rw [hc] at hf
    exact .inl hf

theorem drainOk_loop (hok : DrainOk latency w) (l : LoopId) (ev : LoopEv) (pc : Pc)
    (hb : ev.isBetween=true) (hc : (w.hands l).cancelled=false)
    (hpc : Loop.step .py l.2 w.stopped ev (w.hands l).pc=some pc) :
    DrainOk latency (w.set l ⟨pc,.idle,false,w.now,false⟩) := by
  have hno : ∀ stage cur rest, (w.hands l).pc≠.handle stage cur rest := by
    intro stage cur rest heq
    rw [heq,between_handle _ _ _ _ _ _ hb] at hpc
    cases hpc
  refine hok.kept l _ rfl rfl rfl rfl rfl (fun _ hx => hx) (fun _ hx => hx) hc.symm
    (sendableHand_idle ..) (hand_between hno).2.1 (inFlight_idle ..)
    (fun due hdue => Hand.since_le_due (by simp) hdue) fun f hl r hr hin => ?_
  obtain ⟨stage,rest,performed,since,-,hhand⟩ := hin.finished
  rw [hl] at hhand
  exact (hno _ _ _ (by rw [hhand])).elim

theorem drainOk_enter (hok : DrainOk latency w) (l : LoopId) (entry : PyServiceEntry) (duration : ℕ)
    (cur : Item) (rest : List Item) (task : Task) (performed : Bool) (since : ℕ) (pc : Pc)
    (hhand : w.hands l=⟨.handle .start cur rest,task,performed,since,false⟩)
    (hpc : Loop.step .py l.2 w.stopped (.enter w.now) (.handle .start cur rest)=some pc)
    (hg : Punctual latency (.enter l entry duration) w) : DrainOk latency
      { w.set l ⟨pc,startTask entry cur.2 (w.now+duration),false,w.now,false⟩ with
        inflight := (startTask entry cur.2 (w.now+duration)).inflight l++w.inflight } := by
  obtain ⟨hsend,hshort⟩ := hg cur rest (by rw [hhand])
  have hc : false=(w.hands l).cancelled := by rw [hhand]
  have hbefore : (w.hands l).inFlight=false := by
    rw [hhand]
    rfl
  have hnone : ∀ f : Finished, f.loop=l → ∀ r : PyRequestEntry f.entry, ¬InHand latency w f r := by
    intro f hl r hin
    obtain ⟨stage,rest',performed',since',hstart,hhand'⟩ := hin.finished
    rw [hl,hhand] at hhand'
    cases hhand'
    exact hstart rfl
  rcases startTask_cases entry cur.2 (w.now+duration) with htask | htask | ⟨htask,replyTo,hi⟩
  · rw [htask]
    exact hok.kept l _ rfl rfl rfl rfl rfl (fun _ hx => hx) (fun _ hx => hx) hc
      (sendableHand_idle ..) hbefore (inFlight_idle ..)
      (fun due hdue => Hand.since_le_due (by simp) hdue) fun f hl r _ hin => (hnone f hl r hin).elim
  · rw [htask]
    exact hok.kept l _ rfl rfl rfl rfl rfl (fun _ hx => hx) (fun _ hx => hx) hc
      (sendableHand_early ..) hbefore (inFlight_early ..)
      (fun due hdue => Hand.since_le_due (by simp) hdue) fun f hl r _ hin => (hnone f hl r hin).elim
  · rw [Loop.step_handle] at hpc
    simp only [Stage.step,hi,Option.map_some,Pc.after,Option.some.injEq] at hpc
    subst hpc
    rw [htask]
    have hout := hok.not_mem hbefore
    refine hok.moved l _ rfl rfl rfl (fun _ hx => hx) (fun _ hx => hx) hc hsend
      (List.nodup_cons.mpr ⟨hout,hok.nodup⟩) (fun l' => ?_) (fun due hdue => ?_)
      (fun deadline hd => ⟨fun _ due hdue => ?_,fun hnil => ?_⟩) (fun _ hf => .inl hf)
      fun f hl r _ hin => (hnone f hl r hin).elim
    · by_cases hl : l'=l
      · simp [hl,Task.inflight,Hand.inFlight]
      · simp [hl,Task.inflight]
    · cases hdue
      exact Nat.le_add_right _ _
    · cases hdue
      exact hshort deadline hd htask
    · cases hnil

theorem drainOk_complete (hok : DrainOk latency w) (l : LoopId) (entered : ℕ) (cur : Item)
    (rest : List Item) (entry : PyServiceEntry) (ends : ℕ) (performed : Bool) (since : ℕ)
    (hhand : w.hands l=⟨.handle (.dispatch entered) cur rest,.running entry ends,performed,since,false⟩) :
    DrainOk latency
      { w.set l ⟨.handle (.dispatch entered) cur rest,.finished entry,performed,w.now,false⟩ with
        completed := w.completed++[⟨l,cur,entry,w.now⟩] } := by
  have hs := hok.sendable l
  rw [hhand] at hs
  have hmem : l∈w.inflight := by
    rw [hok.flight,hhand]
    rfl
  have hdue : (w.hands l).due latency=some ends := by
    rw [hhand]
    rfl
  have hends := hok.time l ends hdue
  refine hok.moved l _ rfl rfl rfl (fun _ hx => hx) (fun _ hx => hx) (by rw [hhand]) hs hok.nodup
    (fun l' => ?_) (fun due hdue => ?_) (fun deadline hd => ⟨fun _ due hdue' => ?_,fun hnil => ?_⟩)
    (fun f hf => ?_) fun f hl r hr hin => ?_
  · by_cases hl : l'=l
    · simp [hl,hmem,PyServer.set,Hand.inFlight]
    · simp [hl,PyServer.set]
  · cases hdue
    exact Nat.le_refl _
  · cases hdue'
    exact Nat.lt_of_le_of_lt hends ((hok.drain deadline hd).1 l hmem ends hdue)
  · exact (List.ne_nil_of_mem hmem hnil).elim
  · rcases List.mem_append.mp hf with hf | hf
    · exact .inl hf
    · obtain rfl := List.mem_singleton.mp hf
      exact .inr fun r => .dispatching entered rest performed (Function.update_self ..)
  · obtain ⟨stage,rest',performed',since',-,hhand'⟩ := hin.finished
    rw [hl,hhand] at hhand'
    cases hhand'

theorem sendable_after {entry : PyServiceEntry} {kind : LoopKind} {stopping : Bool} {entered now : ℕ}
    {cur : Item} {rest : List Item} {out : Settled Reply} {pc : Pc} (hs : Sendable entry cur.2)
    (hpc : Loop.step .py kind stopping (.settled out) (.handle (.dispatch entered) cur rest)=some pc) :
    SendableHand ⟨pc,(Task.finished entry).after pc,false,now,false⟩ := by
  unfold Task.after
  split
  · rw [step_cur _ _ _ _ _ _ _ _ _ _ (by simp) hpc]
    exact hs
  · rw [step_cur _ _ _ _ _ _ _ _ _ _ (by simp) hpc]
    exact hs
  · exact sendableHand_idle ..

theorem drainOk_resume (hok : DrainOk latency w) (l : LoopId) (entered : ℕ) (cur : Item)
    (rest : List Item) (entry : PyServiceEntry) (performed : Bool) (since : ℕ) (out : Settled Reply)
    (pc : Pc)
    (hhand : w.hands l=⟨.handle (.dispatch entered) cur rest,.finished entry,performed,since,false⟩)
    (hout : dispatch (.py entry) cur.2=some out)
    (hpc : Loop.step .py l.2 w.stopped (.settled out) (.handle (.dispatch entered) cur rest)=some pc)
    (hg : Outlasting latency (.resume l) w) : DrainOk latency
      { w.set l ⟨pc,(Task.finished entry).after pc,false,w.now,false⟩ with
        inflight := w.inflight.erase l } := by
  have hs := hok.sendable l
  rw [hhand] at hs
  have hmem : l∈w.inflight := by
    rw [hok.flight,hhand]
    rfl
  refine hok.moved l _ rfl rfl rfl (fun _ hx => hx) (fun _ hx => hx) (by rw [hhand])
    (sendable_after hs hpc) (hok.nodup.erase l) (fun l' => ?_)
    (fun due hdue => since_le_after pc false w.now _ hdue)
    (fun deadline hd => ⟨fun hflying => ?_,fun hnil => ?_⟩) (fun _ hf => .inl hf)
    fun f hl r hr hin => ?_
  · rw [hok.nodup.mem_erase_iff,inFlight_after]
    simp
  · rw [inFlight_after] at hflying
    cases hflying
  · have hlast : w.inflight=[l] := by
      have hperm := List.perm_cons_erase hmem
      dsimp only at hnil
      rw [hnil] at hperm
      exact List.perm_singleton.mp hperm
    exact (hg deadline hd hlast).mono rfl (Nat.le_refl _)
  · cases hin with
    | dispatching entered' rest' performed' hhand' =>
      rw [hl,hhand] at hhand'
      cases hhand'
      have hnow := hok.time l f.ended (by rw [hhand]; rfl)
      obtain ⟨out',d,hout',hreply,hstep⟩ := settled_step f.entry r (hs r hr)
      rw [hr,hout] at hout'
      cases hout'
      rw [Loop.step_handle,← hr,hstep entered] at hpc
      cases hpc
      refine .inr (.replying d rest false w.now ?_ hreply (by simp) hnow)
      rw [hl]
      exact Function.update_self ..
    | replying d rest' performed' since' hhand' =>
      rw [hl,hhand] at hhand'
      cases hhand'
    | acking d rest' since' hhand' =>
      rw [hl,hhand] at hhand'
      cases hhand'

theorem drainOk_resumeEarly (hok : DrainOk latency w) (l : LoopId) (entered : ℕ) (cur : Item)
    (rest : List Item) (entry : PyServiceEntry) (performed : Bool) (since : ℕ) (pc : Pc)
    (hhand : w.hands l=⟨.handle (.dispatch entered) cur rest,.early entry,performed,since,false⟩) :
    DrainOk latency { w.set l ⟨pc,(Task.early entry).after pc,false,w.now,false⟩ with
      inflight := w.inflight.erase l } := by
  have hbefore : (w.hands l).inFlight=false := by
    rw [hhand]
    rfl
  have hi : w.inflight.erase l=w.inflight := List.erase_of_not_mem (hok.not_mem hbefore)
  have hs : SendableHand ⟨pc,(Task.early entry).after pc,false,w.now,false⟩ := by
    unfold Task.after
    split
    · exact sendableHand_early ..
    · exact sendableHand_early ..
    · exact sendableHand_idle ..
  refine hok.kept l _ rfl hi rfl rfl rfl (fun _ hx => hx) (fun _ hx => hx) (by rw [hhand]) hs hbefore
    (inFlight_after ..) (fun due hdue => since_le_after pc false w.now _ hdue) fun f hl r hr hin => ?_
  obtain ⟨stage,rest',performed',since',-,hhand'⟩ := hin.finished
  rw [hl,hhand] at hhand'
  cases hhand'

theorem drainOk_replied (hok : DrainOk latency w) (l : LoopId) (replyTo : String) (envelope : Doc)
    (cur : Item) (rest : List Item) (task : Task) (since : ℕ) (cancelled : Bool)
    (hhand : w.hands l=⟨.handle (.reply replyTo envelope) cur rest,task,false,since,cancelled⟩) :
    DrainOk latency
      { w.set l ⟨.handle (.reply replyTo envelope) cur rest,task,true,since,cancelled⟩ with
        written := w.written++[(replyTo,envelope)] } := by
  have hs := hok.sendable l
  have htime := hok.time l
  rw [hhand] at hs htime
  refine hok.kept l _ rfl rfl rfl rfl rfl (fun x hx => List.mem_append_left _ hx) (fun _ hx => hx)
    (by rw [hhand]) hs (by rw [hhand]; rfl) rfl htime fun f hl r hr hin => ?_
  obtain ⟨rfl,rfl,rfl,rfl,hreply,-,hsoon⟩ := hin.at_reply (by rw [hl,hhand])
  refine .inr (.replying envelope rest true since ?_ hreply (fun _ => ?_) hsoon)
  · rw [hl]
    exact Function.update_self ..
  · exact List.mem_append_right _ (List.mem_singleton.mpr rfl)

theorem drainOk_acked (hok : DrainOk latency w) (l : LoopId) (cur : Item) (rest : List Item)
    (task : Task) (since : ℕ) (cancelled : Bool)
    (hhand : w.hands l=⟨.handle .ack cur rest,task,false,since,cancelled⟩) :
    DrainOk latency { w.set l ⟨.handle .ack cur rest,task,true,since,cancelled⟩ with
      acked := w.acked++[(l.1,cur.1)] } := by
  have hs := hok.sendable l
  have htime := hok.time l
  rw [hhand] at hs htime
  refine hok.kept l _ rfl rfl rfl rfl rfl (fun _ hx => hx) (fun x hx => List.mem_append_left _ hx)
    (by rw [hhand]) hs (by rw [hhand]; rfl) rfl htime fun f hl r hr hin => ?_
  obtain ⟨rfl,-,d,hreply,hwritten⟩ := hin.at_ack (by rw [hl,hhand])
  refine .inl ⟨?_,d,hwritten,hreply⟩
  rw [hl]
  exact List.mem_append_right _ (List.mem_singleton.mpr rfl)

theorem drainOk_replyAnswered (hok : DrainOk latency w) (l : LoopId) (replyTo : String)
    (envelope : Doc) (cur : Item) (rest : List Item) (task : Task) (since : ℕ)
    (hhand : w.hands l=⟨.handle (.reply replyTo envelope) cur rest,task,true,since,false⟩) :
    DrainOk latency (w.set l ⟨.handle .ack cur rest,task,false,w.now,false⟩) := by
  have hs := hok.sendable l
  rw [hhand] at hs
  refine hok.kept l _ rfl rfl rfl rfl rfl (fun _ hx => hx) (fun _ hx => hx) (by rw [hhand])
    (by cases task <;> exact hs) (by rw [hhand]; rfl) rfl (fun due hdue => ?_) fun f hl r hr hin => ?_
  · cases hdue
    exact Nat.le_add_right _ _
  · obtain ⟨rfl,rfl,rfl,-,hreply,hwritten,hsoon⟩ := hin.at_reply (by rw [hl,hhand])
    have hnow := hok.time l (since+latency) (by rw [hhand]; rfl)
    refine .inr (.acking envelope rest w.now ?_ hreply (hwritten rfl) (by omega))
    rw [hl]
    exact Function.update_self ..

theorem drainOk_ackAnswered (hok : DrainOk latency w) (l : LoopId) (cur : Item) (rest : List Item)
    (task : Task) (since : ℕ) (pc : Pc)
    (hhand : w.hands l=⟨.handle .ack cur rest,task,true,since,false⟩) :
    DrainOk latency (w.set l ⟨pc,.idle,false,w.now,false⟩) := by
  refine hok.kept l _ rfl rfl rfl rfl rfl (fun _ hx => hx) (fun _ hx => hx) (by rw [hhand])
    (sendableHand_idle ..) (by rw [hhand]; rfl) (inFlight_idle ..)
    (fun due hdue => Hand.since_le_due (by simp) hdue) fun f hl r hr hin => ?_
  obtain ⟨-,hp,-⟩ := hin.at_ack (by rw [hl,hhand])
  cases hp

theorem drainOk_tick (hok : DrainOk latency w) (d : ℕ) (hg : Punctual latency (.tick d) w) :
    DrainOk latency { w with now := w.now+d } where
  sendable := hok.sendable
  nodup := hok.nodup
  flight := hok.flight
  time := hg
  completed := hok.completed_same rfl rfl rfl rfl
  drain := fun deadline hd => ⟨(hok.drain deadline hd).1,
    fun hnil => ((hok.drain deadline hd).2 hnil).mono rfl (Nat.le_add_right _ _)⟩
  alive := hok.alive
  ended := hok.ended

theorem drainOk_stop (hok : DrainOk latency w) (graceMs : ℕ) (hs : w.stop=.uncalled)
    (hp : Punctual latency (.stop graceMs) w) (ho : Outlasting latency (.stop graceMs) w) :
    DrainOk latency { w with stop := .draining (w.now+graceMs) } where
  sendable := hok.sendable
  nodup := hok.nodup
  flight := hok.flight
  time := hok.time
  completed := hok.completed_same rfl rfl rfl rfl
  drain := by
    intro deadline hd
    cases hd
    exact ⟨hp,fun hnil => (ho hnil).mono rfl (Nat.le_refl _)⟩
  alive := fun _ => hok.alive (by simp only [PyServer.stopped,hs])
  ended := fun hx => by simp [PyServer.stopped] at hx

/- No handler is in flight where the drain ends: one that is would end before the deadline. -/
theorem DrainOk.drained (hok : DrainOk latency w) (deadline : ℕ) (hs : w.stop=.draining deadline)
    (hc : w.inflight=[] ∨ deadline ≤ w.now) : w.inflight=[] := by
  rcases hc with hnil | hlate
  · exact hnil
  · refine List.eq_nil_iff_forall_not_mem.mpr fun l hl => ?_
    have halive := hok.alive (by simp only [PyServer.stopped,hs]) l
    obtain ⟨due,hdue⟩ := Hand.inFlight_due latency halive ((hok.flight l).mp hl)
    have hnow := hok.time l due hdue
    have hbefore := (hok.drain deadline hs).1 l hl due hdue
    omega

theorem cancel_cancelled (hand : Hand) (h : hand.inFlight=false) : hand.cancel.cancelled=true := by
  unfold Hand.inFlight at h
  unfold Hand.cancel
  split at h
  · cases h
  · cases h
  · rename_i hrunning _
    split
    · rename_i hpc htask
      exact (hrunning _ _ _ _ _ hpc htask).elim
    · rfl

theorem drainOk_cancel (hok : DrainOk latency w) (deadline : ℕ) (hs : w.stop=.draining deadline)
    (hc : w.inflight=[] ∨ deadline ≤ w.now) :
    DrainOk latency { w with stop := .stopping,hands := fun l => (w.hands l).cancel } := by
  have hnil := hok.drained deadline hs hc
  have hquiet := (hok.drain deadline hs).2 hnil
  have hnone : ∀ l, (w.hands l).inFlight=false := by
    intro l
    rw [Bool.eq_false_iff,ne_eq,← hok.flight,hnil]
    exact List.not_mem_nil
  have hcancelled : ∀ l, (w.hands l).cancel.cancelled=true :=
    fun l => cancel_cancelled _ (hnone l)
  have hcancel : ∀ l, (w.hands l).cancel={ w.hands l with cancelled := true } := by
    intro l
    have hl := hcancelled l
    have halive := hok.alive (by simp only [PyServer.stopped,hs]) l
    unfold Hand.cancel at hl ⊢
    split
    · rename_i hpc htask
      simp only [hpc,htask,halive] at hl
      cases hl
    · rfl
  refine ⟨fun l => ?_,hok.nodup,fun l => ?_,fun l due hdue => ?_,fun f hf r hr => ?_,
    (fun d hd => by cases hd),(fun hx => by simp [PyServer.stopped] at hx),fun _ => hcancelled⟩
  · show SendableHand (w.hands l).cancel
    rw [hcancel]
    exact hok.sendable l
  · show l∈w.inflight ↔ (w.hands l).cancel.inFlight=true
    rw [hcancel]
    exact hok.flight l
  · have hl := hcancelled l
    simp only [Hand.due,hl,if_true] at hdue
    cases hdue
  · rcases hok.completed f hf r hr with ha | hin
    · exact .inl (ha.mono (fun _ hx => hx) fun _ hx => hx)
    · have hsoon := hin.soon hok.time
      have hlong := hquiet f hf r hr
      omega

theorem drainOk_finish (hok : DrainOk latency w) (hs : w.stop=.stopping) :
    DrainOk latency { w with stop := .returned } where
  sendable := hok.sendable
  nodup := hok.nodup
  flight := hok.flight
  time := hok.time
  completed := hok.completed_same rfl rfl rfl rfl
  drain := fun deadline hd => by cases hd
  alive := fun hx => by simp [PyServer.stopped] at hx
  ended := fun _ => hok.ended (by simp only [PyServer.stopped,hs])

theorem drainOk_step (a : DrainAct) (hok : DrainOk latency w)
    (hg : Punctual latency a w ∧ Outlasting latency a w) (h : drainStep a w=some w') :
    DrainOk latency w' := by
  cases drainStep_stepped h with
  | tick d => exact drainOk_tick hok d hg.1
  | loop l ev pc hb hc hpc => exact drainOk_loop hok l ev pc hb hc hpc
  | enter l entry duration cur rest task performed since pc hhand hpc =>
    exact drainOk_enter hok l entry duration cur rest task performed since pc hhand hpc hg.1
  | complete l entered cur rest entry ends performed since hhand =>
    exact drainOk_complete hok l entered cur rest entry ends performed since hhand
  | resume l entered cur rest task entry performed since out pc hhand ht hout hpc =>
    rcases ht with rfl | rfl
    · exact drainOk_resume hok l entered cur rest entry performed since out pc hhand hout hpc hg.2
    · exact drainOk_resumeEarly hok l entered cur rest entry performed since pc hhand
  | replied l replyTo envelope cur rest task since cancelled hhand =>
    exact drainOk_replied hok l replyTo envelope cur rest task since cancelled hhand
  | acked l cur rest task since cancelled hhand =>
    exact drainOk_acked hok l cur rest task since cancelled hhand
  | replyAnswered l replyTo envelope cur rest task since hhand =>
    exact drainOk_replyAnswered hok l replyTo envelope cur rest task since hhand
  | ackAnswered l cur rest task since pc hhand =>
    exact drainOk_ackAnswered hok l cur rest task since pc hhand
  | stop graceMs hs => exact drainOk_stop hok graceMs hs hg.1 hg.2
  | cancel deadline hs hc => exact drainOk_cancel hok deadline hs hc
  | abort l pc entry ends performed since hs hhand =>
    have hended := hok.ended (by simp only [PyServer.stopped,hs]) l
    rw [hhand] at hended
    cases hended
  | finish hs => exact drainOk_finish hok hs

end

end Clamator.Redis
