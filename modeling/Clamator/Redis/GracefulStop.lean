import Clamator.Redis.Draining

/-!
# What a graceful stop needs

A stop leaves every completed request answered and acked where the drain outlasts the replies:
the in-flight set runs empty only when every request's handler has ended longer ago than the
two commands of its reply take. Then, where the handlers end within the grace period and Redis
answers in time, each loop that is cancelled has nothing left to send.
-/

namespace Clamator.Redis
open Clamator.Base Clamator.Protocol

/-- Once `stop` has returned, every request whose handler has run to completion is answered. -/
def Graceful (w : PyServer) : Prop := w.stop=.returned → ∀ f∈w.completed, ∀ r : PyRequestEntry f.entry,
  r.fields=f.item.2 → Answered w f r

section
variable {latency : ℕ} {w : PyServer}

/-- Started, with no entry in hand, and not stopped yet. -/
structure PyServer.Fresh (w : PyServer) : Prop where
  hands : ∀ l stage cur rest, (w.hands l).pc≠.handle stage cur rest
  alive : ∀ l, (w.hands l).cancelled=false
  inflight : w.inflight=[]
  completed : w.completed=[]
  stop : w.stop=.uncalled

theorem drainOk_fresh (h : w.Fresh) : DrainOk latency w := by
  have hbetween := fun l => hand_between (h.hands l)
  refine ⟨fun l => (hbetween l).1,by rw [h.inflight]; exact List.nodup_nil,fun l => ?_,
    fun l due hdue => ?_,fun f hf => ?_,fun deadline hd => ?_,fun _ => h.alive,fun hx => ?_⟩
  · rw [h.inflight,(hbetween l).2.1]
    simp
  · rw [(hbetween l).2.2] at hdue
    cases hdue
  · rw [h.completed] at hf
    cases hf
  · rw [h.stop] at hd
    cases hd
  · simp [PyServer.stopped,h.stop] at hx

theorem DrainOk.graceful (hok : DrainOk latency w) : Graceful w := by
  intro hstop f hf r hr
  rcases hok.completed f hf r hr with ha | hin
  · exact ha
  · obtain ⟨stage,rest,performed,since,-,hhand⟩ := hin.finished
    have hended := hok.ended (by simp only [PyServer.stopped,hstop]) f.loop
    rw [hhand] at hended
    cases hended

end

/-- A stop is graceful in every run in which handlers in flight end within the grace period and
Redis answers in time, and the drain outlasts the replies. -/
theorem graceful_stop (latency : ℕ) (acts : List DrainAct) (w0 : PyServer) (h0 : w0.Fresh)
    (hg : Guarded drainStep (fun a w => Punctual latency a w ∧ Outlasting latency a w) acts w0) :
    ∀ w∈states drainStep acts w0, Graceful w := by
  intro w hw
  have hok := states_invariant (I := DrainOk latency)
    (fun a w w' hok ho hstep => drainOk_step a hok ho hstep) acts w0 (drainOk_fresh h0) hg w hw
  exact hok.graceful

/-! ### Conditions that can be run -/

def asks (fields : List Bulk) : Bool := match pyReadEntry fields with
  | .decoded (.request _ _ _ _ _) (some _) => true
  | _ => false

def quietly (latency : ℕ) (w : PyServer) : Bool :=
  w.completed.all fun f => !asks f.item.2 || decide (f.ended+2*latency<w.now)

def outlasts (latency : ℕ) : DrainAct → PyServer → Bool
  | .resume l,w => w.inflight != [l] || quietly latency w
  | .stop _,w => w.inflight != [] || quietly latency w
  | _,_ => true

/-- `Punctual`, but for what can be sent, where no other loops than the listed ones move. -/
def punctuates (ls : List LoopId) (latency : ℕ) : DrainAct → PyServer → Bool
  | .tick d,w => ls.all fun l => ((w.hands l).due latency).all (w.now+d ≤ ·)
  | .enter _ _ duration,w => match w.stop with
    | .draining deadline => w.now+duration<deadline
    | _ => true
  | .stop graceMs,w => w.inflight.all fun l => ((w.hands l).due latency).all (· < w.now+graceMs)
  | _,_ => true

theorem quiet_of_quietly {latency : ℕ} {w : PyServer} (h : quietly latency w=true) :
    Quiet latency w := by
  intro f hf r hr
  have hasks : asks f.item.2=true := by simp only [asks,← hr,r.decodes]
  have hlong := List.all_eq_true.mp h f hf
  simpa [hasks] using hlong

theorem outlasting_of_outlasts {latency : ℕ} {a : DrainAct} {w : PyServer}
    (h : outlasts latency a w=true) : Outlasting latency a w := by
  cases a with
  | resume l =>
    intro deadline _ hlast
    simp only [outlasts,hlast,bne_self_eq_false,Bool.false_or] at h
    exact quiet_of_quietly h
  | stop graceMs =>
    intro hnil
    simp only [outlasts,hnil,bne_self_eq_false,Bool.false_or] at h
    exact quiet_of_quietly h
  | _ => trivial

theorem due_cancel {latency : ℕ} {hand : Hand} (h : hand.due latency=none) :
    hand.cancel.due latency=none := by
  unfold Hand.cancel
  split
  · exact h
  · simp only [Hand.due,if_true]

/- A loop that does not move awaits nothing. -/
theorem run_due {latency : ℕ} {l : LoopId} (acts : List DrainAct) (w w' : PyServer)
    (h : run drainStep acts w=some w') (hl : ∀ a∈acts, a.loop?≠some l)
    (hw : (w.hands l).due latency=none) : (w'.hands l).due latency=none := by
  induction acts generalizing w with
  | nil =>
    cases h
    exact hw
  | cons a acts ih =>
    obtain ⟨w1,hstep,hrun⟩ := Option.bind_eq_some_iff.mp h
    refine ih w1 hrun (fun b hb => hl b (List.mem_cons_of_mem _ hb)) ?_
    rcases drainStep_other a w w1 l hstep (hl a List.mem_cons_self) with hsame | hcancel
    · rw [hsame]
      exact hw
    · rw [hcancel]
      exact due_cancel hw

theorem punctual_of_punctuates {latency : ℕ} (ls : List LoopId) {acts : List DrainAct} {w0 : PyServer}
    (hloops : acts.all (fun a => a.loop?.all fun l => decide (l∈ls))=true) (h0 : ∀ l, (w0.hands l).due latency=none)
    (hsend : ∀ l entry duration, DrainAct.enter l entry duration∈acts → ∀ fields, Sendable entry fields)
    (hg : Guarded drainStep (fun a w => punctuates ls latency a w=true) acts w0) :
    Guarded drainStep (Punctual latency) acts w0 := by
  refine (guarded_iff acts w0).mpr fun before a after t u hsplit hrun hstep => ?_
  have hcheck := (guarded_iff acts w0).mp hg before a after t u hsplit hrun hstep
  cases a with
  | tick d =>
    intro l due hdue
    by_cases hl : l∈ls
    · have hall := List.all_eq_true.mp hcheck l hl
      simpa [hdue] using hall
    · have hstill : ∀ b∈before, b.loop?≠some l := by
        intro b hb heq
        have hb' := List.all_eq_true.mp hloops b (by simp [hsplit,hb])
        simp [heq,hl] at hb'
      rw [run_due before w0 t hrun hstill (h0 l)] at hdue
      cases hdue
  | enter l entry duration =>
    intro cur rest _
    refine ⟨hsend l entry duration (by simp [hsplit]) cur.2,fun deadline hd _ => ?_⟩
    simpa [punctuates,hd] using hcheck
  | stop graceMs =>
    intro l hl due hdue
    have hall := List.all_eq_true.mp hcheck l hl
    simpa [hdue] using hall
  | _ => trivial

/-! ### Two stops -/

def okEntry : PyServiceEntry :=
  ⟨⟨"arith",[("add",⟨.valid,some fun v => .valid (some v),"add"⟩),("note",⟨.valid,none,"note"⟩)]⟩,
    fun _ => some fun _ => .resolved (Py.str "ok")⟩

def noteFields : List Bulk :=
  [⟨"type",none,true⟩,⟨"rpc",none,true⟩,⟨"envelope",none,true⟩,
    ⟨"\x7b\"jsonrpc\":\"2.0\",\"method\":\"arith.note\",\"params\":\x7b\x7d\x7d",
      some (.obj [("jsonrpc",.leaf (.str "2.0")),("method",.leaf (.str "arith.note")),
        ("params",.obj [])]),true⟩]

def readingServer : PyServer where
  now := 0
  hands := fun l => ⟨l.2.top false,.idle,false,0,false⟩
  inflight := []
  completed := []
  written := []
  acked := []
  stop := .uncalled

theorem readingServer_fresh : readingServer.Fresh := by
  refine ⟨?_,fun _ => rfl,rfl,rfl,rfl⟩
  rintro ⟨service,kind⟩ stage cur rest h
  cases kind <;> cases h

theorem readingServer_due (l : LoopId) (latency : ℕ) : (readingServer.hands l).due latency=none := by
  exact (hand_between (readingServer_fresh.hands l)).2.2 latency

theorem ok_sendable (fields : List Bulk) : Sendable okEntry fields := by
  rintro ⟨fields,service,method,fullMethod,params,id,replyTo,m,decodes,declared,isMethod⟩ _
  have hm : m=⟨.valid,some fun v => .valid (some v),"add"⟩ ∨ m=⟨.valid,none,"note"⟩ := by
    have hmem := Assoc.mem_of_lookup declared
    simp only [okEntry,List.mem_cons,Prod.mk.injEq,List.not_mem_nil,or_false] at hmem
    exact hmem.imp And.right And.right
  rcases hm with rfl | rfl
  · exact ⟨.leaf (.str "ok"),rfl,rfl⟩
  · cases isMethod

def reader : LoopId := ("arith",.consumer)

def reclaimer : LoopId := ("arith",.reclaim)

/-- A request of 100 ms, and a reclaimed notification of 300 ms: the drain outlasts the reply. -/
def outlastingRun : List DrainAct :=
  [.loop reader (.got [(1,addFields)]),.loop reclaimer .wake,.loop reclaimer (.got [(0,noteFields)]),
    .enter reader okEntry 100,.enter reclaimer okEntry 300,.stop 5000,.tick 100,.complete reader,
    .resume reader,.tick 20,.perform reader,.answered reader,.tick 20,.perform reader,.answered reader,
    .tick 160,.complete reclaimer,.resume reclaimer,.cancel,.finish]

/-- The same request alone: its handler is the last in flight, and `stop` cancels its loop
before the XACK. -/
def unansweredRun : List DrainAct :=
  [.loop reader (.got [(1,addFields)]),.enter reader okEntry 100,.stop 5000,.tick 100,
    .complete reader,.resume reader,.perform reader,.cancel,.finish]

theorem runs_sendable {l : LoopId} {entry : PyServiceEntry} {duration : ℕ}
    (h : DrainAct.enter l entry duration∈outlastingRun++unansweredRun) (fields : List Bulk) :
    Sendable entry fields := by
  simp only [outlastingRun,unansweredRun,List.cons_append,List.nil_append,List.mem_cons,
    DrainAct.enter.injEq,reduceCtorEq,List.not_mem_nil,false_or,or_false] at h
  rcases h with ⟨_,rfl,_⟩ | ⟨_,rfl,_⟩ | ⟨_,rfl,_⟩
  all_goals exact ok_sendable fields

theorem graceful_stop_outlasting : ∃ w, run drainStep outlastingRun readingServer=some w ∧
    w.stop=.returned ∧ w.completed.length=2 ∧ w.acked=[("arith",1)] ∧ Graceful w := by
  have hrun : (run drainStep outlastingRun readingServer).map
      (fun w => (w.stop,w.completed.length,w.acked))=some (.returned,2,[("arith",1)]) := by
    decide +kernel
  obtain ⟨w,hw,hfacts⟩ := Option.map_eq_some_iff.mp hrun
  simp only [Prod.mk.injEq] at hfacts
  have hpunctual : Guarded drainStep (Punctual 50) outlastingRun readingServer :=
    punctual_of_punctuates [reader,reclaimer] (by decide +kernel) (fun l => readingServer_due l 50)
      (fun l entry duration h => runs_sendable (List.mem_append_left _ h)) (by decide +kernel)
  have houtlasts : Guarded drainStep (fun a w => outlasts 50 a w=true) outlastingRun readingServer := by
    decide +kernel
  refine ⟨w,hw,hfacts.1,hfacts.2.1,hfacts.2.2,graceful_stop 50 outlastingRun _ readingServer_fresh ?_ w
    (run_mem_states _ _ _ _ hw)⟩
  refine (guarded_iff _ _).mpr fun before a after t u hsplit hbefore hstep => ?_
  exact ⟨(guarded_iff _ _).mp hpunctual before a after t u hsplit hbefore hstep,
    outlasting_of_outlasts ((guarded_iff _ _).mp houtlasts before a after t u hsplit hbefore hstep)⟩

/-- The handler ends within the grace period, Redis answers in time and the reply is written; but
the entry is not acked, and is executed once more when it is reclaimed. -/
theorem completed_unacked : Guarded drainStep (Punctual 50) unansweredRun readingServer ∧
    ∃ w, run drainStep unansweredRun readingServer=some w ∧ w.stop=.returned ∧ w.completed.length=1 ∧
      w.acked=[] ∧ ¬Graceful w := by
  have hrun : (run drainStep unansweredRun readingServer).isSome := rfl
  have hpunctual : Guarded drainStep (Punctual 50) unansweredRun readingServer :=
    punctual_of_punctuates [reader] (by decide +kernel) (fun l => readingServer_due l 50)
      (fun l entry duration h => runs_sendable (List.mem_append_right _ h)) (by decide +kernel)
  refine ⟨hpunctual,_,(Option.some_get hrun).symm,rfl,rfl,rfl,fun hg => ?_⟩
  have hf := hg rfl ⟨reader,(1,addFields),okEntry,100⟩ (List.mem_singleton.mpr rfl)
    ⟨addFields,"arith","add","arith.add",.obj [],Py.str "1","clamator:replies:c1",_,rfl,rfl,rfl⟩ rfl
  exact List.not_mem_nil hf.1

end Clamator.Redis
