import Mathlib.Logic.Function.Basic
import Clamator.Base.Reach
import Clamator.Redis.PyLoops

/-!
# A Python server that is stopped (`RpcServerCore.stop`, `ServerRedisTransport.stop`)

`stop` waits until no handler is in flight or the grace period is over, and then cancels the
loops. A handler leaves the set of those in flight when its dispatcher goes on; the reply and
the ack are still to come, in the loop that is cancelled.
-/

namespace Clamator.Redis
open Clamator.Base Clamator.Protocol

abbrev LoopId := String × LoopKind

/-- The handler's task in a dispatch: none yet or none at all, one that the dispatcher awaits
and that ends at the given time, or one that has run to completion. The user code includes
how the handler ends. -/
inductive Task where
  | idle
  | early (entry : PyServiceEntry)
  | running (entry : PyServiceEntry) (ends : ℕ)
  | finished (entry : PyServiceEntry)

/-- A loop, the task of the entry in its hands, whether Redis has performed the command that
it awaits, since when it awaits, and whether it has ended in a `CancelledError`. -/
structure Hand where
  pc : Pc
  task : Task
  performed : Bool
  since : ℕ
  cancelled : Bool

structure Finished where
  loop : LoopId
  item : Item
  entry : PyServiceEntry
  ended : ℕ

inductive StopPc where
  | uncalled
  | draining (deadline : ℕ)
  | stopping
  | returned
  deriving DecidableEq

/-- A server that has been started. `written` are the replies that Redis holds; times are in ms. -/
structure PyServer where
  now : ℕ
  hands : LoopId → Hand
  inflight : List LoopId
  completed : List Finished
  written : List (String × Doc)
  acked : List (String × ℕ)
  stop : StopPc

namespace PyServer

/-- The transport's state is no longer `started`. -/
def stopped (w : PyServer) : Bool := match w.stop with
  | .stopping => true
  | .returned => true
  | _ => false

def set (w : PyServer) (l : LoopId) (hand : Hand) : PyServer :=
  { w with hands := Function.update w.hands l hand }

end PyServer

def startTask (entry : PyServiceEntry) (fields : List Bulk) (ends : ℕ) : Task :=
  match pyReadEntry fields with
  | .decoded (.request _ method _ params _) _ => task (handlerRun entry method params)
  | .decoded (.notification _ method _ params) _ => task (handlerRun entry method params)
  | .decoded _ _ => .early entry
  | _ => .idle
where
  task : Option (HandlerRun PyVal PyThrown) → Task
    | none => .early entry
    | some (.threw _) => .early entry
    | some _ => .running entry ends

def Task.inflight (l : LoopId) : Task → List LoopId
  | .running _ _ => [l]
  | _ => []

def Task.after (task : Task) : Pc → Task
  | .handle (.reply _ _) _ _ => task
  | .handle .ack _ _ => task
  | _ => .idle

/-- A cancelled loop ends, unless it awaits a handler that is running: the cancellation goes
to that. Redis may still perform the command that the loop awaited. -/
def Hand.cancel (hand : Hand) : Hand := match hand.pc,hand.task with
  | .handle (.dispatch _) _ _,.running _ _ => hand
  | _,_ => { hand with cancelled := true }

inductive DrainAct where
  | tick (d : ℕ)
  /-- A sleep or a read ends. -/
  | loop (l : LoopId) (ev : LoopEv)
  | enter (l : LoopId) (entry : PyServiceEntry) (duration : ℕ)
  /-- A handler ends. -/
  | complete (l : LoopId)
  /-- A dispatcher goes on. -/
  | resume (l : LoopId)
  /-- Redis performs a command. -/
  | perform (l : LoopId)
  | answered (l : LoopId)
  | stop (graceMs : ℕ)
  /-- `stop` is done waiting and cancels the loops. -/
  | cancel
  /-- A handler takes its cancellation. -/
  | abort (l : LoopId)
  | finish

def LoopEv.isBetween : LoopEv → Bool
  | .wake => true
  | .got _ => true
  | .readThrew => true
  | _ => false

def resumeWith (w : PyServer) (l : LoopId) (task : Task) (entry : PyServiceEntry) (pc : Pc)
    (cur : Item) : Option PyServer :=
  (dispatch (.py entry) cur.2).bind fun out =>
    (Loop.step .py l.2 w.stopped (.settled out) pc).map fun pc' =>
      { w.set l ⟨pc',task.after pc',false,w.now,false⟩ with inflight := w.inflight.erase l }

def drainStep (a : DrainAct) (w : PyServer) : Option PyServer := match a with
  | .tick d => some { w with now := w.now+d }
  | .loop l ev =>
    if ev.isBetween=true ∧ (w.hands l).cancelled=false then
      (Loop.step .py l.2 w.stopped ev (w.hands l).pc).map fun pc =>
        w.set l ⟨pc,.idle,false,w.now,false⟩
    else none
  | .enter l entry duration => match w.hands l with
    | ⟨.handle .start cur rest,_,_,_,false⟩ =>
      (Loop.step .py l.2 w.stopped (.enter w.now) (.handle .start cur rest)).map fun pc =>
        let task := startTask entry cur.2 (w.now+duration)
        { w.set l ⟨pc,task,false,w.now,false⟩ with inflight := task.inflight l++w.inflight }
    | _ => none
  | .complete l => match w.hands l with
    | ⟨.handle (.dispatch since) cur rest,.running entry ends,performed,_,false⟩ =>
      if ends ≤ w.now then
        some { w.set l ⟨.handle (.dispatch since) cur rest,.finished entry,performed,w.now,false⟩ with
          completed := w.completed++[⟨l,cur,entry,w.now⟩] }
      else none
    | _ => none
  | .resume l => match w.hands l with
    | ⟨.handle (.dispatch since) cur rest,.finished entry,_,_,false⟩ =>
      resumeWith w l (.finished entry) entry (.handle (.dispatch since) cur rest) cur
    | ⟨.handle (.dispatch since) cur rest,.early entry,_,_,false⟩ =>
      resumeWith w l (.early entry) entry (.handle (.dispatch since) cur rest) cur
    | _ => none
  | .perform l => match w.hands l with
    | ⟨.handle (.reply replyTo envelope) cur rest,task,false,since,cancelled⟩ =>
      some { w.set l ⟨.handle (.reply replyTo envelope) cur rest,task,true,since,cancelled⟩ with
        written := w.written++[(replyTo,envelope)] }
    | ⟨.handle .ack cur rest,task,false,since,cancelled⟩ =>
      some { w.set l ⟨.handle .ack cur rest,task,true,since,cancelled⟩ with
        acked := w.acked++[(l.1,cur.1)] }
    | _ => none
  | .answered l => match w.hands l with
    | ⟨.handle (.reply replyTo envelope) cur rest,task,true,_,false⟩ =>
      (Loop.step .py l.2 w.stopped (.replied true) (.handle (.reply replyTo envelope) cur rest)).map
        fun pc => w.set l ⟨pc,task,false,w.now,false⟩
    | ⟨.handle .ack cur rest,_,true,_,false⟩ =>
      (Loop.step .py l.2 w.stopped (.acked true) (.handle .ack cur rest)).map
        fun pc => w.set l ⟨pc,.idle,false,w.now,false⟩
    | _ => none
  | .stop graceMs => if w.stop=.uncalled then some { w with stop := .draining (w.now+graceMs) } else none
  | .cancel => match w.stop with
    | .draining deadline => if w.inflight=[] ∨ deadline ≤ w.now then
        some { w with stop := .stopping,hands := fun l => (w.hands l).cancel } else none
    | _ => none
  | .abort l => match w.stop,w.hands l with
    | .stopping,⟨pc,.running _ _,performed,since,false⟩ =>
      some { w.set l ⟨pc,.idle,performed,since,true⟩ with inflight := w.inflight.erase l }
    | _,_ => none
  | .finish => if w.stop=.stopping then some { w with stop := .returned } else none

/-! ### What a step does -/

inductive DrainStepped (w : PyServer) : DrainAct → PyServer → Prop
  | tick (d : ℕ) : DrainStepped w (.tick d) { w with now := w.now+d }
  | loop (l : LoopId) (ev : LoopEv) (pc : Pc) : ev.isBetween=true → (w.hands l).cancelled=false →
    Loop.step .py l.2 w.stopped ev (w.hands l).pc=some pc →
    DrainStepped w (.loop l ev) (w.set l ⟨pc,.idle,false,w.now,false⟩)
  | enter (l : LoopId) (entry : PyServiceEntry) (duration : ℕ) (cur : Item) (rest : List Item)
    (task : Task) (performed : Bool) (since : ℕ) (pc : Pc) :
    w.hands l=⟨.handle .start cur rest,task,performed,since,false⟩ →
    Loop.step .py l.2 w.stopped (.enter w.now) (.handle .start cur rest)=some pc →
    DrainStepped w (.enter l entry duration)
      { w.set l ⟨pc,startTask entry cur.2 (w.now+duration),false,w.now,false⟩ with
        inflight := (startTask entry cur.2 (w.now+duration)).inflight l++w.inflight }
  | complete (l : LoopId) (entered : ℕ) (cur : Item) (rest : List Item) (entry : PyServiceEntry)
    (ends : ℕ) (performed : Bool) (since : ℕ) :
    w.hands l=⟨.handle (.dispatch entered) cur rest,.running entry ends,performed,since,false⟩ →
    ends ≤ w.now → DrainStepped w (.complete l)
      { w.set l ⟨.handle (.dispatch entered) cur rest,.finished entry,performed,w.now,false⟩ with
        completed := w.completed++[⟨l,cur,entry,w.now⟩] }
  | resume (l : LoopId) (entered : ℕ) (cur : Item) (rest : List Item) (task : Task)
    (entry : PyServiceEntry) (performed : Bool) (since : ℕ) (out : Settled Reply) (pc : Pc) :
    w.hands l=⟨.handle (.dispatch entered) cur rest,task,performed,since,false⟩ →
    task=.finished entry ∨ task=.early entry → dispatch (.py entry) cur.2=some out →
    Loop.step .py l.2 w.stopped (.settled out) (.handle (.dispatch entered) cur rest)=some pc →
    DrainStepped w (.resume l)
      { w.set l ⟨pc,task.after pc,false,w.now,false⟩ with inflight := w.inflight.erase l }
  | replied (l : LoopId) (replyTo : String) (envelope : Doc) (cur : Item) (rest : List Item)
    (task : Task) (since : ℕ) (cancelled : Bool) :
    w.hands l=⟨.handle (.reply replyTo envelope) cur rest,task,false,since,cancelled⟩ →
    DrainStepped w (.perform l)
      { w.set l ⟨.handle (.reply replyTo envelope) cur rest,task,true,since,cancelled⟩ with
        written := w.written++[(replyTo,envelope)] }
  | acked (l : LoopId) (cur : Item) (rest : List Item) (task : Task) (since : ℕ) (cancelled : Bool) :
    w.hands l=⟨.handle .ack cur rest,task,false,since,cancelled⟩ →
    DrainStepped w (.perform l) { w.set l ⟨.handle .ack cur rest,task,true,since,cancelled⟩ with
      acked := w.acked++[(l.1,cur.1)] }
  | replyAnswered (l : LoopId) (replyTo : String) (envelope : Doc) (cur : Item) (rest : List Item)
    (task : Task) (since : ℕ) :
    w.hands l=⟨.handle (.reply replyTo envelope) cur rest,task,true,since,false⟩ →
    DrainStepped w (.answered l) (w.set l ⟨.handle .ack cur rest,task,false,w.now,false⟩)
  | ackAnswered (l : LoopId) (cur : Item) (rest : List Item) (task : Task) (since : ℕ) (pc : Pc) :
    w.hands l=⟨.handle .ack cur rest,task,true,since,false⟩ →
    pc=l.2.batch w.stopped rest → DrainStepped w (.answered l) (w.set l ⟨pc,.idle,false,w.now,false⟩)
  | stop (graceMs : ℕ) : w.stop=.uncalled →
    DrainStepped w (.stop graceMs) { w with stop := .draining (w.now+graceMs) }
  | cancel (deadline : ℕ) : w.stop=.draining deadline → w.inflight=[] ∨ deadline ≤ w.now →
    DrainStepped w .cancel { w with stop := .stopping,hands := fun l => (w.hands l).cancel }
  | abort (l : LoopId) (pc : Pc) (entry : PyServiceEntry) (ends : ℕ) (performed : Bool) (since : ℕ) :
    w.stop=.stopping → w.hands l=⟨pc,.running entry ends,performed,since,false⟩ →
    DrainStepped w (.abort l)
      { w.set l ⟨pc,.idle,performed,since,true⟩ with inflight := w.inflight.erase l }
  | finish : w.stop=.stopping → DrainStepped w .finish { w with stop := .returned }

theorem resumeWith_stepped {w w' : PyServer} {l : LoopId} {entered : ℕ} {cur : Item} {rest : List Item}
    {task : Task} {entry : PyServiceEntry} {performed : Bool} {since : ℕ}
    (hhand : w.hands l=⟨.handle (.dispatch entered) cur rest,task,performed,since,false⟩)
    (ht : task=.finished entry ∨ task=.early entry)
    (h : resumeWith w l task entry (.handle (.dispatch entered) cur rest) cur=some w') :
    DrainStepped w (.resume l) w' := by
  obtain ⟨out,hout,h⟩ := Option.bind_eq_some_iff.mp h
  obtain ⟨pc,hpc,rfl⟩ := Option.map_eq_some_iff.mp h
  exact .resume l entered cur rest task entry performed since out pc hhand ht hout hpc

theorem drainStep_stepped {a : DrainAct} {w w' : PyServer} (h : drainStep a w=some w') :
    DrainStepped w a w' := by
  cases a with
  | tick d =>
    cases h
    exact .tick d
  | loop l ev =>
    simp only [drainStep] at h
    split at h
    · rename_i hb
      obtain ⟨pc,hpc,rfl⟩ := Option.map_eq_some_iff.mp h
      exact .loop l ev pc hb.1 hb.2 hpc
    · cases h
  | enter l entry duration =>
    simp only [drainStep] at h
    split at h
    · rename_i cur rest task performed since hhand
      obtain ⟨pc,hpc,rfl⟩ := Option.map_eq_some_iff.mp h
      exact .enter l entry duration cur rest task performed since pc hhand hpc
    · cases h
  | complete l =>
    simp only [drainStep] at h
    split at h
    · rename_i entered cur rest entry ends performed since hhand
      split at h
      · rename_i hends
        cases h
        exact .complete l entered cur rest entry ends performed since hhand hends
      · cases h
    · cases h
  | resume l =>
    simp only [drainStep] at h
    split at h
    · rename_i hhand
      exact resumeWith_stepped hhand (.inl rfl) h
    · rename_i hhand
      exact resumeWith_stepped hhand (.inr rfl) h
    · cases h
  | perform l =>
    simp only [drainStep] at h
    split at h
    · rename_i replyTo envelope cur rest task since cancelled hhand
      cases h
      exact .replied l replyTo envelope cur rest task since cancelled hhand
    · rename_i cur rest task since cancelled hhand
      cases h
      exact .acked l cur rest task since cancelled hhand
    · cases h
  | answered l =>
    simp only [drainStep] at h
    split at h
    · rename_i replyTo envelope cur rest task since hhand
      obtain ⟨pc,hpc,rfl⟩ := Option.map_eq_some_iff.mp h
      cases hpc
      exact .replyAnswered l replyTo envelope cur rest task since hhand
    · rename_i cur rest task since hhand
      obtain ⟨pc,hpc,rfl⟩ := Option.map_eq_some_iff.mp h
      exact .ackAnswered l cur rest task since pc hhand (Option.some.inj hpc).symm
    · cases h
  | stop graceMs =>
    simp only [drainStep] at h
    split at h
    · rename_i hs
      cases h
      exact .stop graceMs hs
    · cases h
  | cancel =>
    simp only [drainStep] at h
    split at h
    · rename_i deadline hs
      split at h
      · rename_i hc
        cases h
        exact .cancel deadline hs hc
      · cases h
    · cases h
  | abort l =>
    simp only [drainStep] at h
    split at h
    · rename_i pc entry ends performed since hs hhand
      cases h
      exact .abort l pc entry ends performed since hs hhand
    · cases h
  | finish =>
    simp only [drainStep] at h
    split at h
    · rename_i hs
      cases h
      exact .finish hs
    · cases h

def DrainAct.loop? : DrainAct → Option LoopId
  | .loop l _ => some l
  | .enter l _ _ => some l
  | .complete l => some l
  | .resume l => some l
  | .perform l => some l
  | .answered l => some l
  | .abort l => some l
  | _ => none

theorem drainStep_other (a : DrainAct) (w w' : PyServer) (l : LoopId) (h : drainStep a w=some w')
    (hl : a.loop?≠some l) : w'.hands l=w.hands l ∨ w'.hands l=(w.hands l).cancel := by
  have hne : ∀ l', a.loop?=some l' → l≠l' := fun l' ha heq => hl (heq ▸ ha)
  cases drainStep_stepped h with
  | tick => exact .inl rfl
  | stop => exact .inl rfl
  | finish => exact .inl rfl
  | cancel => exact .inr rfl
  | _ => exact .inl (Function.update_of_ne (hne _ rfl) ..)

end Clamator.Redis
