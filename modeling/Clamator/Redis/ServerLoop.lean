import Clamator.Redis.Entry
import Clamator.Protocol.ServerCorePy

/-!
# The server's loops (`runConsumerLoop`, `runReclaimLoop`, `handleEntry`)

Each service has a consumer loop and a reclaim loop. Both read a batch of entries
and hand them to `handleEntry` one by one, inside one `try` block around the whole
batch. `Loop.step` is such a loop between its awaits, the same for both kinds and
both languages but for where an iteration starts: with a read, or with a sleep.
-/

namespace Clamator.Redis
open Clamator.Base Clamator.Protocol

inductive Lang where
  | ts
  | py
  deriving DecidableEq

inductive LoopKind where
  | consumer
  | reclaim
  deriving DecidableEq

abbrev Item := ℕ × List Bulk

inductive Reply where
  | js (v : JsVal)
  | py (v : PyVal)

/- `JSON.stringify(reply)`, `json.dumps(reply)`; `none` where it throws. -/
def Reply.text : Reply → Option Doc
  | .js v => match jsonStringify v with
    | .keep d => some d
    | _ => none
  | .py v => jsonDumps v

inductive UserCode where
  | ts (entry : ServiceEntry)
  | py (entry : PyServiceEntry)

def UserCode.lang : UserCode → Lang
  | .ts _ => .ts
  | .py _ => .py

def UserCode.service : UserCode → String
  | .ts entry => entry.contract.service
  | .py entry => entry.contract.service

/-- What `handleEntry` does with an entry before it dispatches: ack it unread, throw,
or go on with the stream to reply to. -/
inductive Inspection where
  | ack
  | throw
  | dispatch (replyTo : Option String)

def Reading.inspection {V : Type} : Reading V → Inspection
  | .missing => .ack
  | .poison => .ack
  | .raised => .throw
  | .decoded _ replyTo => .dispatch replyTo

theorem Reading.inspection_dispatch {V : Type} {r : Reading V} {replyTo : Option String}
    (h : r.inspection=.dispatch replyTo) : ∃ env, r=.decoded env replyTo := by
  cases r with
  | decoded env replyTo' =>
    cases h
    exact ⟨env,rfl⟩
  | _ => cases h

def inspect : Lang → List Bulk → Inspection
  | .ts,fields => (readEntry fields).inspection
  | .py,fields => (pyReadEntry fields).inspection

def Settled.map {V W : Type} (f : V → W) : Settled V → Settled W
  | .returned reply => .returned (reply.map f)
  | .rejected => .rejected
  | .cancelled => .cancelled

def dispatch (user : UserCode) (fields : List Bulk) : Option (Settled Reply) := match user with
  | .ts entry => match readEntry fields with
    | .decoded env _ => some (Settled.map .js (dispatcher (some entry) env).settled)
    | _ => none
  | .py entry => match pyReadEntry fields with
    | .decoded env _ => some (Settled.map .py (pyDispatcher (some entry) env).settled)
    | _ => none

theorem dispatch_inspected {user : UserCode} {fields : List Bulk} {out : Settled Reply}
    (h : dispatch user fields=some out) : ∃ replyTo, inspect user.lang fields=.dispatch replyTo := by
  cases user with
  | ts entry =>
    simp only [dispatch] at h
    split at h
    · rename_i env replyTo hread
      exact ⟨replyTo,by simp only [UserCode.lang,inspect,hread,Reading.inspection]⟩
    · cases h
  | py entry =>
    simp only [dispatch] at h
    split at h
    · rename_i env replyTo hread
      exact ⟨replyTo,by simp only [UserCode.lang,inspect,hread,Reading.inspection]⟩
    · cases h

/-! ### handleEntry -/

/-- The await that `handleEntry` stands at. -/
inductive Stage where
  | start
  /-- the dispatcher, called at the given time -/
  | dispatch (since : ℕ)
  /-- the XADD of the reply -/
  | reply (replyTo : String) (envelope : Doc)
  /-- the XACK -/
  | ack

inductive LoopEv where
  | wake
  | got (batch : List Item)
  | readThrew
  /-- `handleEntry` is called. -/
  | enter (now : ℕ)
  | settled (out : Settled Reply)
  | replied (ok : Bool)
  | acked (ok : Bool)

inductive Progress where
  | stage (s : Stage)
  | returned
  | threw
  | cancelled

def Stage.step (lang : Lang) (fields : List Bulk) : LoopEv → Stage → Option Progress
  | .enter now,.start => some (match inspect lang fields with
    | .ack => .stage .ack
    | .throw => .threw
    | .dispatch _ => .stage (.dispatch now))
  | .settled out,.dispatch _ => some (match out with
    | .rejected => .threw
    | .cancelled => .cancelled
    | .returned answer => match inspect lang fields,answer with
      | .dispatch (some replyTo),some answer => match answer.text with
        | some envelope => .stage (.reply replyTo envelope)
        | none => .threw
      | _,_ => .stage .ack)
  | .replied ok,.reply _ _ => some (if ok then .stage .ack else .threw)
  | .acked ok,.ack => some (if ok then .returned else .threw)
  | _,_ => none

/-- The awaits of `handleEntry` that end, each with what comes of it. -/
inductive Stage.Stepped (lang : Lang) (fields : List Bulk) : LoopEv → Stage → Progress → Prop
  | skipped (now : ℕ) : inspect lang fields=.ack →
    Stage.Stepped lang fields (.enter now) .start (.stage .ack)
  | unreadable (now : ℕ) : inspect lang fields=.throw →
    Stage.Stepped lang fields (.enter now) .start .threw
  | dispatched (now : ℕ) (replyTo : Option String) : inspect lang fields=.dispatch replyTo →
    Stage.Stepped lang fields (.enter now) .start (.stage (.dispatch now))
  | rejected (since : ℕ) : Stage.Stepped lang fields (.settled .rejected) (.dispatch since) .threw
  | cancelled (since : ℕ) :
    Stage.Stepped lang fields (.settled .cancelled) (.dispatch since) .cancelled
  | answered (since : ℕ) (replyTo : String) (answer : Reply) (envelope : Doc) :
    inspect lang fields=.dispatch (some replyTo) → answer.text=some envelope →
    Stage.Stepped lang fields (.settled (.returned (some answer))) (.dispatch since)
      (.stage (.reply replyTo envelope))
  | unsendable (since : ℕ) (replyTo : String) (answer : Reply) :
    inspect lang fields=.dispatch (some replyTo) → answer.text=none →
    Stage.Stepped lang fields (.settled (.returned (some answer))) (.dispatch since) .threw
  | unanswered (since : ℕ) (answer : Option Reply) :
    (∀ replyTo reply, inspect lang fields=.dispatch (some replyTo) → answer≠some reply) →
    Stage.Stepped lang fields (.settled (.returned answer)) (.dispatch since) (.stage .ack)
  | replied (replyTo : String) (envelope : Doc) :
    Stage.Stepped lang fields (.replied true) (.reply replyTo envelope) (.stage .ack)
  | replyFailed (replyTo : String) (envelope : Doc) :
    Stage.Stepped lang fields (.replied false) (.reply replyTo envelope) .threw
  | acked : Stage.Stepped lang fields (.acked true) .ack .returned
  | ackFailed : Stage.Stepped lang fields (.acked false) .ack .threw

theorem Stage.step_stepped {lang : Lang} {fields : List Bulk} {ev : LoopEv} {stage : Stage}
    {progress : Progress} (h : stage.step lang fields ev=some progress) :
    Stage.Stepped lang fields ev stage progress := by
  unfold Stage.step at h
  split at h
  · rename_i now
    cases hi : inspect lang fields with
    | ack =>
      simp only [hi,Option.some.injEq] at h
      subst h
      exact .skipped now hi
    | throw =>
      simp only [hi,Option.some.injEq] at h
      subst h
      exact .unreadable now hi
    | dispatch replyTo =>
      simp only [hi,Option.some.injEq] at h
      subst h
      exact .dispatched now replyTo hi
  · rename_i out since
    cases out with
    | rejected =>
      cases h
      exact .rejected since
    | cancelled =>
      cases h
      exact .cancelled since
    | returned answer =>
      simp only [Option.some.injEq] at h
      split at h
      · rename_i replyTo reply hi
        split at h
        · rename_i envelope ht
          subst h
          exact .answered since replyTo reply envelope hi ht
        · rename_i ht
          subst h
          exact .unsendable since replyTo reply hi ht
      · rename_i hno
        subst h
        exact .unanswered since _ hno
  · rename_i ok replyTo envelope
    cases ok with
    | true =>
      cases h
      exact .replied replyTo envelope
    | false =>
      cases h
      exact .replyFailed replyTo envelope
  · rename_i ok
    cases ok with
    | true =>
      cases h
      exact .acked
    | false =>
      cases h
      exact .ackFailed
  · cases h

/-! ### The loops -/

/-- Where a loop stands: in its sleep, at its read, in `handleEntry` on the first entry
of what is left of its batch, or gone. -/
inductive Pc where
  | sleep
  | poll
  | handle (stage : Stage) (cur : Item) (rest : List Item)
  | exited

def LoopKind.top (kind : LoopKind) (stopping : Bool) : Pc :=
  if stopping then .exited else match kind with
    | .consumer => .poll
    | .reclaim => .sleep

def LoopKind.batch (kind : LoopKind) (stopping : Bool) : List Item → Pc
  | [] => kind.top stopping
  | cur::rest => .handle .start cur rest

/-- The `catch` block, up to its sleep or the next iteration's. -/
def Pc.caught (stopping : Bool) : Pc := if stopping then .exited else .sleep

def Pc.after (kind : LoopKind) (stopping : Bool) (cur : Item) (rest : List Item) : Progress → Pc
  | .stage stage => .handle stage cur rest
  | .returned => kind.batch stopping rest
  | .threw => .caught stopping
  | .cancelled => .exited

def Loop.step (lang : Lang) (kind : LoopKind) (stopping : Bool) : LoopEv → Pc → Option Pc
  | .wake,.sleep => some (if stopping then .exited else .poll)
  | .got batch,.poll => some (kind.batch stopping batch)
  | .readThrew,.poll => some (.caught stopping)
  | ev,.handle stage cur rest => (stage.step lang cur.2 ev).map (.after kind stopping cur rest)
  | _,_ => none

theorem Loop.step_handle (lang : Lang) (kind : LoopKind) (stopping : Bool) (ev : LoopEv)
    (stage : Stage) (cur : Item) (rest : List Item) :
    Loop.step lang kind stopping ev (.handle stage cur rest)=
      (stage.step lang cur.2 ev).map (.after kind stopping cur rest) := by
  cases ev <;> rfl

theorem Loop.step_ne_exited (lang : Lang) (kind : LoopKind) (stopping : Bool) (ev : LoopEv)
    (pc pc' : Pc) (h : Loop.step lang kind stopping ev pc=some pc') : pc≠.exited := by
  rintro rfl
  cases ev <;> cases h

end Clamator.Redis
