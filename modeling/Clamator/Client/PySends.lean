import Clamator.Protocol.EnvelopePy
import Clamator.Lifecycle.Core

/-!
# Sends of the Python client (`over-redis/client_transport.py`)

`send` enters a future into the dictionary `_pending` and stands at two awaits, each with
an `except` clause of its own. The reply loop, the deadline of `wait_for`, `stop` and
`task.cancel()` act on the same entry; a `CancelledError` is no `Exception`.
-/

namespace Clamator.Client
open Clamator.Base Clamator.Protocol Clamator.Lifecycle
open Clamator.Base.JsonTree (member)

/-- What a future was given; `stop` sets an exception. -/
inductive FutureResult where
  | result (v : PyVal)
  | exception (message : String)
  | cancelled

/-- How a coroutine ends; `raised` is a `ClamatorTransportError`. -/
inductive Ended where
  | returned (v : PyVal)
  | raised (message : String)
  | cancelled

/-- The await that `send` stands at: the XADD, `wait_for`. -/
inductive SendPc where
  | xadd
  | reply
  | finished (e : Ended)

/-- `expired` is whether the deadline of `wait_for` has passed, `cancelling` whether the task
was cancelled. -/
structure PySend where
  key : String
  future : Option FutureResult
  pc : SendPc
  expired : Bool
  cancelling : Bool

/-- What the event loop resumes a coroutine with. Of several that have their cause any may come:
versions of Python differ in which goes first. -/
inductive Wake where
  | xadded
  /-- The XADD raises an `Exception`. -/
  | xaddRaised
  | done
  | timeout
  | cancelled

/-- `pending` has the positions of the sends; `stopping` is whether `stop` waits for the end
of the reply loop, `looping` whether the loop runs. -/
structure PyClientRedisTransport where
  state : LifeState
  sends : List PySend
  pending : List (String × ℕ)
  looping : Bool
  stopping : Bool

inductive PyClientAct where
  | start
  | send (env : PyVal)
  /-- The deadline passes. -/
  | expire (n : ℕ)
  /-- `task.cancel()` -/
  | cancel (n : ℕ)
  /-- `wait_for` cancels the future: at once or, in Python 3.11, when its coroutine runs. -/
  | cancelInner (n : ℕ)
  | resume (n : ℕ) (w : Wake)
  | reply (v : PyVal)
  | stop
  | loopEnds
  | sweep

def PySend.Finished (s : PySend) : Prop := ∃ e, s.pc=.finished e

def PySend.unfinished (s : PySend) : Bool := match s.pc with
  | .finished _ => false
  | _ => true

/- `if not fut.done(): fut.set_…` -/
def PySend.settle (r : FutureResult) (s : PySend) : PySend := { s with future := s.future.or (some r) }

/-- Where the coroutine goes on to, and whether it pops its key on the way. -/
def PySend.resume (s : PySend) : Wake → Option (SendPc × Bool)
  | .xadded => match s.pc with
    | .xadd => some (.reply,false)
    | _ => none
  | .xaddRaised => match s.pc with
    | .xadd => some (.finished (.raised "xadd failed"),true)
    | _ => none
  | .done => match s.pc,s.future with
    | .reply,some (.result v) => some (.finished (.returned v),false)
    | .reply,some (.exception m) => some (.finished (.raised m),false)
    | _,_ => none
  | .timeout => match s.pc with
    | .reply => if s.expired then some (.finished (.raised "call timeout"),true) else none
    | _ => none
  -- neither clause is for it
  | .cancelled => if s.cancelling && s.unfinished then some (.finished .cancelled,false) else none

section
variable (str : PyVal → Option String)

/- `str(parsed.id)` of an envelope that `send` takes; `none` where an exception is raised. -/
def pyRequestKey (env : PyVal) : Option String := match pyParseEnvelope env with
  | .ok (.request _ _ _ _ id) => str id
  | _ => none

/- `str(parsed.get("id"))` of a reply -/
def pyReplyKey : PyVal → Option String
  | .obj fs => str ((member fs "id").getD Py.null)
  | _ => none

namespace PyClientRedisTransport

/- `ClientRedisTransport(...)` -/
def new : PyClientRedisTransport := ⟨.idle,[],[],false,false⟩

/- `self._pending.pop(key, None)` -/
def popped (key : String) (c : PyClientRedisTransport) : List (String × ℕ) :=
  c.pending.filter (·.1≠key)

def modify (n : ℕ) (f : PySend → PySend) (c : PyClientRedisTransport) : PyClientRedisTransport :=
  { c with sends := c.sends.modify n f }

/- Up to the first await. Where `json.dumps` raises there is none. -/
def send (env : PyVal) (c : PyClientRedisTransport) : PyClientRedisTransport :=
  match c.state,pyRequestKey str env with
  | .started,some key => match jsonDumps env with
    | some _ => { c with sends := c.sends++[⟨key,none,.xadd,false,false⟩],
                         pending := (key,c.sends.length)::c.popped key }
    | none => { c with sends := c.sends++[⟨key,none,.finished (.raised "xadd failed"),false,false⟩],
                       pending := c.popped key }
  | _,_ => c

/- `fut = self._pending.pop(rid, None)` and what follows. -/
def takeReply (key : String) (v : PyVal) (c : PyClientRedisTransport) : PyClientRedisTransport :=
  match c.pending.lookup key with
  | none => c
  | some n => { c.modify n (PySend.settle (.result v)) with pending := c.popped key }

def rejectAll (c : PyClientRedisTransport) : List PySend :=
  c.pending.foldl (fun sends e => sends.modify e.2 (PySend.settle (.exception "transport stopped")))
    c.sends

def resume (n : ℕ) (w : Wake) (c : PyClientRedisTransport) : Option PyClientRedisTransport :=
  match c.sends[n]? with
  | none => none
  | some s => (s.resume w).map fun (pc,pops) =>
    { c.modify n fun s => { s with pc := pc } with
      pending := if pops then c.popped s.key else c.pending }

def step (a : PyClientAct) (c : PyClientRedisTransport) : Option PyClientRedisTransport :=
  match a with
  | .start => some (if c.state=.idle then { c with state := .started,looping := true } else c)
  | .send env => some (c.send str env)
  | .expire n => match c.sends[n]?.map PySend.pc with
    | some .reply => some (c.modify n fun s => { s with expired := true })
    | _ => none
  | .cancel n => match c.sends[n]? with
    | none => none
    | some s => some (if s.unfinished then c.modify n fun s => { s with cancelling := true } else c)
  | .cancelInner n => match c.sends[n]? with
    | none => none
    | some s => match s.pc with
      | .reply =>
        if s.expired || s.cancelling then some (c.modify n (PySend.settle .cancelled)) else none
      | _ => none
  | .resume n w => c.resume n w
  | .reply v =>
    if c.looping then match pyReplyKey str v with
      | none => some c
      | some key => some (c.takeReply key v)
    else none
  | .stop => some (if c.state=.started then { c with state := .stopped,stopping := true }
      else { c with state := .stopped })
  | .loopEnds => if c.stopping then some { c with looping := false } else none
  | .sweep =>
    if c.stopping && !c.looping then some { c with sends := c.rejectAll,pending := [],stopping := false }
    else none

variable {str}

/-- What a step does to the sends and to the dictionary. -/
inductive Moves (str : PyVal → Option String) (c : PyClientRedisTransport) :
    PyClientAct → List PySend → List (String × ℕ) → Prop
  | same (a : PyClientAct) : Moves str c a c.sends c.pending
  | sent (env : PyVal) (key : String) : pyRequestKey str env=some key →
    Moves str c (.send env) (c.sends++[⟨key,none,.xadd,false,false⟩])
      ((key,c.sends.length)::c.popped key)
  | unsent (env : PyVal) (key : String) : pyRequestKey str env=some key →
    Moves str c (.send env)
      (c.sends++[⟨key,none,.finished (.raised "xadd failed"),false,false⟩]) (c.popped key)
  | flagged (a : PyClientAct) (n : ℕ) (f : PySend → PySend) : (∀ w, a≠.resume n w) →
    (∀ s, (f s).key=s.key ∧ (f s).pc=s.pc ∧ (f s).future=s.future) →
      Moves str c a (c.sends.modify n f) c.pending
  | innerCancelled (n : ℕ) : Moves str c (.cancelInner n) (c.sends.modify n (PySend.settle .cancelled)) c.pending
  | resumed (n : ℕ) (w : Wake) (s : PySend) (pc : SendPc) (pops : Bool) : c.sends[n]?=some s →
    s.resume w=some (pc,pops) → Moves str c (.resume n w) (c.sends.modify n fun s => { s with pc := pc })
      (if pops then c.popped s.key else c.pending)
  | replied (v : PyVal) (key : String) (n : ℕ) : pyReplyKey str v=some key →
    c.pending.lookup key=some n →
      Moves str c (.reply v) (c.sends.modify n (PySend.settle (.result v))) (c.popped key)
  | swept : Moves str c .sweep c.rejectAll []

theorem send_moves (env : PyVal) (c : PyClientRedisTransport) :
    Moves str c (.send env) (c.send str env).sends (c.send str env).pending := by
  unfold send
  split
  · rename_i key _ hkey
    split
    · exact .sent env key hkey
    · exact .unsent env key hkey
  · exact .same _

theorem resume_moves (n : ℕ) (w : Wake) (c c' : PyClientRedisTransport) (h : c.resume n w=some c') :
    Moves str c (.resume n w) c'.sends c'.pending := by
  unfold resume at h
  split at h
  · cases h
  · rename_i s hs
    obtain ⟨⟨pc,pops⟩,hw,rfl⟩ := Option.map_eq_some_iff.mp h
    exact .resumed n w s pc pops hs hw

theorem takeReply_moves (v : PyVal) (key : String) (c : PyClientRedisTransport)
    (hkey : pyReplyKey str v=some key) :
    Moves str c (.reply v) (c.takeReply key v).sends (c.takeReply key v).pending := by
  unfold takeReply
  split
  · exact .same _
  · rename_i n hn
    exact .replied v key n hkey hn

theorem step_moves (a : PyClientAct) (c c' : PyClientRedisTransport) (h : step str a c=some c') :
    Moves str c a c'.sends c'.pending := by
  cases a with
  | start =>
    simp only [step,Option.some.injEq] at h
    split at h <;> cases h <;> exact .same _
  | send env =>
    cases h
    exact send_moves env c
  | expire n =>
    simp only [step] at h
    split at h <;> cases h
    exact .flagged _ n _ (fun _ => by simp) fun _ => ⟨rfl,rfl,rfl⟩
  | cancel n =>
    simp only [step] at h
    split at h
    · cases h
    · rename_i s hs
      cases h
      split
      · exact .flagged _ n _ (fun _ => by simp) fun _ => ⟨rfl,rfl,rfl⟩
      · exact .same _
  | cancelInner n =>
    simp only [step] at h
    split at h
    · cases h
    · split at h
      · split at h <;> cases h
        exact .innerCancelled n
      · cases h
  | resume n w => exact resume_moves n w c c' h
  | reply v =>
    simp only [step] at h
    split at h
    · split at h <;> cases h
      · exact .same _
      · rename_i key hkey
        exact takeReply_moves v key c hkey
    · cases h
  | stop =>
    simp only [step,Option.some.injEq] at h
    split at h <;> cases h <;> exact .same _
  | loopEnds =>
    simp only [step] at h
    split at h <;> cases h
    exact .same _
  | sweep =>
    simp only [step] at h
    split at h <;> cases h
    exact .swept

end PyClientRedisTransport
end

end Clamator.Client
