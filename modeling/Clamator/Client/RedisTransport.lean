import Clamator.Base.Pending
import Clamator.Protocol.EnvelopePy
import Clamator.Lifecycle.Core

/-!
# The calls of a client over Redis (`over-redis/src/client-transport.ts`)

`send` puts a promise and its timer into the map `pending` and issues an XADD. The
reply loop, the timer, the failure of the XADD and `stop` race for the entry.
`stop` waits for the reply loop to end, sweeps the map, and publishes the stopped
state after three more awaits.
-/

namespace Clamator.Client
open Clamator.Base Clamator.Protocol Clamator.Lifecycle
open Clamator.Base.JsonTree (member)

/-- `String(v)`; `none` where it throws, as it may on an object. -/
structure Texts where
  text : JsVal → Option String
  text_str : ∀ s, text (Js.str s)=some s
  text_num : ∀ x, ∃ s, text (Js.num x)=some s

inductive Outcome where
  | resolved (reply : JsVal)
  | timeout
  | xaddFailed
  | stopped
  /-- `JSON.stringify` throws in the promise's executor. -/
  | unsendable
  | nullReply
  | dispatcherThrew

/- `String(parsed.id)` of an envelope that `send` takes. -/
def requestKey (T : Texts) (env : JsVal) : Option String := match parseEnvelope env with
  | .ok (.request _ _ _ _ id) => T.text id
  | _ => none

/- `String(parsed.id)` of a reply; `null` has no members to read. -/
def replyKey (T : Texts) : JsVal → Option String
  | Js.null => none
  | .obj fs => T.text ((member fs "id").getD Js.undefined)
  | _ => T.text Js.undefined

/-- The await that a call of `stop` stands at: the end of the reply loop, the DEL, the QUIT of
the reply connection, the QUIT of the main one. -/
inductive StopPc where
  | loop
  | del
  | quit
  | quitMain
  | returned
  deriving DecidableEq

/-- `xadds` are the calls whose XADD is under way; `looping` is whether the reply loop runs. -/
structure ClientRedisTransport where
  state : LifeState
  ownsRedis : Bool
  calls : Calls String Outcome
  xadds : List ℕ
  abort : Bool
  looping : Bool
  stops : List StopPc

inductive ClientAct where
  | send (env : JsVal)
  | xaddEnds (n : ℕ) (ok : Bool)
  | timer (n : ℕ)
  /-- The reply loop has parsed a reply. -/
  | reply (v : JsVal)
  | loopEnds
  | stop
  /-- A call of `stop` goes on from its await. -/
  | stopGoesOn (i : ℕ)

namespace ClientRedisTransport

def Started (c : ClientRedisTransport) : Prop :=
  c.state=.started ∧ c.calls=Calls.empty ∧ c.xadds=[] ∧ c.abort=false ∧ c.looping=true ∧ c.stops=[]

def send (T : Texts) (env : JsVal) (c : ClientRedisTransport) : ClientRedisTransport :=
  match c.state,requestKey T env with
  | .started,some key =>
    let n := c.calls.slots.length
    match jsonStringify env with
    | .fail => { c with calls := (c.calls.insert key).settle n .unsendable }
    | _ => { c with calls := c.calls.insert key,xadds := n::c.xadds }
  | _,_ => c

def finishStop (i : ℕ) (c : ClientRedisTransport) : ClientRedisTransport :=
  { c with stops := c.stops.set i .returned,state := .stopped }

def stopGoesOn (i : ℕ) (c : ClientRedisTransport) : Option ClientRedisTransport :=
  match c.stops[i]? with
  | some .loop =>
    if c.looping then none
    else some { c with calls := c.calls.sweep .stopped,stops := c.stops.set i .del }
  | some .del => some { c with stops := c.stops.set i .quit }
  | some .quit =>
    if c.ownsRedis then some { c with stops := c.stops.set i .quitMain } else some (c.finishStop i)
  | some .quitMain => some (c.finishStop i)
  | _ => none

def step (T : Texts) (a : ClientAct) (c : ClientRedisTransport) : Option ClientRedisTransport :=
  match a with
  | .send env => some (c.send T env)
  | .xaddEnds n ok => match c.calls.slots[n]? with
    | none => none
    | some s =>
      if n∉c.xadds then none
      else if ok then some { c with xadds := c.xadds.erase n }
      else some { c with xadds := c.xadds.erase n,calls := c.calls.finish s.key .xaddFailed }
  | .timer n => match c.calls.slots[n]? with
    | none => none
    | some s => if s.armed then some { c with calls := c.calls.retire n s.key .timeout } else none
  | .reply v =>
    if c.looping then match replyKey T v with
      | none => some c
      | some key => some { c with calls := c.calls.finish key (.resolved v) }
    else none
  | .loopEnds => if c.abort then some { c with looping := false } else none
  | .stop =>
    if c.state=.started then some { c with abort := true,stops := c.stops++[.loop] }
    else some { c with state := .stopped,stops := c.stops++[.returned] }
  | .stopGoesOn i => c.stopGoesOn i

/-- What a step does to the calls. -/
inductive Moves (T : Texts) (c : ClientRedisTransport) : ClientAct → Calls String Outcome → Prop
  | same (a : ClientAct) : Moves T c a c.calls
  | sent (env : JsVal) (key : String) : requestKey T env=some key → c.state=.started →
    jsonStringify env≠.fail → Moves T c (.send env) (c.calls.insert key)
  | unsendable (env : JsVal) (key : String) : requestKey T env=some key → c.state=.started →
    jsonStringify env=.fail →
      Moves T c (.send env) ((c.calls.insert key).settle c.calls.slots.length .unsendable)
  | xaddFailed (n : ℕ) (s : Slot String Outcome) : c.calls.slots[n]?=some s →
    Moves T c (.xaddEnds n false) (c.calls.finish s.key .xaddFailed)
  | timeout (n : ℕ) (s : Slot String Outcome) : c.calls.slots[n]?=some s → s.armed=true →
    Moves T c (.timer n) (c.calls.retire n s.key .timeout)
  | replied (v : JsVal) (key : String) : replyKey T v=some key →
    Moves T c (.reply v) (c.calls.finish key (.resolved v))
  | swept (i : ℕ) : c.stops[i]?=some .loop → Moves T c (.stopGoesOn i) (c.calls.sweep .stopped)

theorem stopGoesOn_moves (T : Texts) (i : ℕ) (c c' : ClientRedisTransport)
    (h : c.stopGoesOn i=some c') : Moves T c (.stopGoesOn i) c'.calls := by
  unfold stopGoesOn at h
  split at h
  · rename_i hi
    split at h
    · cases h
    · cases h
      exact .swept i hi
  · cases h
    exact .same _
  · split at h <;> cases h <;> exact .same _
  · cases h
    exact .same _
  · cases h

theorem step_moves (T : Texts) (a : ClientAct) (c c' : ClientRedisTransport)
    (h : step T a c=some c') : Moves T c a c'.calls := by
  cases a with
  | send env =>
    cases h
    unfold send
    split
    · rename_i key hstate hkey
      dsimp only
      split
      · rename_i hfail
        exact .unsendable env key hkey hstate hfail
      · rename_i hfail
        exact .sent env key hkey hstate hfail
    · exact .same _
  | xaddEnds n ok =>
    simp only [step] at h
    split at h
    · cases h
    · rename_i s hs
      split at h
      · cases h
      · cases ok with
        | true =>
          cases h
          exact .same _
        | false =>
          cases h
          exact .xaddFailed n s hs
  | timer n =>
    simp only [step] at h
    split at h
    · cases h
    · rename_i s hs
      split at h
      · rename_i ha
        cases h
        exact .timeout n s hs ha
      · cases h
  | reply v =>
    simp only [step] at h
    split at h
    · split at h
      · cases h
        exact .same _
      · rename_i key hkey
        cases h
        exact .replied v key hkey
    · cases h
  | loopEnds =>
    simp only [step] at h
    split at h <;> cases h
    exact .same _
  | stop =>
    simp only [step] at h
    split at h <;> cases h <;> exact .same _
  | stopGoesOn i => exact stopGoesOn_moves T i c c' h

def NoReplace (T : Texts) : ClientAct → ClientRedisTransport → Prop
  | .send env,c => ∀ key n, requestKey T env=some key → (key,n)∉c.calls.pending
  | _,_ => True

theorem Moves.kept {T : Texts} {c : ClientRedisTransport} {a : ClientAct} {calls : Calls String Outcome}
    (h : Moves T c a calls) (hn : NoReplace T a c) (hk : c.calls.Kept) : calls.Kept := by
  cases h with
  | same => exact hk
  | sent env key hkey _ _ => exact hk.insert key fun n => hn key n hkey
  | unsendable env key hkey _ _ => exact (hk.insert key fun n => hn key n hkey).settle _ _
  | xaddFailed n s _ => exact hk.finish s.key _
  | timeout n s hs ha => exact hk.retire n s.key _ (hk.armed n s hs ha)
  | replied v key _ => exact hk.finish key _
  | swept i _ => exact hk.sweep _

theorem Moves.later {T : Texts} {c : ClientRedisTransport} {a : ClientAct} {calls : Calls String Outcome}
    (h : Moves T c a calls) : c.calls.Later calls := by
  cases h with
  | same => exact Calls.Later.refl _
  | sent env key _ _ _ => exact Calls.Later.insert _ key
  | unsendable env key _ _ _ => exact (Calls.Later.insert _ key).trans (Calls.Later.settle _ _ _)
  | xaddFailed n s _ => exact Calls.Later.finish _ s.key _
  | timeout n s _ _ => exact Calls.Later.retire _ n s.key _
  | replied v key _ => exact Calls.Later.finish _ key _
  | swept i _ => exact Calls.Later.sweep _ _

end ClientRedisTransport
end Clamator.Client
