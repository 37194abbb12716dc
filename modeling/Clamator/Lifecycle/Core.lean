import Clamator.Base.Reach

/-!
# Start and stop of a server (`server-core.ts`, `server_core.py`)

`RpcServerCore` registers its services with a transport and starts it; core and
transport each keep a state of their own, set at different moments. Both languages do
the same. Calls come one after the other; in between, others may change what a
transport shares with them.
-/

namespace Clamator.Lifecycle
open Clamator.Base

inductive LifeState where
  | idle
  | started
  | stopped
  deriving DecidableEq

inductive Outcome where
  | returned
  | threw
  deriving DecidableEq

/-- What a transport does on its calls, a call that throws included. `E` is what a call
meets, `O` what others do between calls. -/
structure Transport (T E O : Type) where
  registerService : String → T → T × Outcome
  start : E → T → T × Outcome
  stop : E → T → T
  meanwhile : O → T → T

/-- `services` are the keys of a map, in insertion order. -/
structure RpcServerCore (T : Type) where
  services : List String
  nodup : services.Nodup
  state : LifeState
  transport : T

variable {T E O : Type} (tr : Transport T E O)

def registerAll : List String → T → T × Outcome
  | [],t => (t,.returned)
  | name::names,t => match tr.registerService name t with
    | (t,.threw) => (t,.threw)
    | (t,.returned) => registerAll names t

def RpcServerCore.start (e : E) (core : RpcServerCore T) : RpcServerCore T × Outcome :=
  match core.state with
  | .started => (core,.returned)
  | .stopped => (core,.threw)
  | .idle => match registerAll tr core.services core.transport with
    | (t,.threw) => ({ core with transport := t },.threw)
    | (t,.returned) => match tr.start e t with
      | (t,.threw) => ({ core with transport := t },.threw)
      | (t,.returned) => ({ core with transport := t,state := .started },.returned)

def RpcServerCore.stop (e : E) (core : RpcServerCore T) : RpcServerCore T := match core.state with
  | .started => { core with transport := tr.stop e core.transport,state := .stopped }
  | _ => { core with state := .stopped }

inductive Call (E O : Type) where
  | start (e : E)
  | stop (e : E)
  | meanwhile (o : O)

def RpcServerCore.call : Call E O → RpcServerCore T → Option (RpcServerCore T)
  | .start e,core => some (core.start tr e).1
  | .stop e,core => some (core.stop tr e)
  | .meanwhile o,core => some { core with transport := tr.meanwhile o core.transport }

/-- What can be seen of a transport: whether it serves a service, whether nothing of it
runs or is registered. -/
structure View (T : Type) where
  Serving : String → T → Prop
  Silent : T → Prop

/-- A start that returns serves every service, one that throws leaves nothing; nor does a
stop. -/
def Sound (view : View T) : Call E O → RpcServerCore T → Prop
  | .start e,core => match core.start tr e with
    | (core',.returned) => ∀ name∈core.services, view.Serving name core'.transport
    | (core',.threw) => view.Silent core'.transport
  | .stop e,core => view.Silent (core.stop tr e).transport
  | .meanwhile _,_ => True

end Clamator.Lifecycle
