import Clamator.Protocol.EnvelopePy
import Clamator.Protocol.ServerCore

/-!
# The Python dispatcher (`contract.py`, `server_core.py`)

The Pydantic models are user code as well: validation gives an instance (here
its content), or a `ValidationError` with its `errors()`, or lets another
exception of a validator through; `model_dump` gives a value or raises. Calls of
`logging` are left out: it does not let an exception of its handlers through.
-/

namespace Clamator.Protocol
open Clamator.Base

/-- `model_validate` -/
inductive Validation (α : Type) where
  | valid (v : α)
  | invalid (errors : PyVal)
  | raised

/-- A validated result: what `model_dump(mode='json', by_alias=True)` gives,
`none` where it raises. -/
abbrev Dumped := Option PyVal

/-- `resultModel` is `none` for a notification. -/
structure MethodEntry where
  paramsModel : PyVal → Validation PyVal
  resultModel : Option (PyVal → Validation Dumped)
  handlerAttr : String

structure PyContract where
  service : String
  methods : List (String × MethodEntry)

abbrev PyHandler := PyVal → HandlerRun PyVal PyThrown

/-- `handlers attr` is `getattr(handler_instance, attr, None)`. -/
structure PyServiceEntry where
  contract : PyContract
  handlers : String → Option PyHandler

def pyMethodNotFound (id : PyVal) : PyVal :=
  pyBuildErrorResponse id (Py.int (-32601)) "Method not found" Py.null

def pyInvalid (id : PyVal) (code : ℤ) (message : String) (errors : PyVal) : PyVal :=
  pyBuildErrorResponse id (Py.int code) message (.obj [("errors",errors)])

def pySettleHandler (m : MethodEntry) (id : Option PyVal) (run : HandlerRun PyVal PyThrown) :
    Settled PyVal := match run,id with
  -- CancelledError passes `except Exception`
  | .threw .base,_ => .cancelled
  | .rejected .base,_ => .cancelled
  | .threw _,_ => .rejected
  | .rejected _,none => .returned none
  | .rejected (.rpcError code message data),some id =>
    .returned (some (pyBuildErrorResponse id code message data))
  | .rejected (.exception e),some id => match pyExceptionToErrorData e with
    | none => .rejected
    | some data =>
      .returned (some (pyBuildErrorResponse id (Py.int (-32603)) "Internal error" (.obj data)))
  | .resolved _,none => .returned none
  | .resolved result,some id => match m.resultModel with
    | none => .returned none
    | some model => match model result with
      | .valid none => .rejected
      | .valid (some dump) => .returned (some (pyBuildSuccessResponse id dump))
      | .invalid errors => .returned (some (pyInvalid id (-32603) "Result validation failed" errors))
      | .raised => .rejected

def pyDispatchCall (entry : PyServiceEntry) (method : String) (params : PyVal) (id : Option PyVal) :
    Dispatch PyVal := match entry.contract.methods.lookup method with
  | none => .early (id.map pyMethodNotFound)
  | some m => match m.paramsModel params with
    | .raised => ⟨none,.rejected⟩
    | .invalid errors => .early (id.map fun id => pyInvalid id (-32602) "Invalid params" errors)
    | .valid params => match entry.handlers m.handlerAttr with
      | none => .early (id.map pyMethodNotFound)
      | some handler => ⟨some params,pySettleHandler m id (handler params)⟩

/- `entry` is `self._services.get(service_name)`. -/
def pyDispatcher (entry : Option PyServiceEntry) (env : Envelope PyVal) : Dispatch PyVal :=
  match entry,env with
  | none,.request _ _ _ _ id => .early (some (pyMethodNotFound id))
  | none,_ => .early none
  | some entry,.request _ method _ params id => pyDispatchCall entry method params (some id)
  | some entry,.notification _ method _ params => pyDispatchCall entry method params none
  | some _,_ => .early none

end Clamator.Protocol
