import Clamator.Protocol.Envelope
import Clamator.Protocol.Errors

/-!
# Contracts and the dispatcher (`contract.ts`, `server-core.ts`)

`defineContract` checks the names of a contract and the shape of its entries.
`dispatcher` answers one envelope for one service. Schemas and handlers are user
code: a schema returns a value or throws, a handler throws, or the promise it
returns resolves or rejects. So is the logger, which is given what was thrown: the
default one throws where `console` cannot inspect it.
-/

namespace Clamator.Protocol
open Clamator.Base Clamator.Base.Binary64
open Clamator.Base.JsonTree (member hasMember)

/- `schema.parse` -/
abbrev Schema := JsVal → Except Thrown JsVal

/-- An entry of a contract's method table. `result` is `none` without such a key
and `some none` where its value is `undefined`. -/
structure MethodDef where
  params : Schema
  result : Option (Option Schema)
  notification : Bool

def entryProblem (name : String) (d : MethodDef) : Option String :=
  if !methodRe name.toList then
    some ("invalid method name \""++name++"\" (must match ^[a-z][a-zA-Z0-9]*$)")
  else if d.notification then
    if d.result.isSome then some ("notification \""++name++"\" must not include result") else none
  else if d.result.join.isNone then some ("method \""++name++"\" must include result schema")
  else none

def methodsProblem (methods : List (String × MethodDef)) : Option String :=
  methods.findSome? fun m => entryProblem m.1 m.2

structure Contract where
  service : String
  methods : List (String × MethodDef)
  service_ok : serviceRe service.toList=true
  methods_ok : methodsProblem methods=none

def defineContract (service : String) (methods : List (String × MethodDef)) : Except String Contract :=
  if hs : serviceRe service.toList=true then
    match hm : methodsProblem methods with
    | some problem => .error problem
    | none => .ok ⟨service,methods,hs,hm⟩
  else .error ("invalid service name \""++service++"\" (must match ^[a-z][a-z0-9-]*$)")

theorem entryProblem_name {name : String} {d : MethodDef} (h : entryProblem name d=none) :
    methodRe name.toList=true := by
  unfold entryProblem at h
  split at h
  · cases h
  · simp_all

theorem defineContract_valid (service : String) (methods : List (String × MethodDef))
    (hs : serviceRe service.toList=true) (hm : methodsProblem methods=none) :
    defineContract service methods=.ok ⟨service,methods,hs,hm⟩ := by
  unfold defineContract
  rw [dif_pos hs]
  split
  · simp_all
  · rfl

theorem defineContract_ok {service : String} {methods : List (String × MethodDef)} {c : Contract}
    (h : defineContract service methods=.ok c) : c.service=service ∧ c.methods=methods := by
  unfold defineContract at h
  split at h
  · split at h
    · cases h
    · cases h
      exact ⟨rfl,rfl⟩
  · cases h

theorem Contract.entry_ok (c : Contract) (name : String) (d : MethodDef) (hm : (name,d)∈c.methods) :
    entryProblem name d=none := List.findSome?_eq_none_iff.mp c.methods_ok (name,d) hm

/-- The names a plain object inherits that a method name can spell. -/
def objectPrototype : List String :=
  ["constructor","hasOwnProperty","isPrototypeOf","propertyIsEnumerable","toLocaleString",
    "toString","valueOf"]

/-- An inherited function taken for a method entry: it has no `params`. -/
def inheritedDef : MethodDef :=
  ⟨fun _ => .error (typeError "Cannot read properties of undefined (reading 'parse')"),none,false⟩

/- `entry.contract.methods[env.method]` -/
def Contract.lookup (c : Contract) (method : String) : Option MethodDef :=
  match c.methods.lookup method with
  | some d => some d
  | none => if method∈objectPrototype then some inheritedDef else none

inductive HandlerRun (V E : Type) where
  /-- thrown before a promise is returned -/
  | threw (e : E)
  | resolved (v : V)
  | rejected (e : E)

abbrev Handler := JsVal → HandlerRun JsVal Thrown

inductive LogLevel where
  | warn
  | error

/-- What the dispatcher passes to its logger. The message is made of the text and the three
fields, which stand in the third argument as well. -/
structure LogCall where
  level : LogLevel
  text : String
  service : String
  method : String
  rpcId : JsVal
  err : Thrown

/-- Whether the call returns; otherwise it throws. -/
abbrev Logger := LogCall → Bool

/- `this.logger.warn(…)` where the params schema has thrown. -/
def Logger.paramsFailed (logger : Logger) (service method : String) (id : Option JsVal) (e : Thrown) :
    Bool := logger ⟨.warn,"RPC params validation failed",service,method,id.getD Js.null,e⟩

/- `this.logger.error(…)` behind the handler. -/
def Logger.failed (logger : Logger) (service method : String) (id : Option JsVal) (text : String)
    (e : Thrown) : Bool := logger ⟨.error,text,service,method,id.getD Js.null,e⟩

/-- `handlers method` is `entry.handlers[method]`, inherited properties included; `logger` is the
logger of the core that holds the entry. -/
structure ServiceEntry where
  contract : Contract
  handlers : String → Option Handler
  logger : Logger

/-- How a dispatch settles. `cancelled` is a Python exception outside `Exception`. -/
inductive Settled (V : Type) where
  | returned (reply : Option V)
  | rejected
  | cancelled

/-- A dispatch: the params it invoked a handler with, if it did, and how it settled. -/
structure Dispatch (V : Type) where
  invoked : Option V
  settled : Settled V

def Dispatch.early {V : Type} (reply : Option V) : Dispatch V := ⟨none,.returned reply⟩

def methodNotFound (id : JsVal) : JsVal :=
  buildErrorResponse id (Js.num (ofInt (-32601))) "Method not found" Js.undefined

/- The end of a catch block behind its call of the logger:
`buildErrorResponse(id, code, message, exceptionToErrorData(e))`. -/
def failure (logged : Bool) (id : JsVal) (code : ℤ) (message : String) (e : Thrown) : Settled JsVal :=
  match logged,exceptionToErrorData e with
  | true,some data =>
    .returned (some (buildErrorResponse id (Js.num (ofInt code)) message (.obj data)))
  | _,_ => .rejected

/- The same for a notification. -/
def dropped (logged : Bool) : Settled JsVal := if logged then .returned none else .rejected

/- `methodDef.result.parse(result)`, in its `try` block. -/
def MethodDef.parseResult (d : MethodDef) (result : JsVal) : Except Thrown JsVal :=
  match d.result.join with
  | none => .error (typeError "Cannot read properties of undefined (reading 'parse')")
  | some schema => schema result

/- `log` is the logger's `error` with the request's service, method and id. -/
def settleHandler (log : String → Thrown → Bool) (d : MethodDef) (id : Option JsVal)
    (run : HandlerRun JsVal Thrown) : Settled JsVal := match run,id with
  | .threw _,_ => .rejected
  | .rejected (.rpcError _ _ _),none => .returned none
  | .rejected e,none => dropped (log "RPC handler raised" e)
  | .rejected (.rpcError code message data),some id =>
    .returned (some (buildErrorResponse id code message data))
  | .rejected e,some id => failure (log "RPC handler raised" e) id (-32603) "Internal error" e
  | .resolved _,none => .returned none
  | .resolved result,some id =>
    if d.notification then .returned none
    else match d.parseResult result with
      | .ok validated => .returned (some (buildSuccessResponse id validated))
      | .error e => failure (log "RPC result validation failed" e) id (-32603) "Result validation failed" e

def dispatchCall (entry : ServiceEntry) (method : String) (params : JsVal) (id : Option JsVal) :
    Dispatch JsVal := match entry.contract.lookup method with
  | none => .early (id.map methodNotFound)
  | some d => match d.params params with
    | .error e =>
      let logged := entry.logger.paramsFailed entry.contract.service method id e
      match id with
      | none => ⟨none,dropped logged⟩
      | some id => ⟨none,failure logged id (-32602) "Invalid params" e⟩
    | .ok parsed => match entry.handlers method with
      | none => .early (id.map methodNotFound)
      | some handler =>
        let log := entry.logger.failed entry.contract.service method id
        ⟨some parsed,settleHandler log d id (handler parsed)⟩

/- `entry` is `this.services.get(serviceName)`. -/
def dispatcher (entry : Option ServiceEntry) (env : Envelope JsVal) : Dispatch JsVal :=
  match entry,env with
  | none,.notification _ _ _ _ => .early none
  | none,.request _ _ _ _ id => .early (some (methodNotFound id))
  | none,_ => .early (some (methodNotFound Js.null))
  | some entry,.request _ method _ params id => dispatchCall entry method params (some id)
  | some entry,.notification _ method _ params => dispatchCall entry method params none
  | some _,_ => .early none

end Clamator.Protocol
