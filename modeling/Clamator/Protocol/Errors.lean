import Clamator.Protocol.Value

/-!
# Error data (`error.ts`, `error.py`)

What handlers and validators throw, and `exceptionToErrorData` /
`exception_to_error_data`, which copy an exception into the data of an error
response. Both keep scalars and lists of scalars. The TypeScript function reads
properties and converts to a string, and either can throw in its turn.
-/

namespace Clamator.Protocol
open Clamator.Base

/-! ### TypeScript -/

/-- An `Error` object. `none` is a property whose getter throws; `own` are the
own properties. -/
structure JsError where
  name : Option JsVal
  message : Option JsVal
  own : List (String × Option JsVal)
  own_nodup : (own.map Prod.fst).Nodup

/-- What JavaScript code throws. `other` is a value that is no `Error`: its
`typeof` and `String` of it, `none` where that throws. -/
inductive Thrown where
  | rpcError (code : JsVal) (message : String) (data : JsVal)
  | error (e : JsError)
  | other (typeOf : String) (text : Option String)

def rpcErrorObject (code : JsVal) (message : String) (data : JsVal) : JsError :=
  ⟨some (Js.str "RpcError"),some (Js.str message),[("code",some code),("data",some data)],by simp⟩

def typeError (message : String) : Thrown :=
  .error ⟨some (Js.str "TypeError"),some (Js.str message),[],by simp⟩

/- `v === null || SERIALIZABLE_TYPES.has(typeof v)` -/
def serializable : JsVal → Bool
  | Js.null => true
  | Js.str _ => true
  | Js.num _ => true
  | .leaf (.bool _) => true
  | _ => false

def copied : JsVal → Bool
  | .arr xs => xs.all serializable
  | v => serializable v

/-- The loop over the own properties. Assigning to `__proto__` makes no own
property of the result. -/
def copyOwn : List (String × Option JsVal) → Option (List (String × JsVal))
  | [] => some []
  | (key,v)::own =>
    if key="stack" ∨ key="message" ∨ key="name" then copyOwn own
    else match v,copyOwn own with
      | some v,some out => some (if copied v ∧ key≠"__proto__" then (key,v)::out else out)
      | _,_ => none

/- `exceptionToErrorData`; `none` where it throws. -/
def exceptionToErrorData : Thrown → Option (List (String × JsVal))
  | .rpcError code message data => errorFields (rpcErrorObject code message data)
  | .error e => errorFields e
  | .other typeOf text => text.map fun text => [("name",Js.str typeOf),("message",Js.str text)]
where
  errorFields (e : JsError) : Option (List (String × JsVal)) :=
    match e.name,e.message,copyOwn e.own with
    | some name,some message,some own => some (("name",name)::("message",message)::own)
    | _,_,_ => none

/-- No property that `exceptionToErrorData` reads throws, nor does `String`. -/
def Thrown.Readable : Thrown → Prop
  | .rpcError _ _ _ => True
  | .error e => e.name≠none ∧ e.message≠none ∧
    ∀ kv∈e.own, kv.1≠"stack" → kv.1≠"message" → kv.1≠"name" → kv.2≠none
  | .other _ text => text≠none

theorem copyOwn_ne_none (own : List (String × Option JsVal)) : copyOwn own≠none ↔
    ∀ kv∈own, kv.1≠"stack" → kv.1≠"message" → kv.1≠"name" → kv.2≠none := by
  induction own with
  | nil => simp [copyOwn]
  | cons kv own ih =>
    obtain ⟨key,v⟩ := kv
    simp only [copyOwn,List.forall_mem_cons,← ih]
    by_cases hk : key="stack" ∨ key="message" ∨ key="name"
    · rw [if_pos hk]
      constructor
      · intro h
        refine ⟨fun h1 h2 h3 => ?_,h⟩
        rcases hk with hk | hk | hk
        · exact (h1 hk).elim
        · exact (h2 hk).elim
        · exact (h3 hk).elim
      · intro h
        exact h.2
    · rw [if_neg hk]
      simp only [not_or] at hk
      cases v <;> cases copyOwn own <;> simp [hk]

theorem exceptionToErrorData_ne_none (e : Thrown) : exceptionToErrorData e≠none ↔ e.Readable := by
  cases e with
  | rpcError code message data =>
    simp [exceptionToErrorData,exceptionToErrorData.errorFields,rpcErrorObject,copyOwn,Thrown.Readable]
  | error e =>
    simp only [exceptionToErrorData,exceptionToErrorData.errorFields,Thrown.Readable,← copyOwn_ne_none]
    cases e.name <;> cases e.message <;> cases copyOwn e.own <;> simp
  | other typeOf text =>
    simp [exceptionToErrorData,Thrown.Readable]

/-! ### Python -/

/-- An exception outside `RpcError`: its class, `str` of it (`none` where
`__str__` raises) and its `vars`. -/
structure PyExc where
  className : String
  text : Option String
  vars : List (String × PyVal)
  vars_nodup : (vars.map Prod.fst).Nodup

/-- What Python code raises. `base` is a `BaseException` that is no `Exception`,
such as `asyncio.CancelledError`. -/
inductive PyThrown where
  | rpcError (code : PyVal) (message : String) (data : PyVal)
  | exception (e : PyExc)
  | base

/- `isinstance(v, _SERIALIZABLE)` -/
def pySerializable : PyVal → Bool
  | .leaf .object => false
  | .leaf _ => true
  | _ => false

def pyCopied : PyVal → Bool
  | .arr xs => xs.all pySerializable
  | v => pySerializable v

/- `out[key] = v` -/
def setItem (out : List (String × PyVal)) (key : String) (v : PyVal) : List (String × PyVal) :=
  if (out.lookup key).isSome then out.map fun kv => if kv.1=key then (key,v) else kv
  else out++[(key,v)]

def copyVars : List (String × PyVal) → List (String × PyVal) → List (String × PyVal)
  | out,[] => out
  | out,(key,v)::vars =>
    if key∈["args","__cause__","__context__","__traceback__"] then copyVars out vars
    else copyVars (if pyCopied v then setItem out key v else out) vars

/- `exception_to_error_data`; `none` where `str(err)` raises. -/
def pyExceptionToErrorData (e : PyExc) : Option (List (String × PyVal)) :=
  e.text.map fun text => copyVars [("name",Py.str e.className),("message",Py.str text)] e.vars

end Clamator.Protocol
