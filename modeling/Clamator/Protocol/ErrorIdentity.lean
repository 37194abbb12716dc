import Clamator.Base.Assoc
import Clamator.Protocol.ErrorData
import Mathlib.Data.List.Nodup

/-!
# What of an exception is in its error data (`error.ts`, `error.py`)

The name and the message are put into the map first, the own attributes after
them. TypeScript skips attributes called `name` and `message`, Python does not. An
attribute `__proto__` is assigned to the prototype of the result. An int that is
copied may have more digits than `json.dumps` converts.
-/

namespace Clamator.Protocol
open Clamator.Base
open Clamator.Base.JsonTree (member)

/-- The map has the name, the message, and of the own attributes those that are kept,
unchanged. -/
structure KeepsIdentity {V : Type} (name message : JsonTree V) (attr : String → JsonTree V → Prop)
    (data : List (String × JsonTree V)) : Prop where
  name : member data "name"=some name
  message : member data "message"=some message
  others : ∀ k v, k≠"name" → k≠"message" → (member data k=some v ↔ attr k v)

/-- What the map should hold of the own properties. -/
def JsError.Attr (e : JsError) (k : String) (v : JsVal) : Prop :=
  (k,some v)∈e.own ∧ k≠"stack" ∧ copied v=true

/-- `errorFields` gives a map that keeps the identity of the error and that
`JSON.stringify` takes. -/
def JsError.Kept (e : JsError) : Prop := ∃ name message data, e.name=some name ∧
  e.message=some message ∧ exceptionToErrorData (.error e)=some data ∧
  KeepsIdentity name message e.Attr data ∧ jsonStringify (.obj data)≠.fail

/-- What the map should hold of `vars(err)`. -/
def PyExc.Attr (e : PyExc) (k : String) (v : PyVal) : Prop :=
  (k,v)∈e.vars ∧ ¬skippedVar k ∧ pyCopied v=true

def FiniteLeaf : PyLeaf → Prop
  | .float x => x.isFinite=true
  | _ => True

/-- `json.dumps` takes the map, and writes JSON if its numbers are finite. -/
def Encodes (data : List (String × PyVal)) : Prop := ∃ d : Doc, jsonDumps (.obj data)=some d ∧
  ((JsonTree.obj data).All FiniteLeaf → d.Standard)

def PyExc.Kept (e : PyExc) : Prop := ∃ text data, e.text=some text ∧
  pyExceptionToErrorData e=some data ∧
  KeepsIdentity (Py.str e.className) (Py.str text) e.Attr data ∧ Encodes data

/-- What the map holds before the attributes. -/
def PyExc.head (e : PyExc) (text : String) : List (String × PyVal) :=
  [("name",Py.str e.className),("message",Py.str text)]

end Clamator.Protocol
