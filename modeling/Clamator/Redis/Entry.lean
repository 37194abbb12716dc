import Clamator.Protocol.EnvelopePy

/-!
# Reading a command entry (`server-transport.ts`, `server_transport.py`, `handleEntry`)

An entry of a command stream is a flat list of field names and values. Before any
dispatch `handleEntry` looks for the `envelope` and `reply-to` fields and decodes
the envelope: TypeScript searches the flat list, Python looks up a dict of bytes
and decodes outside its `try` block.
-/

namespace Clamator.Redis
open Clamator.Base Clamator.Protocol

/-- A string of Redis: the text it decodes to, the document that this text spells
(JSON, or with Python's words for NaN and the infinities), and whether the bytes
are UTF-8. Where they are not, `text` holds replacement characters. -/
structure Bulk where
  text : String
  doc : Option Doc
  utf8 : Bool

/-- What `handleEntry` makes of an entry before it dispatches. `raised` is an
exception that leaves it: the entry is not acked. -/
inductive Reading (V : Type) where
  | missing
  | poison
  | raised
  | decoded (env : Envelope V) (replyTo : Option String)

def truthy : Option String → Option String
  | some "" => none
  | x => x

/- `fields[fields.indexOf(name) + 1]` where the name is found. -/
def fieldAfter (fields : List Bulk) (name : String) : Option (Option Bulk) :=
  (fields.findIdx? (·.text == name)).map fun i => fields[i+1]?

def readEntry (fields : List Bulk) : Reading JsVal :=
  match fieldAfter fields "envelope" with
  | none => .missing
  | some value =>
    let replyTo := truthy (((fieldAfter fields "reply-to").join).map Bulk.text)
    match value.bind Bulk.doc with
    | none => .poison
    | some d => match readEnvelope d with
      | .error _ => .poison
      | .ok env => .decoded env replyTo

theorem readEntry_decoded {fields : List Bulk} {env : Envelope JsVal} {replyTo : Option String}
    (h : readEntry fields=.decoded env replyTo) : ∃ value d, fieldAfter fields "envelope"=some value ∧
      value.bind Bulk.doc=some d ∧ readEnvelope d=.ok env ∧
      replyTo=truthy (((fieldAfter fields "reply-to").join).map Bulk.text) := by
  unfold readEntry at h
  split at h
  · cases h
  · rename_i value hvalue
    dsimp only at h
    split at h
    · cases h
    · rename_i d hdoc
      split at h
      · cases h
      · rename_i henv
        cases h
        exact ⟨value,d,hvalue,hdoc,henv,rfl⟩

/-- The dict that the Python client makes of the field list; a later value of a
name replaces an earlier one. -/
def fieldPairs : List Bulk → List (String × Bulk)
  | name::value::fields => fieldPairs fields++[(name.text,value)]
  | _ => []

/- `fields.get(name) or …`: empty values are falsy. -/
def getField (fields : List Bulk) (name : String) : Option Bulk :=
  ((fieldPairs fields).lookup name).filter (·.text != "")

def pyReadEntry (fields : List Bulk) : Reading PyVal :=
  match getField fields "envelope" with
  | none => .missing
  | some value =>
    let replyTo := getField fields "reply-to"
    if !value.utf8 || replyTo.any (!·.utf8) then .raised
    else match value.doc with
      | none => .poison
      | some d => match pyReadEnvelope d with
        | .error _ => .poison
        | .ok env => .decoded env (replyTo.map Bulk.text)

theorem pyReadEntry_decoded {fields : List Bulk} {env : Envelope PyVal} {replyTo : Option String}
    (h : pyReadEntry fields=.decoded env replyTo) : ∃ value d, getField fields "envelope"=some value ∧
      value.doc=some d ∧ pyReadEnvelope d=.ok env ∧
      replyTo=(getField fields "reply-to").map Bulk.text := by
  unfold pyReadEntry at h
  split at h
  · cases h
  · rename_i value hvalue
    dsimp only at h
    split at h
    · cases h
    · split at h
      · cases h
      · rename_i d hdoc
        split at h
        · cases h
        · rename_i henv
          cases h
          exact ⟨value,d,hvalue,hdoc,henv,rfl⟩

end Clamator.Redis
