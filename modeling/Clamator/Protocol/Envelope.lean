import Clamator.Protocol.Value
import Clamator.Protocol.Names

/-!
# Envelopes (`protocol/src/envelope.ts`)

`parseEnvelope` classifies a JavaScript value as a request, a notification, a
success response or an error response, or rejects it with an `InvalidRequest`
message. The builders make the envelopes that cores and transports send. The
`raw` copy that a parsed call keeps is left out: nothing reads it.
-/

namespace Clamator.Protocol
open Clamator.Base
open Clamator.Base.JsonTree (member hasMember)

/-- A classified envelope over the values of one runtime. The id of an error
response may be the runtime's null. -/
inductive Envelope (V : Type) where
  | request (service method fullMethod : String) (params id : V)
  | notification (service method fullMethod : String) (params : V)
  | success (id result : V)
  | error (id code : V) (message : String) (data : V)

def invalidRequest (msg : String) : String := "-32600 Invalid Request: "++msg

/- `x ?? fallback` -/
def Js.orElse (x : Option JsVal) (fallback : JsVal) : JsVal := match x with
  | none => fallback
  | some Js.undefined => fallback
  | some Js.null => fallback
  | some v => v

def Js.present (x : Option JsVal) : Option JsVal := match x with
  | none => none
  | some Js.undefined => none
  | some Js.null => none
  | some v => some v

def splitMethod (fullMethod : String) : Except String (String × String) :=
  match sliceAtDot fullMethod.toList with
  | none => .error (invalidRequest "method must be \"<service>.<method>\"")
  | some (service,method) =>
    if !serviceRe service then .error (invalidRequest "invalid service segment")
    else if !methodRe method then .error (invalidRequest "invalid method segment")
    else .ok (String.ofList service,String.ofList method)

def parseCall (obj : List (String × JsVal)) (fullMethod : String) : Except String (Envelope JsVal) :=
  match splitMethod fullMethod with
  | .error e => .error e
  | .ok (service,method) =>
    let params := Js.orElse (member obj "params") (.obj [])
    match Js.present (member obj "id") with
    | none => .ok (.notification service method fullMethod params)
    | some (Js.str s) => .ok (.request service method fullMethod params (Js.str s))
    | some (Js.num x) => .ok (.request service method fullMethod params (Js.num x))
    | some _ => .error (invalidRequest "id must be string or number")

def parseSuccess (obj : List (String × JsVal)) : Except String (Envelope JsVal) :=
  match Js.present (member obj "id") with
  | none => .error (invalidRequest "response must have id")
  | some id => .ok (.success id ((member obj "result").getD Js.undefined))

/-- The branch for an object with `error` and no `result`. Only an object can
have a numeric `code`: on every other truthy value the two reads are `undefined`. -/
def parseError (obj : List (String × JsVal)) : Except String (Envelope JsVal) :=
  match member obj "error" with
  | some (.obj err) => match member err "code",member err "message" with
    | some (Js.num code),some (Js.str message) =>
      .ok (.error ((Js.present (member obj "id")).getD Js.null) (Js.num code) message
        (Js.orElse (member err "data") Js.null))
    | _,_ => .error (invalidRequest "error must have numeric code + string message")
  | _ => .error (invalidRequest "error must have numeric code + string message")

/-- What is left when `method` is no string: a response, told by its keys. -/
def parseResponse (obj : List (String × JsVal)) : Except String (Envelope JsVal) :=
  match hasMember obj "result",hasMember obj "error" with
  | true,false => parseSuccess obj
  | false,true => parseError obj
  | _,_ => .error (invalidRequest "envelope must be request, notification, or response")

def parseEnvelope (value : JsVal) : Except String (Envelope JsVal) :=
  match value with
  | .arr _ => .error (invalidRequest "batch requests not supported")
  | .leaf _ => .error (invalidRequest "not an object")
  | .obj obj => match member obj "jsonrpc" with
    | some (Js.str "2.0") => match member obj "method" with
      | some (Js.str fullMethod) => parseCall obj fullMethod
      | _ => parseResponse obj
    | _ => .error (invalidRequest "jsonrpc must equal \"2.0\"")

/- `parseEnvelope(JSON.parse(text))` -/
def readEnvelope (d : Doc) : Except String (Envelope JsVal) := match jsonParse d with
  | none => .error "SyntaxError"
  | some value => parseEnvelope value

def buildSuccessResponse (id result : JsVal) : JsVal :=
  .obj [("jsonrpc",Js.str "2.0"),("id",id),("result",result)]

/-- The default value of the parameter `data = null`. -/
def Js.orNull : JsVal → JsVal
  | Js.undefined => Js.null
  | data => data

def buildErrorResponse (id code : JsVal) (message : String) (data : JsVal) : JsVal :=
  .obj [("jsonrpc",Js.str "2.0"),("id",id),
    ("error",.obj [("code",code),("message",Js.str message),("data",Js.orNull data)])]

def buildRequest (fullMethod : String) (params id : JsVal) : JsVal :=
  .obj [("jsonrpc",Js.str "2.0"),("method",Js.str fullMethod),("params",params),("id",id)]

def buildNotification (fullMethod : String) (params : JsVal) : JsVal :=
  .obj [("jsonrpc",Js.str "2.0"),("method",Js.str fullMethod),("params",params)]

end Clamator.Protocol
