import Clamator.Protocol.Envelope

/-!
# Envelopes in Python (`clamator_protocol/envelope.py`)

`parse_envelope` and its builders. `bool` is a subclass of `int` in Python: the
id check takes it out again, the check of an error's code does not.
-/

namespace Clamator.Protocol
open Clamator.Base
open Clamator.Base.JsonTree (member hasMember)

def Py.present (x : Option PyVal) : Option PyVal := match x with
  | none => none
  | some Py.null => none
  | some v => some v

def pySplitMethod (fullMethod : String) : Except String (String × String) :=
  match partitionAtDot fullMethod.toList with
  | none => .error (invalidRequest "method must be \"<service>.<method>\"")
  | some (service,method) =>
    if !serviceReMatch service then .error (invalidRequest "invalid service segment")
    else if !methodReMatch method then .error (invalidRequest "invalid method segment")
    else .ok (String.ofList service,String.ofList method)

def pyParseCall (value : List (String × PyVal)) (fullMethod : String) :
    Except String (Envelope PyVal) :=
  match pySplitMethod fullMethod with
  | .error e => .error e
  | .ok (service,method) =>
    let params := (member value "params").getD (.obj [])
    match Py.present (member value "id") with
    | none => .ok (.notification service method fullMethod params)
    | some (Py.str s) => .ok (.request service method fullMethod params (Py.str s))
    | some (Py.int n) => .ok (.request service method fullMethod params (Py.int n))
    | some _ => .error (invalidRequest "id must be string or number")

def pyParseSuccess (value : List (String × PyVal)) : Except String (Envelope PyVal) :=
  match Py.present (member value "id") with
  | none => .error (invalidRequest "response must have id")
  | some id => .ok (.success id ((member value "result").getD Py.null))

/- `isinstance(x, int)` -/
def Py.isInt : PyVal → Bool
  | Py.int _ => true
  | Py.bool _ => true
  | _ => false

def pyParseError (value : List (String × PyVal)) : Except String (Envelope PyVal) :=
  match member value "error" with
  | some (.obj err) => match member err "code",member err "message" with
    | some code,some (Py.str message) =>
      if Py.isInt code then
        .ok (.error ((Py.present (member value "id")).getD Py.null) code message
          ((member err "data").getD Py.null))
      else .error (invalidRequest "error must have numeric code + string message")
    | _,_ => .error (invalidRequest "error must have numeric code + string message")
  | _ => .error (invalidRequest "error must have numeric code + string message")

def pyParseResponse (value : List (String × PyVal)) : Except String (Envelope PyVal) :=
  match hasMember value "result",hasMember value "error" with
  | true,false => pyParseSuccess value
  | false,true => pyParseError value
  | _,_ => .error (invalidRequest "envelope must be request, notification, or response")

def pyParseEnvelope (value : PyVal) : Except String (Envelope PyVal) :=
  match value with
  | .arr _ => .error (invalidRequest "batch requests not supported")
  | .leaf _ => .error (invalidRequest "not an object")
  | .obj value => match member value "jsonrpc" with
    | some (Py.str "2.0") => match member value "method" with
      | some (Py.str fullMethod) => pyParseCall value fullMethod
      | _ => pyParseResponse value
    | _ => .error (invalidRequest "jsonrpc must equal \"2.0\"")

/- `parse_envelope(json.loads(text))` -/
def pyReadEnvelope (d : Doc) : Except String (Envelope PyVal) := match jsonLoads d with
  | none => .error "ValueError"
  | some value => pyParseEnvelope value

def pyBuildSuccessResponse (id result : PyVal) : PyVal :=
  .obj [("jsonrpc",Py.str "2.0"),("id",id),("result",result)]

def pyBuildErrorResponse (id code : PyVal) (message : String) (data : PyVal) : PyVal :=
  .obj [("jsonrpc",Py.str "2.0"),("id",id),
    ("error",.obj [("code",code),("message",Py.str message),("data",data)])]

def pyBuildRequest (fullMethod : String) (params id : PyVal) : PyVal :=
  .obj [("jsonrpc",Py.str "2.0"),("method",Py.str fullMethod),("params",params),("id",id)]

def pyBuildNotification (fullMethod : String) (params : PyVal) : PyVal :=
  .obj [("jsonrpc",Py.str "2.0"),("method",Py.str fullMethod),("params",params)]

end Clamator.Protocol
