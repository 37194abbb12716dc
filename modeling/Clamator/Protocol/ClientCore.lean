import Clamator.Protocol.EnvelopePy

/-!
# The caller's side (`client-core.ts`, `client_core.py`)

`callEnvelope` is what `call` sends, `callOutcome` what it makes of the reply
that its transport resolves with.
-/

namespace Clamator.Protocol
open Clamator.Base

/-- How a call settles once a reply is there: with a value, with an `RpcError`, or
with a `ClamatorProtocolError`. -/
inductive CallOutcome (V : Type) where
  | result (v : V)
  | rpcError (code : V) (message : String) (data : V)
  | protocolError (message : String)

/-- The envelope of `call(service, method, params)` with a fresh id. -/
def callEnvelope (service method : String) (params : JsVal) (id : String) : Except String JsVal :=
  if !serviceRe service.toList then .error ("invalid service \""++service++"\"")
  else if !methodRe method.toList then .error ("invalid method \""++method++"\"")
  else .ok (buildRequest (service++"."++method) params (Js.str id))

def pyCallEnvelope (service method : String) (params : PyVal) (id : String) : Except String PyVal :=
  if !serviceReMatch service.toList then .error ("invalid service \""++service++"\"")
  else if !methodReMatch method.toList then .error ("invalid method \""++method++"\"")
  else .ok (pyBuildRequest (service++"."++method) params (Py.str id))

/- The text of `parsed.kind`. -/
def Envelope.kind {V : Type} : Envelope V → String
  | .request _ _ _ _ _ => "request"
  | .notification _ _ _ _ => "notification"
  | .success _ _ => "success"
  | .error _ _ _ _ => "error"

def Envelope.pyKind {V : Type} : Envelope V → String
  | .request _ _ _ _ _ => "EnvelopeKind.REQUEST"
  | .notification _ _ _ _ => "EnvelopeKind.NOTIFICATION"
  | .success _ _ => "EnvelopeKind.SUCCESS_RESPONSE"
  | .error _ _ _ _ => "EnvelopeKind.ERROR_RESPONSE"

def settleCall {V : Type} (kind : Envelope V → String) : Except String (Envelope V) → CallOutcome V
  | .error e => .protocolError ("invalid response envelope: "++e)
  | .ok (.success _ result) => .result result
  | .ok (.error _ code message data) => .rpcError code message data
  | .ok env => .protocolError ("unexpected response kind: "++kind env)

def callOutcome (reply : JsVal) : CallOutcome JsVal := settleCall Envelope.kind (parseEnvelope reply)

def pyCallOutcome (reply : PyVal) : CallOutcome PyVal :=
  settleCall Envelope.pyKind (pyParseEnvelope reply)

end Clamator.Protocol
