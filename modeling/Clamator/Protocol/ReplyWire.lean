import Clamator.Protocol.Wire
import Clamator.Protocol.ServerCore
import Clamator.Protocol.ClientCore

/-!
# Replies over the wire

A reply that the TypeScript dispatcher builds is written by `JSON.stringify` and
read back by the client. Its kind is told by its keys, so a success whose
validated result is `undefined` loses the key that says what it is.
-/

namespace Clamator.Protocol
open Clamator.Base Clamator.Base.Binary64

/-- The id of a request: `parseEnvelope` lets no other value through. -/
inductive RequestId where
  | str (s : String)
  | num (x : Double)

def RequestId.val : RequestId → JsVal
  | .str s => Js.str s
  | .num x => Js.num x

def RequestId.value : RequestId → RequestId
  | .str s => .str s
  | .num x => .num x.value

theorem RequestId.byValue_val (id : RequestId) : byValue id.val=id.value.val := by
  cases id <;> rfl

def RequestId.Finite : RequestId → Prop
  | .str _ => True
  | .num x => x.isFinite=true

/-- A value on arrival: without what `undefined` is dropped from. At the top
`undefined` may also arrive as null. -/
def Arrives (sent received : JsVal) : Prop :=
  received=dropUndefined sent ∨ sent=Js.undefined ∧ received=Js.null

/-- The client reads the reply as the same kind of response, with the same id and
the same content (numbers by value), and the call settles with that content. -/
def Survives (reply : JsVal) : Prop := ∃ received, overWire reply=some received ∧
  match parseEnvelope reply,parseEnvelope received with
  | .ok (.success id result),.ok (.success id' result') =>
    id'=byValue id ∧ Arrives result result' ∧ callOutcome received=.result result'
  | .ok (.error id code message data),.ok (.error id' code' message' data') =>
    id'=byValue id ∧ code'=byValue code ∧ message'=message ∧ Arrives data data' ∧
      callOutcome received=.rpcError code' message' data'
  | _,_ => False

/-! ### The outcomes of user code -/

def EncodableThrown (e : Thrown) : Prop :=
  ∀ data, exceptionToErrorData e=some data → Encodable (.obj data)

/-- An `RpcError` of a handler: a finite code, JSON data. Of other exceptions, the
properties that become error data. -/
def EncodableRejection : Thrown → Prop
  | .rpcError code _ data => (∃ x, code=Js.num x ∧ x.isFinite=true) ∧ Encodable data
  | e => EncodableThrown e

def EncodableOutcome (entry : ServiceEntry) (method : String) (params : JsVal) : Prop :=
  match entry.contract.lookup method with
  | none => True
  | some d => match d.params params with
    | .error e => EncodableThrown e
    | .ok parsed => match entry.handlers method with
      | none => True
      | some handler => match handler parsed with
        | .threw _ => True
        | .rejected e => EncodableRejection e
        | .resolved result => match d.parseResult result with
          | .ok validated => Encodable validated
          | .error e => EncodableThrown e

/-- What the result schema makes of the value that the handler resolves to, where
the call gets that far. -/
def validatedResult (entry : ServiceEntry) (method : String) (params : JsVal) : Option JsVal :=
  match entry.contract.lookup method with
  | none => none
  | some d => match d.params params with
    | .error _ => none
    | .ok parsed => match entry.handlers method with
      | none => none
      | some handler => match handler parsed with
        | .resolved result => match d.parseResult result with
          | .ok validated => some validated
          | .error _ => none
        | _ => none

/-! ### One reply over the wire -/

theorem wire_id (id : RequestId) (h : id.Finite) :
    id.val.write wireLeaf .null=.keep id.value.val := by
  cases id with
  | str s => rfl
  | num x => simp only [RequestId.val,RequestId.value,JsonTree.write,wireLeaf_num x h,JsonTree.Slot.map]

theorem wire_id_null (id : RequestId) (h : ¬id.Finite) :
    id.val.write wireLeaf .null=.keep Js.null := by
  cases id with
  | str s => exact (h trivial).elim
  | num x => cases x with
    | infinity b => rfl
    | nan => rfl
    | _ => exact (h rfl).elim

theorem overWire_success (id : RequestId) (sentId result : JsVal) (he : Encodable result)
    (hid : id.val.write wireLeaf .null=.keep sentId) (h : result≠Js.undefined) :
    overWire (buildSuccessResponse id.val result)=
      some (buildSuccessResponse sentId (dropUndefined result)) := by
  rw [overWire_eq]
  simp only [buildSuccessResponse,JsonTree.write,JsonTree.writeFields,hid,write_wireLeaf result he h,
    wireLeaf_str,JsonTree.Slot.map]

theorem overWire_success_undefined (id : RequestId) (sentId : JsVal)
    (hid : id.val.write wireLeaf .null=.keep sentId) :
    overWire (buildSuccessResponse id.val Js.undefined)=
      some (.obj [("jsonrpc",Js.str "2.0"),("id",sentId)]) := by
  rw [overWire_eq]
  have hu : wireLeaf .undefined=.skip := rfl
  simp only [buildSuccessResponse,JsonTree.write,JsonTree.writeFields,hid,hu,wireLeaf_str,JsonTree.Slot.map]

theorem orNull_ne_undefined (data : JsVal) : Js.orNull data≠Js.undefined := by
  cases data with
  | leaf a => cases a <;> simp [Js.orNull]
  | arr xs => simp [Js.orNull]
  | obj fs => simp [Js.orNull]

theorem orNull_of_ne (data : JsVal) (h : data≠Js.undefined) : Js.orNull data=data := by
  cases data with
  | leaf a => cases a <;> simp [Js.orNull] at h ⊢
  | arr xs => rfl
  | obj fs => rfl

theorem encodable_orNull (data : JsVal) (h : Encodable data) : Encodable (Js.orNull data) := by
  cases data with
  | leaf a => cases a <;> exact h
  | arr xs => exact h
  | obj fs => exact h

theorem overWire_error (id : RequestId) (sentId : JsVal) (x : Double) (message : String)
    (data : JsVal) (hx : x.isFinite=true) (he : Encodable data)
    (hid : id.val.write wireLeaf .null=.keep sentId) :
    overWire (buildErrorResponse id.val (Js.num x) message data)=
      some (buildErrorResponse sentId (Js.num x.value) message (dropUndefined (Js.orNull data))) := by
  have hd := write_wireLeaf (Js.orNull data) (encodable_orNull data he) (orNull_ne_undefined data)
  have hn := orNull_of_ne _ (dropUndefined_ne_undefined _ (orNull_ne_undefined data))
  rw [overWire_eq]
  simp only [buildErrorResponse,JsonTree.write,JsonTree.writeFields,hid,hd,hn,wireLeaf_str,
    wireLeaf_num x hx,JsonTree.Slot.map]

/-! ### Reading it back -/

theorem parse_success (id : RequestId) (result : JsVal) :
    parseEnvelope (buildSuccessResponse id.val result)=.ok (.success id.val result) := by
  cases id <;> rfl

theorem parse_error (id : RequestId) (x : Double) (message : String) (data : JsVal) :
    parseEnvelope (buildErrorResponse id.val (Js.num x) message data)=
      .ok (.error id.val (Js.num x) message (Js.orNull data)) := by
  have hd : Js.orElse (some (Js.orNull data)) Js.null=Js.orNull data := by
    cases data with
    | leaf a => cases a <;> rfl
    | arr xs => rfl
    | obj fs => rfl
  cases id <;> exact congrArg (fun d => Except.ok (Envelope.error _ _ _ d)) hd

theorem success_survives_iff (id : RequestId) (result : JsVal) (he : Encodable result) :
    Survives (buildSuccessResponse id.val result) ↔ id.Finite ∧ result≠Js.undefined := by
  unfold Survives
  rw [parse_success]
  by_cases hu : result=Js.undefined
  · subst hu
    refine iff_of_false ?_ fun h => h.2 rfl
    rintro ⟨received,hr,h⟩
    by_cases hf : id.Finite
    · rw [overWire_success_undefined id _ (wire_id id hf)] at hr
      cases hr
      exact h
    · rw [overWire_success_undefined id _ (wire_id_null id hf)] at hr
      cases hr
      exact h
  · by_cases hf : id.Finite
    · refine iff_of_true ?_ ⟨hf,hu⟩
      refine ⟨_,overWire_success id _ result he (wire_id id hf) hu,?_⟩
      rw [parse_success,callOutcome,parse_success]
      exact ⟨id.byValue_val.symm,Or.inl rfl,rfl⟩
    · refine iff_of_false ?_ fun h => hf h.1
      rintro ⟨received,hr,h⟩
      rw [overWire_success id _ result he (wire_id_null id hf) hu] at hr
      cases hr
      exact h

theorem error_survives_iff (id : RequestId) (x : Double) (message : String) (data : JsVal)
    (hx : x.isFinite=true) (he : Encodable data) :
    Survives (buildErrorResponse id.val (Js.num x) message data) ↔ id.Finite := by
  unfold Survives
  rw [parse_error]
  by_cases hf : id.Finite
  · refine iff_of_true ?_ hf
    refine ⟨_,overWire_error id _ x message data hx he (wire_id id hf),?_⟩
    have hn := orNull_of_ne _ (dropUndefined_ne_undefined _ (orNull_ne_undefined data))
    rw [parse_error,callOutcome,parse_error,hn]
    exact ⟨id.byValue_val.symm,rfl,rfl,Or.inl rfl,rfl⟩
  · refine iff_of_false ?_ hf
    rintro ⟨received,hr,h⟩
    rw [overWire_error id _ x message data hx he (wire_id_null id hf)] at hr
    cases hr
    have hid : Js.null=byValue id.val := h.1
    cases id <;> cases hid

/-! ### The dispatcher's replies -/

def EncodableError (id reply : JsVal) : Prop := ∃ x message data, x.isFinite=true ∧
  Encodable data ∧ reply=buildErrorResponse id (Js.num x) message data

theorem methodNotFound_encodable (id : JsVal) : EncodableError id (methodNotFound id) :=
  ⟨_,_,Js.undefined,rfl,trivial,rfl⟩

theorem failure_encodable (logged : Bool) (id reply : JsVal) (code : ℤ) (message : String)
    (e : Thrown) (hc : (ofInt code).isFinite=true) (he : EncodableThrown e)
    (h : failure logged id code message e=.returned (some reply)) : EncodableError id reply := by
  unfold failure at h
  split at h
  · rename_i data hd
    cases h
    exact ⟨_,_,_,hc,he data hd,rfl⟩
  · cases h

theorem rejection_encodable (log : String → Thrown → Bool) (d : MethodDef) (id reply : JsVal)
    (e : Thrown) (he : EncodableRejection e)
    (h : settleHandler log d (some id) (.rejected e)=.returned (some reply)) :
    EncodableError id reply := by
  cases e with
  | rpcError code message data =>
    obtain ⟨⟨x,hx,hf⟩,hd⟩ := he
    subst hx
    cases h
    exact ⟨x,message,data,hf,hd,rfl⟩
  | error e => exact failure_encodable _ id reply _ _ _ rfl he h
  | other typeOf text => exact failure_encodable _ id reply _ _ _ rfl he h

/- A reply of the dispatcher is the success response with the validated result, or an
error response. -/
theorem reply_cases (entry : ServiceEntry) (method : String) (params id reply : JsVal)
    (h : (dispatchCall entry method params (some id)).settled=.returned (some reply))
    (he : EncodableOutcome entry method params) :
    (∃ v, validatedResult entry method params=some v ∧ Encodable v ∧
      reply=buildSuccessResponse id v) ∨
    (validatedResult entry method params=none ∧ EncodableError id reply) := by
  unfold dispatchCall at h
  unfold EncodableOutcome at he
  unfold validatedResult
  cases hl : entry.contract.lookup method with
  | none =>
    simp only [hl] at h
    cases h
    exact Or.inr ⟨rfl,methodNotFound_encodable id⟩
  | some d =>
    simp only [hl] at h he ⊢
    cases hp : d.params params with
    | error e =>
      simp only [hp] at h he ⊢
      exact Or.inr ⟨trivial,failure_encodable _ id reply _ _ e rfl he h⟩
    | ok parsed =>
      simp only [hp] at h he ⊢
      cases hh : entry.handlers method with
      | none =>
        simp only [hh] at h
        cases h
        exact Or.inr ⟨rfl,methodNotFound_encodable id⟩
      | some handler =>
        simp only [hh] at h he ⊢
        cases hr : handler parsed with
        | threw e =>
          simp only [hr] at h
          cases h
        | rejected e =>
          simp only [hr] at h he ⊢
          exact Or.inr ⟨trivial,rejection_encodable _ d id reply e he h⟩
        | resolved result =>
          simp only [hr,settleHandler] at h he ⊢
          split at h
          · cases h
          · cases hv : d.parseResult result with
            | ok v =>
              simp only [hv] at h he ⊢
              cases h
              exact Or.inl ⟨v,rfl,he,rfl⟩
            | error e =>
              simp only [hv] at h he ⊢
              exact Or.inr ⟨trivial,failure_encodable _ id reply _ _ e rfl he h⟩

/-- Which replies of the dispatcher to a request survive the wire. -/
theorem reply_survives_iff (entry : ServiceEntry) (s method f : String) (params : JsVal)
    (id : RequestId) (reply : JsVal)
    (h : (dispatcher (some entry) (.request s method f params id.val)).settled=.returned (some reply))
    (he : EncodableOutcome entry method params) :
    Survives reply ↔ id.Finite ∧ validatedResult entry method params≠some Js.undefined := by
  rcases reply_cases entry method params id.val reply h he with
    ⟨v,hv,hev,rfl⟩ | ⟨hv,x,message,data,hx,hed,rfl⟩
  · rw [success_survives_iff id v hev,hv]
    simp
  · rw [error_survives_iff id x message data hx hed,hv]
    simp

/-- A contract whose method `reset` answers nothing: its result schema accepts
`undefined` as it is. -/
def resetContract : Contract :=
  ⟨"arith",[("reset",⟨.ok,some (some .ok),false⟩)],serviceRe_arith,rfl⟩

def resetEntry (v : JsVal) : ServiceEntry :=
  ⟨resetContract,fun _ => some fun _ => .resolved v,fun _ => true⟩

theorem reply_survives_iff_null : Survives (buildSuccessResponse (Js.str "1") Js.null) ↔
    (RequestId.str "1").Finite ∧
      validatedResult (resetEntry Js.null) "reset" (.obj [])≠some Js.undefined :=
  reply_survives_iff (resetEntry Js.null) "arith" "reset" "arith.reset" (.obj []) (.str "1") _ rfl
    trivial

/-- The client cannot tell what the reply of a method without a result is. -/
theorem undefinedResult_lost : EncodableOutcome (resetEntry Js.undefined) "reset" (.obj []) ∧
    ∃ reply received,
      (dispatcher (some (resetEntry Js.undefined))
        (.request "arith" "reset" "arith.reset" (.obj []) (Js.str "1"))).settled=
          .returned (some reply) ∧
      overWire reply=some received ∧ ¬Survives reply ∧
      callOutcome received=.protocolError ("invalid response envelope: "++
        invalidRequest "envelope must be request, notification, or response") := by
  refine ⟨trivial,_,_,rfl,rfl,?_,rfl⟩
  rintro ⟨received,hr,h⟩
  cases hr
  exact h

end Clamator.Protocol
