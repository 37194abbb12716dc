import Clamator.Redis.RoundTrip
import Clamator.Redis.HandleEntry

/-!
# Calls over memory and over Redis (`over-memory/src/transport.ts`, `over-redis`)

How `RpcClientCore.call` ends over either transport where no timer fires and no
command of Redis fails. The memory transport hands the parsed envelope to the
dispatcher and the reply to the caller as they are; over Redis both are written
and read again.
-/

namespace Clamator.Redis
open Clamator.Base Clamator.Base.Binary64 Clamator.Protocol
open Clamator.Base.JsonTree (member)

/-- How a call ends: with what its reply says, with the `Error` of a bad name, or with
the rejection of `send`. `unanswered` is left to the timeout. -/
inductive CallEnd where
  | settled (o : CallOutcome JsVal)
  | badName (message : String)
  | rejected (message : String)
  | unanswered

/-- The numbers of it by value. -/
def CallEnd.value : CallEnd → CallEnd
  | .settled (.result v) => .settled (.result (byValue v))
  | .settled (.rpcError code message data) => .settled (.rpcError (byValue code) message (byValue data))
  | e => e

def unknownService (id : JsVal) : JsVal :=
  .obj [("jsonrpc",Js.str "2.0"),("id",id),("error",.obj [("code",Js.num (ofInt (-32601))),
    ("message",Js.str "Method not found"),("data",Js.null)])]

/- `MemoryTransport.send`, its microtask included; `entries` are the services on the bus. -/
def memorySend (entries : List ServiceEntry) (env : JsVal) : Except String JsVal :=
  match parseEnvelope env with
  | .error e => .error e
  | .ok (.request service method fullMethod params id) =>
    match entries.find? (·.contract.service == service) with
    | none => .ok (unknownService id)
    | some entry =>
      match (dispatcher (some entry) (.request service method fullMethod params id)).settled with
      | .returned (some reply) => .ok reply
      | .returned none => .error "dispatcher returned null for a request"
      | .rejected => .error "dispatcher threw"
      | .cancelled => .error "dispatcher threw"
  | .ok _ => .error "send requires a request envelope"

def memoryCall (entries : List ServiceEntry) (service method : String) (params : JsVal)
    (id : String) : CallEnd := match callEnvelope service method params id with
  | .error e => .badName e
  | .ok env => match memorySend entries env with
    | .error e => .rejected e
    | .ok reply => .settled (callOutcome reply)

def addedTo (stream : String) (commands : List Command) : Option Doc := commands.findSome? fun
  | .xadd replyTo d => if replyTo=stream then some d else none
  | .xack => none

/-- Why `ClientRedisTransport.send` rejects before it waits. -/
def sendProblem (env : JsVal) : String := match parseEnvelope env with
  | .error e => e
  | .ok (.request _ _ _ _ _) => "TypeError"
  | .ok _ => "send requires a request envelope"

/-- `ClientRedisTransport.send`: the server that registered the service of the stream
handles the entry, the reply loop takes the reply that this adds. -/
def redisCall (D : Deployment) (instanceId : String) (entries : List ServiceEntry)
    (service method : String) (params : JsVal) (id : String) : CallEnd :=
  match callEnvelope service method params id with
  | .error e => .badName e
  | .ok env => match send D instanceId env with
    | none => .rejected (sendProblem env)
    | some (stream,fields) =>
      match entries.find? (D.commandStream ·.contract.service == stream) with
      | none => .unanswered
      | some entry =>
        match addedTo (D.replyStream instanceId) (handleEntry entry fields).commands with
        | none => .unanswered
        | some d => match replyOf D .ts (D.plainFields d) with
          | some (replyId,.js o) => if replyId=id then .settled o else .unanswered
          | _ => .unanswered

/-! ### What user code may put into a reply -/

/-- `log` is the call of the logger about the exception. -/
def JsonThrown (log : Option JsVal → Thrown → Bool) (e : Thrown) : Prop :=
  (∀ id, log id e=true) ∧ ∃ data, exceptionToErrorData e=some data ∧ IsJson (.obj data)

def JsonRejection (log : Option JsVal → Thrown → Bool) : Thrown → Prop
  | .rpcError code _ data => (∃ x, code=Js.num x) ∧ IsJson (Js.orNull data)
  | e => JsonThrown log e

/-- A value that the params schema of a method makes of JSON params. -/
def ParsedParams (entry : ServiceEntry) (method : String) (d : MethodDef) (v : JsVal) : Prop :=
  entry.contract.methods.lookup method=some d ∧ ∃ params, IsJson params ∧ d.params params=.ok v

/-- On JSON params handlers return promises, results and error data are JSON, and the logger
returns. -/
structure JsonService (entry : ServiceEntry) : Prop where
  params : ∀ method d v e, entry.contract.lookup method=some d → IsJson v →
    d.params v=.error e → JsonThrown (entry.logger.paramsFailed entry.contract.service method) e
  promise : ∀ method d v handler e, ParsedParams entry method d v →
    entry.handlers method=some handler → handler v≠.threw e
  rejection : ∀ method d v handler e, ParsedParams entry method d v →
    entry.handlers method=some handler → handler v=.rejected e →
      JsonRejection (fun id => entry.logger.failed entry.contract.service method id "RPC handler raised") e
  result : ∀ method d v handler r w, ParsedParams entry method d v →
    entry.handlers method=some handler → handler v=.resolved r → d.parseResult r=.ok w → IsJson w
  invalid : ∀ method d v handler r e, ParsedParams entry method d v →
    entry.handlers method=some handler → handler v=.resolved r → d.parseResult r=.error e →
      JsonThrown (fun id => entry.logger.failed entry.contract.service method id "RPC result validation failed") e

def FiniteCodes (entry : ServiceEntry) : Prop := ∀ method d v handler x message data,
  ParsedParams entry method d v → entry.handlers method=some handler →
    handler v=.rejected (.rpcError (Js.num x) message data) → x.isFinite=true

/-- A success or an error response whose content is JSON. -/
def JsonReply (id reply : JsVal) : Prop :=
  (∃ result, IsJson result ∧ reply=buildSuccessResponse id result) ∨
  ∃ x message data, x.isFinite=true ∧ IsJson (Js.orNull data) ∧
    reply=buildErrorResponse id (Js.num x) message data

theorem jsonReply_error (s : String) (x : Double) (message : String) (data : JsVal)
    (hx : x.isFinite=true) (hd : IsJson (Js.orNull data)) :
    JsonReply (Js.str s) (buildErrorResponse (Js.str s) (Js.num x) message data) :=
  Or.inr ⟨x,message,data,hx,hd,rfl⟩

theorem jsonReply_success (s : String) (result : JsVal) (h : IsJson result) :
    JsonReply (Js.str s) (buildSuccessResponse (Js.str s) result) := Or.inl ⟨result,h,rfl⟩

theorem JsonReply.isJson {s : String} {reply : JsVal} (h : JsonReply (Js.str s) reply) : IsJson reply := by
  rcases h with ⟨result,hr,rfl⟩ | ⟨x,message,data,hx,hd,rfl⟩
  · exact ⟨trivial,trivial,hr,trivial⟩
  · exact ⟨trivial,trivial,⟨hx,trivial,hd,trivial⟩,trivial⟩

theorem orNull_byValue (data : JsVal) : Js.orNull (byValue (Js.orNull data))=byValue (Js.orNull data) := by
  cases data with
  | leaf a => cases a <;> rfl
  | arr xs => rfl
  | obj fs => rfl

/- The content of the reply that arrives is that of the reply that was sent, by value. -/
theorem JsonReply.outcome {s : String} {reply : JsVal} (h : JsonReply (Js.str s) reply) :
    CallEnd.settled (callOutcome (byValue reply))=(CallEnd.settled (callOutcome reply)).value := by
  rcases h with ⟨result,_,rfl⟩ | ⟨x,message,data,_,_,rfl⟩
  · have hsent := parse_success (.str s) result
    have hread := parse_success (.str s) (byValue result)
    have hval : byValue (buildSuccessResponse (Js.str s) result)=buildSuccessResponse (Js.str s) (byValue result) := rfl
    simp only [RequestId.val] at hsent hread
    simp only [hval,callOutcome,hsent,hread,settleCall,CallEnd.value]
  · have hsent := parse_error (.str s) x message data
    have hread := parse_error (.str s) x.value message (byValue (Js.orNull data))
    have hval : byValue (buildErrorResponse (Js.str s) (Js.num x) message data)=
        buildErrorResponse (Js.str s) (Js.num x.value) message (byValue (Js.orNull data)) := by
      unfold buildErrorResponse
      rw [orNull_byValue]
      rfl
    have hcode : byValue (Js.num x)=Js.num x.value := rfl
    simp only [RequestId.val] at hsent hread
    simp only [hval,callOutcome,hsent,hread,settleCall,CallEnd.value,orNull_byValue,hcode]

theorem jsonReply_notFound (s : String) : JsonReply (Js.str s) (methodNotFound (Js.str s)) :=
  jsonReply_error s _ _ _ rfl trivial

theorem failure_json (s : String) (code : ℤ) (message : String) (log : Option JsVal → Thrown → Bool)
    (e : Thrown) (hc : (ofInt code).isFinite=true) (he : JsonThrown log e) :
    ∃ reply, failure (log (some (Js.str s)) e) (Js.str s) code message e=.returned (some reply) ∧
      JsonReply (Js.str s) reply := by
  obtain ⟨hlog,data,hd,hj⟩ := he
  refine ⟨_,?_,jsonReply_error s (ofInt code) message (.obj data) hc hj⟩
  simp only [Protocol.failure,hlog,hd]

theorem settleHandler_json {entry : ServiceEntry} (h : JsonService entry) (hf : FiniteCodes entry)
    (method : String) (d : MethodDef) (v : JsVal) (hv : ParsedParams entry method d v)
    (hn : d.notification=false) (handler : Handler) (hh : entry.handlers method=some handler)
    (s : String) : ∃ reply, settleHandler (entry.logger.failed entry.contract.service method (some (Js.str s)))
      d (some (Js.str s)) (handler v)=.returned (some reply) ∧ JsonReply (Js.str s) reply := by
  cases hr : handler v with
  | threw e => exact (h.promise method d v handler e hv hh hr).elim
  | rejected e =>
    have he := h.rejection method d v handler e hv hh hr
    cases e with
    | rpcError code message data =>
      obtain ⟨⟨x,rfl⟩,hdata⟩ := he
      have hx := hf method d v handler x message data hv hh hr
      exact ⟨_,rfl,jsonReply_error s x message data hx hdata⟩
    | error e => exact failure_json s _ _ _ _ rfl he
    | other typeOf text => exact failure_json s _ _ _ _ rfl he
  | resolved result =>
    simp only [settleHandler,hn,Bool.false_eq_true,if_false]
    cases hp : d.parseResult result with
    | ok validated =>
      exact ⟨_,rfl,jsonReply_success s validated (h.result method d v handler _ _ hv hh hr hp)⟩
    | error e => exact failure_json s _ _ _ _ rfl (h.invalid method d v handler _ _ hv hh hr hp)

/- The function that `methods` inherits parses nothing. -/
theorem lookup_parsed {entry : ServiceEntry} {method : String} {d : MethodDef} {params parsed : JsVal}
    (hn : ∀ d, entry.contract.methods.lookup method=some d → d.notification=false)
    (hd : entry.contract.lookup method=some d) (hv : d.params params=.ok parsed) :
    entry.contract.methods.lookup method=some d ∧ d.notification=false := by
  unfold Contract.lookup at hd
  cases hm : entry.contract.methods.lookup method with
  | none =>
    simp only [hm] at hd
    split at hd
    · cases hd
      cases hv
    · cases hd
  | some d' =>
    simp only [hm] at hd
    cases hd
    exact ⟨rfl,hn _ hm⟩

/- Every request gets a reply, and the reply is JSON. -/
theorem dispatchCall_json {entry : ServiceEntry} (h : JsonService entry) (hf : FiniteCodes entry)
    (method : String) (hn : ∀ d, entry.contract.methods.lookup method=some d → d.notification=false)
    (params : JsVal) (hj : IsJson params) (s : String) : ∃ reply, (dispatchCall entry method params (some (Js.str s))).settled=
      .returned (some reply) ∧ JsonReply (Js.str s) reply := by
  unfold dispatchCall
  cases hd : entry.contract.lookup method with
  | none => exact ⟨_,rfl,jsonReply_notFound s⟩
  | some d =>
    cases hv : d.params params with
    | error e =>
      obtain ⟨reply,hr,hreply⟩ := failure_json s (-32602) "Invalid params" _ e rfl (h.params method d _ e hd hj hv)
      simp only [hv]
      exact ⟨reply,hr,hreply⟩
    | ok parsed =>
      simp only [hv]
      cases hh : entry.handlers method with
      | none => exact ⟨_,rfl,jsonReply_notFound s⟩
      | some handler =>
        obtain ⟨hm,hn⟩ := lookup_parsed hn hd hv
        exact settleHandler_json h hf method d parsed ⟨hm,params,hj,hv⟩ hn handler hh s

/-! ### Both ways -/

theorem parse_request {service method : String} (h : Names service method) (params : JsVal)
    (id : String) : parseEnvelope (buildRequest (service++"."++method) params (Js.str id))=
      .ok (.request service method (service++"."++method) (Js.orElse (some params) (.obj [])) (Js.str id)) := by
  simp [parseEnvelope,buildRequest,member,List.lookup_cons,parseCall,h.split,Js.present]

theorem isJson_orElse (params : JsVal) (h : IsJson params) :
    IsJson (Js.orElse (some params) (.obj [])) := by
  cases params with
  | leaf a => cases a <;> first | exact h | exact trivial
  | arr xs => exact h
  | obj fs => exact h

theorem replyOf_json (D : Deployment) (id : String) (reply : JsVal) (h : JsonReply (Js.str id) reply) :
    ∃ d, jsonStringify reply=.keep d ∧
      replyOf D .ts (D.plainFields d)=some (id,.js (callOutcome (byValue reply))) := by
  have hparse := h.isJson.parse
  have hid : ∃ fs, byValue reply=.obj fs ∧ member fs "id"=some (Js.str id) := by
    rcases h with ⟨result,_,rfl⟩ | ⟨x,message,data,_,_,rfl⟩ <;> exact ⟨_,rfl,rfl⟩
  refine ⟨_,h.isJson.stringify,?_⟩
  obtain ⟨fs,hfs,hid⟩ := hid
  rw [hfs] at hparse ⊢
  have hdoc : (D.json (reply.map docOfJs)).doc.bind jsonParse=some (.obj fs) := hparse
  simp only [replyOf,fieldAfter_plainFields,Option.join_some,hdoc,hid,Option.getD_some,D.jsText_str]

theorem find_stream (D : Deployment) (entries : List ServiceEntry) (service : String) :
    entries.find? (D.commandStream ·.contract.service == D.commandStream service)=
      entries.find? (·.contract.service == service) := by
  congr 1
  funext entry
  rw [Bool.eq_iff_iff,beq_iff_eq,beq_iff_eq]
  exact ⟨D.commandStream_inj _ _,fun h => by rw [h]⟩

/-- A call with JSON params without `-0` ends over Redis as over memory, numbers by value. -/
theorem memory_redis (D : Deployment) (hD : D.PrintsObjects) (instanceId : String)
    (entries : List ServiceEntry) (service method : String) (entry : ServiceEntry)
    (hreg : entries.find? (·.contract.service == service)=some entry) (h : JsonService entry)
    (hf : FiniteCodes entry)
    (hn : ∀ d, entry.contract.methods.lookup method=some d → d.notification=false)
    (params : JsVal) (hp : IsJson params) (hu : Unsigned params) (id : String) :
    redisCall D instanceId entries service method params id=
      (memoryCall entries service method params id).value := by
  unfold memoryCall redisCall callEnvelope
  by_cases hs : serviceRe service.toList=true
  · by_cases hm : methodRe method.toList=true
    · have names : Names service method := ⟨hs,hm⟩
      have hparse := parse_request names params id
      have henv : IsJson (buildRequest (service++"."++method) params (Js.str id)) :=
        ⟨trivial,trivial,hp,trivial,trivial⟩
      have hunsigned : Unsigned (buildRequest (service++"."++method) params (Js.str id)) :=
        ⟨trivial,trivial,hu,trivial,trivial⟩
      have hd := henv.stringify
      have hread := henv.parse
      rw [byValue_unsigned hunsigned] at hread
      obtain ⟨fs,hfs⟩ := jsonParse_obj _ _ hread
      rw [hfs] at hd hread
      obtain ⟨reply,hreply,hjson⟩ := dispatchCall_json h hf method hn _ (isJson_orElse params hp) id
      obtain ⟨d',hd',hout⟩ := replyOf_json D id reply hjson
      have hdispatch : (dispatcher (some entry) (.request service method (service++"."++method)
          (Js.orElse (some params) (.obj [])) (Js.str id))).settled=.returned (some reply) := hreply
      have hmemory : memorySend entries (buildRequest (service++"."++method) params (Js.str id))=
          .ok reply := by
        simp only [memorySend,hparse,hreg,hdispatch]
      have hsend : send D instanceId (buildRequest (service++"."++method) params (Js.str id))=
          some (D.commandStream service,callFields D instanceId (.obj fs) (some id)) := by
        simp only [send,hparse,hd,callFields]
      have henvelope : readEnvelope (.obj fs)=.ok (.request service method (service++"."++method)
          (Js.orElse (some params) (.obj [])) (Js.str id)) := by
        simp only [readEnvelope,hread,hparse]
      have hentry := readEntry_callFields D hD instanceId fs _ (some id) henvelope
      have hhandle : handleEntry entry (callFields D instanceId (.obj fs) (some id))=
          ⟨[.xadd (D.replyStream instanceId) d',.xack],false⟩ := by
        simp only [handleEntry,hentry,hdispatch,Option.map_some,finishEntry,hd']
      have hadded : addedTo (D.replyStream instanceId) [.xadd (D.replyStream instanceId) d',.xack]=
          some d' := by
        simp [addedTo]
      simp only [hs,hm,Bool.not_true,Bool.false_eq_true,if_false,hmemory,hsend,find_stream,hreg,
        hhandle,hadded,hout,if_true,hjson.outcome]
    · simp [hs,hm,CallEnd.value]
  · simp [hs,CallEnd.value]

def arithEntry (run : Handler) : ServiceEntry := ⟨addContract,fun _ => some run,fun _ => true⟩

theorem addContract_lookup (method : String) (d : MethodDef) (h : addContract.methods.lookup method=some d) :
    method="add" ∧ d=⟨.ok,some (some .ok),false⟩ := by
  unfold addContract at h
  simp only [List.lookup_cons,List.lookup_nil] at h
  split at h
  · rename_i hm
    exact ⟨by simpa using hm,(Option.some.inj h).symm⟩
  · cases h

theorem arithEntry_json (run : Handler) (hthrew : ∀ v e, run v≠.threw e)
    (hrejected : ∀ log, (∀ id e, log id e=true) → ∀ v e, run v=.rejected e → JsonRejection log e)
    (hresolved : ∀ v r, IsJson v → run v=.resolved r → IsJson r) : JsonService (arithEntry run) where
  params := by
    intro method d v e hd _ he
    unfold Contract.lookup at hd
    split at hd
    · rename_i d' hm
      obtain ⟨_,rfl⟩ := addContract_lookup method d' hm
      cases hd
      cases he
    · split at hd
      · cases hd
        cases he
        exact ⟨fun _ => rfl,_,rfl,trivial,trivial,trivial⟩
      · cases hd
  promise := by
    intro method d v handler e _ hh
    cases hh
    exact hthrew v e
  rejection := by
    intro method d v handler e _ hh he
    cases hh
    exact hrejected _ (fun _ _ => rfl) v e he
  result := by
    intro method d v handler r w hv hh hr hw
    obtain ⟨hd,params,hp,hparse⟩ := hv
    obtain ⟨_,rfl⟩ := addContract_lookup method d hd
    cases hh
    cases hparse
    cases hw
    exact hresolved v r hp hr
  invalid := by
    intro method d v handler r e hv _ _ he
    obtain ⟨_,rfl⟩ := addContract_lookup method d hv.1
    cases he

theorem memory_redis_echo : redisCall addDeployment "c1" [arithEntry .resolved] "arith" "add"
    (.obj [("x",Js.num (ofInt 1))]) "1"=(memoryCall [arithEntry .resolved] "arith" "add"
      (.obj [("x",Js.num (ofInt 1))]) "1").value := by
  apply memory_redis addDeployment addDeployment_prints "c1" [arithEntry .resolved] "arith" "add"
    (arithEntry .resolved) rfl
  · apply arithEntry_json
    · intro v e h
      cases h
    · intro log _ v e h
      cases h
    · intro v r hv h
      cases h
      exact hv
  · intro method d v handler x message data _ hh h
    cases hh
    cases h
  · intro d hd
    obtain ⟨_,rfl⟩ := addContract_lookup "add" d hd
    rfl
  · exact ⟨rfl,trivial⟩
  · have hone : ofInt 1≠.negativeZero := by decide
    exact ⟨hone,trivial⟩

/-- Tells the two zeros apart. -/
def zeroSign : Handler
  | .obj [("x",Js.num .negativeZero)] => .resolved (Js.str "negative")
  | _ => .resolved (Js.str "positive")

/-- Its handler rejects with an `Error`, and its logger throws on that. -/
def unloggedEntry : ServiceEntry :=
  { arithEntry (fun _ => .rejected (typeError "boom")) with logger := fun _ => false }

/-- Over memory only an `RpcError` whose code is NaN reaches the caller, `-0` reaches the handler,
and the caller of a dispatcher whose logger throws is told. -/
theorem transports_differ :
    (JsonService (arithEntry fun _ => .rejected (.rpcError (Js.num .nan) "no code" Js.null)) ∧
      memoryCall [arithEntry fun _ => .rejected (.rpcError (Js.num .nan) "no code" Js.null)] "arith" "add"
        (.obj []) "1"=.settled (.rpcError (Js.num .nan) "no code" Js.null) ∧
      redisCall addDeployment "c1" [arithEntry fun _ => .rejected (.rpcError (Js.num .nan) "no code" Js.null)]
        "arith" "add" (.obj []) "1"=.settled (.protocolError ("invalid response envelope: "++
          invalidRequest "error must have numeric code + string message"))) ∧
    (JsonService (arithEntry zeroSign) ∧
      memoryCall [arithEntry zeroSign] "arith" "add" (.obj [("x",Js.num .negativeZero)]) "1"=
        .settled (.result (Js.str "negative")) ∧
      redisCall addDeployment "c1" [arithEntry zeroSign] "arith" "add" (.obj [("x",Js.num .negativeZero)])
        "1"=.settled (.result (Js.str "positive"))) ∧
    (∃ data, exceptionToErrorData (typeError "boom")=some data ∧ IsJson (.obj data)) ∧
      memoryCall [unloggedEntry] "arith" "add" (.obj []) "1"=.rejected "dispatcher threw" ∧
      redisCall addDeployment "c1" [unloggedEntry] "arith" "add" (.obj []) "1"=.unanswered := by
  refine ⟨⟨?_,rfl,rfl⟩,⟨?_,rfl,rfl⟩,⟨_,rfl,trivial,trivial,trivial⟩,rfl,rfl⟩
  · apply arithEntry_json
    · intro v e h
      cases h
    · intro log _ v e h
      cases h
      exact ⟨⟨_,rfl⟩,trivial⟩
    · intro v r _ h
      cases h
  · apply arithEntry_json
    · intro v e h
      unfold zeroSign at h
      split at h <;> cases h
    · intro log _ v e h
      unfold zeroSign at h
      split at h <;> cases h
    · intro v r _ h
      unfold zeroSign at h
      split at h
      · cases h
        exact trivial
      · cases h
        exact trivial

end Clamator.Redis
