import Clamator.Protocol.ServerCorePy

/-!
# Which envelopes get an answer

A dispatcher is to answer every request with a response under the request's id,
and nothing else. It fails a request in three ways: the request names a
notification entry whose handler succeeds, an exception is raised while an
exception is logged or its data is collected, or user code throws where no `try`
block stands.
-/

namespace Clamator.Protocol
open Clamator.Base
open Clamator.Base.JsonTree (member hasMember)

/-- A response envelope for `id`: it has a `result` or an `error`, not both.
`version` is the string "2.0" of the runtime. -/
def IsResponse {L : Type} (version id : JsonTree L) : JsonTree L → Prop
  | .obj fs => member fs "jsonrpc"=some version ∧ member fs "id"=some id ∧
    (hasMember fs "result") ≠ hasMember fs "error"
  | _ => False

theorem isResponse_result {L : Type} (version id result : JsonTree L) :
    IsResponse version id (.obj [("jsonrpc",version),("id",id),("result",result)]) := by
  refine ⟨rfl,rfl,?_⟩
  show true≠false
  decide

theorem isResponse_error {L : Type} (version id error : JsonTree L) :
    IsResponse version id (.obj [("jsonrpc",version),("id",id),("error",error)]) := by
  refine ⟨rfl,rfl,?_⟩
  show false≠true
  decide

def Responds {L : Type} (version id : JsonTree L) (s : Settled (JsonTree L)) : Prop :=
  ∃ reply, s=.returned (some reply) ∧ IsResponse version id reply

theorem responds_returned {L : Type} {version id reply : JsonTree L} (h : IsResponse version id reply) :
    Responds version id (.returned (some reply)) := ⟨reply,rfl,h⟩

theorem not_responds_null {L : Type} (version id : JsonTree L) :
    ¬Responds version id (.returned none) := by
  rintro ⟨reply,h,_⟩
  cases h

theorem not_responds_rejected {L : Type} (version id : JsonTree L) :
    ¬Responds version id .rejected := by
  rintro ⟨reply,h,_⟩
  cases h

theorem not_responds_cancelled {L : Type} (version id : JsonTree L) :
    ¬Responds version id .cancelled := by
  rintro ⟨reply,h,_⟩
  cases h

/-! ### TypeScript -/

def Answers (entry : ServiceEntry) (env : Envelope JsVal) : Prop :=
  match env with
  | .request _ _ _ _ id => Responds (Js.str "2.0") id (dispatcher (some entry) env).settled
  | _ => (dispatcher (some entry) env).settled=.returned none

def RunAnswerable (log : String → Thrown → Bool) (d : MethodDef) : HandlerRun JsVal Thrown → Prop
  | .threw _ => False
  | .rejected (.rpcError _ _ _) => True
  | .rejected e => log "RPC handler raised" e=true ∧ e.Readable
  | .resolved result => d.notification=false ∧ match d.parseResult result with
    | .ok _ => True
    | .error e => log "RPC result validation failed" e=true ∧ e.Readable

def RequestAnswerable (entry : ServiceEntry) (method : String) (params id : JsVal) : Prop :=
  match entry.contract.lookup method with
  | none => True
  | some d => match d.params params with
    | .error e =>
      entry.logger.paramsFailed entry.contract.service method (some id) e=true ∧ e.Readable
    | .ok parsed => match entry.handlers method with
      | none => True
      | some handler =>
        RunAnswerable (entry.logger.failed entry.contract.service method (some id)) d (handler parsed)

def RunDroppable (log : String → Thrown → Bool) : HandlerRun JsVal Thrown → Prop
  | .threw _ => False
  | .rejected (.rpcError _ _ _) => True
  | .rejected e => log "RPC handler raised" e=true
  | .resolved _ => True

def NotificationAnswerable (entry : ServiceEntry) (method : String) (params : JsVal) : Prop :=
  match entry.contract.lookup method with
  | none => True
  | some d => match d.params params with
    | .error e => entry.logger.paramsFailed entry.contract.service method none e=true
    | .ok parsed => match entry.handlers method with
      | none => True
      | some handler =>
        RunDroppable (entry.logger.failed entry.contract.service method none) (handler parsed)

def Answerable (entry : ServiceEntry) : Envelope JsVal → Prop
  | .request _ method _ params id => RequestAnswerable entry method params id
  | .notification _ method _ params => NotificationAnswerable entry method params
  | _ => True

theorem failure_responds_iff (logged : Bool) (id : JsVal) (code : ℤ) (message : String) (e : Thrown) :
    Responds (Js.str "2.0") id (failure logged id code message e) ↔ logged=true ∧ e.Readable := by
  rw [← exceptionToErrorData_ne_none]
  unfold failure
  cases logged with
  | false => exact iff_of_false (not_responds_rejected _ _) fun h => absurd h.1 (by decide)
  | true => cases exceptionToErrorData e with
    | none => exact iff_of_false (not_responds_rejected _ _) fun h => h.2 rfl
    | some data =>
      exact iff_of_true (responds_returned (isResponse_error ..)) ⟨rfl,Option.some_ne_none data⟩

theorem settleHandler_responds_iff (log : String → Thrown → Bool) (d : MethodDef) (id : JsVal)
    (run : HandlerRun JsVal Thrown) :
    Responds (Js.str "2.0") id (settleHandler log d (some id) run) ↔ RunAnswerable log d run := by
  cases run with
  | threw e => exact iff_of_false (not_responds_rejected _ _) not_false
  | rejected e => cases e with
    | rpcError code message data =>
      exact iff_of_true (responds_returned (isResponse_error ..)) trivial
    | error e => exact failure_responds_iff _ id _ _ _
    | other typeOf text => exact failure_responds_iff _ id _ _ _
  | resolved result =>
    simp only [settleHandler,RunAnswerable]
    cases hn : d.notification with
    | true => simp [not_responds_null]
    | false =>
      simp only [Bool.false_eq_true,if_false,true_and]
      cases hr : d.parseResult result with
      | ok v => exact iff_of_true (responds_returned (isResponse_result ..)) trivial
      | error e => exact failure_responds_iff _ id _ _ _

theorem request_responds_iff (entry : ServiceEntry) (method : String) (params id : JsVal) :
    Responds (Js.str "2.0") id (dispatchCall entry method params (some id)).settled ↔
      RequestAnswerable entry method params id := by
  unfold dispatchCall RequestAnswerable
  cases entry.contract.lookup method with
  | none => exact iff_of_true (responds_returned (isResponse_error ..)) trivial
  | some d =>
    simp only
    cases d.params params with
    | error e => exact failure_responds_iff _ id _ _ _
    | ok parsed =>
      simp only
      cases entry.handlers method with
      | none => exact iff_of_true (responds_returned (isResponse_error ..)) trivial
      | some handler => exact settleHandler_responds_iff _ d id _

theorem dropped_iff (logged : Bool) : dropped logged=.returned none ↔ logged=true := by
  cases logged <;> simp [dropped]

theorem settleHandler_drops_iff (log : String → Thrown → Bool) (d : MethodDef)
    (run : HandlerRun JsVal Thrown) :
    settleHandler log d none run=.returned none ↔ RunDroppable log run := by
  cases run with
  | threw e => simp [settleHandler,RunDroppable]
  | resolved result => simp [settleHandler,RunDroppable]
  | rejected e => cases e with
    | rpcError code message data => simp [settleHandler,RunDroppable]
    | error e => exact dropped_iff _
    | other typeOf text => exact dropped_iff _

theorem notification_null_iff (entry : ServiceEntry) (method : String) (params : JsVal) :
    (dispatchCall entry method params none).settled=.returned none ↔
      NotificationAnswerable entry method params := by
  unfold dispatchCall NotificationAnswerable
  cases entry.contract.lookup method with
  | none => simp [Dispatch.early]
  | some d =>
    simp only
    cases d.params params with
    | error e => exact dropped_iff _
    | ok parsed =>
      simp only
      cases entry.handlers method with
      | none => simp [Dispatch.early]
      | some handler => exact settleHandler_drops_iff _ d _

theorem dispatcher_answers_iff (entry : ServiceEntry) (env : Envelope JsVal) :
    Answers entry env ↔ Answerable entry env := by
  cases env with
  | request s method f params id => exact request_responds_iff entry method params id
  | notification s method f params => exact notification_null_iff entry method params
  | success id result => simp [Answers,Answerable,dispatcher,Dispatch.early]
  | error id code message data => simp [Answers,Answerable,dispatcher,Dispatch.early]

/-! ### Python -/

def PyAnswers (entry : PyServiceEntry) (env : Envelope PyVal) : Prop :=
  match env with
  | .request _ _ _ _ id => Responds (Py.str "2.0") id (pyDispatcher (some entry) env).settled
  | _ => (pyDispatcher (some entry) env).settled=.returned none

def PyRunAnswerable (m : MethodEntry) : HandlerRun PyVal PyThrown → Prop
  | .threw _ => False
  | .rejected .base => False
  | .rejected (.rpcError _ _ _) => True
  | .rejected (.exception e) => e.text≠none
  | .resolved result => match m.resultModel with
    | none => False
    | some model => match model result with
      | .valid dump => dump≠none
      | .invalid _ => True
      | .raised => False

def PyRequestAnswerable (entry : PyServiceEntry) (method : String) (params : PyVal) : Prop :=
  match entry.contract.methods.lookup method with
  | none => True
  | some m => match m.paramsModel params with
    | .raised => False
    | .invalid _ => True
    | .valid params => match entry.handlers m.handlerAttr with
      | none => True
      | some handler => PyRunAnswerable m (handler params)

def PyNotificationAnswerable (entry : PyServiceEntry) (method : String) (params : PyVal) : Prop :=
  match entry.contract.methods.lookup method with
  | none => True
  | some m => match m.paramsModel params with
    | .raised => False
    | .invalid _ => True
    | .valid params => match entry.handlers m.handlerAttr with
      | none => True
      | some handler => (∀ e, handler params≠.threw e) ∧ handler params≠.rejected .base

def PyAnswerable (entry : PyServiceEntry) : Envelope PyVal → Prop
  | .request _ method _ params _ => PyRequestAnswerable entry method params
  | .notification _ method _ params => PyNotificationAnswerable entry method params
  | _ => True

theorem pySettleHandler_responds_iff (m : MethodEntry) (id : PyVal) (run : HandlerRun PyVal PyThrown) :
    Responds (Py.str "2.0") id (pySettleHandler m (some id) run) ↔ PyRunAnswerable m run := by
  cases run with
  | threw e => cases e with
    | base => exact iff_of_false (not_responds_cancelled _ _) not_false
    | rpcError code message data => exact iff_of_false (not_responds_rejected _ _) not_false
    | exception e => exact iff_of_false (not_responds_rejected _ _) not_false
  | rejected e => cases e with
    | rpcError code message data =>
      exact iff_of_true (responds_returned (isResponse_error ..)) trivial
    | base => exact iff_of_false (not_responds_cancelled _ _) not_false
    | exception e =>
      simp only [pySettleHandler,PyRunAnswerable,pyExceptionToErrorData]
      cases e.text with
      | none => exact iff_of_false (not_responds_rejected _ _) fun h => h rfl
      | some text =>
        exact iff_of_true (responds_returned (isResponse_error ..)) (Option.some_ne_none text)
  | resolved result =>
    simp only [pySettleHandler,PyRunAnswerable]
    cases m.resultModel with
    | none => exact iff_of_false (not_responds_null _ _) not_false
    | some model =>
      simp only
      cases model result with
      | valid dump => cases dump with
        | none => exact iff_of_false (not_responds_rejected _ _) fun h => h rfl
        | some dump =>
          exact iff_of_true (responds_returned (isResponse_result ..)) (Option.some_ne_none dump)
      | invalid errors =>
        exact iff_of_true (responds_returned (isResponse_error ..)) trivial
      | raised => exact iff_of_false (not_responds_rejected _ _) not_false

theorem pyRequest_responds_iff (entry : PyServiceEntry) (method : String) (params id : PyVal) :
    Responds (Py.str "2.0") id (pyDispatchCall entry method params (some id)).settled ↔
      PyRequestAnswerable entry method params := by
  unfold pyDispatchCall PyRequestAnswerable
  cases entry.contract.methods.lookup method with
  | none => exact iff_of_true (responds_returned (isResponse_error ..)) trivial
  | some m =>
    simp only
    cases m.paramsModel params with
    | raised => exact iff_of_false (not_responds_rejected _ _) not_false
    | invalid errors =>
      exact iff_of_true (responds_returned (isResponse_error ..)) trivial
    | valid params =>
      simp only
      cases entry.handlers m.handlerAttr with
      | none => exact iff_of_true (responds_returned (isResponse_error ..)) trivial
      | some handler => exact pySettleHandler_responds_iff m id _

theorem pyNotification_null_iff (entry : PyServiceEntry) (method : String) (params : PyVal) :
    (pyDispatchCall entry method params none).settled=.returned none ↔
      PyNotificationAnswerable entry method params := by
  unfold pyDispatchCall PyNotificationAnswerable
  cases entry.contract.methods.lookup method with
  | none => simp [Dispatch.early]
  | some m =>
    simp only
    cases m.paramsModel params with
    | raised => simp
    | invalid errors => simp [Dispatch.early]
    | valid params =>
      simp only
      cases entry.handlers m.handlerAttr with
      | none => simp [Dispatch.early]
      | some handler =>
        simp only
        cases handler params with
        | threw e => cases e <;> simp [pySettleHandler]
        | resolved result => simp [pySettleHandler]
        | rejected e => cases e <;> simp [pySettleHandler]

theorem pyDispatcher_answers_iff (entry : PyServiceEntry) (env : Envelope PyVal) :
    PyAnswers entry env ↔ PyAnswerable entry env := by
  cases env with
  | request s method f params id => exact pyRequest_responds_iff entry method params id
  | notification s method f params => exact pyNotification_null_iff entry method params
  | success id result => simp [PyAnswers,PyAnswerable,pyDispatcher,Dispatch.early]
  | error id code message data => simp [PyAnswers,PyAnswerable,pyDispatcher,Dispatch.early]

/-- Which envelopes the two dispatchers answer as they should. -/
theorem dispatchers_answer_iff (entry : ServiceEntry) (env : Envelope JsVal)
    (pyEntry : PyServiceEntry) (pyEnv : Envelope PyVal) :
    (Answers entry env ↔ Answerable entry env) ∧ (PyAnswers pyEntry pyEnv ↔ PyAnswerable pyEntry pyEnv) :=
  ⟨dispatcher_answers_iff entry env,pyDispatcher_answers_iff pyEntry pyEnv⟩

def pingContract : Contract := ⟨"arith",[("ping",⟨.ok,none,true⟩)],serviceRe_arith,rfl⟩

def pingEntry : ServiceEntry :=
  ⟨pingContract,fun _ => some fun _ => .resolved Js.undefined,fun _ => true⟩

def pyPingEntry : PyServiceEntry :=
  ⟨⟨"arith",[("ping",⟨.valid,none,"ping"⟩)]⟩,fun _ => some fun _ => .resolved Py.null⟩

/-- A request that names the notification entry is executed and not answered. -/
theorem pingRequest_unanswered :
    ¬Answers pingEntry (.request "arith" "ping" "arith.ping" (.obj []) (Js.str "1")) ∧
    ¬PyAnswers pyPingEntry (.request "arith" "ping" "arith.ping" (.obj []) (Py.str "1")) := by
  constructor
  · exact not_responds_null _ _
  · exact not_responds_null _ _

end Clamator.Protocol
