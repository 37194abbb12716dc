import Clamator.Protocol.Answered
import Clamator.Protocol.ReplyWire

/-!
# What the dispatcher should answer (`server-core.ts`)

The ordered table of answers to a request, stated from the contract's own methods
and the own handlers of the handlers literal, and when the dispatcher follows it.
Both objects are plain ones and inherit the functions of `Object.prototype`, which
the two reads `methods[env.method]` and `handlers[env.method]` find as well.
-/

namespace Clamator.Protocol
open Clamator.Base Clamator.Base.Binary64

abbrev MethodName := {method : String // methodRe method.toList=true}

/-- A service registered with a handlers literal; `inherited` are the functions of
`Object.prototype`, called as handlers. -/
def literalEntry (contract : Contract) (handlers : List (String × Handler))
    (inherited : String → Handler) (logger : Logger) : ServiceEntry where
  contract := contract
  handlers := fun method => match handlers.lookup method with
    | some handler => some handler
    | none => if method∈objectPrototype then some (inherited method) else none
  logger := logger

/-- An answer of the table. Of its own error responses it says the code only. -/
inductive Answer where
  | error (code : ℤ)
  | rpcError (code : JsVal) (message : String) (data : JsVal)
  | success (result : JsVal)

/-- A row of the table: the params its handler is invoked with, if it is, and the answer. -/
structure Row where
  invoked : Option JsVal
  answer : Answer

def handlerAnswer (d : MethodDef) : HandlerRun JsVal Thrown → Answer
  | .threw (.rpcError code message data) => .rpcError code message data
  | .rejected (.rpcError code message data) => .rpcError code message data
  | .threw _ => .error (-32603)
  | .rejected _ => .error (-32603)
  | .resolved result => match d.parseResult result with
    | .ok validated => .success validated
    | .error _ => .error (-32603)

def decisionTable (contract : Contract) (handlers : List (String × Handler)) (method : String)
    (params : JsVal) : Row := match contract.methods.lookup method with
  | none => ⟨none,.error (-32601)⟩
  | some d => match d.params params with
    | .error _ => ⟨none,.error (-32602)⟩
    | .ok parsed => match handlers.lookup method with
      | none => ⟨none,.error (-32601)⟩
      | some handler => ⟨some parsed,handlerAnswer d (handler parsed)⟩

def Answer.Is (id : JsVal) : Answer → JsVal → Prop
  | .error code,reply =>
    ∃ message data, reply=buildErrorResponse id (Js.num (ofInt code)) message data
  | .rpcError code message data,reply => reply=buildErrorResponse id code message data
  | .success result,reply => reply=buildSuccessResponse id result

/-- The dispatch is the row of the table, and neither lookup finds what is not an own
property. -/
structure FollowsTable (contract : Contract) (handlers : List (String × Handler))
    (inherited : String → Handler) (logger : Logger) (method : String) (params id : JsVal)
    (dispatch : Dispatch JsVal) : Prop where
  invoked : dispatch.invoked=(decisionTable contract handlers method params).invoked
  answer : ∃ reply, dispatch.settled=.returned (some reply) ∧
    (decisionTable contract handlers method params).answer.Is id reply
  definition : contract.lookup method=contract.methods.lookup method
  handler : dispatch.invoked≠none →
    (literalEntry contract handlers inherited logger).handlers method=handlers.lookup method

/-- No inherited function stands in for a missing definition or handler, and what user code
throws or returns is answered. -/
def OwnAndAnswered (contract : Contract) (handlers : List (String × Handler)) (logger : Logger)
    (method : String) (params id : JsVal) : Prop := match contract.methods.lookup method with
  | none => method∉objectPrototype
  | some d => match d.params params with
    | .error e => logger.paramsFailed contract.service method (some id) e=true ∧ e.Readable
    | .ok parsed => match handlers.lookup method with
      | none => method∉objectPrototype
      | some handler =>
        RunAnswerable (logger.failed contract.service method (some id)) d (handler parsed)

variable (contract : Contract) (handlers : List (String × Handler)) (inherited : String → Handler)
  (logger : Logger)

theorem failure_answered (logged : Bool) (id : JsVal) (code : ℤ) (message : String) (e : Thrown) :
    (∃ reply, Protocol.failure logged id code message e=.returned (some reply) ∧
      (Answer.error code).Is id reply) ↔ logged=true ∧ e.Readable := by
  rw [← exceptionToErrorData_ne_none]
  unfold Protocol.failure
  cases logged with
  | false => simp
  | true => cases exceptionToErrorData e with
    | none => simp
    | some data => simp [Answer.Is]

theorem handlerAnswer_iff (log : String → Thrown → Bool) (d : MethodDef) (id : JsVal)
    (run : HandlerRun JsVal Thrown) :
    (∃ reply, settleHandler log d (some id) run=.returned (some reply) ∧
      (handlerAnswer d run).Is id reply) ↔ RunAnswerable log d run := by
  cases run with
  | threw e => simp [settleHandler,RunAnswerable]
  | rejected e =>
    cases e with
    | rpcError code message data => simp [settleHandler,RunAnswerable,handlerAnswer,Answer.Is]
    | error e => exact failure_answered _ id (-32603) _ _
    | other typeOf text => exact failure_answered _ id (-32603) _ _
  | resolved result =>
    by_cases hn : d.notification=true
    · simp [settleHandler,RunAnswerable,hn]
    · simp only [Bool.not_eq_true] at hn
      cases hv : d.parseResult result with
      | ok validated => simp [settleHandler,RunAnswerable,handlerAnswer,Answer.Is,hn,hv]
      | error e =>
        have hf := failure_answered (log "RPC result validation failed" e) id (-32603)
          "Result validation failed" e
        simpa [settleHandler,RunAnswerable,handlerAnswer,hn,hv] using hf

/- An undeclared method: -32601, unless its name is inherited and its inherited definition
answers -32602. -/
theorem follows_undeclared_iff (method : String) (params id : JsVal)
    (hm : contract.methods.lookup method=none) :
    FollowsTable contract handlers inherited logger method params id
      (dispatchCall (literalEntry contract handlers inherited logger) method params (some id)) ↔
        method∉objectPrototype := by
  have hl : contract.lookup method=if method∈objectPrototype then some inheritedDef else none := by
    simp only [Contract.lookup,hm]
  constructor
  · intro h hp
    have hd := h.definition
    rw [hl,if_pos hp,hm] at hd
    cases hd
  · intro hp
    rw [if_neg hp] at hl
    have hd : dispatchCall (literalEntry contract handlers inherited logger) method params (some id)=
        .early (some (methodNotFound id)) := by
      simp only [dispatchCall,literalEntry,hl,Option.map_some]
    refine ⟨?_,?_,hl.trans hm.symm,fun hi => ?_⟩
    · simp only [hd,Dispatch.early,decisionTable,hm]
    · simp only [hd,Dispatch.early,decisionTable,hm]
      exact ⟨_,rfl,_,_,rfl⟩
    · rw [hd] at hi
      exact (hi rfl).elim

theorem follows_parsed_iff (method : String) (params id parsed : JsVal) (d : MethodDef)
    (hm : contract.methods.lookup method=some d) (hp : d.params params=.ok parsed) :
    FollowsTable contract handlers inherited logger method params id
      (dispatchCall (literalEntry contract handlers inherited logger) method params (some id)) ↔
        match handlers.lookup method with
        | none => method∉objectPrototype
        | some handler =>
          RunAnswerable (logger.failed contract.service method (some id)) d (handler parsed) := by
  have hl : contract.lookup method=some d := by
    simp only [Contract.lookup,hm]
  cases hh : handlers.lookup method with
  | none =>
    have hown : (literalEntry contract handlers inherited logger).handlers method=
        if method∈objectPrototype then some (inherited method) else none := by
      simp only [literalEntry,hh]
    by_cases ho : method∈objectPrototype
    · rw [if_pos ho] at hown
      refine iff_of_false (fun h => ?_) fun h => h ho
      have hi := h.invoked
      simp only [dispatchCall,literalEntry,hl,hp,hh,ho,if_true,decisionTable,hm] at hi
      cases hi
    · rw [if_neg ho] at hown
      have hd : dispatchCall (literalEntry contract handlers inherited logger) method params (some id)=
          .early (some (methodNotFound id)) := by
        simp only [dispatchCall,hown]
        simp only [literalEntry,hl,hp,Option.map_some]
      refine iff_of_true ⟨?_,?_,hl.trans hm.symm,fun hi => ?_⟩ ho
      · simp only [hd,Dispatch.early,decisionTable,hm,hp,hh]
      · simp only [hd,Dispatch.early,decisionTable,hm,hp,hh]
        exact ⟨_,rfl,_,_,rfl⟩
      · rw [hd] at hi
        exact (hi rfl).elim
  | some handler =>
    have hown : (literalEntry contract handlers inherited logger).handlers method=some handler := by
      simp only [literalEntry,hh]
    have hd : dispatchCall (literalEntry contract handlers inherited logger) method params (some id)=
        ⟨some parsed,settleHandler (logger.failed contract.service method (some id)) d (some id)
          (handler parsed)⟩ := by
      simp only [dispatchCall,hown]
      simp only [literalEntry,hl,hp]
    rw [hd]
    dsimp only
    rw [← handlerAnswer_iff _ d id (handler parsed)]
    constructor
    · intro h
      have ha := h.answer
      simpa only [decisionTable,hm,hp,hh] using ha
    · intro h
      refine ⟨?_,?_,hl.trans hm.symm,fun _ => hown.trans hh.symm⟩
      · simp only [decisionTable,hm,hp,hh]
      · simpa only [decisionTable,hm,hp,hh] using h

/-- The dispatcher follows the table on exactly these requests. -/
theorem follows_table_iff (service : String) (method : MethodName) (params : JsVal) (id : RequestId) :
    FollowsTable contract handlers inherited logger method params id.val
      (dispatcher (some (literalEntry contract handlers inherited logger))
        (.request service method (service++"."++method) params id.val)) ↔
          OwnAndAnswered contract handlers logger method params id.val := by
  change FollowsTable contract handlers inherited logger method params id.val
    (dispatchCall (literalEntry contract handlers inherited logger) method params (some id.val)) ↔ _
  unfold OwnAndAnswered
  cases hm : contract.methods.lookup method.val with
  | none => exact follows_undeclared_iff contract handlers inherited logger method params id.val hm
  | some d =>
    dsimp only
    cases hp : d.params params with
    | ok parsed =>
      exact follows_parsed_iff contract handlers inherited logger method params id.val parsed d hm hp
    | error e =>
      have hl : contract.lookup method=some d := by
        simp only [Contract.lookup,hm]
      have hd : dispatchCall (literalEntry contract handlers inherited logger) method params (some id.val)=
          ⟨none,Protocol.failure (logger.paramsFailed contract.service method (some id.val) e) id.val
            (-32602) "Invalid params" e⟩ := by
        simp only [dispatchCall]
        simp only [literalEntry,hl,hp]
      rw [hd]
      dsimp only
      rw [← failure_answered _ id.val (-32602) "Invalid params" e]
      constructor
      · intro h
        have ha := h.answer
        simpa only [decisionTable,hm,hp] using ha
      · intro h
        refine ⟨?_,?_,hl.trans hm.symm,fun hi => (hi rfl).elim⟩
        · simp only [decisionTable,hm,hp]
        · simpa only [decisionTable,hm,hp] using h

/-- `toString` is no method of the contract and is answered with -32602. -/
theorem inherited_invalidParams :
    ¬OwnAndAnswered resetContract [] (fun _ => true) "toString" (.obj []) (Js.str "1") ∧
    (∃ reply, (dispatcher (some (literalEntry resetContract [] (fun _ => .resolved) fun _ => true))
      (.request "arith" "toString" "arith.toString" (.obj []) (Js.str "1"))).settled=.returned (some reply) ∧
        (Answer.error (-32602)).Is (Js.str "1") reply) ∧
    ¬FollowsTable resetContract [] (fun _ => .resolved) (fun _ => true) "toString" (.obj []) (Js.str "1")
      (dispatcher (some (literalEntry resetContract [] (fun _ => .resolved) fun _ => true))
        (.request "arith" "toString" "arith.toString" (.obj []) (Js.str "1"))) := by
  refine ⟨?_,⟨_,rfl,_,_,rfl⟩,?_⟩
  · intro h
    exact h (by decide)
  · intro h
    cases h.definition

end Clamator.Protocol
