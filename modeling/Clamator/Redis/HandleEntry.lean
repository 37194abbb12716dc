import Clamator.Redis.Entry
import Clamator.Protocol.ErrorData
import Clamator.Protocol.ServerCorePy
import Clamator.Protocol.ReplyWire
import Clamator.Protocol.Answered

/-!
# Handling one request entry (`server-transport.ts`, `server_transport.py`, `handleEntry`)

The whole of `handleEntry` where Redis answers every command: the commands it
issues, and whether an exception leaves it. A request with a reply-to should end
in one reply and one ack; it does unless user code throws where no `try` block
stands, or puts something into the reply that does not encode.
-/

namespace Clamator.Redis
open Clamator.Base Clamator.Protocol
open Clamator.Base.JsonTree (member hasMember)

/-- A command that writes: a reply XADDed to a stream (fields `type` and
`envelope`), or the XACK of the entry. -/
inductive Command where
  | xadd (stream : String) (envelope : Doc)
  | xack

/-- The commands issued, and whether `handleEntry` throws after them. -/
structure Handling where
  commands : List Command
  threw : Bool

/-- From the dispatcher's reply on. A reply is an object, which `JSON.stringify`
never skips. -/
def finishEntry (replyTo : Option String) : Settled JsVal → Handling
  | .rejected => ⟨[],true⟩
  | .cancelled => ⟨[],true⟩
  | .returned reply => match replyTo,reply with
    | some replyTo,some reply => match jsonStringify reply with
      | .keep d => ⟨[.xadd replyTo d,.xack],false⟩
      | _ => ⟨[],true⟩
    | _,_ => ⟨[.xack],false⟩

def handleEntry (entry : ServiceEntry) (fields : List Bulk) : Handling :=
  match readEntry fields with
  | .missing => ⟨[.xack],false⟩
  | .poison => ⟨[.xack],false⟩
  | .raised => ⟨[],true⟩
  | .decoded env replyTo => finishEntry replyTo (dispatcher (some entry) env).settled

def pyFinishEntry (replyTo : Option String) : Settled PyVal → Handling
  | .rejected => ⟨[],true⟩
  | .cancelled => ⟨[],true⟩
  | .returned reply => match replyTo,reply with
    | some replyTo,some reply => match jsonDumps reply with
      | some d => ⟨[.xadd replyTo d,.xack],false⟩
      | none => ⟨[],true⟩
    | _,_ => ⟨[.xack],false⟩

def pyHandleEntry (entry : PyServiceEntry) (fields : List Bulk) : Handling :=
  match pyReadEntry fields with
  | .missing => ⟨[.xack],false⟩
  | .poison => ⟨[.xack],false⟩
  | .raised => ⟨[],true⟩
  | .decoded env replyTo => pyFinishEntry replyTo (pyDispatcher (some entry) env).settled

/-! ### TypeScript -/

theorem isResponse_body {L : Type} (version id : JsonTree L) (key : String) (body : JsonTree L)
    (hk : key="result" ∨ key="error") :
    IsResponse version id (.obj [("jsonrpc",version),("id",id),(key,body)]) := by
  rcases hk with rfl | rfl
  · exact isResponse_result version id body
  · exact isResponse_error version id body

structure PyRequestEntry (entry : PyServiceEntry) where
  fields : List Bulk
  service : String
  method : String
  fullMethod : String
  params : PyVal
  id : PyVal
  replyTo : String
  m : MethodEntry
  decodes : pyReadEntry fields=.decoded (.request service method fullMethod params id) (some replyTo)
  declared : entry.contract.methods.lookup method=some m
  isMethod : m.resultModel.isSome

def PyIsReply (id : PyVal) (d : Doc) : Prop :=
  d.Standard ∧ ∃ v, jsonLoads d=some v ∧ IsResponse (Py.str "2.0") id v

def PyReplies (entry : PyServiceEntry) (r : PyRequestEntry entry) : Prop :=
  ∃ d, pyHandleEntry entry r.fields=⟨[.xadd r.replyTo d,.xack],false⟩ ∧ PyIsReply r.id d

def PyRunSendable (m : MethodEntry) : HandlerRun PyVal PyThrown → Prop
  | .threw _ => False
  | .rejected .base => False
  | .rejected (.rpcError code _ data) => Dumpable code ∧ Dumpable data
  | .rejected (.exception e) => e.Sendable
  | .resolved result => match m.resultModel with
    | none => False
    | some model => match model result with
      | .valid none => False
      | .valid (some dump) => Dumpable dump
      | .invalid errors => Dumpable errors
      | .raised => False

def PyRequestSendable (entry : PyServiceEntry) (r : PyRequestEntry entry) : Prop :=
  match r.m.paramsModel r.params with
  | .raised => False
  | .invalid errors => Dumpable errors
  | .valid params => match entry.handlers r.m.handlerAttr with
    | none => True
    | some handler => PyRunSendable r.m (handler params)

/- An id that was read can be written. -/
theorem pyParseEnvelope_requestId (value : PyVal) (s n f : String) (params id : PyVal)
    (hv : value.All FewLeaf) (h : pyParseEnvelope value=.ok (.request s n f params id)) :
    Dumpable id := by
  unfold pyParseEnvelope at h
  split at h
  · cases h
  · cases h
  · rename_i fs
    rw [JsonTree.All,JsonTree.allFields_iff] at hv
    split at h
    · split at h
      · unfold pyParseCall at h
        split at h
        · cases h
        · dsimp only at h
          split at h
          · cases h
          · cases h
            exact dumpable_str _
          · rename_i n hid
            cases h
            have hm : member fs "id"=some (Py.int n) := by
              unfold Py.present at hid
              split at hid <;> simp_all
            exact dumpable_int n (hv _ (JsonTree.mem_of_member hm))
          · cases h
      · unfold pyParseResponse at h
        split at h
        · unfold pyParseSuccess at h
          split at h <;> cases h
        · unfold pyParseError at h
          split at h
          · split at h
            · split at h <;> cases h
            · cases h
          · cases h
        · cases h
    · cases h

theorem pyReadEnvelope_requestId (d : Doc) (s n f : String) (params id : PyVal)
    (h : pyReadEnvelope d=.ok (.request s n f params id)) : Dumpable id := by
  unfold pyReadEnvelope at h
  split at h
  · cases h
  · rename_i value hl
    exact pyParseEnvelope_requestId value s n f params id (jsonLoads_fewLeaf d value hl) h

def PyArrived (id reply : PyVal) : Prop := ∃ d, jsonDumps reply=some d ∧ PyIsReply id d

theorem pyResponse_arrived_iff (id : PyVal) (hid : Dumpable id) (key : String)
    (hk : key="result" ∨ key="error") (body : PyVal) :
    PyArrived id (.obj [("jsonrpc",Py.str "2.0"),("id",id),(key,body)]) ↔ Dumpable body := by
  have hr := isResponse_body (Py.str "2.0") id key body hk
  have hd : Dumpable (.obj [("jsonrpc",Py.str "2.0"),("id",id),(key,body)]) ↔ Dumpable body := by
    rw [dumpable_obj_iff]
    simp [hid,dumpable_str]
  rw [← hd]
  constructor
  · rintro ⟨d,hdump,hs,_⟩
    exact ⟨d,hdump,hs⟩
  · rintro ⟨d,hdump,hs⟩
    exact ⟨d,hdump,hs,_,loads_dumps _ d hdump,hr⟩

theorem pyError_arrived_iff (id : PyVal) (hid : Dumpable id) (code : PyVal) (message : String)
    (data : PyVal) : PyArrived id (pyBuildErrorResponse id code message data) ↔
      Dumpable code ∧ Dumpable data := by
  rw [pyBuildErrorResponse,pyResponse_arrived_iff id hid "error" (Or.inr rfl),dumpable_obj_iff]
  simp [dumpable_str]

theorem pySuccess_arrived_iff (id : PyVal) (hid : Dumpable id) (result : PyVal) :
    PyArrived id (pyBuildSuccessResponse id result) ↔ Dumpable result :=
  pyResponse_arrived_iff id hid "result" (Or.inl rfl) result

def PyDelivers (id : PyVal) (s : Settled PyVal) : Prop :=
  ∃ reply, s=.returned (some reply) ∧ PyArrived id reply

theorem pyDelivers_returned_iff (id reply : PyVal) :
    PyDelivers id (.returned (some reply)) ↔ PyArrived id reply := by
  simp [PyDelivers]

theorem not_pyDelivers_rejected (id : PyVal) : ¬PyDelivers id .rejected := by
  rintro ⟨reply,h,_⟩
  cases h

theorem not_pyDelivers_cancelled (id : PyVal) : ¬PyDelivers id .cancelled := by
  rintro ⟨reply,h,_⟩
  cases h

theorem dumpable_code (n : ℤ) (h : n.natAbs < 10^5) : Dumpable (Py.int n) :=
  dumpable_int n (fewDigits_of_lt n 5 (by decide) h)

theorem pyMethodNotFound_delivers (id : PyVal) (hid : Dumpable id) :
    PyDelivers id (.returned (some (pyMethodNotFound id))) := by
  rw [pyDelivers_returned_iff,pyMethodNotFound,pyError_arrived_iff id hid]
  exact ⟨dumpable_code (-32601) (by decide),dumpable_null⟩

theorem pyInvalid_delivers_iff (id : PyVal) (hid : Dumpable id) (code : ℤ) (hc : code.natAbs < 10^5)
    (message : String) (errors : PyVal) :
    PyDelivers id (.returned (some (pyInvalid id code message errors))) ↔ Dumpable errors := by
  rw [pyDelivers_returned_iff,pyInvalid,pyError_arrived_iff id hid,dumpable_obj_iff]
  simp [dumpable_code code hc]

theorem pySettleHandler_delivers_iff (m : MethodEntry) (hm : m.resultModel.isSome) (id : PyVal)
    (hid : Dumpable id) (run : HandlerRun PyVal PyThrown) :
    PyDelivers id (pySettleHandler m (some id) run) ↔ PyRunSendable m run := by
  cases run with
  | threw e => cases e with
    | base => exact iff_of_false (not_pyDelivers_cancelled _) not_false
    | rpcError code message data => exact iff_of_false (not_pyDelivers_rejected _) not_false
    | exception e => exact iff_of_false (not_pyDelivers_rejected _) not_false
  | rejected e => cases e with
    | rpcError code message data =>
      exact (pyDelivers_returned_iff _ _).trans (pyError_arrived_iff id hid code message data)
    | base => exact iff_of_false (not_pyDelivers_cancelled _) not_false
    | exception e =>
      simp only [pySettleHandler,PyRunSendable,← pyErrorData_sendable_iff]
      cases pyExceptionToErrorData e with
      | none => simp [not_pyDelivers_rejected]
      | some data =>
        simp only [pyDelivers_returned_iff,pyError_arrived_iff id hid,Option.some.injEq,exists_eq_left']
        simp [dumpable_code (-32603) (by decide)]
  | resolved result =>
    simp only [pySettleHandler,PyRunSendable]
    cases hr : m.resultModel with
    | none => simp [hr] at hm
    | some model =>
      simp only
      cases model result with
      | valid dump => cases dump with
        | none => exact iff_of_false (not_pyDelivers_rejected _) not_false
        | some dump => exact (pyDelivers_returned_iff _ _).trans (pySuccess_arrived_iff id hid dump)
      | invalid errors => exact pyInvalid_delivers_iff id hid _ (by decide) _ errors
      | raised => exact iff_of_false (not_pyDelivers_rejected _) not_false

theorem pyFinishEntry_replies_iff (id : PyVal) (replyTo : String) (s : Settled PyVal) :
    (∃ d, pyFinishEntry (some replyTo) s=⟨[.xadd replyTo d,.xack],false⟩ ∧ PyIsReply id d) ↔
      PyDelivers id s := by
  cases s with
  | rejected => simp [pyFinishEntry,not_pyDelivers_rejected]
  | cancelled => simp [pyFinishEntry,PyDelivers]
  | returned reply =>
    cases reply with
    | none => simp [pyFinishEntry,PyDelivers]
    | some reply =>
      rw [pyDelivers_returned_iff,PyArrived]
      simp only [pyFinishEntry]
      cases jsonDumps reply <;> simp

theorem pyHandleEntry_replies_iff (entry : PyServiceEntry) (r : PyRequestEntry entry) :
    PyReplies entry r ↔ PyRequestSendable entry r := by
  obtain ⟨_,d,_,_,hd,_⟩ := pyReadEntry_decoded r.decodes
  have hid := pyReadEnvelope_requestId d _ _ _ _ _ hd
  simp only [PyReplies,PyRequestSendable,pyHandleEntry,r.decodes,pyFinishEntry_replies_iff,
    pyDispatcher,pyDispatchCall,r.declared]
  cases r.m.paramsModel r.params with
  | raised => exact iff_of_false (not_pyDelivers_rejected _) not_false
  | invalid errors => exact pyInvalid_delivers_iff r.id hid _ (by decide) _ errors
  | valid params =>
    simp only
    cases entry.handlers r.m.handlerAttr with
    | none => exact iff_of_true (pyMethodNotFound_delivers r.id hid) trivial
    | some handler => exact pySettleHandler_delivers_iff r.m r.isMethod r.id hid _

def addFields : List Bulk :=
  [⟨"type",none,true⟩,⟨"rpc",none,true⟩,⟨"envelope",none,true⟩,
    ⟨"\x7b\"jsonrpc\":\"2.0\",\"method\":\"arith.add\",\"params\":\x7b\x7d,\"id\":\"1\"\x7d",
      some (.obj [("jsonrpc",.leaf (.str "2.0")),("method",.leaf (.str "arith.add")),
        ("params",.obj []),("id",.leaf (.str "1"))]),true⟩,
    ⟨"reply-to",none,true⟩,⟨"clamator:replies:c1",none,true⟩]

end Clamator.Redis
