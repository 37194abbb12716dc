import Clamator.Protocol.JsonValues
import Clamator.Redis.Calls

/-!
# Requests between the languages (`client-transport.ts`, `client_transport.py`, `send`, `notify`)

What a client of either language writes to a command stream, and what a server of either
language makes of it.
-/

namespace Clamator.Redis
open Clamator.Base Clamator.Protocol
open Clamator.Base.Binary64 (ofInt)

def send (D : Deployment) (instanceId : String) (env : JsVal) : Option (String × List Bulk) :=
  match parseEnvelope env,jsonStringify env with
  | .ok (.request service _ _ _ _),.keep d =>
    some (D.commandStream service,D.requestFields d (D.replyStream instanceId))
  | _,_ => none

def notify (D : Deployment) (env : JsVal) : Option (String × List Bulk) :=
  match parseEnvelope env,jsonStringify env with
  | .ok (.notification service _ _ _),.keep d => some (D.commandStream service,D.plainFields d)
  | _,_ => none

def pySend (D : Deployment) (instanceId : String) (env : PyVal) : Option (String × List Bulk) :=
  match pyParseEnvelope env,jsonDumps env with
  | .ok (.request service _ _ _ _),some d =>
    some (D.commandStream service,D.requestFields d (D.replyStream instanceId))
  | _,_ => none

def pyNotify (D : Deployment) (env : PyVal) : Option (String × List Bulk) :=
  match pyParseEnvelope env,jsonDumps env with
  | .ok (.notification service _ _ _),some d => some (D.commandStream service,D.plainFields d)
  | _,_ => none

def sendRequest (D : Deployment) (instanceId fullMethod id : String) : Params → Option (String × List Bulk)
  | .js v => send D instanceId (buildRequest fullMethod v (Js.str id))
  | .py p => pySend D instanceId (pyBuildRequest fullMethod p (Py.str id))

def sendNotification (D : Deployment) (fullMethod : String) : Params → Option (String × List Bulk)
  | .js v => notify D (buildNotification fullMethod v)
  | .py p => pyNotify D (pyBuildNotification fullMethod p)

/-- A JSON object whose numbers both runtimes hold. -/
def Params.IsJsonObject : Params → Prop
  | .js v => IsJson v ∧ ∃ fs, v=.obj fs
  | .py p => PyIsJson p ∧ ∃ fs, p=.obj fs

/-- What a TypeScript server reads of the params, numbers by value. -/
def Params.JsArrive : Params → JsVal → Prop
  | .js v,w => w=byValue v
  | .py p,w => Same w p

def Params.PyArrive : Params → PyVal → Prop
  | .js v,q => Same v q
  | .py p,q => q=p

/-- The numbers that `JSON.stringify` prints in other digits than their own are out; Python
prints every digit. -/
def Params.Printed : Params → Prop
  | .js v => Protocol.Printed v
  | .py _ => True

/-! ### Parsing what was built -/

structure Names (service method : String) : Prop where
  service : serviceRe service.toList=true
  method : methodRe method.toList=true

theorem Names.slice {service method : String} (h : Names service method) :
    sliceAtDot (service++"."++method).toList=some (service.toList,method.toList) := by
  have hs := spellsLine_of_spells _ _ _ h.service
  have hm := spellsLine_of_spells _ _ _ h.method
  rw [join_toList]
  exact sliceAtDot_join _ _ (spellsLine_ne_nil _ _ _ hs) (spellsLine_ne_nil _ _ _ hm)
    (serviceReMatch_noDot _ hs)

theorem Names.split {service method : String} (h : Names service method) :
    splitMethod (service++"."++method)=.ok (service,method) := by
  unfold splitMethod
  rw [h.slice]
  simp [h.service,h.method]

theorem Names.pySplit {service method : String} (h : Names service method) :
    pySplitMethod (service++"."++method)=.ok (service,method) := by
  have hs : serviceReMatch service.toList=true := spellsLine_of_spells _ _ _ h.service
  have hm : methodReMatch method.toList=true := spellsLine_of_spells _ _ _ h.method
  unfold pySplitMethod
  rw [← sliceAtDot_eq_partitionAtDot,h.slice]
  simp [hs,hm]

theorem Contract.names (contract : Contract) (method : String) (d : MethodDef)
    (hd : contract.methods.lookup method=some d) : Names contract.service method :=
  ⟨contract.service_ok,entryProblem_name (contract.entry_ok method d (Assoc.mem_of_lookup hd))⟩

def callOf {V : Type} (str : String → V) (service method : String) (params : V) : Option String → Envelope V
  | some id => .request service method (service++"."++method) params (str id)
  | none => .notification service method (service++"."++method) params

def sendCall (D : Deployment) (instanceId fullMethod : String) (params : Params) :
    Option String → Option (String × List Bulk)
  | some id => sendRequest D instanceId fullMethod id params
  | none => sendNotification D fullMethod params

def callFields (D : Deployment) (instanceId : String) (d : Doc) : Option String → List Bulk
  | some _ => D.requestFields d (D.replyStream instanceId)
  | none => D.plainFields d

def jsBuildCall (fullMethod : String) (params : JsVal) : Option String → JsVal
  | some id => buildRequest fullMethod params (Js.str id)
  | none => buildNotification fullMethod params

def pyBuildCall (fullMethod : String) (params : PyVal) : Option String → PyVal
  | some id => pyBuildRequest fullMethod params (Py.str id)
  | none => pyBuildNotification fullMethod params

variable {service method : String}

theorem parse_jsBuildCall (h : Names service method) (fs : List (String × JsVal)) (id : Option String) :
    parseEnvelope (jsBuildCall (service++"."++method) (.obj fs) id)=
      .ok (callOf Js.str service method (.obj fs) id) := by
  cases id <;> simp [parseEnvelope,jsBuildCall,buildRequest,buildNotification,JsonTree.member,List.lookup_cons,
    parseCall,h.split,Js.orElse,Js.present,callOf]

theorem pyParse_pyBuildCall (h : Names service method) (p : PyVal) (id : Option String) :
    pyParseEnvelope (pyBuildCall (service++"."++method) p id)=.ok (callOf Py.str service method p id) := by
  cases id <;> simp [pyParseEnvelope,pyBuildCall,pyBuildRequest,pyBuildNotification,JsonTree.member,
    List.lookup_cons,pyParseCall,h.pySplit,Py.present,callOf]

/-! ### The text of a call -/

def docCall (fullMethod : String) (params : Doc) : Option String → Doc
  | some id => .obj [("jsonrpc",.leaf (.str "2.0")),("method",.leaf (.str fullMethod)),("params",params),
      ("id",.leaf (.str id))]
  | none => .obj [("jsonrpc",.leaf (.str "2.0")),("method",.leaf (.str fullMethod)),("params",params)]

def Params.doc : Params → Doc
  | .js v => v.map docOfJs
  | .py p => p.map docOfPy

theorem Params.IsJsonObject.standard {params : Params} (h : params.IsJsonObject) : params.doc.Standard := by
  cases params with
  | js v => exact h.1.standard
  | py p => exact PyIsJson.standard p

theorem Params.IsJsonObject.fewDigits {params : Params} (h : params.IsJsonObject) : params.doc.FewDigits := by
  cases params with
  | js v => exact h.1.fewDigits
  | py p => exact (jsonLoads_eq_some _ _ h.1.loads).1

theorem Params.IsJsonObject.jsObject {params : Params} (h : params.IsJsonObject) :
    ∃ fs, params.doc.map jsOfDoc=.obj fs := by
  cases params with
  | js v =>
    obtain ⟨_,fs,rfl⟩ := h
    exact ⟨_,rfl⟩
  | py p =>
    obtain ⟨_,fs,rfl⟩ := h
    exact ⟨_,rfl⟩

theorem Params.IsJsonObject.jsArrive {params : Params} (h : params.IsJsonObject) :
    params.JsArrive (params.doc.map jsOfDoc) := by
  cases params with
  | js v =>
    have hparse := h.1.parse
    rw [jsonParse_standard _ h.1.standard] at hparse
    exact Option.some.inj hparse
  | py p => exact h.1.same

theorem Params.IsJsonObject.pyArrive_iff {params : Params} (h : params.IsJsonObject) :
    params.PyArrive (params.doc.map pyOfDoc) ↔ params.Printed := by
  cases params with
  | js v => exact h.1.same_iff
  | py p => exact iff_of_true (jsonLoads_eq_some _ _ h.1.loads).2.symm trivial

/- Around its params a call has only strings. -/
theorem docCall_all {P : DocLeaf → Prop} (hs : ∀ s, P (.str s)) (fullMethod : String) (params : Doc)
    (h : params.All P) (id : Option String) : (docCall fullMethod params id).All P := by
  cases id with
  | some id => exact ⟨hs _,hs _,h,hs _,trivial⟩
  | none => exact ⟨hs _,hs _,h,trivial⟩

theorem parse_docCall (fullMethod : String) (params : Doc) (h : params.Standard) (id : Option String) :
    jsonParse (docCall fullMethod params id)=some (jsBuildCall fullMethod (params.map jsOfDoc) id) := by
  rw [jsonParse_standard _ (docCall_all (fun _ => rfl) fullMethod params h id)]
  cases id <;> rfl

theorem loads_docCall (fullMethod : String) (params : Doc) (h : params.FewDigits) (id : Option String) :
    jsonLoads (docCall fullMethod params id)=some (pyBuildCall fullMethod (params.map pyOfDoc) id) := by
  rw [jsonLoads_few _ (docCall_all (fun _ => rfl) fullMethod params h id)]
  cases id <;> rfl

theorem docCall_obj (fullMethod : String) (params : Doc) (id : Option String) :
    ∃ fs, docCall fullMethod params id=.obj fs := by
  cases id <;> exact ⟨_,rfl⟩

theorem stringify_jsBuildCall (fullMethod : String) (v : JsVal) (h : IsJson v) (id : Option String) :
    jsonStringify (jsBuildCall fullMethod v id)=.keep (docCall fullMethod (v.map docOfJs) id) := by
  have hj : IsJson (jsBuildCall fullMethod v id) := by
    cases id with
    | some id => exact ⟨trivial,trivial,h,trivial,trivial⟩
    | none => exact ⟨trivial,trivial,h,trivial⟩
  rw [hj.stringify]
  cases id <;> rfl

theorem dumps_pyBuildCall (fullMethod : String) (p : PyVal) (h : PyIsJson p) (id : Option String) :
    jsonDumps (pyBuildCall fullMethod p id)=some (docCall fullMethod (p.map docOfPy) id) := by
  have hj : PyIsJson (pyBuildCall fullMethod p id) := by
    cases id with
    | some id => exact ⟨trivial,trivial,h,trivial,trivial⟩
    | none => exact ⟨trivial,trivial,h,trivial⟩
  rw [hj.dumps]
  cases id <;> rfl

/-! ### From a client to the servers -/

/-- The text of an object starts with its brace. -/
def Deployment.PrintsObjects (D : Deployment) : Prop :=
  ∀ fs, (D.render (.obj fs)).toList.head?=some '\x7b'

theorem Deployment.PrintsObjects.ne {D : Deployment} (h : D.PrintsObjects) (fs : List (String × Doc))
    (s : String) (hs : s.toList.head?≠some '\x7b') : D.render (.obj fs)≠s := by
  intro hr
  have hb := h fs
  rw [hr] at hb
  exact hs hb

theorem jsonParse_obj (d : Doc) (fs : List (String × JsVal)) (h : jsonParse d=some (.obj fs)) :
    ∃ gs, d=.obj gs := by
  have hw : d.write jsReadLeaf .null=.keep (.obj fs) := by
    unfold jsonParse at h
    split at h
    · rename_i v hv
      rw [hv,Option.some.inj h]
    · cases h
  cases d with
  | obj gs => exact ⟨gs,rfl⟩
  | leaf a =>
    simp only [JsonTree.write] at hw
    cases hs : jsReadLeaf a with
    | keep b =>
      rw [hs] at hw
      cases hw
    | skip =>
      rw [hs] at hw
      cases hw
    | fail =>
      rw [hs] at hw
      cases hw
  | arr xs =>
    simp only [JsonTree.write] at hw
    split at hw <;> cases hw

theorem jsSendCall (D : Deployment) (instanceId : String) (h : Names service method)
    (fs : List (String × JsVal)) (id : Option String) (d : Doc)
    (hd : jsonStringify (jsBuildCall (service++"."++method) (.obj fs) id)=.keep d) :
    sendCall D instanceId (service++"."++method) (.js (.obj fs)) id=
      some (D.commandStream service,callFields D instanceId d id) := by
  have hparse := parse_jsBuildCall h fs id
  cases id with
  | some id =>
    simp only [jsBuildCall,callOf] at hd hparse
    simp only [sendCall,sendRequest,send,hparse,hd,callFields]
  | none =>
    simp only [jsBuildCall,callOf] at hd hparse
    simp only [sendCall,sendNotification,notify,hparse,hd,callFields]

theorem pySendCall (D : Deployment) (instanceId : String) (h : Names service method)
    (p : PyVal) (id : Option String) (d : Doc)
    (hd : jsonDumps (pyBuildCall (service++"."++method) p id)=some d) :
    sendCall D instanceId (service++"."++method) (.py p) id=
      some (D.commandStream service,callFields D instanceId d id) := by
  have hparse := pyParse_pyBuildCall h p id
  cases id with
  | some id =>
    simp only [pyBuildCall,callOf] at hd hparse
    simp only [sendCall,sendRequest,pySend,hparse,hd,callFields]
  | none =>
    simp only [pyBuildCall,callOf] at hd hparse
    simp only [sendCall,sendNotification,pyNotify,hparse,hd,callFields]

theorem sendCall_spec (D : Deployment) (instanceId : String) (h : Names service method)
    (params : Params) (hp : params.IsJsonObject) (id : Option String) :
    sendCall D instanceId (service++"."++method) params id=some (D.commandStream service,
      callFields D instanceId (docCall (service++"."++method) params.doc id) id) := by
  cases params with
  | js v =>
    obtain ⟨hv,fs,rfl⟩ := hp
    exact jsSendCall D instanceId h fs id _ (stringify_jsBuildCall _ _ hv id)
  | py p => exact pySendCall D instanceId h p id _ (dumps_pyBuildCall _ p hp.1 id)

theorem truthy_some (s : String) (h : s≠"") : truthy (some s)=some s := by
  unfold truthy
  split
  · rename_i hs
    exact (h (Option.some.inj hs)).elim
  · rfl

theorem Deployment.replyStream_ne (D : Deployment) (instanceId : String) :
    D.replyStream instanceId≠"" := by
  intro h
  have hl := congrArg String.length h
  simp only [Deployment.replyStream,String.length_append] at hl
  have hm : (":replies:" : String).length=9 := rfl
  have he : ("" : String).length=0 := rfl
  omega

theorem readEntry_callFields (D : Deployment) (hD : D.PrintsObjects) (instanceId : String)
    (fs : List (String × Doc)) (env : Envelope JsVal) (id : Option String)
    (h : readEnvelope (.obj fs)=.ok env) :
    readEntry (callFields D instanceId (.obj fs) id)=
      .decoded env (id.map fun _ => D.replyStream instanceId) := by
  have hrender := hD.ne fs "reply-to" (by decide)
  cases id with
  | some id =>
    have hreply := truthy_some _ (D.replyStream_ne instanceId)
    simp [readEntry,callFields,Deployment.requestFields,fieldAfter,List.findIdx?_cons,word,
      Deployment.json,hrender,h,hreply]
  | none =>
    simp [readEntry,callFields,Deployment.plainFields,fieldAfter,List.findIdx?_cons,word,
      Deployment.json,hrender,h,truthy]

theorem getField_lookup (fields : List Bulk) (name : String) (value : Bulk)
    (h : (fieldPairs fields).lookup name=some value) (hv : value.text≠"") :
    getField fields name=some value := by
  unfold getField
  rw [h,Option.filter_some,if_pos (by simpa using hv)]

theorem pyReadEntry_callFields (D : Deployment) (hD : D.PrintsObjects) (instanceId : String)
    (fs : List (String × Doc)) (env : Envelope PyVal) (id : Option String)
    (h : pyReadEnvelope (.obj fs)=.ok env) :
    pyReadEntry (callFields D instanceId (.obj fs) id)=
      .decoded env (id.map fun _ => D.replyStream instanceId) := by
  have hrender := hD.ne fs "" (by decide)
  have henv : getField (callFields D instanceId (.obj fs) id) "envelope"=some (D.json (.obj fs)) := by
    apply getField_lookup
    · cases id <;> rfl
    · exact hrender
  cases id with
  | some id =>
    have hreply : getField (callFields D instanceId (.obj fs) (some id)) "reply-to"=
        some (word (D.replyStream instanceId)) := getField_lookup _ _ _ rfl (D.replyStream_ne instanceId)
    simp [pyReadEntry,henv,hreply,Deployment.json,word,h]
  | none =>
    have hreply : getField (callFields D instanceId (.obj fs) none) "reply-to"=none := rfl
    simp [pyReadEntry,henv,hreply,Deployment.json,h]

/-! ### In the dispatcher -/

/-- The params schema of the method reads the params, and the handler under the method's name
what the schema makes of them. -/
def ReachesMethod (contract : Contract) (method : String) (d : MethodDef) (v : JsVal) (id : Option String)
    (fields : List Bulk) : Prop :=
  ∀ handlers logger,
    (∀ e, d.params v=.error e → (dispatcher (some ⟨contract,handlers,logger⟩)
      (callOf Js.str contract.service method v id)).invoked=none) ∧
    ∀ parsed handler, d.params v=.ok parsed → handlers method=some handler →
      (dispatcher (some ⟨contract,handlers,logger⟩)
        (callOf Js.str contract.service method v id)).invoked=some parsed ∧
      dispatch (.ts ⟨contract,handlers,logger⟩) fields=some (Settled.map .js (settleHandler
        (logger.failed contract.service method (id.map Js.str)) d (id.map Js.str) (handler parsed)))

/-- The same of a Python server. -/
def PyReachesMethod (contract : PyContract) (method : String) (m : MethodEntry) (p : PyVal)
    (id : Option String) (fields : List Bulk) : Prop :=
  ∀ handlers,
    ((∀ parsed, m.paramsModel p≠.valid parsed) → (pyDispatcher (some ⟨contract,handlers⟩)
      (callOf Py.str contract.service method p id)).invoked=none) ∧
    ∀ parsed handler, m.paramsModel p=.valid parsed → handlers m.handlerAttr=some handler →
      (pyDispatcher (some ⟨contract,handlers⟩)
        (callOf Py.str contract.service method p id)).invoked=some parsed ∧
      dispatch (.py ⟨contract,handlers⟩) fields=
        some (Settled.map .py (pySettleHandler m (id.map Py.str) (handler parsed)))

theorem dispatcher_callOf (entry : ServiceEntry) (service method : String) (v : JsVal) (id : Option String) :
    dispatcher (some entry) (callOf Js.str service method v id)=dispatchCall entry method v (id.map Js.str) := by
  cases id <;> rfl

theorem pyDispatcher_callOf (entry : PyServiceEntry) (service method : String) (p : PyVal)
    (id : Option String) : pyDispatcher (some entry) (callOf Py.str service method p id)=
      pyDispatchCall entry method p (id.map Py.str) := by
  cases id <;> rfl

theorem reachesMethod (contract : Contract) (method : String) (d : MethodDef)
    (hd : contract.methods.lookup method=some d) (v : JsVal) (id replyTo : Option String)
    (fields : List Bulk) (h : readEntry fields=.decoded (callOf Js.str contract.service method v id) replyTo) :
    ReachesMethod contract method d v id fields := by
  intro handlers logger
  have hlookup : contract.lookup method=some d := by
    simp only [Contract.lookup,hd]
  simp only [dispatch,h,dispatcher_callOf]
  unfold dispatchCall
  simp only [hlookup]
  refine ⟨fun e he => ?_,fun parsed handler hp hh => ?_⟩
  · simp only [he]
    cases id <;> rfl
  · simp only [hp,hh,and_self]

theorem pyReachesMethod (contract : PyContract) (method : String) (m : MethodEntry)
    (hm : contract.methods.lookup method=some m) (p : PyVal) (id replyTo : Option String)
    (fields : List Bulk)
    (h : pyReadEntry fields=.decoded (callOf Py.str contract.service method p id) replyTo) :
    PyReachesMethod contract method m p id fields := by
  intro handlers
  simp only [dispatch,h,pyDispatcher_callOf]
  unfold pyDispatchCall
  simp only [hm]
  refine ⟨fun he => ?_,fun parsed handler hp hh => ?_⟩
  · cases hp : m.paramsModel p with
    | valid parsed => exact (he parsed hp).elim
    | invalid errors => rfl
    | raised => rfl
  · simp only [hp,hh,and_self]

/-- From a client of either language to the dispatcher entry of a TypeScript server: on the stream
of the service, and with the names, the params and the id that were sent. -/
def JsRoundTrip (D : Deployment) (instanceId : String) (contract : Contract) (method : String)
    (d : MethodDef) (params : Params) (id : Option String) : Prop :=
  ∃ fields v, sendCall D instanceId (contract.service++"."++method) params id=
      some (D.commandStream contract.service,fields) ∧ params.JsArrive v ∧
    readEntry fields=.decoded (callOf Js.str contract.service method v id)
      (id.map fun _ => D.replyStream instanceId) ∧
    ReachesMethod contract method d v id fields

/-- And to that of a Python server. -/
def PyRoundTrip (D : Deployment) (instanceId : String) (contract : PyContract) (method : String)
    (m : MethodEntry) (params : Params) (id : Option String) : Prop :=
  ∃ fields p, sendCall D instanceId (contract.service++"."++method) params id=
      some (D.commandStream contract.service,fields) ∧ params.PyArrive p ∧
    pyReadEntry fields=.decoded (callOf Py.str contract.service method p id)
      (id.map fun _ => D.replyStream instanceId) ∧
    PyReachesMethod contract method m p id fields

theorem callOf_params {V : Type} {str : String → V} {service method : String} {p q : V}
    {id : Option String} (h : callOf str service method p id=callOf str service method q id) : p=q := by
  cases id with
  | some id =>
    simp only [callOf,Envelope.request.injEq] at h
    exact h.2.2.2.1
  | none =>
    simp only [callOf,Envelope.notification.injEq] at h
    exact h.2.2.2

theorem readEntry_sent (D : Deployment) (hD : D.PrintsObjects) (instanceId : String)
    (h : Names service method) (params : Params) (hp : params.IsJsonObject) (id : Option String) :
    readEntry (callFields D instanceId (docCall (service++"."++method) params.doc id) id)=
      .decoded (callOf Js.str service method (params.doc.map jsOfDoc) id)
        (id.map fun _ => D.replyStream instanceId) := by
  have hparse := parse_docCall (service++"."++method) params.doc hp.standard id
  obtain ⟨gs,hgs⟩ := hp.jsObject
  obtain ⟨fs,hfs⟩ := docCall_obj (service++"."++method) params.doc id
  rw [hfs,hgs] at hparse
  rw [hfs,hgs]
  refine readEntry_callFields D hD instanceId fs _ id ?_
  simp only [readEnvelope,hparse,parse_jsBuildCall h gs id]

theorem pyReadEntry_sent (D : Deployment) (hD : D.PrintsObjects) (instanceId : String)
    (h : Names service method) (params : Params) (hp : params.IsJsonObject) (id : Option String) :
    pyReadEntry (callFields D instanceId (docCall (service++"."++method) params.doc id) id)=
      .decoded (callOf Py.str service method (params.doc.map pyOfDoc) id)
        (id.map fun _ => D.replyStream instanceId) := by
  have hloads := loads_docCall (service++"."++method) params.doc hp.fewDigits id
  obtain ⟨fs,hfs⟩ := docCall_obj (service++"."++method) params.doc id
  rw [hfs] at hloads
  rw [hfs]
  refine pyReadEntry_callFields D hD instanceId fs _ id ?_
  simp only [pyReadEnvelope,hloads,pyParse_pyBuildCall h _ id]

theorem jsRoundTrip (D : Deployment) (hD : D.PrintsObjects) (instanceId : String) (contract : Contract)
    (method : String) (d : MethodDef) (hd : contract.methods.lookup method=some d) (params : Params)
    (hp : params.IsJsonObject) (id : Option String) : JsRoundTrip D instanceId contract method d params id := by
  have names := Contract.names contract method d hd
  have hread := readEntry_sent D hD instanceId names params hp id
  exact ⟨_,_,sendCall_spec D instanceId names params hp id,hp.jsArrive,hread,
    reachesMethod contract method d hd _ id _ _ hread⟩

/- The params that a Python server reads are those of the text. -/
theorem pyRoundTrip_iff (D : Deployment) (hD : D.PrintsObjects) (instanceId : String)
    (contract : PyContract) (method : String) (m : MethodEntry)
    (hm : contract.methods.lookup method=some m) (names : Names contract.service method) (params : Params)
    (hp : params.IsJsonObject) (id : Option String) :
    PyRoundTrip D instanceId contract method m params id ↔ params.Printed := by
  have hsend := sendCall_spec D instanceId names params hp id
  have hread := pyReadEntry_sent D hD instanceId names params hp id
  rw [← hp.pyArrive_iff]
  constructor
  · rintro ⟨fields,p,hsend',harrive,hread',_⟩
    rw [hsend,Option.some.injEq,Prod.mk.injEq] at hsend'
    rw [← hsend'.2,hread] at hread'
    simp only [Reading.decoded.injEq] at hread'
    rwa [callOf_params hread'.1]
  · intro harrive
    exact ⟨_,_,hsend,harrive,hread,pyReachesMethod contract method m hm _ id _ _ hread⟩

/-- A call or notification, from a client of either language to the dispatcher entry of its
method: always on a TypeScript server, on a Python server if the client prints the digits of the
numbers. -/
theorem roundTrip_iff (D : Deployment) (hD : D.PrintsObjects) (instanceId : String) (contract : Contract)
    (method : String) (d : MethodDef) (hd : contract.methods.lookup method=some d)
    (pyContract : PyContract) (hs : pyContract.service=contract.service) (m : MethodEntry)
    (hm : pyContract.methods.lookup method=some m) (params : Params) (hp : params.IsJsonObject)
    (id : Option String) :
    (∀ service, D.commandStream service=D.commandStream contract.service ↔ service=contract.service) ∧
      JsRoundTrip D instanceId contract method d params id ∧
      (PyRoundTrip D instanceId pyContract method m params id ↔ params.Printed) := by
  have names := Contract.names contract method d hd
  exact ⟨fun service => ⟨D.commandStream_inj service _,fun h => by rw [h]⟩,
    jsRoundTrip D hD instanceId contract method d hd params hp id,
    pyRoundTrip_iff D hD instanceId pyContract method m hm (hs ▸ names) params hp id⟩

def addText : Doc → String
  | .obj [("jsonrpc",_),("method",_),("params",.obj [("x",.leaf (.int n))]),("id",.leaf (.str id))] =>
    "\x7b\"jsonrpc\":\"2.0\",\"method\":\"arith.add\",\"params\":\x7b\"x\":"++toString n++
      "\x7d,\"id\":\""++id++"\"\x7d"
  | _ => "\x7b\x7d"

def addDeployment : Deployment := { clamator with render := addText }

theorem addDeployment_prints : addDeployment.PrintsObjects := by
  intro fs
  change (addText (.obj fs)).toList.head?=some '\x7b'
  unfold addText
  split
  · simp only [String.toList_append]
    rfl
  · rfl

theorem add_methods : methodsProblem [("add",⟨.ok,some (some .ok),false⟩)]=none := rfl

def addContract : Contract :=
  ⟨"arith",[("add",⟨.ok,some (some .ok),false⟩)],serviceRe_arith,add_methods⟩

def pyAddContract : PyContract :=
  ⟨"arith",[("add",⟨.valid,some fun v => .valid (some v),"add"⟩)]⟩

theorem roundTrip_add : ∃ fields p,
    sendCall addDeployment "c1" "arith.add" (.js (.obj [("x",Js.num (ofInt 1))])) (some "1")=
      some ("clamator:cmds:arith",fields) ∧
    pyReadEntry fields=.decoded (.request "arith" "add" "arith.add" p (Py.str "1"))
      (some "clamator:replies:c1") := by
  obtain ⟨_,_,hpy⟩ := roundTrip_iff addDeployment addDeployment_prints "c1" addContract "add" _ rfl
    pyAddContract rfl _ rfl (.js (.obj [("x",Js.num (ofInt 1))])) ⟨⟨rfl,trivial⟩,_,rfl⟩ (some "1")
  obtain ⟨fields,p,hsend,_,hread,_⟩ := hpy.mpr ⟨printed_small 1 (by decide) (by decide),trivial⟩
  exact ⟨fields,p,hsend,hread⟩

/-- `JSON.stringify` writes `2^60` as 1152921504606847000, and Python reads that. -/
theorem bigParams_differ : ∃ fields,
    sendCall addDeployment "c1" "arith.add" (.js (.obj [("x",Js.num (ofInt (2^60)))])) (some "1")=
      some ("clamator:cmds:arith",fields) ∧
    pyReadEntry fields=.decoded (.request "arith" "add" "arith.add"
      (.obj [("x",Py.int 1152921504606847000)]) (Py.str "1")) (some "clamator:replies:c1") ∧
    ∀ m, ¬PyRoundTrip addDeployment "c1" pyAddContract "add" m (.js (.obj [("x",Js.num (ofInt (2^60)))]))
      (some "1") := by
  have hp : (Params.js (.obj [("x",Js.num (ofInt (2^60)))])).IsJsonObject := ⟨⟨rfl,trivial⟩,_,rfl⟩
  have names : Names "arith" "add" := ⟨rfl,rfl⟩
  have hsend := sendCall_spec addDeployment "c1" names _ hp (some "1")
  have hread := pyReadEntry_sent addDeployment addDeployment_prints "c1" names _ hp (some "1")
  refine ⟨_,hsend,hread,fun m => ?_⟩
  rintro ⟨fields,p,hsend',harrive,hread',_⟩
  have hfields := (Prod.mk.inj (Option.some.inj (hsend.symm.trans hsend'))).2
  rw [← hfields,hread] at hread'
  simp only [Reading.decoded.injEq] at hread'
  have hq := @callOf_params _ _ _ _ _ _ (some "1") hread'.1
  have hprinted := hp.pyArrive_iff.mp (hq.symm ▸ harrive)
  exact absurd (hprinted.1 (by decide)) (by decide)

end Clamator.Redis
