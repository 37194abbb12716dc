import Clamator.Codegen.Identifiers
import Clamator.Codegen.Manifest
import Clamator.Protocol.DecisionTable
import Clamator.Protocol.ServerCorePy

/-!
# What a generated Python service does (`emit-py.ts`, `server-core.ts`, `server_core.py`)

The METHODS table of a generated module names its models by class, and `getattr` finds a
handler by its snake-case name. Each entry turns out to have the models of its own method's
schemas; so the two dispatchers of a contract decide alike but for what the models accept.
-/

namespace Clamator.Codegen
open Clamator.Base Clamator.Protocol

/-- The classes that `datamodel-codegen` makes of a definition of the schema document. Those it
makes of nested schemas are taken to leave the other names of the module alone. -/
structure PyModels where
  params : Doc → PyVal → Validation PyVal
  result : Doc → PyVal → Validation Dumped

variable (T : Toolchain) (M : PyModels)

/- The member of the schema document that is written. -/
def writtenDoc (jsonSchema : JsVal) : Option Doc := match jsonStringify jsonSchema with
  | .keep d => some d
  | _ => none

/-- The definition behind a class of the generated module. The tail of the module binds its own
two classes after the models. -/
def classDoc (c : IrContract) (name : String) : Option Doc :=
  if name=clientName c ∨ name=serviceName c then none else ((schemaDefs c).lookup name).bind writtenDoc

/- `MethodEntry(params_model=…, result_model=…, handler_attr=…)`; `none` where a name is not bound. -/
def generatedEntry (c : IrContract) (m : IrMethod) : Option (String × MethodEntry) :=
  match classDoc c (typeName m.name++"Params") with
  | none => none
  | some params =>
    if m.isNotification then some (m.name,⟨M.params params,none,(handlerAttr m).2⟩)
    else (classDoc c (typeName m.name++"Result")).map fun result =>
      (m.name,⟨M.params params,some (M.result result),(handlerAttr m).2⟩)

instance (n : String) : Decidable (PyBinds n) := inferInstanceAs (Decidable (_ ∧ _))

instance (c : IrContract) : Decidable (PyLegal c) :=
  decidable_of_iff ((∀ n∈pyNames c, PyBinds n) ∧ (∀ m∈c.methods, PyBinds (snakeName m.name)) ∧ c.methods≠[])
    ⟨fun h => ⟨h.1,h.2.1,h.2.2⟩,fun h => ⟨h.names,h.methods,h.body⟩⟩

/- The class of the handlers decorates every method with what `abstractmethod` then names: the
import, or a method of that name above it. -/
def decorates (c : IrContract) : Bool :=
  c.methods.dropLast.all fun m => snakeName m.name != "abstractmethod"

/- `Contract(service=…, methods=METHODS)`; `none` where importing the module raises. -/
def generatedContract (c : IrContract) : Option PyContract :=
  if PyLegal c ∧ decorates c=true then
    (c.methods.mapM (generatedEntry M c)).map fun methods => ⟨c.service,Assoc.assignAll [] methods⟩
  else none

/-- The models of a method by its own schemas. -/
def methodModels (name : String) (d : MethodDef) : Option MethodEntry :=
  match schemaDoc T d.params with
  | none => none
  | some params =>
    if d.notification then some ⟨M.params params,none,snakeName name⟩
    else (resultDoc T d).map fun result => ⟨M.params params,some (M.result result),snakeName name⟩

/-! ### The definitions -/

theorem lowerSchema_written (z : Schema) (s : IrSchema) (h : lowerSchema T z=some s) :
    ∃ d, writtenDoc s.jsonSchema=some d ∧ schemaDoc T z=some d := by
  unfold lowerSchema at h
  split at h
  · cases h
  · rename_i jsonSchema hz
    split at h
    · rename_i serialized hs
      cases h
      exact ⟨serialized,by simp [writtenDoc,hs],by simp [schemaDoc,hz,hs]⟩
    · cases h

theorem lowerResult_isSome (d : MethodDef) (r : Option IrSchema) (h : lowerResult T d=some r) :
    r.isSome= !d.notification := by
  unfold lowerResult at h
  cases hn : d.notification with
  | true =>
    rw [hn,if_pos rfl,Option.some.injEq] at h
    rw [← h]
    rfl
  | false =>
    rw [hn,if_neg (by simp)] at h
    split at h
    · cases h
    · obtain ⟨s,_,rfl⟩ := Option.map_eq_some_iff.mp h
      rfl

/-- An intermediate contract as lowering makes it of an accepted one. -/
structure Lowered (c : IrContract) : Prop where
  names : ∀ m∈c.methods, methodRe m.name.toList=true
  nodup : (c.methods.map IrMethod.name).Nodup
  results : ∀ m∈c.methods, m.result.isSome= !m.isNotification

variable {T M}

theorem lowerContract_lowered (v : ContractValue) (file : String) (c : IrContract) (hv : v.Accepted)
    (hc : lowerContract T ⟨v,file⟩=some c) : Lowered c := by
  have hperm := lowerContract_names T ⟨v,file⟩ c hc
  refine ⟨fun m hmem => ?_,hperm.nodup_iff.mpr v.names_nodup,fun m hmem => ?_⟩
  · exact hv.name m.name (hperm.mem_iff.mp (List.mem_map_of_mem hmem))
  · obtain ⟨x,_,hx⟩ := (lowered_methods T ⟨v,file⟩ c hc m).mp hmem
    obtain ⟨_,hn,_,hr⟩ := lowerMethod_spec T x m hx
    rw [hn]
    exact lowerResult_isSome T x.2 m.result hr

theorem schemaDefs_lookup (c : IrContract) (h : Lowered c) (m : IrMethod) (hm : m∈c.methods) :
    (schemaDefs c).lookup (typeName m.name++"Params")=some m.params.jsonSchema ∧
      ∀ r, m.result=some r → (schemaDefs c).lookup (typeName m.name++"Result")=some r.jsonSchema := by
  obtain ⟨defs,hdefs,hmethod⟩ : ∃ defs : IrMethod → List (String × JsVal),
      schemaDefs c=Assoc.assignAll [] (c.methods.flatMap defs) ∧ ∀ x∈c.methods,
        (defs x).map Prod.fst=(aliases x).map Prod.fst ∧
        (typeName x.name++"Params",x.params.jsonSchema)∈defs x ∧
        ∀ r, x.result=some r → (typeName x.name++"Result",r.jsonSchema)∈defs x := by
    refine ⟨_,rfl,fun x hx => ?_⟩
    have hr := h.results x hx
    cases hres : x.result with
    | none =>
      rw [hres] at hr
      have hn : x.isNotification=true := by simpa using hr.symm
      simp [aliases,hn]
    | some r =>
      rw [hres] at hr
      have hn : x.isNotification=false := by simpa using hr.symm
      simp [aliases,hn]
  have hkeys : (c.methods.flatMap defs).map Prod.fst=aliasNames c := by
    rw [List.map_flatMap,aliasNames]
    exact List.flatMap_congr fun x hx => (hmethod x hx).1
  have hnodup := aliasNames_nodup c h.names h.nodup
  rw [← hkeys] at hnodup
  obtain ⟨_,hparams,hresult⟩ := hmethod m hm
  rw [hdefs]
  constructor
  · apply (Assoc.lookup_assignAll_nodup _ hnodup _ _).mpr
    exact List.mem_flatMap.mpr ⟨m,hm,hparams⟩
  · intro r hr
    apply (Assoc.lookup_assignAll_nodup _ hnodup _ _).mpr
    exact List.mem_flatMap.mpr ⟨m,hm,hresult r hr⟩

/- No class of the tail has the name of a model. -/
theorem classDoc_eq (c : IrContract) (name suffix : String) (hs : suffix∈["Params","Result"]) :
    classDoc c (name++suffix)=((schemaDefs c).lookup (name++suffix)).bind writtenDoc := by
  have hends : ∀ s∈["Params","Result"], 6 ≤ s.toList.length ∧ ending s≠ending "Client" ∧
      ending s≠ending "Service" := by decide
  obtain ⟨hlen,hclient,hservice⟩ := hends suffix hs
  have hend : ending (name++suffix)=ending suffix := ending_append name suffix hlen
  apply if_neg
  rintro (heq | heq)
  · apply hclient
    rw [← hend,heq,clientName_ending]
  · apply hservice
    rw [← hend,heq,serviceName_ending]

/- The entry that is evaluated is that of the method's own schemas. -/
theorem generatedEntry_eq (c : IrContract) (h : Lowered c) (x : String × MethodDef) (m : IrMethod)
    (hm : m∈c.methods) (hx : lowerMethod T x=some m) :
    ∃ e, methodModels T M x.1 x.2=some e ∧ generatedEntry M c m=some (x.1,e) := by
  obtain ⟨hname,hn,hp,hr⟩ := lowerMethod_spec T x m hx
  obtain ⟨hparams,hresult⟩ := schemaDefs_lookup c h m hm
  obtain ⟨p,hwritten,hdoc⟩ := lowerSchema_written T x.2.params m.params hp
  have hclass : classDoc c (typeName m.name++"Params")=some p := by
    rw [classDoc_eq c _ "Params" (by simp),hparams]
    exact hwritten
  unfold generatedEntry methodModels
  rw [hclass,hdoc,← hn]
  dsimp only
  cases hnote : m.isNotification with
  | true =>
    rw [if_pos rfl,if_pos rfl]
    exact ⟨_,rfl,by rw [handlerAttr,hname]⟩
  | false =>
    rw [if_neg (by simp),if_neg (by simp)]
    rw [hnote] at hn
    unfold lowerResult at hr
    rw [← hn,if_neg (by simp)] at hr
    unfold resultDoc
    rw [← hn,if_neg (by simp)]
    cases hz : x.2.result.join with
    | none =>
      rw [hz] at hr
      cases hr
    | some z =>
      rw [hz] at hr
      obtain ⟨s,hs,hres⟩ := Option.map_eq_some_iff.mp hr
      obtain ⟨r,hwritten',hdoc'⟩ := lowerSchema_written T z s hs
      have hclass' : classDoc c (typeName m.name++"Result")=some r := by
        rw [classDoc_eq c _ "Result" (by simp),hresult s hres.symm]
        exact hwritten'
      rw [hclass',Option.bind_some,hdoc']
      exact ⟨_,rfl,by rw [Option.map_some,handlerAttr,hname]⟩

/-- What the module needs to be imported: there are methods, none of them called as a Python
keyword, and only the last one may be called `abstractmethod`. -/
structure Imports (c : IrContract) : Prop where
  methods : c.methods≠[]
  keywords : ∀ m∈c.methods, m.name∉pyKeywords
  decorators : ∀ m∈c.methods.dropLast, m.name≠"abstractmethod"

theorem imports_iff (c : IrContract) (hs : serviceRe c.service.toList=true)
    (hnames : ∀ m∈c.methods, methodRe m.name.toList=true) :
    PyLegal c ∧ decorates c=true ↔ Imports c := by
  have hdecorates : decorates c=true ↔ ∀ m∈c.methods.dropLast, m.name≠"abstractmethod" := by
    rw [decorates,List.all_eq_true]
    refine forall₂_congr fun m hm => ?_
    rw [bne_iff_ne,ne_eq,snakeName_word m.name "abstractmethod" (hnames m (List.dropLast_subset _ hm))
      (by decide)]
  rw [pyLegal_iff hs hnames,hdecorates]
  exact ⟨fun h => ⟨h.1.1,h.1.2,h.2⟩,fun h => ⟨⟨h.methods,h.keywords⟩,h.decorators⟩⟩

/-- The table of the module takes every method of the contract, and no other name, to the models
of that method's schemas. -/
theorem generatedContract_lookup (v : ContractValue) (file : String) (c : IrContract) (hv : v.Accepted)
    (hc : lowerContract T ⟨v,file⟩=some c) (hi : Imports c) : ∃ pc, generatedContract M c=some pc ∧
      pc.service=v.service ∧ ∀ name, pc.methods.lookup name=
        (v.methods.lookup name).bind (methodModels T M name) ∧
        ((v.methods.lookup name).isSome → (pc.methods.lookup name).isSome) := by
  have hlow := lowerContract_lowered v file c hv hc
  have hservice : c.service=v.service := (lowerContract_spec T ⟨v,file⟩ c hc).1
  have hmem := lowered_methods T ⟨v,file⟩ c hc
  have hlowers := lowers_method T ⟨v,file⟩ c hc
  have hsome : ∃ entries, c.methods.mapM (generatedEntry M c)=some entries := by
    refine Option.ne_none_iff_exists'.mp fun hnone => ?_
    obtain ⟨m,hm,hfail⟩ := (mapM_eq_none_iff _ _).mp hnone
    obtain ⟨x,_,hx⟩ := (hmem m).mp hm
    obtain ⟨e,_,he⟩ := generatedEntry_eq (M := M) c hlow x m hm hx
    rw [hfail] at he
    cases he
  obtain ⟨entries,hentries⟩ := hsome
  have hentry : ∀ name e, (name,e)∈entries ↔
      ∃ d, (name,d)∈v.methods ∧ methodModels T M name d=some e := by
    intro name e
    rw [mem_of_mapM _ _ _ hentries]
    constructor
    · rintro ⟨m,hm,he⟩
      obtain ⟨⟨name',d⟩,hx,hlower⟩ := (hmem m).mp hm
      obtain ⟨e',he',hgen⟩ := generatedEntry_eq (M := M) c hlow _ m hm hlower
      rw [hgen] at he
      cases he
      exact ⟨d,hx,he'⟩
    · rintro ⟨d,hx,he⟩
      obtain ⟨m,hlower⟩ := hlowers (name,d) hx
      have hm := (hmem m).mpr ⟨_,hx,hlower⟩
      obtain ⟨e',he',hgen⟩ := generatedEntry_eq (M := M) c hlow _ m hm hlower
      rw [he] at he'
      cases he'
      exact ⟨m,hm,hgen⟩
  have hnodup : (entries.map Prod.fst).Nodup := by
    have hnames : entries.map Prod.fst=c.methods.map IrMethod.name := by
      have hall := congrArg (List.map (Option.map Prod.fst)) ((mapM_eq_some_iff _ _ _).mp hentries)
      simp only [List.map_map] at hall
      apply List.map_injective_iff.mpr (Option.some_injective String)
      rw [List.map_map,List.map_map]
      refine Eq.trans ?_ (hall.symm.trans ?_)
      · exact List.map_congr_left fun _ _ => rfl
      · refine List.map_congr_left fun m hm => ?_
        obtain ⟨x,_,hx⟩ := (hmem m).mp hm
        obtain ⟨e,_,he⟩ := generatedEntry_eq (M := M) c hlow x m hm hx
        rw [Function.comp_apply,he,(lowerMethod_spec T x m hx).1.symm]
        rfl
    rw [hnames]
    exact hlow.nodup
  have hlookup : ∀ name e, (Assoc.assignAll [] entries).lookup name=some e ↔
      (v.methods.lookup name).bind (methodModels T M name)=some e := by
    intro name e
    rw [Assoc.lookup_assignAll_nodup _ hnodup,hentry,Option.bind_eq_some_iff]
    refine exists_congr fun d => and_congr_left fun _ => ?_
    exact (Assoc.lookup_iff_mem _ v.names_nodup name d).symm
  have himports := (imports_iff c (hservice ▸ hv.valid.1) hlow.names).mpr hi
  refine ⟨_,by rw [generatedContract,if_pos himports,hentries]; rfl,hservice,fun name => ⟨?_,fun hd => ?_⟩⟩
  · exact Option.ext fun e => hlookup name e
  · obtain ⟨d,hd⟩ := Option.isSome_iff_exists.mp hd
    have hx := (Assoc.lookup_iff_mem _ v.names_nodup name d).mp hd
    obtain ⟨m,hlower⟩ := hlowers (name,d) hx
    have hm := (hmem m).mpr ⟨_,hx,hlower⟩
    obtain ⟨e,he,_⟩ := generatedEntry_eq (M := M) c hlow _ m hm hlower
    refine Option.isSome_iff_exists.mpr ⟨e,(hlookup name e).mpr ?_⟩
    rw [hd]
    exact he

/-- A module is only imported where `Imports` holds. -/
theorem generatedContract_imports (v : ContractValue) (file : String) (c : IrContract) (hv : v.Accepted)
    (hc : lowerContract T ⟨v,file⟩=some c) (pc : PyContract) (h : generatedContract M c=some pc) :
    Imports c := by
  have hservice : c.service=v.service := (lowerContract_spec T ⟨v,file⟩ c hc).1
  have hlow := lowerContract_lowered v file c hv hc
  refine (imports_iff c (hservice ▸ hv.valid.1) hlow.names).mp ?_
  by_contra hn
  rw [generatedContract,if_neg hn] at h
  cases h

/-! ### Decisions -/

/-- What becomes of a request before a handler answers it. -/
inductive Decision where
  | unknown
  | refused
  | failed
  | invoked

/-- `answers code reply` for an error response with the code. -/
def Decision.Is {V : Type} (answers : ℤ → V → Prop) (d : Dispatch V) : Decision → Prop
  | .unknown => d.invoked=none ∧ ∃ reply, d.settled=.returned (some reply) ∧ answers (-32601) reply
  | .refused => d.invoked=none ∧ ∃ reply, d.settled=.returned (some reply) ∧ answers (-32602) reply
  | .failed => d.invoked=none ∧ d.settled=.rejected
  | .invoked => d.invoked≠none

def tsAnswers (id : JsVal) (code : ℤ) (reply : JsVal) : Prop :=
  ∃ message data, reply=buildErrorResponse id (Js.num (Binary64.ofInt code)) message data

def pyAnswers (id : PyVal) (code : ℤ) (reply : PyVal) : Prop :=
  ∃ message data, reply=pyBuildErrorResponse id (Py.int code) message data

/-- A schema and a model treat their params alike: both accept, or both reject with errors that can
be logged and read, or neither gives anything to answer with. -/
def Alike (logs : Thrown → Bool) : Except Thrown JsVal → Validation PyVal → Prop
  | .ok _,.valid _ => True
  | .error e,.invalid _ => logs e=true ∧ e.Readable
  | .error e,.raised => ¬(logs e=true ∧ e.Readable)
  | _,_ => False

/-- A name is of no method and not inherited either; or its two schemas treat the params alike, and
for accepted ones either both services have a handler or neither has. -/
def AgreeOn (T : Toolchain) (M : PyModels) (v : ContractValue) (logs : Thrown → Bool)
    (handlers : String → Option Handler) (pyHandlers : String → Option PyHandler) (method : String)
    (params : JsVal) (pyParams : PyVal) : Prop := match v.methods.lookup method with
  | none => method∉objectPrototype
  | some d => ∃ doc, schemaDoc T d.params=some doc ∧
      Alike logs (d.params params) (M.params doc pyParams) ∧
      ((∃ p, d.params params=.ok p) →
        (handlers method).isSome=(pyHandlers (snakeName method)).isSome)

theorem tsAnswers_code (id reply : JsVal) (h : tsAnswers id (-32601) reply) :
    ¬ tsAnswers id (-32602) reply := by
  obtain ⟨message,data,rfl⟩ := h
  rintro ⟨message',data',h⟩
  simp only [buildErrorResponse,JsonTree.obj.injEq,List.cons.injEq,Prod.mk.injEq] at h
  have hcode : Binary64.ofInt (-32601)=Binary64.ofInt (-32602) := by
    simpa using h.2.2.1.2.1.2
  exact absurd hcode (by decide)

theorem pyAnswers_code (id reply : PyVal) (h : pyAnswers id (-32601) reply) :
    ¬ pyAnswers id (-32602) reply := by
  obtain ⟨message,data,rfl⟩ := h
  rintro ⟨message',data',h⟩
  simp [pyBuildErrorResponse] at h

theorem Decision.Is.unique {V : Type} {answers : ℤ → V → Prop} {d : Dispatch V} {k k' : Decision}
    (hcode : ∀ reply, answers (-32601) reply → ¬ answers (-32602) reply) (h : k.Is answers d)
    (h' : k'.Is answers d) : k=k' := by
  cases k <;> cases k' <;> simp only [Decision.Is] at h h' <;> grind

/-- The decision of the TypeScript dispatcher about a method of the contract. -/
def tsDecision (logs : Thrown → Bool) (parsed : Except Thrown JsVal) (handled : Bool) : Decision :=
  match parsed with
  | .ok _ => if handled then .invoked else .unknown
  | .error e => match logs e,exceptionToErrorData e with
    | true,some _ => .refused
    | _,_ => .failed

/-- That of the Python dispatcher. -/
def pyDecision (validated : Validation PyVal) (handled : Bool) : Decision := match validated with
  | .valid _ => if handled then .invoked else .unknown
  | .invalid _ => .refused
  | .raised => .failed

theorem tsDecision_eq_iff (logs : Thrown → Bool) (parsed : Except Thrown JsVal)
    (validated : Validation PyVal) (handled pyHandled : Bool) :
    tsDecision logs parsed handled=pyDecision validated pyHandled ↔
      Alike logs parsed validated ∧ ((∃ p, parsed=.ok p) → handled=pyHandled) := by
  cases parsed with
  | ok p => cases validated <;> cases handled <;> cases pyHandled <;> simp [tsDecision,pyDecision,Alike]
  | error e =>
    have hread := exceptionToErrorData_ne_none e
    cases hl : logs e <;> cases hd : exceptionToErrorData e <;> rw [hd] at hread <;>
      cases validated <;> cases pyHandled <;> simp_all [tsDecision,pyDecision,Alike]

theorem dispatchCall_decides (entry : ServiceEntry) (method : String) (params id : JsVal)
    (d : MethodDef) (hd : entry.contract.lookup method=some d) :
    (tsDecision (entry.logger.paramsFailed entry.contract.service method (some id)) (d.params params)
      (entry.handlers method).isSome).Is (tsAnswers id) (dispatchCall entry method params (some id)) := by
  unfold dispatchCall tsDecision
  rw [hd]
  dsimp only
  cases d.params params with
  | error e =>
    dsimp only [Protocol.failure]
    cases entry.logger.paramsFailed entry.contract.service method (some id) e with
    | false => exact ⟨rfl,rfl⟩
    | true => cases exceptionToErrorData e with
      | none => exact ⟨rfl,rfl⟩
      | some data => exact ⟨rfl,_,rfl,_,_,rfl⟩
  | ok parsed =>
    dsimp only
    cases entry.handlers method with
    | none => exact ⟨rfl,_,rfl,_,_,rfl⟩
    | some handler => exact Option.some_ne_none _

theorem pyDispatchCall_decides (entry : PyServiceEntry) (method : String) (params id : PyVal)
    (m : MethodEntry) (hm : entry.contract.methods.lookup method=some m) :
    (pyDecision (m.paramsModel params) (entry.handlers m.handlerAttr).isSome).Is (pyAnswers id)
      (pyDispatchCall entry method params (some id)) := by
  unfold pyDispatchCall pyDecision
  rw [hm]
  dsimp only
  cases m.paramsModel params with
  | raised => exact ⟨rfl,rfl⟩
  | invalid errors => exact ⟨rfl,_,rfl,_,_,rfl⟩
  | valid parsed =>
    dsimp only
    cases entry.handlers m.handlerAttr with
    | none => exact ⟨rfl,_,rfl,_,_,rfl⟩
    | some handler => exact Option.some_ne_none _

/- Its decision is the one there is. -/
theorem decide_together {ts : Dispatch JsVal} {py : Dispatch PyVal} {id : JsVal} {pyId : PyVal}
    {k k' : Decision} (hts : k.Is (tsAnswers id) ts) (hpy : k'.Is (pyAnswers pyId) py) :
    (∃ k : Decision, k.Is (tsAnswers id) ts ∧ k.Is (pyAnswers pyId) py) ↔ k=k' := by
  constructor
  · rintro ⟨j,hj,hj'⟩
    have hk := hts.unique (tsAnswers_code id) hj
    exact hk.trans (hj'.unique (pyAnswers_code pyId) hpy)
  · rintro rfl
    exact ⟨k,hts,hpy⟩

theorem methodModels_spec (name : String) (d : MethodDef) (e : MethodEntry)
    (h : methodModels T M name d=some e) : ∃ doc, schemaDoc T d.params=some doc ∧
      e.paramsModel=M.params doc ∧ e.handlerAttr=snakeName name := by
  unfold methodModels at h
  split at h
  · cases h
  · rename_i doc hdoc
    split at h
    · cases h
      exact ⟨doc,hdoc,rfl,rfl⟩
    · obtain ⟨r,_,rfl⟩ := Option.map_eq_some_iff.mp h
      exact ⟨doc,hdoc,rfl,rfl⟩

/-- The generated module of a contract can be imported exactly if `Imports` holds; and then the
service in TypeScript and that of the module decide alike on exactly these requests. -/
theorem decisions_agree_iff (v : ContractValue) (file : String) (c : IrContract)
    (hv : v.Accepted) (hc : lowerContract T ⟨v,file⟩=some c) :
    ∃ contract, defineContract v.service v.methods=.ok contract ∧
      ((generatedContract M c).isSome ↔ Imports c) ∧ ∀ pc, generatedContract M c=some pc →
      ∀ (handlers : String → Option Handler) (logger : Logger) (pyHandlers : String → Option PyHandler)
        (method : MethodName) (params : JsVal) (pyParams : PyVal) (id : JsVal) (pyId : PyVal),
        (∃ decision : Decision,
          decision.Is (tsAnswers id) (dispatcher (some ⟨contract,handlers,logger⟩)
            (.request v.service method (v.service++"."++method) params id)) ∧
          decision.Is (pyAnswers pyId) (pyDispatcher (some ⟨pc,pyHandlers⟩)
            (.request v.service method (v.service++"."++method) pyParams pyId))) ↔
        AgreeOn T M v (logger.paramsFailed v.service method (some id)) handlers pyHandlers method
          params pyParams := by
  obtain ⟨contract,hcontract⟩ := hv
  have hv : v.Accepted := ⟨contract,hcontract⟩
  refine ⟨contract,hcontract,⟨fun h => ?_,fun h => ?_⟩,?_⟩
  · obtain ⟨pc,hpc⟩ := Option.isSome_iff_exists.mp h
    exact generatedContract_imports v file c hv hc pc hpc
  · obtain ⟨pc,hpc,_⟩ := generatedContract_lookup (M := M) v file c hv hc h
    rw [hpc]
    rfl
  intro pc' hpc' handlers logger pyHandlers method params pyParams id pyId
  have hi := generatedContract_imports v file c hv hc pc' hpc'
  obtain ⟨pc,hpc,_,hlookup⟩ := generatedContract_lookup (M := M) v file c hv hc hi
  obtain rfl : pc=pc' := Option.some.inj (hpc.symm.trans hpc')
  obtain ⟨hsame,hmethods⟩ := defineContract_ok hcontract
  obtain ⟨hmodels,hbound⟩ := hlookup method.val
  show (∃ k : Decision, k.Is (tsAnswers id) (dispatchCall ⟨contract,handlers,logger⟩ method params (some id)) ∧
    k.Is (pyAnswers pyId) (pyDispatchCall ⟨pc,pyHandlers⟩ method pyParams (some pyId))) ↔ _
  unfold AgreeOn
  cases hd : v.methods.lookup method.val with
  | none =>
    rw [hd,Option.bind_none] at hmodels
    have hpy : Decision.unknown.Is (pyAnswers pyId)
        (pyDispatchCall ⟨pc,pyHandlers⟩ method pyParams (some pyId)) := by
      unfold pyDispatchCall
      rw [hmodels]
      exact ⟨rfl,_,rfl,_,_,rfl⟩
    by_cases hproto : method.val∈objectPrototype
    · -- the function that is found has no `params`
      have hlook : contract.lookup method=some inheritedDef := by
        simp only [Contract.lookup,hmethods,hd,hproto,if_true]
      have hts := dispatchCall_decides ⟨contract,handlers,logger⟩ method.val params id inheritedDef hlook
      rw [decide_together hts hpy]
      refine iff_of_false (fun h => ?_) fun h => h hproto
      unfold tsDecision inheritedDef at h
      dsimp only at h
      split at h <;> cases h
    · have hlook : contract.lookup method=none := by
        simp only [Contract.lookup,hmethods,hd,hproto,if_false]
      have hts : Decision.unknown.Is (tsAnswers id)
          (dispatchCall ⟨contract,handlers,logger⟩ method params (some id)) := by
        unfold dispatchCall
        dsimp only
        rw [hlook]
        exact ⟨rfl,_,rfl,_,_,rfl⟩
      exact iff_of_true ⟨_,hts,hpy⟩ hproto
  | some d =>
    have hlook : contract.lookup method=some d := by
      simp only [Contract.lookup,hmethods,hd]
    rw [hd,Option.bind_some] at hmodels
    obtain ⟨e,he⟩ := Option.isSome_iff_exists.mp (hbound (by rw [hd]; rfl))
    rw [he] at hmodels
    obtain ⟨doc,hdoc,hparams,hattr⟩ := methodModels_spec method.val d e hmodels.symm
    have hts := dispatchCall_decides ⟨contract,handlers,logger⟩ method.val params id d hlook
    have hpy := pyDispatchCall_decides ⟨pc,pyHandlers⟩ method.val pyParams pyId e he
    rw [decide_together hts hpy,tsDecision_eq_iff,hparams,hattr,hsame]
    dsimp only
    rw [hdoc]
    constructor
    · intro h
      exact ⟨doc,rfl,h.1,h.2⟩
    · intro h
      obtain ⟨_,hdoc',hagree⟩ := h
      cases hdoc'
      exact hagree

/-- Models that take any params and results as they come. -/
def anyModels : PyModels := ⟨fun _ params => .valid params,fun _ result => .valid (some result)⟩

theorem grid_imports : Imports
    ⟨"grid","grid.ts",sortBy (byName emptyObjects) (["aBCD","aBCd"].map notedMethod)⟩ := by
  have hmem : ∀ m∈sortBy (byName emptyObjects) (["aBCD","aBCd"].map notedMethod),
      m.name∉pyKeywords ∧ m.name≠"abstractmethod" := by
    intro m hm
    rw [mem_sortBy] at hm
    obtain ⟨n,hn,rfl⟩ := List.mem_map.mp hm
    have hnames : ∀ n∈["aBCD","aBCd"], (notedMethod n).name∉pyKeywords ∧
        (notedMethod n).name≠"abstractmethod" := by decide
    exact hnames n hn
  refine ⟨fun h => ?_,fun m hm => (hmem m hm).1,fun m hm => (hmem m (List.dropLast_subset _ hm)).2⟩
  have hone : notedMethod "aBCD"∈sortBy (byName emptyObjects) (["aBCD","aBCd"].map notedMethod) :=
    (mem_sortBy ..).mpr (by simp)
  have hnil : notedMethod "aBCD"∈([] : List IrMethod) := h ▸ hone
  cases hnil

/-- The two methods of `grid` have one handler in Python, and are still invoked in both languages. -/
theorem decisions_grid : ∃ contract pc, defineContract grid.service grid.methods=.ok contract ∧
    ∃ c, lowerContract emptyObjects ⟨grid,"grid.ts"⟩=some c ∧ generatedContract anyModels c=some pc ∧
    ∃ decision : Decision, decision.Is (tsAnswers (Js.str "1")) (dispatcher
        (some ⟨contract,fun _ => some fun _ => .resolved Js.undefined,fun _ => true⟩)
        (.request "grid" "aBCD" "grid.aBCD" (.obj []) (Js.str "1"))) ∧
      decision.Is (pyAnswers (Py.str "1")) (pyDispatcher
        (some ⟨pc,fun attr => if attr="a_b_cd" then some fun _ => .resolved Py.null else none⟩)
        (.request "grid" "aBCD" "grid.aBCD" (.obj []) (Py.str "1"))) := by
  obtain ⟨contract,hcontract,himports,hdecide⟩ :=
    decisions_agree_iff (M := anyModels) grid "grid.ts" _ grid_accepted grid_lowered
  have hi := himports.mpr grid_imports
  obtain ⟨pc,hpc⟩ := Option.isSome_iff_exists.mp hi
  refine ⟨contract,pc,hcontract,_,grid_lowered,hpc,?_⟩
  refine (hdecide pc hpc _ _ _ ⟨"aBCD",by decide⟩ (.obj []) (.obj []) _ _).mpr ?_
  obtain ⟨doc,hdoc⟩ : ∃ doc, schemaDoc emptyObjects noted.params=some doc :=
    Option.isSome_iff_exists.mp (by decide)
  exact ⟨doc,hdoc,trivial,fun _ => by decide⟩

end Clamator.Codegen
