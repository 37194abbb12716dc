import Clamator.Protocol.Answered
import Clamator.Protocol.ClientCore
import Clamator.Protocol.Wire

/-!
# What ties a reply to its request

A call sends a request under a fresh string id; whatever the languages of the two
sides, the dispatcher gets that id and that method, and the text of its reply is a
response with that id.
-/

namespace Clamator.Protocol
open Clamator.Base
open Clamator.Base.JsonTree (member hasMember)

def Doc.Says (d : Doc) (key s : String) : Prop := ∃ fs, d=.obj fs ∧ member fs key=some (.leaf (.str s))

theorem stringify_agrees (fs : List (String × JsVal)) (d : Doc) (h : jsonStringify (.obj fs)=.keep d)
    (key s : String) (hm : member fs key=some (Js.str s)) : d.Says key s := by
  obtain ⟨gs,hd,hw⟩ := JsonTree.member_write stringifyLeaf .null fs d h
  exact ⟨gs,hd,hw key _ _ hm rfl⟩

theorem dumps_agrees (fs : List (String × PyVal)) (d : Doc) (h : jsonDumps (.obj fs)=some d)
    (key s : String) (hm : member fs key=some (Py.str s)) : d.Says key s := by
  unfold jsonDumps at h
  split at h
  · rename_i hk
    cases h
    obtain ⟨gs,hd,hw⟩ := JsonTree.member_write dumpsLeaf .null fs d hk
    exact ⟨gs,hd,hw key _ _ hm rfl⟩
  · cases h

theorem parse_agrees (d : Doc) (v : JsVal) (h : jsonParse d=some v) :
    ∀ fs, d=.obj fs → ∃ gs, v=.obj gs ∧ ∀ key s, d.Says key s → member gs key=some (Js.str s) := by
  rintro fs rfl
  unfold jsonParse at h
  split at h
  · rename_i hk
    cases h
    obtain ⟨gs,hv,hw⟩ := JsonTree.member_write jsReadLeaf .null fs _ hk
    refine ⟨gs,hv,fun key s ⟨fs',hfs,hm⟩ => ?_⟩
    cases hfs
    exact hw key _ _ hm rfl
  · cases h

theorem loads_agrees (fs : List (String × Doc)) (v : PyVal) (h : jsonLoads (.obj fs)=some v) :
    ∃ gs, v=.obj gs ∧ ∀ key s, Doc.Says (.obj fs) key s → member gs key=some (Py.str s) := by
  refine ⟨JsonTree.mapFields pyOfDoc fs,(jsonLoads_eq_some _ v h).2,fun key s ⟨fs',hfs,hm⟩ => ?_⟩
  cases hfs
  rw [JsonTree.member_mapFields,hm]
  rfl

/-! ### The request -/

/-- The text of a request that `call` sends, in either language. -/
structure Doc.IsRequest (d : Doc) (service method id : String) : Prop where
  says_version : d.Says "jsonrpc" "2.0"
  says_method : d.Says "method" (service++"."++method)
  says_id : d.Says "id" id
  service_ok : serviceReMatch service.toList=true
  method_ok : methodReMatch method.toList=true

theorem callEnvelope_isRequest (service method id : String) (params env : JsVal) (d : Doc)
    (he : callEnvelope service method params id=.ok env) (hd : jsonStringify env=.keep d) :
    d.IsRequest service method id := by
  unfold callEnvelope at he
  split at he
  · cases he
  · rename_i hs
    split at he
    · cases he
    · rename_i hm
      cases he
      have hs' : serviceRe service.toList=true := by simpa using hs
      have hm' : methodRe method.toList=true := by simpa using hm
      exact ⟨stringify_agrees _ d hd _ _ rfl,stringify_agrees _ d hd _ _ rfl,
        stringify_agrees _ d hd _ _ rfl,spellsLine_of_spells _ _ _ hs',spellsLine_of_spells _ _ _ hm'⟩

theorem pyCallEnvelope_isRequest (service method id : String) (params env : PyVal) (d : Doc)
    (he : pyCallEnvelope service method params id=.ok env) (hd : jsonDumps env=some d) :
    d.IsRequest service method id := by
  unfold pyCallEnvelope at he
  split at he
  · cases he
  · rename_i hs
    split at he
    · cases he
    · rename_i hm
      cases he
      exact ⟨dumps_agrees _ d hd _ _ rfl,dumps_agrees _ d hd _ _ rfl,dumps_agrees _ d hd _ _ rfl,
        by simpa using hs,by simpa using hm⟩

theorem join_toList (service method : String) :
    (service++"."++method).toList=service.toList ++ '.'::method.toList := by
  simp [String.toList_append]

theorem Doc.IsRequest.slice {d : Doc} {service method id : String}
    (h : d.IsRequest service method id) :
    sliceAtDot (service++"."++method).toList=some (service.toList,method.toList) := by
  have hs := spellsLine_ne_nil _ _ service.toList h.service_ok
  have hm := spellsLine_ne_nil _ _ method.toList h.method_ok
  rw [join_toList]
  exact sliceAtDot_join _ _ hs hm (serviceReMatch_noDot _ h.service_ok)

theorem readEnvelope_isRequest (d : Doc) (service method id : String)
    (hd : d.IsRequest service method id) (env : Envelope JsVal) (h : readEnvelope d=.ok env) :
    ∃ params, env=.request service method (service++"."++method) params (Js.str id) := by
  obtain ⟨fs,hfs,_⟩ := hd.says_id
  unfold readEnvelope at h
  split at h
  · cases h
  · rename_i v hv
    obtain ⟨gs,rfl,hg⟩ := parse_agrees d v hv fs hfs
    have hver := hg _ _ hd.says_version
    have hmethod := hg _ _ hd.says_method
    have hid := hg _ _ hd.says_id
    simp only [parseEnvelope,hver,hmethod,parseCall,splitMethod,hd.slice] at h
    split at h
    · cases h
    · rename_i hsplit
      split at hsplit
      · cases hsplit
      · split at hsplit
        · cases hsplit
        · cases hsplit
          simp only [hid,Js.present,String.ofList_toList,Except.ok.injEq] at h
          exact ⟨_,h.symm⟩

theorem pyReadEnvelope_isRequest (d : Doc) (service method id : String)
    (hd : d.IsRequest service method id) (env : Envelope PyVal) (h : pyReadEnvelope d=.ok env) :
    ∃ params, env=.request service method (service++"."++method) params (Py.str id) := by
  obtain ⟨fs,rfl,_⟩ := hd.says_id
  unfold pyReadEnvelope at h
  split at h
  · cases h
  rename_i v hv
  obtain ⟨gs,rfl,hg⟩ := loads_agrees fs v hv
  have hver := hg _ _ hd.says_version
  have hmethod := hg _ _ hd.says_method
  have hid := hg _ _ hd.says_id
  simp only [pyParseEnvelope,hver,hmethod,pyParseCall,pySplitMethod,
    ← sliceAtDot_eq_partitionAtDot,hd.slice,hd.service_ok,hd.method_ok,Bool.not_true,
    Bool.false_eq_true,if_false,hid,Py.present,String.ofList_toList,Except.ok.injEq] at h
  exact ⟨_,h.symm⟩

/-! ### The reply -/

theorem failure_isResponse (logged : Bool) (id reply : JsVal) (code : ℤ) (message : String)
    (e : Thrown) (h : failure logged id code message e=.returned (some reply)) :
    IsResponse (Js.str "2.0") id reply := by
  unfold failure at h
  split at h
  · cases h
    exact isResponse_error ..
  · cases h

theorem settleHandler_isResponse (log : String → Thrown → Bool) (d : MethodDef) (id reply : JsVal)
    (run : HandlerRun JsVal Thrown) (h : settleHandler log d (some id) run=.returned (some reply)) :
    IsResponse (Js.str "2.0") id reply := by
  cases run with
  | threw e => cases h
  | rejected e =>
    cases e with
    | rpcError code message data =>
      cases h
      exact isResponse_error ..
    | error e => exact failure_isResponse _ id reply _ _ _ h
    | other typeOf text => exact failure_isResponse _ id reply _ _ _ h
  | resolved result =>
    simp only [settleHandler] at h
    split at h
    · cases h
    · split at h
      · cases h
        exact isResponse_result ..
      · exact failure_isResponse _ id reply _ _ _ h

theorem dispatchCall_isResponse (entry : ServiceEntry) (method : String) (params id reply : JsVal)
    (h : (dispatchCall entry method params (some id)).settled=.returned (some reply)) :
    IsResponse (Js.str "2.0") id reply := by
  unfold dispatchCall at h
  split at h
  · cases h
    exact isResponse_error ..
  · split at h
    · exact failure_isResponse _ id reply _ _ _ h
    · split at h
      · cases h
        exact isResponse_error ..
      · exact settleHandler_isResponse _ _ id reply _ h

theorem pySettleHandler_isResponse (m : MethodEntry) (id reply : PyVal)
    (run : HandlerRun PyVal PyThrown) (h : pySettleHandler m (some id) run=.returned (some reply)) :
    IsResponse (Py.str "2.0") id reply := by
  unfold pySettleHandler at h
  split at h
  · cases h
  · cases h
  · cases h
  · rename_i hid
    cases hid
  · rename_i hid
    cases hid
    cases h
    exact isResponse_error ..
  · rename_i hid
    cases hid
    split at h
    · cases h
    · cases h
      exact isResponse_error ..
  · rename_i hid
    cases hid
  · rename_i hid
    cases hid
    split at h
    · cases h
    · split at h
      · cases h
      · cases h
        exact isResponse_result ..
      · cases h
        exact isResponse_error ..
      · cases h

theorem pyDispatchCall_isResponse (entry : PyServiceEntry) (method : String) (params id reply : PyVal)
    (h : (pyDispatchCall entry method params (some id)).settled=.returned (some reply)) :
    IsResponse (Py.str "2.0") id reply := by
  unfold pyDispatchCall at h
  split at h
  · cases h
    exact isResponse_error ..
  · split at h
    · cases h
    · cases h
      exact isResponse_error ..
    · split at h
      · cases h
        exact isResponse_error ..
      · exact pySettleHandler_isResponse _ id reply _ h

theorem stringify_response_agrees (id : String) (reply : JsVal) (d : Doc)
    (hr : IsResponse (Js.str "2.0") (Js.str id) reply) (h : jsonStringify reply=.keep d) :
    d.Says "id" id := by
  cases reply with
  | leaf a => exact hr.elim
  | arr xs => exact hr.elim
  | obj fs => exact stringify_agrees fs d h _ _ hr.2.1

theorem dumps_response_agrees (id : String) (reply : PyVal) (d : Doc)
    (hr : IsResponse (Py.str "2.0") (Py.str id) reply) (h : jsonDumps reply=some d) :
    d.Says "id" id := by
  cases reply with
  | leaf a => exact hr.elim
  | arr xs => exact hr.elim
  | obj fs => exact dumps_agrees fs d h _ _ hr.2.1

end Clamator.Protocol
