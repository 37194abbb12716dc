import Clamator.Redis.RoundTrip

/-!
# The names that a Python client lets through (`client_core.py`, `envelope.py`)

`call`, `notify` and `parse_envelope` test a service and a method with `re.match`.
The patterns are those of TypeScript, but `$` also matches before a newline at the
end, so one more kind of string passes.
-/

namespace Clamator.Redis
open Clamator.Base Clamator.Protocol
open Clamator.Base.JsonTree (member)

/-! ### The grammar -/

/-- One character of the head class, then only characters of the tail class. -/
def Word (head tail : Char → Bool) (s : List Char) : Prop :=
  ∃ c cs, s=c::cs ∧ head c=true ∧ ∀ d∈cs, tail d=true

def ServiceName (s : List Char) : Prop := Word lower serviceTail s
def MethodName (s : List Char) : Prop := Word lower methodTail s

/-- A name and one newline. -/
def Trailing (Name : List Char → Prop) (s : List Char) : Prop := ∃ n, Name n ∧ s=n++['\n']

theorem spells_iff (head tail : Char → Bool) (s : List Char) :
    spells head tail s=true ↔ Word head tail s := spells_iff_cons head tail s

theorem spellsLine_iff (head tail : Char → Bool) (s : List Char) :
    spellsLine head tail s=true ↔ Word head tail s ∨ Trailing (Word head tail) s := by
  simp only [spellsLine,Bool.or_eq_true,Bool.and_eq_true,beq_iff_eq,spells_iff]
  refine or_congr_right ⟨?_,?_⟩
  · rintro ⟨hl,hw⟩
    obtain ⟨n,rfl⟩ := List.getLast?_eq_some_iff.mp hl
    rw [List.dropLast_concat] at hw
    exact ⟨n,hw,rfl⟩
  · rintro ⟨n,hn,rfl⟩
    exact ⟨List.getLast?_concat,by rwa [List.dropLast_concat]⟩

theorem Word.not_trailing {head tail : Char → Bool} (ht : tail '\n'=false) {s : List Char}
    (h : Word head tail s) : ¬ Trailing (Word head tail) s := by
  rintro ⟨_,⟨d,ds,rfl,_,_⟩,hs⟩
  obtain ⟨c,cs,rfl,_,hcs⟩ := h
  have hmem : '\n'∈cs := by
    rw [(List.cons.inj hs).2]
    exact List.mem_append_right ds List.mem_cons_self
  have := hcs '\n' hmem
  rw [ht] at this
  exact Bool.false_ne_true this

theorem serviceRe_iff (s : List Char) : serviceRe s=true ↔ ServiceName s := spells_iff _ _ s

theorem methodRe_iff (s : List Char) : methodRe s=true ↔ MethodName s := spells_iff _ _ s

theorem serviceReMatch_iff (s : List Char) :
    serviceReMatch s=true ↔ ServiceName s ∨ Trailing ServiceName s := spellsLine_iff _ _ s

theorem methodReMatch_iff (s : List Char) :
    methodReMatch s=true ↔ MethodName s ∨ Trailing MethodName s := spellsLine_iff _ _ s

theorem ServiceName.not_trailing {s : List Char} (h : ServiceName s) : ¬ Trailing ServiceName s :=
  Word.not_trailing (by decide) h

theorem MethodName.not_trailing {s : List Char} (h : MethodName s) : ¬ Trailing MethodName s :=
  Word.not_trailing (by decide) h

/-! ### The three places of the check -/

/-- Names of which Python lets through more than the grammar has. -/
def Slips (service method : List Char) : Prop :=
  Trailing ServiceName service ∧ (MethodName method ∨ Trailing MethodName method) ∨
    ServiceName service ∧ Trailing MethodName method

theorem match_iff (service method : List Char) :
    (serviceReMatch service=true ∧ methodReMatch method=true) ↔
      (ServiceName service ∧ MethodName method) ∨ Slips service method := by
  rw [serviceReMatch_iff,methodReMatch_iff,Slips]
  tauto

theorem Slips.not_names {service method : List Char} (h : Slips service method) :
    ¬ (ServiceName service ∧ MethodName method) := by
  rintro ⟨hs,hm⟩
  rcases h with ⟨h,_⟩ | ⟨_,h⟩
  · exact hs.not_trailing h
  · exact hm.not_trailing h

/-- The envelope of `notify(service, method, params)`. -/
def pyNotifyEnvelope (service method : String) (params : PyVal) : Except String PyVal :=
  if !serviceReMatch service.toList then .error ("invalid service \""++service++"\"")
  else if !methodReMatch method.toList then .error ("invalid method \""++method++"\"")
  else .ok (pyBuildNotification (service++"."++method) params)

theorem pyCallEnvelope_ok_iff (service method : String) (params : PyVal) (id : String) (env : PyVal) :
    pyCallEnvelope service method params id=.ok env ↔
      (serviceReMatch service.toList=true ∧ methodReMatch method.toList=true) ∧
        env=pyBuildRequest (service++"."++method) params (Py.str id) := by
  unfold pyCallEnvelope
  cases serviceReMatch service.toList <;> cases methodReMatch method.toList <;> simp [eq_comm]

theorem pyNotifyEnvelope_ok_iff (service method : String) (params env : PyVal) :
    pyNotifyEnvelope service method params=.ok env ↔
      (serviceReMatch service.toList=true ∧ methodReMatch method.toList=true) ∧
        env=pyBuildNotification (service++"."++method) params := by
  unfold pyNotifyEnvelope
  cases serviceReMatch service.toList <;> cases methodReMatch method.toList <;> simp [eq_comm]

theorem pySplitMethod_ok_iff (f : String) (x : String × String) : pySplitMethod f=.ok x ↔
    ∃ service method, partitionAtDot f.toList=some (service,method) ∧
      (serviceReMatch service=true ∧ methodReMatch method=true) ∧
        x=(String.ofList service,String.ofList method) := by
  unfold pySplitMethod
  cases partitionAtDot f.toList with
  | none => simp
  | some p =>
    obtain ⟨service,method⟩ := p
    simp only [Option.some.injEq,Prod.mk.injEq]
    constructor
    · intro h
      refine ⟨service,method,⟨rfl,rfl⟩,?_⟩
      split at h
      · cases h
      · split at h
        · cases h
        · simp_all
    · rintro ⟨_,_,⟨rfl,rfl⟩,⟨hs,hm⟩,rfl⟩
      simp [hs,hm]

theorem notifyText_py (service method : String) (params : PyVal) :
    notifyText service method (.py params)=
      match pyNotifyEnvelope service method params with
      | .ok env => (Reply.py env).text
      | .error _ => none := by
  unfold notifyText pyNotifyEnvelope
  cases hs : serviceReMatch service.toList <;> cases hm : methodReMatch method.toList <;> simp

/-! ### What the other side accepts -/

/-- Some contract has the names, and the TypeScript parser takes every call of the full
method for them. -/
structure Accepted (service method fullMethod : String) : Prop where
  contract : ∃ d c, defineContract service [(method,d)]=.ok c
  request : ∀ params id, ∃ v, parseEnvelope (buildRequest fullMethod params (Js.str id))=
    .ok (.request service method fullMethod v (Js.str id))
  notification : ∀ params, ∃ v, parseEnvelope (buildNotification fullMethod params)=
    .ok (.notification service method fullMethod v)

/-- Whatever `call` and `notify` send under the two names. -/
structure SentAccepted (service method : String) : Prop where
  call : ∀ params id env, pyCallEnvelope service method params id=.ok env →
    ∃ fs f, env=.obj fs ∧ member fs "method"=some (Py.str f) ∧ Accepted service method f
  notify : ∀ params env, pyNotifyEnvelope service method params=.ok env →
    ∃ fs f, env=.obj fs ∧ member fs "method"=some (Py.str f) ∧ Accepted service method f

theorem names_iff (service method : String) :
    Names service method ↔ ServiceName service.toList ∧ MethodName method.toList := by
  rw [← serviceRe_iff,← methodRe_iff]
  exact ⟨fun h => ⟨h.service,h.method⟩,fun h => ⟨h.1,h.2⟩⟩

theorem Accepted.names {service method f : String} (h : Accepted service method f) :
    Names service method := by
  obtain ⟨d,c,hc⟩ := h.contract
  obtain ⟨hs,hm⟩ := defineContract_ok hc
  have hd : (method,d)∈c.methods := by
    rw [hm]
    exact List.mem_cons_self
  exact ⟨hs ▸ c.service_ok,entryProblem_name (c.entry_ok method d hd)⟩

theorem Names.accepted {service method : String} (h : Names service method) :
    Accepted service method (service++"."++method) := by
  refine ⟨⟨⟨.ok,none,true⟩,?_⟩,fun params id => ?_,fun params => ?_⟩
  · have hm : methodsProblem [(method,⟨.ok,none,true⟩)]=none := by
      simp [methodsProblem,entryProblem,h.method]
    exact ⟨_,defineContract_valid _ _ h.service hm⟩
  · refine ⟨Js.orElse (some params) (.obj []),?_⟩
    simp [parseEnvelope,buildRequest,JsonTree.member,List.lookup_cons,parseCall,h.split,Js.present]
  · refine ⟨Js.orElse (some params) (.obj []),?_⟩
    simp [parseEnvelope,buildNotification,JsonTree.member,List.lookup_cons,parseCall,h.split,Js.present]

theorem member_pyBuildRequest (f : String) (params id : PyVal) : ∃ fs,
    pyBuildRequest f params id=.obj fs ∧ member fs "method"=some (Py.str f) := ⟨_,rfl,rfl⟩

theorem member_pyBuildNotification (f : String) (params : PyVal) : ∃ fs,
    pyBuildNotification f params=.obj fs ∧ member fs "method"=some (Py.str f) := ⟨_,rfl,rfl⟩

theorem sentAccepted_iff (service method : String) :
    SentAccepted service method ↔ ¬ Slips service.toList method.toList := by
  have hmatch := match_iff service.toList method.toList
  constructor
  · intro h hslips
    obtain ⟨_,_,_,_,ha⟩ := h.call Py.null "" _
      ((pyCallEnvelope_ok_iff service method Py.null "" _).mpr ⟨hmatch.mpr (Or.inr hslips),rfl⟩)
    exact hslips.not_names ((names_iff service method).mp ha.names)
  · intro hslips
    have hnames : serviceReMatch service.toList=true ∧ methodReMatch method.toList=true →
        Names service method := fun hm =>
      (names_iff service method).mpr ((hmatch.mp hm).resolve_right hslips)
    refine ⟨fun params id env he => ?_,fun params env he => ?_⟩
    · obtain ⟨hm,rfl⟩ := (pyCallEnvelope_ok_iff service method params id env).mp he
      obtain ⟨fs,hfs,hf⟩ := member_pyBuildRequest (service++"."++method) params (Py.str id)
      exact ⟨fs,_,hfs,hf,(hnames hm).accepted⟩
    · obtain ⟨hm,rfl⟩ := (pyNotifyEnvelope_ok_iff service method params env).mp he
      obtain ⟨fs,hfs,hf⟩ := member_pyBuildNotification (service++"."++method) params
      exact ⟨fs,_,hfs,hf,(hnames hm).accepted⟩

/- Iff a check lets more through than its grammar, the string is one more newline. -/
theorem check_iff (Name : List Char → Prop) (s : List Char) (b : Bool)
    (hb : b=true ↔ Name s ∨ Trailing Name s) (hn : Name s → ¬ Trailing Name s) :
    (b=true ↔ Name s) ↔ ¬ Trailing Name s := by
  rw [hb]
  tauto

/-- The full methods whose split the grammar allows. -/
def Splits (f : String) (Allowed : List Char → List Char → Prop) : Prop :=
  ∃ service method, partitionAtDot f.toList=some (service,method) ∧ Allowed service method

theorem pySplitMethod_iff (f : String) :
    ((∃ x, pySplitMethod f=.ok x) ↔ Splits f fun s m => ServiceName s ∧ MethodName m) ↔
      ¬ Splits f Slips := by
  have hok : (∃ x, pySplitMethod f=.ok x) ↔
      Splits f fun s m => (ServiceName s ∧ MethodName m) ∨ Slips s m := by
    simp only [pySplitMethod_ok_iff,Splits,← match_iff]
    exact ⟨fun ⟨_,s,m,h1,h2,_⟩ => ⟨s,m,h1,h2⟩,fun ⟨s,m,h1,h2⟩ => ⟨_,s,m,h1,h2,rfl⟩⟩
  rw [hok]
  constructor
  · rintro h ⟨s,m,hp,hslips⟩
    obtain ⟨s',m',hp',hn⟩ := h.mp ⟨s,m,hp,Or.inr hslips⟩
    rw [hp] at hp'
    cases hp'
    exact hslips.not_names hn
  · intro h
    refine ⟨fun ⟨s,m,hp,hsm⟩ => ?_,fun ⟨s,m,hp,hn⟩ => ⟨s,m,hp,Or.inl hn⟩⟩
    exact ⟨s,m,hp,hsm.resolve_right fun hslips => h ⟨s,m,hp,hslips⟩⟩

/-- The checks are the grammar but for one trailing newline, which each of the three places
lets through. -/
theorem python_checks_iff (s : List Char) (f service method : String) :
    ((serviceReMatch s=true ↔ ServiceName s) ↔ ¬ Trailing ServiceName s) ∧
    ((methodReMatch s=true ↔ MethodName s) ↔ ¬ Trailing MethodName s) ∧
    (((∃ x, pySplitMethod f=.ok x) ↔ Splits f fun s m => ServiceName s ∧ MethodName m) ↔
      ¬ Splits f Slips) ∧
    (SentAccepted service method ↔ ¬ Slips service.toList method.toList) := by
  refine ⟨?_,?_,pySplitMethod_iff f,sentAccepted_iff service method⟩
  · exact check_iff _ s _ (serviceReMatch_iff s) ServiceName.not_trailing
  · exact check_iff _ s _ (methodReMatch_iff s) MethodName.not_trailing

theorem arith_trailing : Trailing ServiceName "arith\n".toList :=
  ⟨"arith".toList,(serviceRe_iff _).mp (by decide),by decide⟩

theorem add_trailing : Trailing MethodName "add\n".toList :=
  ⟨"add".toList,(methodRe_iff _).mp (by decide),by decide⟩

theorem arith_newline_passes :
    ¬ (serviceReMatch "arith\n".toList=true ↔ ServiceName "arith\n".toList) ∧
    ¬ (methodReMatch "add\n".toList=true ↔ MethodName "add\n".toList) ∧
    ¬ SentAccepted "arith\n" "add" := by
  refine ⟨fun h => ?_,fun h => ?_,fun h => ?_⟩
  · exact ServiceName.not_trailing (h.mp (by decide)) arith_trailing
  · exact MethodName.not_trailing (h.mp (by decide)) add_trailing
  · refine (sentAccepted_iff "arith\n" "add").mp h (Or.inl ⟨arith_trailing,Or.inl ?_⟩)
    exact (methodRe_iff _).mp (by decide)

end Clamator.Redis
