import Clamator.Protocol.Correlation

/-!
# What the parsers accept (`envelope.ts`, `envelope.py`)

An envelope is what some value parses to exactly if it is well formed, and then it is also what its
own builder's output parses to: parsing, building and parsing again changes nothing, for each of
the four kinds and in both languages.
-/

namespace Clamator.Protocol
open Clamator.Base
open Clamator.Base.JsonTree (member hasMember)

/-! ### Names -/

/-- A service and a method name, and their full name. -/
structure Spells (serviceOk methodOk : List Char → Bool) (service method fullMethod : String) : Prop where
  service_ok : serviceOk service.toList=true
  method_ok : methodOk method.toList=true
  full : fullMethod=service++"."++method

theorem join_at_dot (m : List Char) (h : m.contains '.'=true) :
    m=m.takeWhile (· != '.')++ '.'::m.drop ((m.takeWhile (· != '.')).length+1) := by
  induction m with
  | nil => cases h
  | cons c cs ih =>
    by_cases hc : c = '.'
    · subst hc
      rfl
    · have hne : (c != '.')=true := bne_iff_ne.mpr hc
      have hcs : cs.contains '.'=true := by
        rw [List.contains_cons] at h
        simpa [Ne.symm hc] using h
      simp only [List.takeWhile_cons,hne,if_true,List.length_cons,List.drop_succ_cons,List.cons_append]
      exact congrArg (c::·) (ih hcs)

theorem partitionAtDot_join (m s n : List Char) (h : partitionAtDot m=some (s,n)) : m=s ++ '.'::n := by
  unfold partitionAtDot at h
  split at h
  · rename_i hdot
    dsimp only at h
    split at h
    · cases h
    · cases h
      exact join_at_dot m hdot
  · cases h

theorem string_join (fullMethod : String) (s n : List Char) (h : fullMethod.toList=s ++ '.'::n) :
    fullMethod=String.ofList s++"."++String.ofList n := by
  apply String.toList_inj.mp
  rw [h,join_toList,String.toList_ofList,String.toList_ofList]

theorem splitMethod_iff (fullMethod service method : String) :
    splitMethod fullMethod=.ok (service,method) ↔ Spells serviceRe methodRe service method fullMethod := by
  constructor
  · intro h
    unfold splitMethod at h
    rw [sliceAtDot_eq_partitionAtDot] at h
    split at h
    · cases h
    · rename_i s n hslice
      split at h
      · cases h
      · rename_i hs
        split at h
        · cases h
        · rename_i hn
          cases h
          refine ⟨?_,?_,string_join _ _ _ (partitionAtDot_join _ _ _ hslice)⟩
          · simpa using hs
          · simpa using hn
  · rintro ⟨hs,hn,rfl⟩
    have hs' := spellsLine_of_spells _ _ _ hs
    have hn' := spellsLine_of_spells _ _ _ hn
    have hslice := sliceAtDot_join service.toList method.toList (spellsLine_ne_nil _ _ _ hs')
      (spellsLine_ne_nil _ _ _ hn') (serviceReMatch_noDot _ hs')
    unfold splitMethod
    rw [join_toList,hslice]
    simp [hs,hn]

theorem pySplitMethod_iff (fullMethod service method : String) :
    pySplitMethod fullMethod=.ok (service,method) ↔
      Spells serviceReMatch methodReMatch service method fullMethod := by
  constructor
  · intro h
    unfold pySplitMethod at h
    split at h
    · cases h
    · rename_i s n hslice
      split at h
      · cases h
      · rename_i hs
        split at h
        · cases h
        · rename_i hn
          cases h
          refine ⟨?_,?_,string_join _ _ _ (partitionAtDot_join _ _ _ hslice)⟩
          · simpa using hs
          · simpa using hn
  · rintro ⟨hs,hn,rfl⟩
    have hslice := sliceAtDot_join service.toList method.toList (spellsLine_ne_nil _ _ _ hs)
      (spellsLine_ne_nil _ _ _ hn) (serviceReMatch_noDot _ hs)
    unfold pySplitMethod
    rw [join_toList,← sliceAtDot_eq_partitionAtDot,hslice]
    simp [hs,hn]

/-! ### TypeScript -/

def Js.Present (v : JsVal) : Prop := v≠Js.undefined ∧ v≠Js.null

def IsRpcId : JsVal → Prop
  | Js.str _ => True
  | Js.num _ => True
  | _ => False

/-- The id of a response may be any value but null, that of an error response null as well. -/
def WellFormed : Envelope JsVal → Prop
  | .request service method fullMethod params id =>
    Spells serviceRe methodRe service method fullMethod ∧ Js.Present params ∧ IsRpcId id
  | .notification service method fullMethod params =>
    Spells serviceRe methodRe service method fullMethod ∧ Js.Present params
  | .success id _ => Js.Present id
  | .error id code _ data => id≠Js.undefined ∧ (∃ x, code=Js.num x) ∧ data≠Js.undefined

/-- The builder of its kind. -/
def rebuild : Envelope JsVal → JsVal
  | .request _ _ fullMethod params id => buildRequest fullMethod params id
  | .notification _ _ fullMethod params => buildNotification fullMethod params
  | .success id result => buildSuccessResponse id result
  | .error id code message data => buildErrorResponse id code message data

theorem orElse_present (x : Option JsVal) (fs : List (String × JsVal)) :
    Js.Present (Js.orElse x (.obj fs)) := by
  unfold Js.orElse
  split <;> simp_all [Js.Present]

theorem present_iff (x : Option JsVal) (v : JsVal) (h : Js.present x=some v) : Js.Present v := by
  unfold Js.present at h
  split at h <;> simp_all [Js.Present]

theorem present_getD (x : Option JsVal) : (Js.present x).getD Js.null≠Js.undefined := by
  cases h : Js.present x with
  | none => simp
  | some v => exact (present_iff x v h).1

theorem present_null_getD (v : JsVal) (h : v≠Js.undefined) :
    (Js.present (some v)).getD Js.null=v := by
  unfold Js.present
  split <;> simp_all

theorem orElse_null (x : Option JsVal) : Js.orElse x Js.null≠Js.undefined := by
  unfold Js.orElse
  split <;> simp_all

theorem orElse_orNull (v : JsVal) (h : v≠Js.undefined) :
    Js.orElse (some (Js.orNull v)) Js.null=v := by
  unfold Js.orElse Js.orNull
  split <;> simp_all

theorem present_of (v : JsVal) (h : Js.Present v) : Js.present (some v)=some v := by
  unfold Js.present
  split <;> simp_all [Js.Present]

theorem orElse_of (v fallback : JsVal) (h : Js.Present v) : Js.orElse (some v) fallback=v := by
  unfold Js.orElse
  split <;> simp_all [Js.Present]

theorem parseEnvelope_wellFormed (v : JsVal) (env : Envelope JsVal) (h : parseEnvelope v=.ok env) :
    WellFormed env := by
  unfold parseEnvelope at h
  split at h
  · cases h
  · cases h
  · split at h
    · split at h
      · -- a call
        unfold parseCall at h
        split at h
        · cases h
        · rename_i service method hsplit
          have hnames := (splitMethod_iff _ _ _).mp hsplit
          dsimp only at h
          split at h
          · cases h
            exact ⟨hnames,orElse_present _ _⟩
          · cases h
            exact ⟨hnames,orElse_present _ _,trivial⟩
          · cases h
            exact ⟨hnames,orElse_present _ _,trivial⟩
          · cases h
      · unfold parseResponse at h
        split at h
        · unfold parseSuccess at h
          split at h
          · cases h
          · rename_i id hid
            cases h
            exact present_iff _ id hid
        · unfold parseError at h
          split at h
          · split at h
            · cases h
              exact ⟨present_getD _,⟨_,rfl⟩,orElse_null _⟩
            · cases h
          · cases h
        · cases h
    · cases h

theorem parseEnvelope_rebuild (env : Envelope JsVal) (h : WellFormed env) :
    parseEnvelope (rebuild env)=.ok env := by
  cases env with
  | request service method fullMethod params id =>
    obtain ⟨hnames,hparams,hid⟩ := h
    have hsplit := (splitMethod_iff _ _ _).mpr hnames
    simp only [rebuild,buildRequest,parseEnvelope,parseCall]
    simp [hsplit,orElse_of params _ hparams]
    unfold IsRpcId at hid
    split at hid <;> simp_all [Js.present]
  | notification service method fullMethod params =>
    obtain ⟨hnames,hparams⟩ := h
    have hsplit := (splitMethod_iff _ _ _).mpr hnames
    simp only [rebuild,buildNotification,parseEnvelope,parseCall]
    simp [hsplit,orElse_of params _ hparams,Js.present]
  | success id result =>
    simp [rebuild,buildSuccessResponse,parseEnvelope,parseResponse,parseSuccess,hasMember,
      present_of id h]
  | error id code message data =>
    obtain ⟨hid,⟨x,rfl⟩,hdata⟩ := h
    simp [rebuild,buildErrorResponse,parseEnvelope,parseResponse,parseError,hasMember,
      present_null_getD id hid,orElse_orNull data hdata]

/-! ### Python -/

def IsPyRpcId : PyVal → Prop
  | Py.str _ => True
  | Py.int _ => True
  | _ => False

/-- Params of any value, and names that may end with a newline. -/
def PyWellFormed : Envelope PyVal → Prop
  | .request service method fullMethod _ id =>
    Spells serviceReMatch methodReMatch service method fullMethod ∧ IsPyRpcId id
  | .notification service method fullMethod _ =>
    Spells serviceReMatch methodReMatch service method fullMethod
  | .success id _ => id≠Py.null
  | .error _ code _ _ => Py.isInt code=true

def pyRebuild : Envelope PyVal → PyVal
  | .request _ _ fullMethod params id => pyBuildRequest fullMethod params id
  | .notification _ _ fullMethod params => pyBuildNotification fullMethod params
  | .success id result => pyBuildSuccessResponse id result
  | .error id code message data => pyBuildErrorResponse id code message data

theorem pyPresent_ne (x : Option PyVal) (v : PyVal) (h : Py.present x=some v) : v≠Py.null := by
  unfold Py.present at h
  split at h <;> simp_all

theorem pyPresent_of (v : PyVal) (h : v≠Py.null) : Py.present (some v)=some v := by
  unfold Py.present
  split <;> simp_all

theorem pyPresent_getD (v : PyVal) : (Py.present (some v)).getD Py.null=v := by
  unfold Py.present
  split <;> simp_all

theorem pyParseEnvelope_wellFormed (v : PyVal) (env : Envelope PyVal) (h : pyParseEnvelope v=.ok env) :
    PyWellFormed env := by
  unfold pyParseEnvelope at h
  split at h
  · cases h
  · cases h
  · split at h
    · split at h
      · unfold pyParseCall at h
        split at h
        · cases h
        · rename_i service method hsplit
          have hnames := (pySplitMethod_iff _ _ _).mp hsplit
          dsimp only at h
          split at h
          · cases h
            exact hnames
          · cases h
            exact ⟨hnames,trivial⟩
          · cases h
            exact ⟨hnames,trivial⟩
          · cases h
      · unfold pyParseResponse at h
        split at h
        · unfold pyParseSuccess at h
          split at h
          · cases h
          · rename_i id hid
            cases h
            exact pyPresent_ne _ id hid
        · unfold pyParseError at h
          split at h
          · split at h
            · split at h
              · rename_i hint
                cases h
                exact hint
              · cases h
            · cases h
          · cases h
        · cases h
    · cases h

theorem pyParseEnvelope_rebuild (env : Envelope PyVal) (h : PyWellFormed env) :
    pyParseEnvelope (pyRebuild env)=.ok env := by
  cases env with
  | request service method fullMethod params id =>
    obtain ⟨hnames,hid⟩ := h
    have hsplit := (pySplitMethod_iff _ _ _).mpr hnames
    simp only [pyRebuild,pyBuildRequest,pyParseEnvelope,pyParseCall]
    simp [hsplit]
    unfold IsPyRpcId at hid
    split at hid <;> simp_all [Py.present]
  | notification service method fullMethod params =>
    have hsplit := (pySplitMethod_iff _ _ _).mpr h
    simp only [pyRebuild,pyBuildNotification,pyParseEnvelope,pyParseCall]
    simp [hsplit,Py.present]
  | success id result =>
    simp [pyRebuild,pyBuildSuccessResponse,pyParseEnvelope,pyParseResponse,pyParseSuccess,
      hasMember,pyPresent_of id h]
  | error id code message data =>
    simp only [PyWellFormed] at h
    simp [pyRebuild,pyBuildErrorResponse,pyParseEnvelope,pyParseResponse,pyParseError,hasMember,
      pyPresent_getD id,h]

/-- The envelopes that are ever accepted are the well-formed ones, and each is accepted from its own
builder. -/
theorem accepted_iff :
    (∀ env, ((∃ v, parseEnvelope v=.ok env) ↔ WellFormed env) ∧
      ((∃ v, parseEnvelope v=.ok env) ↔ parseEnvelope (rebuild env)=.ok env)) ∧
    ∀ env, ((∃ v, pyParseEnvelope v=.ok env) ↔ PyWellFormed env) ∧
      ((∃ v, pyParseEnvelope v=.ok env) ↔ pyParseEnvelope (pyRebuild env)=.ok env) := by
  have hjs : ∀ env, (∃ v, parseEnvelope v=.ok env) → WellFormed env :=
    fun env ⟨v,hv⟩ => parseEnvelope_wellFormed v env hv
  have hpy : ∀ env, (∃ v, pyParseEnvelope v=.ok env) → PyWellFormed env :=
    fun env ⟨v,hv⟩ => pyParseEnvelope_wellFormed v env hv
  refine ⟨fun env => ⟨⟨hjs env,fun h => ?_⟩,fun h => ?_,fun h => ⟨_,h⟩⟩,
    fun env => ⟨⟨hpy env,fun h => ?_⟩,fun h => ?_,fun h => ⟨_,h⟩⟩⟩
  · exact ⟨_,parseEnvelope_rebuild env h⟩
  · exact parseEnvelope_rebuild env (hjs env h)
  · exact ⟨_,pyParseEnvelope_rebuild env h⟩
  · exact pyParseEnvelope_rebuild env (hpy env h)

example : PyWellFormed (.notification "arith" "reset\n" "arith.reset\n" Py.null) ∧
    ¬ WellFormed (.notification "arith" "reset\n" "arith.reset\n" (.obj [])) :=
  ⟨⟨by decide,by decide,rfl⟩,fun h => absurd h.1.method_ok (by decide)⟩

end Clamator.Protocol
