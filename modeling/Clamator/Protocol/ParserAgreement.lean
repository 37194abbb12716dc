import Clamator.Protocol.EnvelopePy

/-!
# Where the two envelope parsers agree

The TypeScript and the Python parser read the same JSON value. They part on a
null `params`, on an id or an error code written with a fraction or an exponent,
on a boolean error code, on a full method that ends in a newline, on integer
literals that a double does not hold, and on those of more than 4300 digits.
`InCommon` names what is left.
-/

namespace Clamator.Protocol
open Clamator.Base Clamator.Base.Binary64
open Clamator.Base.JsonTree (member hasMember mapFields)

def SameEnvelope : Envelope JsVal → Envelope PyVal → Prop
  | .request s n f p i,.request s' n' f' p' i' => s=s' ∧ n=n' ∧ f=f' ∧ Same p p' ∧ Same i i'
  | .notification s n f p,.notification s' n' f' p' => s=s' ∧ n=n' ∧ f=f' ∧ Same p p'
  | .success i r,.success i' r' => Same i i' ∧ Same r r'
  | .error i c m d,.error i' c' m' d' => Same i i' ∧ Same c c' ∧ m=m' ∧ Same d d'
  | _,_ => False

def Agree : Except String (Envelope JsVal) → Except String (Envelope PyVal) → Prop
  | .error _,.error _ => True
  | .ok a,.ok b => SameEnvelope a b
  | _,_ => False

/-! ### The condition on the document -/

def Doc.present (x : Option Doc) : Option Doc := match x with
  | none => none
  | some (.leaf .null) => none
  | some d => some d

def ExactMember (x : Option Doc) : Prop := match x with
  | none => True
  | some d => ExactDoc d

def ParamsInCommon (fs : List (String × Doc)) : Prop := match member fs "params" with
  | some (.leaf .null) => False
  | x => ExactMember x

def CallInCommon (fs : List (String × Doc)) (fullMethod : String) : Prop :=
  match splitMethod fullMethod,pySplitMethod fullMethod with
  | .ok _,_ => match Doc.present (member fs "id") with
    | none => ParamsInCommon fs
    | some (.leaf (.str _)) => ParamsInCommon fs
    | some (.leaf (.int n)) => ParamsInCommon fs ∧ Exact n
    | some (.leaf .minusZero) => ParamsInCommon fs
    | some (.leaf (.float _)) => False
    | some _ => True
  -- a name only Python accepts: the id must make Python reject the call as well
  | .error _,.ok _ => match Doc.present (member fs "id") with
    | none => False
    | some (.leaf (.str _)) => False
    | some (.leaf (.int _)) => False
    | some (.leaf .minusZero) => False
    | some _ => True
  | .error _,.error _ => True

def SuccessInCommon (fs : List (String × Doc)) : Prop := match Doc.present (member fs "id") with
  | none => True
  | some id => ExactDoc id ∧ ExactMember (member fs "result")

def ErrorInCommon (fs : List (String × Doc)) : Prop := match member fs "error" with
  | some (.obj err) => match member err "code",member err "message" with
    | some (.leaf (.int n)),some (.leaf (.str _)) =>
      ExactMember (Doc.present (member fs "id")) ∧ Exact n ∧ ExactMember (member err "data")
    | some (.leaf .minusZero),some (.leaf (.str _)) =>
      ExactMember (Doc.present (member fs "id")) ∧ ExactMember (member err "data")
    | some (.leaf (.float _)),some (.leaf (.str _)) => False
    | some (.leaf (.bool _)),some (.leaf (.str _)) => False
    | _,_ => True
  | _ => True

def ResponseInCommon (fs : List (String × Doc)) : Prop :=
  match hasMember fs "result",hasMember fs "error" with
  | true,false => SuccessInCommon fs
  | false,true => ErrorInCommon fs
  | _,_ => True

/- Where both runtimes have read the text. -/
def ReadInCommon : Doc → Prop
  | .obj fs => match member fs "jsonrpc" with
    | some (.leaf (.str "2.0")) => match member fs "method" with
      | some (.leaf (.str fullMethod)) => CallInCommon fs fullMethod
      | _ => ResponseInCommon fs
    | _ => True
  | _ => True

/-! ### What TypeScript accepts -/

def Doc.isNumber : Doc → Prop
  | .leaf (.int _) => True
  | .leaf .minusZero => True
  | .leaf (.float _) => True
  | _ => False

def Doc.isString : Doc → Prop
  | .leaf (.str _) => True
  | _ => False

def CallRead (fs : List (String × Doc)) (fullMethod : String) : Prop :=
  match splitMethod fullMethod,Doc.present (member fs "id") with
  | .error _,_ => False
  | .ok _,none => True
  | .ok _,some id => Doc.isString id ∨ Doc.isNumber id

def ErrorRead (fs : List (String × Doc)) : Prop := match member fs "error" with
  | some (.obj err) => match member err "code",member err "message" with
    | some code,some message => Doc.isNumber code ∧ Doc.isString message
    | _,_ => False
  | _ => False

def ResponseRead (fs : List (String × Doc)) : Prop :=
  match hasMember fs "result",hasMember fs "error" with
  | true,false => Doc.present (member fs "id")≠none
  | false,true => ErrorRead fs
  | _,_ => False

/-- A request or notification whose names and id TypeScript takes, or a response with an id or
with a numeric code and a message. -/
def JsReads : Doc → Prop
  | .obj fs => match member fs "jsonrpc" with
    | some (.leaf (.str "2.0")) => match member fs "method" with
      | some (.leaf (.str fullMethod)) => CallRead fs fullMethod
      | _ => ResponseRead fs
    | _ => False
  | _ => False

/-- Every integer literal has at most 4300 digits, and what is read of the document is the same
value for both; or one has more, and TypeScript rejects the document as well. -/
def InCommon (d : Doc) : Prop := d.FewDigits ∧ ReadInCommon d ∨ ¬d.FewDigits ∧ ¬JsReads d

/-! ### The two runtimes' views of one object -/

def jsFields (fs : List (String × Doc)) : List (String × JsVal) := mapFields jsOfDoc fs
def pyFields (fs : List (String × Doc)) : List (String × PyVal) := mapFields pyOfDoc fs

@[simp] theorem member_jsFields (fs : List (String × Doc)) (key : String) :
    member (jsFields fs) key=(member fs key).map (JsonTree.map jsOfDoc) := JsonTree.member_mapFields _ _ _

@[simp] theorem member_pyFields (fs : List (String × Doc)) (key : String) :
    member (pyFields fs) key=(member fs key).map (JsonTree.map pyOfDoc) := JsonTree.member_mapFields _ _ _

@[simp] theorem hasMember_jsFields (fs : List (String × Doc)) (key : String) :
    hasMember (jsFields fs) key=hasMember fs key := by
  simp only [hasMember,member_jsFields,Option.isSome_map]

@[simp] theorem hasMember_pyFields (fs : List (String × Doc)) (key : String) :
    hasMember (pyFields fs) key=hasMember fs key := by
  simp only [hasMember,member_pyFields,Option.isSome_map]

@[simp] theorem js_present_map (x : Option Doc) :
    Js.present (x.map (JsonTree.map jsOfDoc))=(Doc.present x).map (JsonTree.map jsOfDoc) := by
  cases x with
  | none => rfl
  | some d =>
    cases d with
    | leaf a => cases a <;> rfl
    | arr xs => rfl
    | obj fs => rfl

@[simp] theorem py_present_map (x : Option Doc) :
    Py.present (x.map (JsonTree.map pyOfDoc))=(Doc.present x).map (JsonTree.map pyOfDoc) := by
  cases x with
  | none => rfl
  | some d =>
    cases d with
    | leaf a => cases a <;> rfl
    | arr xs => rfl
    | obj fs => rfl

theorem standard_member (fs : List (String × Doc)) (key : String) (d : Doc)
    (h : Doc.Standard (.obj fs)) (hm : member fs key=some d) : d.Standard := by
  rw [Doc.Standard,JsonTree.All,JsonTree.allFields_iff] at h
  exact h (key,d) (JsonTree.mem_of_member hm)

theorem standard_ne_token (d : Doc) (h : d.Standard) (x : Double) : d≠.leaf (.token x) := by
  rintro rfl
  cases h

theorem present_ne_token (fs : List (String × Doc)) (hs : Doc.Standard (.obj fs)) (key : String)
    (x : Double) : Doc.present (member fs key)≠some (.leaf (.token x)) := by
  intro h
  cases hm : member fs key with
  | none => simp [hm,Doc.present] at h
  | some d =>
    have hd : d=.leaf (.token x) := by
      rw [hm] at h
      unfold Doc.present at h
      split at h <;> simp_all
    exact standard_ne_token d (standard_member fs key d hs hm) x hd

/-! ### Each branch -/

theorem params_same (fs : List (String × Doc)) :
    Same (Js.orElse (member (jsFields fs) "params") (.obj []))
      ((member (pyFields fs) "params").getD (.obj [])) ↔ ParamsInCommon fs := by
  simp only [member_jsFields,member_pyFields,ParamsInCommon]
  cases hp : member fs "params" with
  | none => simp [Js.orElse,Same,JsonTree.Rel,JsonTree.RelFields,ExactMember]
  | some d =>
    have hd := same_iff_exact d
    cases d with
    | leaf a =>
      cases a with
      | null => simp [Js.orElse,Same,JsonTree.Rel,JsonTree.map,jsOfDoc,pyOfDoc]
      | _ => simpa [Js.orElse,ExactMember,JsonTree.map,jsOfDoc] using hd
    | arr xs => simpa [Js.orElse,ExactMember,JsonTree.map] using hd
    | obj gs => simpa [Js.orElse,ExactMember,JsonTree.map] using hd

theorem splitMethod_py (m : String) (p : String × String) (h : splitMethod m=.ok p) :
    pySplitMethod m=.ok p := by
  unfold splitMethod at h
  unfold pySplitMethod
  rw [← sliceAtDot_eq_partitionAtDot]
  cases hs : sliceAtDot m.toList with
  | none => simp [hs] at h
  | some sn =>
    obtain ⟨s,n⟩ := sn
    simp only [hs] at h ⊢
    by_cases h1 : serviceRe s=true
    · by_cases h2 : methodRe n=true
      · have h1' : serviceReMatch s=true := spellsLine_of_spells _ _ _ h1
        have h2' : methodReMatch n=true := spellsLine_of_spells _ _ _ h2
        simpa [h1,h2,h1',h2'] using h
      · simp [h1,h2] at h
    · simp [h1] at h

theorem call_agree (fs : List (String × Doc)) (fullMethod : String) (hs : Doc.Standard (.obj fs)) :
    Agree (parseCall (jsFields fs) fullMethod) (pyParseCall (pyFields fs) fullMethod) ↔
      CallInCommon fs fullMethod := by
  have hparams := params_same fs
  unfold parseCall pyParseCall CallInCommon
  rw [member_jsFields fs "id",member_pyFields fs "id",js_present_map,py_present_map]
  cases hts : splitMethod fullMethod with
  | ok p =>
    rw [splitMethod_py _ _ hts]
    cases hid : Doc.present (member fs "id") with
    | none => simpa [Agree,SameEnvelope] using hparams
    | some d =>
      cases d with
      | leaf a =>
        cases a with
        | int n =>
          have hn := sameLeaf_iff (.int n)
          simp only [jsOfDoc,pyOfDoc,ExactLeaf] at hn
          have hsplit : Agree (.ok (.request p.1 p.2 fullMethod
                (Js.orElse (member (jsFields fs) "params") (.obj [])) (Js.num (ofInt n))))
              (.ok (.request p.1 p.2 fullMethod
                ((member (pyFields fs) "params").getD (.obj [])) (Py.int n))) ↔
              ParamsInCommon fs ∧ Exact n := by
            simp only [Agree,SameEnvelope,true_and]
            rw [hparams]
            exact and_congr_right fun _ => hn
          simpa [JsonTree.map,jsOfDoc,pyOfDoc] using hsplit
        | minusZero =>
          have hzero : SameLeaf (.num .negativeZero) (.int 0) := ⟨_,rfl⟩
          simpa [JsonTree.map,jsOfDoc,pyOfDoc,Agree,SameEnvelope,Same,JsonTree.Rel,hzero] using hparams
        | str s =>
          simpa [JsonTree.map,jsOfDoc,pyOfDoc,Agree,SameEnvelope,Same,JsonTree.Rel,SameLeaf] using hparams
        | token x =>
          -- a bare NaN or Infinity is no JSON
          exact (present_ne_token fs hs "id" x hid).elim
        | _ => simp [JsonTree.map,jsOfDoc,pyOfDoc,Agree]
      | arr xs => simp [JsonTree.map,Agree]
      | obj gs => simp [JsonTree.map,Agree]
  | error e =>
    cases hpy : pySplitMethod fullMethod with
    | error e' => simp [Agree]
    | ok p =>
      cases hid : Doc.present (member fs "id") with
      | none => simp [Agree]
      | some d =>
        cases d with
        | leaf a => cases a <;> simp [JsonTree.map,pyOfDoc,Agree]
        | arr xs => simp [JsonTree.map,Agree]
        | obj gs => simp [JsonTree.map,Agree]

theorem member_same (fs : List (String × Doc)) (key : String) :
    Same ((member (jsFields fs) key).getD Js.null) ((member (pyFields fs) key).getD Py.null) ↔
      ExactMember (member fs key) := by
  simp only [member_jsFields,member_pyFields]
  cases member fs key with
  | none => simp [Same,JsonTree.Rel,SameLeaf,ExactMember]
  | some d => exact same_iff_exact d

theorem present_same (x : Option Doc) :
    Same ((x.map (JsonTree.map jsOfDoc)).getD Js.null) ((x.map (JsonTree.map pyOfDoc)).getD Py.null) ↔
      ExactMember x := by
  cases x with
  | none => simp [Same,JsonTree.Rel,SameLeaf,ExactMember]
  | some d => exact same_iff_exact d

theorem success_agree (fs : List (String × Doc)) (hr : hasMember fs "result"=true) :
    Agree (parseSuccess (jsFields fs)) (pyParseSuccess (pyFields fs)) ↔ SuccessInCommon fs := by
  unfold parseSuccess pyParseSuccess SuccessInCommon
  simp only [member_jsFields,member_pyFields,js_present_map,py_present_map]
  obtain ⟨r,hr⟩ := Option.isSome_iff_exists.mp hr
  cases Doc.present (member fs "id") with
  | none => simp [Agree]
  | some d =>
    simp only [Option.map_some,hr,Option.getD_some,Agree,SameEnvelope,ExactMember]
    exact and_congr (same_iff_exact d) (same_iff_exact r)

theorem data_same (err : List (String × Doc)) :
    Same (Js.orElse (member (jsFields err) "data") Js.null)
      ((member (pyFields err) "data").getD Py.null) ↔ ExactMember (member err "data") := by
  rw [← member_same]
  simp only [member_jsFields]
  cases hd : member err "data" with
  | none => rfl
  | some d =>
    cases d with
    | leaf a => cases a <;> simp [Js.orElse,JsonTree.map,jsOfDoc]
    | arr xs => rfl
    | obj gs => rfl

theorem error_agree (fs : List (String × Doc)) (hs : Doc.Standard (.obj fs)) :
    Agree (parseError (jsFields fs)) (pyParseError (pyFields fs)) ↔ ErrorInCommon fs := by
  unfold parseError pyParseError ErrorInCommon
  simp only [member_jsFields,member_pyFields,js_present_map,py_present_map]
  cases he : member fs "error" with
  | none => simp [Agree]
  | some e =>
    cases e with
    | leaf a => simp [JsonTree.map,Agree]
    | arr xs => simp [JsonTree.map,Agree]
    | obj err =>
      have hdata := data_same err
      rw [member_jsFields,member_pyFields] at hdata
      have herr := standard_member fs "error" (.obj err) hs he
      have hjs : (JsonTree.obj err : Doc).map jsOfDoc=.obj (jsFields err) := rfl
      have hpy : (JsonTree.obj err : Doc).map pyOfDoc=.obj (pyFields err) := rfl
      simp only [Option.map_some,hjs,hpy,member_jsFields,member_pyFields]
      cases hm : member err "message" with
      | none => simp [Agree]
      | some m =>
        cases m with
        | arr xs => simp [JsonTree.map,Agree]
        | obj gs => simp [JsonTree.map,Agree]
        | leaf b =>
          cases b with
          | str message =>
            cases hc : member err "code" with
            | none => simp [Agree]
            | some c =>
              cases c with
              | arr xs => simp [JsonTree.map,jsOfDoc,pyOfDoc,Py.isInt,Agree]
              | obj gs => simp [JsonTree.map,jsOfDoc,pyOfDoc,Py.isInt,Agree]
              | leaf a =>
                cases a with
                | int n =>
                  have hn : Same (Js.num (ofInt n)) (Py.int n) ↔ Exact n := sameLeaf_iff (.int n)
                  have hid := present_same (Doc.present (member fs "id"))
                  simp only [Option.map_some,JsonTree.map,jsOfDoc,pyOfDoc,Py.isInt,if_true,Agree,
                    SameEnvelope,true_and]
                  rw [hid,hn]
                  exact and_congr_right fun _ => and_congr_right fun _ => hdata
                | minusZero =>
                  have hzero : Same (Js.num .negativeZero) (Py.int 0) := ⟨_,rfl⟩
                  have hid := present_same (Doc.present (member fs "id"))
                  simp only [Option.map_some,JsonTree.map,jsOfDoc,pyOfDoc,Py.isInt,if_true,Agree,
                    SameEnvelope,true_and,hzero]
                  rw [hid]
                  exact and_congr_right fun _ => hdata
                | token x =>
                  exact (standard_ne_token _ (standard_member err "code" _ herr hc) x rfl).elim
                | _ => simp [JsonTree.map,jsOfDoc,pyOfDoc,Py.isInt,Agree]
          | _ => simp [JsonTree.map,jsOfDoc,pyOfDoc,Agree]

/-! ### The whole parser -/

theorem response_agree (fs : List (String × Doc)) (hs : Doc.Standard (.obj fs)) :
    Agree (parseResponse (jsFields fs)) (pyParseResponse (pyFields fs)) ↔ ResponseInCommon fs := by
  unfold parseResponse pyParseResponse ResponseInCommon
  simp only [hasMember_jsFields,hasMember_pyFields]
  cases hr : hasMember fs "result" with
  | true =>
    cases he : hasMember fs "error" with
    | true => simp [Agree]
    | false => exact success_agree fs hr
  | false =>
    cases he : hasMember fs "error" with
    | true => exact error_agree fs hs
    | false => simp [Agree]

theorem read_agree (d : Doc) (hs : d.Standard) :
    Agree (parseEnvelope (d.map jsOfDoc)) (pyParseEnvelope (d.map pyOfDoc)) ↔ ReadInCommon d := by
  cases d with
  | leaf a => simp [JsonTree.map,parseEnvelope,pyParseEnvelope,Agree,ReadInCommon]
  | arr xs => simp [JsonTree.map,parseEnvelope,pyParseEnvelope,Agree,ReadInCommon]
  | obj fs =>
    change Agree (parseEnvelope (.obj (jsFields fs))) (pyParseEnvelope (.obj (pyFields fs))) ↔ _
    have response := response_agree fs hs
    simp only [parseEnvelope,pyParseEnvelope,ReadInCommon,member_jsFields,member_pyFields]
    cases hj : member fs "jsonrpc" with
    | none => simp [Agree]
    | some j =>
      cases j with
      | arr xs => simp [JsonTree.map,Agree]
      | obj gs => simp [JsonTree.map,Agree]
      | leaf a =>
        cases a with
        | str version =>
          by_cases hv : version="2.0"
          · subst hv
            -- a string `method` makes a call, everything else must be a response
            cases hm : member fs "method" with
            | none => exact response
            | some m =>
              cases m with
              | arr xs => exact response
              | obj gs => exact response
              | leaf b =>
                cases b with
                | str fullMethod => exact call_agree fs fullMethod hs
                | _ => exact response
          · simp [JsonTree.map,jsOfDoc,pyOfDoc,hv,Agree]
        | _ => simp [JsonTree.map,jsOfDoc,pyOfDoc,Agree]

/-! ### Texts that Python does not read -/

def Accepts {V : Type} (r : Except String (Envelope V)) : Prop := ∃ env, r=.ok env

@[simp] theorem accepts_ok {V : Type} (env : Envelope V) : Accepts (.ok env) := ⟨env,rfl⟩

@[simp] theorem not_accepts_error {V : Type} (e : String) :
    ¬Accepts (.error e : Except String (Envelope V)) := fun ⟨_,h⟩ => by cases h

theorem call_accepts_iff (fs : List (String × Doc)) (fullMethod : String)
    (hs : Doc.Standard (.obj fs)) :
    Accepts (parseCall (jsFields fs) fullMethod) ↔ CallRead fs fullMethod := by
  unfold parseCall CallRead
  rw [member_jsFields fs "id",js_present_map]
  cases splitMethod fullMethod with
  | error e => simp
  | ok p =>
    have hid := present_ne_token fs hs "id"
    cases hpresent : Doc.present (member fs "id") with
    | none => simp
    | some d =>
      cases d with
      | leaf a =>
        cases a with
        | token x => exact (hid x hpresent).elim
        | _ => simp [JsonTree.map,jsOfDoc,Doc.isString,Doc.isNumber]
      | arr xs => simp [JsonTree.map,Doc.isString,Doc.isNumber]
      | obj gs => simp [JsonTree.map,Doc.isString,Doc.isNumber]

theorem error_accepts_iff (fs : List (String × Doc)) (hs : Doc.Standard (.obj fs)) :
    Accepts (parseError (jsFields fs)) ↔ ErrorRead fs := by
  unfold parseError ErrorRead
  rw [member_jsFields fs "error"]
  cases he : member fs "error" with
  | none => simp
  | some e =>
    cases e with
    | leaf a => simp [JsonTree.map]
    | arr xs => simp [JsonTree.map]
    | obj err =>
      have herr := standard_member fs "error" (.obj err) hs he
      have hjs : (JsonTree.obj err : Doc).map jsOfDoc=.obj (jsFields err) := rfl
      simp only [Option.map_some,hjs,member_jsFields]
      cases hc : member err "code" with
      | none => simp
      | some c =>
        have hstd := standard_ne_token c (standard_member err "code" c herr hc)
        cases member err "message" with
        | none => cases c <;> simp
        | some m =>
          cases c with
          | arr xs => simp [JsonTree.map,Doc.isNumber]
          | obj gs => simp [JsonTree.map,Doc.isNumber]
          | leaf a =>
            cases m with
            | arr xs => cases a <;> simp [JsonTree.map,jsOfDoc,Doc.isString]
            | obj gs => cases a <;> simp [JsonTree.map,jsOfDoc,Doc.isString]
            | leaf b =>
              cases a with
              | token x => exact (hstd x rfl).elim
              | _ => cases b <;> simp [JsonTree.map,jsOfDoc,Doc.isNumber,Doc.isString]

theorem response_accepts_iff (fs : List (String × Doc)) (hs : Doc.Standard (.obj fs)) :
    Accepts (parseResponse (jsFields fs)) ↔ ResponseRead fs := by
  unfold parseResponse ResponseRead
  simp only [hasMember_jsFields]
  cases hasMember fs "result" with
  | true =>
    cases hasMember fs "error" with
    | true => simp
    | false =>
      simp only [parseSuccess,member_jsFields,js_present_map]
      cases Doc.present (member fs "id") <;> simp
  | false =>
    cases hasMember fs "error" with
    | true => exact error_accepts_iff fs hs
    | false => simp

theorem parse_accepts_iff (d : Doc) (hs : d.Standard) :
    Accepts (parseEnvelope (d.map jsOfDoc)) ↔ JsReads d := by
  cases d with
  | leaf a => simp [JsonTree.map,parseEnvelope,JsReads]
  | arr xs => simp [JsonTree.map,parseEnvelope,JsReads]
  | obj fs =>
    change Accepts (parseEnvelope (.obj (jsFields fs))) ↔ _
    have response := response_accepts_iff fs hs
    simp only [parseEnvelope,JsReads,member_jsFields]
    cases member fs "jsonrpc" with
    | none => simp
    | some j =>
      cases j with
      | arr xs => simp [JsonTree.map]
      | obj gs => simp [JsonTree.map]
      | leaf a =>
        cases a with
        | str version =>
          by_cases hv : version="2.0"
          · subst hv
            cases member fs "method" with
            | none => exact response
            | some m =>
              cases m with
              | arr xs => exact response
              | obj gs => exact response
              | leaf b =>
                cases b with
                | str fullMethod => exact call_accepts_iff fs fullMethod hs
                | _ => exact response
          · simp [JsonTree.map,jsOfDoc,hv]
        | _ => simp [JsonTree.map,jsOfDoc]

theorem agree_error_iff (r : Except String (Envelope JsVal)) (e : String) :
    Agree r (.error e) ↔ ¬Accepts r := by
  cases r <;> simp [Agree]

/-- On every JSON value the two parsers agree exactly when it is in common. -/
theorem parsers_agree_iff (v : Json) :
    Agree (readEnvelope v.doc) (pyReadEnvelope v.doc) ↔ InCommon v.doc := by
  obtain ⟨d,hs⟩ := v
  simp only [readEnvelope,jsonParse_standard d hs,pyReadEnvelope,InCommon]
  by_cases hf : d.FewDigits
  · simp only [jsonLoads_few d hf,read_agree d hs,hf,true_and,not_true,false_and,or_false]
  · have hnone : jsonLoads d=none := by
      by_contra h
      exact hf (jsonLoads_ne_none d h)
    simp only [hnone,agree_error_iff,parse_accepts_iff d hs,hf,false_and,false_or,not_false_eq_true,
      true_and]

/-- A notification whose `params` is null: TypeScript puts an empty object in its
place, Python keeps the null. -/
def nullParams : Json where
  doc := .obj [("jsonrpc",.leaf (.str "2.0")),("method",.leaf (.str "arith.ping")),
    ("params",.leaf .null)]
  standard := by simp [Doc.Standard,JsonTree.All,JsonTree.AllFields,DocLeaf.isToken]

theorem nullParams_disagree : ¬Agree (readEnvelope nullParams.doc) (pyReadEnvelope nullParams.doc) := by
  have hts : readEnvelope nullParams.doc=.ok (.notification "arith" "ping" "arith.ping" (.obj [])) := rfl
  have hpy : pyReadEnvelope nullParams.doc=.ok (.notification "arith" "ping" "arith.ping" Py.null) := rfl
  rw [hts,hpy]
  intro h
  exact h.2.2.2

end Clamator.Protocol
