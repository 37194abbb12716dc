import Clamator.Protocol.Value

/-!
# A JavaScript value over the wire

`JSON.stringify` on one side and `JSON.parse` on the other. Members that are
`undefined` disappear, elements that are become `null`, and so does a number
that is not finite; what is left comes back as it was, but for the sign of a zero.
-/

namespace Clamator.Protocol
open Clamator.Base Clamator.Base.Binary64

/- `JSON.parse(JSON.stringify(v))`; `none` where there is no text to parse. -/
def overWire (v : JsVal) : Option JsVal := match jsonStringify v with
  | .keep d => jsonParse d
  | _ => none

def wireLeaf (a : JsLeaf) : JsonTree.Slot JsLeaf := (stringifyLeaf a).map jsOfDoc

theorem printDouble_standard (x : Double) : (printDouble x).isToken=false := by
  cases x with
  | integral n h =>
    simp only [printDouble]
    split <;> rfl
  | _ => rfl

theorem stringifyLeaf_standard (a : JsLeaf) (b : DocLeaf) (h : stringifyLeaf a=.keep b) :
    b.isToken=false := by
  cases a <;> simp only [stringifyLeaf,JsonTree.Slot.keep.injEq,reduceCtorEq] at h
  all_goals subst h
  · rfl
  · rfl
  · exact printDouble_standard _
  · rfl

theorem jsonStringify_standard (v : JsVal) (d : Doc) (h : jsonStringify v=.keep d) : d.Standard :=
  JsonTree.write_all stringifyLeaf .null _ stringifyLeaf_standard rfl v d h

theorem overWire_eq (v : JsVal) : overWire v=match v.write wireLeaf .null with
    | .keep w => some w
    | _ => none := by
  have hw := JsonTree.map_write stringifyLeaf jsOfDoc wireLeaf .null (fun _ => rfl) v
  simp only [jsOfDoc] at hw
  rw [← hw]
  simp only [overWire,jsonStringify]
  cases hs : JsonTree.write stringifyLeaf DocLeaf.null v with
  | keep d =>
    simp only [JsonTree.Slot.map]
    exact jsonParse_standard d (jsonStringify_standard v d hs)
  | skip => rfl
  | fail => rfl

/-! ### Encodable values -/

theorem printDouble_read (x : Double) (h : x.isFinite=true) :
    jsOfDoc (printDouble x)=.num x.value := by
  cases x with
  | integral n hn =>
    simp only [printDouble]
    split
    · simp only [jsOfDoc,ofInt_shortest n hn,Double.value]
    · rfl
  | negativeZero => rfl
  | fractional m k => rfl
  | infinity b => simp [Double.isFinite] at h
  | nan => simp [Double.isFinite] at h

@[simp] theorem wireLeaf_str (s : String) : wireLeaf (.str s)=.keep (.str s) := rfl

theorem wireLeaf_num (x : Double) (h : x.isFinite=true) :
    wireLeaf (.num x)=.keep (.num x.value) := by
  simp only [wireLeaf,stringifyLeaf,JsonTree.Slot.map,printDouble_read x h]

def EncodableLeaf : JsLeaf → Prop
  | .undefined => True
  | .null => True
  | .bool _ => True
  | .num x => x.isFinite=true
  | .str _ => True
  | _ => False

def Encodable (v : JsVal) : Prop := v.All EncodableLeaf

def JsLeaf.value : JsLeaf → JsLeaf
  | .num x => .num x.value
  | a => a

/-- The value with its numbers by value: a zero has no sign. -/
def byValue (v : JsVal) : JsVal := v.map JsLeaf.value

def dropLeaf : JsLeaf → JsonTree.Slot JsLeaf
  | .undefined => .skip
  | a => .keep a.value

/-- The value without its `undefined` members, with `null` for its `undefined`
elements and its numbers by value; `undefined` itself stays. -/
def dropUndefined (v : JsVal) : JsVal := match v.write dropLeaf .null with
  | .keep w => w
  | _ => Js.undefined

theorem wireLeaf_encodable (a : JsLeaf) (h : EncodableLeaf a) : wireLeaf a=dropLeaf a := by
  cases a with
  | num x => exact wireLeaf_num x h
  | bigint n => exact h.elim
  | callable => exact h.elim
  | hostile => exact h.elim
  | _ => rfl

theorem write_encodable (v : JsVal) (h : Encodable v) :
    v.write wireLeaf .null=v.write dropLeaf .null := by
  refine JsonTree.write_congr wireLeaf dropLeaf .null v ?_
  exact JsonTree.all_imp wireLeaf_encodable v h

theorem dropLeaf_ne_fail (a : JsLeaf) : dropLeaf a≠.fail := by
  cases a <;> simp [dropLeaf]

/- Every value but `undefined` itself leaves something to send. -/
theorem write_dropLeaf (v : JsVal) (h : v≠Js.undefined) :
    v.write dropLeaf .null=.keep (dropUndefined v) := by
  have hf : v.write dropLeaf .null≠.fail := by
    rw [JsonTree.write_ne_fail]
    exact JsonTree.all_of_forall dropLeaf_ne_fail v
  unfold dropUndefined
  cases hv : v.write dropLeaf .null with
  | keep w => rfl
  | fail => exact (hf hv).elim
  | skip =>
    cases v with
    | leaf a => cases a <;> simp [JsonTree.write,dropLeaf,JsonTree.Slot.map] at hv h
    | arr xs =>
      simp only [JsonTree.write] at hv
      split at hv <;> cases hv
    | obj fs =>
      simp only [JsonTree.write] at hv
      split at hv <;> cases hv

theorem dropUndefined_ne_undefined (v : JsVal) (h : v≠Js.undefined) :
    dropUndefined v≠Js.undefined := by
  cases v with
  | leaf a => cases a <;> simp [dropUndefined,JsonTree.write,dropLeaf,JsLeaf.value,JsonTree.Slot.map] at h ⊢
  | arr xs =>
    have hw := write_dropLeaf (.arr xs) h
    intro hd
    rw [hd] at hw
    simp only [JsonTree.write] at hw
    split at hw <;> cases hw
  | obj fs =>
    have hw := write_dropLeaf (.obj fs) h
    intro hd
    rw [hd] at hw
    simp only [JsonTree.write] at hw
    split at hw <;> cases hw

theorem write_wireLeaf (v : JsVal) (he : Encodable v) (h : v≠Js.undefined) :
    v.write wireLeaf .null=.keep (dropUndefined v) := by
  rw [write_encodable v he]
  exact write_dropLeaf v h

/-! ### Python -/

theorem printDouble_fewDigits (x : Double) : (printDouble x).fewDigits=true := by
  cases x with
  | integral n h =>
    simp only [printDouble]
    split
    · have hle := shortest_le n.natAbs
      refine fewDigits_of_lt _ 22 (by decide) ?_
      rw [signed_natAbs]
      omega
    · rfl
  | negativeZero => decide
  | _ => rfl

/- Python reads every text that JavaScript writes. -/
theorem jsonStringify_fewDigits (v : JsVal) (d : Doc) (h : jsonStringify v=.keep d) : d.FewDigits := by
  have hleaf : ∀ a b, stringifyLeaf a=.keep b → b.fewDigits=true := by
    intro a b hab
    cases a with
    | num x =>
      cases hab
      exact printDouble_fewDigits x
    | null => cases hab; rfl
    | bool b => cases hab; rfl
    | str s => cases hab; rfl
    | _ => cases hab
  exact JsonTree.write_all stringifyLeaf .null _ hleaf rfl v d h

theorem dumpsLeaf_fewDigits (a : PyLeaf) (b : DocLeaf) (h : dumpsLeaf a=.keep b) :
    b.fewDigits=true := by
  cases a with
  | int n =>
    simp only [dumpsLeaf] at h
    split at h
    · cases h
      assumption
    · cases h
  | float x => cases x <;> cases h <;> rfl
  | none => cases h; rfl
  | bool b => cases h; rfl
  | str s => cases h; rfl
  | object => cases h

theorem dumpsLeaf_read (a : PyLeaf) (h : dumpsLeaf a≠.fail) : (dumpsLeaf a).map pyOfDoc=.keep a := by
  cases a with
  | int n =>
    simp only [dumpsLeaf] at h ⊢
    split at h
    · rename_i hn
      rw [if_pos hn]
      rfl
    · exact (h rfl).elim
  | float x => cases x <;> rfl
  | object => exact (h rfl).elim
  | _ => rfl

theorem jsonDumps_write (p : PyVal) (d : Doc) (h : jsonDumps p=some d) :
    p.write dumpsLeaf .null=.keep d := by
  unfold jsonDumps at h
  split at h
  · rename_i hw
    cases h
    exact hw
  · cases h

theorem loads_dumps (p : PyVal) (d : Doc) (h : jsonDumps p=some d) : jsonLoads d=some p := by
  have hw := jsonDumps_write p d h
  have hne : p.write dumpsLeaf .null≠.fail := by
    simp [hw]
  have hmap := JsonTree.map_write dumpsLeaf pyOfDoc (fun a => (dumpsLeaf a).map pyOfDoc) .null
    (fun _ => rfl) p
  have hself := JsonTree.write_self (fun a => (dumpsLeaf a).map pyOfDoc) (pyOfDoc .null) p
    (JsonTree.all_imp dumpsLeaf_read p ((JsonTree.write_ne_fail _ _ _).mp hne))
  rw [hself,hw] at hmap
  have hfew : d.FewDigits := JsonTree.write_all dumpsLeaf .null _ dumpsLeaf_fewDigits rfl p d hw
  rw [jsonLoads_few d hfew,JsonTree.Slot.keep.inj hmap]

end Clamator.Protocol
