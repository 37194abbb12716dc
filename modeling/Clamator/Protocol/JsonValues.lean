import Clamator.Protocol.Wire

/-!
# JSON values of the two runtimes

Values that both runtimes hold exactly: what one writes, either reads back as the same value.
-/

namespace Clamator.Protocol
open Clamator.Base Clamator.Base.Binary64

def JsonLeaf : JsLeaf → Prop
  | .null => True
  | .bool _ => True
  | .num x => x.isFinite=true
  | .str _ => True
  | _ => False

def IsJson (v : JsVal) : Prop := v.All JsonLeaf

/-- A JSON scalar whose number a double holds. -/
def PyJsonLeaf : PyLeaf → Prop
  | .none => True
  | .bool _ => True
  | .int n => Exact n
  | .float x => x.isFinite=true
  | .str _ => True
  | .object => False

def PyIsJson (p : PyVal) : Prop := p.All PyJsonLeaf

theorem wireLeaf_json (a : JsLeaf) (h : JsonLeaf a) : wireLeaf a=.keep a.value := by
  cases a with
  | num x => exact wireLeaf_num x h
  | null => rfl
  | bool b => rfl
  | str s => rfl
  | _ => exact h.elim

theorem IsJson.write {v : JsVal} (h : IsJson v) : v.write wireLeaf .null=.keep (byValue v) :=
  JsonTree.write_eq_map wireLeaf JsLeaf.value .null v (JsonTree.all_imp wireLeaf_json v h)

theorem IsJson.overWire {v : JsVal} (h : IsJson v) : overWire v=some (byValue v) := by
  rw [overWire_eq,h.write]

/-- A zero has no sign. -/
def UnsignedLeaf : JsLeaf → Prop
  | .num x => x≠.negativeZero
  | _ => True

def Unsigned (v : JsVal) : Prop := v.All UnsignedLeaf

theorem byValue_unsigned {v : JsVal} (h : Unsigned v) : byValue v=v := by
  have hleaf : ∀ a, UnsignedLeaf a → a.value=a := by
    intro a ha
    cases a with
    | num x => rw [JsLeaf.value,Double.value_of_ne x ha]
    | _ => rfl
  rw [byValue,JsonTree.map_congr JsLeaf.value (fun a => a) v (JsonTree.all_imp hleaf v h),JsonTree.map_id]

/-! ### What Python reads of it -/

def docOfJs : JsLeaf → DocLeaf
  | .null => .null
  | .bool b => .bool b
  | .num x => printDouble x
  | .str s => .str s
  | _ => .null

theorem stringifyLeaf_json (a : JsLeaf) (h : JsonLeaf a) : stringifyLeaf a=.keep (docOfJs a) := by
  cases a <;> first | rfl | exact h.elim

/-- The number prints its own digits, which an integer from `2^53` on need not. -/
def PrintedLeaf : JsLeaf → Prop
  | .num (.integral n _) => n.natAbs < 10^21 → shortest n.natAbs=n.natAbs
  | _ => True

def Printed (v : JsVal) : Prop := v.All PrintedLeaf

theorem printed_small (n : ℤ) (h : Exact n) (hn : n.natAbs < 2^53) :
    PrintedLeaf (.num (.integral n h)) := fun _ => shortest_small n.natAbs hn

theorem signed_eq_iff (n : ℤ) (m : ℕ) : n=signed n m ↔ m=n.natAbs := by
  unfold signed
  split <;> omega

theorem sameLeaf_printed_iff (a : JsLeaf) (h : JsonLeaf a) :
    SameLeaf a (pyOfDoc (docOfJs a)) ↔ PrintedLeaf a := by
  cases a with
  | num x =>
    cases x with
    | integral n hn =>
      simp only [docOfJs,printDouble,PrintedLeaf]
      split
      · rename_i hlt
        simp only [pyOfDoc,SameLeaf,Double.value,hlt,true_imp_iff,← signed_eq_iff]
        constructor
        · rintro ⟨_,he⟩
          exact (Double.integral.inj he)
        · intro he
          exact ⟨he ▸ hn,by congr⟩
      · rename_i hge
        exact iff_of_true rfl fun hlt => (hge hlt).elim
    | negativeZero => exact iff_of_true ⟨_,rfl⟩ trivial
    | fractional m k => exact iff_of_true rfl trivial
    | infinity b => cases h
    | nan => cases h
  | null => exact iff_of_true trivial trivial
  | bool b => exact iff_of_true rfl trivial
  | str s => exact iff_of_true rfl trivial
  | _ => exact h.elim

theorem IsJson.stringify {v : JsVal} (h : IsJson v) : jsonStringify v=.keep (v.map docOfJs) :=
  JsonTree.write_eq_map stringifyLeaf docOfJs .null v (JsonTree.all_imp stringifyLeaf_json v h)

/- JavaScript reads its own text as the same value. -/
theorem IsJson.parse {v : JsVal} (h : IsJson v) : jsonParse (v.map docOfJs)=some (byValue v) := by
  have hw := h.overWire
  simpa only [Protocol.overWire,h.stringify] using hw

theorem IsJson.standard {v : JsVal} (h : IsJson v) : Doc.Standard (v.map docOfJs) :=
  jsonStringify_standard v _ h.stringify

theorem IsJson.fewDigits {v : JsVal} (h : IsJson v) : Doc.FewDigits (v.map docOfJs) :=
  jsonStringify_fewDigits v _ h.stringify

/- Python reads the numbers that were printed. -/
theorem IsJson.same_iff {v : JsVal} (h : IsJson v) :
    Same v ((v.map docOfJs).map pyOfDoc) ↔ Printed v := by
  have hrel := JsonTree.rel_map SameLeaf (fun a => a) (fun a => pyOfDoc (docOfJs a)) v
  rw [JsonTree.map_id] at hrel
  rw [Same,JsonTree.map_map,hrel]
  exact ⟨fun hs => JsonTree.all_imp₂ (fun a ha hj => (sameLeaf_printed_iff a hj).mp ha) v hs h,
    fun hs => JsonTree.all_imp₂ (fun a ha hj => (sameLeaf_printed_iff a hj).mpr ha) v hs h⟩

/-! ### What JavaScript reads of a Python value -/

def docOfPy : PyLeaf → DocLeaf
  | .none => .null
  | .bool b => .bool b
  | .int n => .int n
  | .float x => .float x
  | .str s => .str s
  | .object => .null

theorem dumpsLeaf_json (a : PyLeaf) (h : PyJsonLeaf a) : dumpsLeaf a=.keep (docOfPy a) := by
  cases a with
  | int n => exact if_pos (fewDigits_exact n h)
  | float x => cases x <;> first | rfl | cases h
  | object => exact h.elim
  | _ => rfl

theorem docOfPy_standard (a : PyLeaf) : (docOfPy a).isToken=false := by
  cases a <;> rfl

theorem docOfPy_exact (a : PyLeaf) (h : PyJsonLeaf a) : ExactLeaf (docOfPy a) := by
  cases a with
  | int n => exact h
  | _ => exact trivial

theorem PyIsJson.dumps {p : PyVal} (h : PyIsJson p) : jsonDumps p=some (p.map docOfPy) := by
  have hw : p.write dumpsLeaf .null=.keep (p.map docOfPy) :=
    JsonTree.write_eq_map dumpsLeaf docOfPy .null p (JsonTree.all_imp dumpsLeaf_json p h)
  simp only [jsonDumps,hw]

/- Python reads its own text as the same value. -/
theorem PyIsJson.loads {p : PyVal} (h : PyIsJson p) : jsonLoads (p.map docOfPy)=some p :=
  loads_dumps p _ h.dumps

theorem PyIsJson.standard (p : PyVal) : Doc.Standard (p.map docOfPy) :=
  (JsonTree.all_map (fun a : DocLeaf => a.isToken=false) docOfPy p).mpr
    (JsonTree.all_of_forall docOfPy_standard p)

/- JavaScript reads every number: a double holds it. -/
theorem PyIsJson.same {p : PyVal} (h : PyIsJson p) : Same ((p.map docOfPy).map jsOfDoc) p := by
  have he : ExactDoc (p.map docOfPy) := (JsonTree.all_map ExactLeaf docOfPy p).mpr
    (JsonTree.all_imp docOfPy_exact p h)
  have hsame := (same_iff_exact _).mpr he
  rwa [← (jsonLoads_eq_some _ _ h.loads).2] at hsame

end Clamator.Protocol
