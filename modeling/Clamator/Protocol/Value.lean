import Clamator.Base.Tree
import Clamator.Base.Binary64

/-!
# JSON documents and the two runtimes' values

A document as it stands on the wire, a JavaScript value and a Python value are
trees that differ in their leaves. `JSON.parse` and `json.loads` read a
document, `JSON.stringify` and `json.dumps` write one. A number literal with a
fraction or an exponent denotes the double nearest to it in both runtimes; an
integer literal is rounded by JavaScript and kept exact by Python, which takes
up to 4300 digits. `NaN` and the infinities are no JSON: Python's `json` writes
and reads them as bare words (`token`), JavaScript writes `null` for them and
rejects the words.
-/

namespace Clamator.Protocol
open Clamator.Base Clamator.Base.Binary64

/-! ### Leaves -/

inductive DocLeaf where
  | null
  | bool (b : Bool)
  | int (n : ℤ)
  /-- The literal `-0`. -/
  | minusZero
  | float (x : Double)
  | str (s : String)
  /-- One of Python's words `NaN`, `Infinity`, `-Infinity`. -/
  | token (x : Double)
  deriving DecidableEq

/-- What `typeof` and `JSON.stringify` tell apart. `callable` stands for
functions and symbols, `hostile` for an object that makes `JSON.stringify` throw:
one with a cycle, or whose `toJSON` or getter throws. -/
inductive JsLeaf where
  | undefined
  | null
  | bool (b : Bool)
  | num (x : Double)
  | str (s : String)
  | bigint (n : ℤ)
  | callable
  | hostile
  deriving DecidableEq

/-- `object` stands for every Python object that `json.dumps` rejects. -/
inductive PyLeaf where
  | none
  | bool (b : Bool)
  | int (n : ℤ)
  | float (x : Double)
  | str (s : String)
  | object
  deriving DecidableEq

abbrev Doc := JsonTree DocLeaf
abbrev JsVal := JsonTree JsLeaf
abbrev PyVal := JsonTree PyLeaf

@[match_pattern] abbrev Js.undefined : JsVal := .leaf .undefined
@[match_pattern] abbrev Js.null : JsVal := .leaf .null
@[match_pattern] abbrev Js.num (x : Double) : JsVal := .leaf (.num x)
@[match_pattern] abbrev Js.str (s : String) : JsVal := .leaf (.str s)
/-- Python's `None` -/
@[match_pattern] abbrev Py.null : PyVal := .leaf .none
@[match_pattern] abbrev Py.int (n : ℤ) : PyVal := .leaf (.int n)
@[match_pattern] abbrev Py.bool (b : Bool) : PyVal := .leaf (.bool b)
@[match_pattern] abbrev Py.str (s : String) : PyVal := .leaf (.str s)

/-! ### Reading a document -/

/-- The JavaScript value of a leaf. A `token` is a syntax error; the value given
to it here is never used. -/
def jsOfDoc : DocLeaf → JsLeaf
  | .null => .null
  | .bool b => .bool b
  | .int n => .num (ofInt n)
  | .minusZero => .num .negativeZero
  | .float x => .num x
  | .str s => .str s
  | .token x => .num x

def DocLeaf.isToken : DocLeaf → Bool
  | .token _ => true
  | _ => false

def jsReadLeaf (a : DocLeaf) : JsonTree.Slot JsLeaf := if a.isToken then .fail else .keep (jsOfDoc a)

/- `JSON.parse`; `none` is a SyntaxError. -/
def jsonParse (d : Doc) : Option JsVal := match d.write jsReadLeaf .null with
  | .keep v => some v
  | _ => none

def digitsAtMost : ℕ → ℕ → Bool
  | 0,n => n == 0
  | k+1,n => n == 0 || digitsAtMost k (n/10)

theorem digitsAtMost_iff (k n : ℕ) : digitsAtMost k n=true ↔ n < 10^k := by
  induction k generalizing n with
  | zero => simp [digitsAtMost]
  | succ k ih =>
    rw [digitsAtMost,Bool.or_eq_true,ih,beq_iff_eq,Nat.div_lt_iff_lt_mul (by decide),← Nat.pow_succ]
    have hpos : 0 < 10^(k+1) := Nat.pow_pos (by decide)
    omega

/-- `sys.int_info.default_max_str_digits` -/
def intMaxStrDigits : ℕ := 4300

/-- Python converts the int to its digits, or the digits to the int, without a `ValueError`. -/
def fewDigits (n : ℤ) : Bool := digitsAtMost intMaxStrDigits n.natAbs

theorem fewDigits_iff (n : ℤ) : fewDigits n=true ↔ n.natAbs < 10^intMaxStrDigits :=
  digitsAtMost_iff _ _

theorem fewDigits_of_lt (n : ℤ) (k : ℕ) (hk : k ≤ intMaxStrDigits) (h : n.natAbs < 10^k) :
    fewDigits n=true :=
  (fewDigits_iff n).mpr (h.trans_le (Nat.pow_le_pow_right (by decide) hk))

theorem fewDigits_exact (n : ℤ) (h : Exact n) : fewDigits n=true := by
  have hlog : n.natAbs < 2^(n.natAbs.log2+1) := Nat.lt_log2_self
  refine fewDigits_of_lt n (n.natAbs.log2+1) ?_ (hlog.trans_le ?_)
  · exact h.2.trans (by decide)
  · exact Nat.pow_le_pow_left (by decide) _

def pyOfDoc : DocLeaf → PyLeaf
  | .null => .none
  | .bool b => .bool b
  | .int n => .int n
  | .minusZero => .int 0
  | .float x => .float x
  | .str s => .str s
  | .token x => .float x

def DocLeaf.fewDigits : DocLeaf → Bool
  | .int n => Protocol.fewDigits n
  | _ => true

def pyReadLeaf (a : DocLeaf) : JsonTree.Slot PyLeaf := if a.fewDigits then .keep (pyOfDoc a) else .fail

/- `json.loads`; `none` is a ValueError. -/
def jsonLoads (d : Doc) : Option PyVal := match d.write pyReadLeaf .none with
  | .keep v => some v
  | _ => none

def Doc.FewDigits (d : Doc) : Prop := d.All fun a => a.fewDigits=true

/-- No `NaN` or `Infinity` in it: a document of the JSON grammar. -/
def Doc.Standard (d : Doc) : Prop := d.All fun a => a.isToken=false

structure Json where
  doc : Doc
  standard : doc.Standard

theorem jsonParse_standard (d : Doc) (h : d.Standard) : jsonParse d=some (d.map jsOfDoc) := by
  have hw : d.write jsReadLeaf .null=.keep (d.map jsOfDoc) := by
    apply JsonTree.write_eq_map
    have hf : (fun a => jsReadLeaf a=.keep (jsOfDoc a))=fun a : DocLeaf => a.isToken=false := by
      funext a
      cases a <;> simp [jsReadLeaf,DocLeaf.isToken]
    rw [hf]
    exact h
  simp only [jsonParse,hw]

theorem jsonLoads_few (d : Doc) (h : d.FewDigits) : jsonLoads d=some (d.map pyOfDoc) := by
  have hw : d.write pyReadLeaf .none=.keep (d.map pyOfDoc) := by
    apply JsonTree.write_eq_map
    have hf : (fun a => pyReadLeaf a=.keep (pyOfDoc a))=fun a : DocLeaf => a.fewDigits=true := by
      funext a
      simp [pyReadLeaf]
    rw [hf]
    exact h
  simp only [jsonLoads,hw]

theorem jsonLoads_ne_none (d : Doc) (h : jsonLoads d≠none) : d.FewDigits := by
  have hw : d.write pyReadLeaf .none≠.fail := fun hw => h (by simp only [jsonLoads,hw])
  refine JsonTree.all_imp (fun a ha => ?_) d ((JsonTree.write_ne_fail _ _ _).mp hw)
  by_contra hd
  exact ha (if_neg hd)

theorem jsonLoads_eq_some (d : Doc) (p : PyVal) (h : jsonLoads d=some p) :
    d.FewDigits ∧ p=d.map pyOfDoc := by
  have hf := jsonLoads_ne_none d (by rw [h]; exact Option.some_ne_none p)
  rw [jsonLoads_few d hf] at h
  exact ⟨hf,(Option.some.inj h).symm⟩

/-! ### Writing a document -/

/-- Integral doubles below `10^21` print without an exponent, and zero without its sign. -/
def printDouble : Double → DocLeaf
  | .integral n h =>
    if n.natAbs < 10^21 then .int (signed n (shortest n.natAbs)) else .float (.integral n h)
  | .negativeZero => .int 0
  | .fractional m k => .float (.fractional m k)
  | .infinity _ => .null
  | .nan => .null

def stringifyLeaf : JsLeaf → JsonTree.Slot DocLeaf
  | .undefined => .skip
  | .null => .keep .null
  | .bool b => .keep (.bool b)
  | .num x => .keep (printDouble x)
  | .str s => .keep (.str s)
  | .bigint _ => .fail
  | .callable => .skip
  | .hostile => .fail

/- `JSON.stringify`: `skip` is its result `undefined`, `fail` a TypeError. -/
def jsonStringify (v : JsVal) : JsonTree.Slot Doc := v.write stringifyLeaf .null

def dumpDouble : Double → DocLeaf
  | .integral n h => .float (.integral n h)
  | .negativeZero => .float .negativeZero
  | .fractional m k => .float (.fractional m k)
  | .infinity b => .token (.infinity b)
  | .nan => .token .nan

def dumpsLeaf : PyLeaf → JsonTree.Slot DocLeaf
  | .none => .keep .null
  | .bool b => .keep (.bool b)
  | .int n => if fewDigits n then .keep (.int n) else .fail
  | .float x => .keep (dumpDouble x)
  | .str s => .keep (.str s)
  | .object => .fail

/- `json.dumps`; `none` is a TypeError or, of an int, a ValueError. -/
def jsonDumps (v : PyVal) : Option Doc := match v.write dumpsLeaf .null with
  | .keep d => some d
  | _ => none

/-! ### Same value in both runtimes -/

def SameLeaf : JsLeaf → PyLeaf → Prop
  | .null,.none => True
  | .bool a,.bool b => a=b
  | .num x,.int n => ∃ h, x.value=.integral n h
  | .num x,.float y => x.value=y.value
  | .str a,.str b => a=b
  | _,_ => False

def Same (a : JsVal) (b : PyVal) : Prop := JsonTree.Rel SameLeaf a b

def ExactLeaf : DocLeaf → Prop
  | .int n => Exact n
  | _ => True

def ExactDoc (d : Doc) : Prop := d.All ExactLeaf

theorem sameLeaf_iff (a : DocLeaf) : SameLeaf (jsOfDoc a) (pyOfDoc a) ↔ ExactLeaf a := by
  cases a with
  | int n =>
    simp only [jsOfDoc,pyOfDoc,SameLeaf,ExactLeaf]
    constructor
    · rintro ⟨h,_⟩
      exact h
    · intro h
      exact ⟨h,by rw [ofInt_exact n h]; rfl⟩
  | minusZero =>
    simp only [jsOfDoc,pyOfDoc,SameLeaf,ExactLeaf,iff_true]
    exact ⟨_,rfl⟩
  | _ => simp [jsOfDoc,pyOfDoc,SameLeaf,ExactLeaf]

/- One document read by the two runtimes: the same value exactly when every
integer literal in it is a double. -/
theorem same_iff_exact (d : Doc) : Same (d.map jsOfDoc) (d.map pyOfDoc) ↔ ExactDoc d := by
  rw [Same,JsonTree.rel_map]
  have hf : (fun a => SameLeaf (jsOfDoc a) (pyOfDoc a))=ExactLeaf := by
    funext a
    exact propext (sameLeaf_iff a)
  rw [hf]
  exact Iff.rfl

theorem ExactDoc.fewDigits {d : Doc} (h : ExactDoc d) : d.FewDigits := by
  refine JsonTree.all_imp (fun a ha => ?_) d h
  cases a with
  | int n => exact fewDigits_exact n ha
  | _ => rfl

end Clamator.Protocol
