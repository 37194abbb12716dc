import Clamator.Base.Assoc
import Clamator.Protocol.Value

/-!
# Params of a generated Python proxy (`codegen/src/emit-py.ts`, `renderPyTail`)

The generated client sends `params.model_dump(mode='json', by_alias=True)`; the
TypeScript server reads the document with `methodDef.params.parse`. The generated
model renders an optional property as `T | None = None` and dumps a key for
every field, so what the caller omitted goes out as null, which `optional()`
does not accept. Zod and the generated models are third-party code: `parse` and
`dump` stand for them, with what their documentation says of these schemas.
-/

namespace Clamator.Codegen
open Clamator.Base Clamator.Base.Binary64 Clamator.Protocol
open Clamator.Base.JsonTree (member)

/-! ### Schemas and their values -/

mutual
/-- Zod schemas over JSON scalars, arrays and objects. -/
inductive Zod where
  | str
  | num
  | int
  | bool
  | null
  | arr (e : Zod)
  | obj (shape : Shape)
/-- The shape of a `z.object`, key by key; `optional` is `.optional()`. -/
inductive Shape where
  | nil
  | field (key : String) (optional : Bool) (s : Zod) (rest : Shape)
end

def Shape.keys : Shape → List String
  | .nil => []
  | .field key _ _ rest => key::rest.keys

mutual
/-- What object literals spell: distinct keys, none of them `__proto__`. -/
def Zod.Legal : Zod → Prop
  | .arr e => e.Legal
  | .obj shape => shape.Legal
  | _ => True
def Shape.Legal : Shape → Prop
  | .nil => True
  | .field key _ s rest => key≠"__proto__" ∧ key∉rest.keys ∧ s.Legal ∧ rest.Legal
end

mutual
/-- The values of a schema's type, objects with their keys in the order of the shape. -/
def Zod.holds : Zod → JsVal → Bool
  | .str,Js.str _ => true
  | .num,Js.num x => x.isFinite
  | .int,Js.num (.integral _ _) => true
  | .bool,.leaf (.bool _) => true
  | .null,Js.null => true
  | .arr e,.arr xs => xs.all e.holds
  | .obj shape,.obj fs => shape.holds fs
  | _,_ => false
def Shape.holds : Shape → List (String × JsVal) → Bool
  | .nil,fs => fs.isEmpty
  | .field _ optional _ rest,[] => optional && rest.holds []
  | .field key optional s rest,(k,v)::fs =>
    if k=key then s.holds v && rest.holds fs else optional && rest.holds ((k,v)::fs)
end

structure ParamsSchema where
  shape : Shape
  legal : shape.Legal

structure ParamsSchema.Value (s : ParamsSchema) where
  fields : List (String × JsVal)
  holds : s.shape.holds fields=true

/-! ### What the two libraries are documented to do -/

/-- One key of a `z.object`: `none` is a ZodError, `some none` leaves the key out. -/
def parseKey (optional : Bool) (parse : JsVal → Option JsVal) : Option JsVal → Option (Option JsVal)
  | none => if optional then some none else none
  | some v => (parse v).map some

/-- Key by key; unknown keys are stripped. -/
def Shape.parsed (parse : Zod → JsVal → Option JsVal) :
    Shape → List (String × JsVal) → Option (List (String × JsVal))
  | .nil,_ => some []
  | .field key optional s rest,fs =>
    match parseKey optional (parse s) (member fs key),rest.parsed parse fs with
    | some none,some out => some out
    | some (some v),some out => some ((key,v)::out)
    | _,_ => none

/-- `schema.parse` on values that came out of `JSON.parse`; `none` is a ZodError. `optional()`
accepts an absent key, and null only where its schema does. -/
structure ZodLaws (parse : Zod → JsVal → Option JsVal) : Prop where
  str : ∀ v, parse .str (Js.str v)=some (Js.str v)
  num : ∀ x : Double, x.isFinite=true → parse .num (Js.num x)=some (Js.num x)
  int : ∀ n h, parse .int (Js.num (.integral n h))=some (Js.num (.integral n h))
  bool : ∀ b, parse .bool (.leaf (.bool b))=some (.leaf (.bool b))
  null : parse .null Js.null=some Js.null
  arr : ∀ e xs, parse (.arr e) (.arr xs)=(xs.mapM (parse e)).map .arr
  obj : ∀ shape fs, shape.Legal → (fs.map Prod.fst).Nodup → (∀ kv∈fs, kv.2≠Js.undefined) →
    parse (.obj shape) (.obj fs)=(shape.parsed parse fs).map .obj
  not_null : ∀ s, s≠.null → parse s Js.null=none

/-- Every field has a key, `None` for an omitted one. -/
def Shape.dumped (dump : Zod → JsVal → PyVal) : Shape → List (String × JsVal) → List (String × PyVal)
  | .nil,_ => []
  | .field key _ _ rest,[] => (key,Py.null)::rest.dumped dump []
  | .field key _ s rest,(k,v)::fs =>
    if k=key then (key,dump s v)::rest.dumped dump fs else (key,Py.null)::rest.dumped dump ((k,v)::fs)

/-- `model_dump(mode='json', by_alias=True)` of the generated model's instance for a value: an
optional property is rendered as `T | None = None`. -/
structure DumpLaws (dump : Zod → JsVal → PyVal) : Prop where
  str : ∀ v, dump .str (Js.str v)=Py.str v
  num : ∀ x : Double, x.isFinite=true → dump .num (Js.num x)=.leaf (.float x)
  int : ∀ n h, dump .int (Js.num (.integral n h))=Py.int n
  bool : ∀ b, dump .bool (.leaf (.bool b))=Py.bool b
  null : dump .null Js.null=Py.null
  arr : ∀ e xs, dump (.arr e) (.arr xs)=.arr (xs.map (dump e))
  obj : ∀ shape fs, shape.Legal → shape.holds fs=true →
    dump (.obj shape) (.obj fs)=.obj (shape.dumped dump fs)

/-- What a TypeScript server reads of a Python value that a client sent. -/
def fromPython (v : PyVal) : Option JsVal := (jsonDumps v).bind jsonParse

/-- The params that the dispatcher parses out of what the proxy sent for a value. -/
def proxyParams (parse : Zod → JsVal → Option JsVal) (dump : Zod → JsVal → PyVal) (s : ParamsSchema)
    (v : s.Value) : Option JsVal :=
  (fromPython (dump (.obj s.shape) (.obj v.fields))).bind (parse (.obj s.shape))

/-! ### What arrives -/

mutual
/-- The value with a null for every field that it omits. -/
def Zod.filled : Zod → JsVal → JsVal
  | .arr e,.arr xs => .arr (xs.map e.filled)
  | .obj shape,.obj fs => .obj (shape.filled fs)
  | _,v => v
def Shape.filled : Shape → List (String × JsVal) → List (String × JsVal)
  | .nil,_ => []
  | .field key _ _ rest,[] => (key,Js.null)::rest.filled []
  | .field key _ s rest,(k,v)::fs =>
    if k=key then (key,s.filled v)::rest.filled fs else (key,Js.null)::rest.filled ((k,v)::fs)
end

mutual
def Zod.Complete : Zod → JsVal → Prop
  | .arr e,.arr xs => ∀ x∈xs, e.Complete x
  | .obj shape,.obj fs => shape.Complete fs
  | _,_ => True
def Shape.Complete : Shape → List (String × JsVal) → Prop
  | .nil,_ => True
  | .field _ _ _ _,[] => False
  | .field key _ s rest,(k,v)::fs => k=key ∧ s.Complete v ∧ rest.Complete fs
end

def Sent (p : PyVal) (v : JsVal) : Prop :=
  ∃ d : Doc, p.write dumpsLeaf .null=.keep d ∧ Doc.Standard d ∧ d.map jsOfDoc=v

def SentFields (ps : List (String × PyVal)) (fs : List (String × JsVal)) : Prop :=
  ∃ ds, JsonTree.writeFields dumpsLeaf .null ps=some ds ∧ JsonTree.AllFields (fun a => a.isToken=false) ds ∧
    JsonTree.mapFields jsOfDoc ds=fs

theorem sentFields_cons (key : String) (p : PyVal) (v : JsVal) (ps : List (String × PyVal))
    (fs : List (String × JsVal)) (hp : Sent p v) (hps : SentFields ps fs) :
    SentFields ((key,p)::ps) ((key,v)::fs) := by
  obtain ⟨d,hd,hs,hm⟩ := hp
  obtain ⟨ds,hds,hss,hms⟩ := hps
  refine ⟨(key,d)::ds,?_,⟨hs,hss⟩,?_⟩
  · simp only [JsonTree.writeFields,hd,hds]
  · simp only [JsonTree.mapFields,hm,hms]

theorem sent_null : Sent Py.null Js.null := ⟨.leaf .null,rfl,rfl,rfl⟩

variable {dump : Zod → JsVal → PyVal}

theorem sent_arr (e : Zod) (xs : List JsVal) (h : ∀ x∈xs, Sent (dump e x) (e.filled x)) :
    Sent (.arr (xs.map (dump e))) (.arr (xs.map e.filled)) := by
  have key : ∃ ds, JsonTree.writeList dumpsLeaf .null (xs.map (dump e))=some ds ∧
      JsonTree.AllList (fun a => a.isToken=false) ds ∧ JsonTree.mapList jsOfDoc ds=xs.map e.filled := by
    induction xs with
    | nil => exact ⟨[],rfl,trivial,rfl⟩
    | cons x xs ih =>
      obtain ⟨d,hd,hs,hm⟩ := h x List.mem_cons_self
      obtain ⟨ds,hds,hss,hms⟩ := ih fun y hy => h y (List.mem_cons_of_mem _ hy)
      refine ⟨d::ds,?_,⟨hs,hss⟩,?_⟩
      · simp only [List.map_cons,JsonTree.writeList,hd,hds]
      · simp only [List.map_cons,JsonTree.mapList,hm,hms]
  obtain ⟨ds,hds,hss,hms⟩ := key
  refine ⟨.arr ds,?_,hss,?_⟩
  · simp only [JsonTree.write,hds]
  · simp only [JsonTree.map,hms]

theorem sent_num (x : Double) (h : x.isFinite=true) : Sent (.leaf (.float x)) (Js.num x) := by
  cases x with
  | infinity b => simp [Double.isFinite] at h
  | nan => simp [Double.isFinite] at h
  | _ => exact ⟨.leaf (.float _),rfl,rfl,rfl⟩

theorem sent_int (n : ℤ) (hn : Exact n) : Sent (Py.int n) (Js.num (.integral n hn)) := by
  have hw : dumpsLeaf (.int n)=.keep (.int n) := if_pos (fewDigits_exact n hn)
  refine ⟨.leaf (.int n),?_,rfl,?_⟩
  · simp only [JsonTree.write,hw,JsonTree.Slot.map]
  · simp only [JsonTree.map,jsOfDoc,ofInt_exact n hn]

theorem Zod.sent_leaf (hdump : DumpLaws dump) (s : Zod) (a : JsLeaf) (h : s.holds (.leaf a)=true) :
    Sent (dump s (.leaf a)) (s.filled (.leaf a)) := by
  cases s with
  | str => cases a with
    | str v =>
      rw [hdump.str]
      exact ⟨.leaf (.str v),rfl,rfl,rfl⟩
    | _ => simp [Zod.holds] at h
  | num => cases a with
    | num x =>
      rw [hdump.num x h]
      exact sent_num x h
    | _ => simp [Zod.holds] at h
  | int => cases a with
    | num x => cases x with
      | integral n hn =>
        rw [hdump.int]
        exact sent_int n hn
      | _ => simp [Zod.holds] at h
    | _ => simp [Zod.holds] at h
  | bool => cases a with
    | bool b =>
      rw [hdump.bool]
      exact ⟨.leaf (.bool b),rfl,rfl,rfl⟩
    | _ => simp [Zod.holds] at h
  | null => cases a with
    | null =>
      rw [hdump.null]
      exact sent_null
    | _ => simp [Zod.holds] at h
  | arr e => simp [Zod.holds] at h
  | obj shape => simp [Zod.holds] at h

mutual
theorem Zod.sent (hdump : DumpLaws dump) (s : Zod) (v : JsVal) (hl : s.Legal) (h : s.holds v=true) :
    Sent (dump s v) (s.filled v) := by
  cases v with
  | leaf a => exact s.sent_leaf hdump a h
  | arr xs =>
    cases s with
    | arr e =>
      simp only [Zod.holds,List.all_eq_true] at h
      rw [hdump.arr]
      exact sent_arr e xs fun x hx => e.sent hdump x hl (h x hx)
    | _ => simp [Zod.holds] at h
  | obj fs =>
    cases s with
    | obj shape =>
      obtain ⟨ds,hds,hss,hms⟩ := shape.sent hdump fs hl h
      rw [hdump.obj shape fs hl h]
      refine ⟨.obj ds,?_,hss,?_⟩
      · simp only [JsonTree.write,hds]
      · simp only [Zod.filled,JsonTree.map,hms]
    | _ => simp [Zod.holds] at h
theorem Shape.sent (hdump : DumpLaws dump) (shape : Shape) (fs : List (String × JsVal)) (hl : shape.Legal)
    (h : shape.holds fs=true) : SentFields (shape.dumped dump fs) (shape.filled fs) := by
  cases shape with
  | nil => exact ⟨[],rfl,trivial,rfl⟩
  | field key optional s rest =>
    obtain ⟨_,_,hs,hrest⟩ := hl
    cases fs with
    | nil =>
      simp only [Shape.holds,Bool.and_eq_true] at h
      exact sentFields_cons key _ _ _ _ sent_null (rest.sent hdump [] hrest h.2)
    | cons kv fs =>
      obtain ⟨k,v⟩ := kv
      simp only [Shape.holds,Shape.dumped,Shape.filled] at h ⊢
      by_cases hk : k=key
      · simp only [hk,if_true,Bool.and_eq_true] at h ⊢
        exact sentFields_cons key _ _ _ _ (s.sent hdump v hs h.1) (rest.sent hdump fs hrest h.2)
      · simp only [hk,if_false,Bool.and_eq_true] at h ⊢
        exact sentFields_cons key _ _ _ _ sent_null (rest.sent hdump _ hrest h.2)
end

theorem fromPython_sent (p : PyVal) (v : JsVal) (h : Sent p v) : fromPython p=some v := by
  obtain ⟨d,hd,hs,hm⟩ := h
  simp only [fromPython,jsonDumps,hd,Option.bind_some,jsonParse_standard d hs,hm]

/-! ### What the server parses -/

theorem Zod.filled_ne_undefined (s : Zod) (v : JsVal) (h : s.holds v=true) :
    s.filled v≠Js.undefined := by
  cases v with
  | leaf a =>
    have hf : s.filled (.leaf a)=.leaf a := by cases s <;> rfl
    rw [hf]
    intro ha
    cases ha
    cases s <;> simp [Zod.holds] at h
  | arr xs => cases s <;> simp [Zod.holds,Zod.filled] at h ⊢
  | obj fs => cases s <;> simp [Zod.holds,Zod.filled] at h ⊢

theorem Shape.filled_keys (shape : Shape) (fs : List (String × JsVal)) :
    (shape.filled fs).map Prod.fst=shape.keys := by
  cases shape with
  | nil => rfl
  | field key optional s rest =>
    cases fs with
    | nil => simp only [Shape.filled,Shape.keys,List.map_cons,rest.filled_keys]
    | cons kv fs =>
      obtain ⟨k,v⟩ := kv
      simp only [Shape.filled,Shape.keys]
      split <;> simp only [List.map_cons,rest.filled_keys]

theorem Shape.keys_nodup (shape : Shape) (h : shape.Legal) : shape.keys.Nodup := by
  cases shape with
  | nil => exact List.nodup_nil
  | field key optional s rest =>
    obtain ⟨_,hkey,_,hrest⟩ := h
    exact List.nodup_cons.mpr ⟨hkey,rest.keys_nodup hrest⟩

theorem Shape.filled_values (shape : Shape) (fs : List (String × JsVal)) (h : shape.holds fs=true) :
    ∀ kv∈shape.filled fs, kv.2≠Js.undefined := by
  cases shape with
  | nil =>
    intro kv hkv
    cases hkv
  | field key optional s rest =>
    cases fs with
    | nil =>
      simp only [Shape.holds,Bool.and_eq_true] at h
      exact List.forall_mem_cons.mpr ⟨by simp,rest.filled_values [] h.2⟩
    | cons kv fs =>
      obtain ⟨k,v⟩ := kv
      simp only [Shape.holds,Shape.filled] at h ⊢
      by_cases hk : k=key
      · simp only [hk,if_true,Bool.and_eq_true] at h ⊢
        exact List.forall_mem_cons.mpr ⟨s.filled_ne_undefined v h.1,rest.filled_values fs h.2⟩
      · simp only [hk,if_false,Bool.and_eq_true] at h ⊢
        exact List.forall_mem_cons.mpr ⟨by simp,rest.filled_values _ h.2⟩

variable {parse : Zod → JsVal → Option JsVal}

theorem Zod.parse_leaf (hparse : ZodLaws parse) (s : Zod) (a : JsLeaf) (h : s.holds (.leaf a)=true) :
    parse s (s.filled (.leaf a))=some (.leaf a) := by
  cases s with
  | str => cases a with
    | str v => exact hparse.str v
    | _ => simp [Zod.holds] at h
  | num => cases a with
    | num x => exact hparse.num x h
    | _ => simp [Zod.holds] at h
  | int => cases a with
    | num x => cases x with
      | integral n hn => exact hparse.int n hn
      | _ => simp [Zod.holds] at h
    | _ => simp [Zod.holds] at h
  | bool => cases a with
    | bool b => exact hparse.bool b
    | _ => simp [Zod.holds] at h
  | null => cases a with
    | null => exact hparse.null
    | _ => simp [Zod.holds] at h
  | arr e => simp [Zod.holds] at h
  | obj shape => simp [Zod.holds] at h

theorem parse_arr_iff (e : Zod) (xs : List JsVal)
    (h : ∀ x∈xs, (parse e (e.filled x)=some x ↔ e.Complete x)) :
    (xs.map e.filled).mapM (parse e)=some xs ↔ ∀ x∈xs, e.Complete x := by
  induction xs with
  | nil => simp
  | cons x xs ih =>
    have hx := h x List.mem_cons_self
    have hxs := ih fun y hy => h y (List.mem_cons_of_mem _ hy)
    rw [List.forall_mem_cons,← hx,← hxs,List.map_cons,List.mapM_cons]
    cases parse e (e.filled x) <;> cases (xs.map e.filled).mapM (parse e) <;> simp

theorem Shape.parsed_field_iff (key : String) (optional : Bool) (s : Zod) (rest : Shape)
    (k : String) (v w : JsVal) (all out : List (String × JsVal)) (hm : member all key=some w) :
    (Shape.field key optional s rest).parsed parse all=some ((k,v)::out) ↔
      k=key ∧ parse s w=some v ∧ rest.parsed parse all=some out := by
  simp only [Shape.parsed,hm,parseKey]
  cases parse s w <;> cases rest.parsed parse all <;> simp [eq_comm,and_assoc]

theorem Shape.parsed_field_ne_nil (key : String) (optional : Bool) (s : Zod) (rest : Shape)
    (w : JsVal) (all : List (String × JsVal)) (hm : member all key=some w) :
    (Shape.field key optional s rest).parsed parse all≠some [] := by
  simp only [Shape.parsed,hm,parseKey]
  cases parse s w <;> cases rest.parsed parse all <;> simp

theorem member_fields {fs : List (String × JsVal)} (h : (fs.map Prod.fst).Nodup) {key : String}
    {v : JsVal} (hm : (key,v)∈fs) : member fs key=some v := by
  rw [member,Assoc.lookup_reverse_iff_mem _ h]
  exact hm

mutual
/- The server parses what arrives to the value sent exactly when that value omits
no field. -/
theorem Zod.parse_filled_iff (hparse : ZodLaws parse) (s : Zod) (v : JsVal) (hl : s.Legal)
    (h : s.holds v=true) : parse s (s.filled v)=some v ↔ s.Complete v := by
  cases v with
  | leaf a =>
    refine iff_of_true (s.parse_leaf hparse a h) ?_
    cases s <;> trivial
  | arr xs =>
    cases s with
    | arr e =>
      simp only [Zod.holds,List.all_eq_true] at h
      have key := parse_arr_iff e xs fun x hx => e.parse_filled_iff hparse x hl (h x hx)
      simp only [Zod.filled,hparse.arr,Zod.Complete,← key]
      cases (xs.map e.filled).mapM (parse e) <;> simp
    | _ => simp [Zod.holds] at h
  | obj fs =>
    cases s with
    | obj shape =>
      have hnodup : ((shape.filled fs).map Prod.fst).Nodup := by
        rw [shape.filled_keys]
        exact shape.keys_nodup hl
      have key := shape.parsed_filled_iff hparse fs (shape.filled fs) hl h hnodup fun _ hkv => hkv
      rw [Zod.filled,hparse.obj shape _ hl hnodup (shape.filled_values fs h),Zod.Complete,← key]
      cases shape.parsed parse (shape.filled fs) <;> simp
    | _ => simp [Zod.holds] at h
theorem Shape.parsed_filled_iff (hparse : ZodLaws parse) (shape : Shape) (fs all : List (String × JsVal))
    (hl : shape.Legal) (h : shape.holds fs=true) (hall : (all.map Prod.fst).Nodup)
    (hm : ∀ kv∈shape.filled fs, kv∈all) : shape.parsed parse all=some fs ↔ shape.Complete fs := by
  cases shape with
  | nil =>
    simp only [Shape.holds,List.isEmpty_iff] at h
    simp [Shape.parsed,Shape.Complete,h]
  | field key optional s rest =>
    obtain ⟨_,_,hs,hrest⟩ := hl
    cases fs with
    | nil =>
      simp only [Shape.filled] at hm
      have hkey := member_fields hall (hm _ List.mem_cons_self)
      exact iff_of_false (Shape.parsed_field_ne_nil key optional s rest Js.null all hkey) not_false
    | cons kv fs =>
      obtain ⟨k,v⟩ := kv
      simp only [Shape.holds,Shape.filled] at h hm
      by_cases hk : k=key
      · subst hk
        simp only [if_true,Bool.and_eq_true] at h hm
        have hkey := member_fields hall (hm _ List.mem_cons_self)
        rw [Shape.parsed_field_iff k optional s rest k v _ all fs hkey,s.parse_filled_iff hparse v hs h.1,
          rest.parsed_filled_iff hparse fs all hrest h.2 hall fun kv hkv => hm kv (List.mem_cons_of_mem _ hkv)]
        simp [Shape.Complete]
      · simp only [hk,if_false] at hm
        have hkey := member_fields hall (hm _ List.mem_cons_self)
        rw [Shape.parsed_field_iff key optional s rest k v _ all fs hkey]
        simp [Shape.Complete,hk]
end

/-- The params of a generated proxy parse to the value they were made from exactly
when no optional field of it is omitted. -/
theorem proxyParams_iff (hparse : ZodLaws parse) (hdump : DumpLaws dump) (s : ParamsSchema) (v : s.Value) :
    proxyParams parse dump s v=some (.obj v.fields) ↔ s.shape.Complete v.fields := by
  have hs := Zod.sent hdump (.obj s.shape) (.obj v.fields) s.legal v.holds
  have hf := fromPython_sent _ _ hs
  simp only [proxyParams,hf,Option.bind_some]
  exact Zod.parse_filled_iff hparse (.obj s.shape) (.obj v.fields) s.legal v.holds

/-! ### A parser and a dump with these laws -/

mutual
def Zod.sampleParse : Zod → JsVal → Option JsVal
  | .str,Js.str v => some (Js.str v)
  | .num,Js.num x => if x=.nan then none else some (Js.num x)
  | .int,Js.num (.integral n h) => some (Js.num (.integral n h))
  | .bool,.leaf (.bool b) => some (.leaf (.bool b))
  | .null,Js.null => some Js.null
  | .arr e,.arr xs => (xs.mapM e.sampleParse).map .arr
  | .obj shape,.obj fs => (shape.sampleParse fs).map .obj
  | _,_ => none
def Shape.sampleParse : Shape → List (String × JsVal) → Option (List (String × JsVal))
  | .nil,_ => some []
  | .field key optional s rest,fs =>
    match parseKey optional s.sampleParse (member fs key),rest.sampleParse fs with
    | some none,some out => some out
    | some (some v),some out => some ((key,v)::out)
    | _,_ => none
end

mutual
def Zod.sampleDump : Zod → JsVal → PyVal
  | .str,Js.str v => Py.str v
  | .num,Js.num x => .leaf (.float x)
  | .int,Js.num (.integral n _) => Py.int n
  | .bool,.leaf (.bool b) => Py.bool b
  | .arr e,.arr xs => .arr (xs.map e.sampleDump)
  | .obj shape,.obj fs => .obj (shape.sampleDump fs)
  | _,_ => Py.null
def Shape.sampleDump : Shape → List (String × JsVal) → List (String × PyVal)
  | .nil,_ => []
  | .field key _ _ rest,[] => (key,Py.null)::rest.sampleDump []
  | .field key _ s rest,(k,v)::fs =>
    if k=key then (key,s.sampleDump v)::rest.sampleDump fs else (key,Py.null)::rest.sampleDump ((k,v)::fs)
end

theorem Shape.sampleParse_eq (shape : Shape) (fs : List (String × JsVal)) :
    shape.sampleParse fs=shape.parsed Zod.sampleParse fs := by
  cases shape with
  | nil => rfl
  | field key optional s rest =>
    rw [Shape.sampleParse,Shape.parsed,rest.sampleParse_eq]

theorem Shape.sampleDump_eq (shape : Shape) (fs : List (String × JsVal)) :
    shape.sampleDump fs=shape.dumped Zod.sampleDump fs := by
  cases shape with
  | nil => rfl
  | field key optional s rest =>
    cases fs with
    | nil => rw [Shape.sampleDump,Shape.dumped,rest.sampleDump_eq]
    | cons kv fs =>
      obtain ⟨k,v⟩ := kv
      rw [Shape.sampleDump,Shape.dumped,rest.sampleDump_eq,rest.sampleDump_eq]

theorem sampleParse_laws : ZodLaws Zod.sampleParse where
  str := fun _ => rfl
  num := by
    intro x hx
    have hnan : x≠.nan := by
      rintro rfl
      cases hx
    simp only [Zod.sampleParse,hnan,if_false]
  int := fun _ _ => rfl
  bool := fun _ => rfl
  null := rfl
  arr := fun _ _ => rfl
  obj := by
    intro shape fs _ _ _
    rw [Zod.sampleParse,shape.sampleParse_eq]
  not_null := by
    intro s hs
    cases s with
    | null => exact (hs rfl).elim
    | _ => rfl

theorem sampleDump_laws : DumpLaws Zod.sampleDump where
  str := fun _ => rfl
  num := fun _ _ => rfl
  int := fun _ _ => rfl
  bool := fun _ => rfl
  null := rfl
  arr := fun _ _ => rfl
  obj := by
    intro shape fs _ _
    rw [Zod.sampleDump,shape.sampleDump_eq]

def pingParams : ParamsSchema :=
  ⟨.field "tag" true .str .nil,by simp [Shape.Legal,Shape.keys,Zod.Legal]⟩

theorem pingParams_complete : proxyParams Zod.sampleParse Zod.sampleDump pingParams
    ⟨[("tag",Js.str "a")],rfl⟩=some (.obj [("tag",Js.str "a")]) :=
  (proxyParams_iff sampleParse_laws sampleDump_laws pingParams ⟨[("tag",Js.str "a")],rfl⟩).mpr
    ⟨rfl,trivial,trivial⟩

/- `PingParams()` is sent as `{"tag": null}`, which the server rejects. -/
theorem pingParams_none (hparse : ZodLaws parse) (hdump : DumpLaws dump) :
    proxyParams parse dump pingParams ⟨[],rfl⟩=none := by
  have hs := Zod.sent hdump (.obj pingParams.shape) (.obj []) pingParams.legal rfl
  have hobj := hparse.obj pingParams.shape [("tag",Js.null)] pingParams.legal (by simp) (by simp)
  have hnull := hparse.not_null .str (by simp)
  have hf := fromPython_sent _ (.obj [("tag",Js.null)]) hs
  simp only [proxyParams,hf,Option.bind_some,hobj]
  simp [pingParams,Shape.parsed,parseKey,hnull]

/-- The schema `z.object({tag: z.string().optional()})` and the value `{}`. -/
theorem pingParams_rejected : ZodLaws Zod.sampleParse ∧ DumpLaws Zod.sampleDump ∧
    proxyParams Zod.sampleParse Zod.sampleDump pingParams ⟨[],rfl⟩=none :=
  ⟨sampleParse_laws,sampleDump_laws,pingParams_none sampleParse_laws sampleDump_laws⟩

end Clamator.Codegen
