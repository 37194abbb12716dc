import Clamator.Base.OptionList
import Clamator.Protocol.ServerCore

/-!
# Loading and lowering contracts (`codegen/src/load.ts`, `lower.ts`, `ir.ts`)

The files of a directory export contracts; each schema is lowered to JSON Schema
and hashed. The order of files and of methods is that of the two sorts. What the
packages and the runtime give (the JSON Schema of a Zod schema, SHA-256,
`localeCompare`) is the `Toolchain`.
-/

namespace Clamator.Codegen
open Clamator.Base Clamator.Protocol

/-- `sha256` of a serialised schema; its document stands for the text. `localeCompare` is a
consistent comparison, which may call different strings equal. -/
structure Toolchain where
  version : String
  zodToJsonSchema : Schema → Option JsVal
  sha256 : Doc → String
  localeCompare : String → String → Ordering
  consistent : Std.TransCmp localeCompare

instance (T : Toolchain) : Std.TransCmp T.localeCompare := T.consistent

/-! ### Sources -/

/-- An exported value that `isContract` accepts: no name in it need be valid. -/
structure ContractValue where
  service : String
  methods : List (String × MethodDef)
  names_nodup : (methods.map Prod.fst).Nodup

inductive Export where
  | contract (c : ContractValue)
  | other

/-- `exports` in the order of the module's keys; `none` if the module does not load. -/
structure DirEntry where
  name : String
  isFile : Bool
  exports : Option (List Export)

structure LoadedContract where
  contract : ContractValue
  sourceFile : String

def DirEntry.selected (e : DirEntry) : Bool := e.isFile && ".ts".toList.isSuffixOf e.name.toList

/-- `base` is what `path.join(srcDir, name)` puts before the name. -/
def DirEntry.load (base : String) (e : DirEntry) : Option (List LoadedContract) :=
  e.exports.map fun exports => exports.filterMap fun
    | .contract c => some ⟨c,base++e.name⟩
    | .other => none

def bySourceOrder (T : Toolchain) : LoadedContract → LoadedContract → Ordering :=
  compareLex (fun a b => T.localeCompare a.contract.service b.contract.service)
    fun a b => T.localeCompare a.sourceFile b.sourceFile

/- `loadContracts(srcDir)`; `none` where an import throws. -/
def loadContracts (T : Toolchain) (base : String) (entries : List DirEntry) :
    Option (List LoadedContract) :=
  ((entries.filter DirEntry.selected).mapM (DirEntry.load base)).map fun out =>
    sortBy (bySourceOrder T) out.flatten

/-! ### The intermediate representation -/

structure IrSchema where
  jsonSchema : JsVal
  hash : String

structure IrMethod where
  name : String
  isNotification : Bool
  params : IrSchema
  result : Option IrSchema

structure IrContract where
  service : String
  sourceFile : String
  methods : List IrMethod

/- `none` where `zodToJsonSchema`, `JSON.stringify` or `update` throws. -/
def lowerSchema (T : Toolchain) (z : Schema) : Option IrSchema := match T.zodToJsonSchema z with
  | none => none
  | some jsonSchema => match jsonStringify jsonSchema with
    | .keep serialized => some ⟨jsonSchema,T.sha256 serialized⟩
    | _ => none

/-- A missing result schema makes `zodToJsonSchema` throw. -/
def lowerResult (T : Toolchain) (d : MethodDef) : Option (Option IrSchema) :=
  if d.notification then some none else match d.result.join with
    | none => none
    | some z => (lowerSchema T z).map some

def lowerMethod (T : Toolchain) (m : String × MethodDef) : Option IrMethod :=
  match lowerSchema T m.2.params,lowerResult T m.2 with
  | some params,some result => some ⟨m.1,m.2.notification,params,result⟩
  | _,_ => none

def byName (T : Toolchain) (a b : IrMethod) : Ordering := T.localeCompare a.name b.name

def byService (T : Toolchain) (a b : IrContract) : Ordering := T.localeCompare a.service b.service

instance (T : Toolchain) : Std.TransCmp (byName T) := transCmp_key T.localeCompare IrMethod.name

instance (T : Toolchain) : Std.TransCmp (byService T) :=
  transCmp_key T.localeCompare IrContract.service

def lowerContract (T : Toolchain) (l : LoadedContract) : Option IrContract :=
  (l.contract.methods.mapM (lowerMethod T)).map fun methods =>
    ⟨l.contract.service,l.sourceFile,sortBy (byName T) methods⟩

def lowerContracts (T : Toolchain) (loaded : List LoadedContract) : Option (List IrContract) :=
  (loaded.mapM (lowerContract T)).map (sortBy (byService T))

/-! ### What lowering keeps -/

theorem lowerMethod_spec (T : Toolchain) (m : String × MethodDef) (ir : IrMethod)
    (h : lowerMethod T m=some ir) : ir.name=m.1 ∧ ir.isNotification=m.2.notification ∧
      lowerSchema T m.2.params=some ir.params ∧ lowerResult T m.2=some ir.result := by
  unfold lowerMethod at h
  split at h
  · rename_i params result hp hr
    cases h
    exact ⟨rfl,rfl,hp,hr⟩
  · cases h

theorem lowerContract_spec (T : Toolchain) (l : LoadedContract) (ir : IrContract)
    (h : lowerContract T l=some ir) : ir.service=l.contract.service ∧ ir.sourceFile=l.sourceFile ∧
      ∃ methods, l.contract.methods.mapM (lowerMethod T)=some methods ∧
        ir.methods=sortBy (byName T) methods := by
  obtain ⟨methods,hm,rfl⟩ := Option.map_eq_some_iff.mp h
  exact ⟨rfl,rfl,methods,hm,rfl⟩

theorem lowered_methods (T : Toolchain) (l : LoadedContract) (c : IrContract)
    (h : lowerContract T l=some c) (ir : IrMethod) :
    ir∈c.methods ↔ ∃ m∈l.contract.methods, lowerMethod T m=some ir := by
  obtain ⟨_,_,methods,hm,hs⟩ := lowerContract_spec T l c h
  rw [hs,mem_sortBy,mem_of_mapM _ _ _ hm]

/- Where a contract lowers, each of its methods does. -/
theorem lowers_method (T : Toolchain) (l : LoadedContract) (c : IrContract)
    (h : lowerContract T l=some c) (m : String × MethodDef) (hm : m∈l.contract.methods) :
    ∃ ir, lowerMethod T m=some ir := by
  obtain ⟨_,_,methods,hmethods,_⟩ := lowerContract_spec T l c h
  exact exists_of_mapM _ _ _ hmethods m hm

/-! ### Contracts that `defineContract` made -/

def ContractValue.names (v : ContractValue) : List String := v.methods.map Prod.fst

def ContractValue.Accepted (v : ContractValue) : Prop := ∃ c, defineContract v.service v.methods=.ok c

theorem ContractValue.Accepted.valid {v : ContractValue} (h : v.Accepted) :
    serviceRe v.service.toList=true ∧ methodsProblem v.methods=none := by
  obtain ⟨c,hc⟩ := h
  obtain ⟨hs,hm⟩ := defineContract_ok hc
  exact ⟨hs ▸ c.service_ok,hm ▸ c.methods_ok⟩

theorem ContractValue.Accepted.name {v : ContractValue} (h : v.Accepted) (n : String)
    (hn : n∈v.names) : methodRe n.toList=true := by
  obtain ⟨m,hm,rfl⟩ := List.mem_map.mp hn
  exact entryProblem_name (List.findSome?_eq_none_iff.mp h.valid.2 m hm)

theorem lowerContract_names (T : Toolchain) (l : LoadedContract) (ir : IrContract)
    (h : lowerContract T l=some ir) : (ir.methods.map IrMethod.name).Perm l.contract.names := by
  obtain ⟨_,_,methods,hm,hs⟩ := lowerContract_spec T l ir h
  have hnames : methods.map IrMethod.name=l.contract.names := by
    replace hm := (mapM_eq_some_iff _ _ _).mp hm
    unfold ContractValue.names
    generalize l.contract.methods=ms at hm
    clear hs
    induction ms generalizing methods with
    | nil =>
      have hnil : methods=[] := by simpa using hm.symm
      rw [hnil]
      rfl
    | cons m ms ih => cases methods with
      | nil => simp at hm
      | cons x methods =>
        simp only [List.map_cons,List.cons.injEq] at hm ⊢
        exact ⟨(lowerMethod_spec T m x hm.1).1,ih methods hm.2⟩
  rw [hs,← hnames]
  exact (sortBy_perm _ _).map _

def lowered (s : String) : List Char := s.toList.map Char.toLower

/-- Letters and digits compare by letter first; of two forms of a letter the small one is less. -/
def asciiCompare : String → String → Ordering :=
  compareLex (fun a b => compare (lowered a) (lowered b)) fun a b => compare b.toList a.toList

theorem asciiCompare_trans : Std.TransCmp asciiCompare :=
  have : Std.TransCmp fun a b => compare (lowered a) (lowered b) := transCmp_key compare lowered
  have : Std.TransCmp fun a b : String => compare b.toList a.toList :=
    transCmp_key (fun a b => compare b a) String.toList
  inferInstanceAs (Std.TransCmp (compareLex _ _))

theorem asciiCompare_lawful : Std.LawfulEqCmp asciiCompare where
  toReflCmp := have := asciiCompare_trans; inferInstance
  eq_of_compare := fun {a b} h => by
    have heq : b.toList=a.toList := Std.LawfulEqCmp.eq_of_compare (compareLex_eq_eq.mp h).2
    exact String.toList_inj.mp heq.symm

/- The JSON Schema of `z.object({})` for every schema. -/
def emptyObjectSchema : JsVal :=
  .obj [("type",Js.str "object"),("properties",.obj []),("additionalProperties",.leaf (.bool false)),
    ("$schema",Js.str "http://json-schema.org/draft-07/schema#")]

def emptyObjects : Toolchain where
  version := "0.1.7"
  zodToJsonSchema := fun _ => some emptyObjectSchema
  sha256 := fun _ => "6c9f16e97bc4049d69d6b4679008d06cc12612156d3db99d0dec1fee3d320091"
  localeCompare := asciiCompare
  consistent := asciiCompare_trans

/-- A notification with any params. -/
def noted : MethodDef := ⟨.ok,none,true⟩

def notedMethod (name : String) : IrMethod :=
  ⟨name,true,⟨emptyObjectSchema,emptyObjects.sha256 (.leaf .null)⟩,none⟩

theorem lowerContract_noted (v : ContractValue) (h : ∀ m∈v.methods, m.2=noted) (file : String) :
    lowerContract emptyObjects ⟨v,file⟩=
      some ⟨v.service,file,sortBy (byName emptyObjects) (v.names.map notedMethod)⟩ := by
  have hall : v.methods.mapM (lowerMethod emptyObjects)=some (v.names.map notedMethod) := by
    rw [ContractValue.names,List.map_map]
    refine mapM_eq_map _ _ _ fun m hm => ?_
    obtain ⟨name,d⟩ := m
    have hd : d=noted := h _ hm
    subst hd
    rfl
  rw [lowerContract,hall]
  rfl

end Clamator.Codegen
