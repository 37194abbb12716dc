import Clamator.Base.JsonText
import Clamator.Codegen.Emit

/-!
# The manifest (`codegen/src/manifest.ts`)

An object for each service with the schema hashes of its methods, assigned service
after service and method after method, and written with its own keys: those that
are array indices first, the others in the order of their first assignment. An
assignment to `__proto__` makes no own key.
-/

namespace Clamator.Codegen
open Clamator.Base Clamator.Protocol
open Clamator.Base.JsonTree (member)

abbrev ManifestTree := JsonTree (Option String)

/-! ### Objects -/

/- `object[key] = v` on the own keys -/
def assignKey (m : List (String × ManifestTree)) (kv : String × ManifestTree) :
    List (String × ManifestTree) := if kv.1="__proto__" then m else Assoc.assign m kv.1 kv.2

def assignKeys (kvs : List (String × ManifestTree)) : List (String × ManifestTree) :=
  kvs.foldl assignKey []

def arrayIndex (key : String) : Option ℕ := match key.toNat? with
  | some n => if toString n=key ∧ n < 4294967295 then some n else none
  | none => none

def byIndex (a b : String × ManifestTree) : Ordering :=
  compare ((arrayIndex a.1).getD 0) ((arrayIndex b.1).getD 0)

/-- The own entries of an object in the order in which `JSON.stringify` writes them. -/
def ownEntries (m : List (String × ManifestTree)) : List (String × ManifestTree) :=
  sortBy byIndex (m.filter fun kv => (arrayIndex kv.1).isSome)++
    m.filter fun kv => !(arrayIndex kv.1).isSome

theorem assignKeys_eq (kvs : List (String × ManifestTree)) :
    assignKeys kvs=Assoc.assignAll [] (kvs.filter fun kv => decide (kv.1≠"__proto__")) := by
  unfold assignKeys Assoc.assignAll
  rw [List.foldl_filter]
  refine congrArg (fun f => List.foldl f [] kvs) (funext fun m => funext fun kv => ?_)
  unfold assignKey
  by_cases h : kv.1="__proto__" <;> simp [h]

theorem assignKeys_nodup (kvs : List (String × ManifestTree)) :
    ((assignKeys kvs).map Prod.fst).Nodup := by
  rw [assignKeys_eq]
  exact Assoc.assignAll_nodup _ [] List.nodup_nil

theorem ownEntries_perm (m : List (String × ManifestTree)) : (ownEntries m).Perm m := by
  refine ((sortBy_perm byIndex _).append_right _).trans ?_
  exact List.filter_append_perm _ m

theorem member_ownEntries (m : List (String × ManifestTree)) (h : (m.map Prod.fst).Nodup)
    (key : String) : member (ownEntries m) key=m.lookup key := by
  have hperm := ownEntries_perm m
  have hn : ((ownEntries m).map Prod.fst).Nodup := (hperm.map Prod.fst).nodup_iff.mpr h
  refine Option.ext fun v => ?_
  rw [JsonTree.member,Assoc.lookup_reverse_iff_mem _ hn,Assoc.lookup_iff_mem _ h,hperm.mem_iff]

theorem member_assignKeys (kvs : List (String × ManifestTree)) (key : String) (h : key≠"__proto__") :
    member (ownEntries (assignKeys kvs)) key=kvs.reverse.lookup key := by
  rw [member_ownEntries _ (assignKeys_nodup kvs),assignKeys_eq,Assoc.lookup_assignAll,
    List.lookup_nil,Option.or_none,← List.filter_reverse]
  induction kvs.reverse with
  | nil => rfl
  | cons kv l ih =>
    obtain ⟨k,v⟩ := kv
    rw [List.filter_cons,List.lookup_cons]
    by_cases hk : k="__proto__"
    · have hb : (key == k)=false := by simp [hk,h]
      simp only [hk,ne_eq,not_true,decide_false,Bool.false_eq_true,if_false,ih]
      rw [← hk,hb]
    · simp only [ne_eq,hk,not_false_eq_true,decide_true,if_true,List.lookup_cons,ih]

theorem member_assignKeys_proto (kvs : List (String × ManifestTree)) :
    member (ownEntries (assignKeys kvs)) "__proto__"=none := by
  rw [member_ownEntries _ (assignKeys_nodup kvs),assignKeys_eq,Assoc.lookup_assignAll,
    List.lookup_nil,Option.or_none,List.lookup_eq_none_iff]
  intro kv hkv
  have := (List.mem_filter.mp (List.mem_reverse.mp hkv)).2
  simp at this
  simp [Ne.symm this]

/-! ### The file -/

def manifestEntry (m : IrMethod) : ManifestTree :=
  .obj [("paramsHash",.leaf (some m.params.hash)),("resultHash",.leaf (m.result.map IrSchema.hash))]

def serviceEntry (c : IrContract) : ManifestTree :=
  .obj (ownEntries (assignKeys (c.methods.map fun m => (m.name,manifestEntry m))))

def manifestTree (T : Toolchain) (contracts : List IrContract) : ManifestTree :=
  .obj [("generatedBy",.leaf (some ("@clamator/codegen v"++T.version))),
    ("contracts",.obj (ownEntries (assignKeys (contracts.map fun c => (c.service,serviceEntry c)))))]

def manifestText (tree : ManifestTree) : String :=
  String.ofList (JsonText.pretty JsonText.textLeaves 0 tree++['\n'])

/- What `writeManifest` writes. -/
def writeManifest (T : Toolchain) (contracts : List IrContract) : String :=
  manifestText (manifestTree T contracts)

theorem manifestText_injective (t t' : ManifestTree) (h : manifestText t=manifestText t') : t=t' := by
  have hl := congrArg String.toList h
  simp only [manifestText,String.toList_ofList] at hl
  exact JsonText.pretty_injective _ 0 _ _ (List.append_cancel_right hl)

/-- `manifest.contracts[service][name]`, where each is an own key. -/
def entryAt (service name : String) : ManifestTree → Option ManifestTree
  | .obj fs => match member fs "contracts" with
    | some (.obj services) => match member services service with
      | some (.obj methods) => member methods name
      | _ => none
    | _ => none
  | _ => none

/- The last contract that names the service. -/
def lastNamed (service : String) (contracts : List IrContract) : Option IrContract :=
  (contracts.filter fun c => decide (c.service=service)).getLast?

theorem entryAt_manifest (T : Toolchain) (contracts : List IrContract) (service name : String) :
    entryAt service name (manifestTree T contracts)=
      match member (ownEntries (assignKeys (contracts.map fun c => (c.service,serviceEntry c)))) service with
      | some (.obj methods) => member methods name
      | _ => none := rfl

theorem entryAt_eq (T : Toolchain) (contracts : List IrContract) (service name : String)
    (hs : service≠"__proto__") (hn : name≠"__proto__") :
    entryAt service name (manifestTree T contracts)=(lastNamed service contracts).bind fun c =>
      (c.methods.filter fun m => decide (m.name=name)).getLast?.map manifestEntry := by
  rw [entryAt_manifest,member_assignKeys _ service hs,Assoc.lookup_reverse_map]
  unfold lastNamed
  cases (contracts.filter fun c => decide (c.service=service)).getLast? with
  | none => rfl
  | some c =>
    simp only [Option.map_some,Option.bind_some,serviceEntry,member_assignKeys _ name hn,
      Assoc.lookup_reverse_map]

theorem entryAt_proto (T : Toolchain) (contracts : List IrContract) (service name : String)
    (h : service="__proto__" ∨ name="__proto__") :
    entryAt service name (manifestTree T contracts)=none := by
  rw [entryAt_manifest]
  by_cases hs : service="__proto__"
  · rw [hs,member_assignKeys_proto]
  · have hn : name="__proto__" := h.resolve_left hs
    rw [member_assignKeys _ service hs,Assoc.lookup_reverse_map]
    cases (contracts.filter fun c => decide (c.service=service)).getLast? with
    | none => rfl
    | some c => simp only [Option.map_some,serviceEntry,hn,member_assignKeys_proto]

/-! ### Documents behind the hashes -/

/- The lowered schema as it is serialised. -/
def schemaDoc (T : Toolchain) (z : Schema) : Option Doc :=
  (T.zodToJsonSchema z).bind fun jsonSchema => match jsonStringify jsonSchema with
    | .keep d => some d
    | _ => none

def resultDoc (T : Toolchain) (d : MethodDef) : Option Doc :=
  if d.notification then none else d.result.join.bind (schemaDoc T)

theorem lowerSchema_hash (T : Toolchain) (z : Schema) (s : IrSchema) (h : lowerSchema T z=some s) :
    ∃ doc, schemaDoc T z=some doc ∧ s.hash=T.sha256 doc := by
  unfold lowerSchema at h
  unfold schemaDoc
  cases hz : T.zodToJsonSchema z with
  | none =>
    rw [hz] at h
    cases h
  | some j =>
    rw [hz] at h
    simp only at h
    split at h
    · rename_i d hd
      cases h
      exact ⟨d,by simp [hd],rfl⟩
    · cases h

theorem lowerResult_hash (T : Toolchain) (d : MethodDef) (r : Option IrSchema)
    (h : lowerResult T d=some r) : (resultDoc T d).map T.sha256=r.map IrSchema.hash ∧
      (r=none ↔ d.notification=true) ∧ (resultDoc T d=none ↔ d.notification=true) := by
  unfold lowerResult at h
  unfold resultDoc
  cases hn : d.notification with
  | true =>
    rw [hn,if_pos rfl] at h
    cases h
    simp
  | false =>
    rw [hn,if_neg Bool.false_ne_true] at h
    cases hr : d.result.join with
    | none =>
      rw [hr] at h
      cases h
    | some z =>
      rw [hr] at h
      obtain ⟨s,hs,rfl⟩ := Option.map_eq_some_iff.mp h
      obtain ⟨doc,hdoc,hhash⟩ := lowerSchema_hash T z s hs
      simp [hdoc,hhash]

/-- The same kind and the same lowered schemas. -/
structure SameMethod (T : Toolchain) (d d' : MethodDef) : Prop where
  kind : d.notification=d'.notification
  params : schemaDoc T d.params=schemaDoc T d'.params
  result : resultDoc T d=resultDoc T d'

/- The serialised schemas of a collection. -/
def Docs (T : Toolchain) (loaded : List LoadedContract) : Set Doc :=
  {doc | ∃ l∈loaded, ∃ m∈l.contract.methods, schemaDoc T m.2.params=some doc ∨ resultDoc T m.2=some doc}

end Clamator.Codegen
