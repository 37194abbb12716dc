import Clamator.Codegen.Manifest
import Mathlib.Data.List.Nodup
import Mathlib.Data.Set.Function

/-!
# What the manifest tells apart (`codegen/src/lower.ts`, `manifest.ts`)

The entry of a service is made anew for each contract that names it, so the last
one is the entry that the manifest has.
-/

namespace Clamator.Codegen
open Clamator.Base Clamator.Protocol

variable {T : Toolchain}

/- The last loaded contract that names the service. -/
def lastLoaded (service : String) (loaded : List LoadedContract) : Option LoadedContract :=
  (loaded.filter fun l => decide (l.contract.service=service)).getLast?

/-- The manifest has the method under the service, with the hashes of its own schemas; the
hash of the result is null exactly for a notification. -/
def Recorded (T : Toolchain) (text service : String) (m : String × MethodDef) : Prop :=
  ∃ tree ir, text=manifestText tree ∧ lowerMethod T m=some ir ∧
    entryAt service m.1 tree=some (manifestEntry ir) ∧ (ir.result=none ↔ m.2.notification=true)

/-- No service and no method is called `__proto__`, and the last contract that names a service
has every method that one of them has, with the same kind and schemas. -/
def LastHasAll (T : Toolchain) (loaded : List LoadedContract) : Prop :=
  ∀ l∈loaded, ∀ m∈l.contract.methods, l.contract.service≠"__proto__" ∧ m.1≠"__proto__" ∧
    ∃ last d, lastLoaded l.contract.service loaded=some last ∧ (m.1,d)∈last.contract.methods ∧
      SameMethod T m.2 d

/-- Some loaded contract has the method, of the kind and with the serialised schemas given. -/
def Defines (T : Toolchain) (loaded : List LoadedContract) (service name : String)
    (isNotification : Bool) (params result : Option Doc) : Prop :=
  ∃ l∈loaded, l.contract.service=service ∧ ∃ d, (name,d)∈l.contract.methods ∧
    d.notification=isNotification ∧ schemaDoc T d.params=params ∧ resultDoc T d=result

/- It suffices that the last contract has the methods of the others as they are. -/
theorem lastHasAll_of_subset {loaded : List LoadedContract}
    (hn : ∀ l∈loaded, l.contract.service≠"__proto__" ∧ ∀ m∈l.contract.methods, m.1≠"__proto__")
    (hs : ∀ l∈loaded, ∃ last, lastLoaded l.contract.service loaded=some last ∧
      l.contract.methods⊆last.contract.methods) : LastHasAll T loaded := by
  intro l hl m hm
  obtain ⟨last,hlast,hsub⟩ := hs l hl
  exact ⟨(hn l hl).1,(hn l hl).2 m hm,last,m.2,hlast,hsub hm,rfl,rfl,rfl⟩

/-! ### From loaded contracts to entries -/

theorem lowered_last (loaded : List LoadedContract) (irs : List IrContract) (service : String)
    (h : lowerContracts T loaded=some irs) :
    lastNamed service irs=(lastLoaded service loaded).bind (lowerContract T) := by
  obtain ⟨cs,hcs,rfl⟩ := Option.map_eq_some_iff.mp h
  have hlower : ∀ l c, lowerContract T l=some c → decide (l.contract.service=service)=
      decide (c.service=service) := fun l c hc => by rw [(lowerContract_spec T l c hc).1]
  rw [lastNamed,lastLoaded,← getLast?_of_mapM _ _ _ (mapM_filter _ _ _ loaded cs hlower hcs)]
  by_cases hx : ∃ x : IrContract, x.service=service
  · obtain ⟨x,hx⟩ := hx
    rw [filter_sortBy (byService T) _ x fun y hy => ?_]
    have hy : y.service=service := by simpa using hy
    rw [byService,hx,hy]
    exact Std.ReflCmp.compare_self
  · have hnone : ∀ l : List IrContract, l.filter (fun c => decide (c.service=service))=[] := fun l => by
      simp only [List.filter_eq_nil_iff,decide_eq_true_eq]
      exact fun c _ hc => hx ⟨c,hc⟩
    rw [hnone,hnone]

/- Names in a contract differ, so a name has one method. -/
theorem methodNamed_iff (l : LoadedContract) (c : IrContract) (h : lowerContract T l=some c)
    (name : String) (ir : IrMethod) :
    (c.methods.filter fun m => decide (m.name=name)).getLast?=some ir ↔
      ∃ d, (name,d)∈l.contract.methods ∧ lowerMethod T (name,d)=some ir := by
  have hnodup : (c.methods.map IrMethod.name).Nodup :=
    (lowerContract_names T l c h).nodup_iff.mpr l.contract.names_nodup
  have hfilter : (c.methods.filter fun m => decide (m.name=name)).getLast?=some ir ↔
      ir∈c.methods ∧ ir.name=name := by
    constructor
    · intro hl
      have := List.mem_filter.mp (List.mem_of_getLast? hl)
      exact ⟨this.1,by simpa using this.2⟩
    · rintro ⟨hm,rfl⟩
      have hlook := (Assoc.lookup_iff_mem (c.methods.reverse.map fun m => (m.name,m)) (by
        rw [List.map_map]
        have : (c.methods.reverse.map IrMethod.name).Nodup := by
          rw [List.map_reverse]
          exact List.nodup_reverse.mpr hnodup
        exact this) ir.name ir).mpr (List.mem_map.mpr ⟨ir,List.mem_reverse.mpr hm,rfl⟩)
      rw [List.map_reverse,Assoc.lookup_reverse_map c.methods IrMethod.name (fun m => m)] at hlook
      simpa using hlook
  rw [hfilter,lowered_methods T l c h]
  constructor
  · rintro ⟨⟨m,hm,hlow⟩,rfl⟩
    obtain ⟨n,d⟩ := m
    have hname := (lowerMethod_spec T (n,d) ir hlow).1
    rw [hname]
    exact ⟨d,hm,hlow⟩
  · rintro ⟨d,hm,hlow⟩
    exact ⟨⟨(name,d),hm,hlow⟩,(lowerMethod_spec T (name,d) ir hlow).1⟩

/-- The manifest's entry is that of the last contract of the service. -/
theorem entryAt_lowered (loaded : List LoadedContract) (irs : List IrContract) (service name : String)
    (h : lowerContracts T loaded=some irs) (hs : service≠"__proto__") (hn : name≠"__proto__")
    (entry : ManifestTree) : entryAt service name (manifestTree T irs)=some entry ↔
      ∃ last d ir, lastLoaded service loaded=some last ∧ (name,d)∈last.contract.methods ∧
        lowerMethod T (name,d)=some ir ∧ manifestEntry ir=entry := by
  rw [entryAt_eq T irs service name hs hn,lowered_last loaded irs service h,Option.bind_eq_some_iff]
  constructor
  · rintro ⟨c,hc,he⟩
    obtain ⟨last,hlast,hlower⟩ := Option.bind_eq_some_iff.mp hc
    obtain ⟨ir,hir,rfl⟩ := Option.map_eq_some_iff.mp he
    obtain ⟨d,hd,hlow⟩ := (methodNamed_iff last c hlower name ir).mp hir
    exact ⟨last,d,ir,hlast,hd,hlow,rfl⟩
  · rintro ⟨last,d,ir,hlast,hd,hlow,rfl⟩
    obtain ⟨cs,hcs,_⟩ := Option.map_eq_some_iff.mp h
    have hmem : last∈loaded := (List.mem_filter.mp (List.mem_of_getLast? hlast)).1
    obtain ⟨c,hc⟩ := exists_of_mapM _ _ _ hcs last hmem
    refine ⟨c,by rw [hlast,Option.bind_some,hc],?_⟩
    rw [(methodNamed_iff last c hc name ir).mpr ⟨d,hd,hlow⟩]
    rfl

/-! ### Entries and schemas -/

theorem manifestEntry_eq_iff (ir ir' : IrMethod) : manifestEntry ir=manifestEntry ir' ↔
    ir.params.hash=ir'.params.hash ∧ ir.result.map IrSchema.hash=ir'.result.map IrSchema.hash := by
  simp [manifestEntry]

theorem lowered_hashes (m : String × MethodDef) (ir : IrMethod) (h : lowerMethod T m=some ir) :
    (schemaDoc T m.2.params).map T.sha256=some ir.params.hash ∧
      (resultDoc T m.2).map T.sha256=ir.result.map IrSchema.hash ∧
      (ir.result=none ↔ m.2.notification=true) ∧ (resultDoc T m.2=none ↔ m.2.notification=true) := by
  obtain ⟨_,_,hp,hr⟩ := lowerMethod_spec T m ir h
  obtain ⟨doc,hdoc,hhash⟩ := lowerSchema_hash T _ _ hp
  obtain ⟨hres,hnone,hdocs⟩ := lowerResult_hash T _ _ hr
  exact ⟨by rw [hdoc,hhash]; rfl,hres,hnone,hdocs⟩

theorem map_injOn {S : Set Doc} (hinj : Set.InjOn T.sha256 S) (x y : Option Doc)
    (hx : ∀ d, x=some d → d∈S) (hy : ∀ d, y=some d → d∈S) (h : x.map T.sha256=y.map T.sha256) : x=y := by
  cases x with
  | none => cases y with
    | none => rfl
    | some e => cases h
  | some d => cases y with
    | none => cases h
    | some e =>
      simp only [Option.map_some,Option.some.injEq] at h
      rw [hinj (hx d rfl) (hy e rfl) h]

theorem entry_of_same (m m' : String × MethodDef) (ir ir' : IrMethod) (h : lowerMethod T m=some ir)
    (h' : lowerMethod T m'=some ir') (hsame : SameMethod T m.2 m'.2) :
    manifestEntry ir=manifestEntry ir' := by
  obtain ⟨hp,hr,_⟩ := lowered_hashes m ir h
  obtain ⟨hp',hr',_⟩ := lowered_hashes m' ir' h'
  rw [manifestEntry_eq_iff,← Option.some.injEq,← hp,← hp',← hr,← hr',hsame.params,hsame.result]
  exact ⟨rfl,rfl⟩

/- Where the hash tells the documents apart, entries tell methods apart. -/
theorem same_of_entry {S : Set Doc} (hinj : Set.InjOn T.sha256 S) (m m' : String × MethodDef)
    (ir ir' : IrMethod) (h : lowerMethod T m=some ir) (h' : lowerMethod T m'=some ir')
    (hS : ∀ doc, schemaDoc T m.2.params=some doc ∨ resultDoc T m.2=some doc → doc∈S)
    (hS' : ∀ doc, schemaDoc T m'.2.params=some doc ∨ resultDoc T m'.2=some doc → doc∈S)
    (heq : manifestEntry ir=manifestEntry ir') : SameMethod T m.2 m'.2 := by
  obtain ⟨hp,hr,_,hk⟩ := lowered_hashes m ir h
  obtain ⟨hp',hr',_,hk'⟩ := lowered_hashes m' ir' h'
  rw [manifestEntry_eq_iff,← Option.some.injEq,← hp,← hp',← hr,← hr'] at heq
  have hparams := map_injOn hinj _ _ (fun d hd => hS d (Or.inl hd)) (fun d hd => hS' d (Or.inl hd)) heq.1
  have hresult := map_injOn hinj _ _ (fun d hd => hS d (Or.inr hd)) (fun d hd => hS' d (Or.inr hd)) heq.2
  refine ⟨?_,hparams,hresult⟩
  rw [Bool.eq_iff_iff,← hk,← hk',hresult]

theorem docs_of_mem (loaded : List LoadedContract) (l : LoadedContract) (hl : l∈loaded)
    (m : String × MethodDef) (hm : m∈l.contract.methods) (doc : Doc)
    (h : schemaDoc T m.2.params=some doc ∨ resultDoc T m.2=some doc) : doc∈Docs T loaded :=
  ⟨l,hl,m,hm,h⟩

theorem mem_of_lastLoaded {loaded : List LoadedContract} {service : String} {last : LoadedContract}
    (h : lastLoaded service loaded=some last) : last∈loaded ∧ last.contract.service=service := by
  have := List.mem_filter.mp (List.mem_of_getLast? h)
  exact ⟨this.1,by simpa using this.2⟩

theorem lowers_of_mem (loaded : List LoadedContract) (irs : List IrContract)
    (h : lowerContracts T loaded=some irs) (l : LoadedContract) (hl : l∈loaded)
    (m : String × MethodDef) (hm : m∈l.contract.methods) : ∃ ir, lowerMethod T m=some ir := by
  obtain ⟨cs,hcs,_⟩ := Option.map_eq_some_iff.mp h
  obtain ⟨c,hc⟩ := exists_of_mapM _ _ _ hcs l hl
  exact lowers_method T l c hc m hm

/-! ### Drift -/

theorem recorded_iff_entryAt (irs : List IrContract) (service : String) (m : String × MethodDef) :
    Recorded T (writeManifest T irs) service m ↔ ∃ ir, lowerMethod T m=some ir ∧
      entryAt service m.1 (manifestTree T irs)=some (manifestEntry ir) := by
  constructor
  · rintro ⟨tree,ir,htext,hlow,he,_⟩
    rw [← manifestText_injective _ _ htext] at he
    exact ⟨ir,hlow,he⟩
  · rintro ⟨ir,hlow,he⟩
    exact ⟨_,ir,rfl,hlow,he,(lowered_hashes m ir hlow).2.2.1⟩

/- The method is that of the last contract. -/
def InLast (T : Toolchain) (loaded : List LoadedContract) (service : String) (m : String × MethodDef) :
    Prop := service≠"__proto__" ∧ m.1≠"__proto__" ∧ ∃ last d,
  lastLoaded service loaded=some last ∧ (m.1,d)∈last.contract.methods ∧ SameMethod T m.2 d

section
variable (loaded : List LoadedContract) (irs : List IrContract) (h : lowerContracts T loaded=some irs)
  (l : LoadedContract) (hl : l∈loaded) (m : String × MethodDef) (hm : m∈l.contract.methods)
include h hl hm

theorem recorded_of_inLast (hlast : InLast T loaded l.contract.service m) :
    Recorded T (writeManifest T irs) l.contract.service m := by
  obtain ⟨hs,hn,last,d,hlast,hd,hsame⟩ := hlast
  obtain ⟨ir,hlow⟩ := lowers_of_mem loaded irs h l hl m hm
  obtain ⟨ir',hlow'⟩ := lowers_of_mem loaded irs h last (mem_of_lastLoaded hlast).1 _ hd
  rw [recorded_iff_entryAt]
  refine ⟨ir,hlow,(entryAt_lowered loaded irs _ _ h hs hn _).mpr ⟨last,d,ir',hlast,hd,hlow',?_⟩⟩
  exact (entry_of_same m (m.1,d) ir ir' hlow hlow' hsame).symm

theorem inLast_of_recorded (hinj : Set.InjOn T.sha256 (Docs T loaded))
    (hrec : Recorded T (writeManifest T irs) l.contract.service m) :
    InLast T loaded l.contract.service m := by
  obtain ⟨ir,hlow,he⟩ := (recorded_iff_entryAt irs _ m).mp hrec
  have hproto : ¬ (l.contract.service="__proto__" ∨ m.1="__proto__") := fun hp => by
    rw [entryAt_proto T irs _ _ hp] at he
    cases he
  rw [not_or] at hproto
  obtain ⟨last,d,ir',hlast,hd,hlow',heq⟩ :=
    (entryAt_lowered loaded irs _ _ h hproto.1 hproto.2 _).mp he
  refine ⟨hproto.1,hproto.2,last,d,hlast,hd,?_⟩
  exact same_of_entry hinj m (m.1,d) ir ir' hlow hlow' (docs_of_mem loaded l hl m hm)
    (docs_of_mem loaded last (mem_of_lastLoaded hlast).1 _ hd) heq.symm

end

/- A method that one manifest records is defined by every collection with the same manifest. -/
theorem defines_of_recorded (loaded loaded' : List LoadedContract) (irs irs' : List IrContract)
    (h : lowerContracts T loaded=some irs) (h' : lowerContracts T loaded'=some irs')
    (hinj : Set.InjOn T.sha256 (Docs T loaded ∪ Docs T loaded')) (hkept : LastHasAll T loaded)
    (htext : writeManifest T irs=writeManifest T irs') (service name : String) (isNotification : Bool)
    (params result : Option Doc) (hd : Defines T loaded service name isNotification params result) :
    Defines T loaded' service name isNotification params result := by
  obtain ⟨l,hl,rfl,d,hm,rfl,rfl,rfl⟩ := hd
  have hrec := recorded_of_inLast loaded irs h l hl _ hm (hkept l hl _ hm)
  obtain ⟨hs,hn,_⟩ := hkept l hl _ hm
  obtain ⟨ir,hlow,he⟩ := (recorded_iff_entryAt irs _ _).mp hrec
  rw [manifestText_injective _ _ htext] at he
  obtain ⟨last,d',ir',hlast,hd',hlow',heq⟩ := (entryAt_lowered loaded' irs' _ _ h' hs hn _).mp he
  obtain ⟨hmem,hservice⟩ := mem_of_lastLoaded hlast
  have hsame := same_of_entry hinj (name,d) (name,d') ir ir' hlow hlow'
    (fun doc hdoc => Or.inl (docs_of_mem loaded l hl _ hm doc hdoc))
    (fun doc hdoc => Or.inr (docs_of_mem loaded' last hmem _ hd' doc hdoc)) heq.symm
  exact ⟨last,hmem,hservice,d',hd',hsame.kind.symm,hsame.params.symm,hsame.result.symm⟩

/-- Every method is recorded with its own hashes if `LastHasAll`, and, where the hash tells the
schemas apart, only then; collections of which that is true define the same methods if their
manifests are the same bytes. -/
theorem manifest_drift_iff (T : Toolchain) :
    (∀ loaded irs, lowerContracts T loaded=some irs →
      (LastHasAll T loaded → ∀ l∈loaded, ∀ m∈l.contract.methods,
        Recorded T (writeManifest T irs) l.contract.service m) ∧
      (Set.InjOn T.sha256 (Docs T loaded) → (∀ l∈loaded, ∀ m∈l.contract.methods,
        Recorded T (writeManifest T irs) l.contract.service m) → LastHasAll T loaded)) ∧
    ∀ loaded loaded' irs irs', lowerContracts T loaded=some irs → lowerContracts T loaded'=some irs' →
      Set.InjOn T.sha256 (Docs T loaded ∪ Docs T loaded') → LastHasAll T loaded →
      LastHasAll T loaded' → writeManifest T irs=writeManifest T irs' →
      ∀ service name isNotification params result,
        Defines T loaded service name isNotification params result ↔
          Defines T loaded' service name isNotification params result := by
  refine ⟨fun loaded irs h => ⟨?_,?_⟩,fun loaded loaded' irs irs' h h' hinj hk hk' htext s n b p r => ?_⟩
  · exact fun hlast l hl m hm => recorded_of_inLast loaded irs h l hl m hm (hlast l hl m hm)
  · exact fun hinj hrec l hl m hm => inLast_of_recorded loaded irs h l hl m hm hinj (hrec l hl m hm)
  · refine ⟨defines_of_recorded loaded loaded' irs irs' h h' hinj hk htext s n b p r,?_⟩
    rw [Set.union_comm] at hinj
    exact defines_of_recorded loaded' loaded irs' irs h' h hinj hk' htext.symm s n b p r

/-! ### Two exports of one service -/

/-- `z.string()` -/
def text : Schema
  | Js.str s => .ok (Js.str s)
  | _ => .error (.other "object" none)

def textSchema : JsVal :=
  .obj [("type",Js.str "string"),("$schema",Js.str "http://json-schema.org/draft-07/schema#")]

/-- Tells `z.string()` from `z.object({})`, with the hashes of their two texts. -/
def objectsAndTexts : Toolchain where
  version := "0.1.7"
  zodToJsonSchema := fun z => some (match z Js.null with
    | .ok _ => emptyObjectSchema
    | .error _ => textSchema)
  sha256 := fun
    | .obj (("type",.leaf (.str "string"))::_) =>
      "77524bcdbbc826e8bccea6fb555d014c02473aacd0a99993989f7333984b7c7d"
    | _ => "6c9f16e97bc4049d69d6b4679008d06cc12612156d3db99d0dec1fee3d320091"
  localeCompare := asciiCompare
  consistent := asciiCompare_trans

/-- A request with any params and a text for its result. -/
def named : MethodDef := ⟨.ok,some (some text),false⟩

def clock : ContractValue := ⟨"clock",[("tick",noted)],by simp⟩

def readers : ContractValue := ⟨"users",[("get",named)],by simp⟩

def writers : ContractValue := ⟨"users",[("get",named),("put",noted)],by simp⟩

def namedIr : IrMethod :=
  ⟨"get",false,⟨emptyObjectSchema,"6c9f16e97bc4049d69d6b4679008d06cc12612156d3db99d0dec1fee3d320091"⟩,
    some ⟨textSchema,"77524bcdbbc826e8bccea6fb555d014c02473aacd0a99993989f7333984b7c7d"⟩⟩

def clockIr (file : String) : IrContract := ⟨"clock",file,[notedMethod "tick"]⟩

def readersIr (file : String) : IrContract := ⟨"users",file,[namedIr]⟩

def writersIr (file : String) : IrContract := ⟨"users",file,[namedIr,notedMethod "put"]⟩

theorem services_lowered (file : String) :
    lowerContract objectsAndTexts ⟨clock,file⟩=some (clockIr file) ∧
    lowerContract objectsAndTexts ⟨readers,file⟩=some (readersIr file) ∧
    lowerContract objectsAndTexts ⟨writers,file⟩=some (writersIr file) := by
  have hclock : sortBy (byName objectsAndTexts) [notedMethod "tick"]=[notedMethod "tick"] :=
    sortBy_of_pairwise _ _ (List.pairwise_singleton _ _)
  have hreaders : sortBy (byName objectsAndTexts) [namedIr]=[namedIr] :=
    sortBy_of_pairwise _ _ (List.pairwise_singleton _ _)
  have hwriters : sortBy (byName objectsAndTexts) [namedIr,notedMethod "put"]=
      [namedIr,notedMethod "put"] := by
    refine sortBy_of_pairwise _ _ ?_
    rw [List.pairwise_pair]
    decide
  exact ⟨congrArg (fun ms => some (IrContract.mk "clock" file ms)) hclock,
    congrArg (fun ms => some (IrContract.mk "users" file ms)) hreaders,
    congrArg (fun ms => some (IrContract.mk "users" file ms)) hwriters⟩

/-- `users` is exported twice, and the second export has all of the first. -/
def twice : List LoadedContract :=
  [⟨clock,"/a/clock.ts"⟩,⟨readers,"/a/read.ts"⟩,⟨writers,"/a/write.ts"⟩]

def once : List LoadedContract := [⟨clock,"/b/clock.ts"⟩,⟨writers,"/b/users.ts"⟩]

def twiceIr : List IrContract := [clockIr "/a/clock.ts",readersIr "/a/read.ts",writersIr "/a/write.ts"]

def onceIr : List IrContract := [clockIr "/b/clock.ts",writersIr "/b/users.ts"]

theorem twice_lowered : lowerContracts objectsAndTexts twice=some twiceIr := by
  rw [lowerContracts,twice,mapM_cons_eq,mapM_cons_eq,mapM_cons_eq,(services_lowered _).1,
    (services_lowered _).2.1,(services_lowered _).2.2]
  have hsorted : twiceIr.Pairwise fun a b => (byService objectsAndTexts a b).isLE=true := by
    have hclock : ∀ c∈[readersIr "/a/read.ts",writersIr "/a/write.ts"],
        (byService objectsAndTexts (clockIr "/a/clock.ts") c).isLE=true := by decide
    refine List.pairwise_cons.mpr ⟨hclock,?_⟩
    rw [List.pairwise_pair]
    decide
  exact congrArg some (sortBy_of_pairwise _ _ hsorted)

theorem once_lowered : lowerContracts objectsAndTexts once=some onceIr := by
  rw [lowerContracts,once,mapM_cons_eq,mapM_cons_eq,(services_lowered _).1,(services_lowered _).2.2]
  have hsorted : onceIr.Pairwise fun a b => (byService objectsAndTexts a b).isLE=true := by
    rw [onceIr,List.pairwise_pair]
    decide
  exact congrArg some (sortBy_of_pairwise _ _ hsorted)

/- There are two documents to hash. -/
theorem services_docs :
    Set.InjOn objectsAndTexts.sha256 (Docs objectsAndTexts twice ∪ Docs objectsAndTexts once) := by
  have hdef : ∀ l∈twice++once, ∀ m∈l.contract.methods, m.2=noted ∨ m.2=named := by
    simp only [twice,once,List.cons_append,List.nil_append,List.forall_mem_cons,List.not_mem_nil,
      clock,readers,writers]
    simp
  have hdocs : ∀ doc∈Docs objectsAndTexts twice ∪ Docs objectsAndTexts once,
      schemaDoc objectsAndTexts .ok=some doc ∨ schemaDoc objectsAndTexts text=some doc := by
    rintro doc (⟨l,hl,m,hm,h⟩ | ⟨l,hl,m,hm,h⟩)
    · rcases hdef l (List.mem_append_left _ hl) m hm with hd | hd <;> rw [hd] at h
      · exact .inl (h.resolve_right (by simp [resultDoc,noted]))
      · exact h
    · rcases hdef l (List.mem_append_right _ hl) m hm with hd | hd <;> rw [hd] at h
      · exact .inl (h.resolve_right (by simp [resultDoc,noted]))
      · exact h
  obtain ⟨x,hx⟩ : ∃ x, schemaDoc objectsAndTexts .ok=some x := ⟨_,rfl⟩
  obtain ⟨y,hy⟩ : ∃ y, schemaDoc objectsAndTexts text=some y := ⟨_,rfl⟩
  have hxy : objectsAndTexts.sha256 x≠objectsAndTexts.sha256 y := by
    cases hx
    cases hy
    decide
  intro d hd e he heq
  rcases hdocs d hd with hd | hd <;> rcases hdocs e he with he | he
  · exact Option.some.inj (hd.symm.trans he)
  · obtain rfl := Option.some.inj (hx.symm.trans hd)
    obtain rfl := Option.some.inj (hy.symm.trans he)
    exact (hxy heq).elim
  · obtain rfl := Option.some.inj (hy.symm.trans hd)
    obtain rfl := Option.some.inj (hx.symm.trans he)
    exact (hxy heq.symm).elim
  · exact Option.some.inj (hd.symm.trans he)

theorem services_named : ∀ l∈twice++once, l.contract.service≠"__proto__" ∧
    ∀ m∈l.contract.methods, m.1≠"__proto__" := by decide

theorem twice_last : LastHasAll objectsAndTexts twice := by
  refine lastHasAll_of_subset (fun l hl => services_named l (List.mem_append_left _ hl)) ?_
  simp only [twice,List.forall_mem_cons]
  exact ⟨⟨_,rfl,List.Subset.refl _⟩,⟨_,rfl,List.cons_subset_cons _ (List.nil_subset _)⟩,
    ⟨_,rfl,List.Subset.refl _⟩,nofun⟩

theorem once_last : LastHasAll objectsAndTexts once := by
  refine lastHasAll_of_subset (fun l hl => services_named l (List.mem_append_right _ hl)) ?_
  simp only [once,List.forall_mem_cons]
  exact ⟨⟨_,rfl,List.Subset.refl _⟩,⟨_,rfl,List.Subset.refl _⟩,nofun⟩

theorem same_manifest : writeManifest objectsAndTexts twiceIr=writeManifest objectsAndTexts onceIr := by
  simp [writeManifest,manifestTree,assignKeys,assignKey,Assoc.assign,twiceIr,onceIr,clockIr,readersIr,
    writersIr,serviceEntry]

theorem manifest_drift_services :
    (∀ l∈twice, ∀ m∈l.contract.methods,
      Recorded objectsAndTexts (writeManifest objectsAndTexts twiceIr) l.contract.service m) ∧
    LastHasAll objectsAndTexts twice ∧
    ∀ service name isNotification params result,
      Defines objectsAndTexts twice service name isNotification params result ↔
        Defines objectsAndTexts once service name isNotification params result := by
  obtain ⟨hsuff,hnec⟩ := (manifest_drift_iff objectsAndTexts).1 twice twiceIr twice_lowered
  have hrec := hsuff twice_last
  refine ⟨hrec,hnec (services_docs.mono Set.subset_union_left) hrec,?_⟩
  exact (manifest_drift_iff objectsAndTexts).2 twice once twiceIr onceIr twice_lowered once_lowered
    services_docs twice_last once_last same_manifest

/-! ### An export that another one hides -/

theorem users_nodup (name : String) : ([(name,noted)].map Prod.fst).Nodup := by simp

/-- The service `users` with one notification. -/
def users (name : String) : ContractValue := ⟨"users",[(name,noted)],users_nodup name⟩

def usersIr (name file : String) : IrContract := ⟨"users",file,[notedMethod name]⟩

theorem users_lowered (name file : String) :
    lowerContract emptyObjects ⟨users name,file⟩=some (usersIr name file) := by
  rw [lowerContract_noted (users name) (by simp [users]) file]
  have hone : sortBy (byName emptyObjects) [notedMethod name]=[notedMethod name] :=
    sortBy_of_pairwise _ _ (List.pairwise_singleton _ _)
  exact congrArg (fun ms => some (IrContract.mk "users" file ms)) hone

/-- Two files that each export a contract for the service `users`. -/
def usersFiles : List DirEntry :=
  [⟨"read.ts",true,some [.contract (users "get")]⟩,⟨"write.ts",true,some [.contract (users "put")]⟩]

theorem usersFiles_loaded : loadContracts emptyObjects "/contracts/" usersFiles=
    some [⟨users "get","/contracts/read.ts"⟩,⟨users "put","/contracts/write.ts"⟩] := by
  have hpair : [LoadedContract.mk (users "get") "/contracts/read.ts",⟨users "put","/contracts/write.ts"⟩].Pairwise
      fun a b => (bySourceOrder emptyObjects a b).isLE=true := by
    rw [List.pairwise_pair]
    decide
  exact congrArg some (sortBy_of_pairwise _ _ hpair)

theorem usersFiles_lowered : lowerContracts emptyObjects
    [⟨users "get","/contracts/read.ts"⟩,⟨users "put","/contracts/write.ts"⟩]=
      some [usersIr "get" "/contracts/read.ts",usersIr "put" "/contracts/write.ts"] := by
  rw [lowerContracts,mapM_cons_eq,mapM_cons_eq,users_lowered,users_lowered]
  have hpair : [usersIr "get" "/contracts/read.ts",usersIr "put" "/contracts/write.ts"].Pairwise
      fun a b => (byService emptyObjects a b).isLE=true := by
    rw [List.pairwise_pair]
    decide
  exact congrArg some (sortBy_of_pairwise _ _ hpair)

/- The second file's entry replaces the first one's: without the first file the manifest is the
same. -/
theorem users_drift_unseen :
    loadContracts emptyObjects "/contracts/" usersFiles=
      some [⟨users "get","/contracts/read.ts"⟩,⟨users "put","/contracts/write.ts"⟩] ∧
    ¬ Recorded emptyObjects (writeManifest emptyObjects
      [usersIr "get" "/contracts/read.ts",usersIr "put" "/contracts/write.ts"]) "users" ("get",noted) ∧
    writeManifest emptyObjects [usersIr "get" "/contracts/read.ts",usersIr "put" "/contracts/write.ts"]=
      writeManifest emptyObjects [usersIr "put" "/contracts/write.ts"] ∧
    Defines emptyObjects [⟨users "get","/contracts/read.ts"⟩,⟨users "put","/contracts/write.ts"⟩]
      "users" "get" true (schemaDoc emptyObjects .ok) none ∧
    ¬ Defines emptyObjects [⟨users "put","/contracts/write.ts"⟩] "users" "get" true
      (schemaDoc emptyObjects .ok) none := by
  refine ⟨usersFiles_loaded,fun h => ?_,?_,?_,?_⟩
  · obtain ⟨ir,_,he⟩ := (recorded_iff_entryAt _ _ _).mp h
    obtain ⟨last,d,_,hlast,hd,_⟩ :=
      (entryAt_lowered _ _ "users" "get" usersFiles_lowered (by decide) (by decide) _).mp he
    have heq : last=⟨users "put","/contracts/write.ts"⟩ := by
      simpa [lastLoaded,users,eq_comm] using hlast
    subst heq
    simp [users] at hd
  · simp [writeManifest,manifestTree,assignKeys,assignKey,Assoc.assign,usersIr]
  · exact ⟨_,List.mem_cons_self,rfl,noted,List.mem_singleton.mpr rfl,rfl,rfl,rfl⟩
  · rintro ⟨l,hl,_,d,hd,_⟩
    cases List.mem_singleton.mp hl
    simp [users] at hd

end Clamator.Codegen
