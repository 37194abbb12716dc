import Mathlib.Data.List.Nodup
import Clamator.Codegen.Handlers

/-!
# Identifiers of the generated code (`codegen/src/emit-ts.ts`, `emit-py.ts`)

What the emitters write as a name, and what the two languages take for one. A
hyphen is dropped from the contract's export name only before a letter, and no
reserved word is renamed.
-/

namespace Clamator.Codegen
open Clamator.Base Clamator.Protocol

/-! ### The two grammars -/

def letter (c : Char) : Bool := lower c || upper c || c == '_'

def letterOrDigit (c : Char) : Bool := letter c || digit c

/- ECMAScript's IdentifierName, in ASCII. -/
def tsIdentifier (s : String) : Bool :=
  spells (fun c => letter c || c == '$') (fun c => letterOrDigit c || c == '$') s.toList

/- Python's identifier, in ASCII. -/
def pyIdentifier (s : String) : Bool := spells letter letterOrDigit s.toList

/- The words that a module, which is strict code, may not bind. -/
def tsReserved : List String :=
  ["arguments","await","break","case","catch","class","const","continue","debugger","default",
    "delete","do","else","enum","eval","export","extends","false","finally","for","function","if",
    "implements","import","in","instanceof","interface","let","new","null","package","private",
    "protected","public","return","static","super","switch","this","throw","true","try","typeof",
    "var","void","while","with","yield"]

/- `keyword.kwlist` -/
def pyKeywords : List String :=
  ["False","None","True","and","as","assert","async","await","break","class","continue","def",
    "del","elif","else","except","finally","for","from","global","if","import","in","is","lambda",
    "nonlocal","not","or","pass","raise","return","try","while","with","yield"]

def TsBinds (n : String) : Prop := tsIdentifier n=true ∧ n∉tsReserved

def PyBinds (n : String) : Prop := pyIdentifier n=true ∧ n∉pyKeywords

/-! ### What the emitters write -/

def aliasNames (c : IrContract) : List String := c.methods.flatMap fun m => (aliases m).map Prod.fst

def clientName (c : IrContract) : String := pascalName c.service++"Client"

def serviceName (c : IrContract) : String := pascalName c.service++"Service"

/-- The names that the module binds: imports, type aliases, class and interface. -/
def tsBindings (c : IrContract) : List String :=
  exportName c.service::"ClamatorClient"::"z"::(aliasNames c++[clientName c,serviceName c])

/-- The members of the class; `client` is the parameter of its constructor. -/
def tsMembers (c : IrContract) : List String := "constructor"::"client"::c.methods.map IrMethod.name

structure TsLegal (c : IrContract) : Prop where
  bindings : ∀ n∈tsBindings c, TsBinds n
  distinct : (tsBindings c).Nodup
  members : ∀ n∈tsMembers c, tsIdentifier n=true
  unclashed : (tsMembers c).Nodup

def pyNames (c : IrContract) : List String :=
  clientName c::serviceName c::"METHODS"::serviceVar c.service::aliasNames c

/-- `body`: the class of the handlers has nothing but its methods, and a Python class is not
empty. -/
structure PyLegal (c : IrContract) : Prop where
  names : ∀ n∈pyNames c, PyBinds n
  methods : ∀ m∈c.methods, PyBinds (snakeName m.name)
  body : c.methods≠[]

/-! ### When that is legal -/

/-- A lower-case letter stands behind every hyphen. -/
def HyphensFit (s : List Char) : Prop := ∀ u v, s=u++ '-'::v → nextIs lower v=true

structure NamesFit (v : ContractValue) : Prop where
  hyphens : HyphensFit v.service.toList
  /-- The class would be called as the imported type is. -/
  service : v.service≠"clamator"
  methods : v.methods≠[]
  members : ∀ n∈v.names, n≠"constructor" ∧ n≠"client"
  keywords : ∀ n∈v.names, n∉pyKeywords

/-! ### Characters -/

/- Letters and digits, without the underscore. -/
theorem methodTail_letterOrDigit (c : Char) (h : methodTail c=true) : letterOrDigit c=true := by
  simp only [methodTail,Bool.or_eq_true] at h
  simp only [letterOrDigit,letter,Bool.or_eq_true]
  tauto

theorem serviceTail_methodTail (c : Char) (h : serviceTail c=true) (hc : c ≠ '-') :
    methodTail c=true := by
  simp only [serviceTail,Bool.or_eq_true,beq_iff_eq] at h
  simp only [methodTail,Bool.or_eq_true]
  tauto

theorem not_upper_of_serviceTail (c : Char) (h : serviceTail c=true) : upper c=false := by
  cases hu : upper c with
  | false => rfl
  | true =>
    obtain ⟨_,_,_,hl,hd,_⟩ := upper_toLower c hu
    have hc : c ≠ '-' := by
      rintro rfl
      revert hu
      decide
    simp [serviceTail,hl,hd,hc] at h

theorem pyIdentifier_cons (a : Char) (s : List Char) (ha : letter a=true)
    (hs : ∀ c∈s, letterOrDigit c=true) : pyIdentifier (String.ofList (a::s))=true := by
  simp only [pyIdentifier,String.toList_ofList,spells,Bool.and_eq_true,List.all_eq_true]
  exact ⟨ha,hs⟩

/- Python's identifiers are JavaScript's without the dollar sign. -/
theorem tsIdentifier_of_py (s : String) (h : pyIdentifier s=true) : tsIdentifier s=true := by
  unfold pyIdentifier at h
  unfold tsIdentifier
  cases hs : s.toList with
  | nil => simp [hs,spells] at h
  | cons a t =>
    rw [hs] at h
    simp only [spells,Bool.and_eq_true,List.all_eq_true] at h ⊢
    exact ⟨by rw [h.1,Bool.true_or],fun c hc => by rw [h.2 c hc,Bool.true_or]⟩

/-! ### Endings -/

/- The last six characters, the last one first. -/
def ending (s : String) : List Char := s.toList.reverse.take 6

theorem ending_append (s suffix : String) (h : 6 ≤ suffix.toList.length) :
    ending (s++suffix)=ending suffix := by
  rw [ending,ending,String.toList_append,List.reverse_append,
    List.take_append_of_le_length (by rw [List.length_reverse]; exact h)]

def suffixes : List String := ["Client","Service","Contract","Params","Result","_contract"]

theorem append_not_mem (words : List String)
    (hall : ∀ x∈suffixes, 6 ≤ x.toList.length ∧ ∀ w∈words, ending w≠ending x) (s suffix : String)
    (h : suffix∈suffixes) : s++suffix∉words :=
  fun hw => (hall suffix h).2 _ hw (ending_append s suffix (hall suffix h).1)

theorem tsReserved_ending (s suffix : String) (h : suffix∈suffixes) : s++suffix∉tsReserved :=
  append_not_mem tsReserved (by decide +kernel) s suffix h

theorem pyKeywords_ending (s suffix : String) (h : suffix∈suffixes) : s++suffix∉pyKeywords :=
  append_not_mem pyKeywords (by decide +kernel) s suffix h

/- A name of letters and digits with one of the endings. -/
theorem suffixed (a : Char) (s : List Char) (suffix : String) (h : suffix∈suffixes)
    (ha : letter a=true) (hs : ∀ c∈s, letterOrDigit c=true) :
    TsBinds (String.ofList (a::s)++suffix) ∧ PyBinds (String.ofList (a::s)++suffix) := by
  have hall : ∀ x∈suffixes, x.toList.all letterOrDigit=true := by decide
  have hpy : pyIdentifier (String.ofList (a::s)++suffix)=true := by
    have happ : String.ofList (a::s)++suffix=String.ofList (a::(s++suffix.toList)) := by
      rw [← List.cons_append,String.ofList_append,String.ofList_toList]
    rw [happ]
    refine pyIdentifier_cons a _ ha fun c hc => ?_
    rcases List.mem_append.mp hc with hc | hc
    · exact hs c hc
    · exact List.all_eq_true.mp (hall suffix h) c hc
  exact ⟨⟨tsIdentifier_of_py _ hpy,tsReserved_ending _ suffix h⟩,hpy,pyKeywords_ending _ suffix h⟩

/-! ### Services -/

section
variable {s : List Char}

theorem hyphensFit_cons (a : Char) (s : List Char) :
    HyphensFit (a::s) ↔ (a = '-' → nextIs lower s=true) ∧ HyphensFit s := by
  constructor
  · intro h
    refine ⟨?_,fun u v hs => h (a::u) v (by rw [hs]; rfl)⟩
    rintro rfl
    exact h [] s rfl
  · rintro ⟨ha,hs⟩ u v huv
    cases u with
    | nil =>
      obtain ⟨rfl,rfl⟩ := List.cons.inj huv
      exact ha rfl
    | cons b u => exact hs u v (List.cons.inj huv).2

/- What is left of the hyphens in the export name. -/
theorem camelHyphen_hyphen (s : List Char) : '-'∉camelHyphen s ↔ HyphensFit s := by
  fun_induction camelHyphen s with
  | case1 a b s h ih =>
    obtain ⟨rfl,hb⟩ := h
    have hup : upper '-'=false := by decide
    have hne : '-'≠b.toUpper := by
      intro heq
      rw [heq,(lower_toUpper b hb).1] at hup
      cases hup
    rw [List.mem_cons,not_or,hyphensFit_cons,hyphensFit_cons,ih]
    constructor
    · exact fun h => ⟨fun _ => hb,fun hd => absurd hd (lower_toUpper b hb).2.2,h.2⟩
    · exact fun h => ⟨hne,h.2.2⟩
  | case2 a b s h ih =>
    rw [List.mem_cons,not_or,hyphensFit_cons,ih]
    refine and_congr_left fun _ => ?_
    constructor
    · exact fun hne ha => absurd ha.symm hne
    · exact fun hl ha => h ⟨ha.symm,hl ha.symm⟩
  | case3 s h =>
    match s,h with
    | [],_ =>
      refine ⟨fun _ u v huv => ?_,fun _ => by simp⟩
      cases u <;> cases huv
    | [a],_ =>
      rw [hyphensFit_cons,List.mem_singleton]
      constructor
      · intro hne
        refine ⟨fun ha => absurd ha.symm hne,fun u v huv => ?_⟩
        cases u <;> cases huv
      · rintro ⟨ha,_⟩ heq
        exact Bool.false_ne_true (ha heq.symm)
    | a::b::s,h => exact (h a b s rfl).elim

theorem camelHyphen_all (s : List Char) (h : ∀ c∈s, serviceTail c=true) :
    ∀ c∈camelHyphen s, c ≠ '-' → methodTail c=true := by
  fun_induction camelHyphen s with
  | case1 a b s hab ih =>
    intro c hc hne
    rcases List.mem_cons.mp hc with rfl | hc
    · simp [methodTail,(lower_toUpper b hab.2).1]
    · exact ih (fun d hd => h d (by simp [hd])) c hc hne
  | case2 a b s hab ih =>
    intro c hc hne
    rcases List.mem_cons.mp hc with rfl | hc
    · exact serviceTail_methodTail c (h c List.mem_cons_self) hne
    · exact ih (fun d hd => h d (List.mem_cons_of_mem a hd)) c hc hne
  | case3 s hs => exact fun c hc hne => serviceTail_methodTail c (h c hc) hne

theorem camelHyphen_cons (a : Char) (s : List Char) (h : lower a=true) :
    camelHyphen (a::s)=a::camelHyphen s := by
  cases s with
  | nil => rfl
  | cons b s =>
    rw [camelHyphen,if_neg]
    rintro ⟨rfl,_⟩
    exact (lower_toUpper '-' h).2.2 rfl

/- Without capitals nothing was dropped. -/
theorem camelHyphen_plain (s : List Char) (h : ∀ c∈camelHyphen s, upper c=false) :
    camelHyphen s=s := by
  fun_induction camelHyphen s with
  | case1 a b s hab ih =>
    have := h b.toUpper List.mem_cons_self
    rw [(lower_toUpper b hab.2).1] at this
    cases this
  | case2 a b s hab ih => rw [ih fun c hc => h c (List.mem_cons_of_mem a hc)]
  | case3 s hs => rfl

/- The parts of a service name, the first one as it stands. -/
def laterUpper : List (List Char) → List Char
  | [] => []
  | p::ps => p++ps.flatMap upperFirst

theorem splitOn_cons_of_ne (a : Char) (s : List Char) (h : a ≠ '-') :
    ∃ p ps, s.splitOn '-'=p::ps ∧ (a::s).splitOn '-'=(a::p)::ps := by
  obtain ⟨p,ps,hp⟩ := List.exists_cons_of_ne_nil (List.splitOn_ne_nil '-' s)
  refine ⟨p,ps,hp,?_⟩
  rw [List.splitOn_cons_eq_if_modifyHead,if_neg (by simpa using h),hp]
  rfl

theorem laterUpper_splitOn (s : List Char) (h : HyphensFit s) :
    laterUpper (s.splitOn '-')=camelHyphen s := by
  fun_induction camelHyphen s with
  | case1 a b s hab ih =>
    obtain ⟨rfl,hb⟩ := hab
    have hs : HyphensFit s := ((hyphensFit_cons b s).mp ((hyphensFit_cons '-' (b::s)).mp h).2).2
    obtain ⟨p,ps,hp,hbp⟩ := splitOn_cons_of_ne b s (lower_toUpper b hb).2.2
    rw [List.splitOn_cons_eq_if_modifyHead,if_pos (beq_self_eq_true _),hbp,← ih hs,hp]
    rfl
  | case2 a b s hab ih =>
    obtain ⟨ha,hs⟩ := (hyphensFit_cons a (b::s)).mp h
    obtain ⟨p,ps,hp,hap⟩ := splitOn_cons_of_ne a (b::s) fun heq => hab ⟨heq,ha heq⟩
    rw [hap,← ih hs,hp]
    rfl
  | case3 s hs =>
    have hnone : '-'∉s := by
      match s,hs with
      | [],_ => simp
      | [a],_ =>
        rw [List.mem_singleton]
        intro heq
        exact Bool.false_ne_true (((hyphensFit_cons a []).mp h).1 heq.symm)
      | a::b::s,hs => exact (hs a b s rfl).elim
    rw [List.splitOn_eq_singleton hnone,laterUpper,List.flatMap_nil,List.append_nil]

/-- Where the hyphens fit, the classes are called as the export is, with a capital. -/
theorem kebabAndCamelToPascal_eq (a : Char) (s : List Char) (ha : lower a=true)
    (h : HyphensFit (a::s)) : kebabAndCamelToPascal (a::s)=a.toUpper::camelHyphen s := by
  obtain ⟨p,ps,hp,hap⟩ := splitOn_cons_of_ne a s (lower_toUpper a ha).2.2
  rw [← laterUpper_splitOn s ((hyphensFit_cons a s).mp h).2,kebabAndCamelToPascal,hap,hp]
  rfl

end

/-- What `SERVICE_RE` or `METHOD_RE` says of a name. -/
theorem spells_ofList {head tail : Char → Bool} (name : String) (h : spells head tail name.toList=true) :
    ∃ a s, name=String.ofList (a::s) ∧ head a=true ∧ ∀ c∈s, tail c=true := by
  obtain ⟨a,s,hs,ha⟩ := (spells_iff_cons head tail _).mp h
  exact ⟨a,s,by rw [← hs,String.ofList_toList],ha⟩

theorem letter_of_lower (a : Char) (h : lower a=true) : letter a=true := by simp [letter,h]

theorem letter_toUpper (a : Char) (h : lower a=true) : letter a.toUpper=true := by
  simp [letter,(lower_toUpper a h).1]

theorem exportName_iff (service : String) (h : serviceRe service.toList=true) :
    TsBinds (exportName service) ↔ HyphensFit service.toList := by
  obtain ⟨a,s,rfl,ha,hs⟩ := spells_ofList service h
  have hall : ∀ c∈a::s, serviceTail c=true := by
    intro c hc
    rcases List.mem_cons.mp hc with rfl | hc
    · simp [serviceTail,ha]
    · exact hs c hc
  rw [exportName,String.toList_ofList,← camelHyphen_hyphen]
  constructor
  · rintro ⟨hid,_⟩ hmem
    have hc := spells_all _ _ (fun c => letterOrDigit c || c == '$')
      (fun c hc => by simp only [letterOrDigit,Bool.or_eq_true] at hc ⊢; tauto) (fun _ hc => hc) _ hid
      '-' (by rw [String.toList_append,String.toList_ofList]; exact List.mem_append_left _ hmem)
    revert hc
    decide
  · intro hno
    rw [camelHyphen_cons a s ha] at hno ⊢
    refine (suffixed a _ "Contract" (by decide) (letter_of_lower a ha) fun c hc => ?_).1
    refine methodTail_letterOrDigit c (camelHyphen_all s hs c hc ?_)
    rintro rfl
    exact hno (List.mem_cons_of_mem a hc)

theorem className (service suffix : String) (h : serviceRe service.toList=true)
    (hfit : HyphensFit service.toList) (hsuf : suffix∈suffixes) :
    TsBinds (pascalName service++suffix) := by
  obtain ⟨a,s,rfl,ha,hs⟩ := spells_ofList service h
  rw [String.toList_ofList] at hfit
  rw [pascalName,String.toList_ofList,kebabAndCamelToPascal_eq a s ha hfit]
  refine (suffixed _ _ suffix hsuf (letter_toUpper a ha) fun c hc => ?_).1
  refine methodTail_letterOrDigit c (camelHyphen_all s hs c hc ?_)
  rintro rfl
  exact (camelHyphen_hyphen s).mpr ((hyphensFit_cons a s).mp hfit).2 hc

theorem splitOn_parts (s : List Char) (h : ∀ c∈s, serviceTail c=true) :
    ∀ p∈s.splitOn '-', ∀ c∈p, methodTail c=true := by
  induction s with
  | nil => simp
  | cons a s ih =>
    have hs := ih fun c hc => h c (List.mem_cons_of_mem a hc)
    by_cases ha : a = '-'
    · rw [List.splitOn_cons_eq_if_modifyHead,if_pos (by simpa using ha)]
      exact List.forall_mem_cons.mpr ⟨List.forall_mem_nil _,hs⟩
    · obtain ⟨p,ps,hp,hap⟩ := splitOn_cons_of_ne a s ha
      rw [hp,List.forall_mem_cons] at hs
      rw [hap]
      refine List.forall_mem_cons.mpr ⟨List.forall_mem_cons.mpr ⟨?_,hs.1⟩,hs.2⟩
      exact serviceTail_methodTail a (h a List.mem_cons_self) ha

theorem letterOrDigit_toUpper (c : Char) (h : methodTail c=true) : letterOrDigit c.toUpper=true := by
  cases hl : lower c with
  | true => simp [letterOrDigit,letter,(lower_toUpper c hl).1]
  | false =>
    rw [toUpper_of_not_lower c hl]
    exact methodTail_letterOrDigit c h

theorem upperFirst_letterOrDigit (p : List Char) (h : ∀ c∈p, methodTail c=true) :
    ∀ c∈upperFirst p, letterOrDigit c=true := by
  cases p with
  | nil => exact List.forall_mem_nil _
  | cons a p =>
    have htail : ∀ c∈p, letterOrDigit c=true := fun c hc =>
      methodTail_letterOrDigit c (h c (List.mem_cons_of_mem a hc))
    exact List.forall_mem_cons.mpr ⟨letterOrDigit_toUpper a (h a List.mem_cons_self),htail⟩

/- The split drops every hyphen, so that Python can bind the classes of any service. -/
theorem pyClassName (service suffix : String) (h : serviceRe service.toList=true)
    (hsuf : suffix∈suffixes) : PyBinds (pascalName service++suffix) := by
  obtain ⟨a,s,rfl,ha,hs⟩ := spells_ofList service h
  obtain ⟨p,ps,hp,hap⟩ := splitOn_cons_of_ne a s (lower_toUpper a ha).2.2
  have hparts := splitOn_parts s hs
  rw [hp,List.forall_mem_cons] at hparts
  have hpascal : pascalName (String.ofList (a::s))=String.ofList (a.toUpper::(p++ps.flatMap upperFirst)) := by
    rw [pascalName,String.toList_ofList,kebabAndCamelToPascal,hap]
    rfl
  rw [hpascal]
  refine (suffixed _ _ suffix hsuf (letter_toUpper a ha) fun c hc => ?_).2
  rcases List.mem_append.mp hc with hc | hc
  · exact methodTail_letterOrDigit c (hparts.1 c hc)
  · obtain ⟨q,hq,hc⟩ := List.mem_flatMap.mp hc
    exact upperFirst_letterOrDigit q (hparts.2 q hq) c hc

theorem pascalName_eq_iff (service : String) (h : serviceRe service.toList=true)
    (hfit : HyphensFit service.toList) : pascalName service="Clamator" ↔ service="clamator" := by
  obtain ⟨a,s,rfl,ha,hs⟩ := spells_ofList service h
  rw [String.toList_ofList] at hfit
  rw [pascalName,String.toList_ofList,kebabAndCamelToPascal_eq a s ha hfit,← String.toList_inj,
    ← String.toList_inj,String.toList_ofList,String.toList_ofList]
  constructor
  · intro heq
    obtain ⟨hhead,htail⟩ := List.cons.inj heq
    have hplain : camelHyphen s=s := camelHyphen_plain s fun c hc => by
      refine forall_of_all ['l','a','m','a','t','o','r'] (fun c => upper c=false) (by decide) c ?_
      rwa [← htail]
    rw [hplain] at htail
    rw [← (lower_toUpper a ha).2.1,hhead,htail]
    rfl
  · intro heq
    rw [String.toList_ofList] at heq
    obtain ⟨rfl,rfl⟩ := List.cons.inj heq
    decide

/-! ### Snake case -/

theorem nextIs_false (p : Char → Bool) (s : List Char) (h : ∀ c∈s, p c=false) : nextIs p s=false := by
  cases s with
  | nil => rfl
  | cons a s => exact h a List.mem_cons_self

theorem markPairs_plain (first second : Char → Bool) (s : List Char) (h : ∀ c∈s, second c=false) :
    markPairs first second s=s := by
  induction s with
  | nil => rfl
  | cons a s ih =>
    have hs : ∀ c∈s, second c=false := fun c hc => h c (List.mem_cons_of_mem a hc)
    rw [markPairs_cons_of_not first second a s (Or.inr (nextIs_false second s hs)),ih hs]

theorem markLast_plain (s : List Char) (h : ∀ c∈s, upper c=false) : markLast s=s := by
  induction s with
  | nil => rfl
  | cons a s ih =>
    rw [markLast_cons,h a List.mem_cons_self,ih fun c hc => h c (List.mem_cons_of_mem a hc)]
    rfl

theorem camelToSnake_plain (s : List Char) (h : ∀ c∈s, upper c=false) : camelToSnake s=s := by
  rw [camelToSnake,markPairs_plain _ _ s h,markLast_plain s h,markPairs_plain _ _ s h]
  conv_rhs => rw [← List.map_id s]
  exact List.map_congr_left fun c hc => toLower_of_not_upper c (h c hc)

theorem serviceVar_binds (service : String) (h : serviceRe service.toList=true) :
    PyBinds (serviceVar service) := by
  obtain ⟨a,s,rfl,ha,hs⟩ := spells_ofList service h
  have htail : ∀ c∈underscores s, letterOrDigit c=true ∧ upper c=false := by
    intro c hc
    obtain ⟨d,hd,rfl⟩ := List.mem_map.mp hc
    by_cases hne : d = '-'
    · rw [if_pos hne]
      decide
    · rw [if_neg hne]
      exact ⟨methodTail_letterOrDigit d (serviceTail_methodTail d (hs d hd) hne),
        not_upper_of_serviceTail d (hs d hd)⟩
  have hcons : underscores (a::s)=a::underscores s := by
    rw [underscores,List.map_cons,if_neg (lower_toUpper a ha).2.2]
    rfl
  rw [serviceVar,String.toList_ofList,hcons,camelToSnake_plain]
  · exact (suffixed a _ "_contract" (by decide) (letter_of_lower a ha) fun c hc => (htail c hc).1).2
  · intro c hc
    rcases List.mem_cons.mp hc with rfl | hc
    · exact not_upper_of_lower c ha
    · exact (htail c hc).2

theorem mem_marked (k : ℕ) (s : List Char) (c : Char) (h : c∈marked k s) : c∈s ∨ c = '_' := by
  induction s generalizing k with
  | nil => cases h
  | cons a s ih =>
    have hrec : ∀ j, c∈a::marked j s → c∈a::s ∨ c = '_' := by
      intro j hc
      rcases List.mem_cons.mp hc with rfl | hc
      · exact Or.inl List.mem_cons_self
      · exact (ih j hc).imp_left (List.mem_cons_of_mem a)
    rw [marked] at h
    split at h
    · split at h
      · exact hrec (k+1) h
      · rcases List.mem_cons.mp h with rfl | h
        · exact Or.inr rfl
        · exact hrec (k+1) h
    · exact hrec 0 h

/- The first capital gets an underscore. -/
theorem underscore_mem_marked (s : List Char) (c : Char) (hc : c∈s) (hu : upper c=true) :
    '_'∈marked 0 s := by
  induction s with
  | nil => cases hc
  | cons a s ih =>
    cases ha : upper a with
    | true => simp [marked,ha,hidden_zero]
    | false =>
      rw [marked_cons_of_not_upper 0 a s ha]
      rcases List.mem_cons.mp hc with rfl | hc
      · rw [hu] at ha
        cases ha
      · exact List.mem_cons_of_mem a (ih hc)

theorem letterOrDigit_toLower (c : Char) (h : letterOrDigit c=true) :
    letterOrDigit c.toLower=true := by
  cases hu : upper c with
  | true => simp [letterOrDigit,letter,(upper_toLower c hu).1]
  | false => rwa [toLower_of_not_upper c hu]

theorem snakeName_identifier (name : String) (h : methodRe name.toList=true) :
    pyIdentifier (snakeName name)=true := by
  have hsnake := camelToSnake_name name.toList h
  obtain ⟨a,s,rfl,ha,hs⟩ := spells_ofList name h
  have hu := not_upper_of_lower a ha
  rw [String.toList_ofList] at hsnake
  rw [snakeName,String.toList_ofList,hsnake,marked_cons_of_not_upper 0 a s hu,List.map_cons,
    toLower_of_not_upper a hu]
  refine pyIdentifier_cons a _ (letter_of_lower a ha) fun c hc => ?_
  obtain ⟨d,hd,rfl⟩ := List.mem_map.mp hc
  refine letterOrDigit_toLower d ?_
  rcases mem_marked 0 s d hd with hd | rfl
  · exact methodTail_letterOrDigit d (hs d hd)
  · decide

/- Without an underscore there was no capital. -/
theorem snakeName_plain (name : String) (h : methodRe name.toList=true)
    (hunder : '_'∉(snakeName name).toList) : snakeName name=name := by
  have hp : ∀ c∈name.toList, upper c=false := by
    intro c hc
    refine Bool.eq_false_iff.mpr fun hu => hunder ?_
    rw [snakeName,String.toList_ofList,camelToSnake_name _ h]
    exact List.mem_map.mpr ⟨'_',underscore_mem_marked _ c hc hu,by decide⟩
  rw [snakeName,camelToSnake_plain _ hp,String.ofList_toList]

/- A word of small letters is the snake case of no other name. -/
theorem snakeName_word (name word : String) (h : methodRe name.toList=true)
    (hword : word.toList.all (fun c => decide (c ≠ '_' ∧ upper c=false))=true) :
    snakeName name=word ↔ name=word := by
  have hall := forall_of_all word.toList (fun c => c ≠ '_' ∧ upper c=false) hword
  constructor
  · intro hs
    rw [← hs]
    refine (snakeName_plain name h fun hmem => ?_).symm
    rw [hs] at hmem
    exact (hall _ hmem).1 rfl
  · rintro rfl
    rw [snakeName,camelToSnake_plain _ fun c hc => (hall c hc).2,String.ofList_toList]

theorem snakeName_keyword (name : String) (h : methodRe name.toList=true) :
    snakeName name∈pyKeywords ↔ name∈pyKeywords := by
  have hwords : ∀ w∈pyKeywords, '_'∉w.toList ∧
      (methodRe w.toList=true → w.toList.all (fun c => decide (c ≠ '_' ∧ upper c=false))=true) := by decide
  constructor
  · intro hk
    rwa [snakeName_plain name h (hwords _ hk).1] at hk
  · intro hk
    rwa [(snakeName_word name name h ((hwords name hk).2 h)).mpr rfl]

/-! ### Type aliases and bindings -/

theorem typeName_cons (a : Char) (s : List Char) :
    typeName (String.ofList (a::s))=String.ofList (a.toUpper::s) := by
  rw [typeName,String.toList_ofList]
  rfl

theorem typeName_inj (n m : String) (hn : methodRe n.toList=true) (hm : methodRe m.toList=true)
    (h : typeName n=typeName m) : n=m := by
  obtain ⟨a,s,rfl,ha,_⟩ := spells_ofList n hn
  obtain ⟨b,t,rfl,hb,_⟩ := spells_ofList m hm
  rw [typeName_cons,typeName_cons] at h
  obtain ⟨hab,hst⟩ := List.cons.inj (String.ofList_injective h)
  rw [← (lower_toUpper a ha).2.1,hab,(lower_toUpper b hb).2.1,hst]

theorem mem_aliases (m : IrMethod) (x : String) (h : x∈(aliases m).map Prod.fst) :
    ∃ suffix∈["Params","Result"], x=typeName m.name++suffix := by
  rw [aliases,List.map_cons] at h
  rcases List.mem_cons.mp h with rfl | h
  · exact ⟨"Params",by simp,rfl⟩
  · split at h
    · cases h
    · exact ⟨"Result",by simp,List.mem_singleton.mp h⟩

theorem mem_aliasNames (c : IrContract) (x : String) (h : x∈aliasNames c) :
    ∃ m∈c.methods, ∃ suffix∈["Params","Result"], x=typeName m.name++suffix := by
  obtain ⟨m,hm,hx⟩ := List.mem_flatMap.mp h
  exact ⟨m,hm,mem_aliases m x hx⟩

theorem aliasNames_binds (c : IrContract) (hnames : ∀ m∈c.methods, methodRe m.name.toList=true)
    (x : String) (h : x∈aliasNames c) : TsBinds x ∧ PyBinds x := by
  obtain ⟨m,hm,suffix,hsuf,rfl⟩ := mem_aliasNames c x h
  obtain ⟨a,s,hname,ha,hs⟩ := spells_ofList m.name (hnames m hm)
  rw [hname,typeName_cons]
  have hall : ∀ x∈["Params","Result"], x∈suffixes := by decide
  exact suffixed _ s suffix (hall suffix hsuf) (letter_toUpper a ha) fun c hc =>
    methodTail_letterOrDigit c (hs c hc)

theorem ne_of_ending (x y : String) (h : ending x≠ending y) : x≠y := fun heq => h (congrArg ending heq)

theorem clientName_ending (c : IrContract) : ending (clientName c)=ending "Client" :=
  ending_append _ _ (by decide)

theorem serviceName_ending (c : IrContract) : ending (serviceName c)=ending "Service" :=
  ending_append _ _ (by decide)

theorem aliasNames_ending (c : IrContract) (x : String) (h : x∈aliasNames c) :
    ending x=ending "Params" ∨ ending x=ending "Result" := by
  obtain ⟨m,_,suffix,hsuf,rfl⟩ := mem_aliasNames c x h
  rcases List.mem_cons.mp hsuf with rfl | hsuf
  · exact Or.inl (ending_append _ _ (by decide))
  · rw [List.mem_singleton.mp hsuf]
    exact Or.inr (ending_append _ _ (by decide))

/- What one alias ends with, or the name before it, tells it from any other. -/
theorem aliasNames_nodup (c : IrContract) (hnames : ∀ m∈c.methods, methodRe m.name.toList=true)
    (hnodup : (c.methods.map IrMethod.name).Nodup) : (aliasNames c).Nodup := by
  have happ : ∀ x y : String, ∀ s∈["Params","Result"], ∀ t∈["Params","Result"],
      x++s=y++t → x=y ∧ s=t := by
    intro x y s hs t ht h
    have hend : ∀ s∈["Params","Result"], 6 ≤ s.toList.length ∧
        ∀ t∈["Params","Result"], ending s=ending t → s=t := by decide
    have hst : s=t := by
      refine (hend s hs).2 t ht ?_
      rw [← ending_append x s (hend s hs).1,← ending_append y t (hend t ht).1,h]
    subst hst
    have hl := congrArg String.toList h
    rw [String.toList_append,String.toList_append] at hl
    exact ⟨String.toList_inj.mp (List.append_cancel_right hl),rfl⟩
  refine List.nodup_flatMap.mpr ⟨fun m _ => ?_,?_⟩
  · unfold aliases
    split
    · exact List.nodup_singleton _
    · rw [List.map_cons,List.map_singleton]
      refine List.nodup_cons.mpr ⟨fun h => ?_,List.nodup_singleton _⟩
      have := (happ _ _ "Params" (by simp) "Result" (by simp) (List.mem_singleton.mp h)).2
      exact absurd this (by decide)
  · refine (List.pairwise_map.mp hnodup).imp_of_mem fun {m m'} hm hm' hne => ?_
    intro x hx hx'
    obtain ⟨s,hs,rfl⟩ := mem_aliases m x hx
    obtain ⟨t,ht,heq⟩ := mem_aliases m' _ hx'
    exact hne (typeName_inj _ _ (hnames m hm) (hnames m' hm') (happ _ _ s hs t ht heq).1)

theorem clientName_eq_iff (c : IrContract) :
    clientName c="ClamatorClient" ↔ pascalName c.service="Clamator" := by
  constructor
  · intro h
    have hl : (pascalName c.service).toList++"Client".toList="Clamator".toList++"Client".toList := by
      rw [← String.toList_append]
      exact congrArg String.toList h
    exact String.toList_inj.mp (List.append_cancel_right hl)
  · intro h
    rw [clientName,h]
    rfl

/- What the module declares itself ends in one of four ways. -/
theorem declared_ending (c : IrContract) (x : String)
    (h : x∈aliasNames c++[clientName c,serviceName c]) : ending x=ending "Params" ∨
      ending x=ending "Result" ∨ ending x=ending "Client" ∨ ending x=ending "Service" := by
  rcases List.mem_append.mp h with h | h
  · rcases aliasNames_ending c x h with h | h
    · exact Or.inl h
    · exact Or.inr (Or.inl h)
  · rcases List.mem_cons.mp h with rfl | h
    · exact Or.inr (Or.inr (Or.inl (clientName_ending c)))
    · rw [List.mem_singleton.mp h]
      exact Or.inr (Or.inr (Or.inr (serviceName_ending c)))

theorem declared_nodup (c : IrContract) (hnames : ∀ m∈c.methods, methodRe m.name.toList=true)
    (hnodup : (c.methods.map IrMethod.name).Nodup) :
    (aliasNames c++[clientName c,serviceName c]).Nodup := by
  refine List.nodup_append.mpr ⟨aliasNames_nodup c hnames hnodup,?_,?_⟩
  · refine List.nodup_cons.mpr ⟨fun h => ?_,List.nodup_singleton _⟩
    refine ne_of_ending _ _ ?_ (List.mem_singleton.mp h)
    rw [clientName_ending,serviceName_ending]
    decide
  · intro x hx y hy heq
    subst heq
    have hends := aliasNames_ending c x hx
    rcases List.mem_cons.mp hy with rfl | hy
    · rw [clientName_ending] at hends
      revert hends
      decide
    · rw [List.mem_singleton.mp hy,serviceName_ending] at hends
      revert hends
      decide

/-- The class is the only name that another import can have. -/
theorem tsBindings_nodup (c : IrContract) (hnames : ∀ m∈c.methods, methodRe m.name.toList=true)
    (hnodup : (c.methods.map IrMethod.name).Nodup) :
    (tsBindings c).Nodup ↔ pascalName c.service≠"Clamator" := by
  have hexport : ending (exportName c.service)=ending "Contract" := ending_append _ _ (by decide)
  constructor
  · intro h hp
    refine (List.nodup_cons.mp (List.nodup_cons.mp h).2).1 ?_
    rw [← (clientName_eq_iff c).mpr hp]
    simp
  · intro hp
    refine List.nodup_cons.mpr ⟨fun h => ?_,List.nodup_cons.mpr ⟨fun h => ?_,
      List.nodup_cons.mpr ⟨fun h => ?_,declared_nodup c hnames hnodup⟩⟩⟩
    · rcases List.mem_cons.mp h with h | h
      · exact ne_of_ending _ _ (by rw [hexport]; decide) h
      · rcases List.mem_cons.mp h with h | h
        · exact ne_of_ending _ _ (by rw [hexport]; decide) h
        · have hends := declared_ending c _ h
          rw [hexport] at hends
          revert hends
          decide
    · rcases List.mem_cons.mp h with h | h
      · exact absurd h (by decide)
      · rcases List.mem_append.mp h with h | h
        · have hends := aliasNames_ending c _ h
          revert hends
          decide
        · rcases List.mem_cons.mp h with h | h
          · exact hp ((clientName_eq_iff c).mp h.symm)
          · refine ne_of_ending _ _ ?_ (List.mem_singleton.mp h)
            rw [serviceName_ending]
            decide
    · have hends := declared_ending c _ h
      revert hends
      decide

/-! ### Legal files -/

section
variable {c : IrContract} (hs : serviceRe c.service.toList=true)
  (hnames : ∀ m∈c.methods, methodRe m.name.toList=true)
include hs hnames

theorem tsLegal_iff (hnodup : (c.methods.map IrMethod.name).Nodup) : TsLegal c ↔
    HyphensFit c.service.toList ∧ c.service≠"clamator" ∧
      ∀ m∈c.methods, m.name≠"constructor" ∧ m.name≠"client" := by
  constructor
  · intro h
    have hfit := (exportName_iff c.service hs).mp (h.bindings _ List.mem_cons_self)
    have hmem := List.nodup_cons.mp h.unclashed
    refine ⟨hfit,?_,fun m hm => ⟨?_,?_⟩⟩
    · rw [ne_eq,← pascalName_eq_iff c.service hs hfit]
      exact (tsBindings_nodup c hnames hnodup).mp h.distinct
    · intro heq
      exact hmem.1 (List.mem_cons_of_mem _ (heq ▸ List.mem_map_of_mem hm))
    · intro heq
      exact (List.nodup_cons.mp hmem.2).1 (heq ▸ List.mem_map_of_mem hm)
  · rintro ⟨hfit,hserv,hmem⟩
    refine ⟨?_,?_,?_,?_⟩
    · simp only [tsBindings,List.forall_mem_cons,List.forall_mem_append]
      refine ⟨(exportName_iff c.service hs).mpr hfit,⟨by decide,by decide⟩,⟨by decide,by decide⟩,?_,?_,?_,
        List.forall_mem_nil _⟩
      · exact fun n hn => (aliasNames_binds c hnames n hn).1
      · exact className c.service "Client" hs hfit (by decide)
      · exact className c.service "Service" hs hfit (by decide)
    · rw [tsBindings_nodup c hnames hnodup,ne_eq,pascalName_eq_iff c.service hs hfit]
      exact hserv
    · simp only [tsMembers,List.forall_mem_cons,List.forall_mem_map]
      refine ⟨by decide,by decide,fun m hm => ?_⟩
      obtain ⟨a,s,hname,ha,htail⟩ := spells_ofList m.name (hnames m hm)
      rw [hname]
      exact tsIdentifier_of_py _ (pyIdentifier_cons a s (letter_of_lower a ha) fun c hc =>
        methodTail_letterOrDigit c (htail c hc))
    · refine List.nodup_cons.mpr ⟨fun h => ?_,List.nodup_cons.mpr ⟨fun h => ?_,hnodup⟩⟩
      · rcases List.mem_cons.mp h with h | h
        · exact absurd h (by decide)
        · obtain ⟨m,hm,heq⟩ := List.mem_map.mp h
          exact (hmem m hm).1 heq
      · obtain ⟨m,hm,heq⟩ := List.mem_map.mp h
        exact (hmem m hm).2 heq

theorem pyLegal_iff : PyLegal c ↔ c.methods≠[] ∧ ∀ m∈c.methods, m.name∉pyKeywords := by
  constructor
  · intro h
    refine ⟨h.body,fun m hm hk => ?_⟩
    exact (h.methods m hm).2 ((snakeName_keyword m.name (hnames m hm)).mpr hk)
  · rintro ⟨hbody,hwords⟩
    refine ⟨?_,fun m hm => ⟨snakeName_identifier m.name (hnames m hm),fun hk => ?_⟩,hbody⟩
    · simp only [pyNames,List.forall_mem_cons]
      refine ⟨?_,?_,⟨by decide,by decide⟩,serviceVar_binds c.service hs,?_⟩
      · exact pyClassName c.service "Client" hs (by decide)
      · exact pyClassName c.service "Service" hs (by decide)
      · exact fun n hn => (aliasNames_binds c hnames n hn).2
    · exact hwords m hm ((snakeName_keyword m.name (hnames m hm)).mp hk)

end

/-- What the emitters write for a contract is legal in both languages exactly when every hyphen
of the service name stands before a letter, the service is not called `clamator`, and there are
methods, none of them called `constructor`, `client` or as a Python keyword. -/
theorem generated_legal_iff (T : Toolchain) (v : ContractValue) (file : String) (c : IrContract)
    (hv : v.Accepted) (hc : lowerContract T ⟨v,file⟩=some c) : TsLegal c ∧ PyLegal c ↔ NamesFit v := by
  have hperm : (c.methods.map IrMethod.name).Perm v.names := lowerContract_names T ⟨v,file⟩ c hc
  have hservice : c.service=v.service := (lowerContract_spec T ⟨v,file⟩ c hc).1
  have hs : serviceRe c.service.toList=true := by
    rw [hservice]
    exact hv.valid.1
  have hall : ∀ p : String → Prop, (∀ m∈c.methods, p m.name) ↔ ∀ n∈v.names, p n := by
    intro p
    rw [← List.forall_mem_map]
    exact forall_congr' fun n => by rw [hperm.mem_iff]
  have hempty : c.methods≠[] ↔ v.methods≠[] := by
    rw [← List.length_pos_iff,← List.length_pos_iff]
    have hlen := hperm.length_eq
    rw [List.length_map,ContractValue.names,List.length_map] at hlen
    rw [hlen]
  have hnames := (hall fun n => methodRe n.toList=true).mpr hv.name
  rw [tsLegal_iff hs hnames (hperm.nodup_iff.mpr v.names_nodup)]
  constructor
  · rintro ⟨⟨hfit,hserv,hmem⟩,hpy⟩
    obtain ⟨hbody,hwords⟩ := (pyLegal_iff hs hnames).mp hpy
    rw [hservice] at hfit hserv
    exact ⟨hfit,hserv,hempty.mp hbody,(hall _).mp hmem,(hall _).mp hwords⟩
  · intro h
    rw [hservice]
    refine ⟨⟨h.hyphens,h.service,(hall _).mpr h.members⟩,?_⟩
    rw [pyLegal_iff hs hnames]
    exact ⟨hempty.mpr h.methods,(hall _).mpr h.keywords⟩

theorem nightly_nodup : ([("run",noted)].map Prod.fst).Nodup := by simp

def nightly : ContractValue := ⟨"nightly-job",[("run",noted)],nightly_nodup⟩

theorem nightly_accepted : nightly.Accepted := accepted_of_valid nightly (by decide) rfl

theorem generated_legal_nightly : ∃ c, lowerContract emptyObjects ⟨nightly,"nightly.ts"⟩=some c ∧
    (TsLegal c ∧ PyLegal c ↔ NamesFit nightly) :=
  ⟨_,lowerContract_noted nightly (by simp [nightly]) "nightly.ts",
    generated_legal_iff emptyObjects nightly "nightly.ts" _ nightly_accepted
      (lowerContract_noted nightly (by simp [nightly]) "nightly.ts")⟩

theorem log_nodup : ([("class",noted),("client",noted)].map Prod.fst).Nodup := by simp

def log : ContractValue := ⟨"log-2",[("class",noted),("client",noted)],log_nodup⟩

/- `import { log-2Contract }`, a second member `client`, `async def class`. -/
theorem log_illegal : log.Accepted ∧ ∃ c, lowerContract emptyObjects ⟨log,"log.ts"⟩=some c ∧
    exportName c.service="log-2Contract" ∧ ¬ TsBinds (exportName c.service) ∧
    ¬ (tsMembers c).Nodup ∧ ¬ PyBinds (snakeName "class") ∧ ¬ TsLegal c ∧ ¬ PyLegal c := by
  have hlow := lowerContract_noted log (by simp [log]) "log.ts"
  have hbind : ¬ TsBinds (exportName "log-2") := fun h => absurd h.1 (by decide)
  have hword : ¬ PyBinds (snakeName "class") := fun h => absurd (by decide) h.2
  have hmem : ∀ n∈log.names, notedMethod n∈sortBy (byName emptyObjects) (log.names.map notedMethod) :=
    fun n hn => (sortBy_perm _ _).mem_iff.mpr (List.mem_map_of_mem hn)
  refine ⟨accepted_of_valid log (by decide) rfl,_,hlow,rfl,hbind,?_,hword,?_,?_⟩
  · intro h
    refine (List.nodup_cons.mp (List.nodup_cons.mp h).2).1 ?_
    exact List.mem_map.mpr ⟨notedMethod "client",hmem "client" (by simp [log,ContractValue.names]),rfl⟩
  · exact fun h => hbind (h.bindings _ List.mem_cons_self)
  · intro h
    exact hword (h.methods (notedMethod "class") (hmem "class" (by simp [log,ContractValue.names])))

end Clamator.Codegen
