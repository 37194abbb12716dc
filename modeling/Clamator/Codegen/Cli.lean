import Clamator.Base.Job
import Clamator.Codegen.Drift
import Clamator.Codegen.Handlers

/-!
# A run of codegen (`codegen/src/cli.ts`)

`runCli` writes the TypeScript files, then the Python files, then the manifest. For each Python file
it has `datamodel-codegen` work in a temporary directory, which it removes again unless something
fails. Whatever stops it, the manifest has changed only if all the others were written, and what it
says of a service is what the files of that service were made from.
-/

namespace Clamator.Codegen
open Clamator.Base Clamator.Protocol

/- A name of one segment that `path.normalize` leaves alone. -/
def PlainName (name : String) : Prop := '/'∉name.toList ∧ name≠"" ∧ name≠"." ∧ name≠".."

/-- `path.join(dir, name)`; `JSON.stringify(wrapper, null, 2)`; and what `datamodel-codegen` leaves in
its output file for a schema document, and whether it exits with 0. -/
structure Surroundings where
  join : String → String → String
  before : String → String
  join_plain : ∀ dir name, PlainName name → join dir name=before dir++name
  before_join : ∀ dir name, PlainName name → before (join dir name)=join dir name++"/"
  print : Doc → String
  datamodelCodegen : Doc → Option String × Bool

/- The options of the command line but `--json-schema-target`, which the toolchain has. -/
structure CliOptions where
  src : String
  outTs : Option String
  outPy : Option String
  manifest : Option String
  tsContractImport : Option String
  watch : Bool

/- JavaScript takes an empty string for false. -/
def truthy (option : Option String) : Option String := option.filter (· ≠ "")

/-! ### The models of a Python file -/

/- Where `^` of a multi-line pattern matches behind a character. -/
def breaksLine (c : Char) : Bool := c == '\n' || c == '\r' || c == '\u2028' || c == '\u2029'

/- What stands behind the next newline. -/
def afterLine : List Char → Option (List Char)
  | [] => none
  | c::s => if c = '\n' then some s else afterLine s

/- `.replace(/^(#[^\n]*\n)*/m, '')`, which matches at the head. -/
def dropComments : ℕ → List Char → List Char
  | fuel+1,'#'::s => match afterLine s with
    | some rest => dropComments fuel rest
    | none => '#'::s
  | _,s => s

/- `.replace(/^from __future__[^\n]*\n/gm, '')` -/
def dropFuture : ℕ → Bool → List Char → List Char
  | fuel+1,start,c::s =>
    if start && "from __future__".toList.isPrefixOf (c::s) then match afterLine s with
      | some rest => dropFuture fuel true rest
      | none => c::dropFuture fuel (breaksLine c) s
    else c::dropFuture fuel (breaksLine c) s
  | _,_,s => s

def jsSpace (c : Char) : Bool := breaksLine c || c∈['\t','\x0b','\x0c',' ','\u00a0','\u1680','\u202f',
  '\u205f','\u3000','\ufeff'] || decide ('\u2000' ≤ c) && decide (c ≤ '\u200a')

def trim (s : List Char) : List Char := ((s.dropWhile jsSpace).reverse.dropWhile jsSpace).reverse

def stripModels (text : String) : String :=
  let s := dropComments text.length text.toList
  String.ofList (trim (dropFuture s.length true s))

example : stripModels "# generated\nfrom __future__ import annotations\n\nclass A:\n  pass\n"=
    "class A:\n  pass" := by decide

/-! ### The tasks -/

/-- A file that is missing has no content. -/
abbrev FileTask := JobTask String (Option String)

def PyFile.text (f : PyFile) (models : String) : String := f.header++models++"\n\n\n"++f.tail

section
variable (S : Surroundings) (T : Toolchain) (opts : CliOptions)

def tempFiles (dir name : String) : List String :=
  [S.join (S.join dir name) "schema.json",S.join (S.join dir name) "models.py"]

/-- The directories that `fs.mkdtemp` makes under the output directory, call after call. They are new:
the manifest goes to none of them. -/
structure TempDirs where
  name : ℕ → String
  plain : ∀ k, PlainName (name k)
  apart : ∀ dir path, truthy opts.outPy=some dir → truthy opts.manifest=some path →
    ∀ k, path∉tempFiles S dir (name k)

def tsTasks (contracts : List IrContract) : List FileTask :=
  match truthy opts.outTs,truthy opts.tsContractImport with
  | none,_ => []
  | some _,none => [.throws]
  | some dir,some importPath =>
    (emitTs T.version importPath contracts).map fun f => .write (S.join dir f.1) (some f.2)

/- What is done in the temporary directory, up to `fs.rm`, and the write of the file. -/
def pyFileTasks (dir tmp : String) (f : PyFile) : List FileTask := match f.schema with
  | .keep d =>
    .write (S.join (S.join dir tmp) "schema.json") (some (S.print d))::
    .write (S.join (S.join dir tmp) "models.py") (S.datamodelCodegen d).1::
    match S.datamodelCodegen d with
    | (some models,true) => (tempFiles S dir tmp).map (.write · none)++
        [.write (S.join dir f.name) (some (f.text (stripModels models)))]
    | _ => [.throws]
  | _ => [.throws]

def pyTasks (tmp : TempDirs S opts) (contracts : List IrContract) : List FileTask :=
  match truthy opts.outPy with
  | none => []
  | some dir => (emitPy T.version contracts).zipIdx.flatMap fun f => pyFileTasks S dir (tmp.name f.2) f.1

def manifestTasks (contracts : List IrContract) : List FileTask := match truthy opts.manifest with
  | none => []
  | some path => [.write path (some (writeManifest T contracts))]

/-- `runCli`, where the source directory has the given entries. -/
def runCli (tmp : TempDirs S opts) (entries : List DirEntry) : List FileTask :=
  if opts.watch then [] else match loadContracts T (S.before opts.src) entries with
  | none => [.throws]
  | some [] => []
  | some loaded => match lowerContracts T loaded with
    | none => [.throws]
    | some contracts =>
      tsTasks S T opts contracts++pyTasks S T opts tmp contracts++manifestTasks T opts contracts

def pyText (c : IrContract) (models : String) : String :=
  pyHeader T.version c++stripModels models++"\n\n\n"++renderPyTail c

/-- The files of the service of a contract are those that were made from it. -/
structure MadeFrom (files : String → Option String) (c : IrContract) : Prop where
  ts : ∀ dir importPath, truthy opts.outTs=some dir → truthy opts.tsContractImport=some importPath →
    files (S.join dir (c.service++".ts"))=some (renderTsFile T.version importPath c)
  py : ∀ dir, truthy opts.outPy=some dir → ∃ d models, jsonStringify (schemaWrapper c)=.keep d ∧
    S.datamodelCodegen d=(some models,true) ∧
    files (S.join dir (c.service++".py"))=some (pyText T c models)

/- The manifest is none of the generated modules. -/
def ManifestApart (path : String) (contracts : List IrContract) : Prop := ∀ c∈contracts, ∀ dir,
  path≠S.join dir (c.service++".ts") ∧ path≠S.join dir (c.service++".py")

end

/-! ### Paths -/

theorem moduleName_plain (service extension : String) (hs : serviceRe service.toList=true)
    (he : '/'∉extension.toList) : PlainName (service++extension) := by
  obtain ⟨a,cs,hcs,ha,_⟩ := (spells_iff_cons _ _ _).mp hs
  have hall := spells_all lower serviceTail (· != '/')
    (fun c hc => bne_iff_ne.mpr (ne_of_class lower c '/' (by decide) hc))
    (fun c hc => bne_iff_ne.mpr (ne_of_class serviceTail c '/' (by decide) hc)) _ hs
  have hdot : a ≠ '.' := ne_of_class lower a '.' (by decide) ha
  have hlist : (service++extension).toList=a::(cs++extension.toList) := by
    rw [String.toList_append,hcs]
    rfl
  refine ⟨fun h => ?_,fun h => ?_,fun h => ?_,fun h => ?_⟩
  · rw [String.toList_append,List.mem_append] at h
    exact h.elim (fun h => absurd (hall '/' h) (by decide)) he
  · rw [h] at hlist
    cases hlist
  · rw [h] at hlist
    exact hdot (List.cons.inj hlist).1.symm
  · rw [h] at hlist
    exact hdot (List.cons.inj hlist).1.symm

variable {S : Surroundings} {T : Toolchain} {opts : CliOptions}

def TempDirs.Has (tmp : TempDirs S opts) (path : String) : Prop :=
  ∃ dir, truthy opts.outPy=some dir ∧ ∃ k, path∈tempFiles S dir (tmp.name k)

theorem modulePath_inj (dir extension : String) (he : '/'∉extension.toList) (s s' : String)
    (hs : serviceRe s.toList=true) (hs' : serviceRe s'.toList=true) :
    S.join dir (s++extension)=S.join dir (s'++extension) ↔ s=s' := by
  rw [S.join_plain dir _ (moduleName_plain s _ hs he),S.join_plain dir _ (moduleName_plain s' _ hs' he)]
  constructor
  · intro h
    exact (String.append_left_inj _).mp ((String.append_right_inj _).mp h)
  · rintro rfl
    rfl

theorem tsPath_ne_pyPath (dir dir' s s' : String) (hs : serviceRe s.toList=true)
    (hs' : serviceRe s'.toList=true) : S.join dir (s++".ts")≠S.join dir' (s'++".py") := by
  rw [S.join_plain dir _ (moduleName_plain s _ hs (by decide)),
    S.join_plain dir' _ (moduleName_plain s' _ hs' (by decide))]
  intro h
  have hlast := congrArg (fun path : String => path.toList.getLast?) h
  simp at hlast

theorem tempName_plain (file : String) (h : file∈["schema.json","models.py"]) : PlainName file := by
  rcases List.mem_pair.mp h with rfl | rfl
  · exact ⟨by decide,by decide,by decide,by decide⟩
  · exact ⟨by decide,by decide,by decide,by decide⟩

theorem mem_tempFiles (dir name path : String) (hname : PlainName name) (h : path∈tempFiles S dir name) :
    ∃ file∈["schema.json","models.py"], path=S.before dir++name++"/"++file := by
  have hjoin : ∀ file∈["schema.json","models.py"],
      S.join (S.join dir name) file=S.before dir++name++"/"++file := by
    intro file hfile
    rw [S.join_plain _ _ (tempName_plain file hfile),S.before_join dir name hname,S.join_plain dir name hname]
  rcases List.mem_pair.mp h with rfl | rfl
  · exact ⟨"schema.json",by simp,hjoin _ (by simp)⟩
  · exact ⟨"models.py",by simp,hjoin _ (by simp)⟩

/- The modules lie beside the temporary directories. -/
theorem pyPath_not_temp (tmp : TempDirs S opts) (dir s : String) (hd : truthy opts.outPy=some dir)
    (hs : serviceRe s.toList=true) : ¬tmp.Has (S.join dir (s++".py")) := by
  rintro ⟨dir',hd',k,hmem⟩
  obtain rfl : dir=dir' := Option.some.inj (hd.symm.trans hd')
  obtain ⟨file,_,heq⟩ := mem_tempFiles dir _ _ (tmp.plain k) hmem
  have hplain := moduleName_plain s ".py" hs (by decide)
  rw [S.join_plain dir _ hplain,String.append_assoc,String.append_assoc,String.append_right_inj] at heq
  apply hplain.1
  rw [heq,String.toList_append,String.toList_append]
  simp

theorem tsPath_not_temp (tmp : TempDirs S opts) (dir s : String) (hs : serviceRe s.toList=true) :
    ¬tmp.Has (S.join dir (s++".ts")) := by
  rintro ⟨dir',_,k,hmem⟩
  obtain ⟨file,hfile,heq⟩ := mem_tempFiles dir' _ _ (tmp.plain k) hmem
  rw [S.join_plain dir _ (moduleName_plain s _ hs (by decide))] at heq
  have hlast := congrArg (fun path : String => path.toList.getLast?) heq
  rcases List.mem_pair.mp hfile with rfl | rfl <;> simp at hlast

/-! ### What is written -/

theorem written_map {α : Type} (l : List α) (key value : α → String) :
    written (l.map fun a => (.write (key a) (some (value a)) : FileTask))=
      l.map fun a => (key a,some (value a)) := by
  induction l with
  | nil => rfl
  | cons a l ih => exact congrArg ((key a,some (value a))::·) ih

theorem written_ts (contracts : List IrContract) (dir importPath : String)
    (hd : truthy opts.outTs=some dir) (hi : truthy opts.tsContractImport=some importPath) :
    written (tsTasks S T opts contracts)=contracts.map fun c =>
      (S.join dir (c.service++".ts"),some (renderTsFile T.version importPath c)) := by
  unfold tsTasks emitTs
  rw [hd,hi]
  dsimp only
  rw [List.map_map]
  exact written_map contracts _ _

/-- What `datamodel-codegen` leaves for a contract. -/
def modelsOf (S : Surroundings) (c : IrContract) : String := match jsonStringify (schemaWrapper c) with
  | .keep d => (S.datamodelCodegen d).1.getD ""
  | _ => ""

def pyFile (T : Toolchain) (c : IrContract) : PyFile :=
  ⟨c.service++".py",jsonStringify (schemaWrapper c),pyHeader T.version c,renderPyTail c⟩

def pyOutputs (S : Surroundings) (T : Toolchain) (dir : String) (contracts : List IrContract) :
    List (String × Option String) :=
  contracts.map fun c => (S.join dir (c.service++".py"),some (pyText T c (modelsOf S c)))

/- A file that is written has left nothing in its temporary directory. -/
theorem pyFileTasks_done (dir name : String) (c : IrContract)
    (hno : .throws∉pyFileTasks S dir name (pyFile T c)) :
    (∃ d, jsonStringify (schemaWrapper c)=.keep d ∧ S.datamodelCodegen d=(some (modelsOf S c),true)) ∧
    ∃ before : List (String × Option String), before.map Prod.fst=tempFiles S dir name ∧
      written (pyFileTasks S dir name (pyFile T c))=before++(tempFiles S dir name).map (·,none)++
        [(S.join dir (c.service++".py"),some (pyText T c (modelsOf S c)))] := by
  unfold pyFileTasks pyFile at hno ⊢
  unfold modelsOf
  dsimp only at hno ⊢
  cases hd : jsonStringify (schemaWrapper c) with
  | keep d =>
    simp only [hd] at hno ⊢
    split at hno
    · rename_i models hm
      simp only [hm]
      exact ⟨⟨d,rfl,hm⟩,[(_,some (S.print d)),(_,some models)],rfl,rfl⟩
    · exact (hno (by simp)).elim
  | skip => simp [hd] at hno
  | fail => simp [hd] at hno

theorem writeAll_removed (keys : List String) (files : String → Option String) (path : String)
    (h : path∈keys) : writeAll (keys.map (·,none)) files path=none := by
  obtain ⟨value,hmem,hvalue⟩ := writeAll_of_mem (keys.map (·,none)) files path (by simpa using h)
  obtain ⟨key,_,heq⟩ := List.mem_map.mp hmem
  rw [hvalue,← (Prod.mk.inj heq).2]

/- One Python file: a path beside its temporary directory, and one in it. -/
theorem pyFileTasks_files (dir name : String) (c : IrContract)
    (hno : .throws∉pyFileTasks S dir name (pyFile T c)) (files : String → Option String) (path : String) :
    (path∉tempFiles S dir name → writeAll (written (pyFileTasks S dir name (pyFile T c))) files path=
      writeAll (pyOutputs S T dir [c]) files path) ∧
    (path≠S.join dir (c.service++".py") → files path=none →
      writeAll (written (pyFileTasks S dir name (pyFile T c))) files path=none) := by
  obtain ⟨_,before,hkeys,hw⟩ := pyFileTasks_done dir name c hno
  have hremoved : ((tempFiles S dir name).map (·,(none : Option String))).map Prod.fst=tempFiles S dir name := by
    rw [List.map_map]
    exact List.map_id _
  have hkept : path∉tempFiles S dir name →
      writeAll ((tempFiles S dir name).map (·,none)) (writeAll before files) path=files path := by
    intro hpath
    rw [writeAll_of_not_mem _ _ _ (by rwa [hremoved]),writeAll_of_not_mem _ _ _ (by rwa [hkeys])]
  rw [hw,writeAll_append,writeAll_append]
  refine ⟨fun hpath => writeAll_congr _ _ _ _ (hkept hpath),fun hpath hnone => ?_⟩
  rw [writeAll_of_not_mem _ _ _ (by simpa using hpath)]
  by_cases htemp : path∈tempFiles S dir name
  · exact writeAll_removed _ _ path htemp
  · rw [hkept htemp,hnone]

section
variable (tmp : TempDirs S opts) {contracts : List IrContract} {dir : String}
  (hd : truthy opts.outPy=some dir)
include hd

theorem pyTasks_eq : pyTasks S T opts tmp contracts=
    (contracts.zipIdx).flatMap fun c => pyFileTasks S dir (tmp.name c.2) (pyFile T c.1) := by
  have hfiles : emitPy T.version contracts=contracts.map (pyFile T) := rfl
  unfold pyTasks
  rw [hd]
  dsimp only
  rw [hfiles,List.zipIdx_map,List.flatMap_map]
  rfl

theorem pyTasks_files (hs : ∀ c∈contracts, serviceRe c.service.toList=true)
    (hno : .throws∉pyTasks S T opts tmp contracts) (files : String → Option String) (path : String) :
    (¬tmp.Has path → writeAll (written (pyTasks S T opts tmp contracts)) files path=
      writeAll (pyOutputs S T dir contracts) files path) ∧
    (tmp.Has path → files path=none →
      writeAll (written (pyTasks S T opts tmp contracts)) files path=none) := by
  rw [pyTasks_eq tmp hd] at hno ⊢
  generalize 0=n at hno ⊢
  induction contracts generalizing n files with
  | nil => exact ⟨fun _ => rfl,fun _ h => h⟩
  | cons c contracts ih =>
    rw [List.zipIdx_cons,List.flatMap_cons,List.mem_append,not_or] at hno
    obtain ⟨hc,hrest⟩ := hno
    have hservice := hs c List.mem_cons_self
    obtain ⟨haside,hgone⟩ := pyFileTasks_files dir (tmp.name n) c hc files path
    obtain ⟨ihaside,ihgone⟩ := ih (fun c hc => hs c (List.mem_cons_of_mem _ hc))
      (writeAll (written (pyFileTasks S dir (tmp.name n) (pyFile T c))) files) (n+1) hrest
    rw [List.zipIdx_cons,List.flatMap_cons,written_append,writeAll_append]
    refine ⟨fun hpath => ?_,fun hpath hnone => ?_⟩
    · have hout : path∉tempFiles S dir (tmp.name n) := fun hmem => hpath ⟨dir,hd,n,hmem⟩
      rw [ihaside hpath,writeAll_congr _ _ _ _ (haside hout),← writeAll_append]
      rfl
    · refine ihgone hpath (hgone ?_ hnone)
      rintro rfl
      exact pyPath_not_temp tmp dir c.service hd hservice hpath

theorem pyTasks_models (hno : .throws∉pyTasks S T opts tmp contracts) (c : IrContract)
    (hc : c∈contracts) : ∃ d, jsonStringify (schemaWrapper c)=.keep d ∧
      S.datamodelCodegen d=(some (modelsOf S c),true) := by
  rw [pyTasks_eq tmp hd] at hno
  obtain ⟨k,hk⟩ := List.getElem?_of_mem hc
  have hmem : (c,k)∈contracts.zipIdx := List.mem_zipIdx_iff_getElem?.mpr hk
  refine (pyFileTasks_done (T := T) dir (tmp.name k) c fun hthrows => hno ?_).1
  exact List.mem_flatMap.mpr ⟨(c,k),hmem,hthrows⟩

theorem mem_written_py (path : String) (value : Option String)
    (h : (path,value)∈written (pyTasks S T opts tmp contracts)) :
    tmp.Has path ∨ ∃ c∈contracts, path=S.join dir (c.service++".py") := by
  rw [pyTasks_eq tmp hd,mem_written] at h
  obtain ⟨⟨c,k⟩,hmem,htask⟩ := List.mem_flatMap.mp h
  have hc : c∈contracts := List.mem_of_getElem? (List.mem_zipIdx_iff_getElem?.mp hmem)
  have htemp : ∀ file, path=file → file∈tempFiles S dir (tmp.name k) → tmp.Has path := by
    rintro file rfl hfile
    exact ⟨dir,hd,k,hfile⟩
  unfold pyFileTasks pyFile at htask
  dsimp only at htask
  split at htask
  · rcases List.mem_cons.mp htask with heq | htask
    · exact Or.inl (htemp _ (JobTask.write.inj heq).1 (by simp [tempFiles]))
    · rcases List.mem_cons.mp htask with heq | htask
      · exact Or.inl (htemp _ (JobTask.write.inj heq).1 (by simp [tempFiles]))
      · split at htask
        · rcases List.mem_append.mp htask with htask | htask
          · obtain ⟨file,hfile,heq⟩ := List.mem_map.mp htask
            exact Or.inl (htemp file (JobTask.write.inj heq).1.symm hfile)
          · exact Or.inr ⟨c,hc,(JobTask.write.inj (List.mem_singleton.mp htask)).1⟩
        · cases List.mem_singleton.mp htask
  · cases List.mem_singleton.mp htask

end

/- The last contract of a service, among paths of modules. -/
theorem lookup_module (contracts : List IrContract) (dir extension : String)
    (he : '/'∉extension.toList) (hs : ∀ c∈contracts, serviceRe c.service.toList=true) (c : IrContract)
    (hc : lastNamed c.service contracts=some c) (text : IrContract → String)
    (files : String → Option String) :
    writeAll (contracts.map fun c => (S.join dir (c.service++extension),some (text c))) files
      (S.join dir (c.service++extension))=some (text c) := by
  have hmem : c∈contracts := (List.mem_filter.mp (List.mem_of_getLast? hc)).1
  have hfilter : contracts.filter (fun a =>
      decide (S.join dir (a.service++extension)=S.join dir (c.service++extension)))=
        contracts.filter fun a => decide (a.service=c.service) := by
    refine List.filter_congr fun a ha => ?_
    simp only [modulePath_inj dir extension he a.service c.service (hs a ha) (hs c hmem)]
  rw [writeAll_apply,Assoc.lookup_reverse_map,hfilter]
  exact congrArg (fun o => Option.getD o (files (S.join dir (c.service++extension))))
    (congrArg (Option.map fun c => some (text c)) hc)

/-- When all modules are written, each service has those of its last contract. -/
theorem made_modules (tmp : TempDirs S opts) (contracts : List IrContract) (files : String → Option String)
    (hs : ∀ c∈contracts, serviceRe c.service.toList=true)
    (hno : .throws∉tsTasks S T opts contracts++pyTasks S T opts tmp contracts) (c : IrContract)
    (hc : lastNamed c.service contracts=some c) : MadeFrom S T opts
      (writeAll (written (tsTasks S T opts contracts++pyTasks S T opts tmp contracts)) files) c := by
  have hmem : c∈contracts := (List.mem_filter.mp (List.mem_of_getLast? hc)).1
  rw [List.mem_append,not_or] at hno
  constructor
  · intro dir importPath hd hi
    rw [written_append,writeAll_append,writeAll_of_not_mem,written_ts contracts dir importPath hd hi]
    · exact lookup_module contracts dir ".ts" (by decide) hs c hc _ files
    · -- no Python file is the TypeScript file
      cases hpy : truthy opts.outPy with
      | none =>
        rw [pyTasks,hpy]
        exact List.not_mem_nil
      | some dir' =>
        intro hmem'
        obtain ⟨⟨_,value⟩,hw,rfl⟩ := List.mem_map.mp hmem'
        rcases mem_written_py tmp hpy _ value hw with htemp | ⟨c',hc',heq⟩
        · exact tsPath_not_temp tmp dir _ (hs c hmem) htemp
        · exact tsPath_ne_pyPath dir dir' _ _ (hs c hmem) (hs c' hc') heq
  · intro dir hd
    obtain ⟨d,hstringify,hmodels⟩ := pyTasks_models tmp hd hno.2 c hmem
    refine ⟨d,_,hstringify,hmodels,?_⟩
    rw [written_append,writeAll_append,(pyTasks_files tmp hd hs hno.2 _ _).1
      (pyPath_not_temp tmp dir c.service hd (hs c hmem))]
    exact lookup_module contracts dir ".py" (by decide) hs c hc _ _

/- A file that is no module of the contract. -/
theorem MadeFrom.aside {files files' : String → Option String} {c : IrContract} {path : String}
    (h : MadeFrom S T opts files c)
    (hapart : ∀ dir, path≠S.join dir (c.service++".ts") ∧ path≠S.join dir (c.service++".py"))
    (hsame : ∀ k, k≠path → files' k=files k) : MadeFrom S T opts files' c where
  ts := by
    intro dir importPath hd hi
    rw [hsame _ (hapart dir).1.symm]
    exact h.ts dir importPath hd hi
  py := by
    intro dir hd
    rw [hsame _ (hapart dir).2.symm]
    exact h.py dir hd

/-! ### The manifest -/

/-- The text has an entry of its own for each method of the contract. -/
def Vouches (text : String) (c : IrContract) : Prop := ∃ tree, text=manifestText tree ∧
  ∀ m∈c.methods, entryAt c.service m.name tree=some (manifestEntry m)

theorem accepted_services (loaded : List LoadedContract) (contracts : List IrContract)
    (ha : ∀ l∈loaded, l.contract.Accepted) (h : lowerContracts T loaded=some contracts) :
    ∀ c∈contracts, serviceRe c.service.toList=true := by
  intro c hc
  obtain ⟨cs,hcs,rfl⟩ := Option.map_eq_some_iff.mp h
  obtain ⟨l,hl,hlc⟩ := (mem_of_mapM _ _ _ hcs c).mp ((mem_sortBy _ _ _).mp hc)
  rw [(lowerContract_spec T l c hlc).1]
  exact (ha l hl).valid.1

theorem manifest_vouches (loaded : List LoadedContract) (contracts : List IrContract)
    (ha : ∀ l∈loaded, l.contract.Accepted) (h : lowerContracts T loaded=some contracts) (c : IrContract)
    (hc : lastNamed c.service contracts=some c) : Vouches (writeManifest T contracts) c := by
  refine ⟨manifestTree T contracts,rfl,fun m hm => ?_⟩
  obtain ⟨last,hlast,hlower⟩ := Option.bind_eq_some_iff.mp ((lowered_last loaded contracts _ h).symm.trans hc)
  obtain ⟨⟨name,d⟩,hd,hlow⟩ := (lowered_methods T last c hlower m).mp hm
  have hname : m.name=name := (lowerMethod_spec T _ m hlow).1
  have haccepted := ha last (mem_of_lastLoaded hlast).1
  have hservice : c.service≠"__proto__" := by
    intro heq
    have hre := accepted_services loaded contracts ha h c (List.mem_filter.mp (List.mem_of_getLast? hc)).1
    rw [heq] at hre
    exact absurd hre (by decide)
  have hproto : m.name≠"__proto__" := by
    intro heq
    have hre := haccepted.name name (List.mem_map.mpr ⟨_,hd,rfl⟩)
    rw [← hname,heq] at hre
    exact absurd hre (by decide)
  rw [entryAt_lowered loaded contracts _ _ h hservice hproto]
  refine ⟨last,d,m,hlast,?_,?_,rfl⟩
  · rw [hname]
    exact hd
  · rw [hname]
    exact hlow

/-! ### The tasks of a run -/

theorem loaded_of_mem (loaded : List LoadedContract) (contracts : List IrContract)
    (h : lowerContracts T loaded=some contracts) (c : IrContract) (hc : c∈contracts) : loaded≠[] := by
  rintro rfl
  cases h
  exact List.not_mem_nil ((mem_sortBy _ _ _).mp hc)

theorem runCli_eq (tmp : TempDirs S opts) (entries : List DirEntry) (loaded : List LoadedContract)
    (contracts : List IrContract) (hwatch : opts.watch=false)
    (hload : loadContracts T (S.before opts.src) entries=some loaded) (hsome : loaded≠[])
    (hlower : lowerContracts T loaded=some contracts) : runCli S T opts tmp entries=
      tsTasks S T opts contracts++pyTasks S T opts tmp contracts++manifestTasks T opts contracts := by
  cases loaded with
  | nil => exact (hsome rfl).elim
  | cons l loaded =>
    unfold runCli
    rw [hwatch,hload]
    dsimp only
    rw [hlower]
    rfl

theorem mem_written_ts (contracts : List IrContract) (path : String) (value : Option String)
    (h : (path,value)∈written (tsTasks S T opts contracts)) :
    ∃ c∈contracts, ∃ dir, path=S.join dir (c.service++".ts") := by
  rw [mem_written] at h
  unfold tsTasks at h
  split at h
  · cases h
  · cases List.mem_singleton.mp h
  · rename_i dir importPath _ _
    obtain ⟨f,hf,heq⟩ := List.mem_map.mp h
    obtain ⟨c,hc,rfl⟩ := List.mem_map.mp hf
    exact ⟨c,hc,dir,(JobTask.write.inj heq).1.symm⟩

theorem manifest_not_module (tmp : TempDirs S opts) (contracts : List IrContract) (path : String)
    (hm : truthy opts.manifest=some path) (hapart : ManifestApart S path contracts) :
    path∉(written (tsTasks S T opts contracts++pyTasks S T opts tmp contracts)).map Prod.fst := by
  intro h
  obtain ⟨⟨_,value⟩,hmem,rfl⟩ := List.mem_map.mp h
  rw [written_append,List.mem_append] at hmem
  rcases hmem with hts | hpy
  · obtain ⟨c,hc,dir,heq⟩ := mem_written_ts contracts _ value hts
    exact (hapart c hc dir).1 heq
  · cases hd : truthy opts.outPy with
    | none =>
      rw [pyTasks,hd] at hpy
      cases hpy
    | some dir =>
      rcases mem_written_py tmp hd _ value hpy with ⟨dir',hd',k,htemp⟩ | ⟨c,hc,heq⟩
      · exact tmp.apart dir' _ hd' hm k htemp
      · exact (hapart c hc dir).2 heq

/- The temporary directories are gone when the modules are written. -/
theorem modules_temp (tmp : TempDirs S opts) (contracts : List IrContract) (files : String → Option String)
    (hs : ∀ c∈contracts, serviceRe c.service.toList=true)
    (hno : .throws∉tsTasks S T opts contracts++pyTasks S T opts tmp contracts) (path : String)
    (hpath : tmp.Has path) (hnone : files path=none) :
    writeAll (written (tsTasks S T opts contracts++pyTasks S T opts tmp contracts)) files path=none := by
  rw [List.mem_append,not_or] at hno
  obtain ⟨dir,hd,_⟩ := id hpath
  rw [written_append,writeAll_append]
  refine (pyTasks_files tmp hd hs hno.2 _ path).2 hpath ?_
  rw [writeAll_of_not_mem _ _ _ ?_]
  · exact hnone
  · intro hmem
    obtain ⟨⟨_,value⟩,hw,rfl⟩ := List.mem_map.mp hmem
    obtain ⟨c,hc,dir',heq⟩ := mem_written_ts contracts _ value hw
    dsimp only at heq hpath
    rw [heq] at hpath
    exact tsPath_not_temp tmp dir' c.service (hs c hc) hpath

/-! ### One run and another -/

/-- What a run writes besides its temporary files. -/
def outputs (S : Surroundings) (T : Toolchain) (opts : CliOptions) (contracts : List IrContract) :
    List (String × Option String) :=
  written (tsTasks S T opts contracts)++(match truthy opts.outPy with
    | none => []
    | some dir => pyOutputs S T dir contracts)++written (manifestTasks T opts contracts)

theorem tasks_files (tmp : TempDirs S opts) (contracts : List IrContract)
    (hs : ∀ c∈contracts, serviceRe c.service.toList=true)
    (hno : .throws∉pyTasks S T opts tmp contracts) (files : String → Option String) (path : String)
    (hpath : ¬tmp.Has path) :
    writeAll (written (tsTasks S T opts contracts++pyTasks S T opts tmp contracts++
      manifestTasks T opts contracts)) files path=writeAll (outputs S T opts contracts) files path := by
  unfold outputs
  rw [written_append,written_append,writeAll_append,writeAll_append,writeAll_append,writeAll_append]
  apply writeAll_congr
  cases hd : truthy opts.outPy with
  | none =>
    rw [pyTasks,hd]
    rfl
  | some dir => exact (pyTasks_files tmp hd hs hno _ path).1 hpath

theorem tasks_keys (tmp : TempDirs S opts) (contracts : List IrContract) (path : String)
    (h : path∈(written (tsTasks S T opts contracts++pyTasks S T opts tmp contracts++
      manifestTasks T opts contracts)).map Prod.fst) :
    tmp.Has path ∨ path∈(outputs S T opts contracts).map Prod.fst := by
  unfold outputs
  rw [written_append,written_append,List.map_append,List.map_append,List.mem_append,List.mem_append] at h
  rw [List.map_append,List.map_append,List.mem_append,List.mem_append]
  rcases h with (hts | hpy) | hm
  · exact Or.inr (Or.inl (Or.inl hts))
  · obtain ⟨⟨_,value⟩,hw,rfl⟩ := List.mem_map.mp hpy
    cases hd : truthy opts.outPy with
    | none =>
      rw [pyTasks,hd] at hw
      cases hw
    | some dir =>
      rcases mem_written_py tmp hd _ value hw with htemp | ⟨c,hc,heq⟩
      · exact Or.inl htemp
      · refine Or.inr (Or.inl (Or.inr ?_))
        exact List.mem_map.mpr ⟨_,List.mem_map.mpr ⟨c,hc,rfl⟩,heq.symm⟩
  · exact Or.inr (Or.inr hm)

/- Whether `datamodel-codegen` fails does not depend on the directory. -/
theorem throws_pyTasks (tmp tmp' : TempDirs S opts) (contracts : List IrContract)
    (h : .throws∉pyTasks S T opts tmp contracts) : .throws∉pyTasks S T opts tmp' contracts := by
  cases hd : truthy opts.outPy with
  | none =>
    rw [pyTasks,hd]
    exact List.not_mem_nil
  | some dir =>
    rw [pyTasks_eq tmp hd] at h
    rw [pyTasks_eq tmp' hd]
    intro hmem
    obtain ⟨c,hc,hthrows⟩ := List.mem_flatMap.mp hmem
    refine h (List.mem_flatMap.mpr ⟨c,hc,?_⟩)
    unfold pyFileTasks pyFile at hthrows ⊢
    dsimp only at hthrows ⊢
    split at hthrows
    · split at hthrows
      · simp [tempFiles] at hthrows
      · simp
    · simp

/-! ### A run -/

section
variable {tmp : TempDirs S opts} {entries : List DirEntry} {loaded : List LoadedContract}
  {contracts : List IrContract} {files : String → Option String} {j : Job String (Option String)}
  (hwatch : opts.watch=false) (hload : loadContracts T (S.before opts.src) entries=some loaded)
  (ha : ∀ l∈loaded, l.contract.Accepted) (hlower : lowerContracts T loaded=some contracts)
  (hapart : ∀ path, truthy opts.manifest=some path → ManifestApart S path contracts)
  (hcame : Came (runCli S T opts tmp entries) files j)
include hwatch hload ha hlower hapart hcame

theorem manifest_changed (path : String) (hm : truthy opts.manifest=some path)
    (hchanged : j.files path≠files path) (c : IrContract) (hc : lastNamed c.service contracts=some c) :
    MadeFrom S T opts j.files c ∧ ∀ temp, tmp.Has temp → files temp=none → j.files temp=none := by
  have hmem : c∈contracts := (List.mem_filter.mp (List.mem_of_getLast? hc)).1
  have hsome := loaded_of_mem loaded contracts hlower c hmem
  have hs := accepted_services loaded contracts ha hlower
  rw [runCli_eq tmp entries loaded contracts hwatch hload hsome hlower,manifestTasks,hm] at hcame
  obtain ⟨hno,hsame⟩ := hcame.last (manifest_not_module tmp contracts path hm (hapart path hm)) hchanged
  refine ⟨(made_modules tmp contracts files hs hno c hc).aside (hapart path hm c hmem) hsame,
    fun temp htemp hnone => ?_⟩
  obtain ⟨dir,hd,k,hk⟩ := id htemp
  rw [hsame temp fun heq => tmp.apart dir path hd hm k (heq ▸ hk)]
  exact modules_temp tmp contracts files hs hno temp htemp hnone

theorem run_done (hdone : j.Done) (c : IrContract) (hc : lastNamed c.service contracts=some c) :
    MadeFrom S T opts j.files c ∧ (∀ path, truthy opts.manifest=some path →
      ∃ text, j.files path=some text ∧ Vouches text c) ∧
    ∀ temp, tmp.Has temp → files temp=none → j.files temp=none := by
  have hmem : c∈contracts := (List.mem_filter.mp (List.mem_of_getLast? hc)).1
  have hsome := loaded_of_mem loaded contracts hlower c hmem
  have hs := accepted_services loaded contracts ha hlower
  obtain ⟨hno,hfiles⟩ := hcame.done hdone
  rw [runCli_eq tmp entries loaded contracts hwatch hload hsome hlower] at hno hfiles
  rw [List.mem_append,not_or] at hno
  have hmade := made_modules tmp contracts files hs hno.1 c hc
  have hgone := modules_temp tmp contracts files hs hno.1
  rw [written_append,writeAll_append] at hfiles
  cases hm : truthy opts.manifest with
  | none =>
    rw [manifestTasks,hm] at hfiles
    rw [hfiles]
    refine ⟨hmade,fun path hpath => ?_,hgone⟩
    cases hpath
  | some path =>
    rw [manifestTasks,hm] at hfiles
    have hsame : ∀ k, k≠path → j.files k=writeAll (written
        (tsTasks S T opts contracts++pyTasks S T opts tmp contracts)) files k := by
      intro k hk
      rw [hfiles]
      exact Function.update_of_ne hk _ _
    refine ⟨hmade.aside (hapart path hm c hmem) hsame,fun path' hpath => ?_,fun temp htemp hnone => ?_⟩
    · cases hpath
      refine ⟨_,?_,manifest_vouches loaded contracts ha hlower c hc⟩
      rw [hfiles]
      exact Function.update_self path _ _
    · obtain ⟨dir,hd,k,hk⟩ := id htemp
      rw [hsame temp fun heq => tmp.apart dir path hd hm k (heq ▸ hk)]
      exact hgone temp htemp hnone

omit hapart in
/- Two complete runs, one over what another run left. -/
theorem run_again (tmp1 tmp2 : TempDirs S opts) {j1 j2 : Job String (Option String)}
    (h1 : Came (runCli S T opts tmp1 entries) files j1) (hd1 : j1.Done)
    (h2 : Came (runCli S T opts tmp2 entries) j.files j2) (hd2 : j2.Done) (path : String)
    (hpath : ¬tmp.Has path) (hpath1 : ¬tmp1.Has path) (hpath2 : ¬tmp2.Has path) :
    j2.files path=j1.files path := by
  have hs := accepted_services loaded contracts ha hlower
  obtain ⟨hno1,hfiles1⟩ := h1.done hd1
  obtain ⟨hno2,hfiles2⟩ := h2.done hd2
  by_cases hsome : loaded=[]
  · have hnil : ∀ tmp : TempDirs S opts, runCli S T opts tmp entries=[] := by
      intro tmp
      unfold runCli
      rw [hwatch,hload,hsome]
      rfl
    rw [hnil] at hcame hfiles1 hfiles2
    rw [hfiles1,hfiles2]
    exact hcame.aside List.not_mem_nil
  · rw [runCli_eq tmp1 entries loaded contracts hwatch hload hsome hlower] at hno1 hfiles1
    rw [runCli_eq tmp2 entries loaded contracts hwatch hload hsome hlower] at hno2 hfiles2
    rw [runCli_eq tmp entries loaded contracts hwatch hload hsome hlower] at hcame
    simp only [List.mem_append,not_or] at hno1 hno2
    rw [hfiles1,hfiles2,tasks_files tmp1 contracts hs hno1.1.2 files path hpath1,
      tasks_files tmp2 contracts hs hno2.1.2 j.files path hpath2]
    by_cases hout : path∈(outputs S T opts contracts).map Prod.fst
    · exact writeAll_anew _ _ _ _ hout
    · refine writeAll_congr _ _ _ _ (hcame.aside fun hkey => ?_)
      exact (tasks_keys tmp contracts path hkey).elim hpath hout

omit ha hapart hcame in
theorem throws_runCli (tmp1 tmp2 : TempDirs S opts) (h : .throws∉runCli S T opts tmp1 entries) :
    .throws∉runCli S T opts tmp2 entries := by
  by_cases hsome : loaded=[]
  · unfold runCli
    rw [hwatch,hload,hsome]
    exact List.not_mem_nil
  · rw [runCli_eq tmp1 entries loaded contracts hwatch hload hsome hlower] at h
    rw [runCli_eq tmp2 entries loaded contracts hwatch hload hsome hlower]
    simp only [List.mem_append,not_or] at h ⊢
    exact ⟨⟨h.1.1,throws_pyTasks tmp1 tmp2 contracts h.1.2⟩,h.2⟩

end

/-- However a run of codegen ends, each file is what it was or what the run writes there, but for one
that a failed write has torn. If the manifest has changed, each service has the modules that were made
from its last contract; after a run that did not fail the manifest has entries for that contract's
methods too; and in both cases the temporary files are gone. To run codegen again over what a run left
is to run it over what that run began with, but for the temporary files. -/
theorem codegen_run (S : Surroundings) (T : Toolchain) (opts : CliOptions) (tmp : TempDirs S opts)
    (entries : List DirEntry) (loaded : List LoadedContract) (contracts : List IrContract)
    (hwatch : opts.watch=false) (hload : loadContracts T (S.before opts.src) entries=some loaded)
    (ha : ∀ l∈loaded, l.contract.Accepted) (hlower : lowerContracts T loaded=some contracts)
    (hapart : ∀ path, truthy opts.manifest=some path → ManifestApart S path contracts)
    (files : String → Option String) (as : List (JobAct (Option String))) (j : Job String (Option String))
    (hrun : Base.run Job.step as ⟨files,runCli S T opts tmp entries,false⟩=some j) :
    (∃ torn, ∀ path, torn≠some path → j.files path=files path ∨
      ∃ content, .write path content∈runCli S T opts tmp entries ∧ j.files path=content) ∧
    (∀ path, truthy opts.manifest=some path → j.files path≠files path →
      ∀ c, lastNamed c.service contracts=some c → MadeFrom S T opts j.files c ∧
        ∀ temp, tmp.Has temp → files temp=none → j.files temp=none) ∧
    (j.Done → ∀ c, lastNamed c.service contracts=some c → MadeFrom S T opts j.files c ∧
      (∀ path, truthy opts.manifest=some path → ∃ text, j.files path=some text ∧ Vouches text c) ∧
      ∀ temp, tmp.Has temp → files temp=none → j.files temp=none) ∧
    ∀ tmp1 tmp2 as1 j1, Base.run Job.step as1 ⟨files,runCli S T opts tmp1 entries,false⟩=some j1 → j1.Done →
      (∃ as2 j2, Base.run Job.step as2 ⟨j.files,runCli S T opts tmp2 entries,false⟩=some j2 ∧ j2.Done) ∧
      ∀ as2 j2, Base.run Job.step as2 ⟨j.files,runCli S T opts tmp2 entries,false⟩=some j2 → j2.Done →
        ∀ path, ¬tmp.Has path → ¬tmp1.Has path → ¬tmp2.Has path → j2.files path=j1.files path := by
  have hcame := came_run as hrun
  refine ⟨hcame.file,fun path hm hchanged c hc => ?_,fun hdone c hc => ?_,fun tmp1 tmp2 as1 j1 h1 hd1 => ?_⟩
  · exact manifest_changed hwatch hload ha hlower hapart hcame path hm hchanged c hc
  · exact run_done hwatch hload ha hlower hapart hcame hdone c hc
  · have hno := ((came_run as1 h1).done hd1).1
    refine ⟨job_completes _ j.files (throws_runCli hwatch hload hlower tmp1 tmp2 hno),
      fun as2 j2 h2 hd2 path hpath hpath1 hpath2 => ?_⟩
    exact run_again hwatch hload ha hlower hcame tmp1 tmp2 (came_run as1 h1) hd1 (came_run as2 h2) hd2
      path hpath hpath1 hpath2

/-- Two files that export contracts of one service; the write of the manifest fails at once. -/
def posix : Surroundings where
  join := fun dir name => dir++"/"++name
  before := fun dir => dir++"/"
  join_plain := fun _ _ _ => rfl
  before_join := fun _ _ _ => rfl
  print := fun _ => "\x7b\x7d"
  datamodelCodegen := fun _ => (some "class Params(BaseModel):\n    pass\n",true)

def allOutputs : CliOptions :=
  ⟨"/contracts",some "/ts",some "/py",some "/manifest.json",some "../contracts.js",false⟩

def oneTemp : TempDirs posix allOutputs where
  name := fun _ => ".tmp-a1b2c3"
  plain := fun _ => ⟨by decide,by decide,by decide,by decide⟩
  apart := by
    intro dir path hd hm k
    cases hd
    cases hm
    decide

theorem codegen_run_users : ∃ j, Base.run Job.step (List.replicate 12 .next++[.tear (some "\x7b")])
      ⟨fun _ => none,runCli posix emptyObjects allOutputs oneTemp usersFiles,false⟩=some j ∧
    j.files "/manifest.json"=some "\x7b" ∧
    MadeFrom posix emptyObjects allOutputs j.files (usersIr "put" "/contracts/write.ts") := by
  have hload : loadContracts emptyObjects (posix.before allOutputs.src) usersFiles=
      some [⟨users "get","/contracts/read.ts"⟩,⟨users "put","/contracts/write.ts"⟩] := usersFiles_loaded
  have ha : ∀ l∈[LoadedContract.mk (users "get") "/contracts/read.ts",⟨users "put","/contracts/write.ts"⟩],
      l.contract.Accepted := by
    have husers : ∀ name, methodsProblem (users name).methods=none → (users name).Accepted :=
      fun name => accepted_of_valid (users name) (by decide : serviceRe "users".toList=true)
    intro l hl
    rcases List.mem_pair.mp hl with rfl | rfl
    · exact husers "get" rfl
    · exact husers "put" rfl
  have hapart : ∀ path, truthy allOutputs.manifest=some path → ManifestApart posix path
      [usersIr "get" "/contracts/read.ts",usersIr "put" "/contracts/write.ts"] := by
    rintro path hpath c hc dir
    cases hpath
    refine ⟨fun h => ?_,fun h => ?_⟩
    · have hlast := congrArg (fun path : String => path.toList.getLast?)
        (show "/manifest.json"=posix.before dir++(c.service++".ts") from h)
      simp at hlast
    · have hlast := congrArg (fun path : String => path.toList.getLast?)
        (show "/manifest.json"=posix.before dir++(c.service++".py") from h)
      simp at hlast
  have hrun : ∃ j, Base.run Job.step (List.replicate 12 .next++[.tear (some "\x7b")])
      ⟨fun _ => none,runCli posix emptyObjects allOutputs oneTemp usersFiles,false⟩=some j ∧
        j.files "/manifest.json"=some "\x7b" := by
    rw [runCli_eq oneTemp usersFiles _ _ rfl hload (List.cons_ne_nil _ _) usersFiles_lowered]
    refine ⟨_,rfl,?_⟩
    dsimp only
    rw [Function.update_self]
  obtain ⟨j,hrun,htorn⟩ := hrun
  obtain ⟨_,hchanged,_⟩ := codegen_run posix emptyObjects allOutputs oneTemp usersFiles _ _ rfl hload ha
    usersFiles_lowered hapart _ _ j hrun
  refine ⟨j,hrun,htorn,(hchanged "/manifest.json" rfl ?_ _ rfl).1⟩
  rw [htorn]
  exact Option.some_ne_none _

end Clamator.Codegen
