import Clamator.Codegen.Manifest

/-!
# Codegen and the order of its input (`codegen/src/load.ts`, `lower.ts`)

`readdir` may list a directory in any order, and a contract may declare its methods
in any order. Three sorts make one order of them; ties are between the exports of
one file, whose order is fixed.
-/

namespace Clamator.Codegen
open Clamator.Base Clamator.Protocol

/-! ### Two listings -/

inductive SameExport : Export → Export → Prop where
  | contract (v w : ContractValue) : v.service=w.service → v.methods.Perm w.methods →
      SameExport (.contract v) (.contract w)
  | other : SameExport .other .other

/-- The same file; a contract in it may declare its methods in another order. -/
structure SameEntry (e e' : DirEntry) : Prop where
  name : e.name=e'.name
  isFile : e.isFile=e'.isFile
  exports : Option.Rel (List.Forall₂ SameExport) e.exports e'.exports

/-- The same files, listed in another order. -/
def Relisted (entries entries' : List DirEntry) : Prop :=
  ∃ mid, entries.Perm mid ∧ List.Forall₂ SameEntry mid entries'

/-! ### What is generated -/

section
variable (T : Toolchain) (base : String)

def irOf (entries : List DirEntry) : Option (List IrContract) :=
  (loadContracts T base entries).bind (lowerContracts T)

/-- All that a run of codegen writes: the manifest, the TypeScript files, the Python files. -/
structure Generated where
  manifest : String
  ts : List (String × String)
  py : List PyFile

def generate (importPath : String) (entries : List DirEntry) : Option Generated :=
  (irOf T base entries).map fun contracts =>
    ⟨writeManifest T contracts,emitTs T.version importPath contracts,emitPy T.version contracts⟩

def bySourceAndFile : IrContract → IrContract → Ordering :=
  compareLex (fun a b => T.localeCompare a.service b.service)
    fun a b => T.localeCompare a.sourceFile b.sourceFile

instance : Std.TransCmp (bySourceAndFile T) :=
  have : Std.TransCmp fun a b : IrContract => T.localeCompare a.service b.service :=
    transCmp_key T.localeCompare IrContract.service
  have : Std.TransCmp fun a b : IrContract => T.localeCompare a.sourceFile b.sourceFile :=
    transCmp_key T.localeCompare IrContract.sourceFile
  inferInstanceAs (Std.TransCmp (compareLex _ _))

/- The contracts of one file. -/
def lowerEntry (e : DirEntry) : Option (List IrContract) :=
  (e.load base).bind fun loaded => loaded.mapM (lowerContract T)

/-- Lowering each file's contracts first and sorting twice then gives the same. -/
theorem irOf_eq (entries : List DirEntry) : irOf T base entries=
    ((entries.filter DirEntry.selected).mapM (lowerEntry T base)).map fun out =>
      sortBy (byService T) (sortBy (bySourceAndFile T) out.flatten) := by
  have hlower : ∀ a a' b b', lowerContract T a=some b → lowerContract T a'=some b' →
      bySourceOrder T a a'=bySourceAndFile T b b' := by
    intro a a' b b' hb hb'
    obtain ⟨hs,hf,_⟩ := lowerContract_spec T a b hb
    obtain ⟨hs',hf',_⟩ := lowerContract_spec T a' b' hb'
    simp only [bySourceOrder,bySourceAndFile,compareLex,hs,hf,hs',hf']
  have hcombine : (entries.filter DirEntry.selected).mapM (lowerEntry T base)=
      ((entries.filter DirEntry.selected).mapM (DirEntry.load base)).bind fun out =>
        out.mapM fun loaded => loaded.mapM (lowerContract T) := (mapM_bind _ _ _).symm
  rw [irOf,loadContracts,hcombine]
  cases (entries.filter DirEntry.selected).mapM (DirEntry.load base) with
  | none => rfl
  | some out =>
    simp only [Option.map_some,Option.bind_some,lowerContracts]
    rw [mapM_sortBy _ (bySourceAndFile T) _ hlower,mapM_flatten]
    cases out.mapM fun loaded : List LoadedContract => loaded.mapM (lowerContract T) <;> rfl

end

theorem lowerEntry_file {T : Toolchain} (base : String) (e : DirEntry) (cs : List IrContract)
    (h : lowerEntry T base e=some cs) (c : IrContract) (hc : c∈cs) : c.sourceFile=base++e.name := by
  obtain ⟨loaded,hl,hcs⟩ := Option.bind_eq_some_iff.mp h
  obtain ⟨exports,_,rfl⟩ := Option.map_eq_some_iff.mp hl
  obtain ⟨l,hl,hlc⟩ := (mem_of_mapM _ _ _ hcs c).mp hc
  rw [(lowerContract_spec T l c hlc).2.1]
  obtain ⟨x,_,hx⟩ := List.mem_filterMap.mp hl
  cases x with
  | other => cases hx
  | contract v =>
    cases hx
    rfl

/-! ### Methods in another order -/

section
variable {T : Toolchain} [Std.LawfulEqCmp T.localeCompare]

theorem lowerContract_perm (v w : ContractValue) (file : String) (hs : v.service=w.service)
    (hm : v.methods.Perm w.methods) : lowerContract T ⟨v,file⟩=lowerContract T ⟨w,file⟩ := by
  unfold lowerContract
  cases hv : v.methods.mapM (lowerMethod T) with
  | none =>
    obtain ⟨m,hmem,hnone⟩ := (mapM_eq_none_iff _ _).mp hv
    rw [(mapM_eq_none_iff _ _).mpr ⟨m,hm.mem_iff.mp hmem,hnone⟩]
    rfl
  | some bs =>
    obtain ⟨cs,hcs,hperm⟩ := mapM_perm _ _ _ hm bs hv
    have hnames : ((sortBy (byName T) bs).map IrMethod.name).Perm v.names :=
      lowerContract_names T ⟨v,file⟩ _ (by rw [lowerContract,hv]; rfl)
    have hnodup : (bs.map IrMethod.name).Nodup :=
      (((sortBy_perm (byName T) bs).map _).symm.trans hnames).nodup_iff.mpr v.names_nodup
    have hdiffer : bs.Pairwise fun a b => byName T a b≠.eq := by
      refine (List.pairwise_map.mp hnodup).imp fun {a b} hab he => hab ?_
      exact Std.LawfulEqCmp.eq_of_compare he
    rw [hcs,Option.map_some,Option.map_some,hs,sortBy_perm_eq (byName T) bs cs hperm hdiffer]

/- The contracts of a list of exports. -/
def loadExports (file : String) (exports : List Export) : List LoadedContract :=
  exports.filterMap fun
    | .contract c => some ⟨c,file⟩
    | .other => none

theorem lowerExports_same (file : String) (xs ys : List Export) (h : List.Forall₂ SameExport xs ys) :
    (loadExports file xs).mapM (lowerContract T)=(loadExports file ys).mapM (lowerContract T) := by
  induction h with
  | nil => rfl
  | cons hxy _ ih =>
    cases hxy with
    | other => exact ih
    | contract v w hs hm =>
      have hv : ∀ v xs, loadExports file (.contract v::xs)=⟨v,file⟩::loadExports file xs := fun _ _ => rfl
      rw [hv,hv,mapM_cons_eq,mapM_cons_eq,ih,lowerContract_perm v w file hs hm]

theorem lowerEntry_same (base : String) (e e' : DirEntry) (h : SameEntry e e') :
    lowerEntry T base e=lowerEntry T base e' := by
  obtain ⟨name,isFile,exports⟩ := e
  obtain ⟨name',isFile',exports'⟩ := e'
  obtain ⟨hn,_,hx⟩ := h
  simp only at hn hx
  have hload : ∀ e : DirEntry, e.load base=e.exports.map (loadExports (base++e.name)) := fun _ => rfl
  rw [lowerEntry,lowerEntry,hload,hload,hn]
  cases hx with
  | none => rfl
  | some hx => exact lowerExports_same _ _ _ hx

theorem selected_same (e e' : DirEntry) (h : SameEntry e e') : e.selected=e'.selected := by
  rw [DirEntry.selected,DirEntry.selected,h.name,h.isFile]

theorem lowerEntries_same (base : String) (entries entries' : List DirEntry)
    (h : List.Forall₂ SameEntry entries entries') :
    (entries.filter DirEntry.selected).mapM (lowerEntry T base)=
      (entries'.filter DirEntry.selected).mapM (lowerEntry T base) := by
  induction h with
  | nil => rfl
  | cons hee _ ih =>
    rw [List.filter_cons,List.filter_cons,selected_same _ _ hee]
    split
    · rw [mapM_cons_eq,mapM_cons_eq,ih,lowerEntry_same base _ _ hee]
    · exact ih

/-! ### Files in another order -/

/- Contracts that tie come from one file. -/
theorem classes_apart (base : String) (x : IrContract) (a b : DirEntry) (hab : a.name≠b.name) :
    classOf (bySourceAndFile T) x ((lowerEntry T base a).getD [])=[] ∨
      classOf (bySourceAndFile T) x ((lowerEntry T base b).getD [])=[] := by
  have hfile : ∀ e : DirEntry, classOf (bySourceAndFile T) x ((lowerEntry T base e).getD [])≠[] →
      x.sourceFile=base++e.name := by
    intro e hne
    obtain ⟨c,hc⟩ := List.exists_mem_of_ne_nil _ hne
    obtain ⟨hmem,hcmp⟩ := List.mem_filter.mp hc
    have hfiles : T.localeCompare x.sourceFile c.sourceFile=.eq :=
      (compareLex_eq_eq.mp (beq_iff_eq.mp hcmp)).2
    have hx : x.sourceFile=c.sourceFile := Std.LawfulEqCmp.eq_of_compare hfiles
    cases hl : lowerEntry T base e with
    | none =>
      rw [hl] at hmem
      exact absurd hmem List.not_mem_nil
    | some cs =>
      rw [hl] at hmem
      rw [hx,lowerEntry_file base e cs hl c hmem]
  by_contra h
  rw [not_or] at h
  have := (hfile a h.1).symm.trans (hfile b h.2)
  exact hab (String.append_right_inj _ |>.mp this)

theorem lowerEntries_perm (base : String) (files files' : List DirEntry) (hp : files.Perm files')
    (hn : files.Pairwise fun a b => a.name≠b.name) :
    ((files.mapM (lowerEntry T base)).map fun out => sortBy (bySourceAndFile T) out.flatten)=
      (files'.mapM (lowerEntry T base)).map fun out => sortBy (bySourceAndFile T) out.flatten := by
  have hflat : ∀ (files : List DirEntry) (out : List (List IrContract)),
      files.mapM (lowerEntry T base)=some out →
      out.flatten=files.flatMap fun e => (lowerEntry T base e).getD [] := by
    intro files out h
    have hmap := (mapM_eq_some_iff _ _ _).mp h
    have hget := congrArg (List.map fun o : Option (List IrContract) => o.getD []) hmap
    rw [List.map_map,List.map_map] at hget
    have hid : (fun o : Option (List IrContract) => o.getD []) ∘ some=fun x => x := rfl
    rw [hid,List.map_id'] at hget
    rw [← hget]
    rfl
  cases h : files.mapM (lowerEntry T base) with
  | none =>
    obtain ⟨e,he,hnone⟩ := (mapM_eq_none_iff _ _).mp h
    rw [(mapM_eq_none_iff _ _).mpr ⟨e,hp.mem_iff.mp he,hnone⟩]
  | some out =>
    obtain ⟨out',h',_⟩ := mapM_perm _ _ _ hp out h
    rw [h',Option.map_some,Option.map_some,hflat files out h,hflat files' out' h']
    refine congrArg some (sortBy_flatMap_perm _ _ _ _ hp fun x => hn.imp fun {a b} hab => ?_)
    exact classes_apart base x a b hab

/-- Two listings of one directory have one intermediate representation. -/
theorem irOf_relisted (base : String) (entries entries' : List DirEntry)
    (hn : (entries.map DirEntry.name).Nodup) (h : Relisted entries entries') :
    irOf T base entries=irOf T base entries' := by
  obtain ⟨mid,hp,hsame⟩ := h
  have hnames : (entries.filter DirEntry.selected).Pairwise fun a b => a.name≠b.name :=
    (List.pairwise_map.mp hn).filter _
  have hperm := lowerEntries_perm base _ _ (hp.filter DirEntry.selected) hnames (T := T)
  have hstep : ∀ entries, irOf T base entries=
      (((entries.filter DirEntry.selected).mapM (lowerEntry T base)).map fun out =>
        sortBy (bySourceAndFile T) out.flatten).map (sortBy (byService T)) := by
    intro entries
    rw [irOf_eq,Option.map_map]
    rfl
  rw [hstep,hstep,hperm,lowerEntries_same base mid entries' hsame]

end

/-- Neither the order in which the directory lists its files nor the order in which contracts
declare their methods is seen in what codegen makes. -/
theorem codegen_order_independent (T : Toolchain) (base importPath : String)
    (entries entries' : List DirEntry) (hcmp : Std.LawfulEqCmp T.localeCompare)
    (hn : (entries.map DirEntry.name).Nodup) (h : Relisted entries entries') :
    irOf T base entries=irOf T base entries' ∧
      generate T base importPath entries=generate T base importPath entries' := by
  have hir := irOf_relisted (T := T) base entries entries' hn h
  refine ⟨hir,?_⟩
  rw [generate,generate,hir]

theorem startStop_nodup : ([("start",noted),("stop",noted)].map Prod.fst).Nodup := by simp

theorem stopStart_nodup : ([("stop",noted),("start",noted)].map Prod.fst).Nodup := by simp

/-- Two files, and the same two listed the other way round. -/
def engineFiles : List DirEntry :=
  [⟨"engine.ts",true,some [.contract ⟨"engine",[("start",noted),("stop",noted)],startStop_nodup⟩]⟩,
    ⟨"notes.ts",true,some [.other]⟩]

def engineFiles' : List DirEntry :=
  [⟨"notes.ts",true,some [.other]⟩,
    ⟨"engine.ts",true,some [.contract ⟨"engine",[("stop",noted),("start",noted)],stopStart_nodup⟩]⟩]

theorem engineFiles_relisted : Relisted engineFiles engineFiles' := by
  refine ⟨_,List.Perm.swap _ _ _,.cons ⟨rfl,rfl,.some (.cons .other .nil)⟩ (.cons ⟨rfl,rfl,?_⟩ .nil)⟩
  exact .some (.cons (.contract _ _ rfl (List.Perm.swap _ _ _)) .nil)

theorem codegen_order_engine : irOf emptyObjects "/src/" engineFiles=irOf emptyObjects "/src/" engineFiles' ∧
    generate emptyObjects "/src/" "../contracts.js" engineFiles=
      generate emptyObjects "/src/" "../contracts.js" engineFiles' :=
  codegen_order_independent emptyObjects "/src/" "../contracts.js" engineFiles engineFiles'
    asciiCompare_lawful (by simp [engineFiles]) engineFiles_relisted

end Clamator.Codegen
