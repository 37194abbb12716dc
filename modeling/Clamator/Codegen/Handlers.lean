import Clamator.Codegen.Emit

/-!
# One Python method for each wire method (`codegen/src/case.ts`, `emit-py.ts`)

The generated classes and the METHODS table name a method by `camelToSnake` of its
wire name. In a class body the last definition of a name is the one that stays.
-/

namespace Clamator.Codegen
open Clamator.Base Clamator.Protocol

/- The names of a class body and the wire methods behind them. -/
def namespaceOf (defs : List PyDef) : List (String × String) :=
  Assoc.assignAll [] (defs.map fun d => (d.name,d.wire))

/-- Different wire methods have different values of `handler_attr`, and in both classes the
method of that name is the one for the wire method. -/
structure OneHandler (c : IrContract) : Prop where
  attrs : ∀ m∈c.methods, ∀ m'∈c.methods, (handlerAttr m).1≠(handlerAttr m').1 →
    (handlerAttr m).2≠(handlerAttr m').2
  client : ∀ m∈c.methods,
    (namespaceOf (c.methods.map (clientDef c.service))).lookup (handlerAttr m).2=some m.name
  service : ∀ m∈c.methods, (namespaceOf (c.methods.map abcDef)).lookup (handlerAttr m).2=some m.name

/- Either class: what `def` binds is the snake-case name. -/
theorem namespaceOf_lookup (methods : List IrMethod) (toDef : IrMethod → PyDef)
    (hname : ∀ m, (toDef m).name=snakeName m.name) (hwire : ∀ m, (toDef m).wire=m.name)
    (hinj : ∀ m∈methods, ∀ m'∈methods, snakeName m.name=snakeName m'.name → m.name=m'.name)
    (m : IrMethod) (hm : m∈methods) :
    (namespaceOf (methods.map toDef)).lookup (snakeName m.name)=some m.name := by
  have hdefs : (methods.map toDef).map (fun d => (d.name,d.wire))=
      methods.map fun m => (snakeName m.name,m.name) := by
    rw [List.map_map]
    refine List.map_congr_left fun m _ => ?_
    simp only [Function.comp_apply,hname,hwire]
  rw [namespaceOf,hdefs,Assoc.lookup_assignAll]
  have hsome : ((methods.map fun m => (snakeName m.name,m.name)).reverse.lookup
      (snakeName m.name)).isSome=true := by
    rw [List.lookup_isSome_iff]
    refine ⟨(snakeName m.name,m.name),List.mem_reverse.mpr (List.mem_map_of_mem hm),?_⟩
    exact beq_self_eq_true _
  obtain ⟨w,hw⟩ := Option.isSome_iff_exists.mp hsome
  have hmem := List.mem_reverse.mp (Assoc.mem_of_lookup hw)
  obtain ⟨m',hm',he⟩ := List.mem_map.mp hmem
  obtain ⟨hs,rfl⟩ := Prod.mk.inj he
  rw [hw,hinj m hm m' hm' hs.symm]
  rfl

theorem oneHandler_iff_snake (c : IrContract) : OneHandler c ↔
    ∀ m∈c.methods, ∀ m'∈c.methods, snakeName m.name=snakeName m'.name → m.name=m'.name := by
  constructor
  · intro h m hm m' hm' hs
    by_contra hne
    exact h.attrs m hm m' hm' hne hs
  · intro h
    refine ⟨fun m hm m' hm' hne hs => hne (h m hm m' hm' hs),?_,?_⟩
    · exact namespaceOf_lookup c.methods (clientDef c.service) (fun _ => rfl) (fun _ => rfl) h
    · exact namespaceOf_lookup c.methods abcDef (fun _ => rfl) (fun _ => rfl) h

theorem snakeName_eq_iff (n m : String) (hn : methodRe n.toList=true) (hm : methodRe m.toList=true) :
    snakeName n=snakeName m ↔ soften 0 n.toList=soften 0 m.toList := by
  rw [← camelToSnake_eq_iff hn hm]
  refine ⟨fun h => ?_,fun h => by rw [snakeName,snakeName,h]⟩
  have := congrArg String.toList h
  simpa [snakeName] using this

/- The names of the methods are those of the contract, in the order of the sort. -/
theorem oneHandler_iff (T : Toolchain) (v : ContractValue) (file : String) (c : IrContract)
    (hv : v.Accepted) (hc : lowerContract T ⟨v,file⟩=some c) : OneHandler c ↔
      ∀ n∈v.names, ∀ m∈v.names, soften 0 n.toList=soften 0 m.toList → n=m := by
  have hmem : ∀ n, n∈v.names ↔ ∃ m∈c.methods, m.name=n := fun n => by
    rw [← (lowerContract_names T ⟨v,file⟩ c hc).mem_iff,List.mem_map]
  rw [oneHandler_iff_snake]
  constructor
  · intro h n hn m hm hs
    obtain ⟨x,hx,rfl⟩ := (hmem n).mp hn
    obtain ⟨y,hy,rfl⟩ := (hmem m).mp hm
    exact h x hx y hy ((snakeName_eq_iff _ _ (hv.name _ hn) (hv.name _ hm)).mpr hs)
  · intro h x hx y hy hs
    have hn := (hmem x.name).mpr ⟨x,hx,rfl⟩
    have hm := (hmem y.name).mpr ⟨y,hy,rfl⟩
    exact h _ hn _ hm ((snakeName_eq_iff _ _ (hv.name _ hn) (hv.name _ hm)).mp hs)

/-- A name comes back exactly when no three capitals in a row of it have anything but a
lower-case letter behind them; and the methods of a contract have handlers of their own exactly
when no two of them become one name with the capitals that get no underscore in lower case. -/
theorem handlers_iff (T : Toolchain) :
    (∀ n, methodRe n=true → (snakeToCamel (camelToSnake n)=n ↔ ¬ Loses n)) ∧
    (∀ n m, methodRe n=true → methodRe m=true →
      (camelToSnake n=camelToSnake m ↔ soften 0 n=soften 0 m)) ∧
    ∀ v file c, v.Accepted → lowerContract T ⟨v,file⟩=some c → (OneHandler c ↔
      ∀ n∈v.names, ∀ m∈v.names, soften 0 n.toList=soften 0 m.toList → n=m) := by
  refine ⟨fun n hn => ?_,fun n m hn hm => camelToSnake_eq_iff hn hm,oneHandler_iff T⟩
  rw [snakeToCamel_camelToSnake hn,soften_eq_iff]

/-! ### Three capitals -/

theorem aBC_nodup : ([("aBCD",noted),("aBCd",noted)].map Prod.fst).Nodup := by simp

/-- Two notifications that differ in the case of one letter. -/
def grid : ContractValue := ⟨"grid",[("aBCD",noted),("aBCd",noted)],aBC_nodup⟩

theorem accepted_of_valid (v : ContractValue) (hs : serviceRe v.service.toList=true)
    (hm : methodsProblem v.methods=none) : v.Accepted := ⟨_,defineContract_valid _ _ hs hm⟩

theorem grid_accepted : grid.Accepted := accepted_of_valid grid (by decide) rfl

theorem grid_lowered : lowerContract emptyObjects ⟨grid,"grid.ts"⟩=some
    ⟨"grid","grid.ts",sortBy (byName emptyObjects) (["aBCD","aBCd"].map notedMethod)⟩ :=
  lowerContract_noted grid (by simp [grid]) "grid.ts"

theorem handlers_grid : (snakeToCamel (camelToSnake "processId".toList)="processId".toList ↔
      ¬ Loses "processId".toList) ∧
    (camelToSnake "aBCD".toList=camelToSnake "aBCd".toList ↔
      soften 0 "aBCD".toList=soften 0 "aBCd".toList) ∧
    ∃ c, lowerContract emptyObjects ⟨grid,"grid.ts"⟩=some c ∧ (OneHandler c ↔
      ∀ n∈grid.names, ∀ m∈grid.names, soften 0 n.toList=soften 0 m.toList → n=m) := by
  obtain ⟨hback,hpair,hgrid⟩ := handlers_iff emptyObjects
  exact ⟨hback _ (by decide),hpair _ _ (by decide) (by decide),_,grid_lowered,
    hgrid grid "grid.ts" _ grid_accepted grid_lowered⟩

theorem grid_handlers_collide : snakeToCamel (camelToSnake "aBCD".toList)≠"aBCD".toList ∧
    camelToSnake "aBCD".toList=camelToSnake "aBCd".toList ∧ grid.Accepted ∧
    ∃ c, lowerContract emptyObjects ⟨grid,"grid.ts"⟩=some c ∧ ¬ OneHandler c := by
  refine ⟨by decide,by decide,grid_accepted,_,grid_lowered,fun h => ?_⟩
  have hnames := (oneHandler_iff emptyObjects grid "grid.ts" _ grid_accepted grid_lowered).mp h
  have heq := hnames "aBCD" (by simp [grid,ContractValue.names]) "aBCd"
    (by simp [grid,ContractValue.names]) (by decide)
  exact absurd heq (by decide)

end Clamator.Codegen
