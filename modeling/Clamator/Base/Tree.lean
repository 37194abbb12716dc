import Clamator.Base.Assoc
import Mathlib.Data.List.Basic

/-!
# Document trees

A tree over leaf values, arrays and objects: the shape that a JSON document, a
JavaScript value and a Python value share. The three differ in their leaves
only, so a parser is `map` and a serializer is `write`, both given on leaves.
An object is its members in order.
-/

namespace Clamator.Base

inductive JsonTree (L : Type) where
  | leaf (a : L)
  | arr (xs : List (JsonTree L))
  | obj (fs : List (String × JsonTree L))

namespace JsonTree
variable {L M N : Type}

theorem induct {P : JsonTree L → Prop} (leaf : ∀ a, P (.leaf a))
    (arr : ∀ xs, (∀ x∈xs, P x) → P (.arr xs))
    (obj : ∀ fs, (∀ kx∈fs, P kx.2) → P (.obj fs)) (t : JsonTree L) : P t :=
  JsonTree.rec (motive_1 := P) (motive_2 := fun xs => ∀ x∈xs, P x)
    (motive_3 := fun fs => ∀ kx∈fs, P kx.2) (motive_4 := fun kx => P kx.2)
    leaf arr obj
    (fun _ hx => (List.not_mem_nil hx).elim)
    (fun _ _ hx hxs y hy => (List.mem_cons.mp hy).elim (fun e => e ▸ hx) (hxs y))
    (fun _ hx => (List.not_mem_nil hx).elim)
    (fun _ _ hx hxs y hy => (List.mem_cons.mp hy).elim (fun e => e ▸ hx) (hxs y))
    (fun _ _ hx => hx) t

/-! ### Members -/

/-- Of members with one name the last one counts, as for both parsers. -/
def member (fs : List (String × JsonTree L)) (key : String) : Option (JsonTree L) :=
  fs.reverse.lookup key

@[simp] theorem member_nil (key : String) : member ([] : List (String × JsonTree L)) key=none := rfl

@[simp] theorem member_cons (k : String) (x : JsonTree L) (fs : List (String × JsonTree L)) (key : String) :
    member ((k,x)::fs) key=(member fs key).or (if key=k then some x else none) := by
  rw [member,List.reverse_cons,List.lookup_append,member,List.lookup_cons,List.lookup_nil]
  by_cases h : key=k
  · simp [h]
  · have hb : (key == k)=false := beq_false_of_ne h
    simp [h,hb]

theorem mem_of_member {fs : List (String × JsonTree L)} {key : String} {x : JsonTree L}
    (h : member fs key=some x) : (key,x)∈fs := List.mem_reverse.mp (Assoc.mem_of_lookup h)

def hasMember (fs : List (String × JsonTree L)) (key : String) : Bool := (member fs key).isSome

/-! ### Leaf-wise translation -/

mutual
def map (f : L → M) : JsonTree L → JsonTree M
  | .leaf a => .leaf (f a)
  | .arr xs => .arr (mapList f xs)
  | .obj fs => .obj (mapFields f fs)
def mapList (f : L → M) : List (JsonTree L) → List (JsonTree M)
  | [] => []
  | x::xs => map f x::mapList f xs
def mapFields (f : L → M) : List (String × JsonTree L) → List (String × JsonTree M)
  | [] => []
  | (k,x)::fs => (k,map f x)::mapFields f fs
end

theorem mapList_eq (f : L → M) (xs : List (JsonTree L)) : mapList f xs=xs.map (map f) := by
  induction xs with
  | nil => rfl
  | cons x xs ih => simp only [mapList,List.map_cons,ih]

theorem mapFields_eq (f : L → M) (fs : List (String × JsonTree L)) :
    mapFields f fs=fs.map fun kx => (kx.1,map f kx.2) := by
  induction fs with
  | nil => rfl
  | cons kx fs ih => simp only [mapFields,List.map_cons,ih]

theorem member_mapFields (f : L → M) (fs : List (String × JsonTree L)) (key : String) :
    member (mapFields f fs) key=(member fs key).map (map f) := by
  induction fs with
  | nil => rfl
  | cons kx fs ih =>
    obtain ⟨k,x⟩ := kx
    rw [mapFields,member_cons,member_cons,ih]
    by_cases hk : key=k <;> cases member fs key <;> simp [hk]

/-! ### Leaves -/

mutual
def All (P : L → Prop) : JsonTree L → Prop
  | .leaf a => P a
  | .arr xs => AllList P xs
  | .obj fs => AllFields P fs
def AllList (P : L → Prop) : List (JsonTree L) → Prop
  | [] => True
  | x::xs => All P x ∧ AllList P xs
def AllFields (P : L → Prop) : List (String × JsonTree L) → Prop
  | [] => True
  | (_,x)::fs => All P x ∧ AllFields P fs
end

theorem allList_iff (P : L → Prop) (xs : List (JsonTree L)) : AllList P xs ↔ ∀ x∈xs, All P x := by
  induction xs with
  | nil => simp [AllList]
  | cons x xs ih => simp only [AllList,ih,List.forall_mem_cons]

theorem allFields_iff (P : L → Prop) (fs : List (String × JsonTree L)) :
    AllFields P fs ↔ ∀ kx∈fs, All P kx.2 := by
  induction fs with
  | nil => simp [AllFields]
  | cons kx fs ih => simp only [AllFields,ih,List.forall_mem_cons]

theorem all_imp {P Q : L → Prop} (h : ∀ a, P a → Q a) (t : JsonTree L) (ht : All P t) : All Q t := by
  induction t using induct with
  | leaf a => exact h a ht
  | arr xs ih =>
    rw [All,allList_iff] at ht ⊢
    exact fun x hx => ih x hx (ht x hx)
  | obj fs ih =>
    rw [All,allFields_iff] at ht ⊢
    exact fun kx hkx => ih kx hkx (ht kx hkx)

theorem all_imp₂ {P Q R : L → Prop} (h : ∀ a, P a → Q a → R a) (t : JsonTree L) (hp : All P t)
    (hq : All Q t) : All R t := by
  induction t using induct with
  | leaf a => exact h a hp hq
  | arr xs ih =>
    rw [All,allList_iff] at hp hq ⊢
    exact fun x hx => ih x hx (hp x hx) (hq x hx)
  | obj fs ih =>
    rw [All,allFields_iff] at hp hq ⊢
    exact fun kx hkx => ih kx hkx (hp kx hkx) (hq kx hkx)

theorem all_of_forall {P : L → Prop} (h : ∀ a, P a) (t : JsonTree L) : All P t := by
  induction t using induct with
  | leaf a => exact h a
  | arr xs ih => exact (allList_iff P xs).mpr ih
  | obj fs ih => exact (allFields_iff P fs).mpr ih

theorem all_map (P : M → Prop) (f : L → M) (t : JsonTree L) :
    All P (map f t) ↔ All (fun a => P (f a)) t := by
  induction t using induct with
  | leaf a => exact Iff.rfl
  | arr xs ih =>
    simp only [map,mapList_eq,All,allList_iff,List.forall_mem_map]
    exact forall₂_congr ih
  | obj fs ih =>
    simp only [map,mapFields_eq,All,allFields_iff,List.forall_mem_map]
    exact forall₂_congr ih

/-! ### Leaf-wise comparison -/

mutual
/-- Same shape, and leaves related pairwise. -/
def Rel (R : L → M → Prop) : JsonTree L → JsonTree M → Prop
  | .leaf a,.leaf b => R a b
  | .arr xs,.arr ys => RelList R xs ys
  | .obj fs,.obj gs => RelFields R fs gs
  | _,_ => False
def RelList (R : L → M → Prop) : List (JsonTree L) → List (JsonTree M) → Prop
  | [],[] => True
  | x::xs,y::ys => Rel R x y ∧ RelList R xs ys
  | _,_ => False
def RelFields (R : L → M → Prop) : List (String × JsonTree L) → List (String × JsonTree M) → Prop
  | [],[] => True
  | (k,x)::fs,(l,y)::gs => k=l ∧ Rel R x y ∧ RelFields R fs gs
  | _,_ => False
end

/- Two translations of one tree agree exactly when they agree on its leaves. -/
theorem rel_map (R : M → N → Prop) (f : L → M) (g : L → N) (t : JsonTree L) :
    Rel R (map f t) (map g t) ↔ All (fun a => R (f a) (g a)) t := by
  induction t using induct with
  | leaf a => simp only [map,Rel,All]
  | arr xs ih =>
    simp only [map,Rel,All]
    induction xs with
    | nil => simp only [mapList,RelList,AllList]
    | cons x xs ihs =>
      simp only [mapList,RelList,AllList]
      rw [ih x List.mem_cons_self,ihs fun y hy => ih y (List.mem_cons_of_mem _ hy)]
  | obj fs ih =>
    simp only [map,Rel,All]
    induction fs with
    | nil => simp only [mapFields,RelFields,AllFields]
    | cons kx fs ihs =>
      obtain ⟨k,x⟩ := kx
      have hx := ih (k,x) List.mem_cons_self
      simp only at hx
      simp only [mapFields,RelFields,AllFields,true_and]
      rw [hx,ihs fun y hy => ih y (List.mem_cons_of_mem _ hy)]

/-! ### Serialization -/

/-- What a serializer makes of one value: a document, nothing (the value is
left out), or an exception. -/
inductive Slot (α : Type) where
  | keep (a : α)
  | skip
  | fail

def Slot.map {α β : Type} (f : α → β) : Slot α → Slot β
  | .keep a => .keep (f a)
  | .skip => .skip
  | .fail => .fail

mutual
/-- Serialize leaf by leaf: a skipped array element becomes `filler`, a skipped
member disappears, and one failing leaf fails the whole document. -/
def write (f : L → Slot M) (filler : M) : JsonTree L → Slot (JsonTree M)
  | .leaf a => (f a).map .leaf
  | .arr xs => match writeList f filler xs with
    | none => .fail
    | some ys => .keep (.arr ys)
  | .obj fs => match writeFields f filler fs with
    | none => .fail
    | some gs => .keep (.obj gs)
def writeList (f : L → Slot M) (filler : M) : List (JsonTree L) → Option (List (JsonTree M))
  | [] => some []
  | x::xs => match write f filler x,writeList f filler xs with
    | .keep y,some ys => some (y::ys)
    | .skip,some ys => some (.leaf filler::ys)
    | _,_ => none
def writeFields (f : L → Slot M) (filler : M) :
    List (String × JsonTree L) → Option (List (String × JsonTree M))
  | [] => some []
  | (k,x)::fs => match write f filler x,writeFields f filler fs with
    | .keep y,some gs => some ((k,y)::gs)
    | .skip,some gs => some gs
    | _,_ => none
end

theorem map_write (f : L → Slot M) (g : M → N) (n : L → Slot N) (filler : M)
    (h : ∀ a, (f a).map g=n a) (t : JsonTree L) :
    (write f filler t).map (map g)=write n (g filler) t := by
  induction t using induct with
  | leaf a =>
    simp only [write,← h a]
    cases f a <;> rfl
  | arr xs ih =>
    have key : (writeList f filler xs).map (mapList g)=writeList n (g filler) xs := by
      induction xs with
      | nil => rfl
      | cons x xs ihs =>
        have hx := ih x List.mem_cons_self
        have hxs := ihs fun y hy => ih y (List.mem_cons_of_mem _ hy)
        simp only [writeList,← hx,← hxs]
        cases write f filler x <;> cases writeList f filler xs <;> rfl
    simp only [write,← key]
    cases writeList f filler xs <;> rfl
  | obj fs ih =>
    have key : (writeFields f filler fs).map (mapFields g)=writeFields n (g filler) fs := by
      induction fs with
      | nil => rfl
      | cons kx fs ihs =>
        obtain ⟨k,x⟩ := kx
        have hx := ih (k,x) List.mem_cons_self
        have hxs := ihs fun y hy => ih y (List.mem_cons_of_mem _ hy)
        simp only at hx
        simp only [writeFields,← hx,← hxs]
        cases write f filler x <;> cases writeFields f filler fs <;> rfl
    simp only [write,← key]
    cases writeFields f filler fs <;> rfl

theorem write_congr (f g : L → Slot M) (filler : M) (t : JsonTree L)
    (h : All (fun a => f a=g a) t) : write f filler t=write g filler t := by
  induction t using induct with
  | leaf a =>
    simp only [All] at h
    simp only [write,h]
  | arr xs ih =>
    have key : writeList f filler xs=writeList g filler xs := by
      rw [All,allList_iff] at h
      induction xs with
      | nil => rfl
      | cons x xs ihs =>
        have hx := ih x List.mem_cons_self (h x List.mem_cons_self)
        have hxs := ihs (fun y hy => ih y (List.mem_cons_of_mem _ hy))
          (fun y hy => h y (List.mem_cons_of_mem _ hy))
        simp only [writeList,hx,hxs]
    simp only [write,key]
  | obj fs ih =>
    have key : writeFields f filler fs=writeFields g filler fs := by
      rw [All,allFields_iff] at h
      induction fs with
      | nil => rfl
      | cons kx fs ihs =>
        obtain ⟨k,x⟩ := kx
        have hx := ih (k,x) List.mem_cons_self (h (k,x) List.mem_cons_self)
        have hxs := ihs (fun y hy => ih y (List.mem_cons_of_mem _ hy))
          (fun y hy => h y (List.mem_cons_of_mem _ hy))
        simp only at hx
        simp only [writeFields,hx,hxs]
    simp only [write,key]

theorem write_keep (g : L → M) (filler : M) (t : JsonTree L) :
    write (fun a => .keep (g a)) filler t=.keep (map g t) := by
  induction t using induct with
  | leaf a => rfl
  | arr xs ih =>
    have key : writeList (fun a => .keep (g a)) filler xs=some (mapList g xs) := by
      induction xs with
      | nil => rfl
      | cons x xs ihs =>
        have hxs := ihs fun y hy => ih y (List.mem_cons_of_mem _ hy)
        simp only [writeList,ih x List.mem_cons_self,hxs,mapList]
    simp only [write,key,map]
  | obj fs ih =>
    have key : writeFields (fun a => .keep (g a)) filler fs=some (mapFields g fs) := by
      induction fs with
      | nil => rfl
      | cons kx fs ihs =>
        have hx := ih kx List.mem_cons_self
        have hxs := ihs fun y hy => ih y (List.mem_cons_of_mem _ hy)
        simp only [writeFields,hx,hxs,mapFields]
    simp only [write,key,map]

/- Where no leaf is skipped or fails, serializing is translating. -/
theorem write_eq_map (f : L → Slot M) (g : L → M) (filler : M) (t : JsonTree L)
    (h : All (fun a => f a=.keep (g a)) t) : write f filler t=.keep (map g t) :=
  (write_congr f (fun a => .keep (g a)) filler t h).trans (write_keep g filler t)

theorem map_map (f : L → M) (g : M → N) (t : JsonTree L) :
    map g (map f t)=map (fun a => g (f a)) t := by
  induction t using induct with
  | leaf a => rfl
  | arr xs ih =>
    simp only [map,mapList_eq,List.map_map]
    exact congrArg arr (List.map_congr_left ih)
  | obj fs ih =>
    simp only [map,mapFields_eq,List.map_map]
    exact congrArg obj (List.map_congr_left fun kx hkx => congrArg (Prod.mk kx.1) (ih kx hkx))

theorem map_congr (f g : L → M) (t : JsonTree L) (h : All (fun a => f a=g a) t) : map f t=map g t := by
  induction t using induct with
  | leaf a => exact congrArg leaf h
  | arr xs ih =>
    rw [All,allList_iff] at h
    simp only [map,mapList_eq]
    exact congrArg arr (List.map_congr_left fun x hx => ih x hx (h x hx))
  | obj fs ih =>
    rw [All,allFields_iff] at h
    simp only [map,mapFields_eq]
    exact congrArg obj (List.map_congr_left fun kx hkx => congrArg (Prod.mk kx.1) (ih kx hkx (h kx hkx)))

theorem map_id (t : JsonTree L) : map (fun a => a) t=t := by
  induction t using induct with
  | leaf a => rfl
  | arr xs ih =>
    simp only [map,mapList_eq]
    rw [List.map_congr_left ih,List.map_id']
  | obj fs ih =>
    simp only [map,mapFields_eq]
    rw [List.map_congr_left fun kx hkx => by rw [ih kx hkx],List.map_id']

theorem write_self (f : L → Slot L) (filler : L) (t : JsonTree L)
    (h : All (fun a => f a=.keep a) t) : write f filler t=.keep t := by
  rw [write_eq_map f (fun a => a) filler t h,map_id]

theorem write_ne_fail (f : L → Slot M) (filler : M) (t : JsonTree L) :
    write f filler t≠.fail ↔ All (fun a => f a≠.fail) t := by
  induction t using induct with
  | leaf a =>
    simp only [write,All]
    cases f a <;> simp [Slot.map]
  | arr xs ih =>
    have key : writeList f filler xs≠none ↔ AllList (fun a => f a≠.fail) xs := by
      induction xs with
      | nil => simp [writeList,AllList]
      | cons x xs ihs =>
        have hx := ih x List.mem_cons_self
        have hxs := ihs fun y hy => ih y (List.mem_cons_of_mem _ hy)
        simp only [writeList,AllList,← hx,← hxs]
        cases write f filler x <;> cases writeList f filler xs <;> simp
    simp only [write,All,← key]
    cases writeList f filler xs <;> simp
  | obj fs ih =>
    have key : writeFields f filler fs≠none ↔ AllFields (fun a => f a≠.fail) fs := by
      induction fs with
      | nil => simp [writeFields,AllFields]
      | cons kx fs ihs =>
        obtain ⟨k,x⟩ := kx
        have hx := ih (k,x) List.mem_cons_self
        have hxs := ihs fun y hy => ih y (List.mem_cons_of_mem _ hy)
        simp only at hx
        simp only [writeFields,AllFields,← hx,← hxs]
        cases write f filler x <;> cases writeFields f filler fs <;> simp
    simp only [write,All,← key]
    cases writeFields f filler fs <;> simp

theorem member_writeFields_none (f : L → Slot M) (filler : M) (fs : List (String × JsonTree L))
    (gs : List (String × JsonTree M)) (h : writeFields f filler fs=some gs) (key : String)
    (hx : member fs key=none) : member gs key=none := by
  induction fs generalizing gs with
  | nil =>
    cases h
    rfl
  | cons kx fs ih =>
    obtain ⟨k,z⟩ := kx
    rw [member_cons,Option.or_eq_none_iff] at hx
    have hk : key≠k := fun hk => by simp [hk] at hx
    simp only [writeFields] at h
    split at h
    · rename_i hgs
      cases h
      rw [member_cons,ih _ hgs hx.1,if_neg hk,Option.none_or]
    · rename_i hgs
      cases h
      exact ih _ hgs hx.1
    · cases h

theorem member_writeFields (f : L → Slot M) (filler : M) (fs : List (String × JsonTree L))
    (gs : List (String × JsonTree M)) (h : writeFields f filler fs=some gs) (key : String)
    (x : JsonTree L) (y : JsonTree M) (hx : member fs key=some x) (hy : write f filler x=.keep y) :
    member gs key=some y := by
  induction fs generalizing gs with
  | nil => cases hx
  | cons kx fs ih =>
    obtain ⟨k,z⟩ := kx
    rw [member_cons] at hx
    simp only [writeFields] at h
    cases hm : member fs key with
    | some w =>
      rw [hm,Option.some_or] at hx
      split at h
      · rename_i hgs
        cases h
        rw [member_cons,ih _ hgs (hm.trans hx),Option.some_or]
      · rename_i hgs
        cases h
        exact ih _ hgs (hm.trans hx)
      · cases h
    | none =>
      rw [hm,Option.none_or] at hx
      split at hx
      · rename_i hk
        cases hx
        rw [hy] at h
        split at h
        · rename_i hz hgs
          cases hz
          cases h
          rw [member_cons,member_writeFields_none f filler fs _ hgs key hm,Option.none_or,if_pos hk]
        · rename_i hz _
          cases hz
        · cases h
      · cases hx

theorem member_write (f : L → Slot M) (filler : M) (fs : List (String × JsonTree L))
    (t : JsonTree M) (h : write f filler (.obj fs)=.keep t) : ∃ gs, t=.obj gs ∧
      ∀ key x y, member fs key=some x → write f filler x=.keep y → member gs key=some y := by
  simp only [write] at h
  cases hw : writeFields f filler fs with
  | none => simp [hw] at h
  | some gs =>
    simp only [hw,Slot.keep.injEq] at h
    exact ⟨gs,h.symm,member_writeFields f filler fs gs hw⟩

/- What holds of every leaf that a serializer makes holds of its documents. -/
theorem write_all (f : L → Slot M) (filler : M) (P : M → Prop) (hf : ∀ a b, f a=.keep b → P b)
    (hp : P filler) (t : JsonTree L) (u : JsonTree M) (h : write f filler t=.keep u) : All P u := by
  induction t using induct generalizing u with
  | leaf a =>
    cases ha : f a with
    | keep b =>
      simp only [write,ha,Slot.map,Slot.keep.injEq] at h
      rw [← h]
      exact hf a b ha
    | skip => simp [write,ha,Slot.map] at h
    | fail => simp [write,ha,Slot.map] at h
  | arr xs ih =>
    have key : ∀ ys, writeList f filler xs=some ys → AllList P ys := by
      clear h
      induction xs with
      | nil =>
        intro ys h
        cases h
        trivial
      | cons x xs ihs =>
        intro ys h
        have hxs := ihs fun y hy => ih y (List.mem_cons_of_mem _ hy)
        simp only [writeList] at h
        split at h
        · rename_i y zs hy hzs
          cases h
          exact ⟨ih x List.mem_cons_self y hy,hxs zs hzs⟩
        · cases h
          exact ⟨hp,hxs _ (by assumption)⟩
        · cases h
    cases hw : writeList f filler xs with
    | none => simp [write,hw] at h
    | some ys =>
      simp only [write,hw,Slot.keep.injEq] at h
      rw [← h]
      exact key ys hw
  | obj fs ih =>
    have key : ∀ gs, writeFields f filler fs=some gs → AllFields P gs := by
      clear h
      induction fs with
      | nil =>
        intro gs h
        cases h
        trivial
      | cons kx fs ihs =>
        obtain ⟨k,x⟩ := kx
        intro gs h
        have hfs := ihs fun y hy => ih y (List.mem_cons_of_mem _ hy)
        simp only [writeFields] at h
        split at h
        · rename_i y zs hy hzs
          cases h
          exact ⟨ih (k,x) List.mem_cons_self y hy,hfs zs hzs⟩
        · cases h
          exact hfs _ (by assumption)
        · cases h
    cases hw : writeFields f filler fs with
    | none => simp [write,hw] at h
    | some gs =>
      simp only [write,hw,Slot.keep.injEq] at h
      rw [← h]
      exact key gs hw

end JsonTree
end Clamator.Base
