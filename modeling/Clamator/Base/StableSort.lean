import Mathlib.Data.List.Basic

/-!
# Stable sorting by a comparison

`sortBy` sorts with a comparison that may call different elements equal and keeps
the order of those. So a sorted list is determined by what it has in each class of
equal elements, in order.
-/

namespace Clamator.Base

variable {α β : Type*}

def sortBy (cmp : α → α → Ordering) (l : List α) : List α := l.mergeSort fun a b => (cmp a b).isLE

/-- The elements of `l` that compare equal to `x`. -/
def classOf (cmp : α → α → Ordering) (x : α) (l : List α) : List α := l.filter fun y => cmp x y == .eq

/- Comparing by a key. -/
theorem transCmp_key (cmp : α → α → Ordering) [Std.TransCmp cmp] (key : β → α) :
    Std.TransCmp fun a b => cmp (key a) (key b) where
  eq_swap := Std.OrientedCmp.eq_swap
  isLE_trans := Std.TransCmp.isLE_trans

theorem sortBy_perm (cmp : α → α → Ordering) (l : List α) : (sortBy cmp l).Perm l :=
  List.mergeSort_perm l _

theorem sortBy_of_pairwise (cmp : α → α → Ordering) (l : List α)
    (h : l.Pairwise fun a b => (cmp a b).isLE=true) : sortBy cmp l=l := List.mergeSort_of_pairwise h

theorem mem_sortBy (cmp : α → α → Ordering) (l : List α) (a : α) : a∈sortBy cmp l ↔ a∈l :=
  List.mem_mergeSort

theorem classOf_flatMap (cmp : α → α → Ordering) (h : β → List α) (x : α) (l : List β) :
    classOf cmp x (l.flatMap h)=l.flatMap fun b => classOf cmp x (h b) := List.filter_flatMap

/- Where at most one of the parts is there, their order does not matter. -/
theorem flatMap_perm (h : β → List α) (l m : List β) (hp : l.Perm m)
    (hd : l.Pairwise fun a b => h a=[] ∨ h b=[]) : l.flatMap h=m.flatMap h := by
  induction hp with
  | nil => rfl
  | cons a _ ih => rw [List.flatMap_cons,List.flatMap_cons,ih (List.pairwise_cons.mp hd).2]
  | swap a b l =>
    simp only [List.flatMap_cons]
    rcases (List.pairwise_cons.mp hd).1 a List.mem_cons_self with ha | hb
    · simp [ha]
    · simp [hb]
  | trans h1 _ ih1 ih2 =>
    rw [ih1 hd,ih2 (h1.pairwise hd fun hab => hab.symm)]

section
variable (cmp : α → α → Ordering) [Std.TransCmp cmp]

theorem isLE_or (a b : α) : ((cmp a b).isLE || (cmp b a).isLE)=true := by
  have hswap : cmp b a=(cmp a b).swap := Std.OrientedCmp.eq_swap
  rw [hswap]
  cases cmp a b <;> rfl

theorem sortBy_pairwise (l : List α) : (sortBy cmp l).Pairwise fun a b => (cmp a b).isLE=true :=
  List.pairwise_mergeSort (fun _ _ _ => Std.TransCmp.isLE_trans) (isLE_or cmp) l

/- Stability: a class keeps its order. -/
theorem classOf_sortBy (x : α) (l : List α) : classOf cmp x (sortBy cmp l)=classOf cmp x l := by
  have hsorted : (classOf cmp x l).Pairwise fun a b => (cmp a b).isLE=true := by
    refine List.Pairwise.imp_of_mem ?_ (List.pairwise_of_forall fun _ _ => True.intro)
    intro a b ha hb _
    have hxa : cmp x a=.eq := by simpa using (List.mem_filter.mp ha).2
    have hxb : cmp x b=.eq := by simpa using (List.mem_filter.mp hb).2
    rw [← Std.TransCmp.congr_left hxa,hxb]
    rfl
  have hsub : (classOf cmp x l).Sublist (sortBy cmp l) :=
    List.sublist_mergeSort (fun _ _ _ => Std.TransCmp.isLE_trans) (isLE_or cmp) hsorted
      (List.filter_sublist)
  have hclass : (classOf cmp x l).Sublist (classOf cmp x (sortBy cmp l)) := by
    have := hsub.filter fun y => cmp x y == .eq
    simpa only [classOf,List.filter_filter,Bool.and_self] using this
  exact (hclass.eq_of_length ((sortBy_perm cmp l).filter _).length_eq.symm).symm

/- A selection of elements that all compare equal keeps its order. -/
theorem filter_sortBy (p : α → Bool) (x : α) (hp : ∀ y, p y=true → cmp x y=.eq) (l : List α) :
    (sortBy cmp l).filter p=l.filter p := by
  have hclass : ∀ m, (classOf cmp x m).filter p=m.filter p := by
    intro m
    rw [classOf,List.filter_filter]
    refine List.filter_congr fun y _ => ?_
    cases hy : p y with
    | false => rfl
    | true => simp [hp y hy]
  rw [← hclass,classOf_sortBy,hclass]

theorem classOf_cons_self (a : α) (l : List α) : classOf cmp a (a::l)=a::classOf cmp a l := by
  have ha : cmp a a=.eq := Std.ReflCmp.compare_self
  simp [classOf,ha]

theorem mem_classOf_self (a : α) (l : List α) (h : a∈l) : a∈classOf cmp a l := by
  have ha : cmp a a=.eq := Std.ReflCmp.compare_self
  exact List.mem_filter.mpr ⟨h,by rw [ha]; rfl⟩

theorem mem_of_classOf (l m : List α) (h : ∀ x, classOf cmp x l=classOf cmp x m) (a : α) (ha : a∈l) :
    a∈m := by
  have := mem_classOf_self cmp a l ha
  rw [h] at this
  exact (List.mem_filter.mp this).1

theorem head_isLE (x y : α) (s : List α) (hs : (x::s).Pairwise fun a b => (cmp a b).isLE=true)
    (hy : y∈x::s) : (cmp x y).isLE=true := by
  rcases List.mem_cons.mp hy with rfl | hy
  · have hself : cmp y y=.eq := Std.ReflCmp.compare_self
    rw [hself]
    rfl
  · exact (List.pairwise_cons.mp hs).1 y hy

theorem eq_of_classOf (l m : List α) (hl : l.Pairwise fun a b => (cmp a b).isLE=true)
    (hm : m.Pairwise fun a b => (cmp a b).isLE=true) (h : ∀ x, classOf cmp x l=classOf cmp x m) :
    l=m := by
  induction l generalizing m with
  | nil =>
    refine (List.eq_nil_iff_forall_not_mem.mpr fun a ha => ?_).symm
    exact List.not_mem_nil (mem_of_classOf cmp m [] (fun x => (h x).symm) a ha)
  | cons a l ih => cases m with
    | nil => exact absurd (mem_of_classOf cmp _ [] h a List.mem_cons_self) List.not_mem_nil
    | cons b m =>
      -- each of the two heads is among the least
      have hab : cmp a b=.eq := by
        have h1 := head_isLE cmp a b l hl
          (mem_of_classOf cmp _ (a::l) (fun x => (h x).symm) b List.mem_cons_self)
        have h2 := head_isLE cmp b a m hm (mem_of_classOf cmp _ (b::m) h a List.mem_cons_self)
        have hswap : cmp b a=(cmp a b).swap := Std.OrientedCmp.eq_swap
        rw [hswap] at h2
        revert h1 h2
        cases cmp a b <;> decide
      have hheads := h a
      have hbm : classOf cmp a (b::m)=b::classOf cmp a m := by simp [classOf,hab]
      rw [classOf_cons_self,hbm] at hheads
      have heq : a=b := (List.cons.inj hheads).1
      subst heq
      have htail : ∀ x, classOf cmp x l=classOf cmp x m := by
        intro x
        have hx := h x
        simp only [classOf,List.filter_cons] at hx
        split at hx
        · exact (List.cons.inj hx).2
        · exact hx
      rw [ih m (List.pairwise_cons.mp hl).2 (List.pairwise_cons.mp hm).2 htail]

/-- Lists with the same classes, each in the same order, are sorted to the same list. -/
theorem sortBy_eq (l m : List α) (h : ∀ x, classOf cmp x l=classOf cmp x m) :
    sortBy cmp l=sortBy cmp m := by
  refine eq_of_classOf cmp _ _ (sortBy_pairwise cmp l) (sortBy_pairwise cmp m) fun x => ?_
  rw [classOf_sortBy,classOf_sortBy,h]

/-! ### Listings in another order -/

theorem sortBy_flatMap_perm (h : β → List α) (l m : List β) (hp : l.Perm m)
    (hd : ∀ x, l.Pairwise fun a b => classOf cmp x (h a)=[] ∨ classOf cmp x (h b)=[]) :
    sortBy cmp (l.flatMap h)=sortBy cmp (m.flatMap h) := by
  refine sortBy_eq cmp _ _ fun x => ?_
  rw [classOf_flatMap,classOf_flatMap]
  exact flatMap_perm _ l m hp (hd x)

/- Of elements that all differ, every order is sorted to the same list. -/
theorem sortBy_perm_eq (l m : List α) (hp : l.Perm m) (hd : l.Pairwise fun a b => cmp a b≠.eq) :
    sortBy cmp l=sortBy cmp m := by
  have hone : ∀ l : List α, l.flatMap (fun a => [a])=l := fun l => by simp
  rw [← hone l,← hone m]
  refine sortBy_flatMap_perm cmp _ l m hp fun x => hd.imp fun {a b} hab => ?_
  by_cases ha : cmp x a=.eq
  · right
    have hb : cmp x b≠.eq := fun hb => hab (by rw [← Std.TransCmp.congr_left ha,hb])
    simp [classOf,hb]
  · left
    simp [classOf,ha]

end

end Clamator.Base
