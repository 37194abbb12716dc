import Mathlib.Algebra.GroupWithZero.Nat
import Clamator.Base.Pending

/-!
# Lists of cells

A list that grows at its end while its elements change in place. What a step does to
each of them is a relation, and what the relation keeps, all elements of the list keep.
-/

namespace Clamator.Base

variable {α : Type}

/-- Every element is related to the one in its place afterwards, and the further ones are new. -/
structure Grown (R : ℕ → α → α → Prop) (N : ℕ → α → Prop) (l l' : List α) : Prop where
  old : ∀ n x, l[n]?=some x → ∃ y, l'[n]?=some y ∧ R n x y
  new : ∀ n y, l'[n]?=some y → l[n]?=none → N n y

namespace Grown

variable {R : ℕ → α → α → Prop} {N : ℕ → α → Prop} {l l' : List α}

theorem refl (hr : ∀ n x, l[n]?=some x → R n x x) : Grown R N l l where
  old := fun n x hx => ⟨x,hx,hr n x hx⟩
  new := by
    intro n y hy hn
    rw [hn] at hy
    cases hy

theorem modify (n : ℕ) (f : α → α) (hr : ∀ m x, l[m]?=some x → m≠n → R m x x)
    (hf : ∀ x, l[n]?=some x → R n x (f x)) : Grown R N l (l.modify n f) where
  old := by
    intro m x hx
    by_cases hnm : n=m
    · subst hnm
      exact ⟨f x,by simp [hx],hf x hx⟩
    · exact ⟨x,by simp [hnm,hx],hr m x hx (Ne.symm hnm)⟩
  new := by
    intro m y hy hm
    rw [List.getElem?_modify,hm] at hy
    cases hy

theorem append (x : α) (hr : ∀ n x, l[n]?=some x → R n x x) (hx : N l.length x) :
    Grown R N l (l++[x]) where
  old := by
    intro n y hy
    have hlt := (List.getElem?_eq_some_iff.mp hy).1
    exact ⟨y,(List.getElem?_append_left hlt).trans hy,hr n y hy⟩
  new := by
    intro n y hy hn
    have hle := List.getElem?_eq_none_iff.mp hn
    rw [List.getElem?_append_right hle] at hy
    have hlen := (List.getElem?_eq_some_iff.mp hy).1
    simp only [List.length_singleton] at hlen
    have hzero : n-l.length=0 := by omega
    rw [hzero] at hy
    have hn' : n=l.length := by omega
    rw [hn',← Option.some.inj hy]
    exact hx

/- What an element was before the step. -/
theorem cases (h : Grown R N l l') (n : ℕ) (y : α) (hy : l'[n]?=some y) :
    (∃ x, l[n]?=some x ∧ R n x y) ∨ (l[n]?=none ∧ N n y) := by
  cases hn : l[n]? with
  | none => exact Or.inr ⟨rfl,h.new n y hy hn⟩
  | some x =>
    obtain ⟨y',hy',hr⟩ := h.old n x hn
    rw [hy] at hy'
    cases hy'
    exact Or.inl ⟨x,rfl,hr⟩

/-- A property of the elements that the relation keeps and that new ones have. -/
theorem forall_getElem? (h : Grown R N l l') {P : ℕ → α → Prop}
    (hr : ∀ n x y, l[n]?=some x → R n x y → P n x → P n y) (hn : ∀ n y, N n y → P n y)
    (hp : ∀ n x, l[n]?=some x → P n x) : ∀ n y, l'[n]?=some y → P n y := by
  intro n y hy
  rcases h.cases n y hy with ⟨x,hx,hxy⟩ | ⟨_,hnew⟩
  · exact hr n x y hx hxy (hp n x hx)
  · exact hn n y hnew

theorem length_le (h : Grown R N l l') : l.length ≤ l'.length := by
  by_contra hlt
  have hx : l[l'.length]?=some l[l'.length] := List.getElem?_eq_getElem (by omega)
  obtain ⟨y,hy,_⟩ := h.old _ _ hx
  have hlen := (List.getElem?_eq_some_iff.mp hy).1
  omega

/- What the relation keeps of each element, where a step adds one element at most. -/
theorem map_cases {β : Type} (h : Grown R N l l') (g : α → β) (hr : ∀ n x y, R n x y → g y=g x)
    (hn : ∀ n y, N n y → n=l.length) :
    l'.map g=l.map g ∨ ∃ y, N l.length y ∧ l'.map g=l.map g++[g y] := by
  have hold : ∀ n, n < l.length → (l'.map g)[n]?=(l.map g)[n]? := by
    intro n hlt
    obtain ⟨y,hy,hxy⟩ := h.old n l[n] (List.getElem?_eq_getElem hlt)
    simp [hy,hr n _ y hxy,hlt]
  have hnew : ∀ n, l.length < n → l'[n]?=none := by
    intro n hlt
    cases hy : l'[n]? with
    | none => rfl
    | some y =>
      have hplace := hn n y (h.new n y hy (List.getElem?_eq_none (by omega)))
      omega
  cases hy : l'[l.length]? with
  | none =>
    apply Or.inl
    apply List.ext_getElem?
    intro n
    rcases Nat.lt_trichotomy n l.length with hlt | rfl | hlt
    · exact hold n hlt
    · simp [hy]
    · simp [hnew n hlt,List.getElem?_eq_none (Nat.le_of_lt hlt)]
  | some y =>
    refine Or.inr ⟨y,h.new _ y hy (by simp),?_⟩
    apply List.ext_getElem?
    intro n
    rcases Nat.lt_trichotomy n l.length with hlt | rfl | hlt
    · rw [hold n hlt,List.getElem?_append_left (by simpa using hlt)]
    · simp [hy]
    · rw [List.getElem?_map,hnew n hlt,List.getElem?_eq_none (by simp; omega)]
      rfl

end Grown

/-- A list of places changed one after another, where changing one twice is changing it once. -/
theorem getElem?_foldl_modify (f : α → α) (hf : ∀ x, f (f x)=f x) (ns : List ℕ) (l : List α) (m : ℕ) :
    (ns.foldl (fun l n => l.modify n f) l)[m]?=if m∈ns then l[m]?.map f else l[m]? := by
  induction ns generalizing l with
  | nil => simp
  | cons n ns ih =>
    rw [List.foldl_cons,ih,List.getElem?_modify]
    by_cases hnm : n=m
    · subst hnm
      cases l[n]? with
      | none => simp
      | some x => by_cases hmem : n∈ns <;> simp [hmem,hf]
    · have hmn : m≠n := Ne.symm hnm
      by_cases hmem : m∈ns <;> simp [hnm,hmn,hmem]

theorem Grown.foldl_modify {R : ℕ → α → α → Prop} {N : ℕ → α → Prop} (f : α → α)
    (hf : ∀ x, f (f x)=f x) (ns : List ℕ) (l : List α) (hr : ∀ n x, l[n]?=some x → n∉ns → R n x x)
    (hs : ∀ n x, l[n]?=some x → n∈ns → R n x (f x)) :
    Grown R N l (ns.foldl (fun l n => l.modify n f) l) where
  old := by
    intro n x hx
    rw [getElem?_foldl_modify f hf]
    by_cases hmem : n∈ns
    · exact ⟨f x,by simp [hmem,hx],hs n x hx hmem⟩
    · exact ⟨x,by simp [hmem,hx],hr n x hx hmem⟩
  new := by
    intro n y hy hn
    rw [getElem?_foldl_modify f hf,hn] at hy
    split at hy <;> cases hy

/-- Where a function takes distinct values on a list, its value tells the place. -/
theorem place_inj {β : Type} (g : α → β) {l : List α} (h : (l.map g).Nodup) {n m : ℕ} {x y : α}
    (hx : l[n]?=some x) (hy : l[m]?=some y) (hxy : g x=g y) : n=m := by
  have hlt : n < (l.map g).length := by
    rw [List.length_map]
    exact (List.getElem?_eq_some_iff.mp hx).1
  apply (List.getElem?_inj hlt h).mp
  rw [List.getElem?_map,List.getElem?_map,hx,hy,Option.map_some,Option.map_some,hxy]

/-- A sum over the elements, when one of them changes. -/
theorem sum_map_modify (f : α → α) (g : α → ℕ) (l : List α) (n : ℕ) (x : α) (h : l[n]?=some x) :
    ((l.modify n f).map g).sum+g x=(l.map g).sum+g (f x) := by
  induction l generalizing n with
  | nil => simp at h
  | cons y l ih =>
    cases n with
    | zero =>
      simp only [List.getElem?_cons_zero,Option.some.injEq] at h
      subst h
      simp only [List.modify_zero_cons,List.map_cons,List.sum_cons]
      omega
    | succ n =>
      have hi := ih n (by simpa using h)
      simp only [List.modify_succ_cons,List.map_cons,List.sum_cons]
      omega

end Clamator.Base
