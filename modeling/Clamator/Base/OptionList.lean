import Clamator.Base.StableSort
import Mathlib.Data.List.Perm.Basic

/-!
# Lists of results that may be missing

`mapM` into `Option`: what it gives, in which order it may be taken apart, and how
it meets permutations and sorting.
-/

namespace Clamator.Base

variable {α β γ : Type*}

theorem mapM_cons_eq (f : α → Option β) (a : α) (l : List α) :
    (a::l).mapM f=(f a).bind fun b => (l.mapM f).map fun bs => b::bs := by
  rw [List.mapM_cons]
  cases f a with
  | none => rfl
  | some b => cases l.mapM f <;> rfl

theorem mapM_eq_some_iff (f : α → Option β) (l : List α) (bs : List β) :
    l.mapM f=some bs ↔ l.map f=bs.map some := by
  induction l generalizing bs with
  | nil => cases bs <;> simp
  | cons a l ih =>
    rw [mapM_cons_eq]
    cases bs with
    | nil => cases f a <;> cases l.mapM f <;> simp
    | cons b bs =>
      have hb := ih bs
      cases ha : f a with
      | none => simp [ha]
      | some c => cases hl : l.mapM f with
        | none => simp_all
        | some cs =>
          rw [hl,Option.some.injEq] at hb
          simp [ha,hb]

theorem mapM_eq_map (f : α → Option β) (g : α → β) (l : List α) (h : ∀ a∈l, f a=some (g a)) :
    l.mapM f=some (l.map g) := by
  rw [mapM_eq_some_iff,List.map_map]
  exact List.map_congr_left h

theorem mapM_eq_none_iff (f : α → Option β) (l : List α) : l.mapM f=none ↔ ∃ a∈l, f a=none := by
  induction l with
  | nil => simp
  | cons a l ih =>
    rw [mapM_cons_eq]
    cases ha : f a with
    | none => simp [ha]
    | some b => simp [ha,ih]

theorem mapM_bind (f : α → Option β) (g : β → Option γ) (l : List α) :
    ((l.mapM f).bind fun bs => bs.mapM g)=l.mapM fun a => (f a).bind g := by
  induction l with
  | nil => rfl
  | cons a l ih =>
    rw [mapM_cons_eq,mapM_cons_eq,← ih]
    cases f a with
    | none => rfl
    | some b => cases hl : l.mapM f with
      | none => simp
      | some bs =>
        simp only [Option.bind_some,Option.map_some]
        exact mapM_cons_eq g b bs

theorem mapM_append (f : α → Option β) (l m : List α) :
    (l++m).mapM f=(l.mapM f).bind fun bs => (m.mapM f).map fun cs => bs++cs := by
  induction l with
  | nil => cases hm : m.mapM f <;> simp [hm]
  | cons a l ih =>
    rw [List.cons_append,mapM_cons_eq,mapM_cons_eq,ih]
    cases f a with
    | none => rfl
    | some b => cases l.mapM f <;> cases m.mapM f <;> rfl

theorem mapM_flatten (f : α → Option β) (ls : List (List α)) :
    ls.flatten.mapM f=(ls.mapM fun l : List α => l.mapM f).map List.flatten := by
  induction ls with
  | nil => rfl
  | cons l ls ih =>
    rw [List.flatten_cons,mapM_append,mapM_cons_eq,ih]
    cases l.mapM f with
    | none => rfl
    | some bs => cases ls.mapM fun l : List α => l.mapM f <;> rfl

theorem mapM_filter (f : α → Option β) (p : α → Bool) (q : β → Bool) (l : List α) (bs : List β)
    (hpq : ∀ a b, f a=some b → p a=q b) (h : l.mapM f=some bs) :
    (l.filter p).mapM f=some (bs.filter q) := by
  rw [mapM_eq_some_iff] at h ⊢
  induction l generalizing bs with
  | nil =>
    cases bs with
    | nil => rfl
    | cons b bs => cases h
  | cons a l ih => cases bs with
    | nil => cases h
    | cons b bs =>
      simp only [List.map_cons,List.cons.injEq] at h
      rw [List.filter_cons,List.filter_cons,hpq a b h.1]
      split
      · rw [List.map_cons,List.map_cons,h.1,ih bs h.2]
      · exact ih bs h.2

theorem getLast?_of_mapM (f : α → Option β) (l : List α) (bs : List β) (h : l.mapM f=some bs) :
    bs.getLast?=l.getLast?.bind f := by
  have hl := congrArg List.getLast? ((mapM_eq_some_iff f l bs).mp h)
  rw [List.getLast?_map,List.getLast?_map] at hl
  cases hb : bs.getLast? with
  | none => cases ha : l.getLast? <;> simp_all
  | some b => cases ha : l.getLast? <;> simp_all

theorem mem_of_mapM (f : α → Option β) (l : List α) (bs : List β) (h : l.mapM f=some bs) (b : β) :
    b∈bs ↔ ∃ a∈l, f a=some b := by
  have hl := (mapM_eq_some_iff f l bs).mp h
  have hmem : some b∈bs.map some ↔ b∈bs := by simp
  rw [← hmem,← hl,List.mem_map]

theorem exists_of_mapM (f : α → Option β) (l : List α) (bs : List β) (h : l.mapM f=some bs) (a : α)
    (ha : a∈l) : ∃ b, f a=some b := by
  refine Option.ne_none_iff_exists'.mp fun hn => ?_
  rw [(mapM_eq_none_iff f l).mpr ⟨a,ha,hn⟩] at h
  cases h

theorem mapM_perm (f : α → Option β) (l m : List α) (hp : l.Perm m) (bs : List β)
    (h : l.mapM f=some bs) : ∃ cs, m.mapM f=some cs ∧ bs.Perm cs := by
  have hsome : ∃ cs, m.mapM f=some cs := by
    refine Option.ne_none_iff_exists'.mp fun hn => ?_
    obtain ⟨a,ha,hfa⟩ := (mapM_eq_none_iff f m).mp hn
    rw [(mapM_eq_none_iff f l).mpr ⟨a,hp.mem_iff.mpr ha,hfa⟩] at h
    cases h
  obtain ⟨cs,hcs⟩ := hsome
  refine ⟨cs,hcs,(List.map_perm_map_iff fun _ _ hab => Option.some.inj hab).mp ?_⟩
  rw [← (mapM_eq_some_iff f l bs).mp h,← (mapM_eq_some_iff f m cs).mp hcs]
  exact hp.map f

/- On results that are there, the order of what they hold. -/
def optionLE (cmp : β → β → Ordering) : Option β → Option β → Bool
  | some b,some c => (cmp b c).isLE
  | _,_ => true

/-- A translation that keeps the order commutes with sorting. -/
theorem mapM_sortBy (cmp : α → α → Ordering) (cmp' : β → β → Ordering) (f : α → Option β)
    (h : ∀ a a' b b', f a=some b → f a'=some b' → cmp a a'=cmp' b b') (l : List α) :
    (sortBy cmp l).mapM f=(l.mapM f).map (sortBy cmp') := by
  cases hl : l.mapM f with
  | none =>
    obtain ⟨a,ha,hn⟩ := (mapM_eq_none_iff f l).mp hl
    rw [(mapM_eq_none_iff f _).mpr ⟨a,(mem_sortBy cmp l a).mpr ha,hn⟩]
    rfl
  | some bs =>
    have hbs := (mapM_eq_some_iff f l bs).mp hl
    rw [Option.map_some,mapM_eq_some_iff]
    have hmem : ∀ a∈l, ∃ b, f a=some b := by
      intro a ha
      have : f a∈bs.map some := hbs ▸ List.mem_map_of_mem ha
      obtain ⟨b,_,hb⟩ := List.mem_map.mp this
      exact ⟨b,hb.symm⟩
    calc (sortBy cmp l).map f=(l.map f).mergeSort (optionLE cmp') := by
          refine List.map_mergeSort fun a ha a' ha' => ?_
          obtain ⟨b,hb⟩ := hmem a ha
          obtain ⟨b',hb'⟩ := hmem a' ha'
          rw [h a a' b b' hb hb',hb,hb']
          rfl
      _ = (bs.map some).mergeSort (optionLE cmp') := by rw [hbs]
      _ = (sortBy cmp' bs).map some := by
          have hs : (bs.mergeSort fun b c => (cmp' b c).isLE).map some=(bs.map some).mergeSort (optionLE cmp') :=
            List.map_mergeSort fun _ _ _ _ => rfl
          exact hs.symm

end Clamator.Base
