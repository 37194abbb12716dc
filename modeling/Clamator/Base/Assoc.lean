import Mathlib.Data.List.Basic
import Mathlib.Data.List.Nodup

/-!
# Ordered maps by assignment

A map as its list of entries in the order in which their keys were first assigned:
a JavaScript object without index keys, a Python dict. An assignment to a key that
is there changes the value in its place.
-/

namespace Clamator.Base.Assoc

theorem mem_of_lookup {K V : Type*} [BEq K] [LawfulBEq K] {m : List (K × V)} {k : K} {v : V}
    (h : m.lookup k=some v) : (k,v)∈m := by
  obtain ⟨before,after,hm,_⟩ := List.lookup_eq_some_iff.mp h
  rw [hm]
  exact List.mem_append_right _ List.mem_cons_self

variable {K V : Type*} [DecidableEq K]

/- `m[key] = v` -/
def assign (m : List (K × V)) (key : K) (v : V) : List (K × V) :=
  if (m.lookup key).isSome then m.map fun kv => if kv.1=key then (key,v) else kv
  else m++[(key,v)]

theorem lookup_update (m : List (K × V)) (key k : K) (v : V) :
    (m.map fun kv => if kv.1=key then (key,v) else kv).lookup k=
      if k=key then (m.lookup key).map fun _ => v else m.lookup k := by
  induction m with
  | nil => simp
  | cons kv m ih =>
    obtain ⟨k',w⟩ := kv
    rw [List.map_cons]
    by_cases hk : k'=key
    · subst hk
      by_cases he : k=k'
      · simp [he]
      · have hb : (k == k')=false := by simp [he]
        simp only [if_true,List.lookup_cons,hb,ih,if_neg he]
    · by_cases he : k=k'
      · subst he
        simp [hk]
      · have hb : (k == k')=false := by simp [he]
        have hb' : (key == k')=false := by simp [Ne.symm hk]
        simp only [if_neg hk,List.lookup_cons,hb,hb',ih]

theorem lookup_single (k key : K) (v : V) : [(key,v)].lookup k=if k=key then some v else none := by
  rw [List.lookup_cons]
  by_cases hk : k=key
  · simp [hk]
  · have hb : (k == key)=false := by simp [hk]
    simp [hb,hk]

theorem lookup_assign (m : List (K × V)) (key k : K) (v : V) :
    (assign m key v).lookup k=if k=key then some v else m.lookup k := by
  unfold assign
  split
  · rename_i h
    rw [lookup_update]
    obtain ⟨w,hw⟩ := Option.isSome_iff_exists.mp h
    rw [hw]
    rfl
  · rename_i h
    rw [List.lookup_append,lookup_single]
    by_cases hk : k=key
    · subst hk
      have hn : m.lookup k=none := Option.not_isSome_iff_eq_none.mp h
      simp [hn]
    · simp [hk]

/-- One assignment after the other. -/
def assignAll (m kvs : List (K × V)) : List (K × V) :=
  kvs.foldl (fun m kv => assign m kv.1 kv.2) m

/- The last assignment to a key is the one that stays. -/
theorem lookup_assignAll (kvs m : List (K × V)) (k : K) :
    (assignAll m kvs).lookup k=(kvs.reverse.lookup k).or (m.lookup k) := by
  induction kvs generalizing m with
  | nil => simp [assignAll]
  | cons kv kvs ih =>
    have hstep : assignAll m (kv::kvs)=assignAll (assign m kv.1 kv.2) kvs := rfl
    rw [hstep,ih,lookup_assign,List.reverse_cons,List.lookup_append,lookup_single]
    cases kvs.reverse.lookup k with
    | some v => rfl
    | none => by_cases hk : k=kv.1 <;> simp [hk]

theorem assign_keys (m : List (K × V)) (key : K) (v : V) : (assign m key v).map Prod.fst=
    if key∈m.map Prod.fst then m.map Prod.fst else m.map Prod.fst++[key] := by
  have hiff : (m.lookup key).isSome=true ↔ key∈m.map Prod.fst := by
    rw [List.lookup_isSome_iff,List.mem_map]
    refine exists_congr fun kv => and_congr_right fun _ => ?_
    rw [beq_iff_eq]
    exact eq_comm
  unfold assign
  by_cases h : key∈m.map Prod.fst
  · rw [if_pos (hiff.mpr h),if_pos h,List.map_map]
    refine List.map_congr_left fun kv _ => ?_
    simp only [Function.comp_apply]
    split
    · rename_i hk
      exact hk.symm
    · rfl
  · rw [if_neg (mt hiff.mp h),if_neg h]
    simp

theorem assign_nodup (m : List (K × V)) (key : K) (v : V) (h : (m.map Prod.fst).Nodup) :
    ((assign m key v).map Prod.fst).Nodup := by
  rw [assign_keys]
  split
  · exact h
  · rename_i hk
    exact List.nodup_append.mpr ⟨h,by simp,fun a ha b hb => by
      rintro rfl
      exact hk (List.mem_singleton.mp hb ▸ ha)⟩

theorem assignAll_nodup (kvs m : List (K × V)) (h : (m.map Prod.fst).Nodup) :
    ((assignAll m kvs).map Prod.fst).Nodup := by
  induction kvs generalizing m with
  | nil => exact h
  | cons kv kvs ih => exact ih _ (assign_nodup m kv.1 kv.2 h)

theorem lookup_iff_mem (m : List (K × V)) (h : (m.map Prod.fst).Nodup) (k : K) (v : V) :
    m.lookup k=some v ↔ (k,v)∈m := by
  induction m with
  | nil => simp
  | cons kv m ih =>
    obtain ⟨k',w⟩ := kv
    rw [List.map_cons,List.nodup_cons] at h
    rw [List.mem_cons,← ih h.2,List.lookup_cons]
    by_cases hk : k=k'
    · subst hk
      have hn : m.lookup k≠some v := fun hl => h.1 (List.mem_map.mpr ⟨(k,v),(ih h.2).mp hl,rfl⟩)
      simp [hn,eq_comm]
    · have hb : (k == k')=false := by simp [hk]
      simp [hb,hk]

theorem lookup_reverse_iff_mem (m : List (K × V)) (h : (m.map Prod.fst).Nodup) (k : K) (v : V) :
    m.reverse.lookup k=some v ↔ (k,v)∈m := by
  have hrev : (m.reverse.map Prod.fst).Nodup := by
    rw [List.map_reverse]
    exact List.nodup_reverse.mpr h
  rw [lookup_iff_mem _ hrev,List.mem_reverse]

theorem lookup_assignAll_nodup (kvs : List (K × V)) (h : (kvs.map Prod.fst).Nodup) (k : K) (v : V) :
    (assignAll [] kvs).lookup k=some v ↔ (k,v)∈kvs := by
  rw [lookup_assignAll,List.lookup_nil,Option.or_none,lookup_reverse_iff_mem _ h]

/- The last element with a key is what a lookup from behind finds. -/
theorem lookup_reverse_map {α : Type*} (l : List α) (key : α → K) (f : α → V) (k : K) :
    (l.map fun a => (key a,f a)).reverse.lookup k=
      (l.filter fun a => decide (key a=k)).getLast?.map f := by
  rw [List.getLast?_eq_head?_reverse,← List.filter_reverse,← List.map_reverse]
  induction l.reverse with
  | nil => rfl
  | cons a l ih =>
    rw [List.map_cons,List.lookup_cons,List.filter_cons]
    by_cases h : key a=k
    · simp [h]
    · have hb : (k == key a)=false := by simp [Ne.symm h]
      simp [h,hb,ih]

end Clamator.Base.Assoc
