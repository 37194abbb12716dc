import Clamator.Protocol.Errors
import Clamator.Protocol.Wire

/-!
# Error data on the wire

Whether `JSON.stringify` and `json.dumps` accept the data that is made of an
exception. What is copied of its own attributes is made of scalars; its name and
message are taken as they are. Python writes a float that is no number as a word
that is no JSON, and an int of more than 4300 digits not at all.
-/

namespace Clamator.Protocol
open Clamator.Base

/-! ### TypeScript -/

def Thrown.Sendable : Thrown → Prop
  | .rpcError _ _ _ => True
  | .error e => (Thrown.error e).Readable ∧ (∀ v, e.name=some v → jsonStringify v≠.fail) ∧
    ∀ v, e.message=some v → jsonStringify v≠.fail
  | .other _ text => text≠none

/- `json.dumps` accepts the value and writes JSON. -/
def Dumpable (p : PyVal) : Prop := ∃ d : Doc, jsonDumps p=some d ∧ d.Standard

theorem dumpable_iff_write (p : PyVal) :
    Dumpable p ↔ ∃ d : Doc, p.write dumpsLeaf .null=.keep d ∧ d.Standard := by
  unfold Dumpable jsonDumps
  cases p.write dumpsLeaf .null <;> simp

theorem dumps_ne_skip (p : PyVal) : p.write dumpsLeaf .null≠.skip := by
  cases p with
  | leaf a =>
    cases a with
    | int n =>
      simp only [JsonTree.write,dumpsLeaf]
      split <;> simp [JsonTree.Slot.map]
    | _ => simp [JsonTree.write,dumpsLeaf,JsonTree.Slot.map]
  | arr xs =>
    simp only [JsonTree.write]
    split <;> simp
  | obj fs =>
    simp only [JsonTree.write]
    split <;> simp

theorem dumpFields_iff (fs : List (String × PyVal)) :
    (∃ gs, JsonTree.writeFields dumpsLeaf .null fs=some gs ∧
      JsonTree.AllFields (fun a => a.isToken=false) gs) ↔ ∀ kv∈fs, Dumpable kv.2 := by
  induction fs with
  | nil => simp [JsonTree.writeFields,JsonTree.AllFields]
  | cons kv fs ih =>
    obtain ⟨k,p⟩ := kv
    rw [List.forall_mem_cons,← ih,dumpable_iff_write]
    simp only [JsonTree.writeFields]
    cases hp : p.write dumpsLeaf .null with
    | keep d => cases JsonTree.writeFields dumpsLeaf .null fs <;> simp [JsonTree.AllFields,Doc.Standard]
    | skip => exact (dumps_ne_skip p hp).elim
    | fail => simp

theorem dumpable_obj_iff (fs : List (String × PyVal)) :
    Dumpable (.obj fs) ↔ ∀ kv∈fs, Dumpable kv.2 := by
  rw [dumpable_iff_write,← dumpFields_iff]
  simp only [JsonTree.write]
  cases JsonTree.writeFields dumpsLeaf .null fs with
  | none => simp
  | some gs => simp [Doc.Standard,JsonTree.All]

theorem dumpable_str (s : String) : Dumpable (Py.str s) := ⟨.leaf (.str s),rfl,rfl⟩

theorem dumpable_int (n : ℤ) (h : fewDigits n=true) : Dumpable (Py.int n) := by
  rw [dumpable_iff_write]
  exact ⟨.leaf (.int n),by simp [JsonTree.write,dumpsLeaf,h,JsonTree.Slot.map],rfl⟩

/-- An int of at most 4300 digits. -/
def FewLeaf : PyLeaf → Prop
  | .int n => fewDigits n=true
  | _ => True

theorem jsonLoads_fewLeaf (d : Doc) (v : PyVal) (h : jsonLoads d=some v) : v.All FewLeaf := by
  obtain ⟨hd,rfl⟩ := jsonLoads_eq_some d v h
  refine (JsonTree.all_map FewLeaf pyOfDoc d).mpr (JsonTree.all_imp (fun a ha => ?_) d hd)
  cases a with
  | int n => exact ha
  | minusZero => exact fewDigits_of_lt 0 1 (by decide) (by decide)
  | _ => trivial

theorem dumpable_null : Dumpable Py.null := ⟨.leaf .null,rfl,rfl⟩

/-! ### The attributes that Python copies -/

def skippedVar (key : String) : Prop := key∈["args","__cause__","__context__","__traceback__"]

theorem mem_setItem_self (out : List (String × PyVal)) (key : String) (v : PyVal) :
    (key,v)∈setItem out key v := by
  unfold setItem
  split
  · rename_i h
    obtain ⟨w,hw⟩ := Option.isSome_iff_exists.mp h
    exact List.mem_map.mpr ⟨(key,w),Assoc.mem_of_lookup hw,by simp⟩
  · simp

theorem mem_setItem_of_ne (out : List (String × PyVal)) (key : String) (v : PyVal)
    (kv : String × PyVal) (hne : kv.1≠key) (h : kv∈out) : kv∈setItem out key v := by
  unfold setItem
  split
  · exact List.mem_map.mpr ⟨kv,h,by simp [hne]⟩
  · exact List.mem_append_left _ h

theorem mem_setItem (out : List (String × PyVal)) (key : String) (v : PyVal)
    (kv : String × PyVal) (h : kv∈setItem out key v) : kv∈out ∨ kv=(key,v) := by
  unfold setItem at h
  split at h
  · obtain ⟨kw,hkw,he⟩ := List.mem_map.mp h
    split at he
    · exact Or.inr he.symm
    · exact Or.inl (he ▸ hkw)
  · rcases List.mem_append.mp h with h | h
    · exact Or.inl h
    · exact Or.inr (List.mem_singleton.mp h)

/- What the loop leaves in the dict was there before or is a copied attribute. -/
theorem mem_copyVars (vars out : List (String × PyVal)) (kv : String × PyVal)
    (h : kv∈copyVars out vars) : kv∈out ∨ kv∈vars ∧ ¬skippedVar kv.1 ∧ pyCopied kv.2=true := by
  induction vars generalizing out with
  | nil => exact Or.inl h
  | cons kw vars ih =>
    obtain ⟨key,v⟩ := kw
    simp only [copyVars] at h
    split at h
    · rcases ih out h with h | ⟨h,hs⟩
      · exact Or.inl h
      · exact Or.inr ⟨List.mem_cons_of_mem _ h,hs⟩
    · rename_i hk
      rcases ih _ h with h | ⟨h,hs⟩
      · split at h
        · rename_i hc
          rcases mem_setItem out key v kv h with h | rfl
          · exact Or.inl h
          · exact Or.inr ⟨List.mem_cons_self,hk,hc⟩
        · exact Or.inl h
      · exact Or.inr ⟨List.mem_cons_of_mem _ h,hs⟩

theorem mem_copyVars_of_out (vars out : List (String × PyVal)) (kv : String × PyVal)
    (hk : kv.1∉vars.map Prod.fst) (h : kv∈out) : kv∈copyVars out vars := by
  induction vars generalizing out with
  | nil => exact h
  | cons kw vars ih =>
    obtain ⟨key,v⟩ := kw
    simp only [List.map_cons,List.mem_cons,not_or] at hk
    simp only [copyVars]
    split
    · exact ih out hk.2 h
    · refine ih _ hk.2 ?_
      split
      · exact mem_setItem_of_ne out key v kv hk.1 h
      · exact h

theorem mem_copyVars_of_var (vars out : List (String × PyVal)) (hn : (vars.map Prod.fst).Nodup)
    (kv : String × PyVal) (h : kv∈vars) (hs : ¬skippedVar kv.1) (hc : pyCopied kv.2=true) :
    kv∈copyVars out vars := by
  induction vars generalizing out with
  | nil => exact (List.not_mem_nil h).elim
  | cons kw vars ih =>
    obtain ⟨key,v⟩ := kw
    obtain ⟨hk,hn⟩ := List.nodup_cons.mp hn
    simp only [copyVars]
    rcases List.mem_cons.mp h with rfl | h
    · simp only [skippedVar] at hs
      simp only [hs,hc,if_true,if_false]
      exact mem_copyVars_of_out vars _ _ hk (mem_setItem_self out key v)
    · split
      · exact ih out hn h
      · exact ih _ hn h

/- `str` of it does not raise, and the attributes that are copied are JSON. -/
def PyExc.Sendable (e : PyExc) : Prop := e.text≠none ∧
  ∀ kv∈e.vars, ¬skippedVar kv.1 → pyCopied kv.2=true → Dumpable kv.2

theorem pyErrorData_sendable_iff (e : PyExc) :
    (∃ data, pyExceptionToErrorData e=some data ∧ Dumpable (.obj data)) ↔ e.Sendable := by
  unfold PyExc.Sendable pyExceptionToErrorData
  cases e.text with
  | none => simp
  | some text =>
    simp only [Option.map_some,Option.some.injEq,exists_eq_left',ne_eq,reduceCtorEq,not_false_eq_true,
      true_and,dumpable_obj_iff]
    constructor
    · intro h kv hkv hs hc
      exact h kv (mem_copyVars_of_var e.vars _ e.vars_nodup kv hkv hs hc)
    · intro h kv hkv
      rcases mem_copyVars e.vars _ kv hkv with hkv | ⟨hkv,hs,hc⟩
      · simp only [List.mem_cons,List.not_mem_nil,or_false] at hkv
        rcases hkv with rfl | rfl
        · exact dumpable_str _
        · exact dumpable_str _
      · exact h kv hkv hs hc

end Clamator.Protocol
