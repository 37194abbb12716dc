import Clamator.Base.Assoc
import Clamator.Base.Reach
import Mathlib.Logic.Function.Basic

/-!
# Files written one after the other

A job writes its files in order; where a file can be missing, to remove it is to write that. A job
can stop between two writes, a write can fail and leave anything in its file, and a task can be one
that throws.
-/

namespace Clamator.Base

variable {K V : Type}

inductive JobTask (K V : Type) where
  | write (key : K) (value : V)
  | throws

structure Job (K V : Type) where
  files : K → V
  todo : List (JobTask K V)
  failed : Bool

inductive JobAct (V : Type) where
  | next
  | stop
  /-- The write fails, and this is what it leaves. -/
  | tear (left : V)

/- What the tasks write. -/
def written (tasks : List (JobTask K V)) : List (K × V) := tasks.filterMap fun
  | .write key value => some (key,value)
  | .throws => none

theorem written_append (before after : List (JobTask K V)) :
    written (before++after)=written before++written after := List.filterMap_append

theorem mem_written (tasks : List (JobTask K V)) (key : K) (value : V) :
    (key,value)∈written tasks ↔ JobTask.write key value∈tasks := by
  rw [written,List.mem_filterMap]
  constructor
  · rintro ⟨task,htask,heq⟩
    cases task with
    | throws => cases heq
    | write k v =>
      cases heq
      exact htask
  · exact fun h => ⟨_,h,rfl⟩

section
variable [DecidableEq K]

def writeAll (ws : List (K × V)) (files : K → V) : K → V :=
  ws.foldl (fun files w => Function.update files w.1 w.2) files

def Job.step : JobAct V → Job K V → Option (Job K V)
  | .next,⟨files,.write key value::rest,false⟩ =>
    some ⟨Function.update files key value,rest,false⟩
  | .next,⟨files,.throws::_,false⟩ => some ⟨files,[],true⟩
  | .stop,⟨files,_::_,false⟩ => some ⟨files,[],true⟩
  | .tear left,⟨files,.write key _::_,false⟩ => some ⟨Function.update files key left,[],true⟩
  | _,_ => none

def Job.Done (j : Job K V) : Prop := j.todo=[] ∧ j.failed=false

/-! ### Writes -/

theorem writeAll_append (ws ws' : List (K × V)) (files : K → V) :
    writeAll (ws++ws') files=writeAll ws' (writeAll ws files) := List.foldl_append

theorem writeAll_apply (ws : List (K × V)) (files : K → V) (key : K) :
    writeAll ws files key=(ws.reverse.lookup key).getD (files key) := by
  induction ws generalizing files with
  | nil => rfl
  | cons w ws ih =>
    obtain ⟨k,v⟩ := w
    have hstep : writeAll ((k,v)::ws) files=writeAll ws (Function.update files k v) := rfl
    rw [hstep,ih,List.reverse_cons,List.lookup_append]
    by_cases hk : key=k
    · subst hk
      cases ws.reverse.lookup key <;> simp
    · have hb : (key == k)=false := by simp [hk]
      simp [List.lookup_cons,Function.update_of_ne hk,hb]

theorem writeAll_of_not_mem (ws : List (K × V)) (files : K → V) (key : K)
    (h : key∉ws.map Prod.fst) : writeAll ws files key=files key := by
  rw [writeAll_apply,List.lookup_eq_none_iff.mpr fun w hw => ?_,Option.getD_none]
  simp only [bne_iff_ne,ne_eq]
  rintro rfl
  exact h (List.mem_map_of_mem (List.mem_reverse.mp hw))

theorem writeAll_of_mem (ws : List (K × V)) (files : K → V) (key : K)
    (h : key∈ws.map Prod.fst) : ∃ value, (key,value)∈ws ∧ writeAll ws files key=value := by
  cases hl : ws.reverse.lookup key with
  | none =>
    obtain ⟨w,hw,rfl⟩ := List.mem_map.mp h
    have hne := List.lookup_eq_none_iff.mp hl w (List.mem_reverse.mpr hw)
    simp at hne
  | some value =>
    exact ⟨value,List.mem_reverse.mp (Assoc.mem_of_lookup hl),
      by rw [writeAll_apply,hl,Option.getD_some]⟩

theorem writeAll_congr (ws : List (K × V)) (files files' : K → V) (key : K)
    (h : files key=files' key) : writeAll ws files key=writeAll ws files' key := by
  rw [writeAll_apply,writeAll_apply,h]

/- A file that is written anew may have been anything. -/
theorem writeAll_anew (ws : List (K × V)) (files files' : K → V) (key : K)
    (h : key∈ws.map Prod.fst) : writeAll ws files key=writeAll ws files' key := by
  rw [writeAll_apply,writeAll_apply]
  cases hl : ws.reverse.lookup key with
  | some value => rfl
  | none =>
    obtain ⟨w,hw,rfl⟩ := List.mem_map.mp h
    have hne := List.lookup_eq_none_iff.mp hl w (List.mem_reverse.mpr hw)
    simp at hne

/-! ### How far a job came -/

/-- `before` was done; a stopped job has left the rest, perhaps one file of it torn. -/
inductive Came (tasks : List (JobTask K V)) (files : K → V) : Job K V → Prop where
  | going (before after : List (JobTask K V)) : tasks=before++after → JobTask.throws∉before →
      Came tasks files ⟨writeAll (written before) files,after,false⟩
  | stopped (before after : List (JobTask K V)) : tasks=before++after → JobTask.throws∉before →
      Came tasks files ⟨writeAll (written before) files,[],true⟩
  | torn (before after : List (JobTask K V)) (key : K) (value : V) (left : V) :
      tasks=before++.write key value::after → JobTask.throws∉before →
      Came tasks files ⟨Function.update (writeAll (written before) files) key left,[],true⟩

variable {tasks : List (JobTask K V)} {files : K → V} {j j' : Job K V}

theorem Came.step {a : JobAct V} (h : Came tasks files j) (hs : j.step a=some j') :
    Came tasks files j' := by
  cases h with
  | stopped before after htasks hno => cases a <;> cases hs
  | torn before after key value left htasks hno => cases a <;> cases hs
  | going before after htasks hno =>
    cases after with
    | nil => cases a <;> cases hs
    | cons task after =>
      cases a with
      | stop =>
        cases hs
        exact .stopped before (task::after) htasks hno
      | tear left =>
        cases task with
        | throws => cases hs
        | write key value =>
          cases hs
          exact .torn before after key value left htasks hno
      | next =>
        cases task with
        | throws =>
          cases hs
          exact .stopped before (.throws::after) htasks hno
        | write key value =>
          cases hs
          have hfiles : Function.update (writeAll (written before) files) key value=
              writeAll (written (before++[.write key value])) files := by
            rw [written_append,writeAll_append]
            rfl
          rw [hfiles]
          refine .going (before++[.write key value]) after ?_ ?_
          · rw [htasks,List.append_assoc]
            rfl
          · rw [List.mem_append,not_or]
            exact ⟨hno,by simp⟩

theorem came_run (as : List (JobAct V)) (h : run Job.step as ⟨files,tasks,false⟩=some j) :
    Came tasks files j :=
  states_invariant (fun _ _ _ hc _ hs => hc.step hs) as _ (.going [] tasks rfl List.not_mem_nil)
    (guarded_true as _) j (run_mem_states _ as _ j h)

/- Of a list that ends with `x`, what comes before some element is before `x`. -/
theorem split_of_concat {α : Type} {before after init : List α} {x y : α}
    (h : init++[x]=before++y::after) : after=[] ∧ before=init ∧ y=x ∨
      ∃ rest, init=before++y::rest := by
  rcases List.eq_nil_or_concat after with rfl | ⟨rest,z,rfl⟩
  · obtain ⟨hinit,hx⟩ := List.append_inj' h rfl
    cases hx
    exact Or.inl ⟨rfl,hinit.symm,rfl⟩
  · have hassoc : init++[x]=(before++y::rest)++[z] := by
      rw [h,List.concat_eq_append,List.append_assoc,List.cons_append]
    exact Or.inr ⟨rest,(List.append_inj' hassoc rfl).1⟩

/- Each file is what it was or what a task writes, but for one that a failed write has torn. -/
theorem Came.file (h : Came tasks files j) : ∃ torn : Option K, ∀ key, torn≠some key →
    j.files key=files key ∨ ∃ value, .write key value∈tasks ∧ j.files key=value := by
  have hdone : ∀ before after : List (JobTask K V), tasks=before++after → ∀ key,
      writeAll (written before) files key=files key ∨
        ∃ value, .write key value∈tasks ∧ writeAll (written before) files key=value := by
    rintro before after rfl key
    by_cases hk : key∈(written before).map Prod.fst
    · obtain ⟨value,hmem,hvalue⟩ := writeAll_of_mem _ files key hk
      exact Or.inr ⟨value,List.mem_append_left _ ((mem_written _ _ _).mp hmem),hvalue⟩
    · exact Or.inl (writeAll_of_not_mem _ files key hk)
  cases h with
  | going before after htasks _ => exact ⟨none,fun key _ => hdone before after htasks key⟩
  | stopped before after htasks _ => exact ⟨none,fun key _ => hdone before after htasks key⟩
  | torn before after k value left htasks _ =>
    refine ⟨some k,fun key hk => ?_⟩
    have hne : key≠k := fun heq => hk (by rw [heq])
    have hsame : Function.update (writeAll (written before) files) k left key=
        writeAll (written before) files key := Function.update_of_ne hne _ _
    dsimp only
    rw [hsame]
    exact hdone before _ htasks key

/- When the last file has changed, the others have been written. -/
theorem Came.last {init : List (JobTask K V)} {key : K} {value : V}
    (h : Came (init++[.write key value]) files j) (hkey : key∉(written init).map Prod.fst)
    (hchanged : j.files key≠files key) : .throws∉init ∧
      ∀ k, k≠key → j.files k=writeAll (written init) files k := by
  -- a job that has only tasks of `init` behind it has not come to the file
  have hsame : ∀ before rest, init=before++rest → writeAll (written before) files key=files key := by
    rintro before rest rfl
    refine writeAll_of_not_mem _ _ _ fun hmem => hkey ?_
    rw [written_append,List.map_append]
    exact List.mem_append_left _ hmem
  have hsplit : ∀ before after, init++[.write key value]=before++after → .throws∉before →
      writeAll (written before) files key≠files key → .throws∉init ∧
        ∀ k, k≠key → writeAll (written before) files k=writeAll (written init) files k := by
    intro before after htasks hno hch
    cases after with
    | nil =>
      rw [List.append_nil] at htasks
      subst htasks
      refine ⟨fun hmem => hno (List.mem_append_left _ hmem),fun k hk => ?_⟩
      rw [written_append,writeAll_append]
      exact Function.update_of_ne hk _ _
    | cons y after =>
      rcases split_of_concat htasks with ⟨rfl,rfl,rfl⟩ | ⟨rest,hrest⟩
      · exact (hch (hsame before [] (List.append_nil _).symm)).elim
      · exact (hch (hsame before _ hrest)).elim
  cases h with
  | going before after htasks hno => exact hsplit before after htasks hno hchanged
  | stopped before after htasks hno => exact hsplit before after htasks hno hchanged
  | torn before after k v left htasks hno =>
    rcases split_of_concat htasks with ⟨rfl,rfl,heq⟩ | ⟨rest,hrest⟩
    · cases heq
      exact ⟨hno,fun k hk => Function.update_of_ne hk _ _⟩
    · have hk : key≠k := by
        rintro rfl
        apply hkey
        rw [hrest,written_append,List.map_append]
        exact List.mem_append_right _ List.mem_cons_self
      exact (hchanged ((Function.update_of_ne hk _ _).trans (hsame before _ hrest))).elim

theorem Came.done (h : Came tasks files j) (hd : j.Done) :
    .throws∉tasks ∧ j.files=writeAll (written tasks) files := by
  obtain ⟨htodo,hfailed⟩ := hd
  cases h with
  | going before after htasks hno =>
    cases htodo
    rw [htasks,List.append_nil]
    exact ⟨hno,rfl⟩
  | stopped before after htasks hno => cases hfailed
  | torn before after key value left htasks hno => cases hfailed

/- A file that no task writes. -/
theorem Came.aside (h : Came tasks files j) {key : K} (hkey : key∉(written tasks).map Prod.fst) :
    j.files key=files key := by
  have hbefore : ∀ before after : List (JobTask K V), tasks=before++after →
      writeAll (written before) files key=files key := by
    rintro before after rfl
    refine writeAll_of_not_mem _ _ _ fun hmem => hkey ?_
    rw [written_append,List.map_append]
    exact List.mem_append_left _ hmem
  cases h with
  | going before after htasks _ => exact hbefore before after htasks
  | stopped before after htasks _ => exact hbefore before after htasks
  | torn before after k value left htasks _ =>
    have hne : key≠k := by
      rintro rfl
      apply hkey
      rw [htasks,written_append,List.map_append]
      exact List.mem_append_right _ List.mem_cons_self
    exact (Function.update_of_ne hne _ _).trans (hbefore before _ htasks)

theorem job_completes (tasks : List (JobTask K V)) (files : K → V) (h : .throws∉tasks) :
    ∃ as j, run Job.step as ⟨files,tasks,false⟩=some j ∧ j.Done := by
  induction tasks generalizing files with
  | nil => exact ⟨[],_,rfl,rfl,rfl⟩
  | cons task tasks ih =>
    rw [List.mem_cons,not_or] at h
    cases task with
    | throws => exact (h.1 rfl).elim
    | write key value =>
      obtain ⟨as,j,hrun,hdone⟩ := ih (Function.update files key value) h.2
      exact ⟨.next::as,j,hrun,hdone⟩

end
end Clamator.Base
