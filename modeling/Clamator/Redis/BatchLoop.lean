import Clamator.Redis.ServerLoop

/-!
# One batch of a loop (`runConsumerLoop`, `runReclaimLoop`)

The `try` block of both loops stands around the `for` loop over a batch, not
inside it: the first entry on which `handleEntry` throws ends the batch, and the
entries behind it are delivered and not attempted.
-/

namespace Clamator.Redis
open Clamator.Base Clamator.Protocol

def runLoop (lang : Lang) (kind : LoopKind) : List LoopEv → Pc → Option Pc
  | [],pc => some pc
  | ev::evs,pc => (Loop.step lang kind false ev pc).bind (runLoop lang kind evs)

def called : LoopEv → Pc → List Item
  | .enter _,.handle .start cur _ => [cur]
  | _,_ => []

def attempts (lang : Lang) (kind : LoopKind) : List LoopEv → Pc → List Item
  | [],_ => []
  | ev::evs,pc => called ev pc++(Loop.step lang kind false ev pc).elim [] (attempts lang kind evs)

/-- Where a step ends `handleEntry`, it throws on the entries in `throws` and returns on
the others. -/
def EndsAs (lang : Lang) (throws : Item → Bool) (ev : LoopEv) : Pc → Prop
  | .handle stage cur _ => (stage.step lang cur.2 ev=some .returned → throws cur=false) ∧
    (stage.step lang cur.2 ev=some .threw → throws cur=true)
  | _ => True

def Outcomes (lang : Lang) (kind : LoopKind) (throws : Item → Bool) : List LoopEv → Pc → Prop
  | [],_ => True
  | ev::evs,pc => EndsAs lang throws ev pc ∧
    ∀ pc'∈Loop.step lang kind false ev pc, Outcomes lang kind throws evs pc'

def LoopEv.isRead : LoopEv → Bool
  | .got _ => true
  | .readThrew => true
  | _ => false

/-- The entries of a batch up to the first on which `handleEntry` throws. -/
def through (throws : Item → Bool) : List Item → List Item
  | [] => []
  | item::items => item::if throws item then [] else through throws items

def begins : Stage → Item → List Item
  | .start,cur => [cur]
  | _,_ => []

/-- What is still attempted of the batch that a loop stands in. -/
def remaining (throws : Item → Bool) : Pc → List Item
  | .handle stage cur rest => begins stage cur++if throws cur then [] else through throws rest
  | _ => []

theorem remaining_batch (throws : Item → Bool) (kind : LoopKind) (batch : List Item) :
    remaining throws (kind.batch false batch)=through throws batch := by
  cases batch with
  | nil => cases kind <;> rfl
  | cons cur rest => rfl

theorem begins_of_ne (stage : Stage) (cur : Item) (h : stage≠.start) : begins stage cur=[] := by
  cases stage <;> first | rfl | exact (h rfl).elim

theorem Stage.step_ne_start (lang : Lang) (fields : List Bulk) (ev : LoopEv) (stage stage' : Stage)
    (h : stage.step lang fields ev=some (.stage stage')) : stage'≠.start := by
  rintro rfl
  cases Stage.step_stepped h

theorem stage_step_called (lang : Lang) (fields : List Bulk) (ev : LoopEv) (stage : Stage)
    (cur : Item) (rest : List Item) (progress : Progress)
    (h : stage.step lang fields ev=some progress) :
    called ev (.handle stage cur rest)=begins stage cur := by
  cases Stage.step_stepped h <;> rfl

theorem remaining_step (lang : Lang) (kind : LoopKind) (throws : Item → Bool) (ev : LoopEv)
    (pc pc' : Pc) (hr : ev.isRead=false) (he : EndsAs lang throws ev pc)
    (h : Loop.step lang kind false ev pc=some pc') (hx : pc'≠.exited) :
    remaining throws pc=called ev pc++remaining throws pc' := by
  cases pc with
  | sleep =>
    cases ev with
    | wake =>
      cases h
      rfl
    | _ => cases h
  | poll =>
    cases ev with
    | got batch => cases hr
    | readThrew => cases hr
    | _ => cases h
  | exited => cases ev <;> cases h
  | handle stage cur rest =>
    rw [Loop.step_handle] at h
    obtain ⟨progress,hp,rfl⟩ := Option.map_eq_some_iff.mp h
    rw [stage_step_called lang cur.2 ev stage cur rest progress hp,remaining]
    congr 1
    cases progress with
    | stage stage' =>
      have hs := Stage.step_ne_start lang cur.2 ev stage stage' hp
      simp only [Pc.after,remaining,begins_of_ne stage' cur hs,List.nil_append]
    | returned => simp only [Pc.after,remaining_batch,he.1 hp,Bool.false_eq_true,if_false]
    | threw => simp only [Pc.after,Pc.caught,remaining,he.2 hp,Bool.false_eq_true,if_true,if_false]
    | cancelled => exact (hx rfl).elim

theorem runLoop_exited (lang : Lang) (kind : LoopKind) (evs : List LoopEv) (pc : Pc)
    (h : runLoop lang kind evs .exited=some pc) : pc=.exited := by
  cases evs with
  | nil => exact (Option.some.inj h).symm
  | cons ev evs =>
    have hn : Loop.step lang kind false ev .exited=none := by cases ev <;> rfl
    simp [runLoop,hn] at h

/- A run up to the next read attempts the batch up to the first entry that throws. -/
theorem attempts_eq_remaining (lang : Lang) (kind : LoopKind) (throws : Item → Bool)
    (evs : List LoopEv) (pc : Pc) (hr : ∀ ev∈evs, ev.isRead=false)
    (ho : Outcomes lang kind throws evs pc) (h : runLoop lang kind evs pc=some .poll) :
    attempts lang kind evs pc=remaining throws pc := by
  induction evs generalizing pc with
  | nil =>
    cases h
    rfl
  | cons ev evs ih =>
    obtain ⟨pc',hs,hrun⟩ := Option.bind_eq_some_iff.mp h
    have hx : pc'≠.exited := by
      rintro rfl
      exact absurd (runLoop_exited lang kind evs _ hrun) (by simp)
    have htail := ih pc' (fun ev' h' => hr ev' (List.mem_cons_of_mem _ h')) (ho.2 pc' hs) hrun
    rw [remaining_step lang kind throws ev pc pc' (hr ev List.mem_cons_self) ho.1 hs hx,
      ← htail,attempts,hs,Option.elim_some]

theorem through_eq_self_iff (throws : Item → Bool) (batch : List Item) :
    through throws batch=batch ↔ ∀ item∈batch.dropLast, throws item=false := by
  induction batch with
  | nil => simp [through]
  | cons item items ih =>
    cases items with
    | nil => cases h : throws item <;> simp [through,h]
    | cons next items =>
      rw [List.dropLast_cons_cons,List.forall_mem_cons,← ih]
      cases h : throws item <;> simp [through,h]

/-- Between a read and the next one, a loop attempts every entry of its batch exactly
once, in order, if and only if none throws but possibly the last. -/
theorem batch_attempted_iff (lang : Lang) (kind : LoopKind) (throws : Item → Bool)
    (batch : List Item) (evs : List LoopEv) (hr : ∀ ev∈evs, ev.isRead=false)
    (ho : Outcomes lang kind throws evs (kind.batch false batch))
    (h : runLoop lang kind evs (kind.batch false batch)=some .poll) :
    attempts lang kind evs (kind.batch false batch)=batch ↔
      ∀ item∈batch.dropLast, throws item=false := by
  rw [attempts_eq_remaining lang kind throws evs _ hr ho h,remaining_batch,through_eq_self_iff]

theorem batch_attempted_two :
    (∀ ev∈[LoopEv.enter 0,.acked true,.enter 0,.acked true], ev.isRead=false) ∧
    attempts .ts .consumer [.enter 0,.acked true,.enter 0,.acked true]
      (LoopKind.consumer.batch false [(0,[]),(1,[])])=[(0,[]),(1,[])] := by
  have hr : ∀ ev∈[LoopEv.enter 0,.acked true,.enter 0,.acked true], ev.isRead=false := by simp [LoopEv.isRead]
  refine ⟨hr,(batch_attempted_iff .ts .consumer (fun _ => false) [(0,[]),(1,[])] _ hr ?_ rfl).mpr
    fun _ _ => rfl⟩
  simp [Outcomes,EndsAs,LoopKind.batch,Loop.step,Stage.step,inspect,readEntry,fieldAfter,
    Reading.inspection,Pc.after]

/-- The XACK of the first of two entries fails: the loop goes to its next read without
an attempt at the second. -/
theorem second_entry_skipped :
    (runLoop .ts .consumer [.enter 0,.acked false,.wake] (LoopKind.consumer.batch false [(0,[]),(1,[])])=
        some .poll ∧
      attempts .ts .consumer [.enter 0,.acked false,.wake]
        (LoopKind.consumer.batch false [(0,[]),(1,[])])=[(0,[])]) ∧
    (runLoop .py .reclaim [.enter 0,.acked false,.wake] (LoopKind.reclaim.batch false [(0,[]),(1,[])])=
        some .poll ∧
      attempts .py .reclaim [.enter 0,.acked false,.wake]
        (LoopKind.reclaim.batch false [(0,[]),(1,[])])=[(0,[])]) := ⟨⟨rfl,rfl⟩,⟨rfl,rfl⟩⟩

end Clamator.Redis
