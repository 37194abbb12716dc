import Clamator.Client.RedisTransport
import Clamator.Base.Reach

/-!
# Who waits, and for what (`over-redis/src/client-transport.ts`)

In every run whose ids are distinct as strings, a call that has not settled has its
own entry and a running timer, settles once and with a reply to its own id only, and
what happens under one id leaves every other alone.
-/

namespace Clamator.Client
open Clamator.Base Clamator.Protocol Clamator.Lifecycle

namespace ClientRedisTransport

/-- The id of a send is, as a string, no earlier one's. -/
def Fresh (T : Texts) : ClientAct → ClientRedisTransport → Prop
  | .send env,c => ∀ key, requestKey T env=some key → ∀ s∈c.calls.slots, s.key≠key
  | _,_ => True

theorem Fresh.noReplace {T : Texts} {a : ClientAct} {c : ClientRedisTransport} (h : Fresh T a c)
    (hk : c.calls.Kept) : NoReplace T a c := by
  cases a with
  | send env =>
    intro key n hkey hm
    obtain ⟨s,hs,hsk⟩ := hk.entry key n hm
    exact h key hkey s (List.mem_of_getElem? hs) hsk
  | _ => trivial

def OwnReply (T : Texts) (key : String) : Outcome → Prop
  | .resolved v => replyKey T v=some key
  | _ => True

theorem Moves.outcomes {T : Texts} {c : ClientRedisTransport} {a : ClientAct}
    {calls : Calls String Outcome} (h : Moves T c a calls) (hn : NoReplace T a c) (hk : c.calls.Kept)
    (ho : c.calls.Outcomes (OwnReply T)) : calls.Outcomes (OwnReply T) := by
  cases h with
  | same => exact ho
  | sent env key _ _ _ => exact ho.insert key
  | unsendable env key _ _ _ =>
    exact (ho.insert key).modify _ .unsendable _ (fun _ => ⟨rfl,rfl⟩) fun _ _ => trivial
  | xaddFailed n s _ => exact ho.finish hk s.key _ trivial
  | timeout n s hs ha =>
    exact Calls.Outcomes.modify (t := c.calls.remove s.key) ho n .timeout _ (fun _ => ⟨rfl,rfl⟩)
      fun _ _ => trivial
  | replied v key hkey => exact ho.finish hk key _ hkey
  | swept i _ => exact ho.sweep hk _ fun _ => trivial

/-- The id that a reply, a timeout or the end of an XADD is about. -/
def eventKey (T : Texts) (c : ClientRedisTransport) : ClientAct → Option String
  | .reply v => replyKey T v
  | .timer n => c.calls.slots[n]?.map Slot.key
  | .xaddEnds n _ => c.calls.slots[n]?.map Slot.key
  | _ => none

theorem Moves.sameBut {T : Texts} {c : ClientRedisTransport} {a : ClientAct}
    {calls : Calls String Outcome} (h : Moves T c a calls) (hk : c.calls.Kept) (key : String)
    (hkey : c.eventKey T a=some key) : c.calls.SameBut key calls := by
  cases h with
  | same => exact Calls.SameBut.refl key _
  | xaddFailed n s hs =>
    simp only [eventKey,hs,Option.map_some,Option.some.injEq] at hkey
    rw [← hkey]
    exact Calls.SameBut.finish hk s.key _
  | timeout n s hs ha =>
    simp only [eventKey,hs,Option.map_some,Option.some.injEq] at hkey
    rw [← hkey]
    exact Calls.SameBut.retire hk n s.key _ (hk.armed n s hs ha)
  | replied v key' hkey' =>
    have heq : key'=key := Option.some.inj (hkey'.symm.trans hkey)
    rw [← heq]
    exact Calls.SameBut.finish hk key' _
  | _ => cases hkey

theorem reply_none (T : Texts) (v : JsVal) (c c' : ClientRedisTransport) (h : replyKey T v=none)
    (hstep : step T (.reply v) c=some c') : c'.calls=c.calls := by
  simp only [step,h] at hstep
  split at hstep <;> cases hstep
  rfl

abbrev Run (T : Texts) (c : ClientRedisTransport) : Prop :=
  Reachable Started (fun c c' => ∃ a, Fresh T a c ∧ step T a c=some c') c

theorem Run.inv {T : Texts} {c : ClientRedisTransport} (h : Run T c) :
    c.calls.Kept ∧ c.calls.Outcomes (OwnReply T) := by
  refine Reachable.invariant (I := fun c => c.calls.Kept ∧ c.calls.Outcomes (OwnReply T))
    (fun c hc => ?_) (fun c c' hc hstep => ?_) h
  · rw [hc.2.1]
    exact ⟨Calls.Kept.empty,Calls.Outcomes.empty _⟩
  · obtain ⟨a,hf,hstep⟩ := hstep
    have hm := step_moves T a c c' hstep
    have hn := hf.noReplace hc.1
    exact ⟨hm.kept hn hc.1,hm.outcomes hn hc.1 hc.2⟩

/-- The bookkeeping of pending calls, in every state of every run. -/
theorem bookkeeping (T : Texts) (c : ClientRedisTransport) (h : Run T c) :
    (∀ (n : ℕ) (s : Slot String Outcome), c.calls.slots[n]?=some s → s.outcome=none →
      s.armed=true ∧ (s.key,n)∈c.calls.pending ∧ ∀ m, (s.key,m)∈c.calls.pending → m=n) ∧
    (∀ (n : ℕ) (s : Slot String Outcome) (v : JsVal), c.calls.slots[n]?=some s →
      s.outcome=some (.resolved v) → replyKey T v=some s.key) ∧
    ∀ a c', Fresh T a c → step T a c=some c' → c.calls.Later c'.calls ∧
      (∀ key, c.eventKey T a=some key → c.calls.SameBut key c'.calls) ∧
      ∀ v, a=.reply v → replyKey T v=none → c'.calls=c.calls := by
  obtain ⟨hk,ho⟩ := h.inv
  refine ⟨fun n s hs hwait => ?_,fun n s v hs hv => ho n s _ hs hv,fun a c' _ hstep => ?_⟩
  · have ha := hk.waits n s hs hwait
    have hm := hk.armed n s hs ha
    exact ⟨ha,hm,fun m hm' => hk.unique s.key m n hm' hm⟩
  · have hm := step_moves T a c c' hstep
    refine ⟨hm.later,hm.sameBut hk,fun v hv hnone => ?_⟩
    subst hv
    exact reply_none T v c c' hnone hstep

end ClientRedisTransport

/-- The texts of strings and of integral numbers; of every other number `NaN`. -/
def plainTexts : Texts where
  text := fun
    | Js.str s => some s
    | Js.num (.integral n _) => some (toString n)
    | Js.num _ => some "NaN"
    | Js.undefined => some "undefined"
    | _ => some "[object Object]"
  text_str := fun _ => rfl
  text_num := fun x => by cases x <;> exact ⟨_,rfl⟩

def startedClient : ClientRedisTransport :=
  ⟨.started,true,Calls.empty,[],false,true,[]⟩

theorem startedClient_started : startedClient.Started := ⟨rfl,rfl,rfl,rfl,rfl,rfl⟩

def addRequest (id : JsVal) : JsVal := buildRequest "arith.add" (.obj []) id

def twoSends : List ClientAct :=
  [.send (addRequest (Js.str "1")),.send (addRequest (Js.str "2")),
    .reply (buildSuccessResponse (Js.str "1") Js.null)]

theorem twoSends_fresh : Guarded (ClientRedisTransport.step plainTexts)
    (ClientRedisTransport.Fresh plainTexts) twoSends startedClient := by
  refine ⟨?_,?_,trivial,trivial⟩
  · intro key hkey s hs
    cases hs
  · intro key hkey s hs
    cases hkey
    cases List.mem_singleton.mp hs
    simp

theorem bookkeeping_two : ∃ (c : ClientRedisTransport) (s : Slot String Outcome),
    run (ClientRedisTransport.step plainTexts) twoSends startedClient=some c ∧
    c.calls.slots[1]?=some s ∧ s.outcome=none ∧ s.armed=true ∧ (s.key,1)∈c.calls.pending ∧
    c.calls.slots[0]?.map Slot.outcome=
      some (some (.resolved (buildSuccessResponse (Js.str "1") Js.null))) := by
  have hrun : (run (ClientRedisTransport.step plainTexts) twoSends startedClient).isSome := rfl
  have hreach : ClientRedisTransport.Run plainTexts _ := Reachable.guarded twoSends startedClient _
    (.start startedClient_started) twoSends_fresh (Option.some_get hrun).symm
  obtain ⟨ha,hm,_⟩ := (ClientRedisTransport.bookkeeping plainTexts _ hreach).1 1 ⟨"2",none,true⟩ rfl rfl
  exact ⟨_,_,(Option.some_get hrun).symm,rfl,rfl,ha,hm,rfl⟩

end Clamator.Client
