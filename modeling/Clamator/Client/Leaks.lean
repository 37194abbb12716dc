import Clamator.Client.MemoryTransport

/-!
# Entries left behind (`over-memory/src/transport.ts`, `over-redis/src/client-transport.ts`)

A settled promise should have left its map, with its timer stopped. Over memory a timer
that fires looks for the id itself and misses the entry of a number; over Redis an
envelope that `JSON.stringify` refuses rejects the promise with its entry inserted.
-/

namespace Clamator.Client
open Clamator.Base Clamator.Protocol Clamator.Lifecycle
open Clamator.Base.Binary64 (ofInt)

namespace ClientRedisTransport

def Writable (T : Texts) : ClientAct → ClientRedisTransport → Prop
  | .send env,c => requestKey T env≠none → c.state=.started → jsonStringify env≠.fail
  | _,_ => True

def Accounted (c : ClientRedisTransport) : Prop := c.calls.Kept ∧ c.calls.Clean

theorem Started.accounted {c : ClientRedisTransport} (h : c.Started) : c.Accounted := by
  unfold Accounted
  rw [h.2.1]
  exact ⟨Calls.Kept.empty,Calls.Clean.empty⟩

theorem Accounted.step {T : Texts} {a : ClientAct} {c c' : ClientRedisTransport} (h : c.Accounted)
    (hf : Fresh T a c) (hw : Writable T a c) (hstep : ClientRedisTransport.step T a c=some c') :
    c'.Accounted := by
  have hm := step_moves T a c c' hstep
  refine ⟨hm.kept (hf.noReplace h.1) h.1,?_⟩
  generalize c'.calls=calls at hm
  cases hm with
  | same => exact h.2
  | sent env key _ _ _ => exact h.2.insert key
  | unsendable env key hkey hstate hfail => exact (hw (by simp [hkey]) hstate hfail).elim
  | xaddFailed n s _ => exact h.2.finish h.1 s.key _
  | timeout n s hs ha => exact h.2.retire h.1 n s.key _ (h.1.armed n s hs ha)
  | replied v key _ => exact h.2.finish h.1 key _
  | swept i _ => exact h.2.sweep h.1 _

/- The promise of an envelope that cannot be written is settled, and its timer runs. -/
theorem Accounted.leaves {T : Texts} {a : ClientAct} {c c' : ClientRedisTransport}
    (hstep : ClientRedisTransport.step T a c=some c') (hclean : c'.calls.Clean) : Writable T a c := by
  cases a with
  | send env =>
    intro hkey hstate hfail
    obtain ⟨key,hkey⟩ := Option.ne_none_iff_exists'.mp hkey
    simp only [ClientRedisTransport.step,send,hstate,hkey,hfail,Option.some.injEq] at hstep
    subst hstep
    have hslot : ((c.calls.insert key).settle c.calls.slots.length .unsendable).slots[c.calls.slots.length]?=
        some ⟨key,some .unsendable,true⟩ :=
      Calls.modify_self (c.calls.insert key) _ _ ⟨key,none,true⟩ (by simp [Calls.insert])
    have ha := (hclean _ _ hslot (by simp)).1
    cases ha
  | _ => trivial

end ClientRedisTransport

/-- With ids distinct as strings, settled calls have left their map in every state of a run
exactly if no timer of a numeric id fires over memory, and every envelope sent over Redis can
be written. -/
theorem no_leak_iff (T : Texts) :
    (∀ (acts : List MemoryAct) (m : MemoryTransport), m.Started →
      Guarded (MemoryTransport.step T) (MemoryTransport.Fresh T) acts m →
        ((∀ m'∈states (MemoryTransport.step T) acts m, m'.calls.Clean) ↔
          Guarded (MemoryTransport.step T) MemoryTransport.StringTimeout acts m)) ∧
    ∀ (acts : List ClientAct) (c : ClientRedisTransport), c.Started →
      Guarded (ClientRedisTransport.step T) (ClientRedisTransport.Fresh T) acts c →
        ((∀ c'∈states (ClientRedisTransport.step T) acts c, c'.calls.Clean) ↔
          Guarded (ClientRedisTransport.step T) (ClientRedisTransport.Writable T) acts c) := by
  constructor
  · intro acts m h0 hd
    have h := h0.accounted (T := T)
    refine states_iff_guarded (I := MemoryTransport.Accounted T) (P := fun m => m.calls.Clean)
      (fun a s t hs hf hstep => ⟨fun hc => hs.leaves hstep hc,fun hg => (hs.step hf hg hstep).clean⟩)
      (fun a s t hs hf hg hstep => hs.step hf hg hstep) acts m h h.clean hd
  · intro acts c h0 hd
    have h := h0.accounted
    refine states_iff_guarded (I := ClientRedisTransport.Accounted) (P := fun c => c.calls.Clean)
      (fun a s t hs hf hstep => ⟨fun hc => ClientRedisTransport.Accounted.leaves hstep hc,
        fun hg => (hs.step hf hg hstep).2⟩)
      (fun a s t hs hf hg hstep => hs.step hf hg hstep) acts c h h.2 hd

def startedMemory : MemoryTransport := ⟨.started,["arith"],Calls.empty,[],[]⟩

theorem startedMemory_started : startedMemory.Started := ⟨rfl,rfl,rfl,rfl⟩

theorem no_leak_timeout :
    (∃ m, run (MemoryTransport.step plainTexts) [.send (addRequest (Js.str "1")),.timer 0] startedMemory=
      some m ∧ m.calls.Clean) ∧
    ∃ c, run (ClientRedisTransport.step plainTexts) [.send (addRequest (Js.str "1")),.timer 0] startedClient=
      some c ∧ c.calls.Clean := by
  have hm : (run (MemoryTransport.step plainTexts) [.send (addRequest (Js.str "1")),.timer 0]
    startedMemory).isSome := rfl
  have hc : (run (ClientRedisTransport.step plainTexts) [.send (addRequest (Js.str "1")),.timer 0]
    startedClient).isSome := rfl
  refine ⟨⟨_,(Option.some_get hm).symm,?_⟩,⟨_,(Option.some_get hc).symm,?_⟩⟩
  · refine ((no_leak_iff plainTexts).1 _ startedMemory startedMemory_started ?_).mpr ?_ _
      (run_mem_states _ _ _ _ (Option.some_get hm).symm)
    · refine ⟨?_,trivial,trivial⟩
      intro key _ s hs
      cases hs
    · exact ⟨trivial,⟨"1",rfl⟩,trivial⟩
  · refine ((no_leak_iff plainTexts).2 _ startedClient startedClient_started ?_).mpr ?_ _
      (run_mem_states _ _ _ _ (Option.some_get hc).symm)
    · refine ⟨?_,trivial,trivial⟩
      intro key _ s hs
      cases hs
    · refine ⟨?_,trivial,trivial⟩
      intro _ _ hfail
      cases hfail

/-- Over memory the entry of the id 5 outlives its timeout; over Redis a bigint among the
params leaves an entry and a timer behind a rejected promise. -/
theorem entries_leaked :
    (∃ m, run (MemoryTransport.step plainTexts) [.send (addRequest (Js.num (ofInt 5))),.timer 0]
      startedMemory=some m ∧ m.calls.slots=[⟨"5",some .timeout,false⟩] ∧ m.calls.pending=[("5",0)] ∧
        ¬m.calls.Clean) ∧
    ∃ c, run (ClientRedisTransport.step plainTexts)
      [.send (buildRequest "arith.add" (.leaf (.bigint 1)) (Js.str "1"))] startedClient=some c ∧
        c.calls.slots=[⟨"1",some .unsendable,true⟩] ∧ c.calls.pending=[("1",0)] ∧ ¬c.calls.Clean := by
  have hm : (run (MemoryTransport.step plainTexts) [.send (addRequest (Js.num (ofInt 5))),.timer 0]
    startedMemory).isSome := rfl
  have hc : (run (ClientRedisTransport.step plainTexts)
    [.send (buildRequest "arith.add" (.leaf (.bigint 1)) (Js.str "1"))] startedClient).isSome := rfl
  refine ⟨⟨_,(Option.some_get hm).symm,rfl,rfl,fun h => ?_⟩,⟨_,(Option.some_get hc).symm,rfl,rfl,fun h => ?_⟩⟩
  · exact (h 0 ⟨"5",some .timeout,false⟩ rfl (by simp)).2 "5" (List.mem_singleton.mpr rfl)
  · exact (h 0 ⟨"1",some .unsendable,true⟩ rfl (by simp)).2 "1" (List.mem_singleton.mpr rfl)

end Clamator.Client
