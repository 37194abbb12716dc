import Clamator.Client.Bookkeeping

/-!
# The calls of a memory transport (`over-memory/src/transport.ts`)

`send` inserts under `String(parsed.id)` and calls the dispatcher in a microtask, whose
end takes the entry out under the same key. The timer deletes `parsed.id` as it is; a
`Map` whose keys are strings has no entry for a number. Where a dispatcher throws, the
`logger.warn` that comes before the entry is taken out is assumed to return.
-/

namespace Clamator.Client
open Clamator.Base Clamator.Protocol Clamator.Lifecycle

/- `pending.delete(id)`, where the keys are strings. -/
def mapDelete (calls : Calls String Outcome) : JsVal → Calls String Outcome
  | Js.str s => calls.remove s
  | _ => calls

inductive DispatchEnd where
  | reply (v : JsVal)
  | null
  | threw

def DispatchEnd.outcome : DispatchEnd → Outcome
  | .reply v => .resolved v
  | .null => .nullReply
  | .threw => .dispatcherThrew

/-- `services` are those on the bus, `ids` the ids of the calls, `dispatches` the calls whose
dispatcher is under way. -/
structure MemoryTransport where
  state : LifeState
  services : List String
  calls : Calls String Outcome
  ids : List JsVal
  dispatches : List ℕ

inductive MemoryAct where
  | send (env : JsVal)
  | dispatched (n : ℕ) (e : DispatchEnd)
  | timer (n : ℕ)
  | stop

namespace MemoryTransport

def Started (m : MemoryTransport) : Prop :=
  m.state=.started ∧ m.calls=Calls.empty ∧ m.ids=[] ∧ m.dispatches=[]

/-- A request to a service that is not on the bus is answered without an entry. -/
def send (T : Texts) (env : JsVal) (m : MemoryTransport) : MemoryTransport :=
  match m.state,parseEnvelope env with
  | .started,.ok (.request service _ _ _ id) => match T.text id with
    | none => m
    | some key =>
      if service∉m.services then m
      else
        let n := m.calls.slots.length
        { m with calls := m.calls.insert key,ids := m.ids++[id],dispatches := n::m.dispatches }
  | _,_ => m

def step (T : Texts) (a : MemoryAct) (m : MemoryTransport) : Option MemoryTransport := match a with
  | .send env => some (m.send T env)
  | .dispatched n e => match m.calls.slots[n]? with
    | none => none
    | some s =>
      if n∉m.dispatches then none
      else some { m with dispatches := m.dispatches.erase n,calls := m.calls.finish s.key e.outcome }
  | .timer n => match m.calls.slots[n]?,m.ids[n]? with
    | some s,some id =>
      if s.armed then some { m with calls := (mapDelete m.calls id).modify n (Slot.close .timeout) }
      else none
    | _,_ => none
  | .stop => some { m with state := .stopped,calls := m.calls.sweep .stopped,services := [] }

/-- What a step does to the calls and their ids. -/
inductive Moves (T : Texts) (m : MemoryTransport) : MemoryAct → Calls String Outcome → List JsVal → Prop
  | same (a : MemoryAct) : Moves T m a m.calls m.ids
  | sent (env id : JsVal) (key : String) : requestKey T env=some key → T.text id=some key →
    Moves T m (.send env) (m.calls.insert key) (m.ids++[id])
  | dispatched (n : ℕ) (s : Slot String Outcome) (e : DispatchEnd) : m.calls.slots[n]?=some s →
    Moves T m (.dispatched n e) (m.calls.finish s.key e.outcome) m.ids
  | timeout (n : ℕ) (s : Slot String Outcome) (id : JsVal) : m.calls.slots[n]?=some s → s.armed=true →
    m.ids[n]?=some id → Moves T m (.timer n) ((mapDelete m.calls id).modify n (Slot.close .timeout)) m.ids
  | swept : Moves T m .stop (m.calls.sweep .stopped) m.ids

theorem step_moves (T : Texts) (a : MemoryAct) (m m' : MemoryTransport) (h : step T a m=some m') :
    Moves T m a m'.calls m'.ids := by
  cases a with
  | send env =>
    cases h
    unfold send
    split
    · rename_i service method fullMethod params id hstate hparse
      split
      · exact .same _
      · rename_i key hkey
        split
        · exact .same _
        · refine .sent env id key ?_ hkey
          simp only [requestKey,hparse,hkey]
    · exact .same _
  | dispatched n e =>
    simp only [step] at h
    split at h
    · cases h
    · rename_i s hs
      split at h <;> cases h
      exact .dispatched n s e hs
  | timer n =>
    simp only [step] at h
    split at h
    · rename_i s id hs hid
      split at h
      · rename_i ha
        cases h
        exact .timeout n s id hs ha hid
      · cases h
    · cases h
  | stop =>
    cases h
    exact .swept

def Fresh (T : Texts) : MemoryAct → MemoryTransport → Prop
  | .send env,m => ∀ key, requestKey T env=some key → ∀ s∈m.calls.slots, s.key≠key
  | _,_ => True

def StringTimeout : MemoryAct → MemoryTransport → Prop
  | .timer n,m => ∃ s, m.ids[n]?=some (Js.str s)
  | _,_ => True

def TextKeys (T : Texts) (calls : Calls String Outcome) (ids : List JsVal) : Prop :=
  ids.map T.text=calls.keys.map some

theorem TextKeys.text {T : Texts} {calls : Calls String Outcome} {ids : List JsVal}
    (h : TextKeys T calls ids) (n : ℕ) (s : Slot String Outcome) (id : JsVal)
    (hs : calls.slots[n]?=some s) (hid : ids[n]?=some id) : T.text id=some s.key := by
  have hn := congrArg (fun l => l[n]?) h
  simpa [Calls.keys,hs,hid] using hn

theorem mapDelete_str {T : Texts} {calls : Calls String Outcome} {ids : List JsVal}
    (h : TextKeys T calls ids) (n : ℕ) (s : Slot String Outcome) (str : String)
    (hs : calls.slots[n]?=some s) (hid : ids[n]?=some (Js.str str)) :
    mapDelete calls (Js.str str)=calls.remove s.key := by
  have ht := h.text n s _ hs hid
  rw [T.text_str] at ht
  rw [← Option.some.inj ht]
  rfl

theorem Moves.textKeys {T : Texts} {m : MemoryTransport} {a : MemoryAct} {calls : Calls String Outcome}
    {ids : List JsVal} (h : Moves T m a calls ids) (hk : TextKeys T m.calls m.ids) :
    TextKeys T calls ids := by
  unfold TextKeys at hk ⊢
  cases h with
  | same => exact hk
  | sent env id key _ hid => simp [Calls.keys_insert,hk,hid]
  | dispatched n s e _ => rw [Calls.keys_finish,hk]
  | timeout n s id _ _ _ =>
    have hkeys : ((mapDelete m.calls id).modify n (Slot.close .timeout)).keys=m.calls.keys := by
      rw [Calls.keys_modify (mapDelete m.calls id) n (Slot.close Outcome.timeout) fun _ => rfl]
      unfold mapDelete
      split <;> rfl
    rw [hkeys,hk]
  | swept => rw [Calls.keys_sweep,hk]

structure Accounted (T : Texts) (m : MemoryTransport) : Prop where
  kept : m.calls.Kept
  clean : m.calls.Clean
  text : TextKeys T m.calls m.ids

theorem Started.accounted {T : Texts} {m : MemoryTransport} (h : m.Started) : m.Accounted T := by
  obtain ⟨_,hcalls,hids,_⟩ := h
  refine ⟨?_,?_,?_⟩
  · rw [hcalls]
    exact Calls.Kept.empty
  · rw [hcalls]
    exact Calls.Clean.empty
  · rw [hcalls,hids]
    rfl

theorem Accounted.step {T : Texts} {a : MemoryAct} {m m' : MemoryTransport} (h : m.Accounted T)
    (hf : Fresh T a m) (hg : StringTimeout a m) (hstep : MemoryTransport.step T a m=some m') :
    m'.Accounted T := by
  have hm := step_moves T a m m' hstep
  have hboth : m'.calls.Kept ∧ m'.calls.Clean := by
    generalize hcalls : m'.calls=calls at hm
    generalize m'.ids=ids at hm
    cases hm with
    | same => exact ⟨h.kept,h.clean⟩
    | sent env id key hkey _ =>
      have hfree : ∀ n, (key,n)∉m.calls.pending := by
        intro n hn
        obtain ⟨s,hs,hsk⟩ := h.kept.entry key n hn
        exact hf key hkey s (List.mem_of_getElem? hs) hsk
      exact ⟨h.kept.insert key hfree,h.clean.insert key⟩
    | dispatched n s e _ => exact ⟨h.kept.finish s.key _,h.clean.finish h.kept s.key _⟩
    | timeout n s id hs ha hid =>
      obtain ⟨str,hstr⟩ := hg
      have hidstr : id=Js.str str := Option.some.inj (hid.symm.trans hstr)
      rw [hidstr,mapDelete_str h.text n s str hs hstr]
      have hn := h.kept.armed n s hs ha
      exact ⟨h.kept.retire n s.key _ hn,h.clean.retire h.kept n s.key _ hn⟩
    | swept => exact ⟨h.kept.sweep _,h.clean.sweep h.kept _⟩
  exact ⟨hboth.1,hboth.2,hm.textKeys h.text⟩

/- A timer of a call with a numeric id leaves the entry. -/
theorem Accounted.leaves {T : Texts} {a : MemoryAct} {m m' : MemoryTransport} (h : m.Accounted T)
    (hstep : MemoryTransport.step T a m=some m') (hclean : m'.calls.Clean) : StringTimeout a m := by
  cases a with
  | timer n =>
    simp only [MemoryTransport.step] at hstep
    split at hstep
    · rename_i s id hs hid
      split at hstep
      · rename_i ha
        cases hstep
        have hm := h.kept.armed n s hs ha
        have hslot : ((mapDelete m.calls id).modify n (Slot.close .timeout)).slots[n]?=
            some (s.close .timeout) := by
          apply Calls.modify_self
          unfold mapDelete
          split <;> exact hs
        have hgone := (hclean n _ hslot (by cases ho : s.outcome <;> simp [Slot.close,ho])).2 s.key
        unfold mapDelete at hgone
        split at hgone
        · rename_i str
          exact ⟨str,hid⟩
        · exact (hgone hm).elim
      · cases hstep
    · cases hstep
  | _ => trivial

end MemoryTransport
end Clamator.Client
