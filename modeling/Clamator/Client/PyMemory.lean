import Clamator.Client.PyStop

/-!
# The calls of a Python memory transport (`over-memory/transport.py`)

`send` enters a future into the dictionary and starts a task that awaits the dispatcher and
settles that future, if its key is still there. The deadline of `wait_for`, `stop` and
`task.cancel()` race with it; a `CancelledError` out of the dispatcher ends the task alone.
-/

namespace Clamator.Client
open Clamator.Base Clamator.Protocol Clamator.Lifecycle

/-- How the dispatcher ends in the task of a send. -/
inductive RunnerEnd where
  | reply (v : PyVal)
  | returnedNone
  | raised
  | cancelled

/- What `runner` sets on the future; a cancellation is no `Exception`. -/
def RunnerEnd.result : RunnerEnd → Option FutureResult
  | .reply v => some (.result v)
  | .returnedNone => some (.exception "dispatcher returned None for a request")
  | .raised => some (.exception "dispatcher threw")
  | .cancelled => none

/-- `services` are those on the bus, `runners` the sends whose task still awaits the
dispatcher. -/
structure PyMemoryTransport where
  state : LifeState
  services : List String
  myServices : List String
  sends : List PySend
  pending : List (String × ℕ)
  runners : List ℕ

inductive PyMemoryAct where
  | start
  | registerService (name : String)
  /-- Other transports register and unregister. -/
  | bus (services : List String)
  | send (env : PyVal)
  | expire (n : ℕ)
  | cancel (n : ℕ)
  | cancelInner (n : ℕ)
  | resume (n : ℕ) (w : Wake)
  | runnerEnds (n : ℕ) (e : RunnerEnd)
  | stop

section
variable (str : PyVal → Option String)

namespace PyMemoryTransport

def new (services : List String) : PyMemoryTransport := ⟨.idle,services,[],[],[],[]⟩

/- `self._pending.pop(key, None)` -/
def popped (key : String) (m : PyMemoryTransport) : List (String × ℕ) := m.pending.filter (·.1≠key)

def modify (n : ℕ) (f : PySend → PySend) (m : PyMemoryTransport) : PyMemoryTransport :=
  { m with sends := m.sends.modify n f }

/-- A request to a service that is not on the bus is answered at once. -/
def send (env : PyVal) (m : PyMemoryTransport) : PyMemoryTransport :=
  match m.state,pyParseEnvelope env with
  | .started,.ok (.request service _ _ _ id) => match str id with
    | none => m
    | some key =>
      if service∉m.services then
        let reply := pyBuildErrorResponse id (Py.int (-32601)) "Method not found" Py.null
        { m with sends := m.sends++[⟨key,none,.finished (.returned reply),false,false⟩] }
      else
        let n := m.sends.length
        { m with sends := m.sends++[⟨key,none,.reply,false,false⟩],
                 pending := (key,n)::m.popped key,runners := n::m.runners }
  | _,_ => m

/- Where the key is gone the reply is dropped; `set_result` on a future that is done raises, and
the `except` clause finds no key. -/
def runnerEnds (n : ℕ) (e : RunnerEnd) (m : PyMemoryTransport) : Option PyMemoryTransport :=
  match m.sends[n]? with
  | none => none
  | some s =>
    if n∉m.runners then none
    else match e.result,m.pending.lookup s.key with
      | some r,some _ => some { m.modify n (PySend.settle r) with
          pending := m.popped s.key,runners := m.runners.erase n }
      | _,_ => some { m with runners := m.runners.erase n }

def resume (n : ℕ) (w : Wake) (m : PyMemoryTransport) : Option PyMemoryTransport :=
  match m.sends[n]? with
  | none => none
  | some s => (s.resume w).map fun (pc,pops) =>
    { m.modify n fun s => { s with pc := pc } with
      pending := if pops then m.popped s.key else m.pending }

def rejectAll (m : PyMemoryTransport) : List PySend := (m.pending.map Prod.snd).foldl
  (fun sends n => sends.modify n (PySend.settle (.exception "transport stopped"))) m.sends

def stop (m : PyMemoryTransport) : PyMemoryTransport :=
  { m with state := .stopped
           sends := m.rejectAll
           pending := []
           services := m.services.filter (·∉m.myServices)
           myServices := [] }

def step (a : PyMemoryAct) (m : PyMemoryTransport) : Option PyMemoryTransport :=
  match a with
  | .start => some (if m.state=.stopped then m else { m with state := .started })
  | .registerService name => some (if name∈m.services then m
      else { m with services := m.services++[name],myServices := m.myServices.insert name })
  | .bus services => some { m with services := services }
  | .send env => some (m.send str env)
  | .expire n => match m.sends[n]?.map PySend.pc with
    | some .reply => some (m.modify n fun s => { s with expired := true })
    | _ => none
  | .cancel n => match m.sends[n]? with
    | none => none
    | some s => some (if s.unfinished then m.modify n fun s => { s with cancelling := true } else m)
  | .cancelInner n => match m.sends[n]? with
    | none => none
    | some s => match s.pc with
      | .reply =>
        if s.expired || s.cancelling then some (m.modify n (PySend.settle .cancelled)) else none
      | _ => none
  | .resume n w => m.resume n w
  | .runnerEnds n e => m.runnerEnds n e
  | .stop => some m.stop

variable {str}

/-- What a step does to one of the sends. -/
inductive Evolves (m : PyMemoryTransport) (n : ℕ) : PyMemoryAct → PySend → PySend → Prop
  | same (a : PyMemoryAct) (s : PySend) : Evolves m n a s s
  | expired (s : PySend) : Evolves m n (.expire n) s { s with expired := true }
  | cancelling (s : PySend) : Evolves m n (.cancel n) s { s with cancelling := true }
  | innerCancelled (s : PySend) : s.expired=true ∨ s.cancelling=true →
    Evolves m n (.cancelInner n) s (s.settle .cancelled)
  | resumed (w : Wake) (s : PySend) (pc : SendPc) (pops : Bool) : s.resume w=some (pc,pops) →
    Evolves m n (.resume n w) s { s with pc := pc }
  | runnerEnded (e : RunnerEnd) (r : FutureResult) (s : PySend) : e.result=some r → n∈m.runners →
    Evolves m n (.runnerEnds n e) s (s.settle r)
  | stopped (s : PySend) : n∈m.pending.map Prod.snd →
    Evolves m n .stop s (s.settle (.exception "transport stopped"))

/-- The answer to a send whose service is not on the bus. -/
def NotFound (str : PyVal → Option String) (key : String) (v : PyVal) : Prop := ∃ id,
  str id=some key ∧ v=pyBuildErrorResponse id (Py.int (-32601)) "Method not found" Py.null

/-- A send that a step adds. -/
structure Added (str : PyVal → Option String) (m : PyMemoryTransport) (a : PyMemoryAct) (n : ℕ)
    (s : PySend) : Prop where
  started : m.state=.started
  sent : ∃ env, a=.send env ∧ pyRequestKey str env=some s.key
  place : n=m.sends.length
  future : s.future=none
  pc : s.pc=.reply ∨ ∃ v, s.pc=.finished (.returned v) ∧ NotFound str s.key v
  unflagged : s.expired=false ∧ s.cancelling=false

/-- What a step does to the dictionary and to the tasks. -/
inductive Entries (str : PyVal → Option String) (m : PyMemoryTransport) :
    PyMemoryAct → List PySend → List (String × ℕ) → List ℕ → Prop
  | same (a : PyMemoryAct) (sends : List PySend) : (∀ n e, a≠.runnerEnds n e) → a≠.stop →
    (∀ s, sends[m.sends.length]?=some s → s.unfinished=false) → Entries str m a sends m.pending m.runners
  | sent (env : PyVal) (key : String) : pyRequestKey str env=some key → m.state=.started →
    Entries str m (.send env) (m.sends++[⟨key,none,.reply,false,false⟩])
      ((key,m.sends.length)::m.popped key) (m.sends.length::m.runners)
  | popped (n : ℕ) (w : Wake) (s : PySend) (pc : SendPc) : m.sends[n]?=some s →
    s.resume w=some (pc,true) → Entries str m (.resume n w) (m.sends.modify n fun s => { s with pc := pc })
      (m.popped s.key) m.runners
  | runnerSettled (n : ℕ) (e : RunnerEnd) (s : PySend) (r : FutureResult) : m.sends[n]?=some s →
    n∈m.runners → e.result=some r → Entries str m (.runnerEnds n e) (m.sends.modify n (PySend.settle r))
      (m.popped s.key) (m.runners.erase n)
  | runnerDropped (n : ℕ) (e : RunnerEnd) (s : PySend) : m.sends[n]?=some s →
    n∈m.runners → e.result=none ∨ (∀ i, (s.key,i)∉m.pending) →
      Entries str m (.runnerEnds n e) m.sends m.pending (m.runners.erase n)
  | stopped : Entries str m .stop m.rejectAll [] m.runners

variable {m m' : PyMemoryTransport} {a : PyMemoryAct}

theorem send_spec (env : PyVal) (m : PyMemoryTransport) :
    Grown (Evolves m · (.send env)) (Added str m (.send env)) m.sends (m.send str env).sends ∧
      Entries str m (.send env) (m.send str env).sends (m.send str env).pending (m.send str env).runners := by
  have hsame : Grown (Evolves m · (.send env)) (Added str m (.send env)) m.sends m.sends :=
    Grown.refl fun n x _ => .same _ x
  have hadd : ∀ s, Added str m (.send env) m.sends.length s →
      Grown (Evolves m · (.send env)) (Added str m (.send env)) m.sends (m.sends++[s]) := by
    intro s hs
    exact Grown.append s (fun n x _ => .same _ x) hs
  unfold send
  split
  · rename_i service method fullMethod params id hstate hparse
    split
    · exact ⟨hsame,.same _ _ (by simp) (by simp) (by simp)⟩
    · rename_i key hkey
      have hsent : pyRequestKey str env=some key := by simp only [pyRequestKey,hparse,hkey]
      split
      · exact ⟨hadd _ ⟨hstate,⟨env,rfl,hsent⟩,rfl,rfl,Or.inr ⟨_,rfl,id,hkey,rfl⟩,rfl,rfl⟩,
          .same _ _ (by simp) (by simp) (by simp [PySend.unfinished])⟩
      · exact ⟨hadd _ ⟨hstate,⟨env,rfl,hsent⟩,rfl,rfl,Or.inl rfl,rfl,rfl⟩,.sent env key hsent hstate⟩
  · exact ⟨hsame,.same _ _ (by simp) (by simp) (by simp)⟩

theorem lookup_none_iff (pending : List (String × ℕ)) (key : String) :
    pending.lookup key=none ↔ ∀ i, (key,i)∉pending := by
  rw [List.lookup_eq_none_iff]
  constructor
  · intro h i hm
    have hne := h (key,i) hm
    simp at hne
  · rintro h ⟨k,i⟩ hm
    simp only [bne_iff_ne,ne_eq]
    rintro rfl
    exact h i hm

theorem runnerEnds_spec (n : ℕ) (e : RunnerEnd) (h : m.runnerEnds n e=some m') :
    Grown (Evolves m · (.runnerEnds n e)) (Added str m (.runnerEnds n e)) m.sends m'.sends ∧
      Entries str m (.runnerEnds n e) m'.sends m'.pending m'.runners := by
  have hsame : Grown (Evolves m · (.runnerEnds n e)) (Added str m (.runnerEnds n e)) m.sends m.sends :=
    Grown.refl fun n x _ => .same _ x
  unfold runnerEnds at h
  split at h
  · cases h
  · rename_i s hs
    split at h
    · cases h
    · rename_i hrunner
      have hin : n∈m.runners := not_not.mp hrunner
      cases hr : e.result with
      | none =>
        simp only [hr,Option.some.injEq] at h
        subst h
        exact ⟨hsame,.runnerDropped n e s hs hin (Or.inl hr)⟩
      | some r =>
        cases hl : m.pending.lookup s.key with
        | none =>
          simp only [hr,hl,Option.some.injEq] at h
          subst h
          exact ⟨hsame,.runnerDropped n e s hs hin (Or.inr ((lookup_none_iff _ _).mp hl))⟩
        | some i =>
          simp only [hr,hl,Option.some.injEq] at h
          subst h
          refine ⟨Grown.modify n _ (fun m x _ _ => .same _ x) fun x _ => .runnerEnded e r x hr hin,?_⟩
          exact .runnerSettled n e s r hs hin hr

theorem step_spec (h : step str a m=some m') :
    Grown (Evolves m · a) (Added str m a) m.sends m'.sends ∧ Entries str m a m'.sends m'.pending m'.runners := by
  have hsame : Grown (Evolves m · a) (Added str m a) m.sends m.sends :=
    Grown.refl fun n x _ => .same _ x
  have hone : ∀ n f, (∀ x, m.sends[n]?=some x → Evolves m n a x (f x)) →
      Grown (Evolves m · a) (Added str m a) m.sends (m.sends.modify n f) := by
    intro n f hf
    exact Grown.modify n f (fun m x _ _ => .same _ x) hf
  have hlast : ∀ n f s, (m.sends.modify n f)[m.sends.length]?=some s → s.unfinished=false := by
    intro n f s hs
    simp at hs
  cases a with
  | start =>
    simp only [step,Option.some.injEq] at h
    split at h <;> cases h <;> exact ⟨hsame,.same _ _ (by simp) (by simp) (by simp)⟩
  | registerService name =>
    simp only [step,Option.some.injEq] at h
    split at h <;> cases h <;> exact ⟨hsame,.same _ _ (by simp) (by simp) (by simp)⟩
  | bus services =>
    cases h
    exact ⟨hsame,.same _ _ (by simp) (by simp) (by simp)⟩
  | send env =>
    cases h
    exact send_spec env m
  | expire n =>
    simp only [step] at h
    split at h <;> cases h
    exact ⟨hone n _ fun x _ => .expired x,.same _ _ (by simp) (by simp) (hlast n _)⟩
  | cancel n =>
    simp only [step] at h
    split at h
    · cases h
    · cases h
      split
      · exact ⟨hone n _ fun x _ => .cancelling x,.same _ _ (by simp) (by simp) (hlast n _)⟩
      · exact ⟨hsame,.same _ _ (by simp) (by simp) (by simp)⟩
  | cancelInner n =>
    simp only [step] at h
    split at h
    · cases h
    · rename_i s hs
      split at h
      · split at h
        · rename_i hflag
          cases h
          refine ⟨hone n _ fun x hx => ?_,.same _ _ (by simp) (by simp) (hlast n _)⟩
          rw [hs] at hx
          cases hx
          exact .innerCancelled s (by simpa using hflag)
        · cases h
      · cases h
  | resume n w =>
    simp only [step,resume] at h
    split at h
    · cases h
    · rename_i s hs
      obtain ⟨⟨pc,pops⟩,hw,rfl⟩ := Option.map_eq_some_iff.mp h
      constructor
      · apply hone
        intro x hx
        rw [hs] at hx
        cases hx
        exact .resumed w s pc pops hw
      · cases pops with
        | true => exact .popped n w s pc hs hw
        | false => exact .same _ _ (by simp) (by simp) (hlast n _)
  | runnerEnds n e => exact runnerEnds_spec n e h
  | stop =>
    cases h
    refine ⟨?_,.stopped⟩
    apply Grown.foldl_modify _ (PySend.settle_twice _)
    · intro n x _ _
      exact .same _ x
    · intro n x _ hn
      exact .stopped x hn

end PyMemoryTransport
end

end Clamator.Client
