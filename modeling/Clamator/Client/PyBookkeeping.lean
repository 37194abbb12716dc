import Clamator.Base.Cells
import Clamator.Client.PyLeaks

/-!
# Why a Python send ends (`over-redis/client_transport.py`)

A coroutine returns only a reply to its own id that was read while it waited, and raises
only for the deadline, the stop, the XADD or a cancellation of its own. What happens under
one id leaves every other alone.
-/

namespace Clamator.Client
open Clamator.Base Clamator.Protocol Clamator.Lifecycle

section
variable (str : PyVal → Option String)

/-- What a step does to one of the sends. -/
inductive Evolves (c : PyClientRedisTransport) (n : ℕ) : PyClientAct → PySend → PySend → Prop
  | same (a : PyClientAct) (s : PySend) : Evolves c n a s s
  | expired (s : PySend) : Evolves c n (.expire n) s { s with expired := true }
  | cancelling (s : PySend) : Evolves c n (.cancel n) s { s with cancelling := true }
  | innerCancelled (s : PySend) : s.expired=true ∨ s.cancelling=true →
    Evolves c n (.cancelInner n) s (s.settle .cancelled)
  | resumed (w : Wake) (s : PySend) (pc : SendPc) (pops : Bool) : s.resume w=some (pc,pops) →
    Evolves c n (.resume n w) s { s with pc := pc }
  | replied (v : PyVal) (s : PySend) : pyReplyKey str v=some s.key → (s.key,n)∈c.pending →
    Evolves c n (.reply v) s (s.settle (.result v))
  | swept (s : PySend) : (s.key,n)∈c.pending → c.stopping=true →
    Evolves c n .sweep s (s.settle (.exception "transport stopped"))

/-- A send that a step adds. -/
structure Added (c : PyClientRedisTransport) (n : ℕ) (s : PySend) : Prop where
  started : c.state=.started
  place : n=c.sends.length
  future : s.future=none
  pc : s.pc=.xadd ∨ s.pc=.finished (.raised "xadd failed")
  unflagged : s.expired=false ∧ s.cancelling=false

end

theorem PySend.settle_twice (r : FutureResult) (s : PySend) : (s.settle r).settle r=s.settle r := by
  unfold PySend.settle
  cases s.future <;> rfl

namespace PyClientRedisTransport

variable {str : PyVal → Option String} {c c' : PyClientRedisTransport} {a : PyClientAct}

theorem rejectAll_eq (c : PyClientRedisTransport) : c.rejectAll=(c.pending.map Prod.snd).foldl
    (fun sends n => sends.modify n (PySend.settle (.exception "transport stopped"))) c.sends := by
  unfold rejectAll
  rw [List.foldl_map]

theorem send_grown (env : PyVal) (c : PyClientRedisTransport) :
    Grown (Evolves str c · (.send env)) (Added c) c.sends (c.send str env).sends := by
  unfold send
  split
  · rename_i key hstate hkey
    split
    · exact Grown.append _ (fun n x _ => .same _ x) ⟨hstate,rfl,rfl,Or.inl rfl,rfl,rfl⟩
    · exact Grown.append _ (fun n x _ => .same _ x) ⟨hstate,rfl,rfl,Or.inr rfl,rfl,rfl⟩
  · exact Grown.refl fun n x _ => .same _ x

theorem takeReply_grown (v : PyVal) (key : String) (hl : Listed c.sends c.pending)
    (hkey : pyReplyKey str v=some key) :
    Grown (Evolves str c · (.reply v)) (Added c) c.sends (c.takeReply key v).sends := by
  unfold takeReply
  split
  · exact Grown.refl fun n x _ => .same _ x
  · rename_i n hn
    apply Grown.modify
    · intro m x _ _
      exact .same _ x
    · intro x hx
      have hm : (key,n)∈c.pending := Assoc.mem_of_lookup hn
      obtain ⟨s,hs,hsk,_⟩ := hl.entry key n hm
      rw [hx] at hs
      cases hs
      subst hsk
      exact .replied v x hkey hm

theorem sweep_grown (hl : Listed c.sends c.pending) (hs : c.stopping=true) :
    Grown (Evolves str c · .sweep) (Added c) c.sends c.rejectAll := by
  rw [rejectAll_eq]
  apply Grown.foldl_modify _ (PySend.settle_twice _)
  · intro n x _ _
    exact .same _ x
  · intro n x hx hn
    obtain ⟨⟨key,m⟩,hm,hmn⟩ := List.mem_map.mp hn
    have hmn : m=n := hmn
    subst hmn
    obtain ⟨s,hsx,hsk,_⟩ := hl.entry key m hm
    rw [hx] at hsx
    cases hsx
    rw [← hsk] at hm
    exact .swept x hm hs

theorem step_grown (hl : Listed c.sends c.pending) (h : step str a c=some c') :
    Grown (Evolves str c · a) (Added c) c.sends c'.sends := by
  have hsame : Grown (Evolves str c · a) (Added c) c.sends c.sends :=
    Grown.refl fun n x _ => .same _ x
  have hone : ∀ n f, (∀ x, c.sends[n]?=some x → Evolves str c n a x (f x)) →
      Grown (Evolves str c · a) (Added c) c.sends (c.sends.modify n f) := by
    intro n f hf
    exact Grown.modify n f (fun m x _ _ => .same _ x) hf
  cases a with
  | start =>
    simp only [step,Option.some.injEq] at h
    split at h <;> cases h <;> exact hsame
  | send env =>
    cases h
    exact send_grown env c
  | expire n =>
    simp only [step] at h
    split at h <;> cases h
    exact hone n _ fun x _ => .expired x
  | cancel n =>
    simp only [step] at h
    split at h
    · cases h
    · cases h
      split
      · exact hone n _ fun x _ => .cancelling x
      · exact hsame
  | cancelInner n =>
    simp only [step] at h
    split at h
    · cases h
    · rename_i s hs
      split at h
      · split at h
        · rename_i hflag
          cases h
          apply hone
          intro x hx
          rw [hs] at hx
          cases hx
          exact .innerCancelled s (by simpa using hflag)
        · cases h
      · cases h
  | resume n w =>
    simp only [step,resume] at h
    split at h
    · cases h
    · rename_i s hs
      obtain ⟨⟨pc,pops⟩,hw,rfl⟩ := Option.map_eq_some_iff.mp h
      apply hone
      intro x hx
      rw [hs] at hx
      cases hx
      exact .resumed w s pc pops hw
  | reply v =>
    simp only [step] at h
    split at h
    · split at h
      · cases h
        exact hsame
      · rename_i key hkey
        cases h
        exact takeReply_grown v key hl hkey
    · cases h
  | stop =>
    simp only [step,Option.some.injEq] at h
    split at h <;> cases h <;> exact hsame
  | loopEnds =>
    simp only [step] at h
    split at h <;> cases h
    exact hsame
  | sweep =>
    simp only [step] at h
    split at h
    · rename_i hs
      cases h
      simp only [Bool.and_eq_true] at hs
      exact sweep_grown hl hs.1
    · cases h

/-- What a step does to the state, to the reply loop and to a stop under way. -/
inductive Phases (c : PyClientRedisTransport) : PyClientAct → LifeState → Bool → Bool → Prop
  | same (a : PyClientAct) : Phases c a c.state c.looping c.stopping
  | started : c.state=.idle → Phases c .start .started true c.stopping
  | stopping : c.state=.started → Phases c .stop .stopped c.looping true
  | stopped : c.state≠.started → Phases c .stop .stopped c.looping c.stopping
  | loopEnded : c.stopping=true → Phases c .loopEnds c.state false c.stopping
  | swept : c.stopping=true → c.looping=false → Phases c .sweep c.state c.looping false

theorem step_phases (h : step str a c=some c') : Phases c a c'.state c'.looping c'.stopping := by
  cases a with
  | start =>
    simp only [step,Option.some.injEq] at h
    split at h
    · rename_i hidle
      cases h
      exact .started hidle
    · cases h
      exact .same _
  | send env =>
    cases h
    unfold send
    split
    · split <;> exact .same _
    · exact .same _
  | expire n =>
    simp only [step] at h
    split at h <;> cases h
    exact .same _
  | cancel n =>
    simp only [step] at h
    split at h
    · cases h
    · cases h
      split <;> exact .same _
  | cancelInner n =>
    simp only [step] at h
    split at h
    · cases h
    · split at h
      · split at h <;> cases h
        exact .same _
      · cases h
  | resume n w =>
    simp only [step,resume] at h
    split at h
    · cases h
    · obtain ⟨⟨pc,pops⟩,_,rfl⟩ := Option.map_eq_some_iff.mp h
      exact .same _
  | reply v =>
    simp only [step] at h
    split at h
    · split at h
      · cases h
        exact .same _
      · cases h
        unfold takeReply
        split <;> exact .same _
    · cases h
  | stop =>
    simp only [step,Option.some.injEq] at h
    split at h
    · rename_i hstarted
      cases h
      exact .stopping hstarted
    · rename_i hstarted
      cases h
      exact .stopped hstarted
  | loopEnds =>
    simp only [step] at h
    split at h
    · rename_i hs
      cases h
      exact .loopEnded hs
    · cases h
  | sweep =>
    simp only [step] at h
    split at h
    · rename_i hs
      cases h
      simp only [Bool.and_eq_true,Bool.not_eq_true'] at hs
      exact .swept hs.1 hs.2
    · cases h

end PyClientRedisTransport

/-! ### One send -/

theorem PySend.settle_cases (s : PySend) (r r' : FutureResult) (h : (s.settle r).future=some r') :
    s.future=some r' ∨ (s.future=none ∧ r'=r) := by
  unfold PySend.settle at h
  cases hf : s.future with
  | none =>
    rw [hf] at h
    exact Or.inr ⟨rfl,(Option.some.inj h).symm⟩
  | some r0 =>
    rw [hf] at h
    exact Or.inl h

theorem PySend.settle_future (s : PySend) (r : FutureResult) : (s.settle r).future≠none := by
  unfold PySend.settle
  cases s.future <;> simp

section
variable {str : PyVal → Option String} {c c' : PyClientRedisTransport} {a : PyClientAct} {n : ℕ}
  {s s' : PySend}

theorem Evolves.key (h : Evolves str c n a s s') : s'.key=s.key := by
  cases h <;> rfl

theorem PySend.resume_finished (s : PySend) (w : Wake) (hs : s.Finished) : s.resume w=none := by
  obtain ⟨e,he⟩ := hs
  cases w <;> simp [PySend.resume,PySend.unfinished,he]

/-- What was set on a future stays, and so does how the coroutine ended. -/
theorem Evolves.kept (h : Evolves str c n a s s') :
    (∀ r, s.future=some r → s'.future=some r) ∧ ∀ e, s.pc=.finished e → s'.pc=.finished e := by
  have hsettle : ∀ r r', s.future=some r → (s.settle r').future=some r := by
    intro r r' hr
    simp [PySend.settle,hr]
  cases h with
  | same => exact ⟨fun _ hr => hr,fun _ he => he⟩
  | expired => exact ⟨fun _ hr => hr,fun _ he => he⟩
  | cancelling => exact ⟨fun _ hr => hr,fun _ he => he⟩
  | innerCancelled _ => exact ⟨fun r hr => hsettle r _ hr,fun _ he => he⟩
  | resumed w _ pc pops hw =>
    refine ⟨fun _ hr => hr,fun e he => ?_⟩
    rw [PySend.resume_finished s w ⟨e,he⟩] at hw
    cases hw
  | replied v _ _ => exact ⟨fun r hr => hsettle r _ hr,fun _ he => he⟩
  | swept _ _ => exact ⟨fun r hr => hsettle r _ hr,fun _ he => he⟩

/-- A result comes from a reply to the send's own id, read while its entry stood. -/
theorem Evolves.result (h : Evolves str c n a s s') (v : PyVal) (hv : s'.future=some (.result v)) :
    s.future=some (.result v) ∨
      (a=.reply v ∧ s.future=none ∧ pyReplyKey str v=some s.key ∧ (s.key,n)∈c.pending) := by
  cases h with
  | same => exact Or.inl hv
  | expired => exact Or.inl hv
  | cancelling => exact Or.inl hv
  | innerCancelled _ =>
    rcases s.settle_cases _ _ hv with hold | ⟨_,hr⟩
    · exact Or.inl hold
    · cases hr
  | resumed w _ pc pops _ => exact Or.inl hv
  | replied v' _ hkey hm =>
    rcases s.settle_cases _ _ hv with hold | ⟨hnone,hr⟩
    · exact Or.inl hold
    · cases hr
      exact Or.inr ⟨rfl,hnone,hkey,hm⟩
  | swept _ _ =>
    rcases s.settle_cases _ _ hv with hold | ⟨_,hr⟩
    · exact Or.inl hold
    · cases hr

/-- What is set on the future and how the coroutine ends, each with its cause. -/
structure PySend.Caused (str : PyVal → Option String) (state : LifeState) (s : PySend) : Prop where
  result : ∀ v, s.future=some (.result v) → pyReplyKey str v=some s.key
  exception : ∀ m, s.future=some (.exception m) → m="transport stopped" ∧ state=.stopped
  inner : s.future=some .cancelled → s.expired=true ∨ s.cancelling=true
  returned : ∀ v, s.pc=.finished (.returned v) → s.future=some (.result v)
  raised : ∀ m, s.pc=.finished (.raised m) → m="xadd failed" ∨ (m="call timeout" ∧ s.expired=true) ∨
    s.future=some (.exception m)
  cancelled : s.pc=.finished .cancelled → s.cancelling=true

theorem Added.caused (h : Added c n s) (state : LifeState) : s.Caused str state where
  result := by simp [h.future]
  exception := by simp [h.future]
  inner := by simp [h.future]
  returned := by
    intro v hv
    rcases h.pc with hpc | hpc <;> rw [hpc] at hv <;> cases hv
  raised := by
    intro m hm
    rcases h.pc with hpc | hpc <;> rw [hpc] at hm <;> cases hm
    exact Or.inl rfl
  cancelled := by
    intro hc
    rcases h.pc with hpc | hpc <;> rw [hpc] at hc <;> cases hc

/-- What a coroutine that is resumed goes on to. -/
inductive Resumes (s : PySend) : Wake → SendPc → Bool → Prop
  | xadded : s.pc=.xadd → Resumes s .xadded .reply false
  | xaddRaised : s.pc=.xadd → Resumes s .xaddRaised (.finished (.raised "xadd failed")) true
  | returned (v : PyVal) : s.pc=.reply → s.future=some (.result v) →
    Resumes s .done (.finished (.returned v)) false
  | raised (m : String) : s.pc=.reply → s.future=some (.exception m) →
    Resumes s .done (.finished (.raised m)) false
  | timeout : s.pc=.reply → s.expired=true → Resumes s .timeout (.finished (.raised "call timeout")) true
  | cancelled : s.cancelling=true → s.unfinished=true → Resumes s .cancelled (.finished .cancelled) false

theorem PySend.resumes (s : PySend) (w : Wake) (pc : SendPc) (pops : Bool)
    (h : s.resume w=some (pc,pops)) : Resumes s w pc pops := by
  unfold PySend.resume at h
  split at h
  · split at h <;> cases h
    rename_i hpc
    exact .xadded hpc
  · split at h <;> cases h
    rename_i hpc
    exact .xaddRaised hpc
  · split at h <;> cases h
    · rename_i hpc hf
      exact .returned _ hpc hf
    · rename_i hpc hf
      exact .raised _ hpc hf
  · split at h
    · rename_i hpc
      split at h <;> cases h
      rename_i he
      exact .timeout hpc he
    · cases h
  · split at h
    · rename_i hflag
      cases h
      simp only [Bool.and_eq_true] at hflag
      exact .cancelled hflag.1 hflag.2
    · cases h

theorem PySend.Caused.resume (h : s.Caused str c.state) (w : Wake) (pc : SendPc) (pops : Bool)
    (hw : s.resume w=some (pc,pops)) : PySend.Caused str c.state { s with pc := pc } := by
  refine ⟨h.result,h.exception,h.inner,?_,?_,?_⟩
  · intro v hv
    cases s.resumes w pc pops hw <;> cases hv
    assumption
  · intro m hm
    cases s.resumes w pc pops hw <;> cases hm
    · exact Or.inl rfl
    · rename_i hf
      exact Or.inr (Or.inr hf)
    · rename_i he
      exact Or.inr (Or.inl ⟨rfl,he⟩)
  · intro hc
    cases s.resumes w pc pops hw <;> cases hc
    assumption

theorem PySend.Caused.settle (h : s.Caused str c.state) (r : FutureResult)
    (hresult : ∀ v, r=.result v → pyReplyKey str v=some s.key)
    (hexception : ∀ m, r=.exception m → m="transport stopped" ∧ c.state=.stopped)
    (hinner : r=.cancelled → s.expired=true ∨ s.cancelling=true) : (s.settle r).Caused str c.state where
  result := by
    intro v hv
    rcases s.settle_cases r _ hv with hold | ⟨_,hr⟩
    · exact h.result v hold
    · exact hresult v hr.symm
  exception := by
    intro m hm
    rcases s.settle_cases r _ hm with hold | ⟨_,hr⟩
    · exact h.exception m hold
    · exact hexception m hr.symm
  inner := by
    intro hc
    rcases s.settle_cases r _ hc with hold | ⟨_,hr⟩
    · exact h.inner hold
    · exact hinner hr.symm
  returned := by
    intro v hv
    have hold := h.returned v hv
    simp [PySend.settle,hold]
  raised := by
    intro m hm
    rcases h.raised m hm with hx | ht | hf
    · exact Or.inl hx
    · exact Or.inr (Or.inl ht)
    · exact Or.inr (Or.inr (by simp [PySend.settle,hf]))
  cancelled := h.cancelled

theorem Evolves.caused (h : Evolves str c n a s s') (hs : s.Caused str c.state)
    (hstop : c.stopping=true → c.state=.stopped) : s'.Caused str c.state := by
  cases h with
  | same => exact hs
  | expired => exact ⟨hs.result,hs.exception,fun _ => Or.inl rfl,hs.returned,fun m hm =>
      (hs.raised m hm).imp_right fun ht => ht.imp_left fun ht => ⟨ht.1,rfl⟩,hs.cancelled⟩
  | cancelling => exact ⟨hs.result,hs.exception,fun _ => Or.inr rfl,hs.returned,hs.raised,fun _ => rfl⟩
  | innerCancelled _ hflag => exact hs.settle _ (by simp) (by simp) fun _ => hflag
  | resumed w _ pc pops hw => exact hs.resume w pc pops hw
  | replied v _ hkey _ =>
    apply hs.settle
    · intro v' hv'
      cases hv'
      exact hkey
    · simp
    · simp
  | swept _ _ hstopping =>
    apply hs.settle
    · simp
    · intro m hm
      cases hm
      exact ⟨rfl,hstop hstopping⟩
    · simp

theorem PySend.Caused.mono {state state' : LifeState} (h : s.Caused str state)
    (hstate : state=.stopped → state'=.stopped) : s.Caused str state' :=
  ⟨h.result,fun m hm => (h.exception m hm).imp_right hstate,h.inner,h.returned,h.raised,h.cancelled⟩

end

/-! ### Runs -/

namespace PyClientRedisTransport

section
variable {str : PyVal → Option String} {c c' : PyClientRedisTransport} {a : PyClientAct}
  {sends : List PySend} {pending : List (String × ℕ)}

theorem Phases.stays_stopped {state : LifeState} {looping stopping : Bool}
    (h : Phases c a state looping stopping) (hs : c.state=.stopped) : state=.stopped := by
  cases h with
  | same => exact hs
  | started hidle =>
    rw [hs] at hidle
    cases hidle
  | stopping _ => rfl
  | stopped _ => rfl
  | loopEnded _ => exact hs
  | swept _ _ => exact hs

theorem Phases.stopping_stopped {state : LifeState} {looping stopping : Bool}
    (h : Phases c a state looping stopping) (hs : c.stopping=true → c.state=.stopped) :
    stopping=true → state=.stopped := by
  intro hstopping
  cases h with
  | same => exact hs hstopping
  | started hidle =>
    have hstopped := hs hstopping
    rw [hidle] at hstopped
    cases hstopped
  | stopping _ => rfl
  | stopped _ => rfl
  | loopEnded _ => exact hs hstopping
  | swept _ _ => cases hstopping

variable (str) in
/-- The reply loop read `v` at a time when the send in place `n` waited for it. -/
def ReadFor (acts : List PyClientAct) (n : ℕ) (v : PyVal) : Prop :=
  ∃ before after c s, acts=before++.reply v::after ∧ run (step str) before new=some c ∧
    c.sends[n]?=some s ∧ s.future=none ∧ (s.key,n)∈c.pending ∧ pyReplyKey str v=some s.key

theorem ReadFor.concat {acts : List PyClientAct} {n : ℕ} {v : PyVal} (h : ReadFor str acts n v)
    (a : PyClientAct) : ReadFor str (acts++[a]) n v := by
  obtain ⟨before,after,c,s,rfl,hrest⟩ := h
  exact ⟨before,after++[a],c,s,by simp,hrest⟩

/-- A send that waits has its entry. -/
def Waiting (c : PyClientRedisTransport) : Prop := ∀ (n : ℕ) (s : PySend), c.sends[n]?=some s →
  s.unfinished=true → s.future=none → (s.key,n)∈c.pending

theorem modify_getElem?_some {α : Type} {l : List α} {f : α → α} {n m : ℕ} {x : α}
    (h : (l.modify n f)[m]?=some x) : ∃ y, l[m]?=some y ∧ ((n=m ∧ x=f y) ∨ (n≠m ∧ x=y)) := by
  rcases getElem?_modify_cases l n f m x h with ⟨hne,hx⟩ | ⟨heq,y,hy,hx⟩
  · exact ⟨x,hx,Or.inr ⟨hne,rfl⟩⟩
  · exact ⟨y,hy,Or.inl ⟨heq,hx⟩⟩

/- With distinct ids nothing takes the entry of a send that waits but its own end. -/
theorem Moves.waiting (hm : Moves str c a sends pending) (hl : Listed c.sends c.pending)
    (hk : (c.sends.map PySend.key).Nodup) (hf : Fresh str a c) (hw : c.Waiting) :
    ∀ (n : ℕ) (s : PySend), sends[n]?=some s → s.unfinished=true → s.future=none →
      (s.key,n)∈pending := by
  have happend : ∀ key (x : PySend) n s, key∉c.sends.map PySend.key →
      (c.sends++[x])[n]?=some s → s.unfinished=true → s.future=none →
        (s=x ∧ n=c.sends.length) ∨ (s.key,n)∈c.popped key := by
    intro key x n s hfresh hs hu hn
    by_cases hlt : n < c.sends.length
    · rw [List.getElem?_append_left hlt] at hs
      apply Or.inr
      apply (mem_filter_key _ _ n).mpr
      refine ⟨hw n s hs hu hn,fun hsk => hfresh ?_⟩
      rw [← hsk]
      exact List.mem_map_of_mem (List.mem_of_getElem? hs)
    · have hlen := (List.getElem?_eq_some_iff.mp hs).1
      simp only [List.length_append,List.length_singleton] at hlen
      have hn' : n=c.sends.length := by omega
      subst hn'
      simp only [List.getElem?_concat_length,Option.some.injEq] at hs
      exact Or.inl ⟨hs.symm,rfl⟩
  intro n s hs hu hn
  cases hm with
  | same => exact hw n s hs hu hn
  | sent env key hkey =>
    rcases happend key _ n s (hf key hkey) hs hu hn with ⟨rfl,rfl⟩ | hold
    · exact List.mem_cons_self
    · exact List.mem_cons_of_mem _ hold
  | unsent env key hkey =>
    rcases happend key _ n s (hf key hkey) hs hu hn with ⟨rfl,_⟩ | hold
    · cases hu
    · exact hold
  | flagged _ m f _ hkeep =>
    obtain ⟨y,hy,⟨_,rfl⟩ | ⟨_,rfl⟩⟩ := modify_getElem?_some hs
    · obtain ⟨hkey,hpc,hfut⟩ := hkeep y
      rw [hkey]
      rw [hfut] at hn
      exact hw n y hy (by rwa [PySend.unfinished,hpc] at hu) hn
    · exact hw n s hy hu hn
  | innerCancelled m =>
    obtain ⟨y,hy,⟨_,rfl⟩ | ⟨_,rfl⟩⟩ := modify_getElem?_some hs
    · exact (y.settle_future _ hn).elim
    · exact hw n s hy hu hn
  | resumed m w x pc pops hx hres =>
    obtain ⟨y,hy,⟨rfl,rfl⟩ | ⟨hne,rfl⟩⟩ := modify_getElem?_some hs
    · rw [hx] at hy
      cases hy
      cases x.resumes w pc pops hres with
      | xadded hpc => exact hw m x hx (by simp [PySend.unfinished,hpc]) hn
      | _ => cases hu
    · have hold := hw n s hy hu hn
      split
      · exact (mem_filter_key _ _ n).mpr ⟨hold,fun hkey => hne (place_inj _ hk hx hy hkey.symm)⟩
      · exact hold
  | replied v key m _ hlook =>
    obtain ⟨y,hy,⟨_,rfl⟩ | ⟨hne,rfl⟩⟩ := modify_getElem?_some hs
    · exact (y.settle_future _ hn).elim
    · apply (mem_filter_key _ _ n).mpr
      refine ⟨hw n s hy hu hn,fun hkey => ?_⟩
      obtain ⟨x,hx,hxk⟩ := lookup_entry hl key m hlook
      exact hne (place_inj _ hk hx hy (hxk.trans hkey.symm))
  | swept =>
    rw [rejectAll_eq,getElem?_foldl_modify _ (PySend.settle_twice _)] at hs
    split at hs
    · obtain ⟨y,_,rfl⟩ := Option.map_eq_some_iff.mp hs
      exact (y.settle_future _ hn).elim
    · rename_i hmem
      exact (hmem (List.mem_map_of_mem (hw n s hs hu hn))).elim

variable (str) in
/-- The id, as a string, that a step is about. -/
def eventKey (c : PyClientRedisTransport) : PyClientAct → Option String
  | .send env => pyRequestKey str env
  | .expire n => c.sends[n]?.map PySend.key
  | .cancel n => c.sends[n]?.map PySend.key
  | .cancelInner n => c.sends[n]?.map PySend.key
  | .resume n _ => c.sends[n]?.map PySend.key
  | .reply v => pyReplyKey str v
  | _ => none

theorem eq_of_other {n : ℕ} {s s' : PySend} (h : Evolves str c n a s s') (hs : c.sends[n]?=some s)
    (key : String) (hkey : eventKey str c a=some key) (hne : s.key≠key) : s'=s := by
  have hplace : (c.sends[n]?.map PySend.key)≠some key := by
    rw [hs]
    intro heq
    exact hne (Option.some.inj heq)
  cases h with
  | same => rfl
  | expired => exact (hplace hkey).elim
  | cancelling => exact (hplace hkey).elim
  | innerCancelled _ _ => exact (hplace hkey).elim
  | resumed w _ pc pops _ => exact (hplace hkey).elim
  | replied v _ hreply _ => exact (hne (Option.some.inj (hreply.symm.trans hkey))).elim
  | swept _ _ _ => cases hkey

theorem Moves.entries_of_other (hm : Moves str c a sends pending) (hl : Listed c.sends c.pending)
    (key : String) (hkey : eventKey str c a=some key) (n : ℕ) (s : PySend) (hs : c.sends[n]?=some s)
    (hne : s.key≠key) (k : String) : (k,n)∈pending ↔ (k,n)∈c.pending := by
  have hown : (k,n)∈c.pending → k≠key := by
    intro hmem
    obtain ⟨x,hx,hxk,_⟩ := hl.entry k n hmem
    rw [hs] at hx
    cases hx
    rwa [← hxk]
  have hpop : (k,n)∈c.popped key ↔ (k,n)∈c.pending :=
    (mem_filter_key key k n).trans ⟨fun h => h.1,fun h => ⟨h,hown h⟩⟩
  have hlt := (List.getElem?_eq_some_iff.mp hs).1
  cases hm with
  | same => rfl
  | sent env key' hkey' =>
    cases hkey'.symm.trans hkey
    rw [List.mem_cons,hpop]
    constructor
    · rintro (heq | h)
      · cases heq
        omega
      · exact h
    · exact Or.inr
  | unsent env key' hkey' =>
    cases hkey'.symm.trans hkey
    exact hpop
  | flagged _ m f _ _ => rfl
  | innerCancelled m => rfl
  | resumed m w x pc pops hx _ =>
    split
    · simp only [eventKey,hx,Option.map_some,Option.some.injEq] at hkey
      rw [hkey]
      exact hpop
    · rfl
  | replied v key' m hkey' _ =>
    cases hkey'.symm.trans hkey
    exact hpop
  | swept => cases hkey

variable (str) in
/-- What holds of every run, whatever the ids are. -/
structure Traced (acts : List PyClientAct) (c : PyClientRedisTransport) : Prop where
  listed : Listed c.sends c.pending
  stopping : c.stopping=true → c.state=.stopped
  caused : ∀ (n : ℕ) (s : PySend), c.sends[n]?=some s → s.Caused str c.state
  read : ∀ (n : ℕ) (s : PySend) (v : PyVal), c.sends[n]?=some s → s.future=some (.result v) → ReadFor str acts n v

theorem Traced.step {acts : List PyClientAct} (h : Traced str acts c) (hrun : run (step str) acts new=some c)
    (hstep : step str a c=some c') : Traced str (acts++[a]) c' := by
  have hgrown := step_grown h.listed hstep
  have hphases := step_phases hstep
  refine ⟨(step_moves a c c' hstep).listed h.listed,hphases.stopping_stopped h.stopping,?_,?_⟩
  · apply hgrown.forall_getElem? (P := fun _ s => s.Caused str c'.state)
    · intro n s s' hs he _
      exact (he.caused (h.caused n s hs) h.stopping).mono hphases.stays_stopped
    · intro n s hadded
      exact hadded.caused c'.state
    · intro n s hs
      exact (h.caused n s hs).mono hphases.stays_stopped
  · intro n s' v hs' hv
    rcases hgrown.cases n s' hs' with ⟨s,hs,he⟩ | ⟨_,hadded⟩
    · rcases he.result v hv with hold | ⟨rfl,hnone,hkey,hmem⟩
      · exact (h.read n s v hs hold).concat a
      · exact ⟨acts,[],c,s,rfl,hrun,hs,hnone,hmem,hkey⟩
    · rw [hadded.future] at hv
      cases hv

theorem run_traced (acts : List PyClientAct) (c : PyClientRedisTransport)
    (h : run (step str) acts new=some c) : Traced str acts c := by
  refine run_induction (I := Traced str) ?_ ?_ acts c (guarded_true acts new) h
  · refine ⟨Listed.empty,fun h => ?_,fun n s hs => ?_,fun n s v hs => ?_⟩
    · cases h
    · simp [new] at hs
    · simp [new] at hs
  · intro before a t u hrun hi _ hstep
    exact hi.step hrun hstep

/-- Distinct ids: the keys of the sends stay distinct, and who waits has an entry. -/
theorem run_waiting (acts : List PyClientAct) (c : PyClientRedisTransport)
    (hg : Guarded (step str) (Fresh str) acts new) (h : run (step str) acts new=some c) :
    (c.sends.map PySend.key).Nodup ∧ c.Waiting := by
  refine run_induction (I := fun _ c => (c.sends.map PySend.key).Nodup ∧ c.Waiting) ?_ ?_ acts c hg h
  · exact ⟨List.nodup_nil,fun n s hs => by simp [new] at hs⟩
  · intro before a t u hrun hi hf hstep
    have hl := (run_traced before t hrun).listed
    have hm := step_moves a t u hstep
    exact ⟨hm.keys_nodup hf hi.1,hm.waiting hl hi.1 hf hi.2⟩

end

/-- In every state of a run a coroutine has returned only a reply to its own id, read while it
waited, and raised only for its cause; a send that waits, its id being no other's, has the one
entry under it. No later step changes what was set or how a coroutine ended, and what is about
one id leaves the sends of every other and their entries alone. -/
theorem py_bookkeeping (str : PyVal → Option String) (acts : List PyClientAct)
    (c : PyClientRedisTransport) (h : run (step str) acts new=some c) :
    (∀ (n : ℕ) (s : PySend), c.sends[n]?=some s → s.Caused str c.state ∧
      ∀ v, s.pc=.finished (.returned v) → pyReplyKey str v=some s.key ∧ ReadFor str acts n v) ∧
    (Guarded (step str) (Fresh str) acts new → ∀ (n : ℕ) (s : PySend), c.sends[n]?=some s →
      s.unfinished=true → s.future=none → (s.key,n)∈c.pending ∧ ∀ m, (s.key,m)∈c.pending → m=n) ∧
    ∀ a c', step str a c=some c' →
      (∀ (n : ℕ) (s : PySend), c.sends[n]?=some s → ∃ s', c'.sends[n]?=some s' ∧ s'.key=s.key ∧
        (∀ r, s.future=some r → s'.future=some r) ∧ ∀ e, s.pc=.finished e → s'.pc=.finished e) ∧
      ∀ key, eventKey str c a=some key → ∀ (n : ℕ) (s : PySend), c.sends[n]?=some s →
        s.key≠key → c'.sends[n]?=some s ∧ ∀ k, (k,n)∈c'.pending ↔ (k,n)∈c.pending := by
  have htraced := run_traced acts c h
  refine ⟨fun n s hs => ?_,fun hg n s hs hu hn => ?_,fun a c' hstep => ⟨fun n s hs => ?_,?_⟩⟩
  · have hcaused := htraced.caused n s hs
    refine ⟨hcaused,fun v hv => ?_⟩
    have hfuture := hcaused.returned v hv
    exact ⟨hcaused.result v hfuture,htraced.read n s v hs hfuture⟩
  · have hm := (run_waiting acts c hg h).2 n s hs hu hn
    refine ⟨hm,fun m hm' => ?_⟩
    exact congrArg Prod.snd (List.inj_on_of_nodup_map htraced.listed.nodup hm' hm rfl)
  · obtain ⟨s',hs',he⟩ := (step_grown htraced.listed hstep).old n s hs
    exact ⟨s',hs',he.key,he.kept.1,he.kept.2⟩
  · intro key hkey n s hs hne
    obtain ⟨s',hs',he⟩ := (step_grown htraced.listed hstep).old n s hs
    have hsame : s'=s := eq_of_other he hs key hkey hne
    refine ⟨by rwa [hsame] at hs',fun k => ?_⟩
    exact (step_moves a c c' hstep).entries_of_other htraced.listed key hkey n s hs hne k

end PyClientRedisTransport

open PyClientRedisTransport

/- Two calls, the first of which gets its reply. -/
def oneReplied : List PyClientAct :=
  [.start,.send addCall,.resume 0 .xadded,.send (pyBuildRequest "arith.add" (.obj []) (Py.str "2")),
    .reply (pyBuildSuccessResponse (Py.str "1") Py.null),.resume 0 .done]

theorem oneReplied_fresh : Guarded (step plainStr) (Fresh plainStr) oneReplied new := by
  refine ⟨trivial,fun _ _ h => List.not_mem_nil h,trivial,?_,trivial,trivial,trivial⟩
  intro key hkey hmem
  cases hkey
  exact absurd (List.mem_singleton.mp hmem) (by decide)

theorem py_bookkeeping_two : ∃ c s, run (step plainStr) oneReplied new=some c ∧ c.sends[1]?=some s ∧
    (s.key,1)∈c.pending ∧ ∃ s0 v, c.sends[0]?=some s0 ∧ s0.pc=.finished (.returned v) ∧
      ReadFor plainStr oneReplied 0 v := by
  have hrun : (run (step plainStr) oneReplied new).isSome := rfl
  obtain ⟨hends,hwait,_⟩ := py_bookkeeping plainStr oneReplied _ (Option.some_get hrun).symm
  have hmem := (hwait oneReplied_fresh 1 ⟨"2",none,.xadd,false,false⟩ rfl rfl rfl).1
  have hread := ((hends 0 _ rfl).2 _ rfl).2
  exact ⟨_,_,(Option.some_get hrun).symm,rfl,hmem,_,_,rfl,rfl,hread⟩

end Clamator.Client
