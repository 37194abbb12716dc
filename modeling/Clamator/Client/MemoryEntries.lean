import Clamator.Client.Leaks
import Clamator.Client.PyMemory

/-!
# Entries over memory (`over-memory/src/transport.ts`, `over-memory/transport.py`)

The end of a dispatcher takes the entry of its key out, whoever had it. So an entry is
there only while its dispatcher is under way, and a map leaks nothing for longer; in
Python a dispatcher that is cancelled takes nothing out.
-/

namespace Clamator.Client
open Clamator.Base Clamator.Protocol Clamator.Lifecycle

/-! ### Python -/

namespace PyMemoryTransport

variable {str : PyVal → Option String} {m m' : PyMemoryTransport} {a : PyMemoryAct}

structure Tabled (m : PyMemoryTransport) : Prop where
  listed : Listed m.sends m.pending
  runners : m.runners.Nodup
  placed : ∀ n∈m.runners, n < m.sends.length

theorem Tabled.new (services : List String) : (new services).Tabled where
  listed := Listed.empty
  runners := List.nodup_nil
  placed := by simp [PyMemoryTransport.new]

section
variable {sends : List PySend} {pending : List (String × ℕ)} {runners : List ℕ}

/- An entry after the step was there before it, or is the one of the send that the step adds. -/
theorem Entries.before (h : Entries str m a sends pending runners) (k : String) (n : ℕ)
    (hk : (k,n)∈pending) : (k,n)∈m.pending ∨ (n=m.sends.length ∧ n∈runners ∧
      sends=m.sends++[⟨k,none,.reply,false,false⟩]) := by
  cases h with
  | same => exact Or.inl hk
  | sent env key hkey hstate =>
    rcases List.mem_cons.mp hk with heq | hk
    · cases heq
      exact Or.inr ⟨rfl,List.mem_cons_self,rfl⟩
    · exact Or.inl ((mem_filter_key _ _ _).mp hk).1
  | popped => exact Or.inl ((mem_filter_key _ _ _).mp hk).1
  | runnerSettled => exact Or.inl ((mem_filter_key _ _ _).mp hk).1
  | runnerDropped => exact Or.inl hk
  | stopped => cases hk

theorem Entries.nodup (h : Entries str m a sends pending runners) (hn : (m.pending.map Prod.fst).Nodup) :
    (pending.map Prod.fst).Nodup := by
  have hpop : ∀ key, ((m.popped key).map Prod.fst).Nodup := by
    intro key
    exact hn.sublist (List.filter_sublist.map Prod.fst)
  cases h with
  | same => exact hn
  | sent env key _ _ =>
    refine List.nodup_cons.mpr ⟨fun hk => ?_,hpop key⟩
    obtain ⟨e,he,heq⟩ := List.mem_map.mp hk
    exact ((mem_filter_key key e.1 e.2).mp he).2 heq
  | popped => exact hpop _
  | runnerSettled => exact hpop _
  | runnerDropped => exact hn
  | stopped => exact List.nodup_nil

/- Whatever settles a future has taken the entry out. -/
theorem unset_of_entry {s s' : PySend} {n : ℕ} (he : Evolves m n a s s')
    (h : Entries str m a sends pending runners) (hs : m.sends[n]?=some s) (hk : (s.key,n)∈pending)
    (hu : s.Unset) : s'.key=s.key ∧ s'.Unset := by
  cases he with
  | same => exact ⟨rfl,hu⟩
  | expired => exact ⟨rfl,hu⟩
  | cancelling => exact ⟨rfl,hu⟩
  | innerCancelled _ _ => exact ⟨rfl,hu.settle_cancelled⟩
  | resumed w _ pc pops _ => exact ⟨rfl,hu⟩
  | runnerEnded e r _ hr _ =>
    cases h with
    | same _ _ hne _ _ => exact (hne n e rfl).elim
    | runnerSettled _ _ x _ hx _ _ =>
      rw [hs] at hx
      cases hx
      exact (((mem_filter_key _ _ _).mp hk).2 rfl).elim
    | runnerDropped _ _ x hx _ hdrop =>
      rw [hs] at hx
      cases hx
      rcases hdrop with hnone | hgone
      · rw [hr] at hnone
        cases hnone
      · exact (hgone n hk).elim
  | stopped _ _ =>
    cases h with
    | same _ _ _ hne _ => exact (hne rfl).elim
    | stopped => cases hk

/- The tasks after the step. -/
theorem Entries.runners_cases (h : Entries str m a sends pending runners) : runners=m.runners ∨
    (runners=m.sends.length::m.runners ∧ sends.length=m.sends.length+1) ∨
      ∃ n e, a=.runnerEnds n e ∧ runners=m.runners.erase n := by
  cases h with
  | same => exact Or.inl rfl
  | sent env key _ _ => exact Or.inr (Or.inl ⟨rfl,by simp⟩)
  | popped => exact Or.inl rfl
  | runnerSettled n e _ _ _ _ _ => exact Or.inr (Or.inr ⟨n,e,rfl,rfl⟩)
  | runnerDropped n e _ _ _ _ => exact Or.inr (Or.inr ⟨n,e,rfl,rfl⟩)
  | stopped => exact Or.inl rfl

end

theorem Tabled.step (h : m.Tabled) (hstep : step str a m=some m') : m'.Tabled := by
  obtain ⟨hgrown,hentries⟩ := step_spec hstep
  have hle := hgrown.length_le
  refine ⟨⟨?_,hentries.nodup h.listed.nodup⟩,?_,?_⟩
  · intro k n hk
    rcases hentries.before k n hk with hold | ⟨rfl,_,hsends⟩
    · obtain ⟨s,hs,rfl,hu⟩ := h.listed.entry k n hold
      obtain ⟨s',hs',he⟩ := hgrown.old n s hs
      obtain ⟨hkey,hu'⟩ := unset_of_entry he hentries hs hk hu
      exact ⟨s',hs',hkey,hu'⟩
    · exact ⟨⟨k,none,.reply,false,false⟩,by rw [hsends]; simp,rfl,Or.inl rfl⟩
  · rcases hentries.runners_cases with heq | ⟨heq,_⟩ | ⟨n,e,_,heq⟩
    · rw [heq]
      exact h.runners
    · rw [heq]
      refine List.nodup_cons.mpr ⟨fun hmem => ?_,h.runners⟩
      exact Nat.lt_irrefl _ (h.placed _ hmem)
    · rw [heq]
      exact h.runners.erase n
  · intro n hn
    rcases hentries.runners_cases with heq | ⟨heq,hlen⟩ | ⟨i,e,_,heq⟩
    · rw [heq] at hn
      exact (h.placed n hn).trans_le hle
    · rw [heq] at hn
      rcases List.mem_cons.mp hn with rfl | hn
      · omega
      · have hlt := h.placed n hn
        omega
    · rw [heq] at hn
      exact (h.placed n (List.mem_of_mem_erase hn)).trans_le hle

/-- No dispatcher is cancelled while the entry of its send stands. -/
def NotAborted : PyMemoryAct → PyMemoryTransport → Prop
  | .runnerEnds n .cancelled,m => ∀ s, m.sends[n]?=some s → (s.key,n)∉m.pending
  | _,_ => True

/-- Of every entry the dispatcher is under way. -/
def Dispatching (m : PyMemoryTransport) : Prop := ∀ k n, (k,n)∈m.pending → n∈m.runners

theorem dispatching_iff (h : m.Tabled) (hd : m.Dispatching) (hstep : step str a m=some m') :
    m'.Dispatching ↔ NotAborted a m := by
  obtain ⟨_,hentries⟩ := step_spec hstep
  constructor
  · intro hd'
    cases a with
    | runnerEnds n e => cases e with
      | cancelled =>
        intro s hs hm
        generalize hpending : m'.pending=pending at hentries
        generalize hrunners : m'.runners=runners at hentries
        generalize m'.sends=sends at hentries
        cases hentries with
        | same _ _ hne _ _ => exact hne n .cancelled rfl
        | runnerSettled _ _ _ _ _ _ hr => cases hr
        | runnerDropped _ _ x _ _ _ =>
          have hin := hd' s.key n (by rwa [hpending])
          rw [hrunners] at hin
          exact h.runners.not_mem_erase hin
      | _ => trivial
    | _ => trivial
  · intro hg k n hk
    rcases hentries.before k n hk with hold | ⟨_,hin,_⟩
    · have hin := hd k n hold
      generalize m'.pending=pending at hentries hk
      generalize m'.runners=runners at hentries
      generalize m'.sends=sends at hentries
      cases hentries with
      | same => exact hin
      | sent env key _ _ => exact List.mem_cons_of_mem _ hin
      | popped => exact hin
      | runnerSettled i e x _ hx _ _ =>
        apply (List.mem_erase_of_ne ?_).mpr hin
        rintro rfl
        obtain ⟨y,hy,hyk,_⟩ := h.listed.entry k n hold
        rw [hx] at hy
        cases hy
        exact ((mem_filter_key _ _ _).mp hk).2 hyk.symm
      | runnerDropped i e x hx _ hdrop =>
        apply (List.mem_erase_of_ne ?_).mpr hin
        rintro rfl
        obtain ⟨y,hy,rfl,_⟩ := h.listed.entry k n hold
        rw [hx] at hy
        cases hy
        rcases hdrop with hnone | hgone
        · cases e with
          | cancelled => exact hg x hx hold
          | _ => cases hnone
        · exact hgone n hold
      | stopped => cases hk
    · exact hin

end PyMemoryTransport

/-! ### TypeScript -/

namespace MemoryTransport

variable {T : Texts} {m m' : MemoryTransport} {a : MemoryAct}

/-- Every entry leads to a call with its key, whose dispatcher is under way. -/
structure Dispatching (m : MemoryTransport) : Prop where
  entry : ∀ k n, (k,n)∈m.calls.pending → m.calls.keys[n]?=some k
  running : ∀ k n, (k,n)∈m.calls.pending → n∈m.dispatches

theorem mem_mapDelete (calls : Calls String Outcome) (id : JsVal) (k : String) (n : ℕ)
    (h : (k,n)∈(mapDelete calls id).pending) : (k,n)∈calls.pending := by
  unfold mapDelete at h
  split at h
  · exact ((Calls.mem_remove _ _ _ _).mp h).1
  · exact h

theorem keys_mapDelete (calls : Calls String Outcome) (id : JsVal) :
    (mapDelete calls id).keys=calls.keys := by
  unfold mapDelete
  split <;> rfl

theorem Dispatching.send (h : m.Dispatching) (env : JsVal) : (m.send T env).Dispatching := by
  unfold MemoryTransport.send
  split
  · split
    · exact h
    · rename_i key _
      split
      · exact h
      · constructor
        · intro k n hk
          rw [Calls.keys_insert]
          rcases (Calls.mem_insert _ _ _ _).mp hk with ⟨rfl,rfl⟩ | ⟨hold,_⟩
          · simp [Calls.keys]
          · have hkeys := h.entry k n hold
            exact (List.getElem?_append_left (List.getElem?_eq_some_iff.mp hkeys).1).trans hkeys
        · intro k n hk
          rcases (Calls.mem_insert _ _ _ _).mp hk with ⟨_,rfl⟩ | ⟨hold,_⟩
          · exact List.mem_cons_self
          · exact List.mem_cons_of_mem _ (h.running k n hold)
  · exact h

theorem Dispatching.step (h : m.Dispatching) (hstep : step T a m=some m') : m'.Dispatching := by
  cases a with
  | send env =>
    cases hstep
    exact h.send env
  | dispatched n e =>
    simp only [MemoryTransport.step] at hstep
    split at hstep
    · cases hstep
    · rename_i s hs
      split at hstep
      · cases hstep
      · cases hstep
        constructor
        · intro k i hk
          rw [Calls.keys_finish]
          exact h.entry k i ((Calls.mem_finish _ _ _ _ _).mp hk).1
        · intro k i hk
          obtain ⟨hold,hne⟩ := (Calls.mem_finish _ _ _ _ _).mp hk
          apply (List.mem_erase_of_ne ?_).mpr (h.running k i hold)
          rintro rfl
          have hkey := h.entry k i hold
          simp only [Calls.keys,List.getElem?_map,hs,Option.map_some,Option.some.injEq] at hkey
          exact hne hkey.symm
  | timer n =>
    simp only [MemoryTransport.step] at hstep
    split at hstep
    · rename_i s id _ _
      split at hstep
      · cases hstep
        constructor
        · intro k i hk
          have hkeys : ((mapDelete m.calls id).modify n (Slot.close .timeout)).keys=m.calls.keys :=
            (Calls.keys_modify (mapDelete m.calls id) n (Slot.close Outcome.timeout) fun _ => rfl).trans
              (keys_mapDelete _ _)
          rw [hkeys]
          exact h.entry k i (mem_mapDelete _ _ _ _ hk)
        · intro k i hk
          exact h.running k i (mem_mapDelete _ _ _ _ hk)
      · cases hstep
    · cases hstep
  | stop =>
    cases hstep
    have hnone : ∀ k n, (k,n)∉(m.calls.sweep .stopped).pending := by
      intro k n hk
      rw [Calls.sweep_pending] at hk
      cases hk
    exact ⟨fun k n hk => (hnone k n hk).elim,fun k n hk => (hnone k n hk).elim⟩

theorem Started.dispatching (h : m.Started) : m.Dispatching := by
  obtain ⟨_,hcalls,_⟩ := h
  have hnone : ∀ k n, (k,n)∉m.calls.pending := by
    intro k n hk
    rw [hcalls] at hk
    cases hk
  exact ⟨fun k n hk => (hnone k n hk).elim,fun k n hk => (hnone k n hk).elim⟩

end MemoryTransport

/-- In every state of a run of the TypeScript memory transport, whatever the ids are and whichever
timers fire, each entry is that of a call whose dispatcher is under way, so that the map is empty
when none is. In Python the same holds exactly if no dispatcher is cancelled while the entry of
its send stands. -/
theorem memory_entries_iff (T : Texts) (str : PyVal → Option String) :
    (∀ (acts : List MemoryAct) (m : MemoryTransport), m.Started →
      ∀ m'∈states (MemoryTransport.step T) acts m, (∀ k n, (k,n)∈m'.calls.pending → n∈m'.dispatches) ∧
        (m'.dispatches=[] → m'.calls.pending=[])) ∧
    ∀ (acts : List PyMemoryAct) (services : List String),
      (∀ m∈states (PyMemoryTransport.step str) acts (.new services), m.Dispatching) ↔
        Guarded (PyMemoryTransport.step str) PyMemoryTransport.NotAborted acts (.new services) := by
  constructor
  · intro acts m h0 m' hm'
    have h := states_invariant (I := MemoryTransport.Dispatching)
      (fun a s t hs _ hstep => hs.step hstep) acts m h0.dispatching (guarded_true acts m) m' hm'
    refine ⟨h.running,fun hnone => List.eq_nil_iff_forall_not_mem.mpr fun e he => ?_⟩
    have hin := h.running e.1 e.2 he
    rw [hnone] at hin
    cases hin
  · intro acts services
    refine states_iff_guarded (I := fun m => m.Tabled ∧ m.Dispatching)
      ?_ ?_ acts _ ⟨.new services,fun k n hk => (List.not_mem_nil hk).elim⟩
      (fun k n hk => (List.not_mem_nil hk).elim) (guarded_true acts _)
    · intro a m m' hi _ hstep
      exact PyMemoryTransport.dispatching_iff hi.1 hi.2 hstep
    · intro a m m' hi _ hg hstep
      exact ⟨hi.1.step hstep,(PyMemoryTransport.dispatching_iff hi.1 hi.2 hstep).mpr hg⟩

/- A timer of a numeric id leaves its entry to the dispatcher, and so does a cancelled send. -/
def outlivedRun : List MemoryAct :=
  [.send (addRequest (Js.num (Binary64.ofInt 5))),.timer 0,.dispatched 0 (.reply Js.null)]

def abandonedRun : List PyMemoryAct :=
  [.start,.send addCall,.cancel 0,.resume 0 .cancelled,.runnerEnds 0 (.reply Py.null)]

theorem memory_entries_outlived :
    (∃ m, run (MemoryTransport.step plainTexts) outlivedRun startedMemory=some m ∧ m.calls.pending=[]) ∧
    ∃ m, run (PyMemoryTransport.step plainStr) abandonedRun (.new ["arith"])=some m ∧ m.Dispatching ∧
      m.runners=[] := by
  have hts : (run (MemoryTransport.step plainTexts) outlivedRun startedMemory).isSome := rfl
  have hpy : (run (PyMemoryTransport.step plainStr) abandonedRun (.new ["arith"])).isSome := rfl
  have hall := memory_entries_iff plainTexts plainStr
  refine ⟨⟨_,(Option.some_get hts).symm,?_⟩,⟨_,(Option.some_get hpy).symm,?_,rfl⟩⟩
  · exact (hall.1 _ _ startedMemory_started _ (run_mem_states _ _ _ _ (Option.some_get hts).symm)).2 rfl
  · apply (hall.2 abandonedRun ["arith"]).mpr
    · exact ⟨trivial,trivial,trivial,trivial,trivial,trivial⟩
    · exact run_mem_states _ _ _ _ (Option.some_get hpy).symm

end Clamator.Client
