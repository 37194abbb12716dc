import Mathlib.Data.List.Perm.Subperm
import Clamator.Base.Pending
import Clamator.Base.Reach
import Clamator.Client.PySends

/-!
# Entries of finished sends (`over-redis/client_transport.py`)

A send that returns or raises has been popped by the reply loop, by `stop` or by itself.
One that takes a cancellation pops nothing.
-/

namespace Clamator.Client
open Clamator.Base Clamator.Protocol Clamator.Lifecycle

/-! ### Entries and the sends they belong to -/

/-- Nothing was set on the future, though it may be cancelled. -/
def PySend.Unset (s : PySend) : Prop := s.future=none ∨ s.future=some .cancelled

/-- An entry leads to a send with its key, and the future of that send is not set. -/
structure Listed (sends : List PySend) (pending : List (String × ℕ)) : Prop where
  entry : ∀ k n, (k,n)∈pending → ∃ s, sends[n]?=some s ∧ s.key=k ∧ s.Unset
  nodup : (pending.map Prod.fst).Nodup

/-- A finished send has no entry. -/
def Owned (sends : List PySend) (pending : List (String × ℕ)) : Prop :=
  ∀ (n : ℕ) (s : PySend), sends[n]?=some s → s.Finished → (s.key,n)∉pending

section
variable {sends : List PySend} {pending : List (String × ℕ)}

theorem mem_filter_key (key k : String) (n : ℕ) :
    (k,n)∈pending.filter (·.1≠key) ↔ (k,n)∈pending ∧ k≠key := by
  simp

theorem Listed.filter (h : Listed sends pending) (key : String) :
    Listed sends (pending.filter (·.1≠key)) where
  entry := fun k n hk => h.entry k n ((mem_filter_key key k n).mp hk).1
  nodup := h.nodup.sublist ((List.filter_sublist).map Prod.fst)

theorem Listed.empty : Listed sends [] := ⟨fun _ _ h => (List.not_mem_nil h).elim,List.nodup_nil⟩

theorem Listed.modify (h : Listed sends pending) (n : ℕ) (f : PySend → PySend)
    (hf : ∀ s, (s.key,n)∈pending → (f s).key=s.key ∧ (s.Unset → (f s).Unset)) :
    Listed (sends.modify n f) pending where
  entry := by
    intro k m hm
    obtain ⟨s,hs,rfl,hu⟩ := h.entry k m hm
    by_cases hnm : n=m
    · subst hnm
      obtain ⟨hkey,hunset⟩ := hf s hm
      refine ⟨f s,?_,hkey,hunset hu⟩
      rw [List.getElem?_modify,hs]
      simp
    · refine ⟨s,?_,rfl,hu⟩
      rw [List.getElem?_modify,hs]
      simp [hnm]
  nodup := h.nodup

/- A new send, with or without its entry. -/
theorem Listed.append (h : Listed sends pending) (s : PySend) : Listed (sends++[s]) pending where
  entry := by
    intro k n hn
    obtain ⟨x,hx,hk⟩ := h.entry k n hn
    exact ⟨x,by rw [List.getElem?_append_left (List.getElem?_eq_some_iff.mp hx).1,hx],hk⟩
  nodup := h.nodup

theorem Listed.insert (h : Listed sends pending) (s : PySend) (hs : s.Unset) :
    Listed (sends++[s]) ((s.key,sends.length)::pending.filter (·.1≠s.key)) where
  entry := by
    intro k n hn
    rcases List.mem_cons.mp hn with heq | hn
    · obtain ⟨rfl,rfl⟩ := Prod.mk.inj heq
      exact ⟨s,by simp,rfl,hs⟩
    · exact ((h.filter s.key).append s).entry k n hn
  nodup := by
    refine List.nodup_cons.mpr ⟨fun hk => ?_,(h.filter s.key).nodup⟩
    obtain ⟨e,he,heq⟩ := List.mem_map.mp hk
    exact ((mem_filter_key s.key e.1 e.2).mp he).2 heq

theorem Owned.mono (h : Owned sends pending) (pending' : List (String × ℕ))
    (hsub : ∀ k n, (k,n)∈pending' → (k,n)∈pending) : Owned sends pending' :=
  fun n s hs hf hm => h n s hs hf (hsub s.key n hm)

theorem Owned.filter (h : Owned sends pending) (key : String) :
    Owned sends (pending.filter (·.1≠key)) :=
  h.mono _ fun k n hk => ((mem_filter_key key k n).mp hk).1

theorem Owned.modify (h : Owned sends pending) (n : ℕ) (f : PySend → PySend)
    (hf : ∀ s, sends[n]?=some s → (f s).key=s.key ∧ ((f s).Finished → s.Finished ∨ (s.key,n)∉pending)) :
    Owned (sends.modify n f) pending := by
  intro m x hx hfin
  rcases getElem?_modify_cases sends n f m x hx with ⟨_,hs⟩ | ⟨rfl,s,hs,rfl⟩
  · exact h m x hs hfin
  · obtain ⟨hkey,hor⟩ := hf s hs
    rw [hkey]
    rcases hor hfin with hold | hno
    · exact h n s hs hold
    · exact hno

theorem Owned.append (h : Owned sends pending) (s : PySend) (hlisted : Listed sends pending) :
    Owned (sends++[s]) pending := by
  intro n x hx hfin hm
  obtain ⟨y,hy,_⟩ := hlisted.entry x.key n hm
  rw [List.getElem?_append_left (List.getElem?_eq_some_iff.mp hy).1] at hx
  exact h n x hx hfin hm

theorem Owned.insert (h : Owned sends pending) (s : PySend) (hlisted : Listed sends pending)
    (hs : ¬ s.Finished) : Owned (sends++[s]) ((s.key,sends.length)::pending.filter (·.1≠s.key)) := by
  intro n x hx hfin hm
  rcases List.mem_cons.mp hm with heq | hm
  · obtain ⟨_,rfl⟩ := Prod.mk.inj heq
    simp only [List.getElem?_concat_length,Option.some.injEq] at hx
    exact hs (hx ▸ hfin)
  · exact (h.filter s.key).append s (hlisted.filter s.key) n x hx hfin hm

end

/-! ### Steps -/

theorem PySend.Unset.settle_cancelled {s : PySend} (h : s.Unset) : (s.settle .cancelled).Unset := by
  rcases h with h | h
  · exact Or.inr (by simp [settle,h])
  · exact Or.inr (by simp [settle,h])

/- A coroutine that ends without popping was cancelled, or its future had been set. -/
theorem PySend.resume_cases (s : PySend) (w : Wake) (pc : SendPc) (h : s.resume w=some (pc,false)) :
    (∀ e, pc≠.finished e) ∨ ¬ s.Unset ∨ w=.cancelled := by
  unfold resume at h
  split at h
  · split at h <;> cases h
    exact Or.inl fun e => by simp
  · split at h <;> cases h
  · split at h <;> cases h
    · rename_i hf
      exact Or.inr (Or.inl (by simp [Unset,hf]))
    · rename_i hf
      exact Or.inr (Or.inl (by simp [Unset,hf]))
  · split at h
    · split at h <;> cases h
    · cases h
  · exact Or.inr (Or.inr rfl)

namespace PyClientRedisTransport

/-- No send takes a cancellation while its entry is in the dictionary. -/
def NotAbandoned : PyClientAct → PyClientRedisTransport → Prop
  | .resume n .cancelled,c => ∀ s, c.sends[n]?=some s → (s.key,n)∉c.pending
  | _,_ => True

variable {str : PyVal → Option String} {c : PyClientRedisTransport} {a : PyClientAct}
  {sends : List PySend} {pending : List (String × ℕ)}

theorem lookup_entry (h : Listed c.sends c.pending) (key : String) (n : ℕ)
    (hn : c.pending.lookup key=some n) : ∃ s, c.sends[n]?=some s ∧ s.key=key := by
  obtain ⟨s,hs,hk,_⟩ := h.entry key n (Assoc.mem_of_lookup hn)
  exact ⟨s,hs,hk⟩

theorem Moves.listed (hm : Moves str c a sends pending) (h : Listed c.sends c.pending) :
    Listed sends pending := by
  cases hm with
  | same => exact h
  | sent env key _ => exact h.insert ⟨key,none,.xadd,false,false⟩ (Or.inl rfl)
  | unsent env key _ => exact (h.filter key).append _
  | flagged _ n f _ hf => exact h.modify n f fun s _ => ⟨(hf s).1,fun hu => by rwa [PySend.Unset,(hf s).2.2]⟩
  | innerCancelled n => exact h.modify n _ fun s _ => ⟨rfl,PySend.Unset.settle_cancelled⟩
  | resumed n w s pc pops _ _ =>
    have hpc : ∀ pending, Listed c.sends pending → Listed (c.sends.modify n fun s => { s with pc := pc }) pending :=
      fun _ hl => hl.modify n _ fun _ _ => ⟨rfl,fun hu => hu⟩
    split
    · exact hpc _ (h.filter s.key)
    · exact hpc _ h
  | replied v key n _ hn =>
    obtain ⟨s,hs,rfl⟩ := lookup_entry h key n hn
    refine (h.filter s.key).modify n _ fun x hx => ?_
    obtain ⟨y,hy,hk,_⟩ := (h.filter s.key).entry x.key n hx
    rw [hs] at hy
    cases hy
    exact (((mem_filter_key _ _ n).mp hx).2 hk.symm).elim
  | swept => exact Listed.empty

theorem Moves.owned (hm : Moves str c a sends pending) (h : Listed c.sends c.pending)
    (ho : Owned c.sends c.pending) (hg : NotAbandoned a c) : Owned sends pending := by
  cases hm with
  | same => exact ho
  | sent env key _ =>
    exact ho.insert ⟨key,none,.xadd,false,false⟩ h fun hf => by obtain ⟨e,he⟩ := hf; cases he
  | unsent env key _ => exact (ho.filter key).append _ (h.filter key)
  | flagged _ n f _ hf =>
    refine ho.modify n f fun s _ => ⟨(hf s).1,fun hfin => Or.inl ?_⟩
    rwa [PySend.Finished,(hf s).2.1] at hfin
  | innerCancelled n => exact ho.modify n _ fun s _ => ⟨rfl,fun hfin => Or.inl hfin⟩
  | resumed n w s pc pops hs hw =>
    cases pops with
    | true =>
      refine (ho.filter s.key).modify n _ fun x hx => ⟨rfl,fun _ => Or.inr fun hm => ?_⟩
      cases hs.symm.trans hx
      exact ((mem_filter_key _ _ n).mp hm).2 rfl
    | false =>
      refine ho.modify n _ fun x hx => ⟨rfl,fun hfin => ?_⟩
      cases hs.symm.trans hx
      rcases PySend.resume_cases s w pc hw with hrun | hset | rfl
      · obtain ⟨e,he⟩ := hfin
        exact (hrun e he).elim
      · refine Or.inr fun hm => hset ?_
        obtain ⟨y,hy,_,hu⟩ := h.entry s.key n hm
        cases hs.symm.trans hy
        exact hu
      · exact Or.inr (hg s hs)
  | replied v key n _ _ => exact (ho.filter key).modify n _ fun s _ => ⟨rfl,fun hfin => Or.inl hfin⟩
  | swept => exact fun _ _ _ _ hm => (List.not_mem_nil hm).elim

/- A cancelled send pops nothing. -/
theorem notAbandoned_of_owned (c' : PyClientRedisTransport) (hstep : step str a c=some c')
    (ho : Owned c'.sends c'.pending) : NotAbandoned a c := by
  cases a with
  | resume n w => cases w with
    | cancelled =>
      intro s hs
      simp only [step,resume,hs,PySend.resume] at hstep
      split at hstep
      · simp only [Option.map_some,Option.some.injEq] at hstep
        subst hstep
        refine ho n { s with pc := .finished .cancelled } ?_ ⟨_,rfl⟩
        simp only [modify,List.getElem?_modify,hs]
        simp
      · cases hstep
    | _ => trivial
  | _ => trivial

/-! ### Sends in progress -/

/-- The positions of the sends that have not finished. -/
def inProgress (c : PyClientRedisTransport) : List ℕ :=
  (List.range c.sends.length).filter fun n => c.sends[n]?.any PySend.unfinished

theorem unfinished_iff (s : PySend) : s.unfinished=true ↔ ¬ s.Finished := by
  unfold PySend.unfinished PySend.Finished
  cases s.pc <;> simp

theorem pending_length_le (h : Listed c.sends c.pending) (ho : Owned c.sends c.pending) :
    c.pending.length ≤ c.inProgress.length := by
  have hnodup : (c.pending.map Prod.snd).Nodup := by
    refine h.nodup.of_map.map_on fun x hx y hy hxy => ?_
    obtain ⟨s,hs,hsk,_⟩ := h.entry x.1 x.2 hx
    obtain ⟨s',hs',hsk',_⟩ := h.entry y.1 y.2 hy
    rw [hxy,hs'] at hs
    cases hs
    exact Prod.ext (hsk.symm.trans hsk') hxy
  have hsub : c.pending.map Prod.snd ⊆ c.inProgress := by
    intro n hn
    obtain ⟨⟨k,m⟩,hm,rfl⟩ := List.mem_map.mp hn
    obtain ⟨s,hs,rfl,_⟩ := h.entry k m hm
    refine List.mem_filter.mpr ⟨List.mem_range.mpr (List.getElem?_eq_some_iff.mp hs).1,?_⟩
    simp only [hs,Option.any_some]
    exact (unfinished_iff s).mpr fun hfin => ho m s hs hfin hm
  rw [← List.length_map Prod.snd]
  exact (hnodup.subperm hsub).length_le

/-! ### Ids used once -/

variable (str) in
/-- The id of a send is, as a string, no earlier one's. -/
def Fresh : PyClientAct → PyClientRedisTransport → Prop
  | .send env,c => ∀ key, pyRequestKey str env=some key → key∉c.sends.map PySend.key
  | _,_ => True

/-- There is no entry under the id of a finished send. -/
def Unlisted (c : PyClientRedisTransport) : Prop :=
  ∀ (n : ℕ) (s : PySend), c.sends[n]?=some s → s.Finished → ∀ m, (s.key,m)∉c.pending

theorem rejectAll_keys (c : PyClientRedisTransport) :
    c.rejectAll.map PySend.key=c.sends.map PySend.key := by
  unfold rejectAll
  generalize c.sends=sends
  induction c.pending generalizing sends with
  | nil => rfl
  | cons e pending ih =>
    rw [List.foldl_cons,ih]
    exact map_modify_of_keep sends e.2 _ PySend.key fun _ => rfl

theorem Moves.keys_nodup (hm : Moves str c a sends pending) (hf : Fresh str a c)
    (hk : (c.sends.map PySend.key).Nodup) : (sends.map PySend.key).Nodup := by
  have happ : ∀ (key : String) (s : PySend), s.key=key → key∉c.sends.map PySend.key →
      ((c.sends++[s]).map PySend.key).Nodup := by
    rintro _ s rfl hno
    rw [List.map_append]
    exact List.nodup_append.mpr ⟨hk,List.nodup_singleton _,fun x hx y hy heq =>
      hno (by rwa [← List.mem_singleton.mp hy,← heq])⟩
  have hmod : ∀ n f, (∀ s, PySend.key (f s)=s.key) → ((c.sends.modify n f).map PySend.key).Nodup :=
    fun n f hkeep => by rwa [map_modify_of_keep c.sends n f PySend.key hkeep]
  cases hm with
  | same => exact hk
  | sent env key hkey => exact happ key _ rfl (hf key hkey)
  | unsent env key hkey => exact happ key _ rfl (hf key hkey)
  | flagged _ n f _ hkeep => exact hmod n f fun s => (hkeep s).1
  | innerCancelled n => exact hmod n _ fun _ => rfl
  | resumed n w s pc pops _ _ => exact hmod n _ fun _ => rfl
  | replied v key n _ _ => exact hmod n _ fun _ => rfl
  | swept => rwa [rejectAll_keys]

theorem unlisted_iff (h : Listed c.sends c.pending) (hk : (c.sends.map PySend.key).Nodup) :
    Unlisted c ↔ Owned c.sends c.pending := by
  refine ⟨fun hu n s hs hfin => hu n s hs hfin n,fun ho n s hs hfin m hm => ?_⟩
  obtain ⟨s',hs',hkey,_⟩ := h.entry s.key m hm
  have hnm : n=m := by
    have hlt : n < (c.sends.map PySend.key).length := by
      rw [List.length_map]
      exact (List.getElem?_eq_some_iff.mp hs).1
    refine (List.getElem?_inj hlt hk).mp ?_
    rw [List.getElem?_map,List.getElem?_map,hs,hs',Option.map_some,Option.map_some,hkey]
  subst hnm
  exact ho n s hs hfin hm

/-- Whether a step keeps finished sends out of the dictionary is whether it abandons an entry. -/
theorem owned_iff (c' : PyClientRedisTransport) (h : Listed c.sends c.pending)
    (ho : Owned c.sends c.pending) (hstep : step str a c=some c') :
    Owned c'.sends c'.pending ↔ NotAbandoned a c :=
  ⟨notAbandoned_of_owned c' hstep,(step_moves a c c' hstep).owned h ho⟩

end PyClientRedisTransport

open PyClientRedisTransport

/-- Every finished send has left the dictionary, which is then no larger than the sends in
progress are many, in every state of a run exactly if none takes a cancellation while its
entry is there. With ids distinct as strings, no entry under its id is left exactly then. -/
theorem pending_sends_iff (str : PyVal → Option String) (acts : List PyClientAct) :
    ((∀ c∈states (step str) acts new, Owned c.sends c.pending ∧
        c.pending.length ≤ c.inProgress.length) ↔ Guarded (step str) NotAbandoned acts new) ∧
    (Guarded (step str) (Fresh str) acts new →
      ((∀ c∈states (step str) acts new, c.Unlisted) ↔ Guarded (step str) NotAbandoned acts new)) := by
  have hlisted : Listed new.sends new.pending := Listed.empty
  have howned : Owned new.sends new.pending := fun _ _ _ _ hm => (List.not_mem_nil hm).elim
  have hany : Guarded (step str) (fun _ _ => True) acts new :=
    (guarded_iff acts new).mpr fun _ _ _ _ _ _ _ _ => trivial
  constructor
  · refine states_iff_guarded (I := fun c => Listed c.sends c.pending ∧ Owned c.sends c.pending)
      ?_ ?_ acts new ⟨hlisted,howned⟩ ⟨howned,Nat.zero_le _⟩ hany
    · intro a c c' ⟨hl,ho⟩ _ hstep
      have hl' := (step_moves a c c' hstep).listed hl
      have hiff := owned_iff c' hl ho hstep
      exact ⟨fun h => hiff.mp h.1,fun hg => ⟨hiff.mpr hg,pending_length_le hl' (hiff.mpr hg)⟩⟩
    · intro a c c' ⟨hl,ho⟩ _ hg hstep
      exact ⟨(step_moves a c c' hstep).listed hl,(owned_iff c' hl ho hstep).mpr hg⟩
  · refine states_iff_guarded (I := fun c => Listed c.sends c.pending ∧ Owned c.sends c.pending ∧
      (c.sends.map PySend.key).Nodup) ?_ ?_ acts new ⟨hlisted,howned,List.nodup_nil⟩
      fun _ _ _ _ _ hm => List.not_mem_nil hm
    · intro a c c' ⟨hl,ho,hk⟩ hf hstep
      have hm := step_moves a c c' hstep
      rw [unlisted_iff (hm.listed hl) (hm.keys_nodup hf hk),owned_iff c' hl ho hstep]
    · intro a c c' ⟨hl,ho,hk⟩ hf hg hstep
      have hm := step_moves a c c' hstep
      exact ⟨hm.listed hl,(owned_iff c' hl ho hstep).mpr hg,hm.keys_nodup hf hk⟩

/-! ### Cancelled while waiting -/

/- `str` of strings, the text of every other value left out. -/
def plainStr : PyVal → Option String
  | Py.str s => some s
  | _ => none

def addCall : PyVal := pyBuildRequest "arith.add" (.obj []) (Py.str "1")

/- The reply comes between `task.cancel()` and the coroutine's next turn. -/
def repliedRun : List PyClientAct :=
  [.start,.send addCall,.resume 0 .xadded,.cancel 0,.cancelInner 0,
    .reply (pyBuildSuccessResponse (Py.str "1") Py.null),.resume 0 .cancelled]

theorem pending_sends_replied :
    (∀ c∈states (step plainStr) repliedRun new, Owned c.sends c.pending ∧
      c.pending.length ≤ c.inProgress.length) ∧
    ∀ c∈states (step plainStr) repliedRun new, c.Unlisted := by
  have hfresh : Guarded (step plainStr) (Fresh plainStr) repliedRun new :=
    ⟨trivial,fun _ _ h => List.not_mem_nil h,trivial,trivial,trivial,trivial,trivial,trivial⟩
  have hguard : Guarded (step plainStr) NotAbandoned repliedRun new :=
    ⟨trivial,trivial,trivial,trivial,trivial,trivial,fun _ _ h => List.not_mem_nil h,trivial⟩
  exact ⟨(pending_sends_iff plainStr repliedRun).1.mpr hguard,
    ((pending_sends_iff plainStr repliedRun).2 hfresh).mpr hguard⟩

def inXadd : List PyClientAct := [.start,.send addCall,.cancel 0,.resume 0 .cancelled]

def inWaitFor : List PyClientAct :=
  [.start,.send addCall,.resume 0 .xadded,.cancel 0,.cancelInner 0,.resume 0 .cancelled]

/-- The only send was cancelled, and its entry stays. -/
def Left (acts : List PyClientAct) : Prop := ∃ c s, run (step plainStr) acts new=some c ∧ c.sends=[s] ∧
  s.pc=.finished .cancelled ∧ s.key="1" ∧ c.pending=[("1",0)] ∧ c.inProgress=[]

theorem left_owned (acts : List PyClientAct) (h : Left acts) :
    ∃ c∈states (step plainStr) acts new, ¬ Owned c.sends c.pending ∧ ¬ c.Unlisted := by
  obtain ⟨c,s,hrun,hs,hpc,hk,hp,_⟩ := h
  have hslot : c.sends[0]?=some s := by rw [hs]; rfl
  have hmem : (s.key,0)∈c.pending := by rw [hp,hk]; exact List.mem_cons_self
  refine ⟨c,run_mem_states _ _ _ _ hrun,fun h => ?_,fun h => ?_⟩
  · exact h 0 s hslot ⟨_,hpc⟩ hmem
  · exact h 0 s hslot ⟨_,hpc⟩ 0 hmem

theorem inXadd_left : Left inXadd := ⟨_,_,rfl,rfl,rfl,rfl,rfl,rfl⟩

theorem inWaitFor_left : Left inWaitFor := ⟨_,_,rfl,rfl,rfl,rfl,rfl,rfl⟩

/-- At either await. -/
theorem cancelled_send_stays : (Left inXadd ∧ ∃ c∈states (step plainStr) inXadd new,
      ¬ Owned c.sends c.pending ∧ ¬ c.Unlisted) ∧
    Left inWaitFor ∧ ∃ c∈states (step plainStr) inWaitFor new,
      ¬ Owned c.sends c.pending ∧ ¬ c.Unlisted :=
  ⟨⟨inXadd_left,left_owned _ inXadd_left⟩,inWaitFor_left,left_owned _ inWaitFor_left⟩

end Clamator.Client
