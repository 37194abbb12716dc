import Clamator.Base.Assoc
import Mathlib.Data.List.Basic
import Mathlib.Data.List.Nodup

/-!
# Calls waiting in a map

Promises that wait in a map under a key, each with a timer. Whoever has an outcome
for a key takes the entry out, stops its timer and settles its promise; a timer
that fires settles its own promise. A promise keeps its first outcome.
-/

namespace Clamator.Base

section
variable {α β : Type} (l : List α) (n : ℕ) (f : α → α)

/- What an element of the changed list was before. -/
theorem getElem?_modify_cases (m : ℕ) (x : α) (h : (l.modify n f)[m]?=some x) :
    (n≠m ∧ l[m]?=some x) ∨ (n=m ∧ ∃ y, l[m]?=some y ∧ x=f y) := by
  rw [List.getElem?_modify] at h
  obtain ⟨y,hy,hx⟩ := Option.map_eq_some_iff.mp h
  by_cases hnm : n=m
  · rw [if_pos hnm] at hx
    exact Or.inr ⟨hnm,y,hy,hx.symm⟩
  · rw [if_neg hnm] at hx
    exact Or.inl ⟨hnm,hx ▸ hy⟩

theorem map_modify_of_keep (g : α → β) (hf : ∀ x, g (f x)=g x) : (l.modify n f).map g=l.map g := by
  apply List.ext_getElem?
  intro m
  rw [List.getElem?_map,List.getElem?_map,List.getElem?_modify]
  cases l[m]? with
  | none => rfl
  | some x =>
    refine congrArg some ?_
    dsimp only
    split
    · exact hf x
    · rfl

end

variable {K O : Type}

/-- A promise, with the key it was inserted under. -/
structure Slot (K O : Type) where
  key : K
  outcome : Option O
  armed : Bool

/-- All promises so far, and the map from keys to the positions of those waiting. -/
structure Calls (K O : Type) where
  slots : List (Slot K O)
  pending : List (K × ℕ)

/-- Settled, unless it is already, and its timer stopped. -/
def Slot.close (o : O) (s : Slot K O) : Slot K O :=
  { s with outcome := s.outcome.or (some o),armed := false }

namespace Calls

def empty : Calls K O := ⟨[],[]⟩

def modify (t : Calls K O) (n : ℕ) (f : Slot K O → Slot K O) : Calls K O :=
  { t with slots := t.slots.modify n f }

def settle (t : Calls K O) (n : ℕ) (o : O) : Calls K O :=
  t.modify n fun s => { s with outcome := s.outcome.or (some o) }

@[simp] theorem pending_modify (t : Calls K O) (n : ℕ) (f : Slot K O → Slot K O) :
    (t.modify n f).pending=t.pending := rfl

theorem getElem?_modify (t : Calls K O) (n m : ℕ) (f : Slot K O → Slot K O) :
    (t.modify n f).slots[m]?=if n=m then t.slots[m]?.map f else t.slots[m]? := by
  simp only [modify,List.getElem?_modify]
  split
  · rfl
  · simp

theorem modify_self (t : Calls K O) (n : ℕ) (f : Slot K O → Slot K O) (s : Slot K O)
    (h : t.slots[n]?=some s) : (t.modify n f).slots[n]?=some (f s) := by
  rw [getElem?_modify,if_pos rfl,h]
  rfl

theorem modify_other (t : Calls K O) (n m : ℕ) (f : Slot K O → Slot K O) (h : n≠m) :
    (t.modify n f).slots[m]?=t.slots[m]? := by
  rw [getElem?_modify,if_neg h]

/- What a slot of the changed table was before. -/
theorem modify_cases (t : Calls K O) (n m : ℕ) (f : Slot K O → Slot K O) (s : Slot K O)
    (h : (t.modify n f).slots[m]?=some s) :
    (n≠m ∧ t.slots[m]?=some s) ∨ (n=m ∧ ∃ s0, t.slots[m]?=some s0 ∧ s=f s0) :=
  getElem?_modify_cases t.slots n f m s h

def keys (t : Calls K O) : List K := t.slots.map Slot.key

theorem keys_modify (t : Calls K O) (n : ℕ) (f : Slot K O → Slot K O) (hf : ∀ s, (f s).key=s.key) :
    (t.modify n f).keys=t.keys :=
  map_modify_of_keep t.slots n f Slot.key hf

/-! ### Kept calls -/

/-- Whoever waits has a running timer, and a running timer has its entry in the map. -/
structure Kept (t : Calls K O) : Prop where
  waits : ∀ (n : ℕ) (s : Slot K O), t.slots[n]?=some s → s.outcome=none → s.armed=true
  armed : ∀ (n : ℕ) (s : Slot K O), t.slots[n]?=some s → s.armed=true → (s.key,n)∈t.pending
  entry : ∀ (k : K) (n : ℕ), (k,n)∈t.pending → ∃ s, t.slots[n]?=some s ∧ s.key=k
  nodup : (t.pending.map Prod.fst).Nodup

theorem Kept.empty : Kept (empty : Calls K O) :=
  ⟨fun n s h => by simp [Calls.empty] at h,fun n s h => by simp [Calls.empty] at h,
    fun k n h => by simp [Calls.empty] at h,List.nodup_nil⟩

theorem Kept.unique {t : Calls K O} (h : Kept t) (k : K) (n m : ℕ) (hn : (k,n)∈t.pending)
    (hm : (k,m)∈t.pending) : n=m :=
  congrArg Prod.snd (List.inj_on_of_nodup_map h.nodup hn hm rfl)

/-- Where the map is empty, nobody waits. -/
theorem Kept.settled_of_empty {t : Calls K O} (h : Kept t) (hp : t.pending=[]) (n : ℕ) (s : Slot K O)
    (hs : t.slots[n]?=some s) : s.outcome≠none ∧ s.armed=false := by
  have hunarmed : s.armed≠true := by
    intro ha
    have hm := h.armed n s hs ha
    rw [hp] at hm
    cases hm
  exact ⟨fun ho => hunarmed (h.waits n s hs ho),Bool.eq_false_iff.mpr hunarmed⟩

theorem Kept.settle {t : Calls K O} (h : Kept t) (n : ℕ) (o : O) : Kept (t.settle n o) where
  waits := by
    intro m s hs ho
    rcases modify_cases _ n m _ s hs with ⟨_,hs⟩ | ⟨_,s0,_,rfl⟩
    · exact h.waits m s hs ho
    · cases hs0 : s0.outcome <;> simp [hs0] at ho
  armed := by
    intro m s hs ha
    rcases modify_cases _ n m _ s hs with ⟨_,hs⟩ | ⟨_,s0,hs0,rfl⟩
    · exact h.armed m s hs ha
    · exact h.armed m s0 hs0 ha
  entry := by
    intro k m hm
    obtain ⟨s,hs,hk⟩ := h.entry k m hm
    by_cases hnm : n=m
    · subst hnm
      exact ⟨_,modify_self _ n _ s hs,hk⟩
    · exact ⟨s,(modify_other _ n m _ hnm).trans hs,hk⟩
  nodup := h.nodup

/- A timer that leaves its entry. -/
theorem Kept.close {t : Calls K O} (h : Kept t) (n : ℕ) (o : O) : Kept (t.modify n (Slot.close o)) where
  waits := by
    intro m s hs ho
    rcases modify_cases _ n m _ s hs with ⟨_,hs⟩ | ⟨_,s0,_,rfl⟩
    · exact h.waits m s hs ho
    · cases hs0 : s0.outcome <;> simp [Slot.close,hs0] at ho
  armed := by
    intro m s hs ha
    rcases modify_cases _ n m _ s hs with ⟨_,hs⟩ | ⟨_,s0,_,rfl⟩
    · exact h.armed m s hs ha
    · cases ha
  entry := by
    intro k m hm
    obtain ⟨s,hs,hk⟩ := h.entry k m hm
    by_cases hnm : n=m
    · subst hnm
      exact ⟨_,modify_self _ n _ s hs,hk⟩
    · exact ⟨s,(modify_other _ n m _ hnm).trans hs,hk⟩
  nodup := h.nodup

/-- Settled calls have left the map, and their timers do not run. -/
def Clean (t : Calls K O) : Prop := ∀ (n : ℕ) (s : Slot K O), t.slots[n]?=some s → s.outcome≠none →
  s.armed=false ∧ ∀ k, (k,n)∉t.pending

theorem Clean.empty : Clean (empty : Calls K O) := fun n s h => by simp [Calls.empty] at h

def Outcomes (P : K → O → Prop) (t : Calls K O) : Prop := ∀ (n : ℕ) (s : Slot K O) (o : O),
  t.slots[n]?=some s → s.outcome=some o → P s.key o

theorem Outcomes.empty (P : K → O → Prop) : Outcomes P (empty : Calls K O) :=
  fun n s o h => by simp [Calls.empty] at h

theorem Outcomes.modify {P : K → O → Prop} {t : Calls K O} (h : Outcomes P t) (n : ℕ) (o : O)
    (f : Slot K O → Slot K O) (hf : ∀ s, (f s).key=s.key ∧ (f s).outcome=s.outcome.or (some o))
    (ho : ∀ s, t.slots[n]?=some s → P s.key o) : Outcomes P (t.modify n f) := by
  intro m s o' hs hso
  rcases modify_cases t n m f s hs with ⟨_,hs⟩ | ⟨rfl,s0,hs0,rfl⟩
  · exact h m s o' hs hso
  · rw [(hf s0).2] at hso
    rw [(hf s0).1]
    cases h0 : s0.outcome with
    | none =>
      rw [h0] at hso
      cases hso
      exact ho s0 hs0
    | some o0 =>
      rw [h0] at hso
      exact h n s0 o' hs0 (h0.trans hso)

/-- No call is lost, none changes its key or its outcome. -/
def Later (t t' : Calls K O) : Prop := ∀ (n : ℕ) (s : Slot K O), t.slots[n]?=some s →
  ∃ s', t'.slots[n]?=some s' ∧ s'.key=s.key ∧ ∀ o, s.outcome=some o → s'.outcome=some o

theorem Later.refl (t : Calls K O) : Later t t := fun _ s h => ⟨s,h,rfl,fun _ ho => ho⟩

theorem Later.trans {t t' t'' : Calls K O} (h : Later t t') (h' : Later t' t'') : Later t t'' := by
  intro n s hs
  obtain ⟨s',hs',hk,ho⟩ := h n s hs
  obtain ⟨s'',hs'',hk',ho'⟩ := h' n s' hs'
  exact ⟨s'',hs'',hk'.trans hk,fun o hso => ho' o (ho o hso)⟩

theorem Later.modify (t : Calls K O) (n : ℕ) (o : O) (f : Slot K O → Slot K O)
    (hf : ∀ s, (f s).key=s.key ∧ (f s).outcome=s.outcome.or (some o)) : Later t (t.modify n f) := by
  intro m s hs
  by_cases hnm : n=m
  · subst hnm
    refine ⟨f s,modify_self t n f s hs,(hf s).1,fun o' ho => ?_⟩
    rw [(hf s).2,ho]
    rfl
  · exact ⟨s,(modify_other t n m f hnm).trans hs,rfl,fun _ ho => ho⟩

theorem Later.settle (t : Calls K O) (n : ℕ) (o : O) : Later t (t.settle n o) :=
  Later.modify t n o _ fun _ => ⟨rfl,rfl⟩

/-- Every call under another key is as it was, and so is its entry. -/
def SameBut (key : K) (t t' : Calls K O) : Prop := ∀ (n : ℕ) (s : Slot K O), t.slots[n]?=some s →
  s.key≠key → t'.slots[n]?=some s ∧ ∀ k, (k,n)∈t'.pending ↔ (k,n)∈t.pending

theorem SameBut.refl (key : K) (t : Calls K O) : SameBut key t t :=
  fun _ _ h _ => ⟨h,fun _ => Iff.rfl⟩

variable [DecidableEq K]

def remove (t : Calls K O) (key : K) : Calls K O :=
  { t with pending := t.pending.filter (·.1≠key) }

/-- A new promise with a running timer; an entry under the same key is replaced. -/
def insert (t : Calls K O) (key : K) : Calls K O :=
  ⟨t.slots++[⟨key,none,true⟩],(key,t.slots.length)::(t.remove key).pending⟩

def retire (t : Calls K O) (n : ℕ) (key : K) (o : O) : Calls K O :=
  (t.remove key).modify n (Slot.close o)

def finish (t : Calls K O) (key : K) (o : O) : Calls K O := match t.pending.lookup key with
  | none => t
  | some n => t.retire n key o

def sweep (t : Calls K O) (o : O) : Calls K O :=
  (t.pending.map Prod.fst).foldl (fun t key => t.finish key o) t

theorem mem_remove (t : Calls K O) (key k : K) (n : ℕ) :
    (k,n)∈(t.remove key).pending ↔ (k,n)∈t.pending ∧ k≠key := by
  simp [remove]

theorem insert_cases (t : Calls K O) (key : K) (m : ℕ) (s : Slot K O)
    (h : (t.insert key).slots[m]?=some s) :
    t.slots[m]?=some s ∨ (m=t.slots.length ∧ s=⟨key,none,true⟩) := by
  by_cases hm : m < t.slots.length
  · rw [insert,List.getElem?_append_left hm] at h
    exact Or.inl h
  · rw [insert,List.getElem?_append_right (by omega)] at h
    have hlen := (List.getElem?_eq_some_iff.mp h).1
    simp only [List.length_singleton] at hlen
    have hzero : m-t.slots.length=0 := by omega
    rw [hzero] at h
    exact Or.inr ⟨by omega,(Option.some.inj h).symm⟩

theorem mem_insert (t : Calls K O) (key k : K) (n : ℕ) :
    (k,n)∈(t.insert key).pending ↔ (k=key ∧ n=t.slots.length) ∨ ((k,n)∈t.pending ∧ k≠key) := by
  simp [insert,remove]

theorem finish_cases (t : Calls K O) (key : K) (o : O) :
    ((∀ n, (key,n)∉t.pending) ∧ t.finish key o=t) ∨
      ∃ n, (key,n)∈t.pending ∧ t.finish key o=t.retire n key o := by
  unfold finish
  cases hl : t.pending.lookup key with
  | none =>
    refine Or.inl ⟨fun n hn => ?_,rfl⟩
    have h := List.lookup_eq_none_iff.mp hl (key,n) hn
    simp at h
  | some n => exact Or.inr ⟨n,Assoc.mem_of_lookup hl,rfl⟩

/-! ### A property of the operations -/

/-- What holds of the table and of it with an entry of the key retired, holds after `finish`. -/
theorem finish_induction {P : Calls K O → Prop} (t : Calls K O) (key : K) (o : O) (h : P t)
    (hr : ∀ n, (key,n)∈t.pending → P (t.retire n key o)) : P (t.finish key o) := by
  rcases finish_cases t key o with ⟨_,heq⟩ | ⟨n,hn,heq⟩
  · rw [heq]
    exact h
  · rw [heq]
    exact hr n hn

/- What `retire` keeps for the entries of the map, `sweep` keeps. -/
theorem sweep_induction {P : Calls K O → Prop} (o : O)
    (hs : ∀ t key, P t → P (t.finish key o)) (t : Calls K O) (h : P t) : P (t.sweep o) := by
  unfold sweep
  generalize t.pending.map Prod.fst=keys
  induction keys generalizing t with
  | nil => exact h
  | cons key keys ih => exact ih (t.finish key o) (hs t key h)

theorem mem_finish (t : Calls K O) (key k : K) (n : ℕ) (o : O) :
    (k,n)∈(t.finish key o).pending ↔ (k,n)∈t.pending ∧ k≠key := by
  rcases finish_cases t key o with ⟨hnone,heq⟩ | ⟨m,_,heq⟩
  · rw [heq]
    constructor
    · intro h
      refine ⟨h,fun hk => ?_⟩
      rw [hk] at h
      exact hnone n h
    · intro h
      exact h.1
  · rw [heq]
    exact mem_remove t key k n

theorem sweep_pending (t : Calls K O) (o : O) : (t.sweep o).pending=[] := by
  have key : ∀ (keys : List K) (t : Calls K O) (k : K) (n : ℕ),
      (k,n)∈(keys.foldl (fun t key => t.finish key o) t).pending → (k,n)∈t.pending ∧ k∉keys := by
    intro keys
    induction keys with
    | nil =>
      intro t k n h
      exact ⟨h,by simp⟩
    | cons key keys ih =>
      intro t k n h
      obtain ⟨hm,hk⟩ := ih (t.finish key o) k n h
      obtain ⟨hm,hne⟩ := (mem_finish t key k n o).mp hm
      exact ⟨hm,by simp [hne,hk]⟩
  refine List.eq_nil_iff_forall_not_mem.mpr fun kn hkn => ?_
  obtain ⟨hm,hk⟩ := key _ t kn.1 kn.2 hkn
  exact hk (List.mem_map_of_mem hm)

theorem Kept.remove_nodup {t : Calls K O} (h : Kept t) (key : K) :
    ((t.remove key).pending.map Prod.fst).Nodup :=
  h.nodup.sublist (List.filter_sublist.map _)

theorem Kept.insert {t : Calls K O} (h : Kept t) (key : K) (hkey : ∀ n, (key,n)∉t.pending) :
    Kept (t.insert key) where
  waits := by
    intro n s hs ho
    rcases insert_cases t key n s hs with hs | ⟨_,rfl⟩
    · exact h.waits n s hs ho
    · rfl
  armed := by
    intro n s hs ha
    rw [mem_insert]
    rcases insert_cases t key n s hs with hs | ⟨rfl,rfl⟩
    · have hm := h.armed n s hs ha
      refine Or.inr ⟨hm,fun hk => ?_⟩
      rw [hk] at hm
      exact hkey n hm
    · exact Or.inl ⟨rfl,rfl⟩
  entry := by
    intro k n hm
    rcases (mem_insert t key k n).mp hm with ⟨rfl,rfl⟩ | ⟨hm,_⟩
    · exact ⟨⟨k,none,true⟩,by simp [Calls.insert],rfl⟩
    · obtain ⟨s,hs,hk⟩ := h.entry k n hm
      have hlt := (List.getElem?_eq_some_iff.mp hs).1
      exact ⟨s,(List.getElem?_append_left hlt).trans hs,hk⟩
  nodup := by
    refine List.nodup_cons.mpr ⟨fun hm => ?_,h.remove_nodup key⟩
    obtain ⟨kn,hkn,hk⟩ := List.mem_map.mp hm
    exact ((mem_remove t key kn.1 kn.2).mp hkn).2 hk

theorem Kept.retire {t : Calls K O} (h : Kept t) (n : ℕ) (key : K) (o : O) (hn : (key,n)∈t.pending) :
    Kept (t.retire n key o) where
  waits := by
    intro m s hs ho
    rcases modify_cases _ n m _ s hs with ⟨_,hs⟩ | ⟨_,s0,_,rfl⟩
    · exact h.waits m s hs ho
    · cases hs0 : s0.outcome <;> simp [Slot.close,hs0] at ho
  armed := by
    intro m s hs ha
    rcases modify_cases _ n m _ s hs with ⟨hne,hs⟩ | ⟨_,s0,_,rfl⟩
    · have hm := h.armed m s hs ha
      refine (mem_remove t key s.key m).mpr ⟨hm,fun hk => hne ?_⟩
      rw [hk] at hm
      exact h.unique key n m hn hm
    · cases ha
  entry := by
    intro k m hm
    obtain ⟨hm,_⟩ := (mem_remove t key k m).mp hm
    obtain ⟨s,hs,hk⟩ := h.entry k m hm
    by_cases hnm : n=m
    · subst hnm
      exact ⟨_,modify_self _ n _ s hs,hk⟩
    · exact ⟨s,(modify_other _ n m _ hnm).trans hs,hk⟩
  nodup := h.remove_nodup key

theorem Kept.finish {t : Calls K O} (h : Kept t) (key : K) (o : O) : Kept (t.finish key o) :=
  finish_induction t key o h fun n hn => h.retire n key o hn

theorem Kept.sweep {t : Calls K O} (h : Kept t) (o : O) : Kept (t.sweep o) :=
  sweep_induction o (fun _ key ht => ht.finish key o) t h

theorem keys_insert (t : Calls K O) (key : K) : (t.insert key).keys=t.keys++[key] := by
  simp [keys,insert]

theorem keys_retire (t : Calls K O) (n : ℕ) (key : K) (o : O) : (t.retire n key o).keys=t.keys :=
  keys_modify (t.remove key) n _ fun _ => rfl

theorem keys_finish (t : Calls K O) (key : K) (o : O) : (t.finish key o).keys=t.keys :=
  finish_induction (P := fun u => u.keys=t.keys) t key o rfl fun n _ => keys_retire t n key o

theorem keys_sweep (t : Calls K O) (o : O) : (t.sweep o).keys=t.keys :=
  sweep_induction o (fun u key hu => (keys_finish u key o).trans hu) t rfl

/-! ### Outcomes and frames -/

theorem Clean.insert {t : Calls K O} (h : Clean t) (key : K) : Clean (t.insert key) := by
  intro n s hs ho
  rcases insert_cases t key n s hs with hs | ⟨_,rfl⟩
  · obtain ⟨ha,hp⟩ := h n s hs ho
    refine ⟨ha,fun k hm => ?_⟩
    rcases (mem_insert t key k n).mp hm with ⟨_,rfl⟩ | ⟨hm,_⟩
    · have hlt := (List.getElem?_eq_some_iff.mp hs).1
      omega
    · exact hp k hm
  · exact (ho rfl).elim

theorem Clean.retire {t : Calls K O} (h : Clean t) (hk : Kept t) (n : ℕ) (key : K) (o : O)
    (hn : (key,n)∈t.pending) : Clean (t.retire n key o) := by
  intro m s hs ho
  rcases modify_cases _ n m _ s hs with ⟨_,hs⟩ | ⟨rfl,s0,hs0,rfl⟩
  · obtain ⟨ha,hp⟩ := h m s hs ho
    exact ⟨ha,fun k hm => hp k ((mem_remove t key k m).mp hm).1⟩
  · refine ⟨rfl,fun k hm => ?_⟩
    obtain ⟨hm,hne⟩ := (mem_remove t key k n).mp hm
    obtain ⟨s1,hs1,hk1⟩ := hk.entry k n hm
    obtain ⟨s2,hs2,hk2⟩ := hk.entry key n hn
    rw [hs1] at hs2
    cases hs2
    exact hne (hk1.symm.trans hk2)

theorem Clean.finish {t : Calls K O} (h : Clean t) (hk : Kept t) (key : K) (o : O) :
    Clean (t.finish key o) :=
  finish_induction t key o h fun n hn => h.retire hk n key o hn

theorem Clean.sweep {t : Calls K O} (h : Clean t) (hk : Kept t) (o : O) : Clean (t.sweep o) := by
  have hboth : Kept (t.sweep o) ∧ Clean (t.sweep o) := by
    refine sweep_induction (P := fun t => Kept t ∧ Clean t) o (fun t key ht => ?_) t ⟨hk,h⟩
    exact ⟨ht.1.finish key o,ht.2.finish ht.1 key o⟩
  exact hboth.2

theorem Outcomes.insert {P : K → O → Prop} {t : Calls K O} (h : Outcomes P t) (key : K) :
    Outcomes P (t.insert key) := by
  intro n s o hs ho
  rcases insert_cases t key n s hs with hs | ⟨_,rfl⟩
  · exact h n s o hs ho
  · cases ho

theorem Outcomes.finish {P : K → O → Prop} {t : Calls K O} (h : Outcomes P t) (hk : Kept t) (key : K)
    (o : O) (ho : P key o) : Outcomes P (t.finish key o) := by
  refine finish_induction t key o h fun n hn => ?_
  have hremove : Outcomes P (t.remove key) := h
  refine hremove.modify n o _ (fun _ => ⟨rfl,rfl⟩) fun s hs => ?_
  obtain ⟨s',hs',hkey⟩ := hk.entry key n hn
  have hss : s'=s := Option.some.inj (hs'.symm.trans hs)
  rw [← hss,hkey]
  exact ho

theorem Outcomes.sweep {P : K → O → Prop} {t : Calls K O} (h : Outcomes P t) (hk : Kept t) (o : O)
    (ho : ∀ key, P key o) : Outcomes P (t.sweep o) := by
  have hboth : Kept (t.sweep o) ∧ Outcomes P (t.sweep o) := by
    refine sweep_induction (P := fun t => Kept t ∧ Outcomes P t) o (fun t key ht => ?_) t ⟨hk,h⟩
    exact ⟨ht.1.finish key o,ht.2.finish ht.1 key o (ho key)⟩
  exact hboth.2

theorem Later.insert (t : Calls K O) (key : K) : Later t (t.insert key) := by
  intro n s hs
  have hlt := (List.getElem?_eq_some_iff.mp hs).1
  exact ⟨s,(List.getElem?_append_left hlt).trans hs,rfl,fun _ ho => ho⟩

theorem Later.retire (t : Calls K O) (n : ℕ) (key : K) (o : O) : Later t (t.retire n key o) :=
  Later.modify (t.remove key) n o _ fun _ => ⟨rfl,rfl⟩

theorem Later.finish (t : Calls K O) (key : K) (o : O) : Later t (t.finish key o) :=
  finish_induction t key o (Later.refl t) fun n _ => Later.retire t n key o

theorem Later.sweep (t : Calls K O) (o : O) : Later t (t.sweep o) :=
  sweep_induction o (fun u key hu => hu.trans (Later.finish u key o)) t (Later.refl t)

theorem SameBut.retire {t : Calls K O} (hk : Kept t) (n : ℕ) (key : K) (o : O)
    (hn : (key,n)∈t.pending) : SameBut key t (t.retire n key o) := by
  intro m s hs hne
  have hnm : n≠m := by
    intro hnm
    subst hnm
    obtain ⟨s',hs',hkey⟩ := hk.entry key n hn
    rw [hs] at hs'
    cases hs'
    exact hne hkey
  refine ⟨(modify_other _ n m _ hnm).trans hs,fun k => ?_⟩
  have hmem := mem_remove t key k m
  constructor
  · intro h
    exact (hmem.mp h).1
  · intro h
    refine hmem.mpr ⟨h,fun hkk => ?_⟩
    obtain ⟨s',hs',hkey⟩ := hk.entry k m h
    rw [hs] at hs'
    cases hs'
    exact hne (hkey.trans hkk)

theorem SameBut.finish {t : Calls K O} (hk : Kept t) (key : K) (o : O) :
    SameBut key t (t.finish key o) :=
  finish_induction t key o (SameBut.refl key t) fun n hn => SameBut.retire hk n key o hn

theorem sweep_settles {t : Calls K O} (hk : Kept t) (o : O) (n : ℕ) (s : Slot K O)
    (hs : (t.sweep o).slots[n]?=some s) : s.outcome≠none ∧ s.armed=false :=
  (hk.sweep o).settled_of_empty (sweep_pending t o) n s hs

theorem sweep_outcome {t : Calls K O} (hk : Kept t) (o : O) (n : ℕ) (s : Slot K O)
    (hs : t.slots[n]?=some s) (hwait : s.outcome=none) :
    ∃ s', (t.sweep o).slots[n]?=some s' ∧ s'.outcome=some o := by
  have hstep : ∃ s', (t.sweep o).slots[n]?=some s' ∧ (s'.outcome=none ∨ s'.outcome=some o) := by
    refine sweep_induction (P := fun u => ∃ s', u.slots[n]?=some s' ∧
      (s'.outcome=none ∨ s'.outcome=some o)) o (fun u key hu => ?_) t ⟨s,hs,Or.inl hwait⟩
    rcases finish_cases u key o with ⟨_,heq⟩ | ⟨m,_,heq⟩
    · rw [heq]
      exact hu
    · obtain ⟨s',hs',ho⟩ := hu
      rw [heq]
      by_cases hmn : m=n
      · subst hmn
        refine ⟨_,modify_self (u.remove key) m _ s' hs',Or.inr ?_⟩
        rcases ho with ho | ho <;> simp [Slot.close,ho]
      · exact ⟨s',(modify_other (u.remove key) m n _ hmn).trans hs',ho⟩
  obtain ⟨s',hs',ho | ho⟩ := hstep
  · exact ((sweep_settles hk o n s' hs').1 ho).elim
  · exact ⟨s',hs',ho⟩

/-! ### Outcomes by place -/

/-- `P` holds of every outcome and the place of its call. -/
def Placed (P : ℕ → O → Prop) (t : Calls K O) : Prop := ∀ (n : ℕ) (s : Slot K O) (o : O),
  t.slots[n]?=some s → s.outcome=some o → P n o

omit [DecidableEq K] in
theorem Placed.mono {P Q : ℕ → O → Prop} {t : Calls K O} (h : Placed P t) (hpq : ∀ n o, P n o → Q n o) :
    Placed Q t := fun n s o hs ho => hpq n o (h n s o hs ho)

omit [DecidableEq K] in
theorem Placed.close {P : ℕ → O → Prop} {t : Calls K O} (h : Placed P t) (n : ℕ) (o : O) (hn : P n o) :
    Placed P (t.modify n (Slot.close o)) := by
  intro m s o' hs ho
  rcases modify_cases t n m _ s hs with ⟨_,hs⟩ | ⟨rfl,s0,hs0,rfl⟩
  · exact h m s o' hs ho
  · cases h0 : s0.outcome with
    | none =>
      simp only [Slot.close,h0,Option.none_or,Option.some.injEq] at ho
      rwa [← ho]
    | some o0 =>
      simp only [Slot.close,h0,Option.some_or] at ho
      exact h n s0 o' hs0 (h0.trans ho)

theorem Placed.insert {P : ℕ → O → Prop} {t : Calls K O} (h : Placed P t) (key : K) :
    Placed P (t.insert key) := by
  intro n s o hs ho
  rcases insert_cases t key n s hs with hs | ⟨_,rfl⟩
  · exact h n s o hs ho
  · cases ho

theorem Placed.finish {P : ℕ → O → Prop} {t : Calls K O} (h : Placed P t) (key : K) (o : O)
    (hn : ∀ n, (key,n)∈t.pending → P n o) : Placed P (t.finish key o) := by
  refine finish_induction t key o h fun n hmem => ?_
  have hremove : Placed P (t.remove key) := h
  exact hremove.close n o (hn n hmem)

theorem Placed.sweep {P : ℕ → O → Prop} {t : Calls K O} (h : Placed P t) (o : O) (ho : ∀ n, P n o) :
    Placed P (t.sweep o) :=
  sweep_induction o (fun _ key hu => hu.finish key o fun n _ => ho n) t h

end Calls
end Clamator.Base
