import Mathlib.Data.List.Basic
import Mathlib.Data.List.Range

/-!
# Streams with a consumer group

A Redis stream that is never trimmed, with one consumer group: its entries in
order (an entry's position is its id), how far they have been delivered, which
are pending and since when, and which are acknowledged. The commands are total
functions; that every delivered entry is pending or acknowledged is a field of
the structure that each of them keeps.
-/

namespace Clamator.Base

/-! ### Consumer groups -/

/-- A line of the pending-entry list: the entry and the time of its last delivery. -/
structure Pending where
  index : ℕ
  since : ℕ
  deriving DecidableEq

/-- `start` is the length of the stream when the group was created with id `$`,
`next` the first entry that it has not delivered. -/
structure Group where
  start : ℕ
  next : ℕ
  pending : List Pending
  acked : List ℕ

namespace Group

def pendingIds (g : Group) : List ℕ := g.pending.map Pending.index

/-- Of a stream of `len` entries, those from `start` to `next` have been delivered, and
each of them is either pending or acknowledged. -/
structure Valid (g : Group) (len : ℕ) : Prop where
  start_le : g.start ≤ g.next
  next_le : g.next ≤ len
  pending_range : ∀ i∈g.pendingIds, g.start ≤ i ∧ i < g.next
  acked_range : ∀ i∈g.acked, g.start ≤ i ∧ i < g.next
  pending_or_acked : ∀ i, g.start ≤ i → i < g.next → (i∈g.acked ↔ i∉g.pendingIds)

def create (len : ℕ) : Group := ⟨len,len,[],[]⟩

theorem create_valid (len : ℕ) : (create len).Valid len := by
  refine ⟨Nat.le_refl _,Nat.le_refl _,fun i hi => ?_,fun i hi => ?_,fun i hs hn => ?_⟩
  · exact (List.not_mem_nil hi).elim
  · exact (List.not_mem_nil hi).elim
  · exact (Nat.lt_irrefl len (Nat.lt_of_le_of_lt hs hn)).elim

/-- The positions that a read hands out from a stream of `len` entries. -/
def fresh (g : Group) (len count : ℕ) : List ℕ := List.range' g.next (min count (len-g.next))

theorem mem_fresh (g : Group) (len count i : ℕ) :
    i∈g.fresh len count ↔ g.next ≤ i ∧ i < g.next+min count (len-g.next) := by
  simp only [fresh,List.mem_range'_1]

def read (g : Group) (len now count : ℕ) : Group :=
  { g with
    next := g.next+min count (len-g.next)
    pending := g.pending++(g.fresh len count).map (⟨·,now⟩) }

theorem read_pendingIds (g : Group) (len now count : ℕ) :
    (g.read len now count).pendingIds=g.pendingIds++g.fresh len count := by
  simp [read,pendingIds,Function.comp_def]

theorem Valid.read {g : Group} {len : ℕ} (h : g.Valid len) (now count : ℕ) :
    (g.read len now count).Valid len := by
  have hnext : (g.read len now count).next=g.next+min count (len-g.next) := rfl
  have h1 := h.start_le
  have h2 := h.next_le
  refine ⟨?_,?_,?_,?_,?_⟩
  · rw [hnext]
    exact Nat.le_trans h1 (Nat.le_add_right _ _)
  · omega
  · intro i hi
    rw [read_pendingIds,List.mem_append,mem_fresh] at hi
    rcases hi with hi | hi
    · have h3 := h.pending_range i hi
      exact ⟨h3.1,by omega⟩
    · exact ⟨Nat.le_trans h1 hi.1,by omega⟩
  · intro i hi
    have h3 := h.acked_range i hi
    exact ⟨h3.1,by omega⟩
  · intro i hs hn
    rw [read_pendingIds,List.mem_append,mem_fresh]
    by_cases hi : i < g.next
    · have h3 := h.pending_or_acked i hs hi
      refine h3.trans (not_congr ⟨Or.inl,?_⟩)
      rintro (h4 | h4)
      · exact h4
      · omega
    · refine iff_of_false (fun h3 => hi (h.acked_range i h3).2) ?_
      exact fun h3 => h3 (Or.inr ⟨Nat.not_lt.mp hi,by omega⟩)

/-- The entries that XAUTOCLAIM from id 0 takes over: it looks at ten times COUNT
lines of the list, and takes COUNT of those that are idle long enough. -/
def claimable (g : Group) (now minIdle count : ℕ) : List ℕ :=
  (((g.pending.take (10*count)).filter fun p => decide (minIdle ≤ now-p.since)).take count).map
    Pending.index

theorem mem_claimable (g : Group) (now minIdle count i : ℕ) (hi : i∈g.claimable now minIdle count) :
    ∃ p∈g.pending, p.index=i ∧ minIdle ≤ now-p.since := by
  obtain ⟨p,hp,rfl⟩ := List.mem_map.mp hi
  have hf := List.mem_filter.mp (List.mem_of_mem_take hp)
  exact ⟨p,List.mem_of_mem_take hf.1,rfl,of_decide_eq_true hf.2⟩

def claim (g : Group) (now : ℕ) (is : List ℕ) : Group :=
  { g with pending := g.pending.map fun p => if p.index∈is then ⟨p.index,now⟩ else p }

theorem claim_pendingIds (g : Group) (now : ℕ) (is : List ℕ) :
    (g.claim now is).pendingIds=g.pendingIds := by
  simp only [claim,pendingIds,List.map_map]
  refine List.map_congr_left fun p _ => ?_
  simp only [Function.comp_apply]
  split <;> rfl

theorem Valid.claim {g : Group} {len : ℕ} (h : g.Valid len) (now : ℕ) (is : List ℕ) :
    (g.claim now is).Valid len where
  start_le := h.start_le
  next_le := h.next_le
  pending_range := by
    rw [claim_pendingIds]
    exact h.pending_range
  acked_range := h.acked_range
  pending_or_acked := by
    rw [claim_pendingIds]
    exact h.pending_or_acked

/-- XACK; it does nothing to an entry that is not pending. -/
def ack (g : Group) (i : ℕ) : Group :=
  if i∈g.pendingIds then
    { g with pending := g.pending.filter fun p => p.index != i,acked := i::g.acked }
  else g

theorem ack_acked (g : Group) (i j : ℕ) (h : j∈(g.ack i).acked) : j=i ∨ j∈g.acked := by
  unfold ack at h
  split at h
  · exact List.mem_cons.mp h
  · exact Or.inr h

theorem ack_range (g : Group) (i : ℕ) : (g.ack i).start=g.start ∧ (g.ack i).next=g.next := by
  unfold ack
  split <;> exact ⟨rfl,rfl⟩

theorem ack_pendingIds (g : Group) (i : ℕ) :
    (g.ack i).pendingIds=g.pendingIds.filter fun j => j != i := by
  have hmap : ∀ ps : List Pending, (ps.filter fun p => p.index != i).map Pending.index=
      (ps.map Pending.index).filter fun j => j != i := by
    intro ps
    rw [List.filter_map]
    rfl
  unfold ack
  split
  · exact hmap g.pending
  · rename_i hi
    refine (List.filter_eq_self.mpr fun j hj => ?_).symm
    rw [bne_iff_ne]
    rintro rfl
    exact hi hj

/-- XACKs one after the other. -/
def ackAll (g : Group) (is : List ℕ) : Group := is.foldl ack g

theorem ackAll_next (g : Group) (is : List ℕ) : (g.ackAll is).next=g.next := by
  induction is generalizing g with
  | nil => rfl
  | cons i is ih => exact (ih (g.ack i)).trans (g.ack_range i).2

theorem ackAll_pendingIds (g : Group) (is : List ℕ) :
    (g.ackAll is).pendingIds=g.pendingIds.filter fun j => j∉is := by
  induction is generalizing g with
  | nil => simp [ackAll]
  | cons i is ih =>
    refine (ih (g.ack i)).trans ?_
    rw [ack_pendingIds,List.filter_filter]
    refine List.filter_congr fun j _ => ?_
    rw [Bool.eq_iff_iff]
    simp [and_comm]

theorem Valid.ack {g : Group} {len : ℕ} (h : g.Valid len) (i : ℕ) : (g.ack i).Valid len := by
  unfold Group.ack
  split
  · rename_i hi
    have hids : ∀ j, j∈Group.pendingIds { g with
        pending := g.pending.filter fun p => p.index != i,acked := i::g.acked } ↔
          j∈g.pendingIds ∧ j≠i := by
      intro j
      simp only [pendingIds,List.mem_map,List.mem_filter,bne_iff_ne]
      constructor
      · rintro ⟨p,⟨hp,hne⟩,rfl⟩
        exact ⟨⟨p,hp,rfl⟩,hne⟩
      · rintro ⟨⟨p,hp,rfl⟩,hne⟩
        exact ⟨p,⟨hp,hne⟩,rfl⟩
    refine ⟨h.start_le,h.next_le,?_,?_,?_⟩
    · intro j hj
      exact h.pending_range j ((hids j).mp hj).1
    · intro j hj
      rcases List.mem_cons.mp hj with rfl | hj
      · exact h.pending_range j hi
      · exact h.acked_range j hj
    · intro j hs hn
      rw [hids]
      by_cases hj : j=i
      · subst hj
        simp
      · rw [List.mem_cons,h.pending_or_acked j hs hn]
        simp [hj]
  · exact h

theorem Valid.mono {g : Group} {len len' : ℕ} (h : g.Valid len) (hl : len ≤ len') : g.Valid len' :=
  { h with next_le := Nat.le_trans h.next_le hl }

end Group

/-! ### Streams -/

structure Stream (E : Type) where
  entries : List E
  group : Option Group
  valid : ∀ g∈group, g.Valid entries.length

namespace Stream
variable {E : Type}

def empty : Stream E := ⟨[],none,by simp⟩

def xadd (s : Stream E) (e : E) : Stream E where
  entries := s.entries++[e]
  group := s.group
  valid := fun g hg => (s.valid g hg).mono (by simp)

/-- XGROUP CREATE at `$`, MKSTREAM; an existing group is kept (BUSYGROUP). -/
def xgroupCreate (s : Stream E) : Stream E where
  entries := s.entries
  group := some (s.group.getD (.create s.entries.length))
  valid := by
    intro g hg
    cases hg
    cases hs : s.group with
    | none => exact Group.create_valid _
    | some g => exact s.valid g hs

def regroup (s : Stream E) (f : Group → Group)
    (hf : ∀ g, g.Valid s.entries.length → (f g).Valid s.entries.length) : Stream E where
  entries := s.entries
  group := s.group.map f
  valid := by
    intro g hg
    obtain ⟨g',hg',rfl⟩ := Option.map_eq_some_iff.mp hg
    exact hf g' (s.valid g' hg')

def items (s : Stream E) (is : List ℕ) : List (ℕ × E) :=
  is.filterMap fun i => (s.entries[i]?).map fun e => (i,e)

theorem mem_items (s : Stream E) (is : List ℕ) (x : ℕ × E) (hx : x∈s.items is) :
    x.1∈is ∧ s.entries[x.1]?=some x.2 := by
  obtain ⟨i,hi,hm⟩ := List.mem_filterMap.mp hx
  obtain ⟨e,he,rfl⟩ := Option.map_eq_some_iff.mp hm
  exact ⟨hi,he⟩

theorem items_fst (s : Stream E) (is : List ℕ) (h : ∀ i∈is, i < s.entries.length) :
    (s.items is).map Prod.fst=is := by
  induction is with
  | nil => rfl
  | cons i is ih =>
    have hi := h i List.mem_cons_self
    have htail := ih fun j hj => h j (List.mem_cons_of_mem _ hj)
    simp only [items] at htail ⊢
    simp only [List.filterMap_cons,List.getElem?_eq_getElem hi,Option.map_some,List.map_cons,htail]

/-- XREADGROUP with id `>` and COUNT. -/
def xreadgroup (s : Stream E) (now count : ℕ) : Stream E :=
  s.regroup (fun g => g.read s.entries.length now count) fun _ h => h.read now count

def readItems (s : Stream E) (count : ℕ) : List (ℕ × E) :=
  s.items (s.group.elim [] fun g => g.fresh s.entries.length count)

/-- XAUTOCLAIM from id 0 with a minimal idle time and COUNT. -/
def xautoclaim (s : Stream E) (now minIdle count : ℕ) : Stream E :=
  s.regroup (fun g => g.claim now (g.claimable now minIdle count)) fun _ h => h.claim now _

def claimItems (s : Stream E) (now minIdle count : ℕ) : List (ℕ × E) :=
  s.items (s.group.elim [] fun g => g.claimable now minIdle count)

def xack (s : Stream E) (i : ℕ) : Stream E := s.regroup (fun g => g.ack i) fun _ h => h.ack i

theorem readItems_entries (s : Stream E) (count : ℕ) (x : ℕ × E) (hx : x∈s.readItems count) :
    s.entries[x.1]?=some x.2 := (s.mem_items _ x hx).2

theorem readItems_fst (s : Stream E) (count : ℕ) (g : Group) (hg : s.group=some g) :
    (s.readItems count).map Prod.fst=List.range' g.next (min count (s.entries.length-g.next)) := by
  have hlt : ∀ i∈g.fresh s.entries.length count, i < s.entries.length := by
    intro i hi
    have h1 := (g.mem_fresh _ _ i).mp hi
    omega
  simp only [readItems,hg,Option.elim_some]
  exact s.items_fst _ hlt

theorem claimItems_entries (s : Stream E) (now minIdle count : ℕ) (x : ℕ × E)
    (hx : x∈s.claimItems now minIdle count) : s.entries[x.1]?=some x.2 := (s.mem_items _ x hx).2

@[simp] theorem xadd_entries (s : Stream E) (e : E) : (s.xadd e).entries=s.entries++[e] := rfl
@[simp] theorem xgroupCreate_entries (s : Stream E) : s.xgroupCreate.entries=s.entries := rfl
@[simp] theorem xreadgroup_entries (s : Stream E) (now count : ℕ) :
    (s.xreadgroup now count).entries=s.entries := rfl
@[simp] theorem xautoclaim_entries (s : Stream E) (now minIdle count : ℕ) :
    (s.xautoclaim now minIdle count).entries=s.entries := rfl
@[simp] theorem xack_entries (s : Stream E) (i : ℕ) : (s.xack i).entries=s.entries := rfl

theorem xreadgroup_group (s : Stream E) (now count : ℕ) :
    (s.xreadgroup now count).group=s.group.map fun g => g.read s.entries.length now count := rfl

theorem xautoclaim_group (s : Stream E) (now minIdle count : ℕ) :
    (s.xautoclaim now minIdle count).group=
      s.group.map fun g => g.claim now (g.claimable now minIdle count) := rfl

theorem xack_group (s : Stream E) (i : ℕ) : (s.xack i).group=s.group.map fun g => g.ack i := rfl

/-! ### Where an entry stands -/

def Watched (s : Stream E) (i : ℕ) : Prop := i < s.entries.length ∧ ∃ g∈s.group, g.start ≤ i
def Undelivered (s : Stream E) (i : ℕ) : Prop := ∃ g∈s.group, g.next ≤ i
def Delivered (s : Stream E) (i : ℕ) : Prop := ∃ g∈s.group, g.start ≤ i ∧ i < g.next
def IsPending (s : Stream E) (i : ℕ) : Prop := ∃ g∈s.group, i∈g.pendingIds
def Acked (s : Stream E) (i : ℕ) : Prop := ∃ g∈s.group, i∈g.acked

def ExactlyOne (a b c : Prop) : Prop := a ∧ ¬b ∧ ¬c ∨ ¬a ∧ b ∧ ¬c ∨ ¬a ∧ ¬b ∧ c

theorem watched_status (s : Stream E) (i : ℕ) (h : s.Watched i) :
    ExactlyOne (s.Undelivered i) (s.IsPending i) (s.Acked i) := by
  obtain ⟨_,g,hg,hs⟩ := h
  have hv := s.valid g hg
  have hall : ∀ P : Group → Prop, (∃ g'∈s.group, P g') ↔ P g := by
    intro P
    rw [Option.mem_def] at hg
    simp [hg]
  simp only [ExactlyOne,Undelivered,IsPending,Acked,hall]
  by_cases hn : i < g.next
  · have hpa := hv.pending_or_acked i hs hn
    have hnot : ¬g.next ≤ i := Nat.not_le.mpr hn
    by_cases hp : i∈g.pendingIds
    · exact Or.inr (Or.inl ⟨hnot,hp,fun ha => hpa.mp ha hp⟩)
    · exact Or.inr (Or.inr ⟨hnot,hp,hpa.mpr hp⟩)
  · exact Or.inl ⟨Nat.not_lt.mp hn,fun hp => hn (hv.pending_range i hp).2,
      fun ha => hn (hv.acked_range i ha).2⟩

theorem acked_xgroupCreate (s : Stream E) (i : ℕ) (h : s.xgroupCreate.Acked i) : s.Acked i := by
  obtain ⟨g,hg,hi⟩ := h
  cases hs : s.group with
  | none =>
    simp only [xgroupCreate,hs,Option.getD_none,Option.mem_def,Option.some.injEq] at hg
    subst hg
    exact (List.not_mem_nil hi).elim
  | some g' =>
    simp only [xgroupCreate,hs,Option.getD_some,Option.mem_def,Option.some.injEq] at hg
    subst hg
    exact ⟨g',hs,hi⟩

theorem acked_regroup (s : Stream E) (f : Group → Group)
    (hf : ∀ g, g.Valid s.entries.length → (f g).Valid s.entries.length) (i : ℕ)
    (h : (s.regroup f hf).Acked i) : ∃ g∈s.group, i∈(f g).acked := by
  obtain ⟨g,hg,hi⟩ := h
  obtain ⟨g',hg',rfl⟩ := Option.map_eq_some_iff.mp hg
  exact ⟨g',hg',hi⟩

theorem acked_xreadgroup (s : Stream E) (now count i : ℕ) (h : (s.xreadgroup now count).Acked i) :
    s.Acked i := s.acked_regroup _ (fun _ hv => hv.read now count) i h

theorem acked_xautoclaim (s : Stream E) (now minIdle count i : ℕ)
    (h : (s.xautoclaim now minIdle count).Acked i) : s.Acked i :=
  s.acked_regroup _ (fun _ hv => hv.claim now _) i h

/- XACK acknowledges no other entry. -/
theorem acked_xack (s : Stream E) (i j : ℕ) (h : (s.xack i).Acked j) : j=i ∨ s.Acked j := by
  obtain ⟨g,hg,hj⟩ := s.acked_regroup _ _ j h
  rcases g.ack_acked i j hj with rfl | hj
  · exact Or.inl rfl
  · exact Or.inr ⟨g,hg,hj⟩

end Stream
end Clamator.Base
