import Clamator.Base.Stream

/-!
# Entries that wait behind others

Two pending entries that were delivered at the same time become idle at the same time. As long as
both are among the first of the list, whoever claims the second claims the first, and has it earlier
in the batch.
-/

namespace Clamator.Base

/-- Before `e` comes up in the list, `p` does. -/
def Shielded (p e : ℕ) : List ℕ → Prop
  | [] => True
  | i::is => i=p ∨ i≠e ∧ Shielded p e is

theorem shielded_of_not_mem (p e : ℕ) (is : List ℕ) (h : e∉is) : Shielded p e is := by
  induction is with
  | nil => trivial
  | cons i is ih =>
    rw [List.mem_cons,not_or] at h
    exact Or.inr ⟨fun hi => h.1 hi.symm,ih h.2⟩

theorem shielded_append (p e : ℕ) (is js : List ℕ) (h : e∉is) (hj : Shielded p e js) :
    Shielded p e (is++js) := by
  induction is with
  | nil => exact hj
  | cons i is ih =>
    rw [List.mem_cons,not_or] at h
    exact Or.inr ⟨fun hi => h.1 hi.symm,ih h.2⟩

theorem shielded_range' (p e a n : ℕ) (ha : a ≤ p) (hpe : p < e) : Shielded p e (List.range' a n) := by
  induction n generalizing a with
  | zero => trivial
  | succ n ih =>
    rw [List.range'_succ]
    by_cases hap : a=p
    · exact Or.inl hap
    · exact Or.inr ⟨by omega,ih (a+1) (by omega)⟩

namespace Group

/-- Entry `e` is pending behind `p`, delivered when it was, and both are among the first `count`. -/
structure Behind (count p e : ℕ) (g : Group) (front mid back : List Pending) (since : ℕ) : Prop where
  pending : g.pending=front++⟨p,since⟩::(mid++⟨e,since⟩::back)
  close : front.length+mid.length+2 ≤ count
  ne : p≠e
  once : ∀ q∈front++mid++back, q.index≠p ∧ q.index≠e

variable {count p e since : ℕ} {g : Group} {front mid back : List Pending}

theorem Behind.isPending (h : g.Behind count p e front mid back since) : e∈g.pendingIds := by
  rw [pendingIds,h.pending]
  simp

/- A read puts further entries behind them. -/
theorem Behind.read (h : g.Behind count p e front mid back since) {len : ℕ} (hv : g.Valid len)
    (now n : ℕ) : ∃ back', (g.read len now n).Behind count p e front mid back' since := by
  refine ⟨back++(g.fresh len n).map (⟨·,now⟩),?_,h.close,h.ne,?_⟩
  · show g.pending++_=_
    rw [h.pending]
    simp
  · have hdelivered : ∀ q∈g.pendingIds, q < g.next := fun q hq => (hv.pending_range q hq).2
    have hp := hdelivered p (by rw [pendingIds,h.pending]; simp)
    have he := hdelivered e h.isPending
    intro q hq
    rw [← List.append_assoc,List.mem_append] at hq
    rcases hq with hq | hq
    · exact h.once q hq
    · obtain ⟨i,hi,rfl⟩ := List.mem_map.mp hq
      have hfresh := (g.mem_fresh len n i).mp hi
      show i≠p ∧ i≠e
      omega

theorem Behind.ack (h : g.Behind count p e front mid back since) (i : ℕ) (hp : i≠p) (he : i≠e) :
    ∃ front' mid' back', (g.ack i).Behind count p e front' mid' back' since := by
  by_cases hi : i∈g.pendingIds
  · refine ⟨front.filter (·.index != i),mid.filter (·.index != i),back.filter (·.index != i),?_,?_,h.ne,?_⟩
    · rw [Group.ack,if_pos hi]
      show g.pending.filter _=_
      have hpi : (p != i)=true := by simpa using hp.symm
      have hei : (e != i)=true := by simpa using he.symm
      rw [h.pending]
      simp [List.filter_append,hpi,hei]
    · have hfront := List.length_filter_le (·.index != i) front
      have hmid := List.length_filter_le (·.index != i) mid
      have hclose := h.close
      omega
    · intro q hq
      refine h.once q ?_
      simp only [List.mem_append,List.mem_filter] at hq ⊢
      exact hq.imp (Or.imp And.left And.left) And.left
  · rw [Group.ack,if_neg hi]
    exact ⟨front,mid,back,h⟩

/- What XAUTOCLAIM takes, if an entry near the front is idle long enough. -/
theorem claimable_split (now minIdle : ℕ) (pre post : List Pending) (x : Pending)
    (hpending : g.pending=pre++x::post) (hpre : pre.length < count) (hidle : minIdle ≤ now-x.since) :
    ∃ rest, g.claimable now minIdle count=
      (pre.filter fun q => decide (minIdle ≤ now-q.since)).map Pending.index++x.index::rest := by
  have htake : g.pending.take (10*count)=pre++x::post.take (10*count-pre.length-1) := by
    rw [hpending,List.take_append,List.take_of_length_le (by omega),
      show 10*count-pre.length=(10*count-pre.length-1)+1 by omega,List.take_succ_cons]
    rfl
  have hle := List.length_filter_le (fun q : Pending => decide (minIdle ≤ now-q.since)) pre
  rw [claimable,htake,List.filter_append,List.filter_cons,if_pos (by simpa using hidle),List.take_append,
    List.take_of_length_le (by omega),
    show ∀ k, k < count → count-k=(count-k-1)+1 from fun k hk => by omega,List.take_succ_cons,
    List.map_append,List.map_cons]
  · exact ⟨_,rfl⟩
  · omega

theorem Behind.unique (h : g.Behind count p e front mid back since) (q : Pending) (hq : q∈g.pending)
    (hi : q.index=p ∨ q.index=e) : q.since=since := by
  rw [h.pending] at hq
  have hcases : q∈front++mid++back ∨ q=⟨p,since⟩ ∨ q=⟨e,since⟩ := by
    simp only [List.mem_append,List.mem_cons] at hq ⊢
    tauto
  rcases hcases with hq | rfl | rfl
  · rcases hi with hi | hi
    · exact ((h.once q hq).1 hi).elim
    · exact ((h.once q hq).2 hi).elim
  · rfl
  · rfl

theorem Behind.claimable (h : g.Behind count p e front mid back since) (now minIdle : ℕ) :
    Shielded p e (g.claimable now minIdle count) ∧
      (p∈g.claimable now minIdle count ↔ e∈g.claimable now minIdle count) := by
  have hclose := h.close
  by_cases hidle : minIdle ≤ now-since
  · obtain ⟨rest,hrest⟩ := claimable_split now minIdle front _ ⟨p,since⟩ h.pending
      (show front.length < count by omega) hidle
    obtain ⟨rest',hrest'⟩ := claimable_split now minIdle (front++⟨p,since⟩::mid) back ⟨e,since⟩
      (by rw [h.pending]; simp) (show (front++⟨p,since⟩::mid).length < count by simp; omega) hidle
    constructor
    · rw [hrest]
      refine shielded_append p e _ _ (fun he => ?_) (Or.inl rfl)
      obtain ⟨q,hq,hi⟩ := List.mem_map.mp he
      refine (h.once q ?_).2 hi
      simp [(List.mem_filter.mp hq).1]
    · refine iff_of_true ?_ ?_
      · rw [hrest]
        simp
      · rw [hrest']
        simp
  · have hnot : ∀ i, i=p ∨ i=e → i∉g.claimable now minIdle count := by
      intro i hi hmem
      obtain ⟨q,hq,rfl,hq'⟩ := g.mem_claimable now minIdle count i hmem
      rw [h.unique q hq hi] at hq'
      exact hidle hq'
    exact ⟨shielded_of_not_mem p e _ (hnot e (Or.inr rfl)),
      iff_of_false (hnot p (Or.inl rfl)) (hnot e (Or.inr rfl))⟩

/- They are claimed together. -/
theorem Behind.claim (h : g.Behind count p e front mid back since) (now minIdle : ℕ) :
    ∃ front' mid' back' since', (g.claim now (g.claimable now minIdle count)).Behind count p e
      front' mid' back' since' := by
  have htogether := (h.claimable now minIdle).2
  generalize g.claimable now minIdle count=is at htogether
  obtain ⟨f,hf⟩ : ∃ f : Pending → Pending, ∀ q, f q=if q.index∈is then ⟨q.index,now⟩ else q :=
    ⟨_,fun _ => rfl⟩
  have hindex : ∀ q, (f q).index=q.index := by
    intro q
    rw [hf]
    split <;> rfl
  have hmap : (g.claim now is).pending=g.pending.map f :=
    List.map_congr_left fun q _ => (hf q).symm
  refine ⟨front.map f,mid.map f,back.map f,if p∈is then now else since,?_,?_,h.ne,?_⟩
  · rw [hmap,h.pending,List.map_append,List.map_cons,List.map_append,List.map_cons,hf ⟨p,since⟩,
      hf ⟨e,since⟩]
    by_cases hp : p∈is
    · simp only [hp,htogether.mp hp,if_true]
    · have he : e∉is := fun he => hp (htogether.mpr he)
      simp only [hp,he,if_false]
  · rw [List.length_map,List.length_map]
    exact h.close
  · intro q hq
    rw [← List.map_append,← List.map_append,List.mem_map] at hq
    obtain ⟨q',hq',rfl⟩ := hq
    rw [hindex]
    exact h.once q' hq'

/- Two entries of one read. -/
theorem behind_read {len : ℕ} (hv : g.Valid len) (now n : ℕ) (hp : g.next ≤ p) (hpe : p < e)
    (he : e < (g.read len now n).next) (hfew : (g.read len now n).pendingIds.length ≤ count) :
    ∃ front mid back, (g.read len now n).Behind count p e front mid back now := by
  generalize hm : min n (len-g.next)=m
  have hnext : (g.read len now n).next=g.next+m := by rw [← hm]; rfl
  have hrange : g.fresh len n=List.range' g.next (p-g.next)++
      p::(List.range' (p+1) (e-p-1)++e::List.range' (e+1) (g.next+m-e-1)) := by
    have h1 : List.range' e (g.next+m-e)=e::List.range' (e+1) (g.next+m-e-1) := by
      rw [show g.next+m-e=(g.next+m-e-1)+1 by omega,List.range'_succ]
      rfl
    have h2 : List.range' p (g.next+m-p)=p::List.range' (p+1) (g.next+m-p-1) := by
      rw [show g.next+m-p=(g.next+m-p-1)+1 by omega,List.range'_succ]
      rfl
    have h3 : List.range' (p+1) (e-p-1)++List.range' e (g.next+m-e)=
        List.range' (p+1) (g.next+m-p-1) := by
      have happend : List.range' (p+1) (e-p-1)++List.range' (p+1+(e-p-1)) (g.next+m-e)=
          List.range' (p+1) (e-p-1+(g.next+m-e)) := List.range'_append_1
      rw [show p+1+(e-p-1)=e by omega,show e-p-1+(g.next+m-e)=g.next+m-p-1 by omega] at happend
      exact happend
    have h4 : List.range' g.next (p-g.next)++List.range' p (g.next+m-p)=List.range' g.next m := by
      have happend : List.range' g.next (p-g.next)++List.range' (g.next+(p-g.next)) (g.next+m-p)=
          List.range' g.next (p-g.next+(g.next+m-p)) := List.range'_append_1
      rw [show g.next+(p-g.next)=p by omega,show p-g.next+(g.next+m-p)=m by omega] at happend
      exact happend
    rw [← h1,h3,← h2,h4,fresh,hm]
  have hpending : (g.read len now n).pending=g.pending++(g.fresh len n).map (⟨·,now⟩) := rfl
  refine ⟨g.pending++(List.range' g.next (p-g.next)).map (⟨·,now⟩),
    (List.range' (p+1) (e-p-1)).map (⟨·,now⟩),(List.range' (e+1) (g.next+m-e-1)).map (⟨·,now⟩),?_,?_,
    by omega,?_⟩
  · rw [hpending,hrange]
    simp
  · rw [pendingIds,List.length_map,hpending,hrange] at hfew
    simp only [List.length_append,List.length_map,List.length_cons,List.length_range'] at hfew ⊢
    omega
  · intro q hq
    simp only [List.mem_append,List.mem_map,List.mem_range'_1] at hq
    rcases hq with ((hq | ⟨i,hi,rfl⟩) | ⟨i,hi,rfl⟩) | ⟨i,hi,rfl⟩
    · have hlt := (hv.pending_range q.index (List.mem_map_of_mem hq)).2
      omega
    · show i≠p ∧ i≠e
      omega
    · show i≠p ∧ i≠e
      omega
    · show i≠p ∧ i≠e
      omega

end Group
end Clamator.Base
