import Clamator.Redis.Recovery
import Clamator.Redis.ReplyIntegrity

/-!
# No call is out of reach (`runReplyLoop`, `_reply_loop`)

The reply loop reads its stream from the beginning and takes the entries as they come, so that a
reply to a call in flight is never behind it. With a server that recovers the request, the call can
still be settled with a reply of its own.
-/

namespace Clamator.Redis
open Clamator.Base Clamator.Protocol

/-- The steps of a deployment that nobody else writes to, where each reply loop takes the entries of
its stream as they come. -/
def World.orderlyStep (D : Deployment) (a : Act) (w : World) : Option World := match a with
  | .examine k i => if i=(w.clients k).cursor then World.step D a w else none
  | _ => World.closedStep D a w

theorem orderlyStep_spec {D : Deployment} {a : Act} {w w' : World}
    (h : World.orderlyStep D a w=some w') :
    World.closedStep D a w=some w' ∧ ∀ k i, a=.examine k i → i=(w.clients k).cursor := by
  cases a with
  | examine k i =>
    simp only [World.orderlyStep] at h
    split at h
    · rename_i hi
      refine ⟨h,fun k' i' ha => ?_⟩
      cases ha
      exact hi
    · cases h
  | _ => exact ⟨h,by simp⟩

/-! ### Settling and examining -/

theorem settle_removed (w : World) (c : ℕ) (outcome : Settlement) (call : Call)
    (hc : w.calls[c]?=some call) (id : String) :
    (id,c)∉((settle w c outcome).clients call.client).pending := by
  unfold settle
  rw [hc]
  dsimp only
  split <;> simp [World.setClient]

theorem settle_settles (w : World) (c : ℕ) (outcome : Settlement) (call : Call)
    (hc : w.calls[c]?=some call) (hflight : call.settlement=none) :
    (settle w c outcome).calls[c]?=some { call with settlement := some outcome } := by
  have hlt := (List.getElem?_eq_some_iff.mp hc).1
  unfold settle
  rw [hc]
  dsimp only
  rw [hflight]
  exact List.getElem?_set_self hlt

/-- The cursor of a client is past entry `i`. -/
def World.passed (w : World) (k i : ℕ) : World := w.setClient k { w.clients k with cursor := i+1 }

theorem passed_client (w : World) (k i k' : ℕ) :
    (w.passed k i).clients k'={ w.clients k' with cursor := ((w.passed k i).clients k').cursor } := by
  simp only [World.passed,World.setClient]
  split
  · rename_i hk
    rw [hk]
  · rfl

theorem passed_cursor (w : World) (k i k' : ℕ) : ((w.passed k i).clients k').cursor=
    if k'=k then i+1 else (w.clients k').cursor := by
  simp only [World.passed,World.setClient]
  split <;> rfl

theorem examine_spec (D : Deployment) (w : World) (k i : ℕ) (fields : List Bulk) :
    examine D w k i fields=w.passed k i ∧ (∀ id outcome,
      replyOf D (w.clients k).lang fields=some (id,outcome) → ∀ c, (id,c)∉(w.clients k).pending) ∨
    ∃ id outcome c, replyOf D (w.clients k).lang fields=some (id,outcome) ∧
      (id,c)∈(w.clients k).pending ∧ examine D w k i fields=settle (w.passed k i) c outcome := by
  unfold examine
  dsimp only
  split
  · rename_i hr
    refine Or.inl ⟨rfl,fun id outcome h => ?_⟩
    rw [hr] at h
    cases h
  · rename_i id outcome hr
    split
    · rename_i hlookup
      refine Or.inl ⟨rfl,fun id' outcome' h c hc => ?_⟩
      rw [hr] at h
      cases h
      have hne := List.lookup_eq_none_iff.mp hlookup (id,c) hc
      simp at hne
    · rename_i c hlookup
      exact Or.inr ⟨id,outcome,c,hr,Assoc.mem_of_lookup hlookup,rfl⟩

/-! ### What the reply loop has passed -/

/-- The entries of a pending map and the calls in flight are the same; no cursor is past the end of
its stream. -/
structure Bookkept (D : Deployment) (w : World) : Prop where
  owner : ∀ k id c, (id,c)∈(w.clients k).pending → ∃ call, w.calls[c]?=some call ∧ call.client=k
  flight : ∀ (c : ℕ) (call : Call), w.calls[c]?=some call → call.settlement=none →
    (call.id,c)∈(w.clients call.client).pending
  cursor_le : ∀ k, (w.clients k).cursor ≤
    (w.streams (D.replyStream (w.clients k).instanceId)).entries.length

/-- While the call is pending, no reply to it is behind the cursor. -/
def Unread (D : Deployment) (w : World) (c : ℕ) : Prop := ∀ k id, (id,c)∈(w.clients k).pending →
  ∀ j < (w.clients k).cursor, ∀ fields outcome,
    (w.streams (D.replyStream (w.clients k).instanceId)).entries[j]?=some fields →
    replyOf D (w.clients k).lang fields≠some (id,outcome)

variable {D : Deployment} {w w' : World}

/- What leaves clients and settlements alone. -/
theorem Bookkept.quiet (hw : Bookkept D w) (hg : Grows w w') (hclients : w'.clients=w.clients)
    (hback : ∀ (c : ℕ) (call' : Call), w'.calls[c]?=some call' → ∃ call, w.calls[c]?=some call ∧
      call.Later call' ∧ call'.settlement=call.settlement) : Bookkept D w' where
  owner := by
    intro k id c hp
    rw [hclients] at hp
    obtain ⟨call,hc,hk⟩ := hw.owner k id c hp
    obtain ⟨call',hc',hl⟩ := hg.calls c call hc
    refine ⟨call',hc',?_⟩
    rw [hl.same]
    exact hk
  flight := by
    intro c call' hc' hs
    obtain ⟨call,hc,hl,hsame⟩ := hback c call' hc'
    rw [hsame] at hs
    rw [hl.same,hclients]
    exact hw.flight c call hc hs
  cursor_le := by
    intro k
    rw [hclients]
    exact (hw.cursor_le k).trans (hg.entries _).length_le

theorem Unread.quiet {c : ℕ} (hu : Unread D w c) (hw : Bookkept D w) (hg : Grows w w')
    (hclients : w'.clients=w.clients) : Unread D w' c := by
  intro k id hp j hj fields outcome hf
  rw [hclients] at hp hj hf ⊢
  obtain ⟨rest,hrest⟩ := hg.entries (D.replyStream (w.clients k).instanceId)
  rw [← hrest,List.getElem?_append_left (Nat.lt_of_lt_of_le hj (hw.cursor_le k))] at hf
  exact hu k id hp j hj fields outcome hf

theorem Bookkept.settle (hw : Bookkept D w) (c : ℕ) (outcome : Settlement) :
    Bookkept D (settle w c outcome) where
  owner := by
    intro k id c' hp
    obtain ⟨call,hc,hk⟩ := hw.owner k id c' (settle_pending w c outcome k id c' hp)
    obtain ⟨call',hc',hl⟩ := (grows_settle w c outcome).calls c' call hc
    refine ⟨call',hc',?_⟩
    rw [hl.same]
    exact hk
  flight := by
    intro c' call' hc' hs
    by_cases hcc : c'=c
    · subst hcc
      obtain ⟨call,hc,_⟩ := settle_calls_self w c' outcome call' hc'
      cases hflight : call.settlement with
      | none =>
        rw [settle_settles w c' outcome call hc hflight] at hc'
        cases hc'
        cases hs
      | some o =>
        obtain ⟨call1,hc1,hl⟩ := (grows_settle w c' outcome).calls c' call hc
        rw [hc'] at hc1
        cases hc1
        rw [hl.settled o hflight] at hs
        cases hs
    · rw [settle_calls_of_ne w c c' outcome hcc] at hc'
      rw [settle_pending_of_ne w c c' outcome hcc]
      exact hw.flight c' call' hc' hs
  cursor_le := by
    intro k
    rw [settle_client w c outcome k,(settle_frame w c outcome).1]
    exact hw.cursor_le k

/- A settled call has left the pending maps. -/
theorem Unread.settle {c c' : ℕ} (outcome : Settlement) (hw : Bookkept D w)
    (hu : c'≠c → Unread D w c') : Unread D (settle w c outcome) c' := by
  intro k id hp j hj fields outcome' hf
  have hpending := settle_pending w c outcome k id c' hp
  have hne : c'≠c := by
    rintro rfl
    obtain ⟨call,hc,rfl⟩ := hw.owner k id c' hpending
    exact settle_removed w c' outcome call hc id hp
  rw [settle_client w c outcome k] at hj hf ⊢
  rw [(settle_frame w c outcome).1] at hf
  exact hu hne k id hpending j hj fields outcome' hf

theorem Bookkept.passed {k i : ℕ} {fields : List Bulk} (hw : Bookkept D w)
    (hf : (w.streams (D.replyStream (w.clients k).instanceId)).entries[i]?=some fields) :
    Bookkept D (w.passed k i) where
  owner := by
    intro k' id c hp
    rw [passed_client] at hp
    exact hw.owner k' id c hp
  flight := by
    intro c call hc hs
    rw [passed_client]
    exact hw.flight c call hc hs
  cursor_le := by
    intro k'
    show ((w.passed k i).clients k').cursor ≤
      (w.streams (D.replyStream ((w.passed k i).clients k').instanceId)).entries.length
    rw [passed_cursor,passed_client]
    split
    · rename_i hk
      subst hk
      exact (List.getElem?_eq_some_iff.mp hf).1
    · exact hw.cursor_le k'

/- To pass an entry is to pass no reply to a call, unless it is one. -/
theorem Unread.passed {k c : ℕ} {fields : List Bulk} (hu : Unread D w c)
    (hf : (w.streams (D.replyStream (w.clients k).instanceId)).entries[(w.clients k).cursor]?=some fields)
    (hno : ∀ id outcome, replyOf D (w.clients k).lang fields=some (id,outcome) →
      (id,c)∉(w.clients k).pending) : Unread D (w.passed k (w.clients k).cursor) c := by
  intro k' id hp j hj fields' outcome hf'
  have hstreams : (w.passed k (w.clients k).cursor).streams=w.streams := rfl
  rw [passed_cursor] at hj
  rw [hstreams] at hf'
  rw [passed_client] at hp hf' ⊢
  by_cases hk : k'=k ∧ j=(w.clients k).cursor
  · obtain ⟨rfl,rfl⟩ := hk
    rw [hf] at hf'
    cases hf'
    intro hr
    exact hno id outcome hr hp
  · refine hu k' id hp j ?_ fields' outcome hf'
    split at hj
    · rename_i hkk
      subst hkk
      omega
    · exact hj

/-! ### Along a run -/

/- Only calls that were made have replies. -/
theorem Integrity.reply_id (hw : Integrity D w) (k : ℕ) (fields : List Bulk)
    (hf : fields∈(w.streams (D.replyStream (w.clients k).instanceId)).entries) (id : String)
    (outcome : Settlement) (hr : replyOf D (w.clients k).lang fields=some (id,outcome)) :
    ∃ call∈w.calls, call.id=id := by
  cases hw.origins _ _ hf with
  | request c call stream hc hk _ => exact (D.replyStream_ne_commandStream _ _ hk).elim
  | notification service d hk _ => exact (D.replyStream_ne_commandStream _ _ hk).elim
  | reply c call r d hc ha hd hfields =>
    rw [hfields] at hr
    obtain ⟨hid,_⟩ := replyOf_plainFields D _ d call.id id outcome (ha.says_id hd) hr
    exact ⟨call,List.mem_of_getElem? hc,hid.symm⟩

theorem Integrity.pending_unique (hw : Integrity D w) {k k' c c' : ℕ} {id : String}
    (h : (id,c)∈(w.clients k).pending) (h' : (id,c')∈(w.clients k').pending) : c=c' := by
  obtain ⟨call,hc,hid⟩ := hw.pending k id c h
  obtain ⟨call',hc',hid'⟩ := hw.pending k' id c' h'
  exact hw.ids c c' call call' hc hc' (hid.trans hid'.symm)

structure Following (D : Deployment) (w : World) : Prop where
  kept : Bookkept D w
  unread : ∀ c, Unread D w c

theorem Following.quiet (hw : Following D w) (hg : Grows w w') (hclients : w'.clients=w.clients)
    (hback : ∀ (c : ℕ) (call' : Call), w'.calls[c]?=some call' → ∃ call, w.calls[c]?=some call ∧
      call.Later call' ∧ call'.settlement=call.settlement) : Following D w' :=
  ⟨hw.kept.quiet hg hclients hback,fun c => (hw.unread c).quiet hw.kept hg hclients⟩

theorem Following.idle (hw : Following D w) (hg : Grows w w') (hclients : w'.clients=w.clients)
    (hcalls : w'.calls=w.calls) : Following D w' := by
  refine hw.quiet hg hclients fun c call' hc => ?_
  rw [hcalls] at hc
  exact ⟨call',hc,.refl call',rfl⟩

theorem following_call (hw : Following D w) (hi : Integrity D w) (k : ℕ) (service method : String)
    (params : Params) (id : String) (d : Doc) (hfresh : ∀ call∈w.calls, call.id≠id) :
    Following D { w.setClient k { w.clients k with
      pending := (id,w.calls.length)::(w.clients k).pending } with
        calls := w.calls++[⟨k,service,method,params,d,id,false,none⟩] } := by
  have hclient : ∀ k', (w.setClient k { w.clients k with
      pending := (id,w.calls.length)::(w.clients k).pending }).clients k'={ w.clients k' with
        pending := if k'=k then (id,w.calls.length)::(w.clients k).pending
          else (w.clients k').pending } := by
    intro k'
    simp only [World.setClient]
    split
    · rename_i hk
      rw [hk]
    · rfl
  refine ⟨⟨?_,?_,?_⟩,?_⟩
  · intro k' id' c hp
    rw [hclient] at hp
    have hold : (id',c)∈(w.clients k').pending →
        ∃ call, (w.calls++[⟨k,service,method,params,d,id,false,none⟩])[c]?=some call ∧
          call.client=k' := by
      intro hp
      obtain ⟨call,hc,hk⟩ := hw.kept.owner k' id' c hp
      refine ⟨call,?_,hk⟩
      rw [List.getElem?_append_left (List.getElem?_eq_some_iff.mp hc).1]
      exact hc
    dsimp only at hp
    split at hp
    · rename_i hk
      subst hk
      rcases List.mem_cons.mp hp with hnew | hp
      · cases hnew
        exact ⟨_,List.getElem?_concat_length,rfl⟩
      · exact hold hp
    · exact hold hp
  · intro c call hc hflight
    rw [hclient]
    by_cases hlt : c < w.calls.length
    · rw [List.getElem?_append_left hlt] at hc
      have hp := hw.kept.flight c call hc hflight
      dsimp only
      split
      · rename_i hk
        rw [← hk]
        exact List.mem_cons_of_mem _ hp
      · exact hp
    · have hlen := (List.getElem?_eq_some_iff.mp hc).1
      rw [List.length_append,List.length_singleton] at hlen
      obtain rfl : c=w.calls.length := by omega
      rw [List.getElem?_concat_length] at hc
      cases hc
      simp
  · intro k'
    rw [hclient]
    exact hw.kept.cursor_le k'
  · intro c k' id' hp j hj fields outcome hf
    rw [hclient] at hp hj hf ⊢
    have hold : (id',c)∈(w.clients k').pending →
        replyOf D (w.clients k').lang fields≠some (id',outcome) :=
      fun hp => hw.unread c k' id' hp j hj fields outcome hf
    dsimp only at hp
    split at hp
    · rename_i hk
      subst hk
      rcases List.mem_cons.mp hp with hnew | hp
      · -- nobody has replied to an id that nobody has used
        cases hnew
        intro hr
        obtain ⟨call,hcall,hid⟩ := hi.reply_id k' fields (List.mem_of_getElem? hf) id outcome hr
        exact hfresh call hcall hid
      · exact hold hp
    · exact hold hp

theorem following_examine (hw : Following D w) (hi : Integrity D w) (k : ℕ) (fields : List Bulk)
    (hf : (w.streams (D.replyStream (w.clients k).instanceId)).entries[(w.clients k).cursor]?=
      some fields) : Following D (examine D w k (w.clients k).cursor fields) := by
  have hkept := hw.kept.passed hf
  rcases examine_spec D w k (w.clients k).cursor fields with ⟨hx,hno⟩ | ⟨id,outcome,c,hr,hp,hx⟩
  · rw [hx]
    exact ⟨hkept,fun c => (hw.unread c).passed hf fun id outcome hr => hno id outcome hr c⟩
  · rw [hx]
    refine ⟨hkept.settle c outcome,fun c' => Unread.settle outcome hkept fun hne => ?_⟩
    refine (hw.unread c').passed hf fun id' outcome' hr' hp' => hne ?_
    rw [hr] at hr'
    cases hr'
    exact hi.pending_unique hp' hp

theorem following_step {a : Act} (hw : Following D w) (hi : Integrity D w)
    (h : World.orderlyStep D a w=some w') : Following D w' := by
  obtain ⟨hclosed,hcursor⟩ := orderlyStep_spec h
  obtain ⟨hstep,hforeign⟩ := closedStep_eq D a w w' hclosed
  have hg := step_grows D a w w' hstep
  cases step_stepped D a w w' hstep with
  | foreign key fields => exact (hforeign key fields rfl).elim
  | loop s service kind act ev w1 pc he hp =>
    obtain ⟨hcalls,hclients⟩ := loopEffect_calls D w w1 s service kind act ev he
    exact hw.idle hg hclients hcalls
  | call k service method params id d hfresh ht =>
    exact following_call hw hi k service method params id d hfresh
  | arrive c call hc =>
    refine hw.quiet hg rfl fun c' call' hc' => ?_
    by_cases hcc : c=c'
    · subst hcc
      simp only [List.getElem?_set_self (List.getElem?_eq_some_iff.mp hc).1] at hc'
      cases hc'
      exact ⟨call,hc,⟨rfl,fun _ ho => ho⟩,rfl⟩
    · simp only [List.getElem?_set_ne hcc] at hc'
      exact ⟨call',hc',.refl call',rfl⟩
  | giveUp c => exact ⟨hw.kept.settle c _,fun c' => Unread.settle _ hw.kept fun _ => hw.unread c'⟩
  | examine k i fields hf =>
    obtain rfl := hcursor k i rfl
    exact following_examine hw hi k fields hf
  | _ => exact hw.idle hg rfl rfl

/-- Nothing has happened, and every reply loop is at the beginning. -/
structure World.Fresh (w : World) : Prop where
  initial : w.Initial
  cursor : ∀ k, (w.clients k).cursor=0

theorem following_fresh (h : w.Fresh) : Following D w := by
  have hpending : ∀ k id c, (id,c)∉(w.clients k).pending := by
    intro k id c hp
    rw [h.initial.pending] at hp
    cases hp
  refine ⟨⟨fun k id c hp => (hpending k id c hp).elim,fun c call hc => ?_,fun k => ?_⟩,
    fun c k id hp => (hpending k id c hp).elim⟩
  · rw [h.initial.calls] at hc
    cases hc
  · rw [h.cursor]
    exact Nat.zero_le _

theorem orderly_closed (hw : Reachable World.Fresh (fun w w' => ∃ a, World.orderlyStep D a w=some w') w) :
    Reachable World.Initial (fun w w' => ∃ a, World.closedStep D a w=some w') w := by
  induction hw with
  | start h => exact .start h.initial
  | next _ hstep ih =>
    obtain ⟨a,ha⟩ := hstep
    exact ih.next ⟨a,(orderlyStep_spec ha).1⟩

theorem following_reachable
    (hw : Reachable World.Fresh (fun w w' => ∃ a, World.orderlyStep D a w=some w') w) :
    Following D w ∧ Integrity D w := by
  have hi := (integrity_reachable D w (orderly_closed hw)).1
  induction hw with
  | start h => exact ⟨following_fresh h,hi⟩
  | next hprev hstep ih =>
    obtain ⟨a,ha⟩ := hstep
    obtain ⟨hf,hi'⟩ := ih (integrity_reachable D _ (orderly_closed hprev)).1
    exact ⟨following_step hf hi' ha,hi⟩

/-! ### The reply reaches its call -/

/-- Settled with the content of a reply. -/
def Delivered (w : World) (c : ℕ) : Prop :=
  ∃ (call : Call) (o : Settlement), w.calls[c]?=some call ∧ call.settlement=some o ∧ o≠.failed

/-- The call is in flight, and entry `j` of its client's stream is a reply to it that the reply loop
has not passed. -/
structure Awaits (D : Deployment) (w : World) (c : ℕ) (call : Call) (j : ℕ) : Prop where
  made : w.calls[c]?=some call
  flight : call.settlement=none
  pending : (call.id,c)∈(w.clients call.client).pending
  cursor_le : (w.clients call.client).cursor ≤ j
  reply : ∃ fields outcome,
    (w.streams (D.replyStream (w.clients call.client).instanceId)).entries[j]?=some fields ∧
    replyOf D (w.clients call.client).lang fields=some (call.id,outcome)

theorem replyOf_ne_failed {lang : Lang} {fields : List Bulk} {id : String} {outcome : Settlement}
    (h : replyOf D lang fields=some (id,outcome)) : outcome≠.failed := by
  rintro rfl
  unfold replyOf at h
  split at h
  · split at h
    · cases h
    · split at h <;> cases h
  · split at h
    · cases h
    · split at h
      · cases h
      · split at h <;> cases h

/- One step of the reply loop settles the call or comes closer to its reply. -/
theorem Awaits.closer {c j : ℕ} {call : Call} (h : Awaits D w c call j) (hi : Integrity D w) :
    ∃ w', World.orderlyStep D (.examine call.client (w.clients call.client).cursor) w=some w' ∧
      (Delivered w' c ∨ Awaits D w' c call j ∧
        (w'.clients call.client).cursor=(w.clients call.client).cursor+1) := by
  obtain ⟨replied,outcome,hreplied,hr⟩ := h.reply
  have hlt := (List.getElem?_eq_some_iff.mp hreplied).1
  have hle := h.cursor_le
  obtain ⟨fields,hf⟩ : ∃ fields, (w.streams (D.replyStream
      (w.clients call.client).instanceId)).entries[(w.clients call.client).cursor]?=some fields :=
    ⟨_,List.getElem?_eq_getElem (by omega)⟩
  refine ⟨examine D w call.client (w.clients call.client).cursor fields,?_,?_⟩
  · simp only [World.orderlyStep,World.step,hf,Nat.le_refl,if_true]
  -- at its reply the call would be found
  have hahead : (∀ id outcome, replyOf D (w.clients call.client).lang fields=some (id,outcome) →
      (id,c)∉(w.clients call.client).pending) → (w.clients call.client).cursor+1 ≤ j := by
    intro hno
    rcases Nat.lt_or_eq_of_le hle with hlt | heq
    · exact hlt
    · rw [← heq,hf,Option.some.injEq] at hreplied
      subst hreplied
      exact (hno call.id outcome hr h.pending).elim
  rcases examine_spec D w call.client (w.clients call.client).cursor fields with
    ⟨hx,hno⟩ | ⟨id,found,c1,hr1,hp1,hx⟩
  · refine Or.inr ⟨?_,by rw [hx,passed_cursor,if_pos rfl]⟩
    rw [hx]
    refine ⟨h.made,h.flight,?_,?_,replied,outcome,?_,?_⟩
    · rw [passed_client]
      exact h.pending
    · rw [passed_cursor,if_pos rfl]
      exact hahead fun id outcome hr => hno id outcome hr c
    · rw [passed_client]
      exact hreplied
    · rw [passed_client]
      exact hr
  · by_cases hcc : c=c1
    · subst hcc
      have hsettled := settle_settles (w.passed call.client (w.clients call.client).cursor) c found call
        h.made h.flight
      rw [hx]
      exact Or.inl ⟨_,found,hsettled,rfl,replyOf_ne_failed hr1⟩
    · have hsteps := hahead fun id' outcome' hr' hp' => by
        rw [hr1] at hr'
        cases hr'
        exact hcc (hi.pending_unique hp' hp1)
      have hcursor : ((examine D w call.client (w.clients call.client).cursor fields).clients
          call.client).cursor=(w.clients call.client).cursor+1 := by
        rw [hx,settle_client]
        exact (passed_cursor w _ _ _).trans (if_pos rfl)
      refine Or.inr ⟨⟨?_,h.flight,?_,by rw [hcursor]; exact hsteps,replied,outcome,?_,?_⟩,hcursor⟩
      · rw [hx,settle_calls_of_ne _ _ _ _ hcc]
        exact h.made
      · rw [hx,settle_pending_of_ne _ _ _ _ hcc,passed_client]
        exact h.pending
      · rw [(examine_frame D w _ _ fields).1,hx,settle_client,passed_client]
        exact hreplied
      · rw [hx,settle_client,passed_client]
        exact hr

def Reads (k : ℕ) : Act → Prop
  | .examine k' _ => k'=k
  | _ => False

theorem Awaits.delivers {c j : ℕ} {call : Call} (n : ℕ) (h : Awaits D w c call j)
    (hn : j-(w.clients call.client).cursor ≤ n)
    (hw : Reachable World.Fresh (fun w w' => ∃ a, World.orderlyStep D a w=some w') w) :
    ∃ w', Leads (World.orderlyStep D) (Reads call.client) w w' ∧ Delivered w' c := by
  induction n generalizing w with
  | zero =>
    have hreads : Reads call.client (.examine call.client (w.clients call.client).cursor) := rfl
    obtain ⟨w1,hstep,hd | ⟨h1,hcursor⟩⟩ := h.closer (following_reachable hw).2
    · exact ⟨w1,Leads.single hreads hstep,hd⟩
    · have hle := h1.cursor_le
      omega
  | succ n ih =>
    have hreads : Reads call.client (.examine call.client (w.clients call.client).cursor) := rfl
    obtain ⟨w1,hstep,hd | ⟨h1,hcursor⟩⟩ := h.closer (following_reachable hw).2
    · exact ⟨w1,Leads.single hreads hstep,hd⟩
    · obtain ⟨w2,hleads,hd⟩ := ih h1 (by omega) (hw.next ⟨_,hstep⟩)
      exact ⟨w2,(Leads.single hreads hstep).trans hleads,hd⟩

/-! ### End to end -/

theorem requestFields_inj (d d' : Doc) (replyTo replyTo' : String)
    (h : D.requestFields d replyTo=D.requestFields d' replyTo') : d=d' := by
  simp only [Deployment.requestFields,List.cons.injEq,Deployment.json,Bulk.mk.injEq,
    Option.some.injEq] at h
  exact h.2.2.2.1.2.1

theorem says_unique {d : Doc} {key s s' : String} (h : d.Says key s) (h' : d.Says key s') : s=s' := by
  obtain ⟨fs,rfl,hm⟩ := h
  obtain ⟨fs',hfs,hm'⟩ := h'
  cases hfs
  rw [hm,Option.some.injEq,JsonTree.leaf.injEq,DocLeaf.str.injEq] at hm'
  exact hm'

def Call.fields (D : Deployment) (w : World) (call : Call) : List Bulk :=
  D.requestFields call.request (D.replyStream (w.clients call.client).instanceId)

/-- There is a reply, and a reply loop in the language can read it. -/
def Readable (D : Deployment) (lang : Lang) (reply : Option Reply) : Prop :=
  ∃ d, reply.bind Reply.text=some d ∧ (replyOf D lang (D.plainFields d)).isSome

/-- The call is in flight, and entry `i` of its service's stream is its request. The group waits for
that entry, every server decodes it, and the replies made to it so far are readable. -/
structure InFlight (D : Deployment) (w : World) (c i : ℕ) (call : Call) : Prop where
  made : w.calls[c]?=some call
  flight : call.settlement=none
  request : Holds D w call.service (i,call.fields D w)
  watched : (w.streams (D.commandStream call.service)).Watched i
  decoded : ∀ s, inspect (w.servers s).lang (call.fields D w)=
    .dispatch (some (D.replyStream (w.clients call.client).instanceId))
  replies : ∀ r∈w.completed, r.fields=call.fields D w →
    Readable D (w.clients call.client).lang r.reply

theorem orderly_step (hw : Reachable World.Initial (fun w w' => ∃ a, World.closedStep D a w=some w') w) :
    Reachable World.Initial (fun w w' => ∃ a, World.step D a w=some w') w := by
  induction hw with
  | start h => exact .start h
  | next _ hstep ih =>
    obtain ⟨a,ha⟩ := hstep
    exact ih.next ⟨a,(closedStep_eq D a _ _ ha).1⟩

theorem ownStep_orderly {s : ℕ} {service : String} {a : Act} (ha : OwnStep s service a)
    (h : World.step D a w=some w') : World.orderlyStep D a w=some w' := by
  cases a with
  | tick d => exact h
  | loop s' service' kind act => exact h
  | _ => exact ha.elim

/- Once the request is acknowledged, a reply to it awaits the reply loop. -/
theorem InFlight.awaits {c i : ℕ} {call : Call} {user : UserCode} (h : InFlight D w c i call)
    (hg : Grows w w') (hf : Following D w') (hi : Integrity D w') (hack : AckInvariant D w')
    (hr : Recovered D user w w') (hacked : (w'.streams (D.commandStream call.service)).Acked i)
    (hanswer : ∀ reply, dispatch user (call.fields D w)=some (.returned reply) →
      Readable D (w.clients call.client).lang reply) : ∃ j, Awaits D w' c call j := by
  have hmade : w'.calls[c]?=some call := by
    rw [hr.calls]
    exact h.made
  have hpending := hf.kept.flight c call hmade h.flight
  obtain ⟨fields,hholds,hackable⟩ := hack.acked call.service i hacked
  obtain rfl : call.fields D w=fields := by
    have hrequest : Holds D w' call.service (i,call.fields D w) := h.request.mono hg
    unfold Holds at hrequest hholds
    rw [hrequest,Option.some.injEq] at hholds
    exact hholds
  have hdecoded : ∀ s, inspect (w'.servers s).lang (call.fields D w)=
      .dispatch (some (D.replyStream (w.clients call.client).instanceId)) := by
    intro s
    rw [hg.lang]
    exact h.decoded s
  rcases hackable with ⟨s,_,hs⟩ | ⟨r,hmem,_,hservice,_,hfields,replyTo,hdispatched,hreplied⟩
  · rw [hdecoded s] at hs
    cases hs
  · dsimp only at hfields
    have hinspect := hdecoded r.server
    rw [← hfields] at hinspect
    have hreadable : Readable D (w.clients call.client).lang r.reply := by
      rcases hr.completed r hmem with hold | ⟨_,hdispatch⟩
      · exact h.replies r hold hfields
      · rw [hfields] at hdispatch
        exact hanswer r.reply hdispatch
    obtain ⟨d,htext,hsome⟩ := hreadable
    obtain ⟨answer,hreply,hd⟩ := Option.bind_eq_some_iff.mp htext
    rw [hinspect,Inspection.dispatch.injEq] at hdispatched
    obtain ⟨d',hd',hwritten⟩ := hreplied _ answer hdispatched.symm hreply
    rw [hd,Option.some.injEq] at hd'
    subst hd'
    obtain ⟨j,hj⟩ := List.mem_iff_getElem?.mp hwritten
    -- the reply carries the call's own id
    obtain ⟨c0,call0,_,ha⟩ := hi.answers r hmem _ _ hinspect
    have hid : d.Says "id" call.id := by
      obtain ⟨stream,hrequest⟩ := ha.request
      have hdoc := requestFields_inj _ _ _ _ (hfields.symm.trans hrequest)
      have hsays := (requestText_isRequest _ _ _ _ _ (hi.texts c call hmade)).says_id
      rw [hdoc] at hsays
      rw [says_unique hsays (requestText_isRequest _ _ _ _ _ ha.text).says_id]
      exact ha.says_id htext
    obtain ⟨⟨id,outcome⟩,hreplyOf⟩ := Option.isSome_iff_exists.mp hsome
    obtain ⟨rfl,_⟩ := replyOf_plainFields D _ d call.id id outcome hid hreplyOf
    rw [← hr.clients] at hj hreplyOf
    refine ⟨j,hmade,h.flight,hpending,?_,_,outcome,hj,hreplyOf⟩
    by_contra hlt
    exact hf.unread c call.client call.id hpending j (by omega) _ outcome hj hreplyOf

/-- From every world in which a call is in flight and a server with user code for its service runs,
time, the steps of that server and of the call's reply loop can lead to where the call has settled
with the content of a reply to its request. -/
theorem call_recovery (D : Deployment) (w : World)
    (hw : Reachable World.Fresh (fun w w' => ∃ a, World.orderlyStep D a w=some w') w) (c i : ℕ)
    (call : Call) (h : InFlight D w c i call) (s : ℕ) (user : UserCode) (hs : Serving D s user w)
    (hservice : user.service=call.service)
    (hanswer : ∀ reply, dispatch user (call.fields D w)=some (.returned reply) →
      Readable D (w.clients call.client).lang reply) :
    ∃ as w', (∀ a∈as, OwnStep s call.service a ∨ Reads call.client a) ∧
      run (World.orderlyStep D) as w=some w' ∧ ∃ call' r d o, w'.calls[c]?=some call' ∧
        call'.settlement=some o ∧ Answers D w' call' r ∧ r.text=some d ∧ Tells d o := by
  obtain ⟨w1,hleads1,hrec⟩ := hs.recovers (orderly_step (orderly_closed hw))
  obtain ⟨hgrows,hwatched⟩ : Grows w w1 ∧ ∀ key i, (w.streams key).Watched i →
      (w1.streams key).Watched i := by
    refine hleads1.invariant (I := fun v => Grows w v ∧ ∀ key i, (w.streams key).Watched i →
      (v.streams key).Watched i) ?_ ⟨Grows.refl w,fun _ _ hi => hi⟩
    intro a v v' _ hv hstep
    exact ⟨hv.1.trans (step_grows D a v v' hstep),fun key i hi => step_watched hstep key i (hv.2 key i hi)⟩
  have hleads : Leads (World.orderlyStep D) (fun a => OwnStep s call.service a ∨ Reads call.client a) w w1 := by
    refine hleads1.mono fun a v v' ha hstep => ?_
    rw [← hservice]
    exact ⟨Or.inl ha,ownStep_orderly ha hstep⟩
  have hw1 : Reachable World.Fresh (fun w w' => ∃ a, World.orderlyStep D a w=some w') w1 := by
    obtain ⟨as,_,hrun⟩ := hleads
    exact Reachable.run as w w1 hw hrun
  obtain ⟨hf,hi⟩ := following_reachable hw1
  have hacked : (w1.streams (D.commandStream call.service)).Acked i := by
    have hwatch := hwatched _ i h.watched
    rw [← hservice] at hwatch ⊢
    exact hrec.acked i hwatch
  obtain ⟨j,hawaits⟩ := h.awaits hgrows hf hi (integrity_reachable D w1 (orderly_closed hw1)).2 hrec
    hacked hanswer
  obtain ⟨w2,hleads2,call',o,hc,ho,hne⟩ := hawaits.delivers _ (Nat.le_refl _) hw1
  obtain ⟨as,has,hrun⟩ := hleads.trans (hleads2.mono fun a _ _ ha hstep => ⟨Or.inr ha,hstep⟩)
  have hi2 := (following_reachable (Reachable.run as w w2 hw hrun)).2
  obtain ⟨r,d,ha,hd,ht⟩ := hi2.settled c call' o hc ho hne
  exact ⟨as,w2,has,hrun,call',r,d,o,hc,ho,ha,hd,ht⟩

/-- The server that had the request in its hands has crashed, and the call is still answered. -/
theorem call_recovery_crash : ∃ w, run (World.orderlyStep clamator) crashRun (greeterWorld 4000)=some w ∧
    ∃ as w', (∀ a∈as, OwnStep 1 "greeter" a ∨ Reads 0 a) ∧
      run (World.orderlyStep clamator) as w=some w' ∧ ∃ call' r d o, w'.calls[0]?=some call' ∧
        call'.settlement=some o ∧ Answers clamator w' call' r ∧ r.text=some d ∧ Tells d o := by
  have hrun : (run (World.orderlyStep clamator) crashRun (greeterWorld 4000)).isSome := rfl
  have hfresh : (greeterWorld 4000).Fresh := ⟨greeterWorld_initial 4000,fun _ => rfl⟩
  have hw := Reachable.run _ _ _ (.start hfresh) (Option.some_get hrun).symm
  have hentries : ∀ fields∈(((run (World.orderlyStep clamator) crashRun (greeterWorld 4000)).get
      hrun).streams "clamator:cmds:greeter").entries,
      Handled clamator "greeter" (.ts greeterEntry) fields := by
    intro fields hf
    obtain rfl : fields=_ := List.mem_singleton.mp hf
    refine Or.inr ⟨some "clamator:replies:client",rfl,by decide,_,rfl,?_⟩
    intro reply _ hreply
    cases hreply
    rfl
  have hlead : Leads (World.orderlyStep clamator) (fun _ => True) (greeterWorld 4000)
      ((run (World.orderlyStep clamator) crashRun (greeterWorld 4000)).get hrun) :=
    ⟨crashRun,fun _ _ => trivial,(Option.some_get hrun).symm⟩
  have hgrows := hlead.invariant (I := fun v => Grows (greeterWorld 4000) v) (fun a v v' _ hv hstep =>
    hv.trans (step_grows _ a v v' (closedStep_eq _ a v v' (orderlyStep_spec hstep).1).1)) (Grows.refl _)
  refine ⟨_,(Option.some_get hrun).symm,call_recovery clamator _ hw 0 0
    ⟨0,"greeter","greet",.js (.obj []),.obj [("jsonrpc",.leaf (.str "2.0")),
      ("method",.leaf (.str "greeter.greet")),("params",.obj []),("id",.leaf (.str "id-1"))],
      "id-1",true,none⟩ ?_ 1 (.ts greeterEntry)
    ⟨rfl,rfl,fun kind => by cases kind <;> exact Pc.noConfusion,hentries⟩ rfl ?_⟩
  · refine ⟨rfl,rfl,rfl,⟨Nat.zero_lt_one,_,rfl,Nat.le_refl 0⟩,fun s => ?_,fun r hr => by cases hr⟩
    rw [hgrows.lang]
    rfl
  · intro reply hreply
    cases hreply
    exact ⟨_,rfl,rfl⟩

end Clamator.Redis
