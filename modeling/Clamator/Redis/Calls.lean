import Clamator.Redis.History
import Clamator.Protocol.Correlation

/-!
# Calls and their replies (`client-transport.ts`, `client_transport.py`)

What the reply loop and a call's own end do to the calls of a deployment, and what
a server and a client read from the fields that the other side has added.
-/

namespace Clamator.Redis
open Clamator.Base Clamator.Protocol
open Clamator.Base.JsonTree (member)

/-! ### The pending map -/

theorem settle_calls_of_ne (w : World) (c c' : ℕ) (outcome : Settlement) (h : c'≠c) :
    (settle w c outcome).calls[c']?=w.calls[c']? := by
  unfold settle
  split
  · rfl
  · dsimp only
    split
    · rfl
    · exact List.getElem?_set_ne h.symm

theorem settle_pending_of_ne (w : World) (c c' : ℕ) (outcome : Settlement) (h : c'≠c) (k : ℕ)
    (id : String) : (id,c')∈((settle w c outcome).clients k).pending ↔ (id,c')∈(w.clients k).pending := by
  unfold settle
  split
  · rfl
  · rename_i call _
    have hclient : (id,c')∈((w.setClient call.client { w.clients call.client with
        pending := (w.clients call.client).pending.filter (·.2 != c) }).clients k).pending ↔
          (id,c')∈(w.clients k).pending := by
      simp only [World.setClient]
      split
      · rename_i hk
        rw [hk]
        simp [h]
      · rfl
    dsimp only
    split <;> exact hclient

/- Of the clients, only their pending maps. -/
theorem settle_client (w : World) (c : ℕ) (outcome : Settlement) (k : ℕ) :
    (settle w c outcome).clients k=
      { w.clients k with pending := ((settle w c outcome).clients k).pending } := by
  have hclient : ∀ (w1 : World) (k1 : ℕ) (pending : List (String × ℕ)),
      (w1.setClient k1 { w1.clients k1 with pending := pending }).clients k={ w1.clients k with pending :=
        ((w1.setClient k1 { w1.clients k1 with pending := pending }).clients k).pending } := by
    intro w1 k1 pending
    simp only [World.setClient]
    split
    · rename_i hk
      rw [hk]
    · rfl
  unfold settle
  split
  · rfl
  · dsimp only
    split <;> exact hclient w _ _

theorem settle_calls_self (w : World) (c : ℕ) (outcome : Settlement) (call' : Call)
    (h : (settle w c outcome).calls[c]?=some call') : ∃ call, w.calls[c]?=some call ∧
      call'={ call with settlement := call'.settlement } ∧
      (call'.settlement=call.settlement ∨ call'.settlement=some outcome) := by
  unfold settle at h
  split at h
  · rename_i hc
    rw [hc] at h
    cases h
  · rename_i call hc
    dsimp only at h
    split at h
    · refine ⟨call,hc,?_⟩
      have hcall : w.calls[c]?=some call' := h
      rw [hc] at hcall
      cases hcall
      exact ⟨rfl,Or.inl rfl⟩
    · have hlt := (List.getElem?_eq_some_iff.mp hc).1
      have hset : (w.calls.set c { call with settlement := some outcome })[c]?=some call' := h
      simp only [List.getElem?_set_self hlt,Option.some.injEq] at hset
      subst hset
      exact ⟨call,hc,rfl,Or.inr rfl⟩

theorem settle_pending (w : World) (c : ℕ) (outcome : Settlement) (k : ℕ) (id : String) (c' : ℕ)
    (h : (id,c')∈((settle w c outcome).clients k).pending) : (id,c')∈(w.clients k).pending := by
  by_cases hc : c'=c
  · subst hc
    unfold settle at h
    split at h
    · exact h
    · rename_i call _
      dsimp only at h
      have hclient : (id,c')∈((w.setClient call.client { w.clients call.client with
          pending := (w.clients call.client).pending.filter (·.2 != c') }).clients k).pending := by
        split at h <;> exact h
      simp only [World.setClient] at hclient
      split at hclient
      · rename_i hk
        rw [hk]
        exact (List.mem_filter.mp hclient).1
      · exact hclient
  · exact (settle_pending_of_ne w c c' outcome hc k id).mp h

/- The reply loop moves on from an entry, or settles the call that it finds under the
entry's id. -/
theorem examine_cases (D : Deployment) (w : World) (k i : ℕ) (fields : List Bulk) :
    ∃ w1, w1.calls=w.calls ∧ (∀ k', (w1.clients k').pending=(w.clients k').pending) ∧
      (examine D w k i fields=w1 ∨ ∃ id outcome c,
        replyOf D (w.clients k).lang fields=some (id,outcome) ∧ (id,c)∈(w.clients k).pending ∧
        examine D w k i fields=settle w1 c outcome) := by
  refine ⟨w.setClient k { w.clients k with cursor := i+1 },rfl,fun k' => ?_,?_⟩
  · simp only [World.setClient]
    split
    · rename_i hk
      rw [hk]
    · rfl
  · unfold examine
    dsimp only
    split
    · exact Or.inl rfl
    · rename_i id outcome hr
      split
      · exact Or.inl rfl
      · rename_i c hc
        exact Or.inr ⟨id,outcome,c,hr,Assoc.mem_of_lookup hc,rfl⟩

/-! ### The fields of a reply -/

def Tells (d : Doc) : Settlement → Prop
  | .js o => ∃ v, jsonParse d=some v ∧ o=callOutcome v
  | .py o => ∃ v, jsonLoads d=some v ∧ o=pyCallOutcome v
  | .failed => False

theorem fieldAfter_plainFields (D : Deployment) (d : Doc) :
    fieldAfter (D.plainFields d) "envelope"=some (some (D.json d)) := rfl

theorem getField_plainFields (D : Deployment) (d : Doc) (value : Bulk)
    (h : getField (D.plainFields d) "envelope"=some value) : value=D.json d := by
  have hl : (fieldPairs (D.plainFields d)).lookup "envelope"=some (D.json d) := rfl
  rw [getField,hl] at h
  exact (Option.some.inj (Option.filter_eq_some_iff.mp h).1).symm

theorem replyOf_plainFields (D : Deployment) (lang : Lang) (d : Doc) (id id' : String)
    (outcome : Settlement) (hd : d.Says "id" id)
    (h : replyOf D lang (D.plainFields d)=some (id',outcome)) : id'=id ∧ Tells d outcome := by
  obtain ⟨fs,rfl,hm⟩ := hd
  cases lang with
  | ts =>
    have hdoc : (D.json (.obj fs)).doc.bind jsonParse=jsonParse (.obj fs) := rfl
    simp only [replyOf,fieldAfter_plainFields,Option.join_some,hdoc] at h
    cases hp : jsonParse (.obj fs) with
    | none => simp [hp] at h
    | some v =>
      obtain ⟨gs,rfl,hg⟩ := parse_agrees (.obj fs) v hp fs rfl
      have hid := hg "id" id ⟨fs,rfl,hm⟩
      simp only [hp,hid,Option.getD_some,D.jsText_str,Option.some.injEq,Prod.mk.injEq] at h
      rw [← h.2]
      exact ⟨h.1.symm,_,hp,rfl⟩
  | py =>
    simp only [replyOf] at h
    cases hf : getField (D.plainFields (.obj fs)) "envelope" with
    | none => simp [hf] at h
    | some value =>
      have hvalue := getField_plainFields D (.obj fs) value hf
      subst hvalue
      have hdoc : (D.json (.obj fs)).doc.bind jsonLoads=jsonLoads (.obj fs) := rfl
      have hutf : (D.json (.obj fs)).utf8=true := rfl
      simp only [hf,hutf,hdoc,Bool.not_true,Bool.false_eq_true,if_false] at h
      cases hv : jsonLoads (.obj fs) with
      | none => simp [hv] at h
      | some v =>
        obtain ⟨gs,rfl,hg⟩ := loads_agrees fs v hv
        have hid := hg "id" id ⟨fs,rfl,hm⟩
        simp only [hv,hid,Option.getD_some,D.pyText_str,Option.some.injEq,Prod.mk.injEq] at h
        rw [← h.2]
        exact ⟨h.1.symm,_,hv,rfl⟩

theorem inspect_plainFields (D : Deployment) (lang : Lang) (d : Doc) (replyTo : String) :
    inspect lang (D.plainFields d)≠.dispatch (some replyTo) := by
  cases lang with
  | ts =>
    have hr : ((fieldAfter (D.plainFields d) "reply-to").join)=none := by
      by_cases hd : D.render d="reply-to"
      · simp [fieldAfter,Deployment.plainFields,word,Deployment.json,List.findIdx?_cons,hd]
      · simp [fieldAfter,Deployment.plainFields,word,Deployment.json,List.findIdx?_cons,hd]
    intro h
    obtain ⟨env,henv⟩ := Reading.inspection_dispatch h
    obtain ⟨_,_,_,_,_,hreply⟩ := readEntry_decoded henv
    rw [hr] at hreply
    cases hreply
  | py =>
    intro h
    obtain ⟨env,henv⟩ := Reading.inspection_dispatch h
    obtain ⟨_,_,_,_,_,hreply⟩ := pyReadEntry_decoded henv
    cases hreply

/-! ### The fields of a request -/

theorem requestText_isRequest (service method id : String) (params : Params) (d : Doc)
    (h : requestText service method id params=some d) : d.IsRequest service method id := by
  unfold requestText at h
  split at h
  · split at h
    · rename_i he
      simp only [Reply.text] at h
      split at h
      · rename_i hd
        cases h
        exact callEnvelope_isRequest _ _ _ _ _ _ he hd
      · cases h
    · cases h
  · split at h
    · rename_i he
      exact pyCallEnvelope_isRequest _ _ _ _ _ _ he h
    · cases h

theorem readEntry_requestFields (D : Deployment) (d : Doc) (stream : String) (env : Envelope JsVal)
    (replyTo : Option String) (h : readEntry (D.requestFields d stream)=.decoded env replyTo) :
    readEnvelope d=.ok env := by
  obtain ⟨value,d',hf,hdoc,he,_⟩ := readEntry_decoded h
  cases hf
  cases hdoc
  exact he

theorem pyReadEntry_requestFields (D : Deployment) (d : Doc) (stream : String) (env : Envelope PyVal)
    (replyTo : Option String) (h : pyReadEntry (D.requestFields d stream)=.decoded env replyTo) :
    pyReadEnvelope d=.ok env := by
  obtain ⟨value,d',hf,hdoc,he,_⟩ := pyReadEntry_decoded h
  have hl : (fieldPairs (D.requestFields d stream)).lookup "envelope"=some (D.json d) := rfl
  rw [getField,hl] at hf
  cases Option.some.inj (Option.filter_eq_some_iff.mp hf).1
  cases hdoc
  exact he

def DispatchOf (service method id : String) (fields : List Bulk) : UserCode → Settled Reply → Prop
  | .ts entry,out => ∃ params replyTo, readEntry fields=.decoded (.request service method
      (service++"."++method) params (Js.str id)) replyTo ∧
      out=Settled.map .js (dispatchCall entry method params (some (Js.str id))).settled
  | .py entry,out => ∃ params replyTo, pyReadEntry fields=.decoded (.request service method
      (service++"."++method) params (Py.str id)) replyTo ∧
      out=Settled.map .py (pyDispatchCall entry method params (some (Py.str id))).settled

theorem dispatch_requestFields (D : Deployment) (user : UserCode) (d : Doc)
    (service method id stream : String) (hd : d.IsRequest service method id) (out : Settled Reply)
    (h : dispatch user (D.requestFields d stream)=some out) :
    DispatchOf service method id (D.requestFields d stream) user out := by
  cases user with
  | ts entry =>
    simp only [dispatch] at h
    split at h
    · rename_i env replyTo hread
      obtain ⟨params,rfl⟩ := readEnvelope_isRequest d service method id hd env
        (readEntry_requestFields D d stream env replyTo hread)
      exact ⟨params,replyTo,hread,(Option.some.inj h).symm⟩
    · cases h
  | py entry =>
    simp only [dispatch] at h
    split at h
    · rename_i env replyTo hread
      obtain ⟨params,rfl⟩ := pyReadEnvelope_isRequest d service method id hd env
        (pyReadEntry_requestFields D d stream env replyTo hread)
      exact ⟨params,replyTo,hread,(Option.some.inj h).symm⟩
    · cases h

theorem dispatchOf_agrees (service method id : String) (fields : List Bulk) (user : UserCode)
    (answer : Reply) (d : Doc) (h : DispatchOf service method id fields user (.returned (some answer)))
    (hd : answer.text=some d) : d.Says "id" id := by
  cases user with
  | ts entry =>
    obtain ⟨params,_,_,ho⟩ := h
    cases hs : (dispatchCall entry method params (some (Js.str id))).settled with
    | returned reply =>
      rw [hs] at ho
      cases reply with
      | none => cases ho
      | some reply =>
        cases ho
        simp only [Reply.text] at hd
        split at hd
        · rename_i hk
          cases hd
          exact stringify_response_agrees id reply _ (dispatchCall_isResponse _ _ _ _ _ hs) hk
        · cases hd
    | rejected =>
      rw [hs] at ho
      cases ho
    | cancelled =>
      rw [hs] at ho
      cases ho
  | py entry =>
    obtain ⟨params,_,_,ho⟩ := h
    cases hs : (pyDispatchCall entry method params (some (Py.str id))).settled with
    | returned reply =>
      rw [hs] at ho
      cases reply with
      | none => cases ho
      | some reply =>
        cases ho
        exact dumps_response_agrees id reply d (pyDispatchCall_isResponse _ _ _ _ _ hs) hd
    | rejected =>
      rw [hs] at ho
      cases ho
    | cancelled =>
      rw [hs] at ho
      cases ho

/-! ### Calls from step to step -/

inductive CallSource (D : Deployment) (w : World) (c : ℕ) (call' : Call) : Prop
  | old (call : Call) : w.calls[c]?=some call → call.Later call' →
    call'.settlement=call.settlement → CallSource D w c call'
  | new : c=w.calls.length → (∀ call∈w.calls, call.id≠call'.id) → call'.settlement=none →
    requestText call'.service call'.method call'.id call'.params=some call'.request →
    CallSource D w c call'
  | failed (call : Call) : w.calls[c]?=some call → call.Later call' →
    call'.settlement=some .failed → CallSource D w c call'
  | replied (call : Call) (k i : ℕ) (fields : List Bulk) (id : String) (outcome : Settlement) :
    w.calls[c]?=some call → call.Later call' → call'.settlement=some outcome →
    (w.streams (D.replyStream (w.clients k).instanceId)).entries[i]?=some fields →
    replyOf D (w.clients k).lang fields=some (id,outcome) → (id,c)∈(w.clients k).pending →
    CallSource D w c call'

theorem callSource_same (D : Deployment) (w w' : World) (h : w'.calls=w.calls) (c : ℕ) (call' : Call)
    (hc : w'.calls[c]?=some call') : CallSource D w c call' := by
  rw [h] at hc
  exact .old call' hc (.refl call') rfl

theorem settle_source (w : World) (c c' : ℕ) (outcome : Settlement) (call' : Call)
    (h : (settle w c outcome).calls[c']?=some call') : ∃ call, w.calls[c']?=some call ∧
      call.Later call' ∧ (call'.settlement=call.settlement ∨ c'=c ∧ call'.settlement=some outcome) := by
  have hlater : ∀ call, w.calls[c']?=some call → call.Later call' := by
    intro call hc
    obtain ⟨call1,hc1,hl⟩ := (grows_settle w c outcome).calls c' call hc
    rw [h] at hc1
    cases hc1
    exact hl
  by_cases hcc : c'=c
  · subst hcc
    obtain ⟨call,hc,_,hs⟩ := settle_calls_self w c' outcome call' h
    exact ⟨call,hc,hlater call hc,hs.imp_right fun h => ⟨rfl,h⟩⟩
  · rw [settle_calls_of_ne w c c' outcome hcc] at h
    exact ⟨call',h,hlater call' h,Or.inl rfl⟩

theorem loopEffect_calls (D : Deployment) (w w' : World) (s : ℕ) (service : String)
    (kind : LoopKind) (act : LoopAct) (ev : LoopEv)
    (h : loopEffect D w s service kind act=some (ev,w')) :
    w'.calls=w.calls ∧ w'.clients=w.clients := by
  generalize hpc : (w.servers s).loops service kind=pc
  cases loopEffect_effected hpc h <;> exact ⟨rfl,rfl⟩

theorem step_calls (D : Deployment) (a : Act) (w w' : World) (h : World.step D a w=some w') (c : ℕ)
    (call' : Call) (hc : w'.calls[c]?=some call') : CallSource D w c call' := by
  cases step_stepped D a w w' h with
  | loop s service kind act ev w1 pc he hp =>
    exact callSource_same D w _ (loopEffect_calls D w w1 s service kind act ev he).1 c call' hc
  | call k service method params id d hfresh ht =>
    simp only at hc
    by_cases hlt : c < w.calls.length
    · rw [List.getElem?_append_left hlt] at hc
      exact .old call' hc (.refl call') rfl
    · have hlen := (List.getElem?_eq_some_iff.mp hc).1
      rw [List.length_append,List.length_singleton] at hlen
      have hcc : c=w.calls.length := by omega
      subst hcc
      rw [List.getElem?_concat_length] at hc
      cases hc
      exact .new rfl hfresh rfl ht
  | arrive c1 call1 hc1 =>
    simp only at hc
    by_cases hcc : c1=c
    · subst hcc
      rw [List.getElem?_set_self (List.getElem?_eq_some_iff.mp hc1).1] at hc
      cases hc
      exact .old call1 hc1 ⟨rfl,fun _ h => h⟩ rfl
    · rw [List.getElem?_set_ne hcc] at hc
      exact .old call' hc (.refl call') rfl
  | giveUp c1 =>
    obtain ⟨call,hcall,hl,hs | ⟨_,hs⟩⟩ := settle_source w c1 c .failed call' hc
    · exact .old call hcall hl hs
    · exact .failed call hcall hl hs
  | examine k i fields hf =>
    obtain ⟨w1,hcalls,_,hx | ⟨id,outcome,c1,hr,hp,hx⟩⟩ := examine_cases D w k i fields
    · rw [hx,hcalls] at hc
      exact .old call' hc (.refl call') rfl
    · rw [hx] at hc
      obtain ⟨call,hcall,hl,hs | ⟨rfl,hs⟩⟩ := settle_source w1 c1 c outcome call' hc
      · rw [hcalls] at hcall
        exact .old call hcall hl hs
      · rw [hcalls] at hcall
        exact .replied call k i fields id outcome hcall hl hs hf hr hp
  | _ => exact callSource_same D w _ rfl c call' hc

theorem step_pending (D : Deployment) (a : Act) (w w' : World) (h : World.step D a w=some w') (k : ℕ)
    (id : String) (c : ℕ) (hp : (id,c)∈(w'.clients k).pending) :
    (id,c)∈(w.clients k).pending ∨ ∃ call', w'.calls[c]?=some call' ∧ call'.id=id := by
  cases step_stepped D a w w' h with
  | loop s service kind act ev w1 pc he hp' =>
    have hclients := (loopEffect_calls D w w1 s service kind act ev he).2
    simp only [World.setServer,hclients] at hp
    exact Or.inl hp
  | call k1 service method params id1 d hfresh ht =>
    simp only [World.setClient] at hp
    split at hp
    · rename_i hk
      subst hk
      rcases List.mem_cons.mp hp with hp | hp
      · cases hp
        exact Or.inr ⟨_,List.getElem?_concat_length,rfl⟩
      · exact Or.inl hp
    · exact Or.inl hp
  | giveUp c1 => exact Or.inl (settle_pending w c1 .failed k id c hp)
  | examine k1 i fields hf =>
    obtain ⟨w1,_,hpending,hx | ⟨id1,outcome,c1,_,_,hx⟩⟩ := examine_cases D w k1 i fields
    · rw [hx,hpending] at hp
      exact Or.inl hp
    · rw [hx] at hp
      have hp1 := settle_pending w1 c1 outcome k id c hp
      rw [hpending] at hp1
      exact Or.inl hp1
  | _ => exact Or.inl hp

end Clamator.Redis
