import Clamator.Client.Bookkeeping
import Clamator.Redis.RoundTrip
import Clamator.Base.Reach

/-!
# The reply loop (`client-transport.ts`, `client_transport.py`, `runReplyLoop`, `_reply_loop`)

The loop reads what the reply stream has behind its cursor and examines the entries one
by one. The cursor moves first; an exception drops the rest of the batch, which the
next XREAD returns again. The rest of the client changes the pending calls between
batches in any way.
-/

namespace Clamator.Client
open Clamator.Base Clamator.Protocol Clamator.Redis
open Clamator.Base.JsonTree (member)

/-- What the loop makes of an entry: it goes on, an exception ends the batch, or there is a
reply to an id. -/
inductive Examined where
  | skip
  | raise
  | reply (key : String) (v : Reply)

def jsReadReply (T : Texts) (fields : List Bulk) : Examined := match fieldAfter fields "envelope" with
  | none => .skip
  | some value => match (value.bind Bulk.doc).bind jsonParse with
    | none => .skip
    | some v => match replyKey T v with
      | none => .raise
      | some key => .reply key (.js v)

def pyReadReply (D : Deployment) (fields : List Bulk) : Examined := match getField fields "envelope" with
  | none => .skip
  | some value =>
    if !value.utf8 then .raise
    else match value.doc.bind jsonLoads with
      | none => .skip
      | some (.obj fs) => .reply (D.pyText ((member fs "id").getD Py.null)) (.py (.obj fs))
      | some _ => .raise

def readReply (D : Deployment) (T : Texts) (fields : List Bulk) : Lang → Examined
  | .ts => jsReadReply T fields
  | .py => pyReadReply D fields

def Examined.settlement : Examined → Option (String × Settlement)
  | .reply key (.js v) => some (key,.js (callOutcome v))
  | .reply key (.py v) => some (key,.py (pyCallOutcome v))
  | _ => none

/- Where `String` never throws, this is the examination that the deployment's clients do. -/
theorem replyOf_readReply (D : Deployment) (T : Texts) (hT : ∀ v, T.text v=some (D.jsText v))
    (lang : Lang) (fields : List Bulk) :
    replyOf D lang fields=(readReply D T fields lang).settlement := by
  cases lang with
  | ts =>
    simp only [replyOf,readReply,jsReadReply]
    cases hf : fieldAfter fields "envelope" with
    | none => rfl
    | some value =>
      cases value with
      | none => rfl
      | some value =>
        cases hv : value.doc.bind jsonParse with
        | none => simp [hv,Examined.settlement]
        | some v =>
          simp only [Option.join_some,Option.bind_some,hv]
          cases v with
          | obj fs => simp only [replyKey,hT,Examined.settlement]
          | arr xs => simp only [replyKey,hT,Examined.settlement]
          | leaf a => cases a <;> simp only [replyKey,hT,Examined.settlement]
  | py =>
    simp only [replyOf,readReply,pyReadReply]
    cases hf : getField fields "envelope" with
    | none => rfl
    | some value =>
      dsimp only
      split
      · rfl
      · cases hv : value.doc.bind jsonLoads with
        | none => rfl
        | some v => cases v <;> rfl

/-- `stream` are the entries added so far; those before `cursor` have ids up to `lastId`. An
entry of `batch` stands with its position. -/
structure ReplyLoop where
  stream : List (List Bulk)
  cursor : ℕ
  batch : List (List Bulk × ℕ)
  asleep : Bool
  examined : List ℕ
  calls : Calls String Reply

inductive ReplyAct where
  | append (fields : List Bulk)
  | read (ok : Bool)
  | examine
  | wake
  /-- Sends, timeouts, whatever else changes the pending calls. -/
  | client (calls : Calls String Reply)

namespace ReplyLoop

def Begun (w : ReplyLoop) : Prop := w.cursor=0 ∧ w.batch=[] ∧ w.examined=[]

def examineEntry (D : Deployment) (T : Texts) (lang : Lang) (fields : List Bulk) (i : ℕ)
    (rest : List (List Bulk × ℕ)) (w : ReplyLoop) : ReplyLoop :=
  let w := { w with cursor := i+1,examined := w.examined++[i] }
  match readReply D T fields lang with
  | .skip => { w with batch := rest }
  | .raise => { w with batch := [],asleep := true }
  | .reply key v => { w with batch := rest,calls := w.calls.finish key v }

def step (D : Deployment) (T : Texts) (lang : Lang) (a : ReplyAct) (w : ReplyLoop) : Option ReplyLoop :=
  match a with
  | .append fields => some { w with stream := w.stream++[fields] }
  | .read ok => match w.asleep,w.batch with
    | false,[] => some (if ok then { w with batch := w.stream.zipIdx.drop w.cursor }
        else { w with asleep := true })
    | _,_ => none
  | .examine => match w.batch with
    | [] => none
    | (fields,i)::rest => some (w.examineEntry D T lang fields i rest)
  | .wake => some { w with asleep := false }
  | .client calls => if w.batch=[] then some { w with calls := calls } else none

variable {D : Deployment} {T : Texts} {lang : Lang}

/-- Examined is what lies before the cursor; the batch is what comes next. -/
structure Ordered (w : ReplyLoop) : Prop where
  examined : w.examined=List.range w.cursor
  cursor : w.cursor ≤ w.stream.length
  batch : w.batch <+: w.stream.zipIdx.drop w.cursor

theorem Begun.ordered {w : ReplyLoop} (h : w.Begun) : w.Ordered := by
  obtain ⟨hc,hb,he⟩ := h
  refine ⟨?_,?_,?_⟩
  · rw [he,hc]
    rfl
  · omega
  · rw [hb]
    exact List.nil_prefix

theorem Ordered.head {w : ReplyLoop} (h : w.Ordered) (fields : List Bulk) (i : ℕ)
    (rest : List (List Bulk × ℕ)) (hb : w.batch=(fields,i)::rest) :
    i=w.cursor ∧ w.stream[w.cursor]?=some fields ∧ rest <+: w.stream.zipIdx.drop (w.cursor+1) := by
  have hp := h.batch
  rw [hb] at hp
  obtain ⟨more,hmore⟩ := hp
  have hget : w.stream.zipIdx[w.cursor]?=some (fields,i) := by
    have hhead := congrArg List.head? hmore
    rw [List.head?_drop] at hhead
    exact hhead.symm
  have htail : w.stream.zipIdx.drop (w.cursor+1)=rest++more := by
    have ht := congrArg List.tail hmore
    rw [List.tail_drop] at ht
    exact ht.symm
  rw [List.getElem?_zipIdx] at hget
  obtain ⟨fields',hf,heq⟩ := Option.map_eq_some_iff.mp hget
  cases heq
  refine ⟨by omega,hf,?_⟩
  rw [htail]
  exact List.prefix_append rest more

theorem examineEntry_cursor (D : Deployment) (T : Texts) (lang : Lang) (w : ReplyLoop)
    (fields : List Bulk) (i : ℕ) (rest : List (List Bulk × ℕ)) :
    (w.examineEntry D T lang fields i rest).cursor=i+1 ∧
    (w.examineEntry D T lang fields i rest).examined=w.examined++[i] ∧
    (w.examineEntry D T lang fields i rest).stream=w.stream ∧
    ((w.examineEntry D T lang fields i rest).batch=rest ∨
      (w.examineEntry D T lang fields i rest).batch=[]) := by
  unfold examineEntry
  dsimp only
  split
  · exact ⟨rfl,rfl,rfl,Or.inl rfl⟩
  · exact ⟨rfl,rfl,rfl,Or.inr rfl⟩
  · exact ⟨rfl,rfl,rfl,Or.inl rfl⟩

theorem zipIdx_grows (stream : List (List Bulk)) (fields : List Bulk) (n : ℕ) :
    stream.zipIdx.drop n <+: (stream++[fields]).zipIdx.drop n := by
  rw [List.zipIdx_append,List.drop_append]
  exact List.prefix_append _ _

theorem Ordered.step {a : ReplyAct} {w w' : ReplyLoop} (h : w.Ordered)
    (hstep : step D T lang a w=some w') : w'.Ordered := by
  cases a with
  | append fields =>
    cases hstep
    refine ⟨h.examined,?_,h.batch.trans (zipIdx_grows w.stream fields w.cursor)⟩
    have hc := h.cursor
    simp only [List.length_append,List.length_singleton]
    omega
  | read ok =>
    simp only [ReplyLoop.step] at hstep
    split at hstep
    · rename_i hb
      cases hstep
      cases ok with
      | true => exact ⟨h.examined,h.cursor,List.prefix_refl _⟩
      | false => exact ⟨h.examined,h.cursor,h.batch⟩
    · cases hstep
  | examine =>
    simp only [ReplyLoop.step] at hstep
    split at hstep
    · cases hstep
    · rename_i fields i rest hb
      cases hstep
      obtain ⟨rfl,hget,hrest⟩ := h.head fields i rest hb
      obtain ⟨hc,he,hs,hbatch⟩ := examineEntry_cursor D T lang w fields w.cursor rest
      refine ⟨?_,?_,?_⟩
      · rw [hc,he,h.examined,List.range_succ]
      · rw [hc,hs]
        exact (List.getElem?_eq_some_iff.mp hget).1
      · rw [hc,hs]
        rcases hbatch with hbatch | hbatch
        · rw [hbatch]
          exact hrest
        · rw [hbatch]
          exact List.nil_prefix
  | wake =>
    cases hstep
    exact ⟨h.examined,h.cursor,h.batch⟩
  | client calls =>
    simp only [ReplyLoop.step] at hstep
    split at hstep <;> cases hstep
    exact ⟨h.examined,h.cursor,h.batch⟩

/-! ### Every entry is reached -/

/-- The entries examined, and the one in hand. -/
def reached (w : ReplyLoop) : ℕ := w.cursor+if w.batch=[] then 0 else 1

def isRead : ReplyAct → Bool
  | .read true => true
  | _ => false

def reads (acts : List ReplyAct) : ℕ := acts.countP isRead

/- An XREAD that returns puts one more entry in hand, where there is one. -/
theorem Ordered.reached_step {a : ReplyAct} {w w' : ReplyLoop} (h : w.Ordered)
    (hstep : ReplyLoop.step D T lang a w=some w') : w.stream.length ≤ w'.stream.length ∧
      (w.stream.length ≤ w'.reached ∨ w.reached+(if isRead a then 1 else 0) ≤ w'.reached) := by
  cases a with
  | append fields =>
    cases hstep
    refine ⟨by simp,Or.inr (le_refl _)⟩
  | read ok =>
    simp only [ReplyLoop.step] at hstep
    split at hstep
    · rename_i hb
      cases hstep
      cases ok with
      | false => exact ⟨le_refl _,Or.inr (le_refl _)⟩
      | true =>
        refine ⟨le_refl _,?_⟩
        by_cases hlt : w.cursor < w.stream.length
        · have hne : w.stream.zipIdx.drop w.cursor≠[] := by
            intro hnil
            have hlen := congrArg List.length hnil
            simp only [List.length_drop,List.length_zipIdx,List.length_nil] at hlen
            omega
          refine Or.inr ?_
          simp [reached,hb,isRead,hne]
        · refine Or.inl ?_
          simp only [reached,if_true]
          omega
    · cases hstep
  | examine =>
    simp only [ReplyLoop.step] at hstep
    split at hstep
    · cases hstep
    · rename_i fields i rest hb
      cases hstep
      obtain ⟨rfl,_,_⟩ := h.head fields i rest hb
      obtain ⟨hc,_,hs,_⟩ := examineEntry_cursor D T lang w fields w.cursor rest
      refine ⟨by rw [hs],Or.inr ?_⟩
      simp only [reached,hc,hb,isRead,reduceCtorEq,if_false]
      omega
  | wake =>
    cases hstep
    exact ⟨le_refl _,Or.inr (le_refl _)⟩
  | client calls =>
    simp only [ReplyLoop.step] at hstep
    split at hstep <;> cases hstep
    exact ⟨le_refl _,Or.inr (le_refl _)⟩

theorem Ordered.run {acts : List ReplyAct} {w w' : ReplyLoop} (h : w.Ordered)
    (hrun : Clamator.Base.run (ReplyLoop.step D T lang) acts w=some w') (n : ℕ)
    (hn : n ≤ w.stream.length) :
    w'.Ordered ∧ (n ≤ w'.reached ∨ w.reached+reads acts ≤ w'.reached) := by
  induction acts generalizing w with
  | nil =>
    cases hrun
    exact ⟨h,Or.inr (le_refl _)⟩
  | cons a acts ih =>
    obtain ⟨u,hu,hrun⟩ := Option.bind_eq_some_iff.mp hrun
    obtain ⟨hlen,hr⟩ := h.reached_step hu
    obtain ⟨hw',hi⟩ := ih (h.step hu) hrun (hn.trans hlen)
    have hcount : reads (a::acts)=reads acts+if isRead a then 1 else 0 := List.countP_cons
    refine ⟨hw',?_⟩
    rw [hcount]
    rcases hi with hi | hi
    · exact Or.inl hi
    · rcases hr with hr | hr
      · exact Or.inl (by omega)
      · exact Or.inr (by omega)

theorem Ordered.drains {acts : List ReplyAct} {w w' : ReplyLoop} (h : w.Ordered)
    (hrun : Clamator.Base.run (ReplyLoop.step D T lang) acts w=some w') (hb : w'.batch=[])
    (hreads : w.stream.length ≤ w.cursor+reads acts) :
    ∀ i, i < w.stream.length → i∈w'.examined := by
  intro i hi
  obtain ⟨hw',hr⟩ := h.run hrun w.stream.length (le_refl _)
  have hcursor : w'.reached=w'.cursor := by
    simp [reached,hb]
  have hstart : w.cursor ≤ w.reached := by
    simp [reached]
  rw [hw'.examined,List.mem_range]
  rcases hr with hr | hr <;> omega

/-! ### What a reply does -/

/-- The text of an object with an id, as the language reads it. -/
def IsReplyText (D : Deployment) (T : Texts) (d : Doc) (key : String) : Lang → Reply → Prop
  | .ts,v => ∃ fs, jsonParse d=some (.obj fs) ∧ T.text ((member fs "id").getD Js.undefined)=some key ∧
    v=.js (.obj fs)
  | .py,v => ∃ fs, jsonLoads d=some (.obj fs) ∧ D.pyText ((member fs "id").getD Py.null)=key ∧ v=.py (.obj fs)

theorem jsonLoads_obj (d : Doc) (fs : List (String × PyVal)) (h : jsonLoads d=some (.obj fs)) :
    ∃ gs, d=.obj gs := by
  have hd := (jsonLoads_eq_some d _ h).2
  cases d with
  | obj gs => exact ⟨gs,rfl⟩
  | leaf a => cases hd
  | arr xs => cases hd

theorem readReply_plainFields (hD : D.PrintsObjects) (d : Doc) (key : String) (v : Reply)
    (h : IsReplyText D T d key lang v) : readReply D T (D.plainFields d) lang=.reply key v := by
  cases lang with
  | ts =>
    obtain ⟨fs,hd,hkey,rfl⟩ := h
    have hdoc : ((some (D.json d)).bind Bulk.doc).bind jsonParse=some (.obj fs) := hd
    have hreply : replyKey T (.obj fs)=some key := hkey
    simp only [readReply,jsReadReply,fieldAfter_plainFields,hdoc,hreply]
  | py =>
    obtain ⟨fs,hd,hkey,rfl⟩ := h
    obtain ⟨gs,rfl⟩ := jsonLoads_obj d fs hd
    have hrender := hD.ne gs "" (by decide)
    have hfield : getField (D.plainFields (.obj gs)) "envelope"=some (D.json (.obj gs)) :=
      getField_lookup _ _ _ rfl hrender
    have hdoc : (D.json (.obj gs)).doc.bind jsonLoads=some (.obj fs) := hd
    have hutf : (D.json (.obj gs)).utf8=true := rfl
    simp only [readReply,pyReadReply,hfield,hutf,hdoc,hkey,Bool.not_true,Bool.false_eq_true,if_false]

theorem examine_completes (w : ReplyLoop) (fields : List Bulk) (i : ℕ) (rest : List (List Bulk × ℕ))
    (key : String) (v : Reply) (hr : readReply D T fields lang=.reply key v) (n : ℕ)
    (s : Slot String Reply) (hl : w.calls.pending.lookup key=some n) (hs : w.calls.slots[n]?=some s) :
    (w.examineEntry D T lang fields i rest).calls.slots[n]?=some (s.close v) := by
  have hcalls : (w.examineEntry D T lang fields i rest).calls=w.calls.retire n key v := by
    simp only [examineEntry,hr,Calls.finish,hl]
  rw [hcalls]
  exact Calls.modify_self (w.calls.remove key) n _ s hs

/-- The reply loop of either client, in every state of every run: what lies before the cursor
has been examined once and in order; the next examination is of the entry at the cursor, and
a reply whose id is pending completes its call; and the entries there are get examined once
XREAD has returned as often. -/
theorem reply_loop (D : Deployment) (hD : D.PrintsObjects) (T : Texts) (lang : Lang) (w : ReplyLoop)
    (h : Reachable Begun (fun w w' => ∃ a, ReplyLoop.step D T lang a w=some w') w) :
    w.examined=List.range w.cursor ∧ w.cursor ≤ w.stream.length ∧
    (∀ w', ReplyLoop.step D T lang .examine w=some w' → ∃ fields, w.stream[w.cursor]?=some fields ∧
      w'.cursor=w.cursor+1 ∧ w'.examined=w.examined++[w.cursor] ∧
      ∀ d key v n s, fields=D.plainFields d → IsReplyText D T d key lang v →
        w.calls.pending.lookup key=some n → w.calls.slots[n]?=some s → s.outcome=none →
          ∃ s', w'.calls.slots[n]?=some s' ∧ s'.outcome=some v) ∧
    ∀ acts w', run (ReplyLoop.step D T lang) acts w=some w' → w'.batch=[] →
      w.stream.length ≤ w.cursor+reads acts → ∀ i, i < w.stream.length → i∈w'.examined := by
  have ho : w.Ordered := Reachable.invariant (I := Ordered) (fun w hw => hw.ordered)
    (fun w w' hw ⟨a,hstep⟩ => hw.step hstep) h
  refine ⟨ho.examined,ho.cursor,fun w' hstep => ?_,fun acts w' hrun hb hreads => ho.drains hrun hb hreads⟩
  simp only [ReplyLoop.step] at hstep
  split at hstep
  · cases hstep
  · rename_i fields i rest hb
    cases hstep
    obtain ⟨rfl,hget,_⟩ := ho.head fields i rest hb
    obtain ⟨hc,he,_,_⟩ := examineEntry_cursor D T lang w fields w.cursor rest
    refine ⟨fields,hget,hc,he,fun d key v n s hf ht hl hs hwait => ?_⟩
    subst hf
    have hr := readReply_plainFields hD d key v ht
    refine ⟨_,examine_completes w _ _ rest key v hr n s hl hs,?_⟩
    simp [Slot.close,hwait]

end ReplyLoop

def nullReply (id : String) : Doc :=
  .obj [("jsonrpc",.leaf (.str "2.0")),("id",.leaf (.str id)),("result",.leaf .null)]

def nullText : Doc → String
  | .leaf .null => "null"
  | .obj [("jsonrpc",_),("id",.leaf (.str id)),("result",.leaf .null)] =>
    "\x7b\"jsonrpc\":\"2.0\",\"id\":\""++id++"\",\"result\":null\x7d"
  | _ => "\x7b\x7d"

def nullDeployment : Deployment := { clamator with render := nullText }

theorem nullDeployment_prints : nullDeployment.PrintsObjects := by
  intro fs
  change (nullText (.obj fs)).toList.head?=some '\x7b'
  unfold nullText
  split
  · rename_i h
    cases h
  · simp only [String.toList_append]
    rfl
  · rfl

def abortedLoop : ReplyLoop :=
  ⟨[nullDeployment.plainFields (.leaf .null),nullDeployment.plainFields (nullReply "1")],0,[],false,[],
    Calls.empty.insert "1"⟩

theorem reply_loop_aborted : ∃ (w w' : ReplyLoop) (s : Slot String Reply),
    run (ReplyLoop.step nullDeployment plainTexts .ts) [.read true,.examine,.wake,.read true] abortedLoop=
      some w ∧ ReplyLoop.step nullDeployment plainTexts .ts .examine w=some w' ∧ w.examined=[0] ∧
      w'.calls.slots[0]?=some s ∧ s.outcome=some (.js (.obj [("jsonrpc",Js.str "2.0"),("id",Js.str "1"),
        ("result",Js.null)])) := by
  have hrun : (run (ReplyLoop.step nullDeployment plainTexts .ts) [.read true,.examine,.wake,.read true]
    abortedLoop).isSome := rfl
  have hbegun : abortedLoop.Begun := ⟨rfl,rfl,rfl⟩
  have hreach := Reachable.run _ _ _ (.start hbegun) (Option.some_get hrun).symm
  have h := ReplyLoop.reply_loop nullDeployment nullDeployment_prints plainTexts .ts _ hreach
  obtain ⟨fields,hget,_,_,hcompletes⟩ := h.2.2.1 _ rfl
  have hfields : fields=nullDeployment.plainFields (nullReply "1") := (Option.some.inj hget).symm
  obtain ⟨s,hs,hout⟩ := hcompletes (nullReply "1") "1" _ 0 ⟨"1",none,true⟩ hfields ⟨_,rfl,rfl,rfl⟩ rfl rfl rfl
  exact ⟨_,_,s,(Option.some_get hrun).symm,rfl,rfl,hs,hout⟩

end Clamator.Client
