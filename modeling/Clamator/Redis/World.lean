import Clamator.Base.Stream
import Clamator.Redis.ServerLoop
import Clamator.Protocol.ClientCore

/-!
# A deployment (`over-redis`)

Any number of servers and clients of either language on one key prefix, and the
Redis streams between them. `World.step` is one step of one party: a command of
Redis together with what its caller does up to its next await. A command can
succeed, fail, or take effect and fail for its caller. The entries of a stream
are all that was ever added to it: no MAXLEN trims a reply stream here, and no
stopped client deletes its own. A reader may skip any of them.
-/

namespace Clamator.Redis
open Clamator.Base Clamator.Protocol
open Clamator.Base.JsonTree (member)

/-- The key prefix, the text of a document, and the conversions `String(id)` and
`str(id)`, which take a string to itself. -/
structure Deployment where
  keyPrefix : String
  render : Doc → String
  jsText : JsVal → String
  jsText_str : ∀ s, jsText (Js.str s)=s
  pyText : PyVal → String
  pyText_str : ∀ s, pyText (Py.str s)=s

/-! ### Keys and fields -/

def Deployment.commandStream (D : Deployment) (service : String) : String :=
  D.keyPrefix++":cmds:"++service

def Deployment.replyStream (D : Deployment) (instanceId : String) : String :=
  D.keyPrefix++":replies:"++instanceId

theorem Deployment.commandStream_inj (D : Deployment) (a b : String)
    (h : D.commandStream a=D.commandStream b) : a=b := (String.append_right_inj _).mp h

def word (s : String) : Bulk := ⟨s,none,true⟩

def Deployment.json (D : Deployment) (d : Doc) : Bulk := ⟨D.render d,some d,true⟩

def Deployment.requestFields (D : Deployment) (d : Doc) (replyTo : String) : List Bulk :=
  [word "type",word "rpc",word "envelope",D.json d,word "reply-to",word replyTo]

/-- A notification has no reply-to. A reply has the same two fields. -/
def Deployment.plainFields (D : Deployment) (d : Doc) : List Bulk :=
  [word "type",word "rpc",word "envelope",D.json d]

/-! ### Parties -/

structure Server where
  lang : Lang
  services : List String
  claimIdleMs : ℕ
  stopping : Bool
  loops : String → LoopKind → Pc

/-- `pending` takes the id of a call in flight to the call. -/
structure Client where
  lang : Lang
  instanceId : String
  cursor : ℕ
  pending : List (String × ℕ)

inductive Params where
  | js (v : JsVal)
  | py (v : PyVal)

/-- How a call settled: with the content of a reply, or with an error of its own
(timeout, XADD failure, stop). -/
inductive Settlement where
  | js (o : CallOutcome JsVal)
  | py (o : CallOutcome PyVal)
  | failed

/-- A call, the envelope it sends, and whether its XADD has taken effect. -/
structure Call where
  client : ℕ
  service : String
  method : String
  params : Params
  request : Doc
  id : String
  sent : Bool
  settlement : Option Settlement

structure Completed where
  server : ℕ
  service : String
  index : ℕ
  fields : List Bulk
  user : UserCode
  reply : Option Reply

/-- `starts` lists the entries on which a dispatcher was called, in that order. -/
structure World where
  now : ℕ
  streams : String → Stream (List Bulk)
  servers : ℕ → Server
  clients : ℕ → Client
  calls : List Call
  completed : List Completed
  starts : List (String × ℕ)

namespace World

def setStream (w : World) (key : String) (s : Stream (List Bulk)) : World :=
  { w with streams := fun key' => if key'=key then s else w.streams key' }

def setServer (w : World) (s : ℕ) (server : Server) : World :=
  { w with servers := fun s' => if s'=s then server else w.servers s' }

def setClient (w : World) (k : ℕ) (client : Client) : World :=
  { w with clients := fun k' => if k'=k then client else w.clients k' }

end World

def Server.setLoop (server : Server) (service : String) (kind : LoopKind) (pc : Pc) : Server :=
  { server with loops := fun service' kind' =>
      if service'=service ∧ kind'=kind then pc else server.loops service' kind' }

/-! ### Steps -/

inductive Fate where
  | ok
  | failed
  /-- The command takes effect and its caller gets an error. -/
  | lost
  deriving DecidableEq

inductive LoopAct where
  | wake
  | read (fate : Fate)
  | enter
  | settle (user : UserCode)
  | reply (fate : Fate)
  | ack (fate : Fate)

inductive Act where
  | tick (d : ℕ)
  /-- An XADD by anyone. -/
  | foreign (key : String) (fields : List Bulk)
  | start (s : ℕ) (service : String) (fate : Fate)
  | stop (s : ℕ)
  /-- A loop of a stopping server ends at an await. -/
  | halt (s : ℕ) (service : String) (kind : LoopKind)
  | crash (s : ℕ)
  | loop (s : ℕ) (service : String) (kind : LoopKind) (act : LoopAct)
  | call (k : ℕ) (service method : String) (params : Params) (id : String)
  /-- The XADD of a request takes effect. -/
  | arrive (c : ℕ)
  /-- Timeout, error of the XADD, or stop. -/
  | giveUp (c : ℕ)
  | notify (k : ℕ) (service method : String) (params : Params)
  /-- The reply loop examines an entry. -/
  | examine (k i : ℕ)

def requestText (service method : String) (id : String) : Params → Option Doc
  | .js v => match callEnvelope service method v id with
    | .ok env => (Reply.js env).text
    | .error _ => none
  | .py v => match pyCallEnvelope service method v id with
    | .ok env => (Reply.py env).text
    | .error _ => none

def notifyText (service method : String) : Params → Option Doc
  | .js v => if serviceRe service.toList && methodRe method.toList then
      (Reply.js (buildNotification (service++"."++method) v)).text else none
  | .py v => if serviceReMatch service.toList && methodReMatch method.toList then
      (Reply.py (pyBuildNotification (service++"."++method) v)).text else none

def Params.lang : Params → Lang
  | .js _ => .ts
  | .py _ => .py

/-- The effect of a loop's await on the rest of the world, and what the loop gets of it. -/
def loopEffect (D : Deployment) (w : World) (s : ℕ) (service : String) (kind : LoopKind)
    (act : LoopAct) : Option (LoopEv × World) :=
  let server := w.servers s
  let key := D.commandStream service
  let stream := w.streams key
  match act,server.loops service kind with
  | .wake,.sleep => some (.wake,w)
  | .read .failed,.poll => some (.readThrew,w)
  | .read fate,.poll =>
    let (items,stream) := match kind with
      | .consumer => (stream.readItems 16,stream.xreadgroup w.now 16)
      | .reclaim => (stream.claimItems w.now server.claimIdleMs 32,
          stream.xautoclaim w.now server.claimIdleMs 32)
    some (if fate=.ok then .got items else .readThrew,w.setStream key stream)
  | .enter,.handle .start cur _ => some (.enter w.now,match inspect server.lang cur.2 with
    | .dispatch _ => { w with starts := w.starts++[(service,cur.1)] }
    | _ => w)
  | .settle user,.handle (.dispatch _) cur _ =>
    if user.lang=server.lang ∧ user.service=service then
      (dispatch user cur.2).map fun out => (.settled out,match out with
        | .returned answer =>
          { w with completed := w.completed++[⟨s,service,cur.1,cur.2,user,answer⟩] }
        | _ => w)
    else none
  | .reply fate,.handle (.reply replyTo envelope) _ _ => some (.replied (decide (fate=.ok)),
    if fate=.failed then w
    else w.setStream replyTo ((w.streams replyTo).xadd (D.plainFields envelope)))
  | .ack fate,.handle .ack cur _ => some (.acked (decide (fate=.ok)),
    if fate=.failed then w else w.setStream key (stream.xack cur.1))
  | _,_ => none

def stepLoop (D : Deployment) (w : World) (s : ℕ) (service : String) (kind : LoopKind)
    (act : LoopAct) : Option World :=
  (loopEffect D w s service kind act).bind fun (ev,w') =>
    let server := w.servers s
    (Loop.step server.lang kind server.stopping ev (server.loops service kind)).map fun pc =>
      w'.setServer s (server.setLoop service kind pc)

/-- The value and the id that the reply loop takes out of an entry; `none` where it
skips the entry or throws on it. -/
def replyOf (D : Deployment) (lang : Lang) (fields : List Bulk) : Option (String × Settlement) :=
  match lang with
  | .ts => match (fieldAfter fields "envelope").join with
    | none => none
    | some value => match value.doc.bind jsonParse with
      | none => none
      | some Js.null => none
      | some (.obj fs) => some (D.jsText ((member fs "id").getD Js.undefined),.js (callOutcome (.obj fs)))
      | some v => some (D.jsText Js.undefined,.js (callOutcome v))
  | .py => match getField fields "envelope" with
    | none => none
    | some value => if !value.utf8 then none else match value.doc.bind jsonLoads with
      | some (.obj fs) => some (D.pyText ((member fs "id").getD Py.null),.py (pyCallOutcome (.obj fs)))
      | _ => none

/-- A call in flight settles and leaves the pending map; a settled call keeps its outcome. -/
def settle (w : World) (c : ℕ) (outcome : Settlement) : World := match w.calls[c]? with
  | none => w
  | some call =>
    let client := w.clients call.client
    let w := w.setClient call.client { client with pending := client.pending.filter (·.2 != c) }
    match call.settlement with
    | some _ => w
    | none => { w with calls := w.calls.set c { call with settlement := some outcome } }

def examine (D : Deployment) (w : World) (k i : ℕ) (fields : List Bulk) : World :=
  let client := w.clients k
  let w := w.setClient k { client with cursor := i+1 }
  match replyOf D client.lang fields with
  | none => w
  | some (id,outcome) => match client.pending.lookup id with
    | none => w
    | some c => settle w c outcome

def World.step (D : Deployment) (a : Act) (w : World) : Option World := match a with
  | .tick d => some { w with now := w.now+d }
  | .foreign key fields => some (w.setStream key ((w.streams key).xadd fields))
  | .start s service fate =>
    let server := w.servers s
    let key := D.commandStream service
    match server.loops service .consumer,server.loops service .reclaim with
    | .exited,.exited =>
      if service∈server.services ∧ server.stopping=false then match fate with
        | .failed => some w
        | .lost => some (w.setStream key (w.streams key).xgroupCreate)
        | .ok => some ((w.setStream key (w.streams key).xgroupCreate).setServer s
            ((server.setLoop service .consumer .poll).setLoop service .reclaim .sleep))
      else none
    | _,_ => none
  | .stop s => some (w.setServer s { w.servers s with stopping := true })
  | .halt s service kind =>
    if (w.servers s).stopping then
      some (w.setServer s ((w.servers s).setLoop service kind .exited))
    else none
  | .crash s =>
    some (w.setServer s { w.servers s with stopping := true,loops := fun _ _ => .exited })
  | .loop s service kind act => stepLoop D w s service kind act
  | .call k service method params id =>
    let client := w.clients k
    if params.lang=client.lang ∧ ∀ c∈w.calls, c.id≠id then
      (requestText service method id params).map fun d =>
        { w.setClient k { client with pending := (id,w.calls.length)::client.pending } with
          calls := w.calls++[⟨k,service,method,params,d,id,false,none⟩] }
    else none
  | .arrive c => match w.calls[c]? with
    | none => none
    | some call =>
      if call.sent then none
      else
        let key := D.commandStream call.service
        let fields := D.requestFields call.request (D.replyStream (w.clients call.client).instanceId)
        some { w.setStream key ((w.streams key).xadd fields) with
          calls := w.calls.set c { call with sent := true } }
  | .giveUp c => some (settle w c .failed)
  | .notify k service method params =>
    if params.lang=(w.clients k).lang then (notifyText service method params).map fun d =>
      w.setStream (D.commandStream service)
        ((w.streams (D.commandStream service)).xadd (D.plainFields d))
    else none
  | .examine k i => match (w.streams (D.replyStream (w.clients k).instanceId)).entries[i]? with
    | none => none
    | some fields => if (w.clients k).cursor ≤ i then some (examine D w k i fields) else none

structure World.Initial (w : World) : Prop where
  streams : w.streams=fun _ => .empty
  loops : ∀ s service kind, (w.servers s).loops service kind=.exited
  pending : ∀ k, (w.clients k).pending=[]
  calls : w.calls=[]
  completed : w.completed=[]
  starts : w.starts=[]

/-- Key prefix `clamator`; every text is empty but those of strings. -/
def clamator : Deployment where
  keyPrefix := "clamator"
  render := fun _ => ""
  jsText := fun | Js.str s => s | _ => ""
  jsText_str := fun _ => rfl
  pyText := fun | Py.str s => s | _ => ""
  pyText_str := fun _ => rfl

def greeterWorld (claimIdleMs : ℕ) : World where
  now := 0
  streams := fun _ => .empty
  servers := fun _ => ⟨.ts,["greeter"],claimIdleMs,false,fun _ _ => .exited⟩
  clients := fun _ => ⟨.ts,"client",0,[]⟩
  calls := []
  completed := []
  starts := []

def greeterEntry : ServiceEntry :=
  ⟨⟨"greeter",[("greet",⟨.ok,some (some .ok),false⟩)],rfl,rfl⟩,
    fun _ => some fun _ => .resolved (Js.str "hello"),fun _ => true⟩

theorem greeterWorld_initial (claimIdleMs : ℕ) : (greeterWorld claimIdleMs).Initial :=
  ⟨rfl,fun _ _ _ => rfl,fun _ => rfl,rfl,rfl,rfl⟩

end Clamator.Redis
