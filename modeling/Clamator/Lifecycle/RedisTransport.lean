import Clamator.Lifecycle.Core
import Clamator.Redis.ServerLoop

/-!
# The Redis transport's start and stop (`over-redis`, `ServerRedisTransport`)

The transport counts as started before the first XGROUP CREATE. Where one of them
throws, the loops of the services before it run on, and neither a second start nor a
stop of the core comes back to them.
-/

namespace Clamator.Lifecycle
open Clamator.Base
open Clamator.Redis (LoopKind)

/-- `dispatchers` are the keys of a map, `loops` the loops that run. -/
structure ServerRedisTransport where
  state : LifeState
  dispatchers : List String
  loops : List (String × LoopKind)

/-- For a start, the services whose XGROUP CREATE fails with anything but BUSYGROUP; for
a stop, the loops that outlast its grace period. -/
structure RedisFaults where
  createFails : String → Bool
  outlives : String × LoopKind → Bool

def startLoops (createFails : String → Bool) : List String → List (String × LoopKind) →
    List (String × LoopKind) × Outcome
  | [],loops => (loops,.returned)
  | service::services,loops =>
    if createFails service then (loops,.threw)
    else startLoops createFails services (loops++[(service,.consumer),(service,.reclaim)])

namespace ServerRedisTransport

def registerService (name : String) (t : ServerRedisTransport) : ServerRedisTransport × Outcome :=
  ({ t with dispatchers := if name∈t.dispatchers then t.dispatchers else t.dispatchers++[name] },
    .returned)

def start (e : RedisFaults) (t : ServerRedisTransport) : ServerRedisTransport × Outcome :=
  match t.state with
  | .stopped => (t,.threw)
  | .started => (t,.returned)
  | .idle =>
    let (loops,outcome) := startLoops e.createFails t.dispatchers t.loops
    ({ t with state := .started,loops := loops },outcome)

def stop (e : RedisFaults) (t : ServerRedisTransport) : ServerRedisTransport := match t.state with
  | .started => { t with state := .stopped,loops := t.loops.filter e.outlives }
  | _ => { t with state := .stopped }

end ServerRedisTransport

def redisTransport : Transport ServerRedisTransport RedisFaults Unit where
  registerService := ServerRedisTransport.registerService
  start := ServerRedisTransport.start
  stop := ServerRedisTransport.stop
  meanwhile := fun _ t => t

/-- One consumer loop and one reclaim loop; no loop at all. -/
def redisView : View ServerRedisTransport where
  Serving := fun name t => t.loops.count (name,.consumer)=1 ∧ t.loops.count (name,.reclaim)=1
  Silent := fun t => t.loops=[]

def newRedisServer (services : List String) (nodup : services.Nodup) :
    RpcServerCore ServerRedisTransport := ⟨services,nodup,.idle,⟨.idle,[],[]⟩⟩

/-- An idle server is started with an idle transport, and no XGROUP CREATE fails but
possibly the first; a started server is stopped when every loop ends in time. -/
def RedisClean : Call RedisFaults Unit → RpcServerCore ServerRedisTransport → Prop
  | .start e,core => core.state=.idle → core.transport.state=.idle ∧
    ((∀ name∈core.services, e.createFails name=false) ∨ core.services.head?.any e.createFails=true)
  | .stop e,core => core.state=.started → ∀ loop∈core.transport.loops, e.outlives loop=false
  | .meanwhile _,_ => True

/-! ### The loops of a start -/

def loopsOf (services : List String) : List (String × LoopKind) :=
  services.flatMap fun service => [(service,.consumer),(service,.reclaim)]

theorem startLoops_returned (createFails : String → Bool) (services : List String)
    (loops : List (String × LoopKind)) (h : ∀ name∈services, createFails name=false) :
    startLoops createFails services loops=(loops++loopsOf services,.returned) := by
  induction services generalizing loops with
  | nil => simp [startLoops,loopsOf]
  | cons service services ih =>
    have hs := h service List.mem_cons_self
    rw [startLoops,hs,if_neg Bool.false_ne_true,ih _ fun name hn => h name (List.mem_cons_of_mem _ hn)]
    simp [loopsOf]

theorem startLoops_prefix (createFails : String → Bool) (services : List String)
    (loops : List (String × LoopKind)) : loops<+:(startLoops createFails services loops).1 := by
  induction services generalizing loops with
  | nil => exact List.prefix_refl _
  | cons service services ih =>
    rw [startLoops]
    split
    · exact List.prefix_refl _
    · exact (List.prefix_append _ _).trans (ih _)

theorem startLoops_threw (createFails : String → Bool) (services : List String)
    (loops : List (String × LoopKind)) (h : ¬∀ name∈services, createFails name=false) :
    (startLoops createFails services loops).2=.threw := by
  induction services generalizing loops with
  | nil => simp at h
  | cons service services ih =>
    rw [startLoops]
    split
    · rfl
    · rename_i hs
      refine ih _ fun hall => h fun name hn => ?_
      rcases List.mem_cons.mp hn with rfl | hn
      · simpa using hs
      · exact hall name hn

/- A start that throws leaves no loop exactly when the first service fails. -/
theorem startLoops_failed (createFails : String → Bool) (services : List String)
    (h : ¬∀ name∈services, createFails name=false) :
    ∃ loops, startLoops createFails services []=(loops,.threw) ∧
      (loops=[] ↔ services.head?.any createFails=true) := by
  refine ⟨(startLoops createFails services []).1,
    Prod.ext rfl (startLoops_threw createFails services [] h),?_⟩
  cases services with
  | nil => simp at h
  | cons service services =>
    simp only [startLoops,List.head?_cons,Option.any_some]
    cases hs : createFails service with
    | true => simp
    | false =>
      have hp := startLoops_prefix createFails services [(service,.consumer),(service,.reclaim)]
      simp only [Bool.false_eq_true,if_false,iff_false,List.nil_append]
      intro hnil
      rw [hnil] at hp
      simpa using hp.length_le

theorem count_loopsOf (services : List String) (name : String) (kind : LoopKind) :
    (loopsOf services).count (name,kind)=services.count name := by
  induction services with
  | nil => rfl
  | cons service services ih =>
    have hcons : loopsOf (service::services)=
        (service,.consumer)::(service,.reclaim)::loopsOf services := rfl
    rw [hcons]
    by_cases hname : service=name
    · subst hname
      cases kind <;> simp [ih]
    · cases kind <;> simp [ih,hname]

theorem serving_loopsOf (services : List String) (nodup : services.Nodup) (name : String)
    (h : name∈services) (kind : LoopKind) : (loopsOf services).count (name,kind)=1 := by
  rw [count_loopsOf,nodup.count,if_pos h]

/-! ### The registrations of a start -/

theorem registerAll_fresh (names done : List String) (nodup : (done++names).Nodup)
    (t : ServerRedisTransport) (h : t.dispatchers=done) :
    registerAll redisTransport names t=({ t with dispatchers := done++names },.returned) := by
  induction names generalizing done t with
  | nil =>
    subst h
    simp [registerAll]
  | cons name names ih =>
    have hsplit : done++name::names=(done++[name])++names := by simp
    have hfresh : name∉t.dispatchers := by
      intro hmem
      rw [h] at hmem
      exact (List.nodup_append.mp nodup).2.2 name hmem name List.mem_cons_self rfl
    rw [hsplit] at nodup ⊢
    simp only [registerAll,redisTransport,ServerRedisTransport.registerService,if_neg hfresh]
    exact ih (done++[name]) nodup _ (by rw [h])

theorem registerAll_again (names : List String) (t : ServerRedisTransport)
    (h : ∀ name∈names, name∈t.dispatchers) : registerAll redisTransport names t=(t,.returned) := by
  induction names with
  | nil => rfl
  | cons name names ih =>
    simp only [registerAll,redisTransport,ServerRedisTransport.registerService,
      if_pos (h name List.mem_cons_self)]
    exact ih fun n hn => h n (List.mem_cons_of_mem _ hn)

theorem registerAll_services (services : List String) (nodup : services.Nodup)
    (t : ServerRedisTransport) (h : t.dispatchers=[] ∨ t.dispatchers=services) :
    registerAll redisTransport services t=({ t with dispatchers := services },.returned) := by
  rcases h with h | h
  · exact registerAll_fresh services [] nodup t h
  · rw [registerAll_again services t fun name hn => by rw [h]; exact hn]
    subst h
    rfl

/-! ### Every call -/

/-- What clean calls keep. An idle core with a started transport is left by a start whose
first XGROUP CREATE failed. -/
def Kept (core : RpcServerCore ServerRedisTransport) : Prop := match core.state with
  | .idle => core.transport.loops=[] ∧
    (core.transport.dispatchers=[] ∨ core.transport.dispatchers=core.services) ∧
    (core.transport.state=.idle ∨ core.transport.state=.started ∧ core.services≠[])
  | .started => core.transport.state=.started ∧ core.transport.loops=loopsOf core.services
  | .stopped => core.transport.loops=[]

theorem start_idle (e : RedisFaults) (core : RpcServerCore ServerRedisTransport)
    (hkept : Kept core) (hidle : core.state=.idle) (htransport : core.transport.state=.idle) :
    core.start redisTransport e=match startLoops e.createFails core.services [] with
      | (loops,.returned) =>
        ({ core with transport := ⟨.started,core.services,loops⟩,state := .started },.returned)
      | (loops,.threw) => ({ core with transport := ⟨.started,core.services,loops⟩ },.threw) := by
  simp only [Kept,hidle] at hkept
  obtain ⟨hloops,hdispatchers,-⟩ := hkept
  simp only [RpcServerCore.start,hidle,registerAll_services _ core.nodup _ hdispatchers]
  simp only [redisTransport,ServerRedisTransport.start,htransport,hloops]
  rcases startLoops e.createFails core.services [] with ⟨loops,_ | _⟩ <;> rfl

/- A second start after one that threw: it returns at once. -/
theorem start_again (e : RedisFaults) (core : RpcServerCore ServerRedisTransport)
    (hkept : Kept core) (hidle : core.state=.idle) (htransport : core.transport.state≠.idle) :
    core.start redisTransport e=
      ({ core with transport := ⟨.started,core.services,[]⟩,state := .started },.returned) := by
  simp only [Kept,hidle] at hkept
  obtain ⟨hloops,hdispatchers,hstate⟩ := hkept
  have hstarted := (hstate.resolve_left htransport).1
  simp only [RpcServerCore.start,hidle,registerAll_services _ core.nodup _ hdispatchers]
  simp only [redisTransport,ServerRedisTransport.start,hstarted,hloops]

theorem redis_start_sound_iff (e : RedisFaults) (core : RpcServerCore ServerRedisTransport)
    (hkept : Kept core) :
    Sound redisTransport redisView (.start e) core ↔ RedisClean (.start e) core := by
  cases hstate : core.state with
  | started =>
    simp only [Kept,hstate] at hkept
    have hserving : ∀ name∈core.services, redisView.Serving name core.transport := by
      intro name hname
      simp only [redisView,hkept.2]
      exact ⟨serving_loopsOf _ core.nodup name hname _,serving_loopsOf _ core.nodup name hname _⟩
    simpa [Sound,RedisClean,RpcServerCore.start,hstate] using hserving
  | stopped =>
    simp only [Kept,hstate] at hkept
    simp [Sound,RedisClean,RpcServerCore.start,hstate,redisView,hkept]
  | idle =>
    by_cases htransport : core.transport.state=.idle
    · simp only [Sound,RedisClean,hstate,htransport,start_idle e core hkept hstate htransport,
        true_imp_iff,true_and]
      by_cases hall : ∀ name∈core.services, e.createFails name=false
      · simp only [startLoops_returned _ _ _ hall,List.nil_append,redisView]
        refine iff_of_true (fun name hname => ?_) (.inl hall)
        exact ⟨serving_loopsOf _ core.nodup name hname _,serving_loopsOf _ core.nodup name hname _⟩
      · obtain ⟨loops,hloops,hnil⟩ := startLoops_failed e.createFails core.services hall
        simp [hloops,redisView,hall,hnil]
    · simp only [Sound,RedisClean,start_again e core hkept hstate htransport,htransport,hstate,
        false_and,redisView,List.count_nil]
      simp only [Kept,hstate] at hkept
      have hne := (hkept.2.2.resolve_left htransport).2
      obtain ⟨name,hname⟩ := List.exists_mem_of_ne_nil _ hne
      exact iff_of_false (fun h => by simpa using (h name hname).1) (fun h => h trivial)

theorem redis_stop_sound_iff (e : RedisFaults) (core : RpcServerCore ServerRedisTransport)
    (hkept : Kept core) :
    Sound redisTransport redisView (.stop e) core ↔ RedisClean (.stop e) core := by
  cases hstate : core.state with
  | started =>
    simp only [Kept,hstate] at hkept
    simp [Sound,RedisClean,RpcServerCore.stop,hstate,redisTransport,ServerRedisTransport.stop,
      hkept.1,redisView]
  | stopped =>
    simp only [Kept,hstate] at hkept
    simp [Sound,RedisClean,RpcServerCore.stop,hstate,redisView,hkept]
  | idle =>
    simp only [Kept,hstate] at hkept
    simp [Sound,RedisClean,RpcServerCore.stop,hstate,redisView,hkept.1]

theorem redis_sound_iff (call : Call RedisFaults Unit) (core : RpcServerCore ServerRedisTransport)
    (hkept : Kept core) : Sound redisTransport redisView call core ↔ RedisClean call core := by
  cases call with
  | start e => exact redis_start_sound_iff e core hkept
  | stop e => exact redis_stop_sound_iff e core hkept
  | meanwhile o => exact Iff.rfl

theorem redis_start_kept (e : RedisFaults) (core : RpcServerCore ServerRedisTransport)
    (hkept : Kept core) (hclean : RedisClean (.start e) core) :
    Kept (core.start redisTransport e).1 := by
  cases hstate : core.state with
  | started => simpa [RpcServerCore.start,hstate] using hkept
  | stopped => simpa [RpcServerCore.start,hstate] using hkept
  | idle =>
    obtain ⟨htransport,hfails⟩ := hclean hstate
    rw [start_idle e core hkept hstate htransport]
    by_cases hall : ∀ name∈core.services, e.createFails name=false
    · rw [startLoops_returned _ _ _ hall]
      exact ⟨rfl,rfl⟩
    · obtain ⟨loops,hloops,hnil⟩ := startLoops_failed e.createFails core.services hall
      rw [hloops]
      simp only [Kept,hstate]
      refine ⟨hnil.mpr (hfails.resolve_left hall),.inr trivial,.inr ⟨trivial,fun hs => hall ?_⟩⟩
      simp [hs]

theorem redis_stop_kept (e : RedisFaults) (core : RpcServerCore ServerRedisTransport)
    (hsilent : redisView.Silent (core.stop redisTransport e).transport) :
    Kept (core.stop redisTransport e) := by
  have hstopped : (core.stop redisTransport e).state=.stopped := by
    cases hstate : core.state <;> simp [RpcServerCore.stop,hstate]
  simp only [Kept,hstopped]
  exact hsilent

theorem redis_call_kept (call : Call RedisFaults Unit) (core core' : RpcServerCore ServerRedisTransport)
    (hkept : Kept core) (hclean : RedisClean call core)
    (hcall : RpcServerCore.call redisTransport call core=some core') : Kept core' := by
  cases call with
  | start e =>
    cases hcall
    exact redis_start_kept e core hkept hclean
  | stop e =>
    cases hcall
    exact redis_stop_kept e core ((redis_stop_sound_iff e core hkept).mpr hclean)
  | meanwhile o =>
    cases hcall
    exact hkept

theorem redis_guarded_iff (services : List String) (nodup : services.Nodup)
    (calls : List (Call RedisFaults Unit)) :
    Guarded (RpcServerCore.call redisTransport) (Sound redisTransport redisView) calls
        (newRedisServer services nodup) ↔
      Guarded (RpcServerCore.call redisTransport) RedisClean calls (newRedisServer services nodup) :=
  guarded_congr redis_sound_iff redis_call_kept calls _ ⟨rfl,.inl rfl,.inl rfl⟩

end Clamator.Lifecycle
