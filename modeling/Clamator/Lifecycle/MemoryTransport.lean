import Mathlib.Logic.Function.Basic
import Mathlib.Data.List.Basic
import Clamator.Lifecycle.Core

/-!
# The memory transport's start and stop (`over-memory`, `MemoryTransport`)

Servers share a bus that holds one dispatcher for a service. A start that meets a held
name throws with the services before it registered, and a later stop of the core, which
never became started, does not unregister them.
-/

namespace Clamator.Lifecycle
open Clamator.Base

inductive Holder where
  | own
  | other
  deriving DecidableEq

abbrev MemoryBus := String → Option Holder

namespace MemoryBus

def register (service : String) (holder : Holder) (bus : MemoryBus) : Option MemoryBus :=
  if bus service=none then some (Function.update bus service (some holder)) else none

def unregister (service : String) (bus : MemoryBus) : MemoryBus := Function.update bus service none

theorem register_eq_some {service : String} {holder : Holder} {bus bus' : MemoryBus}
    (h : bus.register service holder=some bus') :
    bus service=none ∧ bus'=Function.update bus service (some holder) := by
  rw [register] at h
  split at h
  · rename_i hfree
    exact ⟨hfree,(Option.some.inj h).symm⟩
  · cases h

theorem foldl_unregister (names : List String) (bus : MemoryBus) (name : String) :
    names.foldl (fun bus n => bus.unregister n) bus name=if name∈names then none else bus name := by
  induction names generalizing bus with
  | nil => simp
  | cons n names ih =>
    rw [List.foldl_cons,ih]
    by_cases hn : name=n
    · simp [hn,unregister]
    · simp [hn,unregister]

end MemoryBus

/-- What the other servers of the bus do: each unregisters its own services only. -/
inductive BusChange where
  | register (name : String)
  | unregister (name : String)

/-- `myServices` are the server's own services on the bus. -/
structure MemoryTransport where
  state : LifeState
  bus : MemoryBus
  myServices : List String
  owned : ∀ name, bus name=some .own ↔ name∈myServices

namespace MemoryTransport

theorem owned_register (t : MemoryTransport) {service : String} {bus : MemoryBus}
    (h : t.bus.register service .own=some bus) (name : String) :
    bus name=some .own ↔ name∈t.myServices.insert service := by
  obtain ⟨-,rfl⟩ := MemoryBus.register_eq_some h
  by_cases hn : name=service
  · simp [hn]
  · simp [hn,t.owned]

theorem owned_stop (t : MemoryTransport) (name : String) :
    t.myServices.foldl (fun bus n => bus.unregister n) t.bus name=some .own ↔ name∈[] := by
  rw [MemoryBus.foldl_unregister]
  by_cases hn : name∈t.myServices
  · simp [hn]
  · simp [hn,t.owned]

def change : BusChange → MemoryBus → MemoryBus
  | .register name,bus => (bus.register name .other).getD bus
  | .unregister name,bus => if bus name=some .other then bus.unregister name else bus

theorem change_own (o : BusChange) (bus : MemoryBus) (name : String) :
    change o bus name=some .own ↔ bus name=some .own := by
  cases o with
  | register service =>
    simp only [change]
    cases hr : bus.register service .other with
    | none => simp
    | some bus' =>
      obtain ⟨hfree,rfl⟩ := MemoryBus.register_eq_some hr
      by_cases hn : name=service
      · simp [hn,hfree]
      · simp [hn]
  | unregister service =>
    simp only [change]
    split
    · rename_i hother
      by_cases hn : name=service
      · simp [hn,hother,MemoryBus.unregister]
      · simp [hn,MemoryBus.unregister]
    · exact Iff.rfl

def registerService (name : String) (t : MemoryTransport) : MemoryTransport × Outcome :=
  match h : t.bus.register name .own with
  | none => (t,.threw)
  | some bus => (⟨t.state,bus,t.myServices.insert name,t.owned_register h⟩,.returned)

def start (t : MemoryTransport) : MemoryTransport × Outcome := match t.state with
  | .stopped => (t,.threw)
  | _ => ({ t with state := .started },.returned)

def stop (t : MemoryTransport) : MemoryTransport :=
  ⟨.stopped,t.myServices.foldl (fun bus name => bus.unregister name) t.bus,[],t.owned_stop⟩

def meanwhile (o : BusChange) (t : MemoryTransport) : MemoryTransport :=
  ⟨t.state,change o t.bus,t.myServices,fun name => (change_own o t.bus name).trans (t.owned name)⟩

end MemoryTransport

def memoryTransport : Transport MemoryTransport Unit BusChange where
  registerService := MemoryTransport.registerService
  start := fun _ => MemoryTransport.start
  stop := fun _ => MemoryTransport.stop
  meanwhile := MemoryTransport.meanwhile

def memoryView : View MemoryTransport where
  Serving := fun name t => t.bus name=some .own
  Silent := fun t => ∀ name, t.bus name≠some .own

def newMemoryServer (services : List String) (nodup : services.Nodup) (bus : MemoryBus)
    (others : ∀ name, bus name≠some .own) : RpcServerCore MemoryTransport :=
  ⟨services,nodup,.idle,⟨.idle,bus,[],fun name => by simp [others name]⟩⟩

/-- An idle server is started when no service of it is held on the bus, or the first. -/
def MemoryClean : Call Unit BusChange → RpcServerCore MemoryTransport → Prop
  | .start _,core => core.state=.idle → (∀ name∈core.services, core.transport.bus name=none) ∨
    core.services.head?.any (fun name => (core.transport.bus name).isSome)=true
  | .stop _,_ => True
  | .meanwhile _,_ => True

/-! ### The registrations of a start -/

theorem registerService_free (name : String) (t : MemoryTransport) (h : t.bus name=none) :
    ∃ t', memoryTransport.registerService name t=(t',.returned) ∧ t'.state=t.state ∧
      t'.bus=Function.update t.bus name (some .own) := by
  simp only [memoryTransport,MemoryTransport.registerService]
  split
  · rename_i hr
    simp [MemoryBus.register,h] at hr
  · rename_i bus hr
    exact ⟨_,rfl,rfl,(MemoryBus.register_eq_some hr).2⟩

theorem registerService_held (name : String) (t : MemoryTransport) (h : t.bus name≠none) :
    memoryTransport.registerService name t=(t,.threw) := by
  simp only [memoryTransport,MemoryTransport.registerService]
  split
  · rfl
  · rename_i bus hr
    exact absurd (MemoryBus.register_eq_some hr).1 h

theorem registerAll_free (names : List String) (nodup : names.Nodup) (t : MemoryTransport)
    (free : ∀ name∈names, t.bus name=none) :
    ∃ t', registerAll memoryTransport names t=(t',.returned) ∧ t'.state=t.state ∧
      ∀ name, t'.bus name=some .own ↔ name∈names ∨ t.bus name=some .own := by
  induction names generalizing t with
  | nil => exact ⟨t,rfl,rfl,by simp⟩
  | cons service names ih =>
    obtain ⟨t1,hr,hstate,hbus⟩ := registerService_free service t (free service List.mem_cons_self)
    obtain ⟨hfresh,hnodup⟩ := List.nodup_cons.mp nodup
    have hfree : ∀ name∈names, t1.bus name=none := by
      intro name hname
      have hne : name≠service := fun heq => hfresh (heq ▸ hname)
      rw [hbus,Function.update_of_ne hne]
      exact free name (List.mem_cons_of_mem _ hname)
    obtain ⟨t2,hall,hstate2,hown⟩ := ih hnodup t1 hfree
    refine ⟨t2,by rw [registerAll,hr]; exact hall,hstate2.trans hstate,fun name => ?_⟩
    rw [hown,hbus]
    by_cases hn : name=service
    · simp [hn]
    · simp [hn]

/- The services before the held name stay registered. -/
theorem registerAll_held (names : List String) (nodup : names.Nodup) (t : MemoryTransport)
    (held : ¬∀ name∈names, t.bus name=none) :
    ∃ t', registerAll memoryTransport names t=(t',.threw) ∧ t'.state=t.state ∧
      (∀ name, t.bus name=some .own → t'.bus name=some .own) ∧
      ((∀ name, t'.bus name≠some .own) ↔
        (∀ name, t.bus name≠some .own) ∧ names.head?.any (fun name => (t.bus name).isSome)=true) := by
  induction names generalizing t with
  | nil => simp at held
  | cons service names ih =>
    by_cases hservice : t.bus service=none
    · obtain ⟨t1,hr,hstate,hbus⟩ := registerService_free service t hservice
      obtain ⟨hfresh,hnodup⟩ := List.nodup_cons.mp nodup
      have hheld : ¬∀ name∈names, t1.bus name=none := by
        intro hall
        refine held fun name hname => ?_
        rcases List.mem_cons.mp hname with rfl | hname
        · exact hservice
        · have hne : name≠service := fun heq => hfresh (heq ▸ hname)
          have hfree := hall name hname
          rwa [hbus,Function.update_of_ne hne] at hfree
      obtain ⟨t2,hall,hstate2,hkeep,-⟩ := ih hnodup t1 hheld
      have hkeeps : ∀ name, t.bus name=some .own → t2.bus name=some .own := by
        intro name hown
        refine hkeep name ?_
        rw [hbus]
        by_cases hn : name=service
        · simp [hn]
        · simpa [hn] using hown
      refine ⟨t2,by rw [registerAll,hr]; exact hall,hstate2.trans hstate,hkeeps,?_⟩
      refine iff_of_false (fun hsilent => hsilent service (hkeep service ?_)) (fun h => ?_)
      · rw [hbus,Function.update_self]
      · simp [hservice] at h
    · refine ⟨t,by rw [registerAll,registerService_held service t hservice],rfl,fun _ h => h,?_⟩
      have hsome : (t.bus service).isSome=true := Option.isSome_iff_ne_none.mpr hservice
      simp [hsome]

/-! ### Every call -/

def MemoryKept (core : RpcServerCore MemoryTransport) : Prop := match core.state with
  | .idle => core.transport.state=.idle ∧ memoryView.Silent core.transport
  | .started => core.transport.state=.started ∧
    ∀ name∈core.services, memoryView.Serving name core.transport
  | .stopped => memoryView.Silent core.transport

theorem stop_silent (t : MemoryTransport) : memoryView.Silent t.stop := by
  intro name hown
  have hmem := (t.stop.owned name).mp hown
  cases hmem

theorem start_free (core : RpcServerCore MemoryTransport) (hkept : MemoryKept core)
    (hidle : core.state=.idle) (free : ∀ name∈core.services, core.transport.bus name=none) :
    ∃ t, core.start memoryTransport ()=({ core with transport := t,state := .started },.returned) ∧
      t.state=.started ∧ ∀ name∈core.services, memoryView.Serving name t := by
  simp only [MemoryKept,hidle] at hkept
  obtain ⟨t,hall,hstate,hown⟩ := registerAll_free core.services core.nodup core.transport free
  rw [hkept.1] at hstate
  refine ⟨{ t with state := .started },?_,rfl,fun name hname => (hown name).mpr (.inl hname)⟩
  simp only [RpcServerCore.start,hidle,hall]
  simp only [memoryTransport,MemoryTransport.start,hstate]

theorem start_held (core : RpcServerCore MemoryTransport) (hkept : MemoryKept core)
    (hidle : core.state=.idle) (held : ¬∀ name∈core.services, core.transport.bus name=none) :
    ∃ t, core.start memoryTransport ()=({ core with transport := t },.threw) ∧ t.state=.idle ∧
      (memoryView.Silent t ↔
        core.services.head?.any (fun name => (core.transport.bus name).isSome)=true) := by
  simp only [MemoryKept,hidle] at hkept
  obtain ⟨t,hall,hstate,-,hsilent⟩ := registerAll_held core.services core.nodup core.transport held
  refine ⟨t,by simp only [RpcServerCore.start,hidle,hall],hstate.trans hkept.1,hsilent.trans ?_⟩
  exact and_iff_right hkept.2

theorem memory_sound_iff (call : Call Unit BusChange) (core : RpcServerCore MemoryTransport)
    (hkept : MemoryKept core) :
    Sound memoryTransport memoryView call core ↔ MemoryClean call core := by
  cases call with
  | meanwhile o => exact Iff.rfl
  | stop e =>
    refine iff_of_true ?_ trivial
    cases hstate : core.state with
    | started =>
      simp only [Sound,RpcServerCore.stop,hstate]
      exact stop_silent core.transport
    | idle =>
      simp only [MemoryKept,hstate] at hkept
      simpa [Sound,RpcServerCore.stop,hstate] using hkept.2
    | stopped =>
      simp only [MemoryKept,hstate] at hkept
      simpa [Sound,RpcServerCore.stop,hstate] using hkept
  | start e =>
    cases hstate : core.state with
    | started =>
      simp only [MemoryKept,hstate] at hkept
      simpa [Sound,MemoryClean,RpcServerCore.start,hstate] using hkept.2
    | stopped =>
      simp only [MemoryKept,hstate] at hkept
      simpa [Sound,MemoryClean,RpcServerCore.start,hstate] using hkept
    | idle =>
      by_cases hall : ∀ name∈core.services, core.transport.bus name=none
      · obtain ⟨t,hstart,-,hserving⟩ := start_free core hkept hstate hall
        simp only [Sound,hstart]
        exact iff_of_true hserving fun _ => .inl hall
      · obtain ⟨t,hstart,-,hsilent⟩ := start_held core hkept hstate hall
        simp only [Sound,hstart,hsilent,MemoryClean,hstate,hall,false_or,true_imp_iff]

theorem memory_call_kept (call : Call Unit BusChange) (core core' : RpcServerCore MemoryTransport)
    (hkept : MemoryKept core) (hclean : MemoryClean call core)
    (hcall : RpcServerCore.call memoryTransport call core=some core') : MemoryKept core' := by
  cases call with
  | meanwhile o =>
    cases hcall
    have hown := MemoryTransport.change_own o core.transport.bus
    cases hstate : core.state with
    | idle =>
      simp only [MemoryKept,hstate] at hkept ⊢
      exact ⟨hkept.1,fun name h => hkept.2 name ((hown name).mp h)⟩
    | started =>
      simp only [MemoryKept,hstate] at hkept ⊢
      exact ⟨hkept.1,fun name hn => (hown name).mpr (hkept.2 name hn)⟩
    | stopped =>
      simp only [MemoryKept,hstate] at hkept ⊢
      exact fun name h => hkept name ((hown name).mp h)
  | stop e =>
    cases hcall
    have hsilent := (memory_sound_iff (.stop e) core hkept).mpr trivial
    have hstopped : (core.stop memoryTransport e).state=.stopped := by
      cases hstate : core.state <;> simp [RpcServerCore.stop,hstate]
    simp only [MemoryKept,hstopped]
    exact hsilent
  | start e =>
    cases hcall
    cases hstate : core.state with
    | started => simpa [RpcServerCore.start,hstate] using hkept
    | stopped => simpa [RpcServerCore.start,hstate] using hkept
    | idle =>
      by_cases hall : ∀ name∈core.services, core.transport.bus name=none
      · obtain ⟨t,hstart,ht,hserving⟩ := start_free core hkept hstate hall
        rw [hstart]
        exact ⟨ht,hserving⟩
      · obtain ⟨t,hstart,ht,hsilent⟩ := start_held core hkept hstate hall
        rw [hstart]
        simp only [MemoryKept,hstate]
        exact ⟨ht,hsilent.mpr ((hclean hstate).resolve_left hall)⟩

theorem memory_guarded_iff (services : List String) (nodup : services.Nodup) (bus : MemoryBus)
    (others : ∀ name, bus name≠some .own) (calls : List (Call Unit BusChange)) :
    Guarded (RpcServerCore.call memoryTransport) (Sound memoryTransport memoryView) calls
        (newMemoryServer services nodup bus others) ↔
      Guarded (RpcServerCore.call memoryTransport) MemoryClean calls
        (newMemoryServer services nodup bus others) :=
  guarded_congr memory_sound_iff memory_call_kept calls _ ⟨rfl,others⟩

end Clamator.Lifecycle
