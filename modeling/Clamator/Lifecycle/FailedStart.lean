import Clamator.Lifecycle.RedisTransport
import Clamator.Lifecycle.MemoryTransport

/-!
# Failed starts

Which runs of calls leave nothing half-started, over both transports. A start that fails
at its first service does; one that fails later does not, and a second start then
returns without serving, or a stop without stopping.
-/

namespace Clamator.Lifecycle
open Clamator.Base

/-- Each way, every call of a run is sound exactly when every call of it is clean. -/
theorem failed_start_iff (services : List String) (nodup : services.Nodup) :
    (∀ calls : List (Call RedisFaults Unit),
      Guarded (RpcServerCore.call redisTransport) (Sound redisTransport redisView) calls
          (newRedisServer services nodup) ↔
        Guarded (RpcServerCore.call redisTransport) RedisClean calls
          (newRedisServer services nodup)) ∧
    ∀ (bus : MemoryBus) (others : ∀ name, bus name≠some .own) (calls : List (Call Unit BusChange)),
      Guarded (RpcServerCore.call memoryTransport) (Sound memoryTransport memoryView) calls
          (newMemoryServer services nodup bus others) ↔
        Guarded (RpcServerCore.call memoryTransport) MemoryClean calls
          (newMemoryServer services nodup bus others) :=
  ⟨redis_guarded_iff services nodup,memory_guarded_iff services nodup⟩

theorem twoServices_nodup : ["clock","greeter"].Nodup := by decide

def noFaults : RedisFaults := ⟨fun _ => false,fun _ => false⟩

def greeterFails : RedisFaults := ⟨fun name => name=="greeter",fun _ => false⟩

def twoRedis : RpcServerCore ServerRedisTransport := newRedisServer ["clock","greeter"] twoServices_nodup

def heldBus (held : String) : MemoryBus := fun name => if name=held then some .other else none

theorem heldBus_others (held name : String) : heldBus held name≠some .own := by
  simp only [heldBus]
  split <;> simp

def twoMemory : RpcServerCore MemoryTransport :=
  newMemoryServer ["clock","greeter"] twoServices_nodup (heldBus "greeter") (heldBus_others "greeter")

theorem failed_start_iff_two :
    Guarded (RpcServerCore.call redisTransport) (Sound redisTransport redisView)
      [.start noFaults,.stop noFaults,.start noFaults] twoRedis ∧
    Guarded (RpcServerCore.call memoryTransport) (Sound memoryTransport memoryView)
      [.start (),.meanwhile (.unregister "clock"),.start (),.stop ()]
      (newMemoryServer ["clock","greeter"] twoServices_nodup (heldBus "clock") (heldBus_others "clock")) := by
  obtain ⟨hredis,hmemory⟩ := failed_start_iff ["clock","greeter"] twoServices_nodup
  constructor
  · refine (hredis _).mpr ⟨fun _ => ⟨rfl,.inl fun _ _ => rfl⟩,fun _ _ _ => rfl,fun h => ?_,trivial⟩
    cases h
  · refine (hmemory _ _ _).mpr ⟨fun _ => .inr rfl,trivial,fun _ => .inl ?_,trivial,trivial⟩
    intro name hname
    rcases List.mem_pair.mp hname with rfl | rfl
    · rfl
    · rfl

/-- The second XGROUP CREATE fails: the start throws with loops of the first service
running, a second start returns, a stop leaves them. The second name is held on the bus:
the start throws with the first name registered, and a stop leaves it. -/
theorem failed_start_half :
    ¬Sound redisTransport redisView (.start greeterFails) twoRedis ∧
    ¬Sound redisTransport redisView (.start noFaults) (twoRedis.start redisTransport greeterFails).1 ∧
    ¬Sound redisTransport redisView (.stop noFaults) (twoRedis.start redisTransport greeterFails).1 ∧
    ¬Sound memoryTransport memoryView (.start ()) twoMemory ∧
    ¬Sound memoryTransport memoryView (.stop ()) (twoMemory.start memoryTransport ()).1 := by
  refine ⟨fun h => ?_,fun h => ?_,fun h => ?_,fun h => h "clock" rfl,fun h => h "clock" rfl⟩
  · exact List.cons_ne_nil _ _ h
  · exact absurd (h "greeter" (.tail _ (.head _))).1 (by decide)
  · exact List.cons_ne_nil _ _ h

end Clamator.Lifecycle
