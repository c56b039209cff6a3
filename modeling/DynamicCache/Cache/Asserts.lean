import DynamicCache.Cache.Timing

/-!
# Where assertions are the only failures

The registers, their queues and the packets stop the simulator at assertions
only.  `Fault.Apart` are the faults that they cannot cause: a block that is not
in its list, and the port's assertions on its blocked flag.
-/

namespace DynamicCache.Cache

open Lib Tags

/-- A fault that has a cause of its own. -/
class Fault.Apart (e : Fault) : Prop where
  assertion : .assertion ≠ e
  outOfArray : .outOfArray ≠ e
  panicked : .panicked ≠ e

instance : Fault.Apart .notInSet := ⟨nofun, nofun, nofun⟩
instance : Fault.Apart .portAssertion := ⟨nofun, nofun, nofun⟩

attribute [simp] Fault.Apart.assertion Fault.Apart.outOfArray Fault.Apart.panicked

variable {ε : Type} {e : Fault} [e.Apart] {m : Mshr} {q : MshrQueue} {c : Control} {ref : MshrRef} {pkt : Packet}
  {now addr size time order tid r : Nat} {b : Bool}

@[simp] theorem assert_avoids : Avoids e (assert b) := avoids_check Fault.Apart.assertion

@[simp] theorem getTarget_avoids : Avoids e m.getTarget := avoids_orFail fun _ => Fault.Apart.assertion

@[simp] theorem hasPostInvalidate_avoids : Avoids e m.hasPostInvalidate := by
  simp [Mshr.hasPostInvalidate]

@[simp] theorem hasPostDowngrade_avoids : Avoids e m.hasPostDowngrade := by
  simp [Mshr.hasPostDowngrade]

@[simp] theorem invalidates_avoids : Avoids e (m.invalidates pkt) := by
  simp [Mshr.invalidates]

@[simp] theorem isForwardNoResponse_avoids : Avoids e m.isForwardNoResponse := by
  simp [Mshr.isForwardNoResponse]

@[simp] theorem allocateTarget_avoids : Avoids e (m.allocateTarget now pkt time order) := by
  simp [Mshr.allocateTarget]

@[simp] theorem promoteDeferredTargets_avoids : Avoids e (m.promoteDeferredTargets now) := by
  unfold Mshr.promoteDeferredTargets
  rw [avoids_bind]
  refine ⟨assert_avoids, fun _ _ => ?_⟩
  split <;> simp

@[simp] theorem mshr_handleFill_avoids : Avoids e (m.handleFill pkt) := by
  simp [Mshr.handleFill]

@[simp] theorem deallocate_avoids : Avoids e (q.deallocate r) := by
  simp [MshrQueue.deallocate, Mshr.deallocate]

theorem insertReady_avoids (time : Nat → Nat) (r : Nat) (l : List Nat) :
    Avoids e (MshrQueue.insertReady time r l) := by
  induction l with
  | nil => simp [MshrQueue.insertReady]
  | cons x l ih => simp [MshrQueue.insertReady, ih]

@[simp] theorem addToReadyList_avoids : Avoids e (q.addToReadyList r) := by
  simp [MshrQueue.addToReadyList, insertReady_avoids]

@[simp] theorem allocate_avoids : Avoids e (q.allocate now addr size pkt time order) := by
  unfold MshrQueue.allocate
  split
  · simp
  · simp [Mshr.allocate]

@[simp] theorem markInService_avoids : Avoids e (q.markInService r pkt) := by
  simp [MshrQueue.markInService, Mshr.markInService]

@[simp] theorem markPending_avoids : Avoids e (q.markPending r) := by
  simp [MshrQueue.markPending]

@[simp] theorem markInServiceNull_avoids : Avoids e (c.markInServiceNull ref pkt) := by
  simp [Control.markInServiceNull]

@[simp] theorem makeTimingResponse_avoids : Avoids e pkt.makeTimingResponse := by
  simp [Packet.makeTimingResponse]

@[simp] theorem answerCmd_avoids {x : State.Fill} : Avoids e (x.answerCmd pkt) := by
  simp [State.Fill.answerCmd]

@[simp] theorem supplyResponse_avoids {g : Geometry} {data : Nat → Nat} :
    Avoids e (Storage.supplyResponse g pkt data b) := by
  simp [Storage.supplyResponse]

@[simp] theorem getBusPacket_avoids {g : Geometry} {blk : Option CacheBlk} :
    Avoids e (State.getBusPacket g pkt blk b) := by
  simp [State.getBusPacket]

/-! ## Blocks -/

variable {s : Storage ε}

@[simp] theorem assertMaster_avoids : Avoids e (s.assertMaster pkt) := by
  simp [Storage.assertMaster]

@[simp] theorem cmpAndSwap_avoids {x : BlkRef} : Avoids e (s.cmpAndSwap pkt x) := by
  simp [Storage.cmpAndSwap, Storage.swapProceeds]

@[simp] theorem writebackBlk_avoids {x : BlkRef} : Avoids e (s.writebackBlk x tid) := by
  simp [Storage.writebackBlk]

@[simp] theorem writebackTemp_avoids : Avoids e (State.writebackTemp s) := by
  simp [State.writebackTemp]

@[simp] theorem allocateBlock_avoids : Avoids e (s.allocateBlock c addr tid) := by
  unfold Storage.allocateBlock
  split
  · simp
  · simp only [avoids_ite, avoids_ok, implies_true, and_true]
    intro _
    split <;> simp

@[simp] theorem forwardSnoop_avoids {cfg : Config} {up : Storage.UpwardSnoop} :
    Avoids e (Storage.forwardSnoop cfg up pkt) := by
  simp [Storage.forwardSnoop]

@[simp] theorem snoopResponse_avoids {g : Geometry} {x : CacheBlk} : Avoids e (Storage.snoopResponse g pkt x b) := by
  simp [Storage.snoopResponse]

@[simp] theorem hideBlock_avoids {blk : Option Nat} : Avoids e (State.hideBlock s pkt blk) := by
  unfold State.hideBlock
  split <;> simp

end DynamicCache.Cache
