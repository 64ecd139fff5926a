import Shepoo.Server.ConnectionProcess
import Shepoo.Sigslot.EmissionSafety

/-! The one signal of the server. What the constructor of a connection emits is handled once,
by the handler that `main` has connected. -/
namespace Shepoo.Server
open Foundation BoundedLoop PosixFile Sigslot Heap

inductive Member where
  | packetReceived
  deriving DecidableEq, Repr

/-- `SecNet::receivedPacket` -/
def receivedPacket : Nat := 0

def protocolHandler : Nat := 0

def connecting : List (Action Member) :=
  [.newSignal receivedPacket,.newObject protocolHandler,
    .connect receivedPacket protocolHandler .packetReceived]

def memberCall (service : Service) (memory : Memory) (webSocket : Bool) (packet : Packet)
    (payload : List UInt8) : Sigslot.Connection Member → Child × Output → Child × Output
  | ⟨_,_,.packetReceived⟩,(child,output) =>
    let dispatched := child.dispatch service memory webSocket packet payload
    (dispatched.1,output ++ dispatched.2)

theorem connecting_built : ∃ h : Heap Member, Built connecting h ∧
    h.signals receivedPacket = some [⟨0,protocolHandler,.packetReceived⟩] := by
  refine ⟨_,⟨?_,0,fun fuel _ => rfl⟩,rfl⟩
  simp [connecting,Wiring.ValidRun,Wiring.Valid,Wiring.rewire,Wiring.setSignal,Wiring.empty,
    receivedPacket,protocolHandler]

/-- Every heap that `main` can have built has the one connection. -/
theorem connecting_slots {h : Heap Member} (hb : Built connecting h) :
    h.signals receivedPacket = some [⟨0,protocolHandler,.packetReceived⟩] := by
  obtain ⟨-,cost,hdone⟩ := hb
  have hrun : Action.performAll cost connecting empty = .done _ := rfl
  rw [← Progress.done.inj ((hdone cost le_rfl).symm.trans hrun).symm]
  rfl

/-- The step of a child that dispatches is the emission of its packet. -/
theorem emission_dispatches {h : Heap Member} (hb : Built connecting h) (service : Service)
    (memory : Memory) (webSocket : Bool) (packet : Packet) (payload : List UInt8) (c : Child)
    (output : Output) :
    ∃ cost, ∀ fuel, cost ≤ fuel →
      emit fuel (still (memberCall service memory webSocket packet payload)) receivedPacket h
        (c,output) =
      .done ⟨none,h,((c.dispatch service memory webSocket packet payload).1,
        output ++ (c.dispatch service memory webSocket packet payload).2),
        [(⟨0,protocolHandler,.packetReceived⟩,h)]⟩ :=
  emit_still hb (connecting_slots hb) _ _

/-- At `exit` the signal is destroyed before the handler, which is still there. -/
theorem exit_destroys {h : Heap Member} (hb : Built connecting h) :
    ∃ cost h', ∀ fuel, cost ≤ fuel →
      (Action.deleteSignal receivedPacket).perform fuel h = .done h' := by
  have hvalid : h.wiring.Valid (.deleteSignal receivedPacket) := by
    change (h.targets receivedPacket).isSome
    rw [targets,connecting_slots hb]
    rfl
  obtain ⟨cost,h',hdone,-⟩ := perform_refines hb.linked hvalid
  exact ⟨cost,h',hdone⟩

end Shepoo.Server
