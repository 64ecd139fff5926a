import Shepoo.Server.ConnectionProcess

/-! The accept loop. The parent hands every connection to a child and closes its own copy;
parent and children run in any order, and the storage may be changed by others. -/
namespace Shepoo.Server.ListenLoop
open Foundation ByteSource PosixFile DescriptorTable

inductive Phase where
  | accepting
  | forking (newSocket : Nat)
  | closing (newSocket : Nat)
  deriving DecidableEq, Repr

/-- The files there have been are `past`, the oldest first, and now `fs`. -/
structure State (σ : Type) where
  past : List FileSystem
  fs : FileSystem
  connections : List (Connection σ)
  parent : Process
  phase : Phase
  children : List Child
  output : Output

def acceptError (errno : Nat) : List UInt8 :=
  ascii "Error accepting new connection: " ++ decimal errno

/-- Printed for every connection, forked or not. -/
def forkReport (ip : List UInt8) : List UInt8 :=
  ascii "Forked for client-handling. Client-IP: " ++ ip

variable {σ : Type}

/-- When `listen` has returned. -/
def start (server : Listener) (fs : FileSystem) : State σ :=
  ⟨[],fs,[],⟨server.launch.listening,server.launch.cout,true⟩,.accepting,[],[]⟩

namespace State

def parentPrint (line : List UInt8) (w : State σ) : State σ :=
  { w with parent := (w.parent.print line).1, output := w.output ++ (w.parent.print line).2 }

def accept (ssl : σ) (w : State σ) : State σ :=
  { w with
    connections := w.connections ++ [⟨ssl,w.past.length⟩]
    parent := { w.parent with table := w.parent.table.opened (.client w.connections.length) }
    phase := .forking w.parent.table.lowestFree }

def fork (newSocket : Nat) (w : State σ) : State σ :=
  { w with
    phase := .closing newSocket
    children := w.children ++ [⟨w.parent,newSocket,w.connections.length-1,.started⟩] }

def closeNewSocket (newSocket : Nat) (w : State σ) : State σ :=
  { w with
    parent := { w.parent with table := w.parent.table.close newSocket }
    phase := .accepting }

end State

variable [Source σ]

inductive Step (server : Listener) : State σ → State σ → Prop
  | acceptFailed {w : State σ} (errno : Nat) (h : w.phase = .accepting) :
    Step server w (w.parentPrint (acceptError errno))
  | accept {w : State σ} (ssl : σ) (h : w.phase = .accepting) : Step server w (w.accept ssl)
  /-- nobody waits for a child, so one that has ended counts for the system as before -/
  | fork {w : State σ} {newSocket : Nat} (h : w.phase = .forking newSocket)
    (hroom : w.children.length < server.processes) : Step server w (w.fork newSocket)
  /-- a negative result is not told apart from that of the parent -/
  | forkFailed {w : State σ} {newSocket : Nat} (h : w.phase = .forking newSocket) :
    Step server w { w with phase := .closing newSocket }
  | report {w : State σ} {newSocket : Nat} (ip : List UInt8) (h : w.phase = .closing newSocket) :
    Step server w ((w.closeNewSocket newSocket).parentPrint (forkReport ip))
  | child {w : State σ} {i : Nat} {c c' : Child} {out : Output} (hc : w.children[i]? = some c)
    (hs : ChildStep server w.connections w.fs c c' out) :
    Step server w { w with children := w.children.set i c', output := w.output ++ out }
  | change {w : State σ} (fs : FileSystem) :
    Step server w { w with past := w.past ++ [w.fs], fs := fs }

abbrev Reaches (server : Listener) : State σ → State σ → Prop :=
  Relation.ReflTransGen (Step server)

end Shepoo.Server.ListenLoop
