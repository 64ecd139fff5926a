import Shepoo.Foundation.DescriptorTable
import Shepoo.Server.SecNet

/-! The process of one connection, from the fork to its end: the constructor, the dispatcher
and every line printed on the way, with the descriptors the process has. -/
namespace Shepoo.Server
open Foundation ByteCodec ByteSource BoundedLoop PosixFile DescriptorTable

inductive Resource where
  /-- open since before `main` -/
  | inherited (fd : Nat)
  | logFile
  | serverSocket
  | client (connection : Nat)
  deriving DecidableEq, Repr

def Resource.isSocket : Resource → Bool
  | .inherited _ => false
  | .logFile => false
  | .serverSocket => true
  | .client _ => true

/-- What a write leaves there: a record of the TLS layer, or text as it is. -/
inductive Written where
  | record (bytes : List UInt8)
  | text (bytes : List UInt8)
  deriving DecidableEq, Repr

abbrev Output := List (Resource × Written)

/-- `cout` is the descriptor behind the buffer of `std::cout`, `good` its state. -/
structure Process where
  table : Table Resource
  cout : Option Nat
  good : Bool

namespace Process

/-- A line up to its `std::endl`. A write that fails sets the bad bit, and a stream that is
not good prints nothing. -/
def print (line : List UInt8) (p : Process) : Process × Output :=
  if p.good then
    match p.cout.bind p.table.entry with
    | none => ({ p with good := false },[])
    | some resource => (p,[(resource,.text (line ++ [lf]))])
  else (p,[])

def printAll : List (List UInt8) → Process → Process × Output
  | [],p => (p,[])
  | line::rest,p =>
    let printed := p.print line
    let others := printAll rest printed.1
    (others.1,printed.2 ++ others.2)

end Process

def decimal (n : Nat) : List UInt8 := ascii (toString n)

def hexadecimal (n : Nat) : List UInt8 := (Nat.toDigits 16 n).map fun c => UInt8.ofNat c.toNat

def Refusal.text : Refusal → List UInt8
  | .payloadTooLarge payloadLength =>
    ascii "Client wanted to send data with payload size " ++ decimal payloadLength.toNat ++
      ascii " but we only handle a maximum of " ++ decimal maxPacketPayloadSize.toNat ++ ascii "."
  | .unsupportedWebSocketVersion version =>
    ascii "Unsupported WebSocket version. Got: " ++ version ++ ascii ", but we only support 13"
  | .unsupportedProtocol protocol =>
    ascii "Unsupported protocol. Got: " ++ protocol ++ ascii ", but we only support shepoo"
  | .onlyBinary => ascii "We only support binary packages!"
  | .noPacketHeader =>
    ascii "WebSocket Payload must contain at least one Shepoo Packet Header"
  | .fragmented => ascii "Fragmented WebSocket message!"
  | .truncated => ascii "WebSocket frame truncated but not fragmented!"

/-- What the dispatcher prints before its `exit(-1)`; only the version check prints at all,
the first eight bytes of the header as a hexadecimal number. -/
def dispatchLines (packet : Packet) : List (List UInt8) :=
  if packet.version ≠ supportedVersion then
    [ascii "Unsupported Packet-version: " ++ hexadecimal (leValue (packet.bytes.take 8))]
  else []

/-- The server process when it is about to call `socket`. -/
structure Launch where
  table : Table Resource
  cout : Option Nat
  noSocket : ∀ fd resource, table.entry fd = some resource → resource.isSocket = false

namespace Launch

def serverSocket (launch : Launch) : Nat := launch.table.lowestFree

def listening (launch : Launch) : Table Resource := launch.table.opened .serverSocket

/-- The number `accept` returns, every time. -/
def clientSocket (launch : Launch) : Nat := launch.listening.lowestFree

end Launch

/-- A running server: how it was launched and what its processes inherit. `processes` is how
many children the system lets it have. -/
structure Listener where
  launch : Launch
  digest : Digest
  blockSize : UInt64
  storage : Blockstorage
  processes : ℕ+

def Listener.service (server : Listener) (fs : FileSystem) : Service :=
  ⟨server.digest,server.blockSize,server.storage,fs⟩

inductive TlsResult where
  | noSession
  | refused (errors : List (List UInt8))
  | established

inductive Stage where
  | started
  /-- the constructor has closed the listening socket -/
  | connecting
  | constructing
  | dispatching (memory : Memory) (webSocket : Bool) (packet : Packet) (payload : List UInt8)
  | answering (webSocket : Bool) (answers : List Answer)
  | refused
  /-- by `exit(-1)`, also when all went well -/
  | exited
  /-- has gone out of an object -/
  | faulted
  | killed

def Stage.ended : Stage → Bool
  | .refused => true
  | .exited => true
  | .killed => true
  | _ => false

/-- A child of the server; `connection` numbers the connection it was forked for. -/
structure Child where
  process : Process
  socket : Nat
  connection : Nat
  stage : Stage

namespace Child

/-- `exit(-1)`, after some lines. The destructor of the connection is not run. -/
def exit (stage : Stage) (lines : List (List UInt8)) (c : Child) : Child × Output :=
  let printed := c.process.printAll lines
  ({ c with process := { printed.1 with table := Table.nothing }, stage := stage },printed.2)

def write (bytes : List UInt8) (c : Child) : Output :=
  match c.process.table.entry c.socket with
  | none => []
  | some resource => if bytes = [] then [] else [(resource,.record bytes)]

def accept (result : TlsResult) (c : Child) : Child × Output :=
  match result with
  | .noSession => c.exit .refused [ascii "Could not create new SSL connection!"]
  | .refused errors =>
    c.exit .refused
      (ascii "SSL Handshake failed!"::errors.map fun message => ascii "SSL: " ++ message)
  | .established => ({ c with stage := .constructing },[])

def receive {σ : Type} (memory : Memory) (received : Received σ) (c : Child) : Child × Output :=
  let sent := c.write received.written
  match received.outcome with
  | .emit packet payload =>
    ({ c with stage := .dispatching memory received.webSocket packet payload },sent)
  | .exit reason =>
    let exited := c.exit .exited [reason.text]
    (exited.1,sent ++ exited.2)
  | .fault => ({ c with stage := .faulted },sent)
  | .running => (c,[])

/-- The connected handler; the files it finds it leaves as they are. -/
def dispatch (service : Service) (memory : Memory) (webSocket : Bool) (packet : Packet)
    (payload : List UInt8) (c : Child) : Child × Output :=
  match (Protocol.packetReceived service.blockSize service.storage service.fs memory.block
    packet payload).1 with
  | .exit => c.exit .exited (dispatchLines packet)
  | .pastPayload => ({ c with stage := .faulted },[])
  | .returned answers => ({ c with stage := .answering webSocket answers },[])

def answer (webSocket : Bool) (next : Answer) (rest : List Answer) (c : Child) :
    Child × Output :=
  let sent := sendPacket webSocket next.1 next.2
  let stage := if sent.completed then .answering webSocket rest else .faulted
  ({ c with stage := stage },c.write sent.written)

end Child

/-- An accepted connection. `ssl` is all that its client sends before it closes, `since`
counts the files there had been before. -/
structure Connection (σ : Type) where
  ssl : σ
  since : Nat

inductive ChildStep {σ : Type} [Source σ] (server : Listener) (connections : List (Connection σ))
    (fs : FileSystem) : Child → Child → Output → Prop
  | closeServerSocket {c : Child} (h : c.stage = .started) :
    ChildStep server connections fs c
      { c with
        process := { c.process with table := c.process.table.close server.launch.serverSocket }
        stage := .connecting } []
  /-- once the client has done its part in the TLS handshake, or has closed -/
  | accept {c : Child} (result : TlsResult) (h : c.stage = .connecting) :
    ChildStep server connections fs c (c.accept result).1 (c.accept result).2
  /-- the constructor reads from whatever its socket is, unless it never ends; nothing it
  reads is waited for -/
  | receive {c : Child} (memory : Memory) (fuel : Nat) {connection : Nat} {client : Connection σ}
    (h : c.stage = .constructing)
    (hs : c.process.table.entry c.socket = some (.client connection))
    (hc : connections[connection]? = some client)
    (hr : (SecNet.construct server.digest memory fuel client.ssl).outcome ≠ .running) :
    ChildStep server connections fs c
      (c.receive memory (SecNet.construct server.digest memory fuel client.ssl)).1
      (c.receive memory (SecNet.construct server.digest memory fuel client.ssl)).2
  | dispatch {c : Child} {memory : Memory} {webSocket : Bool} {packet : Packet}
    {payload : List UInt8} (h : c.stage = .dispatching memory webSocket packet payload) :
    ChildStep server connections fs c
      (c.dispatch (server.service fs) memory webSocket packet payload).1
      (c.dispatch (server.service fs) memory webSocket packet payload).2
  | answer {c : Child} {webSocket : Bool} {next : Answer} {rest : List Answer}
    (h : c.stage = .answering webSocket (next::rest)) :
    ChildStep server connections fs c (c.answer webSocket next rest).1
      (c.answer webSocket next rest).2
  | finish {c : Child} {webSocket : Bool} (h : c.stage = .answering webSocket []) :
    ChildStep server connections fs c (c.exit .exited []).1 (c.exit .exited []).2
  | kill {c : Child} (h : c.stage.ended = false) :
    ChildStep server connections fs c
      { c with process := { c.process with table := Table.nothing }, stage := .killed } []

namespace Process

@[simp] theorem print_table (line : List UInt8) (p : Process) :
    (p.print line).1.table = p.table := by
  rw [print]
  split
  · split <;> rfl
  · rfl

@[simp] theorem print_cout (line : List UInt8) (p : Process) :
    (p.print line).1.cout = p.cout := by
  rw [print]
  split
  · split <;> rfl
  · rfl

/-- Whatever is printed goes to the descriptor behind the buffer. -/
theorem print_target {line : List UInt8} {p : Process} {resource : Resource} {written : Written}
    (h : (resource,written) ∈ (p.print line).2) :
    p.good = true ∧ p.cout.bind p.table.entry = some resource ∧ ∃ text, written = .text text := by
  rw [print] at h
  split at h
  · next hgood =>
    split at h
    · cases h
    · next r hr =>
      obtain ⟨rfl,rfl⟩ := Prod.mk.inj (List.mem_singleton.mp h)
      exact ⟨hgood,hr,_,rfl⟩
  · cases h

/-- A stream once bad stays bad. -/
theorem good_of_print {line : List UInt8} {p : Process} (h : (p.print line).1.good = true) :
    p.good = true := by
  rw [print] at h
  split at h
  · assumption
  · exact h

theorem printAll_cons (line : List UInt8) (rest : List (List UInt8)) (p : Process) :
    p.printAll (line::rest) = (((p.print line).1.printAll rest).1,
      (p.print line).2 ++ ((p.print line).1.printAll rest).2) := rfl

@[simp] theorem printAll_table (lines : List (List UInt8)) (p : Process) :
    (p.printAll lines).1.table = p.table := by
  induction lines generalizing p with
  | nil => rfl
  | cons line rest ih => rw [printAll_cons,ih,print_table]

@[simp] theorem printAll_cout (lines : List (List UInt8)) (p : Process) :
    (p.printAll lines).1.cout = p.cout := by
  induction lines generalizing p with
  | nil => rfl
  | cons line rest ih => rw [printAll_cons,ih,print_cout]

/-- The first line is printed by a good stream with a descriptor. -/
theorem print_mem {line : List UInt8} {p : Process} {resource : Resource} (hg : p.good = true)
    (hr : p.cout.bind p.table.entry = some resource) (rest : List (List UInt8)) :
    (resource,.text (line ++ [lf])) ∈ (p.printAll (line::rest)).2 := by
  refine List.mem_append_left _ ?_
  rw [print,if_pos hg,hr]
  exact List.mem_cons_self

theorem printAll_target {lines : List (List UInt8)} {p : Process} {resource : Resource}
    {written : Written} (h : (resource,written) ∈ (p.printAll lines).2) :
    p.good = true ∧ p.cout.bind p.table.entry = some resource ∧ ∃ text, written = .text text := by
  induction lines generalizing p with
  | nil => cases h
  | cons line rest ih =>
    rw [printAll_cons] at h
    rcases List.mem_append.mp h with h | h
    · exact print_target h
    · obtain ⟨hgood,htarget,htext⟩ := ih h
      rw [print_cout,print_table] at htarget
      exact ⟨good_of_print hgood,htarget,htext⟩

theorem good_of_printAll {lines : List (List UInt8)} {p : Process}
    (h : (p.printAll lines).1.good = true) : p.good = true := by
  induction lines generalizing p with
  | nil => exact h
  | cons line rest ih =>
    rw [printAll_cons] at h
    exact good_of_print (ih h)

end Process
end Shepoo.Server
