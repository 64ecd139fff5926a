import Shepoo.Foundation.BoundedLoop
import Shepoo.Server.WebSocketFrame

/-! The WebSocket handshake: a reader that splits the request into a table of lines,
the loops that extract three headers from it, and the checks on two of them. -/
namespace Shepoo.Server
open Foundation ByteCodec ByteSource BoundedLoop

def ascii (text : String) : List UInt8 := text.toList.map fun c => UInt8.ofNat c.toNat

def cr : UInt8 := 13
def lf : UInt8 := 10
def colon : UInt8 := 58

/-- The size of the table, request line included. -/
def maxHeaders : Nat := 15

structure HeaderTable where
  headerLines : List (List UInt8)
  headers : Nat
  deriving DecidableEq, Repr

namespace HeaderTable

def empty : HeaderTable := ⟨List.replicate maxHeaders [],0⟩

/-- `headerLines[headers] += c`; no result for an index outside of the table. -/
def append (c : UInt8) (table : HeaderTable) : Option HeaderTable :=
  match table.headerLines[table.headers]? with
  | none => none
  | some line =>
    some { table with headerLines := table.headerLines.set table.headers (line ++ [c]) }

/-- `headers++; headerLines[headers] = ""` -/
def nextLine (table : HeaderTable) : Option HeaderTable :=
  if table.headers+1 < table.headerLines.length then
    some ⟨table.headerLines.set (table.headers+1) [],table.headers+1⟩
  else none

/-- One byte of the packet header that the constructor has read already. -/
def prefixStep (table : HeaderTable) (c : UInt8) : Option HeaderTable :=
  if c ≠ cr ∧ c ≠ lf then table.append c
  else if c = cr then table.nextLine
  else some table

end HeaderTable

def readPrefix (packet : Packet) : Option HeaderTable :=
  packet.bytes.foldlM HeaderTable.prefixStep HeaderTable.empty

structure Reader (σ : Type) where
  ssl : σ
  table : HeaderTable
  headerEnd : Bool

section Reader
variable {σ : Type} [Source σ]

def readerGuard (reader : Reader σ) : Bool :=
  !reader.headerEnd && decide (reader.table.headers < maxHeaders)

/-- One byte off the connection; where no byte comes `c` keeps the value zero. -/
def readerBody (reader : Reader σ) : Option (Reader σ) :=
  let (bytes,ssl) := sslRead 1 [0] reader.ssl
  let c := bytes.getD 0 0
  if c ≠ cr ∧ c ≠ lf then
    (reader.table.append c).map fun table => ⟨ssl,table,reader.headerEnd⟩
  else if c = cr then
    match reader.table.headerLines[reader.table.headers]? with
    | none => none
    | some line =>
      if line = [] then
        some ⟨ssl,{ reader.table with headers := reader.table.headers-1 },true⟩
      else reader.table.nextLine.map fun table => ⟨ssl,table,reader.headerEnd⟩
  else some { reader with ssl := ssl }

def readHeaders (fuel : Nat) (packet : Packet) (ssl : σ) : Progress (Reader σ) := do
  let table ← Progress.ofOption (readPrefix packet)
  loop readerGuard readerBody fuel ⟨ssl,table,false⟩

end Reader

structure Copy where
  j : UInt32
  text : List UInt8
  deriving DecidableEq, Repr

def copyGuard (stop : UInt8 → Bool) (line : List UInt8) (s : Copy) : Bool :=
  decide (s.j.toNat < line.length) && !stop (line.getD s.j.toNat 0)

def copyBody (line : List UInt8) (s : Copy) : Option Copy :=
  some ⟨s.j+1,s.text ++ [line.getD s.j.toNat 0]⟩

/-- A character loop over a line; the index is an `unsigned int`. -/
def copy (stop : UInt8 → Bool) (line : List UInt8) (fuel : Nat) (s : Copy) : Progress Copy :=
  loop (copyGuard stop line) (copyBody line) fuel s

/-- Header name and content of a line: up to the colon, and from two positions past it. -/
def splitHeader (fuel : Nat) (line : List UInt8) : Progress (List UInt8 × List UInt8) := do
  let name ← copy (· == colon) line fuel ⟨0,[]⟩
  let content ← copy (fun _ => false) line fuel ⟨name.j+2,[]⟩
  return (name.text,content.text)

inductive HeaderName where
  | protocol
  | version
  | key
  deriving DecidableEq, Repr

def HeaderName.text : HeaderName → List UInt8
  | .protocol => ascii "Sec-WebSocket-Protocol"
  | .version => ascii "Sec-WebSocket-Version"
  | .key => ascii "Sec-WebSocket-Key"

structure Extracted where
  protocol : List UInt8
  key : List UInt8
  version : List UInt8
  deriving DecidableEq, Repr

namespace Extracted

def empty : Extracted := ⟨[],[],[]⟩

def get (extracted : Extracted) : HeaderName → List UInt8
  | .protocol => extracted.protocol
  | .version => extracted.version
  | .key => extracted.key

def assign (extracted : Extracted) (headerName headerContent : List UInt8) : Extracted :=
  if headerName = HeaderName.protocol.text then { extracted with protocol := headerContent }
  else if headerName = HeaderName.version.text then { extracted with version := headerContent }
  else if headerName = HeaderName.key.text then { extracted with key := headerContent }
  else extracted

end Extracted

def extractLine (fuel : Nat) (extracted : Extracted) (line : List UInt8) : Progress Extracted := do
  let (headerName,headerContent) ← splitHeader fuel line
  return extracted.assign headerName headerContent

/-- The loop `for(int i = 1; i < headers; i++)` -/
def extractHeaders (fuel : Nat) (table : HeaderTable) : Progress Extracted :=
  (List.range' 1 (table.headers-1)).foldlM (fun extracted i => do
    let line ← Progress.ofOption table.headerLines[i]?
    extractLine fuel extracted line) Extracted.empty

def checkHeaders (extracted : Extracted) : Except Refusal (List UInt8) :=
  if extracted.version ≠ ascii "13" then
    .error (.unsupportedWebSocketVersion extracted.version)
  else if extracted.protocol ≠ ascii "shepoo" then
    .error (.unsupportedProtocol extracted.protocol)
  else .ok extracted.key

def handshake {σ : Type} [Source σ] (fuel : Nat) (packet : Packet) (ssl : σ) :
    Progress (Except Refusal (List UInt8) × σ) := do
  let reader ← readHeaders fuel packet ssl
  let extracted ← extractHeaders fuel reader.table
  return (checkHeaders extracted,reader.ssl)

end Shepoo.Server
