import Shepoo.Server.HandshakeReading
import Shepoo.Server.SecNet

/-! A request line and up to thirteen headers on their way through both reading loops. The
first ten bytes come with one read, the rest in records of any size. -/
namespace Shepoo.Server.RequestSplit
open Foundation ByteSource BoundedLoop HandshakeReading

structure HeaderBlock where
  requestLine : List UInt8
  headers : List (List UInt8)
  isGet : ascii "GET " <+: requestLine
  clean : ∀ line ∈ requestLine::headers, Clean line
  nonempty : ∀ line ∈ headers, line ≠ []
  few : headers.length ≤ 13
  /-- the closing carriage return lies behind the tenth byte -/
  long : 10 ≤ (terminated (requestLine::headers)).length

namespace HeaderBlock

def lines (block : HeaderBlock) : List (List UInt8) := block.requestLine::block.headers

def bytes (block : HeaderBlock) : List UInt8 := terminated block.lines ++ [cr,lf]

theorem lines_ne_nil (block : HeaderBlock) : ∀ line ∈ block.lines, line ≠ [] := by
  intro line hm
  rcases List.mem_cons.mp hm with rfl | hm
  · have hl := block.isGet.length_le
    exact List.ne_nil_of_length_pos (Nat.lt_of_lt_of_le (by decide) hl)
  · exact block.nonempty line hm

theorem isGet_bytes (block : HeaderBlock) : ascii "GET " <+: block.bytes := by
  refine block.isGet.trans ?_
  simp only [bytes,lines,terminated,List.flatMap_cons,List.append_assoc]
  exact List.prefix_append _ _

theorem lines_few (block : HeaderBlock) : block.lines.length < maxHeaders :=
  Nat.lt_of_le_of_lt (Nat.succ_le_succ block.few) (by decide)

end HeaderBlock

section Stream
variable {σ : Type} [Source σ]

/-- The packet header that handleWebSocket is called with. -/
def firstPacket (ssl : σ) : Packet := Packet.ofBytes (sslRead 10 (List.replicate 10 0) ssl).1

def afterFirst (ssl : σ) : σ := (Source.read 10 ssl).2

/-- A full first read is the packet header, byte by byte. -/
theorem firstPacket_bytes {ssl : σ} (h : (Source.read 10 ssl).1.length = 10) :
    (firstPacket ssl).bytes = (Source.read 10 ssl).1 := by
  have hfull : (List.replicate 10 (0 : UInt8)).length = (Source.read 10 ssl).1.length :=
    List.length_replicate.trans h.symm
  rw [firstPacket,sslRead_first,fill_full hfull,Packet.bytes_ofBytes h]

theorem firstPacket_append {ssl : σ} (h : (Source.read 10 ssl).1.length = 10) :
    (firstPacket ssl).bytes ++ Source.pending (afterFirst ssl) = Source.pending ssl := by
  rw [firstPacket_bytes h]
  exact Source.read_append 10 ssl

structure SplitsInto (block : HeaderBlock) (rest : List UInt8) (reader : Reader σ) : Prop where
  headerEnd : reader.headerEnd = true
  headers : reader.table.headers = block.headers.length
  requestLine : reader.table.headerLines[0]? = some block.requestLine
  lines : ∀ i < block.headers.length, reader.table.headerLines[i+1]? = block.headers[i]?
  closing : reader.table.headerLines[block.headers.length+1]? = some []
  consumed : Source.pending reader.ssl = lf::rest

private theorem closedTable_splits {block : HeaderBlock} {rest : List UInt8} {ssl : σ}
    (hp : Source.pending ssl = lf::rest) :
    SplitsInto block rest (⟨ssl,closedTable block.lines,true⟩ : Reader σ) := by
  have hlines : (closedTable block.lines).headerLines = block.requestLine::(block.headers ++
      []::List.replicate (maxHeaders-1-block.lines.length) []) := rfl
  constructor
  case headerEnd => rfl
  case headers => rfl
  case requestLine => rw [hlines,List.getElem?_cons_zero]
  case lines =>
    intro i hi
    rw [hlines,List.getElem?_cons_succ,List.getElem?_append_left hi]
  case closing =>
    rw [hlines,List.getElem?_cons_succ,List.getElem?_append_right le_rfl,Nat.sub_self]
    rfl
  case consumed => exact hp

/-- The loops end with the table of the block's lines, however the source cuts the stream
behind the first ten bytes. -/
theorem readHeaders_block (block : HeaderBlock) {ssl : σ} {rest : List UInt8}
    (hp : Source.pending ssl = block.bytes ++ rest)
    (hfirst : (Source.read 10 ssl).1.length = 10) :
    ∃ ssl' cost, Source.pending ssl' = lf::rest ∧ ∀ fuel, cost ≤ fuel →
      readHeaders fuel (firstPacket ssl) (afterFirst ssl) =
        .done ⟨ssl',closedTable block.lines,true⟩ := by
  have hstream : (firstPacket ssl).bytes ++ Source.pending (afterFirst ssl) =
      terminated block.lines ++ cr::lf::rest := by
    rw [firstPacket_append hfirst,hp,HeaderBlock.bytes,List.append_assoc]
    rfl
  exact readHeaders_lines block.clean block.lines_ne_nil block.lines_few block.long hstream

/-- A block is taken for a GET request and handed to the handshake. -/
theorem construct_block (block : HeaderBlock) {ssl : σ} {rest : List UInt8}
    (hp : Source.pending ssl = block.bytes ++ rest)
    (hfirst : (Source.read 10 ssl).1.length = 10) (digest : Digest) (memory : Memory)
    (fuel : Nat) :
    SecNet.construct digest memory fuel ssl =
      SecNet.handleWebSocket digest memory fuel (firstPacket ssl) (afterFirst ssl) := by
  have hget : isGet (fill (List.replicate 10 0) (Source.read 10 ssl).1) = true := by
    rw [isGet_fill hfirst.le]
    refine List.prefix_of_prefix_length_le ?_ (read_front ssl) (by rw [hfirst]; decide)
    rw [hp]
    exact block.isGet_bytes.trans (List.prefix_append _ _)
  exact SecNet.construct_get (sslRead_first ssl) hget

/-- The loops end, with the request in the table line by line and the closing line feed
still to be read, however the source cuts the stream behind the first ten bytes. -/
theorem header_block_split (block : HeaderBlock) (ssl : σ) (rest : List UInt8)
    (hp : Source.pending ssl = block.bytes ++ rest)
    (hfirst : (Source.read 10 ssl).1.length = 10) :
    ∃ reader cost, SplitsInto block rest reader ∧ ∀ fuel, cost ≤ fuel →
      readHeaders fuel (firstPacket ssl) (afterFirst ssl) = .done reader := by
  obtain ⟨ssl',cost,hrest,hdone⟩ := readHeaders_block block hp hfirst
  exact ⟨_,cost,closedTable_splits hrest,hdone⟩

/-- A request line of nine bytes and one header: the first read ends between the carriage
return and the line feed of the line. -/
def shortBlock : HeaderBlock where
  requestLine := ascii "GET /abcd"
  headers := [ascii "Host: a"]
  isGet := by decide
  clean := by decide
  nonempty := by decide
  few := by decide
  long := by decide

theorem shortBlock_split :
    ∃ (reader : Reader Wire) (cost : Nat), SplitsInto shortBlock [1,2] reader ∧
      ∀ fuel, cost ≤ fuel →
        readHeaders fuel (firstPacket (⟨shortBlock.bytes ++ [1,2]⟩ : Wire))
          (afterFirst (⟨shortBlock.bytes ++ [1,2]⟩ : Wire)) = .done reader :=
  header_block_split shortBlock (⟨shortBlock.bytes ++ [1,2]⟩ : Wire) [1,2] rfl rfl

end Stream

end Shepoo.Server.RequestSplit
