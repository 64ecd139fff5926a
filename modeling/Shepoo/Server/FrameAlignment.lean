import Shepoo.Server.FrameRoundTrip
import Shepoo.Server.RequestSplit

/-! From the handshake to the first frame. The reader stops before the last line feed, the
drain asks for three bytes and gets the one that is left in its record. -/
namespace Shepoo.Server.FrameAlignment
open Foundation ByteSource BoundedLoop Records HandshakeReading RequestSplit

/-- The reader takes one byte off the connection at a time. -/
private theorem readerBody_ssl {σ : Type} [Source σ] {reader next : Reader σ}
    (h : readerBody reader = some next) : next.ssl = (Source.read 1 reader.ssl).2 := by
  have hs : (sslRead 1 [0] reader.ssl).2 = (Source.read 1 reader.ssl).2 := rfl
  rw [readerBody] at h
  generalize sslRead 1 [0] reader.ssl = pair at h hs
  obtain ⟨bytes,ssl⟩ := pair
  rw [← hs]
  simp only at h
  split at h
  · obtain ⟨table,_,rfl⟩ := Option.map_eq_some_iff.mp h
    rfl
  · split at h
    · split at h
      · cases h
      · split at h
        · cases h
          rfl
        · obtain ⟨table,_,rfl⟩ := Option.map_eq_some_iff.mp h
          rfl
    · cases h
      rfl

def Untouched (last : List Record) (reader : Reader Records) : Prop :=
  (stream last).length ≤ (Source.pending reader.ssl).length →
    ∃ left, reader.ssl = ⟨left ++ last,[]⟩

private theorem untouched_step (last : List Record) (reader next : Reader Records)
    (h : Untouched last reader) (hs : Step readerGuard readerBody reader next) :
    Untouched last next := by
  intro hlen
  have hssl := readerBody_ssl hs.2
  rw [hssl] at hlen ⊢
  have hless : (Source.pending (Source.read 1 reader.ssl).2).length ≤
      (Source.pending reader.ssl).length := by
    rw [pending_read,List.length_drop]
    exact Nat.sub_le _ _
  obtain ⟨left,hleft⟩ := h (hlen.trans hless)
  rw [hleft] at hlen ⊢
  exact read_keeps 1 left last hlen

/-- A lone line feed is a record of its own. -/
private theorem lone_record {left : List Record} {c : UInt8} (h : stream left = [c]) :
    ∃ record : Record, left = [record] ∧ record.val = [c] := by
  cases left with
  | nil => cases h
  | cons record left =>
    have hcons : record.val ++ stream left = [c] := h
    rcases List.append_eq_singleton_iff.mp hcons with ⟨hn,_⟩ | ⟨hr,hl⟩
    · exact absurd hn record.property
    · exact ⟨record,by rw [stream_eq_nil hl],hr⟩

/-- The drain ends with the record. -/
theorem drain_record {record : Record} {c : UInt8} (h : record.val = [c])
    (last : List Record) :
    (sslRead 3 (List.replicate 3 0) (⟨record::last,[]⟩ : Records)).2 = ⟨last,[]⟩ := by
  have hd : (⟨record::last,[]⟩ : Records).delivered 3 = 1 := by
    simp [delivered,h]
  change (⟨restore (record.val.drop ((⟨record::last,[]⟩ : Records).delivered 3)) last,[]⟩ :
    Records) = _
  rw [hd,h]
  rfl

/-- When the reader is done, the line feed is all that is left in front of the frames. -/
theorem done_before_lf (block : HeaderBlock) {cut frames : List Record}
    (hs : stream cut = block.bytes)
    (hfirst : (Source.read 10 (⟨cut ++ frames,[]⟩ : Records)).1.length = 10) {fuel : Nat}
    {reader : Reader Records}
    (hdone : readHeaders fuel (firstPacket (⟨cut ++ frames,[]⟩ : Records))
      (afterFirst (⟨cut ++ frames,[]⟩ : Records)) = .done reader) :
    ∃ record : Record, record.val = [lf] ∧ reader.ssl = ⟨record::frames,[]⟩ := by
  have hp : Source.pending (⟨cut ++ frames,[]⟩ : Records) = block.bytes ++ stream frames := by
    rw [pending_eq,stream_append,hs]
  obtain ⟨ssl',cost,hrest,hcost⟩ := readHeaders_block block hp hfirst
  obtain ⟨table,hfirstTen,hloop⟩ := Progress.bind_eq_done.mp hdone
  -- a larger budget ends in the same state
  have hsame : ⟨ssl',closedTable block.lines,true⟩ = reader := by
    have hbig := hcost (max fuel cost) (le_max_right _ _)
    rw [readHeaders,hfirstTen,Progress.bind_done,loop_mono (by rw [hloop]; simp)
      (le_max_left fuel cost),hloop] at hbig
    cases hbig
    rfl
  subst hsame
  have hconsumed : stream ssl'.cut = lf::stream frames := hrest
  have hstart : Untouched frames ⟨afterFirst (⟨cut ++ frames,[]⟩ : Records),table,false⟩ :=
    fun hlen => read_keeps 10 cut frames hlen
  have huntouched := invariant_of_reaches (Untouched frames) (untouched_step frames)
    (reaches_of_done hloop) hstart
  obtain ⟨left,hleft⟩ := huntouched (by
    rw [pending_eq,hconsumed,List.length_cons]
    exact Nat.le_succ _)
  change ssl' = _ at hleft
  rw [hleft,stream_append] at hconsumed
  have hlf : stream left = [lf] := List.append_cancel_right (hconsumed.trans rfl)
  obtain ⟨record,rfl,hrecord⟩ := lone_record hlf
  exact ⟨record,hrecord,hleft⟩

/-- With the end of the handshake at the end of a record, the drain takes the line feed and
nothing else, and the first frame is decoded from its first byte. -/
theorem first_frame_aligned (digest : Digest) (memory : Memory) (fuel : Nat)
    (block : HeaderBlock) (cut frames : List Record) (hs : stream cut = block.bytes)
    (hfirst : (Source.read 10 (⟨cut ++ frames,[]⟩ : Records)).1.length = 10)
    (key : List UInt8) (ssl : Records)
    (hpass : handshake fuel (firstPacket (⟨cut ++ frames,[]⟩ : Records))
      (afterFirst (⟨cut ++ frames,[]⟩ : Records)) = .done (.ok key,ssl)) :
    (sslRead 3 (List.replicate 3 0) ssl).2 = ⟨frames,[]⟩ ∧
    SecNet.construct digest memory fuel (⟨cut ++ frames,[]⟩ : Records) =
      ⟨(handleWebSocketFrame memory (⟨frames,[]⟩ : Records)).2,true,
        switchingProtocols (acceptKey digest key),
        (handleWebSocketFrame memory (⟨frames,[]⟩ : Records)).1⟩ := by
  obtain ⟨reader,hreader,hrest⟩ := Progress.bind_eq_done.mp hpass
  obtain ⟨extracted,_,hresult⟩ := Progress.bind_eq_done.mp hrest
  have hssl : reader.ssl = ssl := congrArg Prod.snd (Progress.done.inj hresult)
  obtain ⟨record,hrecord,hlast⟩ := done_before_lf block hs hfirst hreader
  rw [hssl] at hlast
  subst hlast
  have hdrain := drain_record hrecord frames
  refine ⟨hdrain,?_⟩
  have hp : Source.pending (⟨cut ++ frames,[]⟩ : Records) = block.bytes ++ stream frames := by
    rw [pending_eq,stream_append,hs]
  rw [construct_block block hp hfirst]
  rw [SecNet.handleWebSocket,hpass]
  simp only [hdrain]

/-- A request that passes both checks; its last header is not looked at. -/
def passingBlock : HeaderBlock where
  requestLine := ascii "GET /shepoo HTTP/1.1"
  headers := [ascii "Sec-WebSocket-Version: 13",ascii "Sec-WebSocket-Protocol: shepoo",
    ascii "Sec-WebSocket-Key: AQ==",ascii "Host: a"]
  isGet := by decide
  clean := by decide
  nonempty := by decide
  few := by decide
  long := by decide

def passingCut : List Record :=
  [⟨passingBlock.bytes.take 12,by decide⟩,⟨(passingBlock.bytes.drop 12).dropLast,by decide⟩,
    ⟨[lf],by decide⟩]

def textFrame : Record := ⟨[0x81,0],by decide⟩

set_option maxRecDepth 5000 in
theorem text_frame_aligned :
    (sslRead 3 (List.replicate 3 0) (⟨[⟨[lf],by decide⟩,textFrame],[]⟩ : Records)).2 =
      ⟨[textFrame],[]⟩ ∧
    SecNet.construct tableDigest FrameRoundTrip.someMemory 130
      (⟨passingCut ++ [textFrame],[]⟩ : Records) =
      ⟨(handleWebSocketFrame FrameRoundTrip.someMemory (⟨[textFrame],[]⟩ : Records)).2,true,
        switchingProtocols (ascii "y1pl+t+8DK4kj0WJs9VoQHVHbMo="),
        (handleWebSocketFrame FrameRoundTrip.someMemory (⟨[textFrame],[]⟩ : Records)).1⟩ := by
  rw [← acceptKey_table]
  exact first_frame_aligned tableDigest FrameRoundTrip.someMemory 130 passingBlock passingCut
    [textFrame] (by decide) rfl (ascii "AQ==") _ rfl

end Shepoo.Server.FrameAlignment
