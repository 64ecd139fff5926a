import Shepoo.Server.HandshakeReading
import Shepoo.Server.HeaderExtraction

/-! Upgrade requests with every required header somewhere among the others. The header
reader finds all lines; the extraction stops one line short of them. -/
namespace Shepoo.Server.UpgradeRequests
open Foundation ByteSource BoundedLoop HandshakeReading HeaderExtraction

structure HeaderField where
  name : List UInt8
  value : List UInt8
  noColon : colon ∉ name
  clean : Clean (name ++ value)

def HeaderField.line (field : HeaderField) : List UInt8 :=
  field.name ++ ascii ": " ++ field.value

structure UpgradeRequest where
  requestLine : List UInt8
  fields : List HeaderField
  key : List UInt8
  isGet : ascii "GET " <+: requestLine
  isHttp : ascii " HTTP/1.1" <:+ requestLine
  clean : Clean requestLine
  few : fields.length ≤ 13
  distinct : (fields.map HeaderField.name).Nodup
  hasVersion : ∃ field ∈ fields, field.name = HeaderName.version.text ∧ field.value = ascii "13"
  hasProtocol : ∃ field ∈ fields,
    field.name = HeaderName.protocol.text ∧ field.value = ascii "shepoo"
  hasKey : ∃ field ∈ fields, field.name = HeaderName.key.text ∧ field.value = key

namespace UpgradeRequest

def lines (request : UpgradeRequest) : List (List UInt8) :=
  request.requestLine::request.fields.map HeaderField.line

def stream (request : UpgradeRequest) (rest : List UInt8) : List UInt8 :=
  terminated request.lines ++ cr::lf::rest

def required (request : UpgradeRequest) : HeaderName → List UInt8
  | .version => ascii "13"
  | .protocol => ascii "shepoo"
  | .key => request.key

theorem has_required (request : UpgradeRequest) (x : HeaderName) :
    ∃ field ∈ request.fields, field.name = x.text ∧ field.value = request.required x := by
  cases x with
  | version => exact request.hasVersion
  | protocol => exact request.hasProtocol
  | key => exact request.hasKey

end UpgradeRequest

/-- Of the table a request leaves, the lines between the first and the last are visited. -/
theorem visitedLines_closedTable (requestLine : List UInt8) (headers : List (List UInt8)) :
    visitedLines (closedTable (requestLine::headers)) = headers.dropLast := by
  simp only [visitedLines,closedTable,tableOf,List.cons_append,List.drop_succ_cons,
    List.drop_zero,List.length_cons,Nat.add_sub_cancel,List.dropLast_eq_take]
  exact List.take_append_of_le_length (Nat.sub_le _ _)

section Lines
variable {σ : Type} [Source σ] {requestLine : List UInt8} {headers : List (List UInt8)}

private theorem extracted_lines (hl : (requestLine::headers).length < maxHeaders) (fuel : Nat) :
    extractHeaders fuel (closedTable (requestLine::headers)) =
      headers.dropLast.foldlM (extractLine fuel) Extracted.empty := by
  rw [extractHeaders_eq (closedTable_size hl) (closedTable_counted hl),visitedLines_closedTable]

/-- The handshake on a request given by its lines: what counts are the lines between the
request line and the last one. -/
theorem handshake_lines (hc : ∀ line ∈ requestLine::headers, Clean line)
    (hne : ∀ line ∈ requestLine::headers, line ≠ [])
    (hl : (requestLine::headers).length < maxHeaders)
    (hten : 10 ≤ (terminated (requestLine::headers)).length) {packet : Packet} {ssl : σ}
    {rest : List UInt8}
    (hp : packet.bytes ++ Source.pending ssl = terminated (requestLine::headers) ++ cr::rest) :
    ∃ ssl' cost, Source.pending ssl' = rest ∧ ∀ fuel, cost ≤ fuel →
      handshake fuel packet ssl = (do
        let extracted ← headers.dropLast.foldlM (extractLine fuel) Extracted.empty
        return (checkHeaders extracted,ssl')) := by
  obtain ⟨ssl',cost,hrest,hread⟩ := readHeaders_lines hc hne hl hten hp
  refine ⟨ssl',cost,hrest,fun fuel hf => ?_⟩
  rw [handshake,hread fuel hf,Progress.bind_done,extracted_lines hl]

end Lines

section Request
variable {request : UpgradeRequest} {rest : List UInt8}

/-- The process gets past both checks and answers the key the client sent. -/
def Accepted (request : UpgradeRequest) (rest : List UInt8) : Prop :=
  ∃ cost ssl, ∀ fuel, cost ≤ fuel →
    handshake fuel (Packet.ofBytes ((request.stream rest).take 10))
      (⟨(request.stream rest).drop 10⟩ : Wire) = .done (.ok request.key,ssl)

private theorem line_eq (field : HeaderField) :
    field.line = field.name ++ colon::32::field.value := by
  rw [HeaderField.line,List.append_assoc]
  rfl

private theorem headerName_line (field : HeaderField) : headerName field.line = field.name := by
  rw [line_eq,headerName_colon field.noColon]

private theorem headerContent_line (field : HeaderField) :
    headerContent field.line = field.value := by
  rw [line_eq,headerContent_colon field.noColon,List.drop_succ_cons,List.drop_zero]

private theorem line_clean (field : HeaderField) : Clean field.line := by
  obtain ⟨hcr,hlf⟩ := field.clean
  rw [List.mem_append,not_or] at hcr hlf
  have hcolon : Clean (ascii ": ") := ⟨by decide,by decide⟩
  simp only [Clean,HeaderField.line,List.mem_append,not_or]
  exact ⟨⟨⟨hcr.1,hcolon.1⟩,hcr.2⟩,⟨⟨hlf.1,hcolon.2⟩,hlf.2⟩⟩

private theorem line_ne_nil (field : HeaderField) : field.line ≠ [] := by
  have hs : 2 ≤ field.line.length := by
    simp only [HeaderField.line,List.length_append]
    have : (ascii ": ").length = 2 := rfl
    omega
  exact List.ne_nil_of_length_pos (by omega)

private theorem lines_clean : ∀ line ∈ request.lines, Clean line := by
  intro line hm
  rcases List.mem_cons.mp hm with rfl | hm
  · exact request.clean
  · obtain ⟨field,_,rfl⟩ := List.mem_map.mp hm
    exact line_clean field

private theorem requestLine_long (request : UpgradeRequest) : 9 ≤ request.requestLine.length :=
  request.isHttp.length_le

private theorem lines_ne_nil : ∀ line ∈ request.lines, line ≠ [] := by
  intro line hm
  rcases List.mem_cons.mp hm with rfl | hm
  · have := requestLine_long request
    exact List.ne_nil_of_length_pos (by omega)
  · obtain ⟨field,_,rfl⟩ := List.mem_map.mp hm
    exact line_ne_nil field

/-- The request line alone holds more than the ten bytes that are read first. -/
private theorem terminated_long (request : UpgradeRequest) : 10 ≤ (terminated request.lines).length := by
  have := requestLine_long request
  simp only [terminated,UpgradeRequest.lines,List.flatMap_cons,List.length_append,
    List.length_cons,List.length_nil]
  omega

private theorem handshake_request (request : UpgradeRequest) (rest : List UInt8) :
    ∃ ssl cost, ∀ fuel, cost ≤ fuel →
      handshake fuel (Packet.ofBytes ((request.stream rest).take 10))
        (⟨(request.stream rest).drop 10⟩ : Wire) = (do
          let extracted ← (request.fields.map HeaderField.line).dropLast.foldlM
            (extractLine fuel) Extracted.empty
          return (checkHeaders extracted,ssl)) := by
  have hlong := terminated_long request
  have hten : ((request.stream rest).take 10).length = 10 := by
    rw [List.length_take,UpgradeRequest.stream,List.length_append]
    omega
  have hlines : request.lines.length < maxHeaders := by
    have hfew := request.few
    simp only [UpgradeRequest.lines,List.length_cons,List.length_map,maxHeaders]
    omega
  have hp : (Packet.ofBytes ((request.stream rest).take 10)).bytes ++
      Source.pending (⟨(request.stream rest).drop 10⟩ : Wire) =
        terminated request.lines ++ cr::lf::rest := by
    rw [Packet.bytes_ofBytes hten,wire_pending,List.take_append_drop]
    rfl
  obtain ⟨ssl,cost,_,h⟩ := handshake_lines lines_clean lines_ne_nil hlines hlong hp
  exact ⟨ssl,cost,h⟩

/-- Among distinct names a field other than the last one is found. -/
private theorem get_found {init : List HeaderField} (hd : (init.map HeaderField.name).Nodup)
    {field : HeaderField} (hm : field ∈ init) {x : HeaderName} (hx : field.name = x.text) :
    ((init.map HeaderField.line).foldl extractStep Extracted.empty).get x = field.value := by
  obtain ⟨front,back,rfl⟩ := List.append_of_mem hm
  rw [List.map_append,List.map_cons,List.nodup_append] at hd
  have hback : ∀ line ∈ back.map HeaderField.line, headerName line ≠ x.text := by
    intro line hl hname
    obtain ⟨other,ho,rfl⟩ := List.mem_map.mp hl
    rw [headerName_line,← hx] at hname
    exact (List.nodup_cons.mp hd.2.1).1 (hname ▸ List.mem_map_of_mem ho)
  rw [List.map_append,List.map_cons,List.foldl_append,List.foldl_cons,get_unnamed hback,
    extractStep,get_assign,headerName_line,if_pos hx,headerContent_line]

private theorem get_missing {init : List HeaderField} {x : HeaderName}
    (hx : ∀ field ∈ init, field.name ≠ x.text) :
    ((init.map HeaderField.line).foldl extractStep Extracted.empty).get x = [] := by
  have hlines : ∀ line ∈ init.map HeaderField.line, headerName line ≠ x.text := by
    intro line hm
    obtain ⟨field,hfield,rfl⟩ := List.mem_map.mp hm
    rw [headerName_line]
    exact hx field hfield
  rw [get_unnamed hlines,get_empty]

/-- A header is extracted as sent unless it stands last and is not empty. -/
private theorem get_required {init : List HeaderField} {last : HeaderField}
    (hfields : request.fields = init ++ [last]) (x : HeaderName) :
    ((init.map HeaderField.line).foldl extractStep Extracted.empty).get x = request.required x ↔
      (last.name = x.text → request.required x = []) := by
  have hd := request.distinct
  obtain ⟨field,hm,hname,hvalue⟩ := request.has_required x
  rw [hfields] at hd hm
  rw [List.map_append,List.map_singleton,List.nodup_append] at hd
  have hlast (other : HeaderField) (ho : other ∈ init) : other.name ≠ last.name :=
    hd.2.2 _ (List.mem_map_of_mem ho) _ List.mem_cons_self
  rcases List.mem_append.mp hm with hinit | hend
  · have hne : last.name ≠ x.text := fun h => hlast field hinit (hname.trans h.symm)
    exact iff_of_true ((get_found hd.1 hinit hname).trans hvalue) fun h => absurd h hne
  · obtain rfl := List.mem_singleton.mp hend
    have hmissing : ∀ other ∈ init, other.name ≠ x.text := fun other ho h =>
      hlast other ho (h.trans hname.symm)
    rw [get_missing hmissing]
    exact ⟨fun h _ => h.symm,fun h => (h hname).symm⟩

private theorem checkHeaders_ok {extracted : Extracted} {key : List UInt8} :
    checkHeaders extracted = .ok key ↔ extracted.get .version = ascii "13" ∧
      extracted.get .protocol = ascii "shepoo" ∧ extracted.get .key = key := by
  unfold checkHeaders
  simp only [Extracted.get]
  split
  · next hv =>
    rw [iff_false_left fun he => by cases he]
    exact fun hc => hv hc.1
  · next hv =>
    split
    · next hp =>
      rw [iff_false_left fun he => by cases he]
      exact fun hc => hp hc.2.1
    · next hp =>
      rw [Except.ok.injEq]
      exact ⟨fun h => ⟨not_not.mp hv,not_not.mp hp,h⟩,fun h => h.2.2⟩

/-- Both checks pass with the right key when all three are extracted as sent. -/
private theorem check_required {extracted : Extracted} :
    checkHeaders extracted = .ok request.key ↔
      ∀ x, extracted.get x = request.required x := by
  rw [checkHeaders_ok]
  constructor
  · rintro ⟨hv,hp,hk⟩ x
    cases x with
    | version => exact hv
    | protocol => exact hp
    | key => exact hk
  · intro h
    exact ⟨h .version,h .protocol,h .key⟩

private theorem accepted_short {init : List HeaderField} {last : HeaderField}
    (hfields : request.fields = init ++ [last])
    (hs : ∀ field ∈ init, field.line.length < 2^32) :
    Accepted request rest ↔ ∀ x : HeaderName, last.name = x.text → request.required x = [] := by
  obtain ⟨ssl,cost,hrun⟩ := handshake_request request rest
  have hinit : (request.fields.map HeaderField.line).dropLast = init.map HeaderField.line := by
    rw [hfields,List.map_append,List.map_singleton,List.dropLast_concat]
  have hs' : ∀ line ∈ init.map HeaderField.line, line.length < 2^32 := by
    intro line hm
    obtain ⟨field,hfield,rfl⟩ := List.mem_map.mp hm
    exact hs field hfield
  obtain ⟨cost',hextract⟩ := extract_short hs'
  have hdone (fuel : Nat) (hf : max cost cost' ≤ fuel) :
      handshake fuel (Packet.ofBytes ((request.stream rest).take 10))
        (⟨(request.stream rest).drop 10⟩ : Wire) = .done
          (checkHeaders ((init.map HeaderField.line).foldl extractStep Extracted.empty),ssl) := by
    rw [hrun fuel (le_of_max_le_left hf),hinit,hextract fuel (le_of_max_le_right hf)]
    rfl
  rw [← forall_congr' (get_required hfields),← check_required]
  constructor
  · rintro ⟨cost₀,ssl₀,h⟩
    have h₁ := h (max cost₀ (max cost cost')) (le_max_left _ _)
    rw [hdone _ (le_max_right _ _),Progress.done.injEq] at h₁
    exact congrArg Prod.fst h₁
  · intro h
    exact ⟨_,ssl,fun fuel hf => by rw [hdone fuel hf,h]⟩

private theorem not_accepted_long {init : List HeaderField} {last field : HeaderField}
    (hfields : request.fields = init ++ [last]) (hm : field ∈ init)
    (hl : 2^32 ≤ field.line.length) : ¬ Accepted request rest := by
  rintro ⟨cost₀,ssl₀,h⟩
  obtain ⟨ssl,cost,hrun⟩ := handshake_request request rest
  have hrun₀ := h (max cost₀ cost) (le_max_left _ _)
  rw [hrun _ (le_max_right _ _),hfields,List.map_append,List.map_singleton,
    List.dropLast_concat] at hrun₀
  obtain ⟨extracted,he,_⟩ := Progress.bind_eq_done.mp hrun₀
  exact extract_long (List.mem_map_of_mem hm) hl _ _ _ he

end Request

/-- The required headers are found exactly when none of them stands last, an empty key
excepted, and no line before the last has 2^32 bytes or more. -/
theorem request_accepted_iff (request : UpgradeRequest) (rest : List UInt8) :
    Accepted request rest ↔
      (∀ last ∈ request.fields.getLast?, last.name ≠ HeaderName.version.text ∧
        last.name ≠ HeaderName.protocol.text ∧
        (last.name = HeaderName.key.text → request.key = [])) ∧
      ∀ field ∈ request.fields.dropLast, field.line.length < 2^32 := by
  obtain ⟨_,hm,_⟩ := request.hasVersion
  obtain ⟨init,last,hfields⟩ : ∃ init last, request.fields = init ++ [last] :=
    ⟨_,_,(List.dropLast_concat_getLast (List.ne_nil_of_mem hm)).symm⟩
  rw [hfields,List.getLast?_concat,List.dropLast_concat]
  by_cases hs : ∀ field ∈ init, field.line.length < 2^32
  · rw [accepted_short hfields hs,and_iff_left hs]
    constructor
    · intro h l hl
      obtain rfl := Option.some.inj (Option.mem_def.mp hl)
      exact ⟨fun he => absurd (h .version he) (show ascii "13" ≠ [] by decide),
        fun he => absurd (h .protocol he) (show ascii "shepoo" ≠ [] by decide),h .key⟩
    · intro h x he
      obtain ⟨hv,hp,hk⟩ := h last rfl
      cases x with
      | version => exact absurd he hv
      | protocol => exact absurd he hp
      | key => exact hk he
  · refine iff_of_false ?_ fun h => hs h.2
    push Not at hs
    obtain ⟨field,hfield,hl⟩ := hs
    exact not_accepted_long hfields hfield hl

def protocolLast : UpgradeRequest where
  requestLine := ascii "GET / HTTP/1.1"
  fields := [⟨HeaderName.version.text,ascii "13",by decide,by decide⟩,
    ⟨HeaderName.key.text,ascii "AQ==",by decide,by decide⟩,
    ⟨HeaderName.protocol.text,ascii "shepoo",by decide,by decide⟩]
  key := ascii "AQ=="
  isGet := by decide
  isHttp := by decide
  clean := by decide
  few := by decide
  distinct := by decide
  hasVersion := ⟨_,List.mem_cons_self,rfl,rfl⟩
  hasProtocol := ⟨_,List.mem_cons_of_mem _ (List.mem_cons_of_mem _ List.mem_cons_self),rfl,rfl⟩
  hasKey := ⟨_,List.mem_cons_of_mem _ List.mem_cons_self,rfl,rfl⟩

/-- Its last header is never looked at, and the protocol counts as missing. -/
theorem protocolLast_refused : ¬ Accepted protocolLast [] := by
  have hfields : protocolLast.fields =
      protocolLast.fields.take 2 ++ [⟨HeaderName.protocol.text,ascii "shepoo",
        by decide,by decide⟩] := rfl
  rw [accepted_short hfields (by decide)]
  intro h
  exact absurd (h .protocol rfl) (by decide)

end Shepoo.Server.UpgradeRequests
