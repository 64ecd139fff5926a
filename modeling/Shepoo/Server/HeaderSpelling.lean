import Shepoo.Foundation.FieldSpelling
import Shepoo.Server.FrameRoundTrip
import Shepoo.Server.HeaderAttribution
import Shepoo.Server.RequestSplit
import Shepoo.Server.UpgradeRequests

/-! Requests that differ only in how their header fields are spelled. Names are compared
byte for byte and two bytes are skipped behind a name, so the spelling of each of the three
headers decides what is extracted. -/
namespace Shepoo.Server.HeaderSpelling
open Foundation ByteSource BoundedLoop HandshakeReading HeaderExtraction RequestSplit
open FieldSpelling (Respelled lower blank fieldName fieldValue tight spell quiet)

def Respells (block block' : HeaderBlock) : Prop :=
  block'.requestLine = block.requestLine ∧ List.Forall₂ Respelled block.headers block'.headers

/-- A connection that the block comes first on, its first ten bytes with one read. -/
structure Carries (block : HeaderBlock) (ssl : Records) : Prop where
  sent : ∃ rest, Source.pending ssl = block.bytes ++ rest
  first : (Source.read 10 ssl).1.length = 10

def Extracts (ssl : Records) (extracted : Extracted) : Prop :=
  ∃ reader : Reader Records,
    (∃ cost, ∀ fuel, cost ≤ fuel →
      readHeaders fuel (firstPacket ssl) (afterFirst ssl) = .done reader) ∧
    HeaderAttribution.Extracts reader.table extracted

/-- The client gets its 101. -/
def Answers (digest : Digest) (memory : Memory) (ssl : Records) : Prop :=
  ∃ cost key, ∀ fuel, cost ≤ fuel →
    (SecNet.construct digest memory fuel ssl).written =
      switchingProtocols (acceptKey digest key)

/-- All spellings of a block that are extracted give the same values, and either all of
them are answered or none. -/
def SpellingIrrelevant (block : HeaderBlock) : Prop :=
  ∀ first second, Respells block first → Respells block second →
    ∀ ssl ssl', Carries first ssl → Carries second ssl' →
      (∀ extracted extracted', Extracts ssl extracted → Extracts ssl' extracted' →
        extracted = extracted') ∧
      ∀ digest memory, Answers digest memory ssl ↔ Answers digest memory ssl'

/-- Every visited field that has one of the three names in some letter case stands before a
line that consists of that name alone. -/
def Overruled (block : HeaderBlock) : Prop :=
  ∀ (x : HeaderName) front line back, block.headers.dropLast = front ++ line::back →
    colon ∈ line → (fieldName line).map lower = x.text.map lower → x.text ∈ back

def Overlong (block : HeaderBlock) : Prop :=
  ∃ line ∈ block.headers.dropLast, 2^32 ≤ (tight line).length

section Run
variable {block : HeaderBlock} {ssl : Records}

def valuesOf (block : HeaderBlock) : Extracted :=
  block.headers.dropLast.foldl extractStep Extracted.empty

private theorem table_visited (block : HeaderBlock) :
    visitedLines (closedTable block.lines) = block.headers.dropLast :=
  UpgradeRequests.visitedLines_closedTable block.requestLine block.headers

private theorem table_extracts (block : HeaderBlock) {extracted : Extracted} :
    HeaderAttribution.Extracts (closedTable block.lines) extracted ↔
      (∀ line ∈ block.headers.dropLast, line.length < 2^32) ∧ extracted = valuesOf block := by
  rw [HeaderAttribution.extracts_iff (closedTable_size block.lines_few)
    (closedTable_counted block.lines_few),table_visited,valuesOf]

theorem extracts_iff (h : Carries block ssl) {extracted : Extracted} :
    Extracts ssl extracted ↔
      (∀ line ∈ block.headers.dropLast, line.length < 2^32) ∧ extracted = valuesOf block := by
  obtain ⟨rest,hp⟩ := h.sent
  obtain ⟨ssl',cost,_,hread⟩ := readHeaders_block block hp h.first
  rw [← table_extracts]
  constructor
  · rintro ⟨reader,⟨cost',hread'⟩,hextract⟩
    have hr := hread' (max cost cost') (le_max_right _ _)
    rw [hread _ (le_max_left _ _),Progress.done.injEq] at hr
    subst hr
    exact hextract
  · intro hextract
    exact ⟨_,⟨cost,hread⟩,hextract⟩

private theorem switchingProtocols_ne_nil (text : List UInt8) : switchingProtocols text ≠ [] := by
  intro h
  have hend : ascii "\r\nSec-WebSocket-Protocol: shepoo\r\n\r\n" = [] :=
    (List.append_eq_nil_iff.mp h).2
  exact absurd hend (by decide)

/-- An answer needs a handshake that is done, and passed. -/
private theorem written_answer {digest : Digest} {memory : Memory} {fuel : Nat} {packet : Packet}
    {ssl : Records} {key : List UInt8}
    (h : (SecNet.handleWebSocket digest memory fuel packet ssl).written =
      switchingProtocols (acceptKey digest key)) :
    ∃ key' ssl', handshake fuel packet ssl = .done (.ok key',ssl') := by
  have hne := switchingProtocols_ne_nil (acceptKey digest key)
  unfold SecNet.handleWebSocket at h
  split at h
  · exact absurd h.symm hne
  · exact absurd h.symm hne
  · exact absurd h.symm hne
  · next key' ssl' he => exact ⟨key',ssl',he⟩

theorem answers_iff (h : Carries block ssl) (digest : Digest) (memory : Memory) :
    Answers digest memory ssl ↔
      (∀ line ∈ block.headers.dropLast, line.length < 2^32) ∧
        ∃ key, checkHeaders (valuesOf block) = .ok key := by
  obtain ⟨rest,hp⟩ := h.sent
  obtain ⟨ssl',cost,_,hread⟩ := readHeaders_block block hp h.first
  have hshake (fuel : Nat) (hf : cost ≤ fuel) :
      handshake fuel (firstPacket ssl) (afterFirst ssl) = (do
        let extracted ← extractHeaders fuel (closedTable block.lines)
        return (checkHeaders extracted,ssl')) := by
    rw [handshake,hread fuel hf,Progress.bind_done]
  simp only [Answers,construct_block block hp h.first]
  constructor
  · rintro ⟨cost₀,key,hw⟩
    have hpassed (fuel : Nat) (hf : max cost cost₀ ≤ fuel) : ∃ extracted key',
        extractHeaders fuel (closedTable block.lines) = .done extracted ∧
          checkHeaders extracted = .ok key' := by
      obtain ⟨key',ssl₁,he⟩ := written_answer (hw fuel (le_of_max_le_right hf))
      rw [hshake fuel (le_of_max_le_left hf)] at he
      obtain ⟨extracted,hextract,hcheck⟩ := Progress.bind_eq_done.mp he
      exact ⟨extracted,key',hextract,congrArg Prod.fst (Progress.done.inj hcheck)⟩
    obtain ⟨_,_,hdone,_⟩ := hpassed _ le_rfl
    have hshort := HeaderAttribution.short_of_done (closedTable_size block.lines_few)
      (closedTable_counted block.lines_few) hdone
    rw [table_visited] at hshort
    obtain ⟨cost₁,hextract⟩ := (table_extracts block).mpr ⟨hshort,rfl⟩
    obtain ⟨extracted,key',he,hcheck⟩ := hpassed (max (max cost cost₀) cost₁) (le_max_left _ _)
    rw [hextract _ (le_max_right _ _),Progress.done.injEq] at he
    exact ⟨hshort,key',he ▸ hcheck⟩
  · rintro ⟨hshort,key,hkey⟩
    obtain ⟨cost',hextract⟩ := (table_extracts block).mpr ⟨hshort,rfl⟩
    refine ⟨max cost cost',key,fun fuel hf => ?_⟩
    have hdone : handshake fuel (firstPacket ssl) (afterFirst ssl) = .done (.ok key,ssl') := by
      rw [hshake fuel (le_of_max_le_left hf),hextract fuel (le_of_max_le_right hf),
        Progress.bind_done,hkey]
      rfl
    rw [SecNet.handleWebSocket,hdone]

end Run

section Lines
variable {lines lines' : List (List UInt8)} {x : HeaderName}

/-- A line without a colon has nothing behind its name. -/
private theorem headerContent_bare {line : List UInt8} (h : colon ∉ line) :
    headerName line = line ∧ headerContent line = [] := by
  have hn : headerName line = line := by
    rw [headerName,List.takeWhile_eq_self_iff]
    intro c hc
    exact bne_iff_ne.mpr fun he => h (he ▸ hc)
  refine ⟨hn,?_⟩
  rw [headerContent,hn]
  exact List.drop_eq_nil_of_le (Nat.le_add_right _ _)

/-- A value stays empty if every field of the name comes before a bare line of it. -/
theorem get_overruled (h : ∀ front line back, lines = front ++ line::back → colon ∈ line →
      headerName line = x.text → x.text ∈ back) :
    (lines.foldl extractStep Extracted.empty).get x = [] := by
  induction lines using List.reverseRecOn with
  | nil => exact get_empty x
  | append_singleton lines line ih =>
    rw [List.foldl_append,List.foldl_cons,List.foldl_nil,extractStep,get_assign]
    by_cases hx : headerName line = x.text
    · rw [if_pos hx]
      by_cases hc : colon ∈ line
      · exact absurd (h lines line [] rfl hc hx) List.not_mem_nil
      · exact (headerContent_bare hc).2
    · rw [if_neg hx]
      refine ih fun front line' back he hc hn => ?_
      have hm := h front line' (back ++ [line]) (by rw [he]; simp) hc hn
      rcases List.mem_append.mp hm with hm | hm
      · exact hm
      · rw [← List.mem_singleton.mp hm] at hx
        exact absurd (headerContent_bare (colon_notin_text x)).1 hx

private theorem respelled_split {front' back' : List (List UInt8)} {line' : List UInt8}
    (h : List.Forall₂ Respelled lines (front' ++ line'::back')) :
    ∃ front line back, lines = front ++ line::back ∧ Respelled line line' ∧
      List.Forall₂ Respelled back back' := by
  have hd := List.forall₂_drop_append _ _ _ h
  obtain ⟨line,back,hline,hback,he⟩ := List.forall₂_cons_right_iff.mp hd
  exact ⟨lines.take front'.length,line,back,by rw [← he,List.take_append_drop],hline,hback⟩

private theorem related_mem {R : List UInt8 → List UInt8 → Prop}
    (h : List.Forall₂ R lines lines') {line : List UInt8} (hm : line ∈ lines) :
    ∃ line' ∈ lines', R line line' := by
  induction h with
  | nil => cases hm
  | @cons _ first' _ _ hfirst _ ih =>
    rcases List.mem_cons.mp hm with rfl | hm
    · exact ⟨first',List.mem_cons_self,hfirst⟩
    · obtain ⟨line',hm',hline⟩ := ih hm
      exact ⟨line',List.mem_cons_of_mem _ hm',hline⟩

/-- A bare line is the same in every spelling. -/
private theorem bare_kept (h : List.Forall₂ Respelled lines lines') {line : List UInt8}
    (hm : line ∈ lines) (hc : colon ∉ line) : line ∈ lines' := by
  obtain ⟨line',hm',hline⟩ := related_mem h hm
  rcases hline.cases_colon with ⟨_,rfl⟩ | ⟨hcolon,_⟩
  · exact hm'
  · exact absurd hcolon hc

end Lines

private theorem dropLast_respelled {lines lines' : List (List UInt8)}
    (h : List.Forall₂ Respelled lines lines') :
    List.Forall₂ Respelled lines.dropLast lines'.dropLast := by
  rw [List.dropLast_eq_take,List.dropLast_eq_take,← h.length_eq]
  exact List.forall₂_take _ h

/-- Under the condition on the names no spelling leaves anything in the three values. -/
private theorem values_overruled {block block' : HeaderBlock} (h : Overruled block)
    (hr : Respells block block') : valuesOf block' = Extracted.empty := by
  apply extracted_ext
  intro x
  rw [get_empty,valuesOf]
  refine get_overruled fun front' line' back' he hc hn => ?_
  have hd := dropLast_respelled hr.2
  rw [he] at hd
  obtain ⟨front,line,back,hlines,hline,hback⟩ := respelled_split hd
  rcases hline.cases_colon with ⟨hbare,rfl⟩ | ⟨hcolon,_,hnames⟩
  · exact absurd hc hbare
  · have hname : (fieldName line').map lower = x.text.map lower := congrArg _ hn
    exact bare_kept hback (h x front line back hlines hcolon (hnames.trans hname))
      (colon_notin_text x)

/-- Where a tight line is too long already, every spelling of it is. -/
private theorem overlong_kept {block block' : HeaderBlock} (h : Overlong block)
    (hr : Respells block block') :
    ¬ ∀ line ∈ block'.headers.dropLast, line.length < 2^32 := by
  intro hs
  obtain ⟨line,hm,hl⟩ := h
  obtain ⟨line',hm',hline⟩ := related_mem (dropLast_respelled hr.2) hm
  exact absurd (hs line' hm') (Nat.not_lt.mpr (hl.trans hline.tight_le))

private theorem irrelevant_of {block : HeaderBlock} (h : Overruled block ∨ Overlong block) :
    SpellingIrrelevant block := by
  intro first second hfirst hsecond ssl ssl' hc hc'
  rcases h with h | h
  · have hv : valuesOf first = Extracted.empty := values_overruled h hfirst
    have hv' : valuesOf second = Extracted.empty := values_overruled h hsecond
    refine ⟨fun extracted extracted' he he' => ?_,fun digest memory => ?_⟩
    · rw [((extracts_iff hc).mp he).2,((extracts_iff hc').mp he').2,hv,hv']
    · rw [answers_iff hc,answers_iff hc',hv,hv']
      have hno : ¬ ∃ key, checkHeaders Extracted.empty = .ok key := by
        rintro ⟨key,hkey⟩
        cases hkey
      rw [iff_false_intro hno,and_false,and_false]
  · refine ⟨fun extracted extracted' he _ => ?_,fun digest memory => ?_⟩
    · exact absurd ((extracts_iff hc).mp he).1 (overlong_kept h hfirst)
    · rw [answers_iff hc,answers_iff hc']
      exact iff_of_false (fun ha => overlong_kept h hfirst ha.1)
        fun ha => overlong_kept h hsecond ha.1

/-- Respelled headers make a block again, if one of them is not too short. -/
private theorem respelled_block (block : HeaderBlock) {headers : List (List UInt8)}
    (h : List.Forall₂ Respelled block.headers headers) {line : List UInt8} (hm : line ∈ headers)
    (hl : 8 ≤ line.length) : ∃ block', Respells block block' ∧ block'.headers = headers := by
  have hback (line' : List UInt8) (hm' : line' ∈ headers) :
      ∃ line ∈ block.headers, Respelled line line' :=
    related_mem (List.Forall₂.flip (R := flip Respelled) h) hm'
  have hclean : ∀ line ∈ block.requestLine::headers, Clean line := by
    intro line' hm'
    rcases List.mem_cons.mp hm' with rfl | hm'
    · exact block.clean _ List.mem_cons_self
    · obtain ⟨line,hline,hr⟩ := hback line' hm'
      obtain ⟨hcr,hlf⟩ := block.clean line (List.mem_cons_of_mem _ hline)
      exact ⟨hr.notin (by decide) rfl hcr,hr.notin (by decide) rfl hlf⟩
  have hne : ∀ line ∈ headers, line ≠ [] := by
    intro line' hm'
    obtain ⟨line,hline,hr⟩ := hback line' hm'
    rcases hr.cases_colon with ⟨_,rfl⟩ | ⟨_,hcolon,_⟩
    · exact block.nonempty _ hline
    · exact List.ne_nil_of_mem hcolon
  have hlong : 10 ≤ (terminated (block.requestLine::headers)).length := by
    obtain ⟨front,back,rfl⟩ := List.append_of_mem hm
    simp only [terminated,List.flatMap_cons,List.flatMap_append,List.length_append,
      List.length_cons,List.length_nil]
    omega
  exact ⟨⟨block.requestLine,headers,block.isGet,hclean,hne,h.length_eq ▸ block.few,hlong⟩,
    ⟨rfl,h⟩,rfl⟩

/-- Every block can be sent in one record. -/
private theorem exists_carries (block : HeaderBlock) : ∃ ssl, Carries block ssl := by
  have hl : 10 ≤ block.bytes.length := by
    have := block.long
    rw [HeaderBlock.bytes,HeaderBlock.lines,List.length_append]
    omega
  have hne : block.bytes ≠ [] := List.ne_nil_of_length_pos (by omega)
  refine ⟨⟨[⟨block.bytes,hne⟩],[]⟩,⟨[],?_⟩,?_⟩
  · simp [Records.stream]
  · rw [Records.length_read]
    exact Nat.min_eq_left hl

/-- No field is spelled quietly like one of the three names. -/
private theorem headerName_quiet {line : List UInt8} {x : HeaderName}
    (h : headerName (quiet line) = x.text) : colon ∉ line ∧ line = x.text := by
  unfold quiet at h
  split at h
  · next hc =>
    obtain ⟨_,_,hcolon,_⟩ := FieldSpelling.field_of_colon hc
    have hlower := mt (FieldSpelling.mem_of_lower_eq
      (FieldSpelling.map_lower_lower (fieldName line)) (by decide)).mp hcolon
    have hs : (83 : UInt8) ∈ x.text := by cases x <;> decide
    exact absurd ((FieldSpelling.fieldName_spell hlower [] line).symm.trans h)
      (FieldSpelling.map_lower_ne hs (by decide) (by decide))
  · next hc =>
    rw [(headerContent_bare hc).1] at h
    exact ⟨hc,h⟩

/-- The field spelled as the code compares it, with a gap that leaves something behind the
two bytes that are skipped. -/
private def loud (x : HeaderName) (line : List UInt8) : List UInt8 :=
  spell x.text (if 2 ≤ (fieldValue line).length then [] else [32,32]) line

private theorem headerName_loud (x : HeaderName) (line : List UInt8) :
    headerName (loud x line) = x.text := headerName_colon (colon_notin_text x) _

private theorem headerContent_loud (x : HeaderName) (line : List UInt8) :
    headerContent (loud x line) ≠ [] := by
  have h : headerContent (loud x line) = _ := headerContent_colon (colon_notin_text x) _
  rw [h]
  apply List.ne_nil_of_length_pos
  rw [List.length_drop,List.length_append]
  split
  · omega
  · simp only [List.length_cons,List.length_nil]
    omega

private theorem text_length (x : HeaderName) : 8 ≤ x.text.length ∧ x.text.length ≤ 22 := by
  cases x <;> decide

section Named
variable {x : HeaderName} {line : List UInt8}

private theorem name_length (hn : (fieldName line).map lower = x.text.map lower) :
    (fieldName line).length = x.text.length := by
  simpa using congrArg List.length hn

private theorem respelled_loud (hc : colon ∈ line)
    (hn : (fieldName line).map lower = x.text.map lower) : Respelled line (loud x line) := by
  refine FieldSpelling.respelled_spell hc hn fun c hm => ?_
  split at hm
  · cases hm
  · rcases List.mem_cons.mp hm with rfl | hm
    · rfl
    · rw [List.mem_singleton.mp hm]
      rfl

private theorem length_loud (hc : colon ∈ line)
    (hn : (fieldName line).map lower = x.text.map lower) (hl : (tight line).length < 2^32) :
    (loud x line).length < 2^32 := by
  have ht := FieldSpelling.length_tight hc
  rw [name_length hn] at ht
  have hx := text_length x
  rw [loud,FieldSpelling.length_spell]
  split
  · rw [List.length_nil]
    omega
  · simp only [List.length_cons,List.length_nil]
    omega

end Named

private theorem respelled_map_quiet (lines : List (List UInt8)) :
    List.Forall₂ Respelled lines (lines.map quiet) :=
  List.forall₂_map_right_iff.mpr
    (List.forall₂_same.mpr fun line _ => FieldSpelling.respelled_quiet line)

private theorem map_quiet_short {lines : List (List UInt8)}
    (h : ∀ line ∈ lines, (tight line).length < 2^32) :
    ∀ line ∈ lines.map quiet, line.length < 2^32 := by
  intro line' hm
  obtain ⟨line,hline,rfl⟩ := List.mem_map.mp hm
  rw [FieldSpelling.length_quiet]
  exact h line hline

/-- With all names in lower case nothing is extracted. -/
private theorem soft_spelling {block : HeaderBlock} {line : List UInt8}
    (hm : line ∈ block.headers) (hl : 8 ≤ (tight line).length)
    (hshort : ∀ l ∈ block.headers.dropLast, (tight l).length < 2^32) :
    ∃ soft, Respells block soft ∧ (∀ l ∈ soft.headers.dropLast, l.length < 2^32) ∧
      ∀ x, (valuesOf soft).get x = [] := by
  rw [← FieldSpelling.length_quiet] at hl
  obtain ⟨soft,hr,hheaders⟩ := respelled_block block (respelled_map_quiet block.headers)
    (List.mem_map_of_mem hm) hl
  have hlines : soft.headers.dropLast = block.headers.dropLast.map quiet := by
    rw [hheaders,List.map_dropLast]
  refine ⟨soft,hr,hlines ▸ map_quiet_short hshort,fun x => ?_⟩
  rw [valuesOf,hlines]
  refine get_overruled fun front line' back he hc hn => ?_
  have hm' : line' ∈ block.headers.dropLast.map quiet := by rw [he]; simp
  obtain ⟨original,_,rfl⟩ := List.mem_map.mp hm'
  obtain ⟨hbare,_⟩ := headerName_quiet hn
  rw [FieldSpelling.quiet_bare hbare] at hc
  exact absurd hc hbare

/-- With a field of one of the three names that is not overruled spelled loud, something is. -/
private theorem hard_spelling {block : HeaderBlock} {x : HeaderName}
    {front back : List (List UInt8)} {line : List UInt8}
    (hlines : block.headers.dropLast = front ++ line::back) (hc : colon ∈ line)
    (hn : (fieldName line).map lower = x.text.map lower) (hback : x.text ∉ back)
    (hshort : ∀ l ∈ block.headers.dropLast, (tight l).length < 2^32) :
    ∃ hard, Respells block hard ∧ (∀ l ∈ hard.headers.dropLast, l.length < 2^32) ∧
      (valuesOf hard).get x ≠ [] := by
  obtain ⟨last,hheaders⟩ : ∃ last, block.headers = front ++ line::(back ++ [last]) := by
    have hne : block.headers ≠ [] := by
      intro he
      rw [he] at hlines
      cases front <;> cases hlines
    exact ⟨block.headers.getLast hne,(List.dropLast_concat_getLast hne).symm.trans
      (by rw [hlines]; simp)⟩
  have hrespelled : List.Forall₂ Respelled block.headers
      (front.map quiet ++ loud x line::(back ++ [last]).map quiet) := by
    rw [hheaders]
    exact List.rel_append (respelled_map_quiet front)
      (.cons (respelled_loud hc hn) (respelled_map_quiet _))
  have hlong : 8 ≤ (loud x line).length := by
    have hx := text_length x
    rw [loud,FieldSpelling.length_spell]
    omega
  obtain ⟨hard,hr,hhard⟩ := respelled_block block hrespelled
    (List.mem_append_right _ List.mem_cons_self) hlong
  have hlines' : hard.headers.dropLast = front.map quiet ++ loud x line::back.map quiet := by
    rw [hhard,List.map_append,List.map_singleton,← List.cons_append,← List.append_assoc,
      List.dropLast_concat]
  rw [hlines] at hshort
  refine ⟨hard,hr,?_,?_⟩
  · rw [hlines']
    intro l hl
    rcases List.mem_append.mp hl with hl | hl
    · exact map_quiet_short (fun l hm => hshort l (List.mem_append_left _ hm)) l hl
    · rcases List.mem_cons.mp hl with rfl | hl
      · exact length_loud hc hn (hshort line (List.mem_append_right _ List.mem_cons_self))
      · exact map_quiet_short (fun l hm => hshort l
          (List.mem_append_right _ (List.mem_cons_of_mem _ hm))) l hl
  · have hafter : ∀ l ∈ back.map quiet, headerName l ≠ x.text := by
      intro l hl hname
      obtain ⟨original,hm,rfl⟩ := List.mem_map.mp hl
      exact hback ((headerName_quiet hname).2 ▸ hm)
    rw [valuesOf,hlines',List.foldl_append,List.foldl_cons,
      get_unnamed hafter,extractStep,get_assign,if_pos (headerName_loud x line)]
    exact headerContent_loud x line

private theorem not_irrelevant {block : HeaderBlock} (ho : ¬ Overruled block)
    (hl : ¬ Overlong block) : ¬ SpellingIrrelevant block := by
  intro h
  have hshort : ∀ line ∈ block.headers.dropLast, (tight line).length < 2^32 := by
    intro line hm
    by_contra hlong
    exact hl ⟨line,hm,Nat.not_lt.mp hlong⟩
  unfold Overruled at ho
  push Not at ho
  obtain ⟨x,front,line,back,hlines,hc,hn,hback⟩ := ho
  have hm : line ∈ block.headers :=
    List.mem_of_mem_dropLast (hlines ▸ List.mem_append_right _ List.mem_cons_self)
  have hlong : 8 ≤ (tight line).length := by
    have hx := text_length x
    rw [FieldSpelling.length_tight hc,name_length hn]
    omega
  obtain ⟨soft,hsoft,hs,hsx⟩ := soft_spelling hm hlong hshort
  obtain ⟨hard,hhard,hs',hhx⟩ := hard_spelling hlines hc hn hback hshort
  obtain ⟨ssl,hcarries⟩ := exists_carries soft
  obtain ⟨ssl',hcarries'⟩ := exists_carries hard
  have he := (h soft hard hsoft hhard ssl ssl' hcarries hcarries').1 _ _
    ((extracts_iff hcarries).mpr ⟨hs,rfl⟩) ((extracts_iff hcarries').mpr ⟨hs',rfl⟩)
  exact hhx (he ▸ hsx x)

/-- The spelling makes no difference exactly where none of the three headers is present in
an effective field, or where the extraction ends for no spelling at all. -/
theorem spelling_irrelevant_iff (block : HeaderBlock) :
    SpellingIrrelevant block ↔ Overruled block ∨ Overlong block := by
  constructor
  · intro h
    by_contra hno
    rw [not_or] at hno
    exact not_irrelevant hno.1 hno.2 h
  · exact irrelevant_of

/-- The version behind one space, then the protocol, then a header that is not visited. -/
def spacedBlock : HeaderBlock where
  requestLine := ascii "GET /storage HTTP/1.1"
  headers := [ascii "Sec-WebSocket-Version: 913",ascii "Sec-WebSocket-Protocol: shepoo",
    ascii "Host: a"]
  isGet := by decide
  clean := by decide
  nonempty := by decide
  few := by decide
  long := by decide

def unspacedBlock : HeaderBlock where
  requestLine := ascii "GET /storage HTTP/1.1"
  headers := [ascii "Sec-WebSocket-Version:913",ascii "Sec-WebSocket-Protocol: shepoo",
    ascii "Host: a"]
  isGet := by decide
  clean := by decide
  nonempty := by decide
  few := by decide
  long := by decide

private theorem unspaced_respells : Respells spacedBlock unspacedBlock := by
  have hversion : ascii "Sec-WebSocket-Version:913" =
      spell HeaderName.version.text [] (ascii "Sec-WebSocket-Version: 913") := by decide
  refine ⟨rfl,.cons ?_ (.cons (.refl _) (.cons (.refl _) .nil))⟩
  rw [hversion]
  exact FieldSpelling.respelled_spell (by decide) (by decide) fun _ hc => absurd hc List.not_mem_nil

/-- Version 913 is refused with the space and answered without it. -/
theorem spacedBlock_relevant : ¬ SpellingIrrelevant spacedBlock := by
  intro h
  have hself : Respells spacedBlock spacedBlock :=
    ⟨rfl,List.forall₂_same.mpr fun line _ => .refl line⟩
  obtain ⟨ssl,hc⟩ := exists_carries spacedBlock
  obtain ⟨ssl',hc'⟩ := exists_carries unspacedBlock
  have hanswers := (h _ _ hself unspaced_respells ssl ssl' hc hc').2 noDigest
    FrameRoundTrip.someMemory
  rw [answers_iff hc,answers_iff hc'] at hanswers
  have hunspaced : checkHeaders (valuesOf unspacedBlock) = .ok [] := by decide
  obtain ⟨key,hkey⟩ := (hanswers.mpr ⟨by decide,[],hunspaced⟩).2
  have hspaced : checkHeaders (valuesOf spacedBlock) =
      .error (.unsupportedWebSocketVersion (ascii "913")) := by decide
  rw [hspaced] at hkey
  cases hkey

end Shepoo.Server.HeaderSpelling
