import Shepoo.Server.HandshakeScan

/-! How the header reader comes to its end, if it does. The stream is what the reader gets
to see: the ten bytes of the packet header, then what the connection still brings. -/
namespace Shepoo.Server.HandshakeLimits
open Foundation ByteSource BoundedLoop HandshakeReading HeaderExtraction HandshakeScan

/-- Behind the packet header the stream goes on with a carriage return on an empty line. -/
structure Closing (stream before : List UInt8) : Prop where
  next : (before ++ [cr]) <+: stream
  late : 10 ≤ before.length
  empty : OnEmptyLine before

/-- Inner bytes have no closing carriage return among them. -/
private theorem unclosed {packet : Packet} {bytes before : List UInt8}
    (h : Inner packet.bytes bytes) (hnext : (before ++ [cr]) <+: packet.bytes ++ bytes)
    (hlate : 10 ≤ before.length) : ¬ OnEmptyLine before := by
  have hp : packet.bytes <+: before := by
    refine List.prefix_of_prefix_length_le (List.prefix_append _ bytes)
      ((List.prefix_append before [cr]).trans hnext) ?_
    rwa [Packet.length_bytes]
  obtain ⟨front,rfl⟩ := hp
  obtain ⟨back,hback⟩ := hnext
  rw [List.append_assoc,List.append_assoc,List.append_cancel_left_eq] at hback
  exact h.unclosed front back hback.symm

/-- Where the table is full, a carriage return on an empty line comes too late. -/
private theorem closing_late {packet : Packet} {bytes after before : List UInt8}
    (h : Inner packet.bytes bytes) (hn : ¬ OnEmptyLine (packet.bytes ++ bytes))
    (hc : Closing (packet.bytes ++ (bytes ++ cr::after)) before) :
    (packet.bytes ++ bytes).count cr + 1 ≤ before.count cr := by
  obtain ⟨hnext,hlate,hempty⟩ := hc
  have hfull : (packet.bytes ++ bytes ++ [cr]) <+: packet.bytes ++ (bytes ++ cr::after) := by
    refine ⟨after,?_⟩
    simp only [List.append_assoc,List.singleton_append]
  have hpart := (List.prefix_append (packet.bytes ++ bytes) [cr]).trans hfull
  rcases Nat.lt_trichotomy before.length (packet.bytes ++ bytes).length with hl | hl | hl
  · have hin := List.prefix_of_prefix_length_le hnext hpart (by
      rw [List.length_append,List.length_singleton]
      exact hl)
    exact absurd hempty (unclosed h hin hlate)
  · have heq := List.prefix_of_prefix_length_le
      ((List.prefix_append before [cr]).trans hnext) hpart hl.le
    exact absurd (heq.eq_of_length hl ▸ hempty) hn
  · have hin := List.prefix_of_prefix_length_le hfull
      ((List.prefix_append before [cr]).trans hnext) (by
        rw [List.length_append,List.length_singleton]
        exact hl)
    have hle := hin.sublist.count_le cr
    rwa [List.count_append,List.count_singleton_self] at hle

section Stream
variable {σ : Type} [Source σ]

inductive Run (packet : Packet) (ssl : σ) : Prop
  | closed (before : List UInt8) (closing : Closing (packet.bytes ++ Source.pending ssl) before)
    (few : before.count cr < maxHeaders)
    (done : ∃ ssl' cost, ∀ fuel, cost ≤ fuel →
      readHeaders fuel packet ssl = .done ⟨ssl',closedTable (split before).1,true⟩)
  | broken (many : maxHeaders ≤ (packet.bytes ++ Source.pending ssl).count cr)
    (late : ∀ before, Closing (packet.bytes ++ Source.pending ssl) before →
      maxHeaders ≤ before.count cr)
    (fault : ∃ cost, ∀ fuel, cost ≤ fuel → readHeaders fuel packet ssl = .fault)
  | endless (few : (packet.bytes ++ Source.pending ssl).count cr < maxHeaders)
    (unclosed : ∀ before, ¬ Closing (packet.bytes ++ Source.pending ssl) before)
    (running : ∀ fuel, readHeaders fuel packet ssl = .running)

theorem run_cases (packet : Packet) (ssl : σ) : Run packet ssl := by
  have hcount : packet.bytes.count cr < maxHeaders :=
    List.count_le_length.trans_lt (by rw [Packet.length_bytes]; decide)
  have hrun (fuel : Nat) := readHeaders_eq fuel packet ssl
  cases scanned hcount (Source.pending ssl) with
  | closes bytes after hs inner empty =>
    obtain ⟨ssl₁,hreach,hp⟩ := reaches_tableAfter inner hs
    have hfew := inner.few
    have htable : tableAfter (packet.bytes ++ bytes) =
        tableOf (split (packet.bytes ++ bytes)).1 [] := by
      rw [tableAfter,(split_empty_iff _).mpr empty]
    rw [htable] at hreach
    obtain ⟨ssl₂,hclose,_⟩ := step_close (by rwa [length_split]) hp
    obtain ⟨cost,hcost⟩ := done_of_reaches (hreach.tail hclose) rfl
    refine .closed (packet.bytes ++ bytes) ⟨⟨after,?_⟩,?_,empty⟩ hfew
      ⟨ssl₂,cost,fun fuel hf => (hrun fuel).trans (hcost fuel hf)⟩
    · rw [hs]
      simp only [List.append_assoc,List.singleton_append]
    · rw [List.length_append,Packet.length_bytes]
      omega
  | overruns bytes after hs inner nonempty full =>
    obtain ⟨ssl₁,hreach,hp⟩ := reaches_tableAfter inner hs
    obtain ⟨hguard,hbody⟩ := body_overruns nonempty full hp
    obtain ⟨cost,hcost⟩ := fault_of_reaches hreach hguard hbody
    refine .broken ?_ ?_ ⟨cost,fun fuel hf => (hrun fuel).trans (hcost fuel hf)⟩
    · rw [hs,← List.append_assoc,List.count_append,List.count_cons_self]
      omega
    · intro before hc
      rw [hs] at hc
      have hlate := closing_late inner nonempty hc
      omega
  | ends inner =>
    obtain ⟨ssl₁,hreach,hp⟩ := reaches_tableAfter inner (List.append_nil _).symm
    refine .endless inner.few (fun before hc => unclosed inner hc.next hc.late hc.empty) ?_
    intro fuel
    rw [hrun]
    exact running_of_reaches hreach (running_at_end (tableAfter_fits inner.few) hp) fuel

/-- No run of the two reading loops, and none of the extraction loop on what they leave
behind, uses an index outside of the table. -/
structure StaysInTable (packet : Packet) (ssl : σ) : Prop where
  reading : ∀ fuel, readHeaders fuel packet ssl ≠ .fault
  extraction : ∀ fuel reader, readHeaders fuel packet ssl = .done reader →
    ∀ fuel', extractHeaders fuel' reader.table ≠ .fault

private theorem closedTable_extraction {lines : List (List UInt8)} (h : lines.length < maxHeaders)
    (fuel : Nat) : extractHeaders fuel (closedTable lines) ≠ .fault := by
  rw [extractHeaders_eq (closedTable_size h) (closedTable_counted h)]
  exact extract_ne_fault fuel _ _

/-- A run that settles settles in one way. -/
private theorem readHeaders_mono {packet : Packet} {ssl : σ} {n m : Nat}
    (h : readHeaders n packet ssl ≠ .running) (hm : n ≤ m) :
    readHeaders m packet ssl = readHeaders n packet ssl := by
  rw [readHeaders_eq] at h ⊢
  rw [readHeaders_eq]
  exact loop_mono h hm

/-- The reader stays in its table exactly when the stream brings fewer than fifteen carriage
returns, or closes the header with one of the first fifteen. -/
theorem stays_in_table_iff (packet : Packet) (ssl : σ) :
    StaysInTable packet ssl ↔
      (packet.bytes ++ Source.pending ssl).count cr < maxHeaders ∨
      ∃ before, Closing (packet.bytes ++ Source.pending ssl) before ∧
        before.count cr < maxHeaders := by
  cases run_cases packet ssl with
  | closed before closing few done =>
    refine iff_of_true ?_ (.inr ⟨before,closing,few⟩)
    obtain ⟨ssl',cost,hdone⟩ := done
    have hsettled (fuel : Nat) (hf : readHeaders fuel packet ssl ≠ .running) :
        readHeaders fuel packet ssl = .done ⟨ssl',closedTable (split before).1,true⟩ :=
      (readHeaders_mono hf (le_max_left fuel cost)).symm.trans
        (hdone _ (le_max_right fuel cost))
    constructor
    · intro fuel hfault
      rw [hsettled fuel (by rw [hfault]; simp)] at hfault
      cases hfault
    · intro fuel reader hr fuel'
      rw [hsettled fuel (by rw [hr]; simp)] at hr
      cases hr
      exact closedTable_extraction (by rwa [length_split]) fuel'
  | broken many late fault =>
    obtain ⟨cost,hfault⟩ := fault
    refine iff_of_false (fun h => h.reading cost (hfault cost le_rfl)) ?_
    rintro (hfew | ⟨before,hc,hfew⟩)
    · omega
    · exact absurd (late before hc) (Nat.not_le.mpr hfew)
  | endless few unclosed running =>
    refine iff_of_true ⟨fun fuel hf => ?_,fun fuel reader hr => ?_⟩ (.inl few)
    · rw [running] at hf
      cases hf
    · rw [running] at hr
      cases hr

def fifteenLines : List UInt8 :=
  ascii "GET / HTTP/1.1\r\n" ++ (List.replicate 14 (ascii "a:\r\n")).flatten

/-- The end of the fourteenth header is written behind the table. -/
theorem fifteen_lines_overrun :
    ¬ StaysInTable (Packet.ofBytes (fifteenLines.take 10)) (⟨fifteenLines.drop 10⟩ : Wire) := by
  intro h
  exact h.reading 70 rfl

/-- The reader comes to an end exactly when the header is closed behind the first ten bytes
or the table overflows; behind the end of any other stream it goes on for ever. -/
theorem reader_ends_iff (packet : Packet) (ssl : σ) :
    (∃ fuel, readHeaders fuel packet ssl ≠ .running) ↔
      maxHeaders ≤ (packet.bytes ++ Source.pending ssl).count cr ∨
      ∃ before, Closing (packet.bytes ++ Source.pending ssl) before := by
  cases run_cases packet ssl with
  | closed before closing few done =>
    obtain ⟨ssl',cost,hdone⟩ := done
    refine iff_of_true ⟨cost,?_⟩ (.inr ⟨before,closing⟩)
    rw [hdone cost le_rfl]
    simp
  | broken many late fault =>
    obtain ⟨cost,hfault⟩ := fault
    refine iff_of_true ⟨cost,?_⟩ (.inl many)
    rw [hfault cost le_rfl]
    simp
  | endless few unclosed running =>
    refine iff_of_false ?_ ?_
    · rintro ⟨fuel,hf⟩
      exact hf (running fuel)
    · rintro (hmany | ⟨before,hc⟩)
      · omega
      · exact unclosed before hc

/-- The peer closes in the middle of the request line. -/
theorem truncated_request_endless :
    ¬ ∃ fuel, readHeaders fuel (Packet.ofBytes (ascii "GET /index")) (⟨[]⟩ : Wire) ≠ .running := by
  rintro ⟨fuel,hf⟩
  apply hf
  rw [readHeaders_eq]
  exact running_at_end (tableAfter_fits (by decide)) rfl fuel

end Stream

end Shepoo.Server.HandshakeLimits
