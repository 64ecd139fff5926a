import Shepoo.Server.ProcessDescriptors

/-! What a client gets from the running server. It is what the connection would be sent if
it were the only one, with the storage as it was at some time since it was accepted. -/
namespace Shepoo.Server.ListenLoop
open Foundation ByteSource PosixFile DescriptorTable

/-- What has been written on a connection, by whichever process. -/
def sentOn (connection : Nat) (output : Output) : List Written :=
  output.filterMap fun sent => if sent.1 = .client connection then some sent.2 else none

/-- As much of it as has gone through the TLS layer. -/
def recordBytes (sent : List Written) : List UInt8 :=
  sent.flatMap fun
    | .record bytes => bytes
    | .text _ => []

/-- `std::cout` does not write to the number that every connection gets. -/
def Apart (launch : Launch) : Prop := launch.cout ≠ some launch.clientSocket

theorem sentOn_append (connection : Nat) (output output' : Output) :
    sentOn connection (output ++ output') = sentOn connection output ++ sentOn connection output' :=
  List.filterMap_append

theorem recordBytes_append (sent sent' : List Written) :
    recordBytes (sent ++ sent') = recordBytes sent ++ recordBytes sent' :=
  List.flatMap_append

theorem mem_sentOn {connection : Nat} {output : Output} {written : Written} :
    written ∈ sentOn connection output ↔ (.client connection,written) ∈ output := by
  simp only [sentOn,List.mem_filterMap,Option.ite_none_right_eq_some,Option.some.injEq]
  constructor
  · rintro ⟨⟨resource,sent⟩,hm,rfl,rfl⟩
    exact hm
  · intro hm
    exact ⟨_,hm,rfl,rfl⟩

theorem sentOn_eq_nil {connection : Nat} {output : Output}
    (h : ∀ written, (.client connection,written) ∉ output) : sentOn connection output = [] :=
  List.eq_nil_iff_forall_not_mem.mpr fun _ hm => h _ (mem_sentOn.mp hm)

section Print
variable {launch : Launch} {fd connection : Nat}

private theorem listening_client_fd {connection' : Nat}
    (h : (launch.listening.opened (.client connection)).entry fd = some (.client connection')) :
    fd = launch.clientSocket := by
  rw [Table.entry_opened] at h
  split at h
  · assumption
  · exact absurd ⟨fd,h⟩ (listening_client launch connection')

theorem childTable_client_fd {stage : Stage} {connection' : Nat}
    (h : (childTable launch connection stage).entry fd = some (.client connection')) :
    fd = launch.clientSocket := by
  unfold childTable at h
  split at h
  · exact listening_client_fd h
  · split at h
    · cases h
    · rw [Table.entry_close] at h
      split at h
      · cases h
      · exact listening_client_fd h

theorem parentTable_client_fd {connections : Nat} {phase : Phase}
    (h : (parentTable launch connections phase).entry fd = some (.client connection)) :
    fd = launch.clientSocket := by
  cases phase with
  | accepting => exact absurd ⟨fd,h⟩ (listening_client launch connection)
  | forking k => exact listening_client_fd h
  | closing k => exact listening_client_fd h

/-- What is printed goes to no connection. -/
theorem print_apart {p : Process} (ha : Apart launch) (hc : p.cout = launch.cout)
    (hp : ∀ fd connection, p.table.entry fd = some (.client connection) →
      fd = launch.clientSocket) (lines : List (List UInt8)) (connection : Nat)
    (written : Written) : (.client connection,written) ∉ (p.printAll lines).2 := by
  intro hm
  obtain ⟨fd,hfd,hentry⟩ := Option.bind_eq_some_iff.mp (Process.printAll_target hm).2.1
  rw [hp fd connection hentry] at hfd
  exact ha (hc.symm.trans hfd)

end Print

section Child
variable {σ : Type} [Source σ]

/-- How far a child has come with its answer, by its stage. -/
def Progress (server : Listener) (instants : List FileSystem) (ssl : σ) (bytes : List UInt8) :
    Stage → Prop
  | .dispatching memory webSocket packet payload => ∃ fuel,
    (SecNet.construct server.digest memory fuel ssl).written = bytes ∧
    (SecNet.construct server.digest memory fuel ssl).webSocket = webSocket ∧
    (SecNet.construct server.digest memory fuel ssl).outcome = .emit packet payload
  | .answering webSocket answers => ∃ memory fuel, ∃ fs ∈ instants,
    (SecNet.construct server.digest memory fuel ssl).outcome ≠ .running ∧
    bytes ++ Service.transmit webSocket answers = (server.service fs).serve memory fuel ssl
  | .exited => ∃ memory fuel, ∃ fs ∈ instants,
    (SecNet.construct server.digest memory fuel ssl).outcome ≠ .running ∧
    bytes = (server.service fs).serve memory fuel ssl
  | .faulted => ∃ memory fuel, ∃ fs ∈ instants, bytes <+: (server.service fs).serve memory fuel ssl
  | .killed => ∃ memory fuel, ∃ fs ∈ instants, bytes <+: (server.service fs).serve memory fuel ssl
  | .started => bytes = []
  | .connecting => bytes = []
  | .constructing => bytes = []
  | .refused => bytes = []

/-- The same for one memory and one state of the files, with a child that nobody kills. -/
def Sending (server : Listener) (fs : FileSystem) (memory : Memory) (fuel : Nat) (ssl : σ)
    (bytes : List UInt8) : Stage → Prop
  | .dispatching memory' webSocket packet payload => memory' = memory ∧
    (SecNet.construct server.digest memory fuel ssl).written = bytes ∧
    (SecNet.construct server.digest memory fuel ssl).webSocket = webSocket ∧
    (SecNet.construct server.digest memory fuel ssl).outcome = .emit packet payload
  | .answering webSocket answers =>
    bytes ++ Service.transmit webSocket answers = (server.service fs).serve memory fuel ssl
  | .exited => bytes = (server.service fs).serve memory fuel ssl
  | .faulted => bytes = (server.service fs).serve memory fuel ssl
  | .started => bytes = []
  | .connecting => bytes = []
  | .constructing => bytes = []
  | .refused => False
  | .killed => False

variable {server : Listener} {instants : List FileSystem} {ssl : σ} {bytes : List UInt8}

/-- An outcome without an emission leaves it at what the constructor has written. -/
theorem serve_silent (service : Service) (memory : Memory) (fuel : Nat) (ssl : σ)
    (h : ∀ packet payload,
      (SecNet.construct service.digest memory fuel ssl).outcome ≠ .emit packet payload) :
    service.serve memory fuel ssl = (SecNet.construct service.digest memory fuel ssl).written := by
  rw [Service.serve,Service.calls]
  cases ho : (SecNet.construct service.digest memory fuel ssl).outcome with
  | emit packet payload => exact absurd ho (h packet payload)
  | exit reason => exact List.append_nil _
  | fault => exact List.append_nil _
  | running => exact List.append_nil _

theorem serve_emit (service : Service) (memory : Memory) (fuel : Nat) (ssl : σ) {packet : Packet}
    {payload : List UInt8}
    (h : (SecNet.construct service.digest memory fuel ssl).outcome = .emit packet payload) :
    service.serve memory fuel ssl =
      (SecNet.construct service.digest memory fuel ssl).written ++ Service.transmit
        (SecNet.construct service.digest memory fuel ssl).webSocket
        (service.answers memory (.emit packet payload)) := by
  rw [Service.serve,Service.calls,h]

theorem progress_prefix (hi : instants ≠ []) {stage : Stage}
    (h : Progress server instants ssl bytes stage) :
    ∃ memory fuel, ∃ fs ∈ instants, bytes <+: (server.service fs).serve memory fuel ssl := by
  obtain ⟨fs,hfs⟩ := List.exists_mem_of_ne_nil instants hi
  have hnone : bytes = [] → ∃ memory fuel, ∃ fs ∈ instants,
      bytes <+: (server.service fs).serve memory fuel ssl := by
    rintro rfl
    exact ⟨⟨false,fun _ => 0,fun _ => 0,fun _ => 0,fun _ => 0⟩,0,fs,hfs,List.nil_prefix⟩
  cases stage with
  | started => exact hnone h
  | connecting => exact hnone h
  | constructing => exact hnone h
  | refused => exact hnone h
  | dispatching memory webSocket packet payload =>
    obtain ⟨fuel,hw,-,ho⟩ := h
    refine ⟨memory,fuel,fs,hfs,?_⟩
    rw [serve_emit (server.service fs) memory fuel ssl ho,← hw]
    exact List.prefix_append _ _
  | answering webSocket answers =>
    obtain ⟨memory,fuel,fs',hfs',-,hs⟩ := h
    exact ⟨memory,fuel,fs',hfs',⟨_,hs⟩⟩
  | exited =>
    obtain ⟨memory,fuel,fs',hfs',-,hs⟩ := h
    exact ⟨memory,fuel,fs',hfs',hs ▸ List.prefix_refl _⟩
  | faulted => exact h
  | killed => exact h

/-- More instants admit more. -/
theorem progress_mono {instants' : List FileSystem} (hi : instants ⊆ instants') {stage : Stage}
    (h : Progress server instants ssl bytes stage) : Progress server instants' ssl bytes stage := by
  cases stage with
  | answering webSocket answers =>
    obtain ⟨memory,fuel,fs,hfs,hr⟩ := h
    exact ⟨memory,fuel,fs,hi hfs,hr⟩
  | exited =>
    obtain ⟨memory,fuel,fs,hfs,hr⟩ := h
    exact ⟨memory,fuel,fs,hi hfs,hr⟩
  | faulted =>
    obtain ⟨memory,fuel,fs,hfs,hr⟩ := h
    exact ⟨memory,fuel,fs,hi hfs,hr⟩
  | killed =>
    obtain ⟨memory,fuel,fs,hfs,hr⟩ := h
    exact ⟨memory,fuel,fs,hi hfs,hr⟩
  | started => exact h
  | connecting => exact h
  | constructing => exact h
  | refused => exact h
  | dispatching memory webSocket packet payload => exact h

variable {connections : List (Connection σ)} {client : Connection σ} {fs : FileSystem}
  {c c' : Child} {out : Output}

private theorem write_bytes (h : ChildSound server.launch c) (he : c.stage.ended = false)
    (bytes : List UInt8) : recordBytes (sentOn c.connection (c.write bytes)) = bytes := by
  rw [write_eq h he]
  split
  · next hnil =>
    rw [hnil]
    rfl
  · simp [sentOn,recordBytes]

private theorem write_record (h : ChildSound server.launch c) (he : c.stage.ended = false)
    {bytes : List UInt8} {connection : Nat} {written : Written}
    (hm : (.client connection,written) ∈ c.write bytes) :
    connection = c.connection ∧ ∃ bytes, written = .record bytes := by
  rw [write_eq h he] at hm
  split at hm
  · cases hm
  · cases List.mem_singleton.mp hm
    exact ⟨rfl,bytes,rfl⟩

private theorem exit_apart (ha : Apart server.launch) (h : ChildSound server.launch c)
    (stage : Stage) (lines : List (List UInt8)) (connection : Nat) (written : Written) :
    (.client connection,written) ∉ (c.exit stage lines).2 := by
  refine print_apart ha h.cout (fun fd connection hfd => ?_) lines connection written
  rw [h.table] at hfd
  exact childTable_client_fd hfd

private theorem exit_bytes (ha : Apart server.launch) (h : ChildSound server.launch c)
    (stage : Stage) (lines : List (List UInt8)) :
    recordBytes (sentOn c.connection (c.exit stage lines).2) = [] := by
  rw [sentOn_eq_nil (exit_apart ha h stage lines c.connection)]
  rfl

/-- A child writes records to its own connection and nothing to any other. -/
theorem childStep_records (ha : Apart server.launch) (h : ChildSound server.launch c)
    (hs : ChildStep server connections fs c c' out) {connection : Nat} {written : Written}
    (hm : (.client connection,written) ∈ out) :
    connection = c.connection ∧ ∃ bytes, written = .record bytes := by
  cases hs with
  | closeServerSocket hc => cases hm
  | accept result hc =>
    cases result with
    | noSession => exact absurd hm (exit_apart ha h _ _ _ _)
    | refused errors => exact absurd hm (exit_apart ha h _ _ _ _)
    | established => cases hm
  | receive memory fuel hc hsocket hclient hr =>
    have he : c.stage.ended = false := by rw [hc]; rfl
    rw [Child.receive] at hm
    split at hm
    · exact write_record h he hm
    · rcases List.mem_append.mp hm with hm | hm
      · exact write_record h he hm
      · exact absurd hm (exit_apart ha h _ _ _ _)
    · exact write_record h he hm
    · cases hm
  | dispatch hc =>
    rw [Child.dispatch] at hm
    split at hm
    · exact absurd hm (exit_apart ha h _ _ _ _)
    · cases hm
    · cases hm
  | answer hc => exact write_record h (by rw [hc]; rfl) hm
  | finish hc => exact absurd hm (exit_apart ha h _ _ _ _)
  | kill hc => cases hm

section Sending
variable {memory : Memory} {fuel : Nat}

private theorem sending_progress (hfs : fs ∈ instants)
    (hr : (SecNet.construct server.digest memory fuel ssl).outcome ≠ .running) {stage : Stage}
    (h : Sending server fs memory fuel ssl bytes stage) :
    Progress server instants ssl bytes stage := by
  cases stage with
  | dispatching memory' webSocket packet payload =>
    obtain ⟨rfl,hrest⟩ := h
    exact ⟨fuel,hrest⟩
  | answering webSocket answers => exact ⟨memory,fuel,fs,hfs,hr,h⟩
  | exited => exact ⟨memory,fuel,fs,hfs,hr,h⟩
  | faulted => exact ⟨memory,fuel,fs,hfs,h ▸ List.prefix_refl _⟩
  | started => exact h
  | connecting => exact h
  | constructing => exact h
  | refused => exact h.elim
  | killed => exact h.elim

theorem receive_sending (ha : Apart server.launch) (h : ChildSound server.launch c)
    (hc : c.stage = .constructing) (fs : FileSystem)
    (hr : (SecNet.construct server.digest memory fuel ssl).outcome ≠ .running) :
    Sending server fs memory fuel ssl
      (recordBytes (sentOn c.connection
        (c.receive memory (SecNet.construct server.digest memory fuel ssl)).2))
      (c.receive memory (SecNet.construct server.digest memory fuel ssl)).1.stage := by
  have he : c.stage.ended = false := by rw [hc]; rfl
  rw [Child.receive]
  cases ho : (SecNet.construct server.digest memory fuel ssl).outcome with
  | emit packet payload => exact ⟨rfl,(write_bytes h he _).symm,rfl,ho⟩
  | exit reason =>
    have hserve := serve_silent (server.service fs) memory fuel ssl fun packet payload hemit =>
      Outcome.noConfusion (ho.symm.trans hemit)
    simp only [sentOn_append,recordBytes_append,write_bytes h he,exit_bytes ha h,
      List.append_nil]
    exact hserve.symm
  | fault =>
    have hserve := serve_silent (server.service fs) memory fuel ssl fun packet payload hemit =>
      Outcome.noConfusion (ho.symm.trans hemit)
    simp only [write_bytes h he]
    exact hserve.symm
  | running => exact absurd ho hr

theorem dispatch_sending (ha : Apart server.launch) (h : ChildSound server.launch c)
    {webSocket : Bool} {packet : Packet} {payload : List UInt8}
    (hp : Sending server fs memory fuel ssl bytes (.dispatching memory webSocket packet payload)) :
    Sending server fs memory fuel ssl
      (bytes ++ recordBytes (sentOn c.connection
        (c.dispatch (server.service fs) memory webSocket packet payload).2))
      (c.dispatch (server.service fs) memory webSocket packet payload).1.stage := by
  obtain ⟨-,hw,hws,ho⟩ := hp
  have hserve := serve_emit (server.service fs) memory fuel ssl ho
  change _ = (SecNet.construct server.digest memory fuel ssl).written ++ Service.transmit
    (SecNet.construct server.digest memory fuel ssl).webSocket _ at hserve
  rw [hw,hws,Service.answers] at hserve
  rw [Child.dispatch]
  generalize (Protocol.packetReceived (server.service fs).blockSize (server.service fs).storage
    (server.service fs).fs memory.block packet payload).1 = dispatch at hserve ⊢
  cases dispatch with
  | exit =>
    change _ = _
    rw [exit_bytes ha h,hserve]
    rfl
  | pastPayload => exact hserve.symm
  | returned answers =>
    refine Eq.trans ?_ hserve.symm
    exact congrArg (· ++ Service.transmit webSocket answers) (List.append_nil bytes)

theorem answer_sending (h : ChildSound server.launch c) {webSocket : Bool} {next : Answer}
    {rest : List Answer} (hc : c.stage = .answering webSocket (next::rest))
    (hp : Sending server fs memory fuel ssl bytes (.answering webSocket (next::rest))) :
    Sending server fs memory fuel ssl
      (bytes ++ recordBytes (sentOn c.connection (c.answer webSocket next rest).2))
      (c.answer webSocket next rest).1.stage := by
  have hs : bytes ++ Service.transmit webSocket (next::rest) =
    (server.service fs).serve memory fuel ssl := hp
  rw [Service.transmit] at hs
  simp only [Child.answer,write_bytes h (by rw [hc]; rfl)]
  cases hsent : (sendPacket webSocket next.1 next.2).completed with
  | true =>
    rw [hsent,if_pos rfl] at hs
    rw [if_pos rfl]
    exact (List.append_assoc ..).trans hs
  | false =>
    rw [hsent,if_neg Bool.false_ne_true] at hs
    rw [if_neg Bool.false_ne_true]
    exact hs

theorem finish_sending (ha : Apart server.launch) (h : ChildSound server.launch c)
    {webSocket : Bool}
    (hp : Sending server fs memory fuel ssl bytes (.answering webSocket [])) :
    Sending server fs memory fuel ssl
      (bytes ++ recordBytes (sentOn c.connection (c.exit .exited []).2)) .exited := by
  change _ = _
  rw [exit_bytes ha h,List.append_nil]
  exact (List.append_nil bytes).symm.trans hp

end Sending

/-- Every step of a child takes its answer further along. -/
theorem childStep_progress (ha : Apart server.launch) (h : ChildSound server.launch c)
    (hs : ChildStep server connections fs c c' out)
    (hclient : connections[c.connection]? = some client) (hfs : fs ∈ instants)
    (hp : Progress server instants client.ssl bytes c.stage) :
    Progress server instants client.ssl
      (bytes ++ recordBytes (sentOn c.connection out)) c'.stage := by
  cases hs with
  | closeServerSocket hc =>
    rw [hc] at hp
    exact (List.append_nil bytes).trans hp
  | accept result hc =>
    rw [hc] at hp
    obtain rfl : bytes = [] := hp
    cases result with
    | noSession => exact exit_bytes ha h _ _
    | refused errors => exact exit_bytes ha h _ _
    | established => rfl
  | receive memory fuel hc hsocket hclient' hr =>
    rw [hc] at hp
    obtain rfl : bytes = [] := hp
    rw [h.table] at hsocket
    rw [childTable_client _ ⟨_,hsocket⟩,hclient] at hclient'
    cases hclient'
    exact sending_progress hfs hr (receive_sending ha h hc fs hr)
  | @dispatch memory webSocket packet payload hc =>
    rw [hc] at hp
    obtain ⟨fuel,hw,hws,ho⟩ := hp
    have hr : (SecNet.construct server.digest memory fuel client.ssl).outcome ≠ .running := by
      rw [ho]
      exact Outcome.noConfusion
    exact sending_progress hfs hr (dispatch_sending ha h ⟨rfl,hw,hws,ho⟩)
  | answer hc =>
    rw [hc] at hp
    obtain ⟨memory,fuel,fs',hfs',hr,hserve⟩ := hp
    exact sending_progress hfs' hr (answer_sending h hc hserve)
  | finish hc =>
    rw [hc] at hp
    obtain ⟨memory,fuel,fs',hfs',hr,hserve⟩ := hp
    exact sending_progress hfs' hr (finish_sending ha h hserve)
  | kill hc =>
    obtain ⟨memory,fuel,fs',hfs',hpre⟩ := progress_prefix (List.ne_nil_of_mem hfs) hp
    exact ⟨memory,fuel,fs',hfs',(List.append_nil bytes).symm ▸ hpre⟩

end Child

section Run
variable {σ : Type} {server : Listener} {w w' : State σ}

def instants (w : State σ) (client : Connection σ) : List FileSystem :=
  (w.past ++ [w.fs]).drop client.since

theorem now_mem {client : Connection σ} (h : client.since ≤ w.past.length) :
    w.fs ∈ instants w client := by
  rw [instants,List.drop_append_of_le_length h]
  exact List.mem_append_right _ List.mem_cons_self

/-- A change adds an instant and takes none away. -/
private theorem instants_change (fs : FileSystem) {client : Connection σ}
    (h : client.since ≤ w.past.length) :
    instants w client ⊆ instants { w with past := w.past ++ [w.fs], fs := fs } client := by
  have hle : client.since ≤ (w.past ++ [w.fs]).length := by
    rw [List.length_append]
    omega
  change _ ⊆ ((w.past ++ [w.fs]) ++ [fs]).drop client.since
  rw [List.drop_append_of_le_length hle]
  exact List.subset_append_left _ _

variable [Source σ]

/-- Everything on a connection comes from its own child. -/
structure Progressing (server : Listener) (w : State σ) : Prop where
  since : ∀ client ∈ w.connections, client.since ≤ w.past.length
  records : ∀ connection written, (.client connection,written) ∈ w.output →
    (∃ bytes, written = .record bytes) ∧ ∃ c ∈ w.children, c.connection = connection
  progress : ∀ (i : Nat) (c : Child) (client : Connection σ), w.children[i]? = some c →
    w.connections[c.connection]? = some client →
    Progress server (instants w client) client.ssl
      (recordBytes (sentOn c.connection w.output)) c.stage

private theorem progressing_print (ha : Apart server.launch) (hs : Sound server w)
    (h : Progressing server w) (line : List UInt8) :
    Progressing server (w.parentPrint line) := by
  have hnone (connection : Nat) (written : Written) :
      (.client connection,written) ∉ (w.parent.print line).2 := by
    have := print_apart ha hs.cout (fun fd connection hfd => by
      rw [hs.parent] at hfd
      exact parentTable_client_fd hfd) [line] connection written
    rwa [Process.printAll_cons,Process.printAll,List.append_nil] at this
  refine ⟨h.since,fun connection written hm => ?_,fun i c client hc hclient => ?_⟩
  · exact h.records connection written
      ((List.mem_append.mp hm).resolve_right (hnone connection written))
  · have hsame : sentOn c.connection (w.parentPrint line).output = sentOn c.connection w.output := by
      rw [State.parentPrint,sentOn_append,sentOn_eq_nil (hnone c.connection),List.append_nil]
    rw [hsame]
    exact h.progress i c client hc hclient

private theorem progressing_accept (ssl : σ) (hs : Sound server w) (h : Progressing server w) :
    Progressing server (w.accept ssl) := by
  refine ⟨fun client hm => ?_,h.records,fun i c client hc hclient => ?_⟩
  · rcases List.mem_append.mp hm with hm | hm
    · exact h.since client hm
    · rw [List.mem_singleton.mp hm]
      exact le_rfl
  · have hlt := (hs.child c (List.mem_of_getElem? hc)).2
    simp only [State.accept,List.getElem?_append_left hlt] at hclient
    exact h.progress i c client hc hclient

/-- Nothing has been written yet on a connection that has no child. -/
private theorem progressing_fork {newSocket : Nat} (hs : Sound server w)
    (hp : w.phase = .forking newSocket) (h : Progressing server w) :
    Progressing server (w.fork newSocket) := by
  refine ⟨h.since,fun connection written hm => ?_,fun i c client hc hclient => ?_⟩
  · obtain ⟨hrecord,c,hc,he⟩ := h.records connection written hm
    exact ⟨hrecord,c,List.mem_append_left _ hc,he⟩
  · simp only [State.fork,List.getElem?_append] at hc
    split at hc
    · exact h.progress i c client hc hclient
    · rw [List.getElem?_singleton] at hc
      split at hc
      · cases hc
        have hnone : sentOn (w.connections.length-1) w.output = [] := by
          refine sentOn_eq_nil fun written hm => ?_
          obtain ⟨-,c,hc,he⟩ := h.records _ _ hm
          exact hs.waiting newSocket hp c hc he
        change Progress _ _ _ (recordBytes (sentOn (w.connections.length-1) w.output)) _
        rw [hnone]
        rfl
      · cases hc

private theorem progressing_child (ha : Apart server.launch) (hs : Sound server w)
    (h : Progressing server w) {i : Nat} {c c' : Child} {out : Output}
    (hc : w.children[i]? = some c) (hstep : ChildStep server w.connections w.fs c c' out) :
    Progressing server { w with children := w.children.set i c', output := w.output ++ out } := by
  have hsound := (hs.child c (List.mem_of_getElem? hc)).1
  have hsame := childStep_connection hstep
  have hi := (List.getElem?_eq_some_iff.mp hc).1
  have hat : (w.children.set i c')[i]? = some c' := List.getElem?_set_self hi
  refine ⟨h.since,fun connection written hm => ?_,fun j x client hx hclient => ?_⟩
  · rcases List.mem_append.mp hm with hm | hm
    · obtain ⟨hrecord,x,hx,he⟩ := h.records connection written hm
      refine ⟨hrecord,?_⟩
      obtain ⟨j,hj⟩ := List.getElem?_of_mem hx
      by_cases hij : i = j
      · subst hij
        rw [hc] at hj
        cases hj
        exact ⟨c',List.mem_of_getElem? hat,hsame.trans he⟩
      · refine ⟨x,List.mem_of_getElem? (i := j) ?_,he⟩
        rw [List.getElem?_set_ne hij,hj]
    · obtain ⟨he,hrecord⟩ := childStep_records ha hsound hstep hm
      exact ⟨hrecord,c',List.mem_of_getElem? hat,hsame.trans he.symm⟩
  · have hclient' : w.connections[x.connection]? = some client := hclient
    simp only [sentOn_append,recordBytes_append]
    by_cases hij : i = j
    · subst hij
      have hx' : some c' = some x := hat.symm.trans hx
      cases hx'
      rw [hsame] at hclient' ⊢
      have hnow := now_mem (h.since client (List.mem_of_getElem? hclient'))
      exact childStep_progress ha hsound hstep hclient' hnow (h.progress i c client hc hclient')
    · -- another child: nothing of this step is on its connection
      have hx' : w.children[j]? = some x := by
        rw [← hx]
        exact (List.getElem?_set_ne hij).symm
      have hne : x.connection ≠ c.connection := by
        intro he
        have hmap : (w.children.map Child.connection)[i]? =
            (w.children.map Child.connection)[j]? := by
          rw [List.getElem?_map,List.getElem?_map,hc,hx']
          exact congrArg some he.symm
        exact hij ((List.getElem?_inj (by rwa [List.length_map]) hs.once).mp hmap)
      have hnone : sentOn x.connection out = [] := sentOn_eq_nil fun written hm =>
        hne (childStep_records ha hsound hstep hm).1
      rw [hnone,show recordBytes [] = [] from rfl,List.append_nil]
      exact h.progress j x client hx' hclient'

theorem progressing_step (ha : Apart server.launch) (hs : Sound server w)
    (h : Progressing server w) (hstep : Step server w w') : Progressing server w' := by
  cases hstep with
  | acceptFailed errno hp => exact progressing_print ha hs h _
  | accept ssl hp => exact progressing_accept ssl hs h
  | fork hp => exact progressing_fork hs hp h
  | forkFailed hp => exact ⟨h.since,h.records,h.progress⟩
  | report ip hp =>
    exact progressing_print ha (sound_close hs hp) ⟨h.since,h.records,h.progress⟩ _
  | child hc hc' => exact progressing_child ha hs h hc hc'
  | change fs =>
    refine ⟨fun client hm => ?_,h.records,fun i c client hc hclient => ?_⟩
    · exact (h.since client hm).trans (by simp)
    · refine progress_mono ?_ (h.progress i c client hc hclient)
      exact instants_change fs (h.since client (List.mem_of_getElem? hclient))

theorem progressing_start (fs : FileSystem) :
    Progressing server (start (σ := σ) server fs) where
  since := by simp [start]
  records := by simp [start]
  progress := by simp [start]

theorem progressing_reaches (ha : Apart server.launch) {fs : FileSystem}
    (h : Reaches server (start server fs) w) : Progressing server w := by
  induction h with
  | refl => exact progressing_start fs
  | tail hr hs ih => exact progressing_step ha (sound_reaches hr) ih hs

section Connection
variable {fs : FileSystem} {connection : Nat} {client : Connection σ}

/-- What has been sent on a connection, by the stage of its child. -/
theorem child_progress (ha : Apart server.launch) (h : Reaches server (start server fs) w)
    (hc : w.connections[connection]? = some client) {c : Child} (hm : c ∈ w.children)
    (he : c.connection = connection) : Progress server (instants w client) client.ssl
      (recordBytes (sentOn connection w.output)) c.stage := by
  obtain rfl := he
  obtain ⟨i,hi⟩ := List.getElem?_of_mem hm
  exact (progressing_reaches ha h).progress i c client hi hc

theorem sent_begun (ha : Apart server.launch) (h : Reaches server (start server fs) w)
    (hc : w.connections[connection]? = some client) :
    ∃ memory fuel, ∃ fs ∈ instants w client, recordBytes (sentOn connection w.output) <+:
      (server.service fs).serve memory fuel client.ssl := by
  have hp := progressing_reaches ha h
  have hnow := now_mem (hp.since client (List.mem_of_getElem? hc))
  by_cases hex : ∃ c ∈ w.children, c.connection = connection
  · obtain ⟨c,hm,he⟩ := hex
    exact progress_prefix (List.ne_nil_of_mem hnow) (child_progress ha h hc hm he)
  · have hnone : sentOn connection w.output = [] :=
      sentOn_eq_nil fun written hm => hex (hp.records _ _ hm).2
    have hstarted : Progress server (instants w client) client.ssl [] .started := rfl
    rw [hnone]
    exact progress_prefix (List.ne_nil_of_mem hnow) hstarted

theorem sent_whole (ha : Apart server.launch) (h : Reaches server (start server fs) w)
    (hc : w.connections[connection]? = some client) {c : Child} (hm : c ∈ w.children)
    (he : c.connection = connection) (hstage : c.stage = .exited) :
    ∃ memory fuel, ∃ fs ∈ instants w client,
      (SecNet.construct server.digest memory fuel client.ssl).outcome ≠ .running ∧
      recordBytes (sentOn connection w.output) =
        (server.service fs).serve memory fuel client.ssl := by
  have hp := child_progress ha h hc hm he
  rw [hstage] at hp
  exact hp

/-- A client has been sent a beginning of the answer a connection process of its own would
give it, and once its child has exited over TLS the whole of it. -/
structure AsIfAlone (server : Listener) (w : State σ) (connection : Nat) (client : Connection σ) :
    Prop where
  records : ∀ written ∈ sentOn connection w.output, ∃ bytes, written = .record bytes
  begun : ∃ memory fuel, ∃ fs ∈ instants w client,
    recordBytes (sentOn connection w.output) <+: (server.service fs).serve memory fuel client.ssl
  whole : ∀ c ∈ w.children, c.connection = connection → c.stage = .exited →
    ∃ memory fuel, ∃ fs ∈ instants w client,
      (SecNet.construct server.digest memory fuel client.ssl).outcome ≠ .running ∧
      recordBytes (sentOn connection w.output) = (server.service fs).serve memory fuel client.ssl
  silent : ∀ c ∈ w.children, c.connection = connection → c.stage = .refused →
    recordBytes (sentOn connection w.output) = []

/-- As long as nothing is printed to the number the connections get, each of them is served
as if there were no other, at one instant of the storage since it was accepted. -/
theorem served_as_if_alone (ha : Apart server.launch) (h : Reaches server (start server fs) w)
    (hc : w.connections[connection]? = some client) : AsIfAlone server w connection client where
  records written hm := ((progressing_reaches ha h).records connection written
    (mem_sentOn.mp hm)).1
  begun := sent_begun ha h hc
  whole c hm he hstage := sent_whole ha h hc hm he hstage
  silent c hm he hstage := by
    have hp := child_progress ha h hc hm he
    rw [hstage] at hp
    exact hp

end Connection

end Run

def askingClient : Wire := ⟨[1,6,8,0,0,0,0,0,0,0,0,0,0,0,0,0,0,0]⟩

theorem standard_apart : Apart standardLaunch := by
  intro h
  have hentry : standardLaunch.table.entry 1 = some (.inherited 1) := rfl
  exact Table.ne_lowestFree (Table.entry_opened_of_some hentry) (Option.some.inj h)

/-- The client is told that there is no such block, and its child exits. -/
private theorem asking_reached : ∃ w : State Wire,
    Reaches emptyListener (start emptyListener noFiles) w ∧
      w.connections[0]? = some ⟨askingClient,0⟩ ∧
      (∃ c ∈ w.children, c.connection = 0 ∧ c.stage = .exited) := by
  have h := firstConstructing_reached emptyListener noFiles askingClient
  have hs := (sound_reaches h).child _ (List.mem_of_getElem? (i := 0) rfl)
  have h := h.tail (.child (i := 0) rfl
    (childStep_receive hs.1 rfl rfl ⟨false,fun _ => 0,fun _ => 0,fun _ => 0,fun _ => 0⟩ 0
      (by decide)))
  have h := h.tail (.child (i := 0) rfl (.dispatch rfl))
  have h := h.tail (.child (i := 0) rfl (.answer rfl))
  have h := h.tail (.child (i := 0) rfl (.finish rfl))
  exact ⟨_,h,rfl,_,List.mem_of_getElem? (i := 0) rfl,rfl,rfl⟩

theorem asking_served : ∃ w : State Wire,
    (∃ c ∈ w.children, c.connection = 0 ∧ c.stage = .exited) ∧
      AsIfAlone emptyListener w 0 ⟨askingClient,0⟩ := by
  obtain ⟨w,hreach,hc,hexited⟩ := asking_reached
  exact ⟨w,hexited,served_as_if_alone standard_apart hreach hc⟩

end Shepoo.Server.ListenLoop
