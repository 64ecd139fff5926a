import Shepoo.Server.ListenLoop

/-! Which process has which descriptor. The parent is left with nothing but what it
started with, and a child with nothing of any connection but its own. -/
namespace Shepoo.Server.ListenLoop
open Foundation ByteSource PosixFile DescriptorTable

section Tables
variable (launch : Launch)

/-- What the parent has; a connection only between `accept` and its own `close`. -/
def parentTable (connections : Nat) : Phase → Table Resource
  | .accepting => launch.listening
  | .forking _ => launch.listening.opened (.client (connections-1))
  | .closing _ => launch.listening.opened (.client (connections-1))

def childTable (connection : Nat) (stage : Stage) : Table Resource :=
  match stage with
  | .started => launch.listening.opened (.client connection)
  | stage =>
    if stage.ended then Table.nothing
    else (launch.listening.opened (.client connection)).close launch.serverSocket

theorem listening_serverSocket :
    launch.listening.entry launch.serverSocket = some .serverSocket := by
  rw [Launch.listening,Table.entry_opened]
  exact if_pos rfl

theorem listening_client (connection : Nat) : ¬ launch.listening.Holds (.client connection) := by
  intro h
  rcases Table.holds_opened.mp h with h | ⟨fd,hfd⟩
  · cases h
  · cases launch.noSocket fd _ hfd

/-- Only one number names the listening socket. -/
theorem listening_unique {fd : Nat} (h : launch.listening.entry fd = some .serverSocket) :
    fd = launch.serverSocket := by
  rw [Launch.listening,Table.entry_opened] at h
  split at h
  · assumption
  · cases launch.noSocket fd _ h

theorem clientSocket_ne : launch.clientSocket ≠ launch.serverSocket :=
  (Table.ne_lowestFree (listening_serverSocket launch)).symm

theorem opened_client {connection connection' : Nat}
    (h : (launch.listening.opened (.client connection)).Holds (.client connection')) :
    connection' = connection := by
  rcases Table.holds_opened.mp h with h | h
  · cases h
    rfl
  · exact absurd h (listening_client launch connection')

theorem childTable_client {connection connection' : Nat} {stage : Stage}
    (h : (childTable launch connection stage).Holds (.client connection')) :
    connection' = connection := by
  unfold childTable at h
  split at h
  · exact opened_client launch h
  · split at h
    · exact absurd h (Table.not_holds_nothing _)
    · exact opened_client launch (Table.holds_of_close h)

/-- The socket of a child that runs is its connection. -/
theorem childTable_socket (connection : Nat) {stage : Stage} (he : stage.ended = false) :
    (childTable launch connection stage).entry launch.clientSocket = some (.client connection) := by
  have hopen : (launch.listening.opened (.client connection)).entry launch.clientSocket =
      some (.client connection) := by
    rw [Table.entry_opened]
    exact if_pos rfl
  unfold childTable
  split
  · exact hopen
  · rw [if_neg (by simp [he]),Table.entry_close,if_neg (clientSocket_ne launch),hopen]

theorem childTable_ended (connection : Nat) {stage : Stage} (he : stage.ended = true) :
    childTable launch connection stage = Table.nothing := by
  unfold childTable
  split
  · cases he
  · exact if_pos he

theorem childTable_serverSocket (connection : Nat) (stage : Stage) :
    (childTable launch connection stage).Holds .serverSocket ↔ stage = .started := by
  constructor
  · intro h
    unfold childTable at h
    split at h
    · rfl
    · split at h
      · exact absurd h (Table.not_holds_nothing _)
      · refine absurd h (Table.not_holds_close fun k hk => ?_)
        rw [Table.entry_opened] at hk
        split at hk
        · cases hk
        · exact listening_unique launch hk
  · rintro rfl
    exact ⟨_,Table.entry_opened_of_some (listening_serverSocket launch)⟩

/-- The parent keeps what it had at the launch. -/
theorem parentTable_standing {fd : Nat} {resource : Resource}
    (h : launch.table.entry fd = some resource) (connections : Nat) (phase : Phase) :
    (parentTable launch connections phase).entry fd = some resource := by
  have hlistening : launch.listening.entry fd = some resource := Table.entry_opened_of_some h
  cases phase with
  | accepting => exact hlistening
  | forking newSocket => exact Table.entry_opened_of_some hlistening
  | closing newSocket => exact Table.entry_opened_of_some hlistening

/-- So does a child that runs. -/
theorem childTable_standing {fd : Nat} {resource : Resource}
    (h : launch.table.entry fd = some resource) (connection : Nat) {stage : Stage}
    (he : stage.ended = false) : (childTable launch connection stage).entry fd = some resource := by
  have hopened : (launch.listening.opened (.client connection)).entry fd = some resource :=
    Table.entry_opened_of_some (Table.entry_opened_of_some h)
  have hne : fd ≠ launch.serverSocket := Table.ne_lowestFree h
  unfold childTable
  split
  · exact hopened
  · rw [if_neg (by simp [he]),Table.entry_close,if_neg hne]
    exact hopened

end Tables

structure ChildSound (launch : Launch) (c : Child) : Prop where
  socket : c.socket = launch.clientSocket
  cout : c.process.cout = launch.cout
  table : c.process.table = childTable launch c.connection c.stage

section Child
variable {σ : Type} [Source σ] {server : Listener} {connections : List (Connection σ)}
  {fs : FileSystem} {c c' : Child} {out : Output}

theorem exit_sound {launch : Launch} {stage : Stage} (he : stage.ended = true)
    (lines : List (List UInt8)) (h : ChildSound launch c) :
    ChildSound launch (c.exit stage lines).1 :=
  ⟨h.socket,(Process.printAll_cout lines c.process).trans h.cout,
    (childTable_ended launch c.connection he).symm⟩

theorem childStep_connection (hs : ChildStep server connections fs c c' out) :
    c'.connection = c.connection := by
  cases hs with
  | closeServerSocket h => rfl
  | accept result h => cases result <;> rfl
  | receive memory fuel h hs hc hr =>
    rw [Child.receive]
    split <;> rfl
  | dispatch h =>
    rw [Child.dispatch]
    split <;> rfl
  | answer h => rfl
  | finish h => rfl
  | kill hc => rfl

theorem write_eq (h : ChildSound server.launch c) (he : c.stage.ended = false)
    (bytes : List UInt8) :
    c.write bytes = if bytes = [] then [] else [(.client c.connection,.record bytes)] := by
  rw [Child.write,h.socket,h.table,childTable_socket _ _ he]

theorem write_mem (h : ChildSound server.launch c) (he : c.stage.ended = false)
    {bytes : List UInt8} (hne : bytes ≠ []) :
    (.client c.connection,.record bytes) ∈ c.write bytes := by
  rw [write_eq h he,if_neg hne]
  exact List.mem_singleton_self _

/-- The constructor reads from the connection the child was forked for. -/
theorem childStep_receive {client : Connection σ} (h : ChildSound server.launch c)
    (hstage : c.stage = .constructing) (hc : connections[c.connection]? = some client)
    (memory : Memory) (fuel : Nat)
    (hr : (SecNet.construct server.digest memory fuel client.ssl).outcome ≠ .running) :
    ChildStep server connections fs c
      (c.receive memory (SecNet.construct server.digest memory fuel client.ssl)).1
      (c.receive memory (SecNet.construct server.digest memory fuel client.ssl)).2 := by
  have hsocket : c.process.table.entry c.socket = some (.client c.connection) := by
    rw [h.table,h.socket]
    exact childTable_socket _ _ (by rw [hstage]; rfl)
  exact .receive memory fuel hstage hsocket hc hr

theorem map_connection_set {children : List Child} {i : Nat} (hc : children[i]? = some c)
    (h : c'.connection = c.connection) :
    (children.set i c').map Child.connection = children.map Child.connection := by
  obtain ⟨hi,rfl⟩ := List.getElem?_eq_some_iff.mp hc
  rw [List.map_set,h,← List.getElem_map Child.connection (h := by rwa [List.length_map]),
    List.set_getElem_self]

/-- A stage between the close of the listening socket and the end. -/
private theorem sound_stage {launch : Launch} {stage stage' : Stage} (h : ChildSound launch c)
    (hc : c.stage = stage)
    (ht : childTable launch c.connection stage' = childTable launch c.connection stage) :
    ChildSound launch { c with stage := stage' } :=
  ⟨h.socket,h.cout,h.table.trans (by rw [hc]; exact ht.symm)⟩

theorem childStep_sound (h : ChildSound server.launch c)
    (hs : ChildStep server connections fs c c' out) : ChildSound server.launch c' := by
  cases hs with
  | closeServerSocket hc =>
    refine ⟨h.socket,h.cout,?_⟩
    have ht := h.table
    rw [hc] at ht
    exact congrArg (Table.close server.launch.serverSocket) ht
  | accept result hc =>
    cases result with
    | noSession => exact exit_sound rfl _ h
    | refused errors => exact exit_sound rfl _ h
    | established => exact sound_stage h hc rfl
  | receive memory fuel hc hs hconn hr =>
    rw [Child.receive]
    split
    · exact sound_stage h hc rfl
    · exact exit_sound rfl _ h
    · exact sound_stage h hc rfl
    · exact h
  | dispatch hc =>
    rw [Child.dispatch]
    split
    · exact exit_sound rfl _ h
    · exact sound_stage h hc rfl
    · exact sound_stage h hc rfl
  | answer hc =>
    refine sound_stage h hc ?_
    split <;> rfl
  | finish hc => exact exit_sound rfl _ h
  | kill hc => exact ⟨h.socket,h.cout,rfl⟩

end Child

variable {σ : Type} {server : Listener} {w w' : State σ}

/-- Every process is as its place in the source says, and no connection has two children. -/
structure Sound (server : Listener) (w : State σ) : Prop where
  parent : w.parent.table = parentTable server.launch w.connections.length w.phase
  cout : w.parent.cout = server.launch.cout
  handed : ∀ newSocket, w.phase = .forking newSocket ∨ w.phase = .closing newSocket →
    newSocket = server.launch.clientSocket ∧ 0 < w.connections.length
  child : ∀ c ∈ w.children, ChildSound server.launch c ∧ c.connection < w.connections.length
  once : (w.children.map Child.connection).Nodup
  waiting : ∀ newSocket, w.phase = .forking newSocket →
    ∀ c ∈ w.children, c.connection ≠ w.connections.length-1

theorem sound_start (fs : FileSystem) : Sound server (start (σ := σ) server fs) where
  parent := rfl
  cout := rfl
  handed := by
    rintro newSocket (h | h)
    · cases h
    · cases h
  child := by simp [start]
  once := List.nodup_nil
  waiting := by simp [start]

/-- The last connection is the one in the parent's hands. -/
private theorem sound_accept (ssl : σ) (h : Sound server w) (hp : w.phase = .accepting) :
    Sound server (w.accept ssl) := by
  have hparent := h.parent
  rw [hp] at hparent
  refine ⟨?_,h.cout,?_,?_,h.once,?_⟩
  · simp only [State.accept,parentTable,hparent,List.length_append,List.length_singleton,
      Nat.add_sub_cancel]
  · rintro newSocket (he | he)
    · simp only [State.accept,Phase.forking.injEq] at he
      rw [hparent] at he
      exact ⟨he.symm,by simp [State.accept]⟩
    · cases he
  · intro c hc
    obtain ⟨hs,hlt⟩ := h.child c hc
    exact ⟨hs,hlt.trans (by simp [State.accept])⟩
  · rintro newSocket - c hc
    have hlt := (h.child c hc).2
    simp only [State.accept,List.length_append,List.length_singleton]
    omega

private theorem sound_fork {newSocket : Nat} (h : Sound server w)
    (hp : w.phase = .forking newSocket) : Sound server (w.fork newSocket) := by
  obtain ⟨hsocket,hpos⟩ := h.handed newSocket (.inl hp)
  have hparent := h.parent
  rw [hp] at hparent
  refine ⟨hparent,h.cout,?_,?_,?_,?_⟩
  · rintro k (he | he)
    · cases he
    · cases he
      exact ⟨hsocket,hpos⟩
  · intro c hc
    rcases List.mem_append.mp hc with hc | hc
    · exact h.child c hc
    · obtain rfl := List.mem_singleton.mp hc
      exact ⟨⟨hsocket,h.cout,hparent⟩,Nat.sub_lt hpos Nat.one_pos⟩
  · simp only [State.fork,List.map_append,List.map_singleton]
    refine List.nodup_append.mpr ⟨h.once,List.nodup_singleton _,?_⟩
    rintro connection hold _ hnew rfl
    obtain ⟨c,hc,he⟩ := List.mem_map.mp hold
    exact h.waiting newSocket hp c hc (he.trans (List.mem_singleton.mp hnew))
  · rintro k he
    cases he

theorem sound_close {newSocket : Nat} (h : Sound server w) (hp : w.phase = .closing newSocket) :
    Sound server (w.closeNewSocket newSocket) := by
  obtain ⟨hsocket,-⟩ := h.handed newSocket (.inr hp)
  have hparent := h.parent
  rw [hp] at hparent
  refine ⟨?_,h.cout,?_,h.child,h.once,?_⟩
  · simp only [State.closeNewSocket,hparent,hsocket]
    exact Table.close_opened
  · rintro k (he | he)
    · cases he
    · cases he
  · rintro k he
    cases he

/-- To print changes nothing but the state of the stream. -/
theorem sound_print (h : Sound server w) (line : List UInt8) :
    Sound server (w.parentPrint line) := by
  refine ⟨?_,?_,h.handed,h.child,h.once,h.waiting⟩
  · simp only [State.parentPrint,Process.print_table,h.parent]
  · simp only [State.parentPrint,Process.print_cout,h.cout]

section Run
variable [Source σ]

private theorem sound_child {i : Nat} {c c' : Child} {out : Output} (h : Sound server w)
    (hc : w.children[i]? = some c) (hs : ChildStep server w.connections w.fs c c' out) :
    Sound server { w with children := w.children.set i c', output := w.output ++ out } := by
  have hm := List.mem_of_getElem? hc
  obtain ⟨hsound,hlt⟩ := h.child c hm
  have hconnection := childStep_connection hs
  refine ⟨h.parent,h.cout,h.handed,?_,?_,?_⟩
  · intro x hx
    rcases List.mem_or_eq_of_mem_set hx with hx | rfl
    · exact h.child x hx
    · exact ⟨childStep_sound hsound hs,hconnection.symm ▸ hlt⟩
  · rw [map_connection_set hc hconnection]
    exact h.once
  · intro newSocket hp x hx
    rcases List.mem_or_eq_of_mem_set hx with hx | rfl
    · exact h.waiting newSocket hp x hx
    · rw [hconnection]
      exact h.waiting newSocket hp c hm

theorem sound_step (h : Sound server w) (hs : Step server w w') : Sound server w' := by
  cases hs with
  | acceptFailed errno hp => exact sound_print h _
  | accept ssl hp => exact sound_accept ssl h hp
  | fork hp => exact sound_fork h hp
  | forkFailed hp =>
    obtain ⟨hsocket,hpos⟩ := h.handed _ (.inl hp)
    have hparent := h.parent
    rw [hp] at hparent
    refine ⟨hparent,h.cout,?_,h.child,h.once,?_⟩
    · rintro k (he | he)
      · cases he
      · cases he
        exact ⟨hsocket,hpos⟩
    · rintro k he
      cases he
  | report ip hp => exact sound_print (sound_close h hp) _
  | child hc hc' => exact sound_child h hc hc'
  | change fs => exact ⟨h.parent,h.cout,h.handed,h.child,h.once,h.waiting⟩

theorem sound_reaches {fs : FileSystem} (h : Reaches server (start server fs) w) :
    Sound server w := by
  induction h with
  | refl => exact sound_start fs
  | tail _ hs ih => exact sound_step ih hs

end Run

/-- Who has what. A connection that the parent is done with and whose child has ended is
nobody's, so its client sees the end of the stream. -/
structure Owned (server : Listener) (w : State σ) : Prop extends Sound server w where
  standing : ∀ fd resource, server.launch.table.entry fd = some resource →
    w.parent.table.entry fd = some resource ∧
    ∀ c ∈ w.children, c.stage.ended = false → c.process.table.entry fd = some resource
  listens : w.parent.table.entry server.launch.serverSocket = some .serverSocket
  last : ∀ connection, w.parent.table.Holds (.client connection) ↔
    w.phase ≠ .accepting ∧ connection+1 = w.connections.length
  connected : ∀ c ∈ w.children, c.stage.ended = false →
    c.process.table.entry c.socket = some (.client c.connection)
  own : ∀ c ∈ w.children, ∀ connection, c.process.table.Holds (.client connection) →
    connection = c.connection
  unlistening : ∀ c ∈ w.children, c.process.table.Holds .serverSocket ↔ c.stage = .started
  gone : ∀ c ∈ w.children, c.stage.ended = true → c.process.table = Table.nothing
  released : w.phase = .accepting → ∀ connection,
    (∀ c ∈ w.children, c.connection = connection → c.stage.ended = true) →
      ¬ w.parent.table.Holds (.client connection) ∧
      ∀ c ∈ w.children, ¬ c.process.table.Holds (.client connection)

private theorem parent_listens (h : Sound server w) :
    w.parent.table.entry server.launch.serverSocket = some .serverSocket := by
  rw [h.parent]
  cases hp : w.phase with
  | accepting => exact listening_serverSocket _
  | forking k => exact Table.entry_opened_of_some (listening_serverSocket _)
  | closing k => exact Table.entry_opened_of_some (listening_serverSocket _)

private theorem opened_last (h : Sound server w) {newSocket : Nat}
    (hp : w.phase = .forking newSocket ∨ w.phase = .closing newSocket) (connection : Nat) :
    (server.launch.listening.opened (.client (w.connections.length-1))).Holds
      (.client connection) ↔ connection+1 = w.connections.length := by
  have hpos := (h.handed newSocket hp).2
  constructor
  · intro hh
    have hlast := opened_client _ hh
    omega
  · intro hlast
    obtain rfl : connection = w.connections.length-1 := by omega
    exact Table.holds_opened.mpr (.inl rfl)

private theorem parent_last (h : Sound server w) (connection : Nat) :
    w.parent.table.Holds (.client connection) ↔
      w.phase ≠ .accepting ∧ connection+1 = w.connections.length := by
  rw [h.parent]
  cases hp : w.phase with
  | accepting => exact iff_of_false (listening_client _ connection) fun hlast => hlast.1 rfl
  | forking newSocket =>
    exact (opened_last h (.inl hp) connection).trans (and_iff_right Phase.noConfusion).symm
  | closing newSocket =>
    exact (opened_last h (.inr hp) connection).trans (and_iff_right Phase.noConfusion).symm

private theorem ended_nothing {c : Child} (h : ChildSound server.launch c)
    (he : c.stage.ended = true) : c.process.table = Table.nothing := by
  rw [h.table]
  exact childTable_ended _ _ he

theorem owned_of_sound (h : Sound server w) : Owned server w where
  toSound := h
  standing fd resource hfd := by
    refine ⟨?_,fun c hc he => ?_⟩
    · rw [h.parent]
      exact parentTable_standing _ hfd _ _
    · rw [(h.child c hc).1.table]
      exact childTable_standing _ hfd _ he
  listens := parent_listens h
  last := parent_last h
  connected c hc he := by
    rw [(h.child c hc).1.table,(h.child c hc).1.socket]
    exact childTable_socket _ _ he
  own c hc connection hh := by
    rw [(h.child c hc).1.table] at hh
    exact childTable_client _ hh
  unlistening c hc := by
    rw [(h.child c hc).1.table]
    exact childTable_serverSocket _ _ _
  gone c hc he := ended_nothing (h.child c hc).1 he
  released hp connection hended := by
    refine ⟨fun hh => ((parent_last h connection).mp hh).1 hp,fun c hc hh => ?_⟩
    have hown := hh
    rw [(h.child c hc).1.table] at hown
    have he := hended c hc (childTable_client _ hown).symm
    rw [ended_nothing (h.child c hc).1 he] at hh
    exact Table.not_holds_nothing _ hh

section Run
variable [Source σ]

/-- Over all runs, however many connections there are and however their processes and the
storage are interleaved, no descriptor is left over and no connection is shared. -/
theorem descriptors_owned {fs : FileSystem} (h : Reaches server (start server fs) w) :
    Owned server w :=
  owned_of_sound (sound_reaches h)

end Run

section First
variable [Source σ]

/-- The first client has a child, which is about to read from it. -/
def firstConstructing (server : Listener) (fs : FileSystem) (ssl : σ) : State σ :=
  let w := ((start server fs).accept ssl).fork server.launch.clientSocket
  { w with
    children := w.children.map fun c =>
      { c with
        process := { c.process with table := c.process.table.close server.launch.serverSocket }
        stage := .constructing } }

theorem firstConstructing_reached (server : Listener) (fs : FileSystem) (ssl : σ) :
    Reaches server (start server fs) (firstConstructing server fs ssl) := by
  have hroom : ((start server fs).accept ssl).children.length < server.processes :=
    server.processes.pos
  have h : Reaches server (start server fs) _ :=
    (Relation.ReflTransGen.single (.accept ssl rfl)).tail (.fork rfl hroom)
  have h := h.tail (.child (i := 0) rfl (.closeServerSocket rfl))
  exact h.tail (.child (i := 0) rfl (.accept .established rfl))

end First

def standardLaunch : Launch where
  table := ⟨fun fd => if fd < 3 then some (.inherited fd) else none,3,fun _ h =>
    if_neg (Nat.not_lt.mpr h)⟩
  cout := some 1
  noSocket fd resource h := by
    simp only [Option.ite_none_right_eq_some] at h
    rw [← Option.some.inj h.2]
    rfl

def standardProcesses : ℕ+ := 4

def emptyListener : Listener :=
  ⟨standardLaunch,noDigest,8,Blockstorage.create noFiles "",standardProcesses⟩

/-- The child of one client was killed, that of the next has closed the listening socket, and
the parent still has that client's connection. -/
theorem twoForked_owned : ∃ w : State Wire, Owned emptyListener w ∧
    w.phase ≠ .accepting ∧ w.children.map Child.connection = [0,1] ∧
    (∃ c ∈ w.children, c.stage.ended = true) ∧
    ∃ c ∈ w.children, c.stage.ended = false ∧ c.stage ≠ .started := by
  have h : Reaches emptyListener (start emptyListener noFiles) _ :=
    (Relation.ReflTransGen.single (.accept (⟨[]⟩ : Wire) rfl)).tail (.fork rfl (by decide))
  have h := h.tail (.report [] rfl)
  have h := h.tail (.child (i := 0) rfl (.closeServerSocket rfl))
  have h := h.tail (.child (i := 0) rfl (.accept .established rfl))
  have h := h.tail (.child (i := 0) rfl (.kill rfl))
  have h := h.tail (.accept ⟨[]⟩ rfl)
  have h := h.tail (.fork rfl (by decide))
  have h := h.tail (.child (i := 1) rfl (.closeServerSocket rfl))
  exact ⟨_,descriptors_owned h,Phase.noConfusion,rfl,⟨_,List.mem_of_getElem? (i := 0) rfl,rfl⟩,
    _,List.mem_of_getElem? (i := 1) rfl,rfl,Stage.noConfusion⟩

end Shepoo.Server.ListenLoop
