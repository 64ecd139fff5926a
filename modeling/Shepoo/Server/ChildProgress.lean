import Shepoo.Server.BlockService
import Shepoo.Server.HandshakeScan

/-! How long children live whose clients close behind what they send. Each takes a few steps
at most, and what it reads may keep it from ever taking the next. A client that stays silent
instead keeps its child waiting in `SSL_accept` or `SSL_read`, which is not said here. -/
namespace Shepoo.Server

def Stage.rest : Stage → Nat
  | .started => 6
  | .connecting => 5
  | .constructing => 4
  | .dispatching _ _ _ _ => 3
  | .answering _ answers => answers.length+1
  | .faulted => 1
  | _ => 0

theorem Stage.rest_pos {stage : Stage} (h : stage.ended = false) : 0 < stage.rest := by
  cases stage with
  | started => exact Nat.succ_pos 5
  | connecting => exact Nat.succ_pos 4
  | constructing => exact Nat.succ_pos 3
  | dispatching memory webSocket packet payload => exact Nat.succ_pos 2
  | answering webSocket answers => exact Nat.succ_pos _
  | faulted => exact Nat.succ_pos 0
  | refused => cases h
  | exited => cases h
  | killed => cases h

/-- The process has come as far as it gets on its own. -/
def Stage.finished : Stage → Bool
  | .refused => true
  | .exited => true
  | .faulted => true
  | _ => false

theorem Stage.finished_of_ended {stage : Stage} (h : stage.ended = true)
    (hk : stage ≠ .killed) : stage.finished = true := by
  cases stage with
  | refused => rfl
  | exited => rfl
  | killed => exact absurd rfl hk
  | _ => cases h

namespace ListenLoop
open Foundation ByteSource PosixFile DescriptorTable

section Child
variable {σ : Type} [Source σ] {server : Listener} {connections : List (Connection σ)}
  {fs : FileSystem} {c c' : Child} {out : Output}

private theorem dispatch_rest (service : Service) (memory : Memory) (webSocket : Bool)
    (packet : Packet) (payload : List UInt8) (c : Child) :
    (c.dispatch service memory webSocket packet payload).1.stage.rest < 3 := by
  rw [Child.dispatch]
  split
  · exact Nat.succ_pos 2
  · exact Nat.one_lt_succ_succ 1
  · next answers ho =>
    rcases (Protocol.packetReceived_answers _ _ _ _ _ _ ho).2 with rfl | ⟨answer,rfl,-⟩
    · exact Nat.one_lt_succ_succ 1
    · exact Nat.lt_succ_self 2

theorem childStep_rest (hs : ChildStep server connections fs c c' out) :
    c'.stage.rest < c.stage.rest := by
  cases hs with
  | closeServerSocket hc =>
    rw [hc]
    exact Nat.lt_succ_self 5
  | accept result hc =>
    rw [hc]
    cases result with
    | noSession => exact Nat.succ_pos 4
    | refused errors => exact Nat.succ_pos 4
    | established => exact Nat.lt_succ_self 4
  | receive memory fuel hc hsocket hclient hr =>
    rw [hc]
    rw [Child.receive]
    split
    · exact Nat.lt_succ_self 3
    · exact Nat.succ_pos 3
    · exact Nat.one_lt_succ_succ 2
    · next ho => exact absurd ho hr
  | dispatch hc =>
    rw [hc]
    exact dispatch_rest _ _ _ _ _ c
  | @answer webSocket next rest hc =>
    rw [hc]
    simp only [Child.answer]
    cases (sendPacket webSocket next.1 next.2).completed with
    | false => exact Nat.succ_lt_succ (Nat.succ_pos _)
    | true => exact Nat.lt_succ_self _
  | finish hc =>
    rw [hc]
    exact Nat.succ_pos 0
  | kill hc => exact Stage.rest_pos hc

end Child

section Run
variable {σ : Type} [Source σ] {server : Listener} {w w' : State σ}

inductive Counted (server : Listener) (w₀ : State σ) : Nat → State σ → Prop
  | start : Counted server w₀ 0 w₀
  | uncounted {n : Nat} {w w' : State σ} (h : Counted server w₀ n w) (hs : Step server w w') :
    Counted server w₀ n w'
  | counted {n i : Nat} {w : State σ} {c c' : Child} {out : Output}
    (h : Counted server w₀ n w) (hc : w.children[i]? = some c)
    (hs : ChildStep server w.connections w.fs c c' out) :
    Counted server w₀ (n+1)
      { w with children := w.children.set i c', output := w.output ++ out }

theorem Counted.reaches {w₀ : State σ} {n : Nat} (h : Counted server w₀ n w) :
    Reaches server w₀ w := by
  induction h with
  | start => exact .refl
  | uncounted _ hs ih => exact ih.tail hs
  | counted _ hc hs ih => exact ih.tail (.child hc hs)

def State.rest (w : State σ) : Nat := (w.children.map fun c => c.stage.rest).sum

private theorem sum_set {items : List Nat} {i a b : Nat} (h : items[i]? = some a) :
    (items.set i b).sum+a = items.sum+b := by
  induction items generalizing i with
  | nil => cases h
  | cons head tail ih =>
    cases i with
    | zero =>
      obtain rfl := Option.some.inj h
      simp only [List.set_cons_zero,List.sum_cons]
      omega
    | succ i =>
      have hi := ih h
      simp only [List.set_cons_succ,List.sum_cons]
      omega

/-- A step of a child takes at least one from what is left. -/
private theorem rest_child {i : Nat} {c c' : Child} {out : Output}
    (hc : w.children[i]? = some c) (hs : ChildStep server w.connections w.fs c c' out) :
    (State.rest { w with children := w.children.set i c', output := w.output ++ out })+1 ≤
      w.rest := by
  have hi : (w.children.map fun c => c.stage.rest)[i]? = some c.stage.rest := by
    rw [List.getElem?_map,hc]
    rfl
  have hsum := sum_set (b := c'.stage.rest) hi
  have hlt := childStep_rest hs
  change ((w.children.set i c').map fun c => c.stage.rest).sum+1 ≤
    (w.children.map fun c => c.stage.rest).sum
  rw [List.map_set]
  omega

private theorem rest_step (hs : Step server w w') :
    w'.rest+6*w.children.length ≤ w.rest+6*w'.children.length := by
  cases hs with
  | acceptFailed errno hp => exact le_rfl
  | accept ssl hp => exact le_rfl
  | forkFailed hp => exact le_rfl
  | report ip hp => exact le_rfl
  | change fs => exact le_rfl
  | fork hp =>
    simp only [State.fork,State.rest,List.map_append,List.map_singleton,List.sum_append,
      List.sum_singleton,List.length_append,List.length_singleton,Stage.rest]
    omega
  | child hc hchild =>
    have hlt := rest_child hc hchild
    simp only [List.length_set]
    omega

private theorem counted_rest {fs : FileSystem} {n : Nat}
    (h : Counted server (start server fs) n w) : n+w.rest ≤ 6*w.children.length := by
  induction h with
  | start => exact le_rfl
  | uncounted _ hs ih =>
    have hstep := rest_step hs
    omega
  | counted _ hc hs ih =>
    have hlt := rest_child hc hs
    simp only [List.length_set]
    omega

/-- However a run goes, its children take at most six steps for each connection. -/
theorem child_steps_bounded {fs : FileSystem} {n : Nat}
    (h : Counted server (start server fs) n w) : n ≤ 6*w.connections.length := by
  have hrest := counted_rest h
  have hs := sound_reaches h.reaches
  -- every child has a connection of its own
  have hle : w.children.length ≤ w.connections.length := by
    have hsub : w.children.map Child.connection ⊆ List.range w.connections.length := by
      intro connection hm
      obtain ⟨c,hc,rfl⟩ := List.mem_map.mp hm
      exact List.mem_range.mpr (hs.child c hc).2
    have hlength := (hs.once.subperm hsub).length_le
    rwa [List.length_map,List.length_range] at hlength
  omega

/-- The constructor comes to an end with what the client sends before it closes, for some
memory of the process. -/
def Ends (server : Listener) (client : Connection σ) : Prop :=
  ∃ memory fuel, (SecNet.construct server.digest memory fuel client.ssl).outcome ≠ .running

variable {i : Nat} {c : Child} {client : Connection σ}

/-- A child that has not come to an end has a step of its own, unless it reads for ever. -/
private theorem own_step {connections : List (Connection σ)} {fs : FileSystem}
    (hends : Ends server client) (c : Child) (h : ChildSound server.launch c)
    (hc : connections[c.connection]? = some client) (hk : c.stage ≠ .killed)
    (hf : c.stage.finished = false) :
    ∃ c' out, ChildStep server connections fs c c' out ∧ c'.stage ≠ .killed := by
  cases hstage : c.stage with
  | started => exact ⟨_,_,.closeServerSocket hstage,Stage.noConfusion⟩
  | connecting => exact ⟨_,_,.accept .established hstage,Stage.noConfusion⟩
  | constructing =>
    obtain ⟨memory,fuel,hr⟩ := hends
    refine ⟨_,_,childStep_receive h hstage hc memory fuel hr,?_⟩
    rw [Child.receive]
    split
    · exact Stage.noConfusion
    · exact Stage.noConfusion
    · exact Stage.noConfusion
    · exact hk
  | dispatching memory webSocket packet payload =>
    refine ⟨_,_,.dispatch hstage,?_⟩
    rw [Child.dispatch]
    split <;> exact Stage.noConfusion
  | answering webSocket answers =>
    cases answers with
    | nil => exact ⟨_,_,.finish hstage,Stage.noConfusion⟩
    | cons next rest =>
      refine ⟨_,_,.answer hstage,?_⟩
      rw [Child.answer]
      simp only
      split <;> exact Stage.noConfusion
  | refused => rw [hstage] at hf; cases hf
  | exited => rw [hstage] at hf; cases hf
  | faulted => rw [hstage] at hf; cases hf
  | killed => exact absurd hstage hk

/-- A child that has a step of its own wherever it stands comes to its end, in a run in which
nobody else does anything. -/
theorem child_finishes {fs fs' : FileSystem} {connections : List (Connection σ)}
    {P : Stage → List UInt8 → Prop} (hk : ∀ bytes, ¬ P .killed bytes)
    (hstep : ∀ c bytes, ChildSound server.launch c → connections[c.connection]? = some client →
      P c.stage bytes → c.stage.finished = false → ∃ c' out,
        ChildStep server connections fs' c c' out ∧
        P c'.stage (bytes ++ recordBytes (sentOn c.connection out)))
    (n : Nat) (hn : c.stage.rest ≤ n) (h : Reaches server (start server fs) w)
    (hconnections : w.connections = connections) (hfs : w.fs = fs')
    (hi : w.children[i]? = some c) (hc : connections[c.connection]? = some client)
    (hp : P c.stage (recordBytes (sentOn c.connection w.output))) :
    ∃ w' c', Reaches server w w' ∧ w'.connections = connections ∧ w'.fs = fs' ∧
      w'.children.length = w.children.length ∧ w'.children[i]? = some c' ∧
      c'.stage.finished = true ∧ P c'.stage (recordBytes (sentOn c.connection w'.output)) := by
  induction n generalizing w c with
  | zero =>
    refine ⟨w,c,.refl,hconnections,hfs,rfl,hi,Stage.finished_of_ended ?_ ?_,hp⟩
    · by_contra he
      have hpos := Stage.rest_pos (Bool.eq_false_iff.mpr he)
      omega
    · intro hkilled
      exact hk _ (hkilled ▸ hp)
  | succ n ih =>
    cases hf : c.stage.finished with
    | true => exact ⟨w,c,.refl,hconnections,hfs,rfl,hi,hf,hp⟩
    | false =>
      have hsound := ((sound_reaches h).child c (List.mem_of_getElem? hi)).1
      obtain ⟨c₁,out,hs,hp₁⟩ := hstep c _ hsound hc hp hf
      have hnext : Step server w
          { w with children := w.children.set i c₁, output := w.output ++ out } :=
        .child hi (by rw [hconnections,hfs]; exact hs)
      have hi₁ : (w.children.set i c₁)[i]? = some c₁ :=
        List.getElem?_set_self (List.getElem?_eq_some_iff.mp hi).1
      have hconnection := childStep_connection hs
      have hlt := childStep_rest hs
      rw [← recordBytes_append,← sentOn_append,← hconnection] at hp₁
      obtain ⟨w',c',hr,hconnections',hfs',hlength,hi',hfinished,hp'⟩ :=
        ih (by omega) (h.tail hnext) hconnections hfs hi₁ (by rw [hconnection]; exact hc) hp₁
      exact ⟨w',c',.head hnext hr,hconnections',hfs',hlength.trans List.length_set,hi',hfinished,
        hconnection ▸ hp'⟩

structure Hung (w : State σ) (i : Nat) (client : Connection σ) : Prop where
  child : ∃ c, w.children[i]? = some c ∧ w.connections[c.connection]? = some client ∧
    (c.stage = .constructing ∨ c.stage = .killed)

private theorem childStep_hung {fs : FileSystem} {c' : Child} {out : Output}
    (h : ChildSound server.launch c) (hc : w.connections[c.connection]? = some client)
    (hends : ¬ Ends server client) (hstage : c.stage = .constructing ∨ c.stage = .killed)
    (hs : ChildStep server w.connections fs c c' out) :
    c'.stage = .constructing ∨ c'.stage = .killed := by
  have hother : ∀ {stage}, c.stage = stage → stage ≠ .constructing → stage ≠ .killed → False := by
    rintro stage rfl hne hnk
    exact hstage.elim hne hnk
  cases hs with
  | closeServerSocket hcs => exact (hother hcs Stage.noConfusion Stage.noConfusion).elim
  | accept result hcs => exact (hother hcs Stage.noConfusion Stage.noConfusion).elim
  | receive memory fuel hcs hsocket hclient hr =>
    rw [h.table] at hsocket
    rw [childTable_client _ ⟨_,hsocket⟩,hc] at hclient
    cases hclient
    exact absurd ⟨memory,fuel,hr⟩ hends
  | dispatch hcs => exact (hother hcs Stage.noConfusion Stage.noConfusion).elim
  | answer hcs => exact (hother hcs Stage.noConfusion Stage.noConfusion).elim
  | finish hcs => exact (hother hcs Stage.noConfusion Stage.noConfusion).elim
  | kill he => exact .inr rfl

private theorem hung_step (hsound : Sound server w) (h : Hung w i client)
    (hends : ¬ Ends server client) (hs : Step server w w') : Hung w' i client := by
  obtain ⟨c,hi,hc,hstage⟩ := h.child
  have hc' : w'.connections[c.connection]? = some client := by
    obtain ⟨more,hmore⟩ := connections_step hs
    rw [← hmore,List.getElem?_append_left (List.getElem?_eq_some_iff.mp hc).1]
    exact hc
  cases hs with
  | acceptFailed errno hp => exact ⟨c,hi,hc',hstage⟩
  | accept ssl hp => exact ⟨c,hi,hc',hstage⟩
  | forkFailed hp => exact ⟨c,hi,hc',hstage⟩
  | report ip hp => exact ⟨c,hi,hc',hstage⟩
  | change fs => exact ⟨c,hi,hc',hstage⟩
  | fork hp =>
    refine ⟨c,?_,hc',hstage⟩
    rw [State.fork,List.getElem?_append_left (List.getElem?_eq_some_iff.mp hi).1]
    exact hi
  | @child j c₁ c₂ out hj hchild =>
    by_cases hij : j = i
    · subst hij
      obtain rfl := Option.some.inj (hi.symm.trans hj)
      have hconnection := childStep_connection hchild
      refine ⟨c₂,List.getElem?_set_self (List.getElem?_eq_some_iff.mp hi).1,?_,?_⟩
      · rw [hconnection]
        exact hc
      · exact childStep_hung (hsound.child c (List.mem_of_getElem? hi)).1 hc hends hstage hchild
    · exact ⟨c,(List.getElem?_set_ne hij).trans hi,hc,hstage⟩

end Run

def truncatedClient : Records := ⟨[⟨ascii "GET /index",by decide⟩],[]⟩

theorem truncated_running (digest : Digest) (memory : Memory) (fuel : Nat) :
    (SecNet.construct digest memory fuel truncatedClient).outcome = .running := by
  have hread : readHeaders fuel (Packet.ofBytes (ascii "GET /index")) (⟨[],[]⟩ : Records) =
      .running := by
    rw [HandshakeScan.readHeaders_eq]
    exact HandshakeScan.running_at_end (HandshakeScan.tableAfter_fits (by decide)) rfl fuel
  have hhandshake : handshake fuel (Packet.ofBytes (ascii "GET /index")) (⟨[],[]⟩ : Records) =
      .running := by
    rw [handshake,hread]
    rfl
  change (SecNet.handleWebSocket digest memory fuel (Packet.ofBytes (ascii "GET /index"))
    (⟨[],[]⟩ : Records)).outcome = .running
  rw [SecNet.handleWebSocket,hhandshake]

end ListenLoop
end Shepoo.Server
