import Shepoo.Server.ChildProgress

/-! What clients can take from one another. Whoever hangs or was killed, a newcomer can be
sent all that a server of its own would send it, until the children there have been use up
what the system lets the server have. Nobody waits for them, so that is for good. -/
namespace Shepoo.Server.ListenLoop
open Foundation ByteSource PosixFile DescriptorTable

section Limit
variable {σ : Type} [Source σ] {server : Listener} {fs : FileSystem} {w w' : State σ}

/-- Children are added at the end, and none is ever taken away. -/
private theorem forked_step (hs : Step server w w') :
    w.children.map Child.connection <+: w'.children.map Child.connection := by
  cases hs with
  | acceptFailed errno hp => exact List.prefix_refl _
  | accept ssl hp => exact List.prefix_refl _
  | forkFailed hp => exact List.prefix_refl _
  | report ip hp => exact List.prefix_refl _
  | change fs => exact List.prefix_refl _
  | fork hp hroom =>
    simp only [State.fork,List.map_append]
    exact List.prefix_append _ _
  | child hc hchild => rw [map_connection_set hc (childStep_connection hchild)]

theorem forked_reaches (h : Reaches server w w') :
    w.children.map Child.connection <+: w'.children.map Child.connection := by
  induction h with
  | refl => exact List.prefix_refl _
  | tail _ hs ih => exact ih.trans (forked_step hs)

private theorem limited_step (h : w.children.length ≤ server.processes)
    (hs : Step server w w') : w'.children.length ≤ server.processes := by
  cases hs with
  | acceptFailed errno hp => exact h
  | accept ssl hp => exact h
  | forkFailed hp => exact h
  | report ip hp => exact h
  | change fs => exact h
  | fork hp hroom =>
    simp only [State.fork,List.length_append,List.length_singleton]
    omega
  | child hc hchild =>
    simp only [List.length_set]
    exact h

theorem limited_reaches (h : Reaches server (start server fs) w) :
    w.children.length ≤ server.processes := by
  induction h with
  | refl => exact Nat.zero_le _
  | tail _ hs ih => exact limited_step ih hs

/-- Once the limit is reached, no child is forked any more. -/
private theorem forked_full (h : Reaches server (start server fs) w)
    (hfull : ¬ w.children.length < server.processes) (hr : Reaches server w w') :
    w'.children.map Child.connection = w.children.map Child.connection := by
  have hlimit := limited_reaches (h.trans hr)
  refine ((forked_reaches hr).eq_of_length_le ?_).symm
  rw [List.length_map,List.length_map]
  omega

/-- From then on, whoever is accepted is sent nothing. -/
theorem full_silent (ha : Apart server.launch) (h : Reaches server (start server fs) w)
    (hfull : ¬ w.children.length < server.processes) (hr : Reaches server w w')
    {connection : Nat} (hlate : w.connections.length ≤ connection) :
    sentOn connection w'.output = [] := by
  refine sentOn_eq_nil fun written hm => ?_
  obtain ⟨-,c,hc,hconnection⟩ := (progressing_reaches ha (h.trans hr)).records _ _ hm
  have hold : connection ∈ w.children.map Child.connection := by
    rw [← forked_full h hfull hr,← hconnection]
    exact List.mem_map_of_mem hc
  obtain ⟨c₀,hc₀,he⟩ := List.mem_map.mp hold
  have hlt := ((sound_reaches h).child c₀ hc₀).2
  omega

end Limit

section Newcomer
variable {σ : Type} [Source σ] {server : Listener} {fs fs₀ : FileSystem} {path : String}
  {w : State σ} {connections : List (Connection σ)} {client : Connection σ} {num : UInt64}
  {greeting : List UInt8} {webSocket : Memory → Bool}

/-- A child that is on its way has a step of its own, with the memory it is to have. -/
private theorem sending_step {memory : Memory} {fuel : Nat} (ha : Apart server.launch)
    (hr : (SecNet.construct server.digest memory fuel client.ssl).outcome ≠ .running) (c : Child)
    (bytes : List UInt8) (h : ChildSound server.launch c)
    (hc : connections[c.connection]? = some client)
    (hp : Sending server fs memory fuel client.ssl bytes c.stage)
    (hf : c.stage.finished = false) :
    ∃ c' out, ChildStep server connections fs c c' out ∧
      Sending server fs memory fuel client.ssl
        (bytes ++ recordBytes (sentOn c.connection out)) c'.stage := by
  cases hstage : c.stage with
  | started =>
    rw [hstage] at hp
    exact ⟨_,_,.closeServerSocket hstage,(List.append_nil bytes).trans hp⟩
  | connecting =>
    rw [hstage] at hp
    exact ⟨_,_,.accept .established hstage,(List.append_nil bytes).trans hp⟩
  | constructing =>
    rw [hstage] at hp
    obtain rfl : bytes = [] := hp
    exact ⟨_,_,childStep_receive h hstage hc memory fuel hr,receive_sending ha h hstage fs hr⟩
  | dispatching memory' webSocket packet payload =>
    rw [hstage] at hp
    obtain rfl := hp.1
    exact ⟨_,_,.dispatch hstage,dispatch_sending ha h hp⟩
  | answering webSocket answers =>
    rw [hstage] at hp
    cases answers with
    | nil => exact ⟨_,_,.finish hstage,finish_sending ha h hp⟩
    | cons next rest => exact ⟨_,_,.answer hstage,answer_sending h hstage hp⟩
  | refused => rw [hstage] at hf; cases hf
  | exited => rw [hstage] at hf; cases hf
  | faulted => rw [hstage] at hf; cases hf
  | killed => rw [hstage] at hp; exact hp.elim

private theorem sending_finished {memory : Memory} {fuel : Nat} {ssl : σ} {bytes : List UInt8}
    {stage : Stage} (h : Sending server fs memory fuel ssl bytes stage)
    (hf : stage.finished = true) : bytes = (server.service fs).serve memory fuel ssl := by
  cases stage with
  | exited => exact h
  | faulted => exact h
  | refused => exact h.elim
  | started => cases hf
  | connecting => cases hf
  | constructing => cases hf
  | dispatching _ _ _ _ => cases hf
  | answering _ _ => cases hf
  | killed => cases hf

/-- Wherever the parent is in the body of its loop, it gets back to `accept`. -/
private theorem reaches_accepting (server : Listener) (w : State σ) :
    ∃ w', Reaches server w w' ∧ w'.phase = .accepting ∧ w'.connections = w.connections ∧
      w'.past = w.past ∧ w'.fs = w.fs ∧ w'.children = w.children := by
  cases hp : w.phase with
  | accepting => exact ⟨w,.refl,hp,rfl,rfl,rfl,rfl⟩
  | forking newSocket =>
    have h : Reaches server w { w with phase := .closing newSocket } := .single (.forkFailed hp)
    exact ⟨_,h.tail (.report [] rfl),rfl,rfl,rfl,rfl,rfl⟩
  | closing newSocket => exact ⟨_,.single (.report [] hp),rfl,rfl,rfl,rfl,rfl⟩

private theorem reaches_started (w : State σ) (ssl : σ)
    (hroom : w.children.length < server.processes) :
    ∃ (w' : State σ) (c : Child), Reaches server w w' ∧
      w'.connections = w.connections ++ [⟨ssl,w.past.length⟩] ∧ w'.fs = w.fs ∧
      w'.children = w.children ++ [c] ∧ c.connection = w.connections.length ∧
      c.stage = .started := by
  obtain ⟨w₁,hr,hphase,hconnections,hpast,hfs,hchildren⟩ := reaches_accepting server w
  have hroom₁ : (w₁.accept ssl).children.length < server.processes := by
    change w₁.children.length < server.processes
    rw [hchildren]
    exact hroom
  refine ⟨(w₁.accept ssl).fork w₁.parent.table.lowestFree,_,
    (hr.tail (.accept ssl hphase)).tail (.fork rfl hroom₁),?_,hfs,
    congrArg (fun children => children ++ [_]) hchildren,?_,rfl⟩
  · rw [← hconnections,← hpast]
    rfl
  · change (w₁.connections ++ [_]).length-1 = _
    rw [List.length_append,List.length_singleton,Nat.add_sub_cancel,hconnections]

/-- Whatever a process of its own would send it, with whatever it finds in its memory, a
newcomer is sent in some continuation of every run with room for its child, in which nobody
else does anything. -/
theorem newcomer_sent (ha : Apart server.launch) (h : Reaches server (start server fs) w)
    (hroom : w.children.length < server.processes) {memory : Memory} {fuel : Nat} {ssl : σ}
    (hr : (SecNet.construct server.digest memory fuel ssl).outcome ≠ .running) :
    ∃ w', Reaches server w w' ∧ w'.connections = w.connections ++ [⟨ssl,w.past.length⟩] ∧
      w'.fs = w.fs ∧ w'.children.length = w.children.length+1 ∧
      recordBytes (sentOn w.connections.length w'.output) =
        (server.service w.fs).serve memory fuel ssl := by
  obtain ⟨w₁,c₁,hr₁,hconnections,hfs,hchildren,hconnection,hstarted⟩ :=
    reaches_started w ssl hroom
  have hi : w₁.children[w.children.length]? = some c₁ := by
    rw [hchildren]
    exact List.getElem?_concat_length ..
  have hnew : (w.connections ++ [(⟨ssl,w.past.length⟩ : Connection σ)])[c₁.connection]? =
      some ⟨ssl,w.past.length⟩ := by
    rw [hconnection]
    exact List.getElem?_concat_length ..
  have hnone := child_progress ha (h.trans hr₁) (hconnections ▸ hnew) (List.mem_of_getElem? hi) rfl
  rw [hstarted] at hnone
  have hbegun : Sending server w.fs memory fuel ssl
      (recordBytes (sentOn c₁.connection w₁.output)) c₁.stage := by
    rw [hstarted]
    exact hnone
  obtain ⟨w',c,hr',hconnections',hfs',hlength,-,hfinished,hsent⟩ :=
    child_finishes (P := fun stage bytes => Sending server w.fs memory fuel ssl bytes stage)
      (fun _ => id) (sending_step ha hr) _ le_rfl (h.trans hr₁) hconnections hfs hi hnew hbegun
  rw [hchildren,List.length_append,List.length_singleton] at hlength
  exact ⟨w',hr₁.trans hr',hconnections',hfs',hlength,
    hconnection ▸ sending_finished hsent hfinished⟩

/-- As many clients as it takes bring the server to its limit. -/
theorem limit_reachable (ssl : σ) (h : Reaches server (start server fs) w) :
    ∃ w', Reaches server w w' ∧ w'.fs = w.fs ∧ w'.children.length = server.processes := by
  obtain ⟨n,hn⟩ := Nat.exists_eq_add_of_le (limited_reaches h)
  induction n generalizing w with
  | zero => exact ⟨w,.refl,rfl,hn.symm⟩
  | succ n ih =>
    have hroom : w.children.length < server.processes := by omega
    obtain ⟨w₁,c,hr₁,-,hfs₁,hchildren,-,-⟩ := reaches_started w ssl hroom
    have hlength : w₁.children.length = w.children.length+1 := by
      rw [hchildren,List.length_append,List.length_singleton]
    obtain ⟨w',hr,hfs,hfull⟩ := ih (h.trans hr₁) (by omega)
    exact ⟨w',hr₁.trans hr,hfs.trans hfs₁,hfull⟩

/-- A client that comes now can be sent its block, as the file holds it now. -/
def Servable (server : Listener) (w : State σ) (ssl : σ) (num : UInt64) (greeting : List UInt8)
    (webSocket : Memory → Bool) : Prop :=
  ∃ w' memory, ∃ (block : List UInt8) (hlen : block.length = server.blockSize.toNat),
    Reaches server w w' ∧ w'.connections = w.connections ++ [⟨ssl,w.past.length⟩] ∧
    w'.fs = w.fs ∧
    IsBlock (contents w.fs server.storage.path) server.blockSize.toNat num.toNat block ∧
    recordBytes (sentOn w.connections.length w'.output) =
      greeting ++ (blockAnswer server.blockSize block hlen).sent (webSocket memory)

end Newcomer

end Shepoo.Server.ListenLoop
