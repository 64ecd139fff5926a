import Shepoo.Server.ConnectionOutput

/-! Text of `std::cout` on a connection. It gets there when the descriptor behind the stream
was free at the launch and is the next one to be given out after the listening socket's. -/
namespace Shepoo.Server.ListenLoop
open Foundation ByteSource PosixFile DescriptorTable

section Child
variable {σ : Type} [Source σ] {server : Listener} {connections : List (Connection σ)}
  {fs : FileSystem} {c c' : Child} {out : Output} {connection : Nat} {text : List UInt8}

private theorem write_not_text (bytes : List UInt8) (resource : Resource) :
    (resource,.text text) ∉ c.write bytes := by
  intro hm
  rw [Child.write] at hm
  split at hm
  · cases hm
  · split at hm
    · cases hm
    · cases List.mem_singleton.mp hm

/-- Whatever a child prints goes where its stream goes, and only while that is good. -/
theorem childStep_print {resource : Resource} (hs : ChildStep server connections fs c c' out)
    (hm : (resource,.text text) ∈ out) :
    c.process.good = true ∧ c.process.cout.bind c.process.table.entry = some resource := by
  have hexit : ∀ {stage lines}, (resource,.text text) ∈ (c.exit stage lines).2 →
      c.process.good = true ∧ c.process.cout.bind c.process.table.entry = some resource :=
    fun hm => ⟨(Process.printAll_target hm).1,(Process.printAll_target hm).2.1⟩
  cases hs with
  | closeServerSocket hc => cases hm
  | accept result hc =>
    cases result with
    | noSession => exact hexit hm
    | refused errors => exact hexit hm
    | established => cases hm
  | receive memory fuel hc hsocket hclient hr =>
    unfold Child.receive at hm
    split at hm
    · exact absurd hm (write_not_text _ _)
    · exact hexit ((List.mem_append.mp hm).resolve_left (write_not_text _ _))
    · exact absurd hm (write_not_text _ _)
    · cases hm
  | dispatch hc =>
    unfold Child.dispatch at hm
    split at hm
    · exact hexit hm
    · cases hm
    · cases hm
  | answer hc => exact absurd hm (write_not_text _ _)
  | finish hc => exact hexit hm
  | kill hc => cases hm

/-- To a connection, only the connection's own child prints. -/
theorem childStep_text (h : ChildSound server.launch c)
    (hs : ChildStep server connections fs c c' out)
    (hm : (.client connection,.text text) ∈ out) :
    connection = c.connection ∧ c.process.good = true := by
  obtain ⟨hgood,htarget⟩ := childStep_print hs hm
  obtain ⟨fd,-,hentry⟩ := Option.bind_eq_some_iff.mp htarget
  rw [h.table] at hentry
  exact ⟨childTable_client _ ⟨fd,hentry⟩,hgood⟩

theorem childStep_good (hs : ChildStep server connections fs c c' out)
    (h : c'.process.good = true) : c.process.good = true := by
  cases hs with
  | closeServerSocket hc => exact h
  | accept result hc =>
    cases result with
    | noSession => exact Process.good_of_printAll h
    | refused errors => exact Process.good_of_printAll h
    | established => exact h
  | receive memory fuel hc hsocket hclient hr =>
    unfold Child.receive at h
    split at h
    · exact h
    · exact Process.good_of_printAll h
    · exact h
    · exact h
  | dispatch hc =>
    unfold Child.dispatch at h
    split at h
    · exact Process.good_of_printAll h
    · exact h
    · exact h
  | answer hc => exact h
  | finish hc => exact Process.good_of_printAll h
  | kill hc => exact h

end Child

section Run
variable {σ : Type} {server : Listener} {w w' : State σ}

/-- A stream that is still good has printed nothing in the parent, so there has been no more
than one connection. -/
structure FirstOnly (w : State σ) : Prop where
  fresh : w.phase = .accepting → w.parent.good = true → w.connections.length = 0
  handing : w.parent.good = true → w.connections.length ≤ 1
  child : ∀ c ∈ w.children, c.process.good = true → c.connection = 0
  text : ∀ connection text, (.client connection,.text text) ∈ w.output → connection = 0

theorem firstOnly_start (fs : FileSystem) : FirstOnly (start (σ := σ) server fs) where
  fresh _ _ := rfl
  handing _ := Nat.zero_le 1
  child := by simp [start]
  text := by simp [start]

/-- In the accepting parent the descriptor is free, and to print fails. -/
private theorem firstOnly_print (hcout : server.launch.cout = some server.launch.clientSocket)
    (hs : Sound server w) (hp : w.phase = .accepting) (line : List UInt8)
    (hchild : ∀ c ∈ w.children, c.process.good = true → c.connection = 0)
    (htext : ∀ connection text, (.client connection,.text text) ∈ w.output → connection = 0) :
    FirstOnly (w.parentPrint line) := by
  have hparent := hs.parent
  rw [hp] at hparent
  have hnone : w.parent.cout.bind w.parent.table.entry = none := by
    rw [hs.cout,hcout,hparent]
    exact Table.entry_lowestFree _
  have hbad : (w.parent.print line).1.good = false ∧ (w.parent.print line).2 = [] := by
    rw [Process.print,hnone]
    split
    · exact ⟨rfl,rfl⟩
    · next hgood => exact ⟨Bool.eq_false_iff.mpr hgood,rfl⟩
  have hfalse : ¬ (w.parentPrint line).parent.good = true := by
    simp only [State.parentPrint,hbad.1,Bool.false_eq_true,not_false_eq_true]
  refine ⟨fun _ h => absurd h hfalse,fun h => absurd h hfalse,hchild,fun connection text hm => ?_⟩
  simp only [State.parentPrint,hbad.2,List.append_nil] at hm
  exact htext connection text hm

variable [Source σ]

theorem firstOnly_step (hcout : server.launch.cout = some server.launch.clientSocket)
    (hs : Sound server w) (h : FirstOnly w) (hstep : Step server w w') : FirstOnly w' := by
  cases hstep with
  | acceptFailed errno hp => exact firstOnly_print hcout hs hp _ h.child h.text
  | accept ssl hp =>
    refine ⟨fun he => Phase.noConfusion he,fun hgood => ?_,h.child,h.text⟩
    have hzero := h.fresh hp hgood
    simp only [State.accept,List.length_append,List.length_singleton,hzero,le_refl]
  | fork hp =>
    refine ⟨fun he => Phase.noConfusion he,h.handing,fun c hc hgood => ?_,h.text⟩
    rcases List.mem_append.mp hc with hc | hc
    · exact h.child c hc hgood
    · obtain rfl := List.mem_singleton.mp hc
      have hone := h.handing hgood
      change w.connections.length-1 = 0
      omega
  | forkFailed hp => exact ⟨fun he => Phase.noConfusion he,h.handing,h.child,h.text⟩
  | report ip hp => exact firstOnly_print hcout (sound_close hs hp) rfl _ h.child h.text
  | child hc hstep =>
    have hm := List.mem_of_getElem? hc
    refine ⟨h.fresh,h.handing,fun x hx hgood => ?_,fun connection text ht => ?_⟩
    · rcases List.mem_or_eq_of_mem_set hx with hx | rfl
      · exact h.child x hx hgood
      · rw [childStep_connection hstep]
        exact h.child _ hm (childStep_good hstep hgood)
    · rcases List.mem_append.mp ht with ht | ht
      · exact h.text connection text ht
      · obtain ⟨rfl,hgood⟩ := childStep_text (hs.child _ hm).1 hstep ht
        exact h.child _ hm hgood
  | change fs => exact ⟨h.fresh,h.handing,h.child,h.text⟩

theorem firstOnly_reaches (hcout : server.launch.cout = some server.launch.clientSocket)
    {fs : FileSystem} (h : Reaches server (start server fs) w) : FirstOnly w := by
  induction h with
  | refl => exact firstOnly_start fs
  | tail hr hs ih => exact firstOnly_step hcout (sound_reaches hr) ih hs

/-- The first child, before anything has been printed. -/
private theorem first_connecting (server : Listener) (fs : FileSystem) (ssl : σ) :
    ∃ (w : State σ) (c : Child), Reaches server (start server fs) w ∧ w.children[0]? = some c ∧
      c.connection = 0 ∧ c.stage = .connecting ∧ c.process.good = true := by
  have hroom : ((start server fs).accept ssl).children.length < server.processes :=
    server.processes.pos
  have h : Reaches server (start server fs) _ :=
    (Relation.ReflTransGen.single (.accept ssl rfl)).tail (.fork rfl hroom)
  exact ⟨_,_,h.tail (.child (i := 0) rfl (.closeServerSocket rfl)),rfl,rfl,rfl,rfl⟩

/-- Where the stream writes to the number of the connections, the first client can be sent
a line in the clear. -/
private theorem text_reached (server : Listener) (fs : FileSystem) (ssl : σ)
    (hcout : server.launch.cout = some server.launch.clientSocket) :
    ∃ w : State σ, Reaches server (start server fs) w ∧
      ∃ text, (.client 0,.text text) ∈ w.output := by
  obtain ⟨w,c,h,hc,hconnection,hstage,hgood⟩ := first_connecting server fs ssl
  have hsound := ((sound_reaches h).child c (List.mem_of_getElem? hc)).1
  have hentry : c.process.cout.bind c.process.table.entry = some (.client 0) := by
    rw [hsound.cout,hcout,hsound.table,Option.bind_some,← hconnection]
    exact childTable_socket server.launch c.connection (by rw [hstage]; rfl)
  refine ⟨_,h.tail (.child hc (.accept .noSession hstage)),_,List.mem_append_right _
    (Process.print_mem hgood hentry _)⟩

/-- Whether text can come onto a connection at all is settled by the descriptors at the
launch, and it never comes onto any but the first. -/
theorem text_on_connection_iff (server : Listener) (fs : FileSystem) (ssl : σ) :
    ((∃ (w : State σ) (connection : Nat) (text : List UInt8),
      Reaches server (start server fs) w ∧ (.client connection,.text text) ∈ w.output) ↔
        server.launch.cout = some server.launch.clientSocket) ∧
    ∀ (w : State σ) (connection : Nat) (text : List UInt8), Reaches server (start server fs) w →
      (.client connection,.text text) ∈ w.output → connection = 0 := by
  have hapart : ∀ (w : State σ) (connection : Nat) (text : List UInt8),
      Reaches server (start server fs) w → (.client connection,.text text) ∈ w.output →
        server.launch.cout = some server.launch.clientSocket := by
    intro w connection text hreach hm
    by_contra hne
    obtain ⟨⟨bytes,hb⟩,-⟩ := (progressing_reaches hne hreach).records connection _ hm
    cases hb
  refine ⟨⟨?_,fun hcout => ?_⟩,fun w connection text hreach hm => ?_⟩
  · rintro ⟨w,connection,text,hreach,hm⟩
    exact hapart w connection text hreach hm
  · obtain ⟨w,hreach,text,hm⟩ := text_reached server fs ssl hcout
    exact ⟨w,0,text,hreach,hm⟩
  · exact (firstOnly_reaches (hapart w connection text hreach hm) hreach).text connection text hm

end Run
end Shepoo.Server.ListenLoop
