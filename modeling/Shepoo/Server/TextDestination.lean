import Shepoo.Server.PlainText
import Shepoo.Server.StartupOptions

/-! Where the text goes that a running server prints. The command line decides it, together
with what the program was started with on its standard output. -/
namespace Shepoo.Server
open Foundation PosixFile DescriptorTable

/-- The one place text can go to. The descriptor of `std::cout` may be free for the first
client to get. -/
def Launch.textTarget (launch : Launch) : Option Resource :=
  launch.cout.bind fun fd =>
    if fd = launch.clientSocket then some (.client 0) else launch.listening.entry fd

namespace ListenLoop
open ByteSource

section Target
variable {launch : Launch} {fd connection : Nat} {resource : Resource}

/-- Who or what a descriptor of a process refers to, a listening parent has had before. -/
def Known (launch : Launch) (resource : Resource) : Prop :=
  (∃ connection, resource = .client connection) ∨
    launch.cout.bind launch.listening.entry = some resource

private theorem opened_known (h : (launch.listening.opened (.client connection)).entry fd =
    some resource) :
    (∃ n, resource = .client n) ∨ launch.listening.entry fd = some resource := by
  rw [Table.entry_opened] at h
  split at h
  · exact .inl ⟨connection,(Option.some.inj h).symm⟩
  · exact .inr h

private theorem parentTable_known {phase : Phase}
    (h : (parentTable launch connection phase).entry fd = some resource) :
    (∃ n, resource = .client n) ∨ launch.listening.entry fd = some resource := by
  cases phase with
  | accepting => exact .inr h
  | forking k => exact opened_known h
  | closing k => exact opened_known h

private theorem childTable_known {stage : Stage}
    (h : (childTable launch connection stage).entry fd = some resource) :
    (∃ n, resource = .client n) ∨ launch.listening.entry fd = some resource := by
  unfold childTable at h
  split at h
  · exact opened_known h
  · split at h
    · cases h
    · rw [Table.entry_close] at h
      split at h
      · cases h
      · exact opened_known h

private theorem known_of_bind {cout : Option Nat} {table : Table Resource}
    (hc : cout = launch.cout)
    (ht : ∀ fd, table.entry fd = some resource →
      (∃ n, resource = .client n) ∨ launch.listening.entry fd = some resource)
    (h : cout.bind table.entry = some resource) : Known launch resource := by
  obtain ⟨fd,hfd,hentry⟩ := Option.bind_eq_some_iff.mp h
  rcases ht fd hentry with hn | hl
  · exact .inl hn
  · exact .inr (Option.bind_eq_some_iff.mpr ⟨fd,hc ▸ hfd,hl⟩)

end Target

section Run
variable {σ : Type} {server : Listener} {w w' : State σ}

def TextKnown (server : Listener) (w : State σ) : Prop :=
  ∀ resource text, (resource,.text text) ∈ w.output → Known server.launch resource

private theorem textKnown_print (hs : Sound server w) (h : TextKnown server w)
    (line : List UInt8) : TextKnown server (w.parentPrint line) := by
  intro resource text hm
  rcases List.mem_append.mp hm with hm | hm
  · exact h resource text hm
  · obtain ⟨-,htarget,-⟩ := Process.print_target hm
    refine known_of_bind hs.cout (fun fd hfd => ?_) htarget
    rw [hs.parent] at hfd
    exact parentTable_known hfd

variable [Source σ]

theorem textKnown_step (hs : Sound server w) (h : TextKnown server w)
    (hstep : Step server w w') : TextKnown server w' := by
  cases hstep with
  | acceptFailed errno hp => exact textKnown_print hs h _
  | accept ssl hp => exact h
  | fork hp => exact h
  | forkFailed hp => exact h
  | report ip hp => exact textKnown_print (sound_close hs hp) h _
  | child hc hstep =>
    intro resource text hm
    rcases List.mem_append.mp hm with hm | hm
    · exact h resource text hm
    · have hsound := (hs.child _ (List.mem_of_getElem? hc)).1
      refine known_of_bind hsound.cout (fun fd hfd => ?_) (childStep_print hstep hm).2
      rw [hsound.table] at hfd
      exact childTable_known hfd
  | change fs => exact h

theorem textKnown_reaches {fs : FileSystem} (h : Reaches server (start server fs) w) :
    TextKnown server w := by
  induction h with
  | refl =>
    intro resource text hm
    cases hm
  | tail hr hs ih => exact textKnown_step (sound_reaches hr) ih hs

variable (server) (fs : FileSystem) (resource : Resource)

def Printed : Prop :=
  ∃ (w : State σ) (text : List UInt8), Reaches server (start server fs) w ∧
    (resource,.text text) ∈ w.output

variable {server fs resource}

private theorem printed_client {connection : Nat} (ssl : σ)
    (h : Printed (σ := σ) server fs (.client connection)) :
    server.launch.textTarget = some (.client connection) := by
  obtain ⟨w,text,hreach,hm⟩ := h
  obtain ⟨hiff,hfirst⟩ := text_on_connection_iff server fs ssl
  have hcout := hiff.mp ⟨w,connection,text,hreach,hm⟩
  rw [hfirst w connection text hreach hm,Launch.textTarget,hcout,Option.bind_some,if_pos rfl]

private theorem target_of_known (hk : server.launch.cout.bind server.launch.listening.entry =
    some resource) : server.launch.textTarget = some resource := by
  obtain ⟨fd,hfd,hentry⟩ := Option.bind_eq_some_iff.mp hk
  have hne : fd ≠ server.launch.clientSocket := Table.ne_lowestFree hentry
  rw [Launch.textTarget,hfd,Option.bind_some,if_neg hne,hentry]

/-- A failed `accept` is reported wherever the parent's stream goes. -/
private theorem printed_of_entry {fd : Nat} (hc : server.launch.cout = some fd)
    (he : server.launch.listening.entry fd = some resource) :
    Printed (σ := σ) server fs resource := by
  have htarget : server.launch.cout.bind server.launch.listening.entry = some resource := by
    rw [hc,Option.bind_some,he]
  have hprint : ((start (σ := σ) server fs).parent.print (acceptError 0)).2 =
      [(resource,.text (acceptError 0 ++ [lf]))] := by
    simp only [Process.print,start,htarget,if_true]
  refine ⟨(start server fs).parentPrint (acceptError 0),acceptError 0 ++ [lf],
    Relation.ReflTransGen.single (.acceptFailed 0 rfl),List.mem_append_right _ ?_⟩
  rw [hprint]
  exact List.mem_cons_self

/-- Text goes to the target, in some run, and in no run anywhere else. -/
theorem printed_iff (ssl : σ) :
    Printed (σ := σ) server fs resource ↔ server.launch.textTarget = some resource := by
  constructor
  · intro h
    obtain ⟨w,text,hreach,hm⟩ := h
    rcases textKnown_reaches hreach resource text hm with ⟨n,rfl⟩ | hk
    · exact printed_client ssl ⟨w,text,hreach,hm⟩
    · exact target_of_known hk
  · intro h
    obtain ⟨fd,hfd,htarget⟩ := Option.bind_eq_some_iff.mp h
    split at htarget
    · next hclient =>
      obtain rfl := Option.some.inj htarget
      obtain ⟨w,connection,text,hreach,hm⟩ :=
        (text_on_connection_iff server fs ssl).1.mpr (hclient ▸ hfd)
      have hzero := (text_on_connection_iff server fs ssl).2 w connection text hreach hm
      exact ⟨w,text,hreach,hzero ▸ hm⟩
    · exact printed_of_entry hfd htarget

end Run

/-- As a shell starts a program: the standard streams are open, and the output is printed to
the second of them. -/
structure Usual (launch : Launch) : Prop where
  stdin : launch.table.entry 0 ≠ none
  stdout : launch.table.entry 1 ≠ none
  stderr : launch.table.entry 2 ≠ none
  cout : launch.cout = some 1

end ListenLoop

namespace Startup
open ByteSource ListenLoop

def daemonLaunch (calls : DaemonCalls) (logFile : String) (launch : Launch) : Launch :=
  let launch := if logFile ≠ "" then launch.redirect (calls.logOpens logFile) else launch
  ((launch.close 0).close 1).close 2

theorem daemonize_launch {calls : DaemonCalls} {logFile : String} {launch launch' : Launch}
    (h : daemonize calls logFile launch = .daemon launch') :
    launch' = daemonLaunch calls logFile launch := by
  rw [daemonLaunch]
  rw [daemonize] at h
  split at h
  · cases h
  · cases h
  · dsimp only at h ⊢
    generalize (if logFile ≠ "" then launch.redirect (calls.logOpens logFile) else launch) = l
      at h ⊢
    split at h
    · cases h
    · split at h
      · cases h
      · exact (Daemonized.daemon.inj h).symm

theorem run_server {host : Host} {arguments : Arguments} {launch : Launch} {server : Listener}
    (h : run host arguments launch = .listening server) :
    server = ⟨launch,host.digest,host.blockSize,
      Blockstorage.create host.fs (arguments.value .blockStorageFile),host.processes⟩ := by
  rw [run] at h
  split at h
  · cases h
  · cases h
  · exact (Started.listening.inj h).symm

/-- What a server has when its options let it get that far. -/
theorem main_server {host : Host} {parsed : List Parsed} {server : Listener}
    (h : main host parsed = .listening server) :
    server = ⟨if .daemonize ∈ parsed then
        daemonLaunch host.calls (absolutePath host.cwd (given .logFile parsed)) host.launch
      else host.launch,host.digest,host.blockSize,
      Blockstorage.create host.fs (absolutePath host.cwd (given .blockStorageFile parsed)),
      host.processes⟩ := by
  rw [main_eq] at h
  split at h
  · cases h
  · rw [proceed] at h
    by_cases hd : .daemonize ∈ parsed
    · have hflag : (absolutePaths host.cwd (requested parsed)).flagDaemonize = true :=
        decide_eq_true hd
      rw [if_pos hflag] at h
      split at h
      · cases h
      · next launch hlaunch =>
        rw [if_pos hd,run_server h,daemonize_launch hlaunch]
        rfl
    · have hflag : (absolutePaths host.cwd (requested parsed)).flagDaemonize = false :=
        decide_eq_false hd
      rw [hflag,if_neg Bool.false_ne_true] at h
      rw [if_neg hd,run_server h]
      rfl

theorem absolutePath_eq_empty {cwd path : String} : absolutePath cwd path = "" ↔ path = "" := by
  rw [absolutePath]
  split
  · rfl
  · next h =>
    refine iff_of_false (fun hempty => ?_) (not_or.mp h).1
    have hlist := congrArg String.toList hempty
    rw [String.toList_append,String.toList_append] at hlist
    exact List.append_ne_nil_of_right_ne_nil _ (by decide)
      (List.append_eq_nil_iff.mp hlist).1

section Target
variable {calls : DaemonCalls} {logFile : String} {launch : Launch}

/-- A descriptor that is open at the launch is not given to a client. -/
private theorem target_open {fd : Nat} {resource : Resource} (hc : launch.cout = some fd)
    (h : launch.table.entry fd = some resource) : launch.textTarget = some resource := by
  have hentry : launch.listening.entry fd = some resource := Table.entry_opened_of_some h
  have hne : fd ≠ launch.clientSocket := Table.ne_lowestFree hentry
  rw [Launch.textTarget,hc,Option.bind_some,if_neg hne,hentry]

theorem target_standing (hu : Usual launch) : launch.textTarget = launch.table.entry 1 := by
  obtain ⟨resource,hr⟩ := Option.ne_none_iff_exists'.mp hu.stdout
  rw [target_open hu.cout hr,hr]

private theorem closed_entry (launch : Launch) (k : Nat) :
    (((launch.close 0).close 1).close 2).table.entry k =
      if k ≤ 2 then none else launch.table.entry k := by
  simp only [Launch.close,Table.entry_close]
  by_cases h0 : k = 0
  · simp [h0]
  by_cases h1 : k = 1
  · simp [h1]
  by_cases h2 : k = 2
  · simp [h2]
  rw [if_neg h2,if_neg h1,if_neg h0,if_neg (by omega)]

/-- Without a log file, the first client gets the number of the standard output. -/
theorem target_unlogged (hu : Usual launch) :
    (daemonLaunch calls "" launch).textTarget = some (.client 0) := by
  have hlaunch : daemonLaunch calls "" launch = ((launch.close 0).close 1).close 2 := rfl
  have hclosed : ∀ k ≤ 2, (daemonLaunch calls "" launch).table.entry k = none := by
    intro k hk
    rw [hlaunch,closed_entry,if_pos hk]
  have hserver : (daemonLaunch calls "" launch).serverSocket = 0 :=
    Nat.le_zero.mp (Table.lowestFree_le (hclosed 0 (by omega)))
  have hclient : (daemonLaunch calls "" launch).clientSocket = 1 := by
    refine Table.lowestFree_eq ?_ fun k hk => ?_
    · rw [Launch.listening,Table.entry_opened]
      have hne : 1 ≠ (daemonLaunch calls "" launch).serverSocket := by omega
      exact (if_neg hne).trans (hclosed 1 (by omega))
    · obtain rfl : k = 0 := by omega
      rw [← hserver,listening_serverSocket]
      exact Option.some_ne_none _
  have hcout : (daemonLaunch calls "" launch).cout = some 1 := hu.cout
  rw [Launch.textTarget,hcout,Option.bind_some,hclient,if_pos rfl]

private theorem standard_lt (hu : Usual launch) : 2 < launch.table.lowestFree := by
  have hne : ∀ {k}, launch.table.entry k ≠ none → k ≠ launch.table.lowestFree := by
    rintro k hk rfl
    exact hk (Table.entry_lowestFree _)
  have h0 := hne hu.stdin
  have h1 := hne hu.stdout
  have h2 := hne hu.stderr
  omega

/-- A log file keeps its descriptor when the standard streams are closed. -/
theorem target_logged (hu : Usual launch) (hl : logFile ≠ "") :
    (daemonLaunch calls logFile launch).textTarget =
      if calls.logOpens logFile then some .logFile else none := by
  rw [daemonLaunch]
  rw [if_pos hl]
  cases calls.logOpens logFile with
  | false => rfl
  | true =>
    refine target_open rfl ?_
    rw [closed_entry,if_neg (Nat.not_le_of_lt (standard_lt hu))]
    exact (Table.entry_opened _).trans (if_pos rfl)

end Target

def textDestination (host : Host) (parsed : List Parsed) : Option Resource :=
  if .daemonize ∈ parsed then
    if given .logFile parsed = "" then some (.client 0)
    else if host.calls.logOpens (absolutePath host.cwd (given .logFile parsed)) then
      some .logFile
    else none
  else host.launch.table.entry 1

theorem textTarget_main {host : Host} {parsed : List Parsed} {server : Listener}
    (hu : Usual host.launch) (h : main host parsed = .listening server) :
    server.launch.textTarget = textDestination host parsed := by
  rw [main_server h,textDestination]
  dsimp only
  split
  · by_cases hl : given .logFile parsed = ""
    · rw [if_pos hl,absolutePath_eq_empty.mpr hl]
      exact target_unlogged hu
    · rw [if_neg hl]
      exact target_logged hu (mt absolutePath_eq_empty.mp hl)
  · exact target_standing hu

/-- A daemon without a log file prints onto the connection of its first client, in the clear,
and every other server onto no connection at all. -/
theorem printed_startup {σ : Type} [Source σ] {host : Host} {parsed : List Parsed}
    {server : Listener} (hu : Usual host.launch) (h : main host parsed = .listening server)
    (fs : FileSystem) (ssl : σ) (resource : Resource) :
    Printed (σ := σ) server fs resource ↔ textDestination host parsed = some resource := by
  rw [printed_iff ssl,textTarget_main hu h]

def willing : Host where
  digest := noDigest
  blockSize := 8
  cwd := "/srv"
  fs := noFiles
  launch := standardLaunch
  calls := ⟨.child,fun _ => true,true,true⟩
  library := ⟨true,fun _ => 1,fun _ => 1,true,1,fun _ => true,fun _ => 1,fun _ => 1,0,fun _ => 0,0⟩
  processes := standardProcesses

theorem willing_usual : Usual willing.launch := ⟨by decide,by decide,by decide,rfl⟩

def unloggedDaemon : List Parsed :=
  [.daemonize,.value .blockStorageFile "/srv/blocks",.value .tlsCertificateFile "/srv/cert",
    .value .tlsPrivateKeyFile "/srv/key",.value .tlsDHParamFile "/srv/dh"]

theorem unloggedDaemon_printed : ∃ server, main willing unloggedDaemon = .listening server ∧
    Printed (σ := Wire) server noFiles (.client 0) := by
  have hmain : ∃ server, main willing unloggedDaemon = .listening server := by
    rw [main_eq,if_neg (by decide)]
    exact ⟨_,rfl⟩
  obtain ⟨server,hserver⟩ := hmain
  exact ⟨server,hserver,(printed_startup willing_usual hserver noFiles ⟨[]⟩ (.client 0)).mpr rfl⟩

end Startup
end Shepoo.Server
