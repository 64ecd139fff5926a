import Shepoo.Server.Availability
import Shepoo.Server.TextDestination

/-! A server that is started for the shuffle database alone. It has no block file, and what it
answers a request for a block with is the memory of the process. -/
namespace Shepoo.Server

namespace Blockstorage
open Foundation ByteSource PosixFile

variable {blockSize num : UInt64} {fs₀ : FileSystem}

/-- The length of no file is zero, and a difference that wraps allows nearly every block. -/
theorem available_empty_path (hpos : 0 < blockSize.toNat) :
    (create fs₀ "").isBlockAvailable blockSize num = true ↔
      num.toNat*blockSize.toNat%2^64+blockSize.toNat ≤ 2^64 := by
  have hlength : (create fs₀ "").fileLength.toNat = 0 := by
    rw [create_fileLength,contents,fs₀.empty_path]
    rfl
  have hb := blockSize.toNat_lt
  rw [isBlockAvailable_iff,hlength,Nat.zero_add,
    Nat.mod_eq_of_lt (a := 2^64-blockSize.toNat) (by omega)]
  omega

/-- No call on the descriptor succeeds, and the buffer is as it was allocated. -/
theorem getBlock_empty_path (h : (create fs₀ "").isBlockAvailable blockSize num = true)
    (fs : FileSystem) (garbage : Nat → UInt8) :
    ((create fs₀ "").getBlock blockSize fs garbage num).1 =
      some (fresh garbage blockSize.toNat) := by
  have hpath : (create fs₀ "").path = "" := rfl
  have hnone : contents fs "" = [] := by
    rw [contents,fs.empty_path]
  rw [getBlock_available h,hpath,hnone,List.drop_nil,List.take_nil]
  rfl

end Blockstorage

namespace Startup
open Foundation ByteSource PosixFile DescriptorTable ListenLoop

section Launched
variable {host : Host} {parsed : List Parsed} {server : Listener}

/-- Only the text of a daemon without a log file gets in the way of a client. -/
theorem apart_iff (hu : Usual host.launch) (h : main host parsed = .listening server) :
    Apart server.launch ↔ ¬ (.daemonize ∈ parsed ∧ given .logFile parsed = "") := by
  have htarget : server.launch.textTarget = some (.client 0) ↔
      server.launch.cout = some server.launch.clientSocket := by
    constructor
    · intro ht
      obtain ⟨fd,hfd,hentry⟩ := Option.bind_eq_some_iff.mp ht
      split at hentry
      · next hfd' => rw [hfd,hfd']
      · exact absurd ⟨fd,hentry⟩ (listening_client server.launch 0)
    · intro hc
      rw [Launch.textTarget,hc,Option.bind_some,if_pos rfl]
  rw [Apart,ne_eq,← htarget,textTarget_main hu h,textDestination]
  refine not_congr ?_
  split
  · next hd =>
    split
    · next hl => exact iff_of_true rfl ⟨hd,hl⟩
    · next hl =>
      refine iff_of_false ?_ fun hboth => hl hboth.2
      split <;> decide
  · next hd =>
    refine iff_of_false ?_ fun hboth => hd hboth.1
    intro hentry
    exact absurd (host.launch.noSocket 1 _ hentry) (by decide)

end Launched

section Disclosure
variable {σ : Type} [Source σ] {host : Host} {parsed : List Parsed} {server : Listener}
  {fs : FileSystem} {w : State σ} {num : UInt64} {greeting : List UInt8}
  {webSocket : Memory → Bool} {memory : Memory} {fuel : Nat} {ssl : σ}

/-- In every state of every run of such a server that leaves room for one more child,
anybody can come and get what the process has in its memory, as a block. -/
theorem memory_disclosed (hu : Usual host.launch) (hmain : main host parsed = .listening server)
    (hshuffle : given .blockStorageFile parsed = "")
    (hlog : .daemonize ∈ parsed → given .logFile parsed ≠ "") (hpos : 0 < host.blockSize.toNat)
    (hsize : host.blockSize.toNat < 2^31)
    (hnum : num.toNat*host.blockSize.toNat%2^64+host.blockSize.toNat ≤ 2^64)
    (h : Reaches server (start server fs) w) (hroom : w.children.length < host.processes)
    (hask : Asks host.digest num greeting webSocket ssl)
    (hr : (SecNet.construct host.digest memory fuel ssl).outcome ≠ .running) :
    ∃ w', ∃ hlen : (fresh memory.block host.blockSize.toNat).length = host.blockSize.toNat,
      Reaches server w w' ∧ w'.connections = w.connections ++ [⟨ssl,w.past.length⟩] ∧
      w'.children.length = w.children.length+1 ∧
      recordBytes (sentOn w.connections.length w'.output) = greeting ++
        (blockAnswer host.blockSize (fresh memory.block host.blockSize.toNat) hlen).sent
          (webSocket memory) := by
  have ha : Apart server.launch := (apart_iff hu hmain).mpr fun hboth => hlog hboth.1 hboth.2
  have hserver := main_server hmain
  have hdigest : server.digest = host.digest := congrArg Listener.digest hserver
  have hblockSize : server.blockSize = host.blockSize := congrArg Listener.blockSize hserver
  have hprocesses : server.processes = host.processes := congrArg Listener.processes hserver
  have hstorage : server.storage = Blockstorage.create host.fs "" := by
    rw [hserver,hshuffle,absolutePath_eq_empty.mpr rfl]
  rw [← hdigest] at hask hr
  rw [← hprocesses] at hroom
  rw [← hblockSize] at hpos hsize hnum ⊢
  obtain ⟨w',hr',hconnections,-,hlength,hsent⟩ := newcomer_sent ha h hroom hr
  have hlen := length_fresh memory.block server.blockSize.toNat
  have hblock : ((server.service w.fs).storage.getBlock server.blockSize w.fs memory.block num).1 =
      some (fresh memory.block server.blockSize.toNat) := by
    change (server.storage.getBlock server.blockSize w.fs memory.block num).1 = _
    rw [hstorage]
    exact Blockstorage.getBlock_empty_path ((Blockstorage.available_empty_path hpos).mpr hnum)
      w.fs memory.block
  have hanswer := sendPacket_sent (webSocket memory) (blockAnswer server.blockSize _ hlen) hsize
  refine ⟨w',hlen,hr',hconnections,hlength,hsent.trans ?_⟩
  rw [serve_asks (server.service w.fs) hask hr]
  change greeting ++ (sendPacket (webSocket memory) (blockHeader server.blockSize)
    ((server.service w.fs).storage.getBlock server.blockSize w.fs memory.block num).1).written = _
  rw [hblock]
  exact congrArg (fun sent : Transmission => greeting ++ sent.written) hanswer

end Disclosure

def shuffleOnly : List Parsed :=
  [.value .shuffleDBFile "/srv/shuffle",.value .tlsCertificateFile "/srv/cert",
    .value .tlsPrivateKeyFile "/srv/key",.value .tlsDHParamFile "/srv/dh"]

theorem shuffleOnly_listens : ∃ server, main willing shuffleOnly = .listening server := by
  rw [main_eq,if_neg (by decide)]
  exact ⟨_,rfl⟩

/-- To a second client, when the first has been answered. -/
theorem shuffleOnly_discloses : ∃ (server : Listener) (w w' : State Records)
    (hlen : (fresh FrameRoundTrip.someMemory.block willing.blockSize.toNat).length =
      willing.blockSize.toNat),
    recordBytes (sentOn 0 w.output) ≠ [] ∧ Reaches server w w' ∧
      recordBytes (sentOn 1 w'.output) = [] ++ (blockAnswer willing.blockSize
        (fresh FrameRoundTrip.someMemory.block willing.blockSize.toNat) hlen).sent
          FrameRoundTrip.someMemory.webSocket := by
  obtain ⟨server,hserver⟩ := shuffleOnly_listens
  have hruns : (SecNet.construct willing.digest FrameRoundTrip.someMemory 0
      (blockClient 0)).outcome ≠ .running := by decide
  obtain ⟨w,hlen,hr,hconnections,hchildren,hfirst⟩ := memory_disclosed willing_usual hserver
    (by decide) (by decide) (by decide) (by decide) (by decide) (w := start server noFiles) .refl
    willing.processes.pos (asks_blockClient noDigest 0) hruns
  have hroom : w.children.length < willing.processes := by
    rw [hchildren]
    exact show 1 < (willing.processes : Nat) by decide
  obtain ⟨w',_,hr',-,-,hsecond⟩ := memory_disclosed willing_usual hserver (by decide) (by decide)
    (by decide) (by decide) (by decide) hr hroom (asks_blockClient noDigest 0) hruns
  rw [hconnections] at hsecond
  refine ⟨server,w,w',hlen,?_,hr',hsecond⟩
  intro hnone
  rw [List.nil_append] at hfirst
  exact Message.sent_ne_nil _ _ (hfirst.symm.trans hnone)

end Startup
end Shepoo.Server
