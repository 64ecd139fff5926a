import Shepoo.Server.ListenLoop

/-! From the command line to the accept loop: the options, the checks on them, the daemon,
and the TLS set-up with the socket behind it. -/
namespace Shepoo.Server
open Foundation PosixFile DescriptorTable

namespace Startup

inductive ValueOption where
  | blockStorageFile
  | shuffleDBFile
  | logFile
  | tlsCertificateFile
  | tlsPrivateKeyFile
  | tlsDHParamFile
  | tlsCipherSuite
  | listenAddress
  deriving DecidableEq, Repr

/-- What one call of `getopt_long_only` finds. -/
inductive Parsed where
  | daemonize
  | yesIAmSure
  | value (option : ValueOption) (optarg : String)
  | help
  | version
  /-- the result `'?'`, for which there is no case -/
  | unknown
  deriving DecidableEq, Repr

structure Arguments where
  value : ValueOption → String
  flagDaemonize : Bool
  yesIAmSure : Bool

namespace Arguments

def unset : Arguments := ⟨fun _ => "",false,false⟩

def assign (option : ValueOption) (text : String) (arguments : Arguments) : Arguments :=
  { arguments with value := Function.update arguments.value option text }

def missingArguments (arguments : Arguments) : Bool :=
  (arguments.value .blockStorageFile == "" && arguments.value .shuffleDBFile == "") ||
  (arguments.value .blockStorageFile != "" && arguments.value .shuffleDBFile != "" &&
    !arguments.yesIAmSure) ||
  (arguments.value .tlsCertificateFile == "" || arguments.value .tlsPrivateKeyFile == "" ||
    arguments.value .tlsDHParamFile == "")

/-- `if(path.at(0) != '/') path = cwd + "/" + path`; `at` throws on an empty string. -/
def makeAbsolute (cwd : String) (option : ValueOption) (arguments : Arguments) :
    Option Arguments :=
  match (arguments.value option).toList.head? with
  | none => none
  | some c =>
    if c ≠ '/' then some (arguments.assign option (cwd ++ "/" ++ arguments.value option))
    else some arguments

def makeAbsoluteIfGiven (cwd : String) (option : ValueOption) (arguments : Arguments) :
    Option Arguments :=
  if arguments.value option ≠ "" then arguments.makeAbsolute cwd option else some arguments

def makePathsAbsolute (cwd : String) (arguments : Arguments) : Option Arguments := do
  let arguments ← arguments.makeAbsolute cwd .tlsCertificateFile
  let arguments ← arguments.makeAbsolute cwd .tlsPrivateKeyFile
  let arguments ← arguments.makeAbsolute cwd .tlsDHParamFile
  let arguments ← arguments.makeAbsoluteIfGiven cwd .blockStorageFile
  let arguments ← arguments.makeAbsoluteIfGiven cwd .shuffleDBFile
  arguments.makeAbsoluteIfGiven cwd .logFile

end Arguments

inductive Parsing where
  | help
  | version
  | arguments (arguments : Arguments)

def parse (arguments : Arguments) : List Parsed → Parsing
  | [] => .arguments arguments
  | .help::_ => .help
  | .version::_ => .version
  | .daemonize::rest => parse { arguments with flagDaemonize := true } rest
  | .yesIAmSure::rest => parse { arguments with yesIAmSure := true } rest
  | .value option optarg::rest => parse (arguments.assign option optarg) rest
  | .unknown::rest => parse arguments rest

inductive Checked where
  | returned
  | outOfRange
  | start (arguments : Arguments)

def check (cwd : String) (parsed : List Parsed) : Checked :=
  match parse Arguments.unset parsed with
  | .help => .returned
  | .version => .returned
  | .arguments arguments =>
    if arguments.missingArguments then .returned
    else
      match arguments.makePathsAbsolute cwd with
      | none => .outOfRange
      | some arguments => .start arguments

inductive ForkResult where
  | failed
  | parent (pid : Nat)
  | child

structure DaemonCalls where
  fork : ForkResult
  logOpens : String → Bool
  setsid : Bool
  chdir : Bool

inductive Daemonized where
  | exit (status : Int) (lines : List (List UInt8))
  | daemon (launch : Launch)

end Startup

namespace Launch

/-- `std::cout` writes to a log file from here on, or to a file that is not open. -/
def redirect (isOpen : Bool) (launch : Launch) : Launch where
  table := if isOpen then launch.table.opened .logFile else launch.table
  cout := if isOpen then some launch.table.lowestFree else none
  noSocket fd resource h := by
    split at h
    · rw [Table.entry_opened] at h
      split at h
      · rw [← Option.some.inj h]
        rfl
      · exact launch.noSocket fd resource h
    · exact launch.noSocket fd resource h

def close (fd : Nat) (launch : Launch) : Launch where
  table := launch.table.close fd
  cout := launch.cout
  noSocket k resource h := by
    rw [Table.entry_close] at h
    split at h
    · cases h
    · exact launch.noSocket k resource h

end Launch

namespace Startup

def daemonize (calls : DaemonCalls) (logFile : String) (launch : Launch) : Daemonized :=
  match calls.fork with
  | .failed => .exit (-1) []
  | .parent pid => .exit 0 [ascii "PID of daemon: " ++ decimal pid]
  | .child =>
    let launch := if logFile ≠ "" then launch.redirect (calls.logOpens logFile) else launch
    if !calls.setsid then .exit (-1) [ascii "Error getting SID!"]
    else if !calls.chdir then .exit (-1) [ascii "Error changing working directory"]
    else .daemon (((launch.close 0).close 1).close 2)

structure Library where
  context : Bool
  certificate : String → Int
  privateKey : String → Int
  checkPrivateKey : Bool
  options : Int
  fopen : String → Bool
  tmpDh : String → Int
  cipherList : String → Int
  socket : Int
  bind : Nat → Int
  listen : Int

inductive Initialized where
  | exit (message : List UInt8)
  /-- the parameters are read from a null `FILE*` -/
  | fault
  | listening
  deriving DecidableEq, Repr

def defaultPort : Nat := 3938

def initializeServer (library : Library)
    (_listenAddress certificateFile privateKeyFile dhParamFile tlsCipherList : String) :
    Initialized :=
  if !library.context then .exit (ascii "SSL_CTX_new() failed!")
  else if library.certificate certificateFile ≤ 0 then
    .exit (ascii "Could not load certificate-file!")
  else if library.privateKey privateKeyFile ≤ 0 then
    .exit (ascii "Could not load private-key-file!")
  else if !library.checkPrivateKey then
    .exit (ascii "SSL-certificate and private-key don't belong together!")
  else if library.options ≤ 0 then .exit (ascii "Could not set SSL options!")
  else if !library.fopen dhParamFile then .fault
  else if library.tmpDh dhParamFile ≤ 0 then .exit (ascii "Could not load dhparam-file!")
  else if tlsCipherList ≠ "" ∧ library.cipherList tlsCipherList ≤ 0 then
    .exit (ascii "Could not set TLS cipher list!")
  else if library.socket = -1 then .exit (ascii "socket() failed!")
  else if library.bind defaultPort ≠ 0 then .exit (ascii "bind() failed!")
  else if library.listen ≠ 0 then .exit (ascii "listen() failed!")
  else .listening

structure Host where
  digest : Digest
  blockSize : UInt64
  cwd : String
  fs : FileSystem
  launch : Launch
  calls : DaemonCalls
  library : Library
  processes : ℕ+

inductive Started where
  | returned
  | outOfRange
  | exit (status : Int) (lines : List (List UInt8))
  | fault
  | listening (server : Listener)

def run (host : Host) (arguments : Arguments) (launch : Launch) : Started :=
  let storage := Blockstorage.create host.fs (arguments.value .blockStorageFile)
  match initializeServer host.library (arguments.value .listenAddress)
    (arguments.value .tlsCertificateFile) (arguments.value .tlsPrivateKeyFile)
    (arguments.value .tlsDHParamFile) (arguments.value .tlsCipherSuite) with
  | .exit message => .exit (-1) [message]
  | .fault => .fault
  | .listening => .listening ⟨launch,host.digest,host.blockSize,storage,host.processes⟩

def proceed (host : Host) (arguments : Arguments) : Started :=
  if arguments.flagDaemonize then
    match daemonize host.calls (arguments.value .logFile) host.launch with
    | .exit status lines => .exit status lines
    | .daemon launch => run host arguments launch
  else run host arguments host.launch

def main (host : Host) (parsed : List Parsed) : Started :=
  match check host.cwd parsed with
  | .returned => .returned
  | .outOfRange => .outOfRange
  | .start arguments => proceed host arguments

end Startup
end Shepoo.Server
