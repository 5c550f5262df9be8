import Xnd.Lib.Prog

/-!
# Messages, processes, and what the coordinator asks of its environment

A message is one `struct xnd_msg`; every message is sent and received whole.  A
listed process is one `struct proc` without its links.  The coordinator is a
program over the calls of `CoordCall`: the system calls it makes on descriptors,
processes and files, and the two choices of the standard library that its
result depends on (which entry the iteration of a hash table comes to first).

Ids of type `pid_t` are integers and the unsigned ids are naturals.
-/
namespace Xnd.Coord

/-- `enum xnd_msghdr`. -/
inductive XndMsghdr where
  | connectLaunch | connectRestart | exit | atforkPrepare | atforkChild | atforkFailed | command
  | coordAck | clientAck | virtToReal | realToVirt | ckptRequest | ckptReady | ckptStart | ckptDone
  | resumeAfterCkpt | restart | resumeAfterRestart
  deriving DecidableEq, Repr

/-- `enum xnd_cmd`. -/
inductive XndCmd where
  | nullCmd | ckptCmd | exitCmd | killCmd
  deriving DecidableEq, Repr

/-- `enum xnd_coord_return`. -/
inductive XndCoordReturn where
  | success | failure
  deriving DecidableEq, Repr

/-- `struct xnd_msg`. -/
structure XndMsg where
  hdr : XndMsghdr
  cmd : XndCmd := .nullCmd
  ret : XndCoordReturn := .success
  xndUuid : Nat := 0
  xndPid : Nat := 0
  xndPpid : Nat := 0
  xndPgid : Nat := 0
  epoch : Nat := 0
  numPeers : Nat := 0
  isRootOfTree : Bool := false
  ckptInterval : Int := 0
  realPid : Int := 0
  realPpid : Int := 0
  virtPid : Int := 0
  virtPpid : Int := 0
  deriving DecidableEq, Repr

/-- `enum proc_state`. -/
inductive ProcState where
  | running | recvCkptRequest | readyForCkpt | ckptInProgress | ckptComplete | restartInProgress
  | exited
  deriving DecidableEq, Repr

/-- `struct proc`, without its links; `cleanup` is `proc_exit_callback` for every
listed process. -/
structure Proc where
  fd : Int
  oobFd : Int
  xndPid : Nat
  xndPpid : Nat
  xndPgid : Nat
  virtPid : Int
  realPid : Int
  virtPpid : Int
  realPpid : Int
  isRootOfTree : Bool
  state : ProcState
  deriving DecidableEq, Repr

/-- What the coordinator asks of its environment. -/
inductive CoordCall where
  /-- `select` on a read set: the ready descriptors, `none` for -1. -/
  | select (read : List Int)
  /-- `select` on a write set. -/
  | selectWrite (write : List Int)
  | accept
  /-- `coord_recv_msg`: `none` when the message does not arrive whole. -/
  | recv (fd : Int)
  /-- `coord_send_msg`: whether it succeeds. -/
  | send (fd : Int) (msg : XndMsg)
  | close (fd : Int)
  /-- `kill(pid, 0)`: whether it fails with `ESRCH`. -/
  | probe (pid : Int)
  /-- `kill(pid, sig)` for another signal. -/
  | kill (pid sig : Int)
  | getppid
  | usleep
  /-- `sigprocmask`: whether the signals are blocked. -/
  | sigprocmask (block : Bool)
  /-- A read of an `int` field of a `struct proc` that has been freed. -/
  | stale
  /-- The seconds since the last round, by `gettimeofday`. -/
  | elapsed
  /-- The entry, among those that match, to which the iteration over the hash table
  comes first. -/
  | iteration
  | ckptdirCreate (uuid epoch : Nat)
  | ckptdirUnlink (uuid epoch : Nat)
  | ckptdirOpen (uuid epoch : Nat)
  | createManifest (dirfd : Int)
  | ckptfileExists (dirfd : Int) (xndPid : Nat)
  | compressedCkptExists (dirfd : Int) (xndPid : Nat)
  /-- `writeall` of a manifest: its count and its slots. -/
  | writeManifest (fd : Int) (entryCount : Nat) (xndPids : List Nat)
  deriving DecidableEq, Repr

/-- The answers. -/
def CoordCall.Answer : CoordCall → Type
  | .select _ | .selectWrite _ => Option (List Int)
  | .accept => Option Int
  | .recv _ => Option XndMsg
  | .send _ _ => Bool
  | .close _ => Unit
  | .probe _ => Bool
  | .kill _ _ => Unit
  | .getppid => Int
  | .usleep | .sigprocmask _ => Unit
  | .stale => Int
  | .elapsed => Int
  | .iteration => Nat
  | .ckptdirCreate _ _ | .ckptdirUnlink _ _ => Bool
  | .ckptdirOpen _ _ | .createManifest _ => Option Int
  | .ckptfileExists _ _ | .compressedCkptExists _ _ => Bool
  | .writeManifest _ _ _ => Bool

/-- The message an answer brings, with the descriptor it came on. -/
def CoordCall.received : (c : CoordCall) → c.Answer → Option (Int × XndMsg)
  | .recv fd, some msg => some (fd, msg)
  | _, _ => none

/-- A run of calls with their answers. -/
abbrev Trace := List (Event CoordCall.Answer)

/-- The errors after which the coordinator calls `coord_exit(COORD_EXIT_FAILURE)`. -/
inductive CoordError where
  | orphaned | parentBailed | restartBailed | virtPidExists | invalidCommand | unexpectedMessage
  | unexpectedConnection | select | handshake | virtPidNotSent | parentNotListed | childNotReceived
  | lessParticipants | lessCompletions | manifest | notAllPeers | postRestartBarrier
  deriving DecidableEq, Repr

/-- The assertions of the coordinator that can fail. -/
inductive CoordAssertion where
  | listLinks | replySent | commandAcked | connectionReceived | initialStartup | parentListed
  | requesterListed | procState | allPrepared | preckptReleased | postckptReleased | childConnected
  | childOfParent
  deriving DecidableEq, Repr

/-- How a run of the coordinator ends other than by returning: `coord_exit`, a failed
assertion, an access to memory that holds no process, and a loop that is still
running when its fuel is used up. -/
inductive CoordStop where
  | exitSuccess
  | exitFailure (error : CoordError)
  | assertion (failed : CoordAssertion)
  | fault
  | running
  deriving DecidableEq, Repr

/-- Code of the coordinator, over its memory `σ`. -/
abbrev CoordM (σ : Type) := Code CoordCall.Answer σ CoordStop

section Calls
variable {σ : Type}

def sysSelect (read : List Int) : CoordM σ (Option (List Int)) := Code.call (CoordCall.select read)
def sysSelectWrite (write : List Int) : CoordM σ (Option (List Int)) :=
  Code.call (CoordCall.selectWrite write)
def sysAccept : CoordM σ (Option Int) := Code.call CoordCall.accept
def coordRecvMsg (fd : Int) : CoordM σ (Option XndMsg) := Code.call (CoordCall.recv fd)
def coordSendMsg (fd : Int) (msg : XndMsg) : CoordM σ Bool := Code.call (CoordCall.send fd msg)
def sysClose (fd : Int) : CoordM σ Unit := Code.call (CoordCall.close fd)
def sysProbe (pid : Int) : CoordM σ Bool := Code.call (CoordCall.probe pid)
def sysKill (pid sig : Int) : CoordM σ Unit := Code.call (CoordCall.kill pid sig)
def sysGetppid : CoordM σ Int := Code.call CoordCall.getppid
def sysUsleep : CoordM σ Unit := Code.call CoordCall.usleep
def sysElapsed : CoordM σ Int := Code.call CoordCall.elapsed
def sysSigprocmask (block : Bool) : CoordM σ Unit := Code.call (CoordCall.sigprocmask block)
def staleField : CoordM σ Int := Code.call CoordCall.stale
def iteration : CoordM σ Nat := Code.call CoordCall.iteration
def xndCkptdirCreate (uuid epoch : Nat) : CoordM σ Bool := Code.call (CoordCall.ckptdirCreate uuid epoch)
def xndCkptdirUnlink (uuid epoch : Nat) : CoordM σ Bool := Code.call (CoordCall.ckptdirUnlink uuid epoch)
def xndCkptdirOpen (uuid epoch : Nat) : CoordM σ (Option Int) :=
  Code.call (CoordCall.ckptdirOpen uuid epoch)
def xndCkptfileCreateManifest (dirfd : Int) : CoordM σ (Option Int) :=
  Code.call (CoordCall.createManifest dirfd)
def xndCkptfileExists (dirfd : Int) (xndPid : Nat) : CoordM σ Bool :=
  Code.call (CoordCall.ckptfileExists dirfd xndPid)
def xndCompressedCkptExists (dirfd : Int) (xndPid : Nat) : CoordM σ Bool :=
  Code.call (CoordCall.compressedCkptExists dirfd xndPid)
def writeManifest (fd : Int) (entryCount : Nat) (xndPids : List Nat) : CoordM σ Bool :=
  Code.call (CoordCall.writeManifest fd entryCount xndPids)

/-- `xnd_assert`. -/
def xndAssert (failed : CoordAssertion) (b : Prop) [Decidable b] : CoordM σ Unit :=
  if b then pure () else Code.halt (.assertion failed)

/-- A descriptor that is closed unless it is -1. -/
def closeIfOpen (fd : Int) : CoordM σ Unit := if fd ≠ -1 then sysClose fd else pure ()

end Calls

end Xnd.Coord
