import Mathlib.Logic.Function.Basic
import Xnd.Coord.Upkeep
import Xnd.Coord.Oob
import Xnd.Lib.Env

/-!
# The clients and their connections

`Net` is what the coordinator talks to: the processes that follow `xnd_coord_client.c`
and the connections that they have made.  A process has the three variables that hold
descriptors, `coord_fd`, `child_coord_fd` and `oob_fd`; the last is -1 until one of its
calls needs it.  A connection keeps what its client has sent, how much of that the
coordinator has taken, what is on its way to the client, and where the client is that
has this end (`Side`): a thread that registers and is the checkpoint thread then, a
call of `fork`, or one of the calls that share `oob_fd`.

A message is sent and received whole.  What a message says beside its header is free,
so a process may claim any pid, as one does that executes another image: its threads are
gone (`dies`), its connections are closed some time after, and it registers again
(`register`).
-/
namespace Xnd.Joint
open Coord

/-! ## Connections -/

/-- Where the thread is that has `coord_fd`. -/
inductive ThreadPc where
  /-- Connected, before its message in `send_recv_coord_handshake`. -/
  | connected (hdr : XndMsghdr)
  /-- In `send_recv_coord_handshake`, with its message sent. -/
  | handshake (hdr : XndMsghdr)
  /-- In `wait_for_ckpt_request_from_coord`. -/
  | waiting
  /-- Before it sends `XND_CKPT_READY`. -/
  | requested
  /-- In `enter_coord_barrier`, with its message sent. -/
  | barrier (type : BarrierType)
  /-- In `suspend_threads`, and up to `barrier_arrival_wait`. -/
  | suspending
  /-- In `xnd_checkpoint`, and before it sends `XND_CKPT_DONE`. -/
  | saving
  | ended
  deriving DecidableEq, Repr

/-- What comes after a barrier. -/
def after : BarrierType → ThreadPc
  | .preckpt => .suspending
  | .postckpt => .waiting
  | .postrestart => .waiting

namespace ThreadPc

/-- Where a message brings the thread, `none` when it does not expect it. -/
def receive : ThreadPc → XndMsg → Option ThreadPc
  | .handshake hdr, m =>
      if m.hdr = .coordAck ∧ m.ret = .success then
        some (if hdr = .connectRestart then .barrier .postrestart else .waiting)
      else none
  | .waiting, m => if m.hdr = .ckptRequest then some .requested else none
  | .barrier type, m => if m.hdr = type.hdr then some (after type) else none
  | _, _ => none

/-- User threads run while the checkpoint thread is there. -/
def userRuns : ThreadPc → Bool
  | .waiting | .requested | .barrier .preckpt | .suspending | .ended => true
  | _ => false

end ThreadPc

/-- What the client's end of a connection is. -/
inductive Side where
  /-- `child_coord_fd`; whether `XND_ATFORK_PREPARE` has been answered. -/
  | child (answered : Bool)
  /-- `coord_fd`. -/
  | coord (pc : ThreadPc)
  /-- `oob_fd`. -/
  | oob
  /-- Of a process that sends a command. -/
  | command
  deriving DecidableEq, Repr

inductive Kind where
  | child | coord | oob | command
  deriving DecidableEq, Repr

def Side.kind : Side → Kind
  | .child _ => .child
  | .coord _ => .coord
  | .oob => .oob
  | .command => .command

structure Conn where
  side : Side
  /-- The process that has this end. -/
  owner : Option Nat
  /-- What the client has sent. -/
  sent : List XndMsg
  /-- How many of these messages the coordinator has received. -/
  taken : Nat
  /-- What the coordinator has sent and the client has not received. -/
  down : List XndMsg
  /-- A client has its end open. -/
  isOpen : Bool
  /-- The coordinator has not closed its end. -/
  listening : Bool
  deriving DecidableEq, Repr

namespace Conn

def fresh (side : Side) (owner : Option Nat) (sent : List XndMsg) : Conn :=
  ⟨side, owner, sent, 0, [], true, true⟩

/-- What is on its way to the coordinator. -/
def up (c : Conn) : List XndMsg := c.sent.drop c.taken

/-- A message is written, unless the coordinator has closed its end. -/
def say (c : Conn) (msg : XndMsg) : Conn :=
  if c.listening = true then { c with sent := c.sent ++ [msg] } else c

def hangUp (c : Conn) : Conn := { c with isOpen := false }

def goto (c : Conn) (pc : ThreadPc) : Conn := { c with side := .coord pc }

/-- `disconnect_from_coord`, on `coord_fd`: its message is sent twice. -/
def disconnect (c : Conn) (msg : XndMsg) : Conn := (((c.say msg).say msg).goto .ended).hangUp

/-- What a thread does. -/
inductive Outcome where
  | goes (c : Conn)
  /-- `xnd_abort`. -/
  | aborts
  deriving DecidableEq, Repr

/-- A thread sends a message that it cannot do without. -/
def speak (c : Conn) (pc : ThreadPc) (msg : XndMsg) : Outcome :=
  if c.listening = true then .goes ((c.goto pc).say msg) else .aborts

/-- A thread that gets no message, or one that it does not expect; the checkpoint thread ends
when it waits for a request (`ckpt_thread_exit`). -/
def unexpected (c : Conn) (pc : ThreadPc) : Outcome :=
  if pc = .waiting then .goes (c.goto .ended) else .aborts

/-- The next step of the thread that has `coord_fd`; `free` says that no user thread is in
`ST_UNSAFE`, and `msg` is what the memory of a message held. -/
def threadNext (c : Conn) (free : Bool) (msg : XndMsg) : Option Outcome :=
  match c.side with
  | .coord (.connected hdr) => some (c.speak (.handshake hdr) { msg with hdr })
  | .coord .requested => some (c.speak (.barrier .preckpt) { msg with hdr := .ckptReady })
  | .coord .suspending => if free = true then some (.goes (c.goto .saving)) else none
  | .coord .saving => some (c.speak (.barrier .postckpt) { msg with hdr := .ckptDone })
  | .coord .ended => none
  | .coord pc =>
      match c.down with
      | m :: rest =>
          match pc.receive m with
          | some pc' => some (.goes { c with side := .coord pc', down := rest })
          | none => some ({ c with down := rest }.unexpected pc)
      | [] => if c.listening = true then none else some (c.unexpected pc)
  | _ => none

end Conn

/-! ## Processes -/

/-- A call that holds `oob_mutex`. -/
inductive Call where
  /-- A translation, with its request sent. -/
  | translating
  /-- `fork`, from `coord_client_atfork_prepare` on, with `child_coord_fd`. -/
  | forking (c : Nat)
  deriving DecidableEq, Repr

/-- A process. -/
structure Peer where
  coordFd : Nat
  /-- `oob_fd`, `none` for -1. -/
  oobFd : Option Nat
  call : Option Call
  alive : Bool
  deriving DecidableEq, Repr

namespace Peer

/-- The call that holds the mutex, of a process that lives. -/
def holder (p : Peer) : Option Call := if p.alive = true then p.call else none

/-- The connections of a process. -/
def conns (p : Peer) : List Nat :=
  p.coordFd :: (p.oobFd.toList ++ match p.call with
    | some (.forking c) => [c]
    | _ => [])

end Peer

/-- The processes and their connections, each by the number under which it was made, and
the descriptors of the coordinator. -/
structure Net where
  conns : Nat → Conn
  made : Nat
  /-- Connections that have not been accepted. -/
  backlog : List Nat
  fds : Int → Option Nat
  peers : Nat → Peer
  born : Nat

namespace Net

def init : Net where
  conns := fun _ => .fresh .command none []
  made := 0
  backlog := []
  fds := fun _ => none
  peers := fun _ => ⟨0, none, none, false⟩
  born := 0

variable (w : Net)

def setConn (c : Nat) (x : Conn) : Net := { w with conns := Function.update w.conns c x }

def onConn (c : Nat) (f : Conn → Conn) : Net := w.setConn c (f (w.conns c))

def setPeer (i : Nat) (p : Peer) : Net := { w with peers := Function.update w.peers i p }

/-- `connect_to_coord`, and what is sent then; the connection has the number `w.made`. -/
def connect (side : Side) (owner : Option Nat) (sent : List XndMsg) : Net :=
  { w.setConn w.made (.fresh side owner sent) with
    made := w.made + 1, backlog := w.backlog ++ [w.made] }

/-- A process is started. -/
def spawn (coordFd : Nat) : Net :=
  { w.setPeer w.born ⟨coordFd, none, none, true⟩ with born := w.born + 1 }

/-- User threads of the process run. -/
def userRuns (i : Nat) : Bool :=
  (w.peers i).alive && match (w.conns (w.peers i).coordFd).side with
    | .coord pc => pc.userRuns
    | _ => false

/-- A user thread takes `oob_mutex`. -/
def takesMutex (i : Nat) : Bool := w.userRuns i && (w.peers i).call = none

inductive Move where
  /-- `connect_to_coord_on_launch` or `connect_to_coord_on_restart`, up to the message. -/
  | register (restart : Bool)
  /-- The thread that has `coord_fd` goes on. -/
  | thread (i : Nat) (msg : XndMsg)
  /-- `virt_to_real_pid_from_coord` or `real_to_virt_pid_from_coord`, up to the message;
  `sends` says whether `send_msg_to_coord` succeeds. -/
  | translate (i : Nat) (t : Translation) (msg : XndMsg) (sends : Bool)
  /-- `notify_coord_of_exit`. -/
  | notifyCoordOfExit (i : Nat) (msg : XndMsg) (sends : Bool)
  /-- `coord_client_atfork_prepare`, up to the message. -/
  | atforkPrepare (i : Nat) (msg : XndMsg)
  /-- The call that holds the mutex receives its answer. -/
  | answered (i : Nat)
  /-- `fork`, with `coord_client_atfork_parent`. -/
  | fork (i : Nat)
  /-- `coord_client_atfork_failed`. -/
  | forkFails (i : Nat)
  /-- `disconnect_from_coord`. -/
  | disconnect (i : Nat) (msg : XndMsg)
  | dies (i : Nat)
  /-- A connection of a process that has died is closed. -/
  | closes (i c : Nat)
  | command (msg : XndMsg)
  deriving DecidableEq, Repr

def dies (i : Nat) : Net := w.setPeer i { w.peers i with alive := false }

/-- The message of a call, over `oob_fd`: the connection is made when there is none, and `then'`
is what the mutex is left with when the message is sent. -/
def oobSend (i : Nat) (msg : XndMsg) (sends : Bool) (then' : Option Call) : Net :=
  match (w.peers i).oobFd with
  | none =>
      if sends = true then
        (w.connect .oob (some i) [msg]).setPeer i
          { w.peers i with oobFd := some w.made, call := then' }
      else (w.connect .oob (some i) []).setPeer i { w.peers i with oobFd := some w.made }
  | some c =>
      if sends = true ∧ (w.conns c).listening = true then
        (w.onConn c (·.say msg)).setPeer i { w.peers i with call := then' }
      else w

/-- The answer to the call that holds the mutex, or the end of its connection. -/
def answer (i : Nat) : Option Net :=
  match (w.peers i).holder with
  | some .translating =>
      match (w.peers i).oobFd with
      | some c =>
          match (w.conns c).down with
          | _ :: rest =>
              some ((w.onConn c ({ · with down := rest })).setPeer i { w.peers i with call := none })
          | [] =>
              if (w.conns c).listening = true then none
              else some (w.setPeer i { w.peers i with call := none })
      | none => some (w.setPeer i { w.peers i with call := none })
  | some (.forking c) =>
      match (w.conns c).side, (w.conns c).down with
      | .child false, m :: rest =>
          if m.hdr = .coordAck ∧ m.ret = .success then
            some (w.onConn c ({ · with side := .child true, down := rest }))
          else some (w.dies i)
      | .child false, [] => if (w.conns c).listening = true then none else some (w.dies i)
      | _, _ => none
  | none => none

/-- The connection that `fork` is called with. -/
def forkConn (i : Nat) : Option Nat :=
  match (w.peers i).holder with
  | some (.forking c) => if (w.conns c).side = .child true then some c else none
  | _ => none

/-- `fork` when it succeeds: the connection is the child's. -/
def forked (i c : Nat) : Net :=
  ((w.setPeer i { w.peers i with call := none }).onConn c
    ({ · with side := .coord (.connected .atforkChild), owner := some w.born })).spawn c

def registerHdr (restart : Bool) : XndMsghdr :=
  if restart = true then .connectRestart else .connectLaunch

/-- A process connects. -/
def register (restart : Bool) : Net :=
  (w.connect (.coord (.connected (registerHdr restart))) (some w.born) []).spawn w.made

/-- The thread that has `coord_fd` goes on. -/
def thread (i : Nat) (msg : XndMsg) : Option Net :=
  if (w.peers i).alive = true then
    match (w.conns (w.peers i).coordFd).threadNext ((w.peers i).call = none) msg with
    | some (.goes x) => some (w.setConn (w.peers i).coordFd x)
    | some .aborts => some (w.dies i)
    | none => none
  else none

/-- `disconnect_from_coord`. -/
def disconnect (i : Nat) (msg : XndMsg) : Net :=
  let w' := w.onConn (w.peers i).coordFd (·.disconnect { msg with hdr := .exit })
  match (w.peers i).oobFd with
  | some c => (w'.onConn c Conn.hangUp).setPeer i { w.peers i with oobFd := none }
  | none => w'

def move : Move → Net → Option Net
  | .register restart, w => some (w.register restart)
  | .thread i msg, w => w.thread i msg
  | .translate i t msg sends, w =>
      if w.takesMutex i = true then
        some (w.oobSend i { msg with hdr := t.hdr } sends (some .translating))
      else none
  | .notifyCoordOfExit i msg sends, w =>
      if w.takesMutex i = true then some (w.oobSend i { msg with hdr := .exit } sends none) else none
  | .atforkPrepare i msg, w =>
      if w.takesMutex i = true then
        some ((w.connect (.child false) (some i) [{ msg with hdr := .atforkPrepare }]).setPeer i
          { w.peers i with call := some (.forking w.made) })
      else none
  | .answered i, w => w.answer i
  | .fork i, w => (w.forkConn i).map (w.forked i)
  | .forkFails i, w =>
      (w.forkConn i).map fun c => (w.onConn c Conn.hangUp).setPeer i { w.peers i with call := none }
  | .disconnect i msg, w =>
      if w.userRuns i = true ∧ (w.conns (w.peers i).coordFd).isOpen = true then
        some (w.disconnect i msg)
      else none
  | .dies i, w => if (w.peers i).alive = true then some (w.dies i) else none
  | .closes i c, w =>
      if (w.peers i).alive = false ∧ c ∈ (w.peers i).conns then some (w.onConn c Conn.hangUp)
      else none
  | .command msg, w => some (w.connect .command none [{ msg with hdr := .command }])

/-! ## The coordinator's end -/

/-- A descriptor on which `select` reports something to read. -/
def Readable (s : CoordInfo) (fd : Int) : Prop :=
  fd = s.listenFd ∧ w.backlog ≠ [] ∨
    ∃ c ∈ w.fds fd, (w.conns c).up ≠ [] ∨ (w.conns c).isOpen = false

instance (s : CoordInfo) (fd : Int) : Decidable (w.Readable s fd) :=
  inferInstanceAs (Decidable (_ ∨ _))

/-- A descriptor is closed. -/
def close (fd : Int) : Net :=
  match w.fds fd with
  | some c =>
      { w.onConn c ({ · with listening := false }) with fds := Function.update w.fds fd none }
  | none => w

/-- A connection is accepted, on a descriptor that is not open. -/
def accept (s : CoordInfo) (fd : Int) : List Net :=
  match w.backlog with
  | c :: rest =>
      if 0 ≤ fd ∧ fd ≠ s.listenFd ∧ w.fds fd = none ∧ ∀ n ∈ s.procs, fd ∉ watchedFds n.2 then
        [{ w with backlog := rest, fds := Function.update w.fds fd (some c) }]
      else []
  | [] => []

/-- A message is received. -/
def recvSome (fd : Int) (msg : XndMsg) : List Net :=
  match w.fds fd with
  | some c =>
      if (w.conns c).up.head? = some msg then
        [w.onConn c fun x => { x with taken := x.taken + 1 }]
      else []
  | none => []

/-- No message is received: the client has closed its end, or the descriptor is not open. -/
def recvNone (fd : Int) : List Net :=
  match w.fds fd with
  | some c => if (w.conns c).up = [] ∧ (w.conns c).isOpen = false then [w] else []
  | none => [w]

/-- A message is sent. -/
def sendDone (fd : Int) (msg : XndMsg) : List Net :=
  match w.fds fd with
  | some c =>
      if (w.conns c).isOpen = true then [w.onConn c fun x => { x with down := x.down ++ [msg] }]
      else []
  | none => []

/-- What an answer of the kernel leaves. -/
def respond (s : CoordInfo) (w : Net) : (c : CoordCall) → c.Answer → List Net
  | .select read, (some ready : Option (List Int)) =>
      if ∀ fd ∈ ready, fd ∈ read ∧ w.Readable s fd then [w] else []
  | .accept, (some fd : Option Int) => w.accept s fd
  | .recv fd, (some msg : Option XndMsg) => w.recvSome fd msg
  | .recv fd, none => w.recvNone fd
  | .send fd msg, true => w.sendDone fd msg
  | .close fd, _ => [w.close fd]
  | _, _ => [w]

/-- The environment of the coordinator. -/
def env : Env CoordCall.Answer CoordInfo Move Net := ⟨respond, move⟩

end Net

end Xnd.Joint
