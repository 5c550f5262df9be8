import Xnd.Coord.Wire
import Xnd.Lib.Machine

/-!
# Translations over the out-of-band connection

A client asks the coordinator for the real pid of a virtual one, or the other way,
on a connection that its threads share: `virt_to_real_pid_from_coord` and
`real_to_virt_pid_from_coord` take `oob_mutex`, connect when `oob_fd` is -1, write a
message and read one.  The socket is two streams of bytes.  `writeall` and `readall`
go on after a part of a message and stop when the call underneath returns -1 (for a
read, also 0), and then the message is not whole: the translation returns -1, gives
the mutex back and leaves the connection as it is.

A message has no number.  The model numbers the bytes that the client has written, so
that a request has the place where it begins, and the coordinator's log says for each
message it was given where that began and which pid it answered; neither end sees
these numbers.  What pid the coordinator answers depends on its tables at that moment
and is free here.

**A translation returns what the coordinator answered to its own request**
(`oob_answered`), in the runs in which no message is cut on an open connection except
before its first byte: a request or reply that is cut leaves the streams of the next
exchange out of step (`not_oob_answered_staleReply`).
-/
namespace Xnd.Coord

/-- The two translations. -/
inductive Translation where
  | virtToReal | realToVirt
  deriving DecidableEq, Repr

namespace Translation

def hdr : Translation → XndMsghdr
  | virtToReal => .virtToReal
  | realToVirt => .realToVirt

/-- The pid a request is about. -/
def asked : Translation → WireMsg → BitVec 32
  | virtToReal, m => m.virtPid
  | realToVirt, m => m.realPid

/-- The pid a reply brings. -/
def answer : Translation → WireMsg → BitVec 32
  | virtToReal, m => m.realPid
  | realToVirt, m => m.virtPid

/-- The message a call fills in; `stack` is what the memory of `msg` held. -/
def request (t : Translation) (pid : BitVec 32) (stack : WireMsg) : WireMsg :=
  match t with
  | virtToReal => { stack with hdr := t.hdr.code, virtPid := pid }
  | realToVirt => { stack with hdr := t.hdr.code, realPid := pid }

/-- `resp` with the pid of the answer. -/
def respond (t : Translation) (resp : WireMsg) (pid : BitVec 32) : WireMsg :=
  match t with
  | virtToReal => { resp with realPid := pid }
  | realToVirt => { resp with virtPid := pid }

/-- What the coordinator sends: `pid` is what it has found, -1 for nothing. -/
def coordReply (t : Translation) (pid : BitVec 32) : WireMsg :=
  t.respond { (default : WireMsg) with
    hdr := XndMsghdr.coordAck.code
    ret := if pid ≠ -1 then XndCoordReturn.success.code else XndCoordReturn.failure.code } pid

/-- What a call returns when it has received `m`. -/
def result (t : Translation) (m : WireMsg) : BitVec 32 :=
  if m.hdr ≠ XndMsghdr.coordAck.code then -1
  else if m.ret ≠ XndCoordReturn.success.code then -1
  else t.answer m

/-- `m` asks for the translation of `pid`. -/
def Asks (t : Translation) (pid : BitVec 32) (m : WireMsg) : Prop :=
  m.hdr = t.hdr.code ∧ t.asked m = pid

instance (t : Translation) (pid : BitVec 32) (m : WireMsg) : Decidable (t.Asks pid m) :=
  inferInstanceAs (Decidable (_ ∧ _))

theorem asks_request (t : Translation) (pid : BitVec 32) (stack : WireMsg) :
    t.Asks pid (t.request pid stack) := by
  cases t <;> exact ⟨rfl, rfl⟩

/-- A call returns the pid that the coordinator has found. -/
theorem result_coordReply (t : Translation) (pid : BitVec 32) :
    t.result (t.coordReply pid) = pid := by
  have hhdr : (t.coordReply pid).hdr = XndMsghdr.coordAck.code := by cases t <;> rfl
  have hanswer : t.answer (t.coordReply pid) = pid := by cases t <;> rfl
  rw [result, if_neg (not_not.mpr hhdr), hanswer]
  by_cases h : pid = -1
  · rw [h, ite_self]
  · have hret : (t.coordReply pid).ret = XndCoordReturn.success.code := by
      cases t <;> exact if_pos h
    rw [if_neg (not_not.mpr hret)]

end Translation

/-- Where a call is, in `writeall` or in `readall`. -/
inductive Place where
  | sending (rest : List UInt8)
  | receiving (got : List UInt8)
  deriving DecidableEq, Repr

/-- The call that holds `oob_mutex`; `start` is where its request begins. -/
structure OobCall where
  thread : Nat
  translation : Translation
  pid : BitVec 32
  msg : WireMsg
  asks : translation.Asks pid msg
  start : Nat
  place : Place
  deriving DecidableEq

/-- Where the coordinator is on this connection, in `readall` or in `writeall`. -/
inductive Serving where
  | taking (got : List UInt8)
  | replying (rest : List UInt8)
  deriving DecidableEq, Repr

/-- The socket, as the coordinator has it. -/
inductive Socket where
  | unconnected | open | closed
  deriving DecidableEq, Repr

/-- A message the coordinator was given, with the pid it answered. -/
structure Served where
  start : Nat
  msg : WireMsg
  pid : BitVec 32
  deriving DecidableEq, Repr

/-- A call that has returned. -/
structure Returned where
  thread : Nat
  translation : Translation
  pid : BitVec 32
  start : Nat
  result : BitVec 32
  deriving DecidableEq, Repr

structure Oob where
  socket : Socket
  /-- Written by the client, not yet taken by the coordinator. -/
  requests : List UInt8
  /-- Written by the coordinator, not yet taken by the client. -/
  replies : List UInt8
  serving : Serving
  call : Option OobCall
  /-- How many bytes the client has written. -/
  written : Nat
  /-- Where the message begins that the coordinator takes next. -/
  mark : Nat
  served : List Served
  returned : List Returned
  deriving DecidableEq

namespace Oob

def init : Oob :=
  { socket := .unconnected, requests := [], replies := [], serving := .taking [], call := none
    written := 0, mark := 0, served := [], returned := [] }

inductive Act where
  /-- A thread takes the mutex; `connects` says whether a `connect_to_coord` that it
  calls succeeds. -/
  | enter (thread : Nat) (t : Translation) (pid : BitVec 32) (stack : WireMsg) (connects : Bool)
  /-- `write` takes `n` bytes. -/
  | write (n : Nat)
  /-- `write` returns -1. -/
  | writeFails
  /-- `read` brings `n` bytes. -/
  | read (n : Nat)
  /-- `read` returns -1 or 0. -/
  | readFails
  | coordRead (n : Nat)
  /-- The message is whole; `pid` is what the coordinator finds for it. -/
  | coordHandle (pid : BitVec 32)
  | coordWrite (n : Nat)
  /-- The coordinator closes the connection: a `read` of its own was cut, a `write` was and
  the assertion failed, or the process was removed for another reason. -/
  | coordCloses
  deriving DecidableEq, Repr

variable (xndPid : BitVec 32) (s : Oob)

/-- The mutex is given back. -/
def finish (c : OobCall) (result : BitVec 32) : Oob :=
  { s with
    call := none
    returned := s.returned ++ [⟨c.thread, c.translation, c.pid, c.start, result⟩] }

/-- A call that has the connection. -/
def send (thread : Nat) (t : Translation) (pid : BitVec 32) (msg : WireMsg)
    (asks : t.Asks pid msg) : Oob :=
  { s with call := some ⟨thread, t, pid, msg, asks, s.written, .sending msg.bytes⟩ }

/-- The first message of a connection says whose it is. -/
def introduce (m : WireMsg) : WireMsg := { m with xndPid := xndPid }

theorem asks_introduce (t : Translation) (pid : BitVec 32) (stack : WireMsg) :
    t.Asks pid (introduce xndPid (t.request pid stack)) := by
  cases t <;> exact ⟨rfl, rfl⟩

/-- The lines of a translation up to `send_msg_to_coord`. -/
def enter (thread : Nat) (t : Translation) (pid : BitVec 32) (stack : WireMsg)
    (connects : Bool) : Oob :=
  if s.socket = .unconnected then
    if connects then
      { s with socket := .open }.send thread t pid _ (asks_introduce xndPid t pid stack)
    else { s with returned := s.returned ++ [⟨thread, t, pid, s.written, -1⟩] }
  else s.send thread t pid _ (t.asks_request pid stack)

/-- `writeall` after a `write`. -/
def afterWrite (c : OobCall) : List UInt8 → Oob
  | [] => { s with call := some { c with place := .receiving [] } }
  | rest => { s with call := some { c with place := .sending rest } }

/-- `readall` after a `read`, and the end of the call when the message is whole. -/
def afterRead (c : OobCall) (got : List UInt8) : Oob :=
  if got.length = WireMsg.size then s.finish c (c.translation.result (.ofBytes got))
  else { s with call := some { c with place := .receiving got } }

/-- The coordinator has a whole message. -/
def log (m : WireMsg) (pid : BitVec 32) : Oob :=
  { s with mark := s.mark + WireMsg.size, served := s.served ++ [⟨s.mark, m, pid⟩] }

/-- `coord_handle_msg`; the removal that an exit may lead to is `coordCloses`. -/
def coordHandle (m : WireMsg) (pid : BitVec 32) : Oob :=
  if m.hdr = XndMsghdr.virtToReal.code then
    { s.log m pid with serving := .replying (Translation.virtToReal.coordReply pid).bytes }
  else if m.hdr = XndMsghdr.realToVirt.code then
    { s.log m pid with serving := .replying (Translation.realToVirt.coordReply pid).bytes }
  else if m.hdr = XndMsghdr.exit.code then { s.log m pid with serving := .taking [] }
  else { s.log m pid with socket := .closed }

/-- The coordinator's `writeall` after a `write`. -/
def afterCoordWrite : List UInt8 → Oob
  | [] => { s with serving := .taking [] }
  | rest => { s with serving := .replying rest }

/-- One `read` or `write` of either end, or the start of a call. -/
def step : Machine Oob Act
  | s, .enter thread t pid stack connects =>
      if s.call = none then some (s.enter xndPid thread t pid stack connects) else none
  | s, .write n =>
      match s.call with
      | some c =>
          match c.place with
          | .sending rest =>
              guarded (s.socket = .open ∧ 0 < n ∧ n ≤ rest.length)
                ({ s with requests := s.requests ++ rest.take n, written := s.written + n }.afterWrite
                  c (rest.drop n))
          | .receiving _ => none
      | none => none
  | s, .writeFails =>
      match s.call with
      | some c =>
          match c.place with
          | .sending _ => some (s.finish c (-1))
          | .receiving _ => none
      | none => none
  | s, .read n =>
      match s.call with
      | some c =>
          match c.place with
          | .sending _ => none
          | .receiving got =>
              guarded (0 < n ∧ n ≤ s.replies.length ∧ got.length + n ≤ WireMsg.size)
                ({ s with replies := s.replies.drop n }.afterRead c (got ++ s.replies.take n))
      | none => none
  | s, .readFails =>
      match s.call with
      | some c =>
          match c.place with
          | .sending _ => none
          | .receiving _ => some (s.finish c (-1))
      | none => none
  | s, .coordRead n =>
      match s.serving with
      | .taking got =>
          guarded (s.socket = .open ∧ 0 < n ∧ n ≤ s.requests.length ∧
              got.length + n ≤ WireMsg.size)
            { s with
              requests := s.requests.drop n
              serving := .taking (got ++ s.requests.take n) }
      | .replying _ => none
  | s, .coordHandle pid =>
      match s.serving with
      | .taking got =>
          guarded (s.socket = .open ∧ got.length = WireMsg.size)
            (s.coordHandle (.ofBytes got) pid)
      | .replying _ => none
  | s, .coordWrite n =>
      match s.serving with
      | .taking _ => none
      | .replying rest =>
          guarded (s.socket = .open ∧ 0 < n ∧ n ≤ rest.length)
            ({ s with replies := s.replies ++ rest.take n }.afterCoordWrite (rest.drop n))
  | s, .coordCloses =>
      guarded (s.socket = .open) { s with socket := .closed }

/-- **The condition** on a call that fails: the connection is closed, or it was a `write`
and no byte of the request had been written. -/
def Clean : Act → Prop
  | .writeFails => s.socket = .closed ∨ ∀ c ∈ s.call, c.place = .sending c.msg.bytes
  | .readFails => s.socket = .closed
  | _ => True

instance : (a : Act) → Decidable (s.Clean a)
  | .writeFails => inferInstanceAs (Decidable (_ ∨ _))
  | .readFails => inferInstanceAs (Decidable (s.socket = .closed))
  | .enter .. | .write _ | .read _ | .coordRead _ | .coordHandle _ | .coordWrite _
  | .coordCloses => inferInstanceAs (Decidable True)

/-- The coordinator was given the request of a call, and answered what the call returned. -/
def Answered (served : List Served) (r : Returned) : Prop :=
  ∃ a ∈ served, a.start = r.start ∧ r.translation.Asks r.pid a.msg ∧ a.pid = r.result

instance (served : List Served) (r : Returned) : Decidable (Answered served r) :=
  inferInstanceAs (Decidable (∃ a ∈ served, _))

/-- What every call is for. -/
def Faithful : Prop := ∀ r ∈ s.returned, r.result ≠ -1 → Answered s.served r

instance : Decidable s.Faithful := inferInstanceAs (Decidable (∀ r ∈ s.returned, _))

/-! ## The invariant -/

/-- Nothing is under way. -/
structure Quiet : Prop where
  requests : s.requests = []
  replies : s.replies = []
  serving : s.serving = .taking []
  mark : s.mark = s.written

/-- The request of `c` is under way, but for `rest`. -/
structure Asking (c : OobCall) (rest : List UInt8) : Prop where
  replies : s.replies = []
  taken : ∃ got, s.serving = .taking got ∧ got ++ s.requests ++ rest = c.msg.bytes
  mark : s.mark = c.start
  written : s.written + rest.length = c.start + WireMsg.size

/-- The coordinator has `left` of a reply to write. -/
def Left (left : List UInt8) : Prop :=
  s.serving = .taking [] ∧ left = [] ∨ s.serving = .replying left ∧ left ≠ []

/-- The reply to `c` is under way, and `got` of it has arrived. -/
structure Answering (c : OobCall) (got : List UInt8) : Prop where
  requests : s.requests = []
  mark : s.mark = s.written
  reply : ∃ a ∈ s.served, a.start = c.start ∧ a.msg = c.msg ∧
    ∃ left, s.Left left ∧ got ++ s.replies ++ left = (c.translation.coordReply a.pid).bytes

/-- What holds while `c` has the mutex.  A reply that is complete outlives the connection. -/
def Stage (c : OobCall) : Prop :=
  match c.place with
  | .sending rest => rest ≠ [] ∧ (s.socket ≠ .closed → s.Asking c rest)
  | .receiving got => s.Asking c [] ∧ got = [] ∨ s.Answering c got

/-- What holds of the streams. -/
def Streams : Prop :=
  match s.call with
  | none => s.socket ≠ .closed → s.Quiet
  | some c => s.Stage c

variable {xndPid s}

theorem streams_none (h : s.call = none) : s.Streams ↔ (s.socket ≠ .closed → s.Quiet) := by
  rw [Streams, h]

theorem streams_some {c : OobCall} (h : s.call = some c) : s.Streams ↔ s.Stage c := by
  rw [Streams, h]

theorem stage_sending {c : OobCall} {rest : List UInt8} (h : c.place = .sending rest) :
    s.Stage c ↔ rest ≠ [] ∧ (s.socket ≠ .closed → s.Asking c rest) := by
  rw [Stage, h]

theorem stage_receiving {c : OobCall} {got : List UInt8} (h : c.place = .receiving got) :
    s.Stage c ↔ s.Asking c [] ∧ got = [] ∨ s.Answering c got := by
  rw [Stage, h]

theorem bytes_ne_nil (m : WireMsg) : m.bytes ≠ [] :=
  List.ne_nil_of_length_pos (by rw [m.length_bytes]; decide)

/-! ## The log -/

theorem Answered.snoc {served : List Served} {r : Returned} (h : Answered served r) (a : Served) :
    Answered (served ++ [a]) r := by
  obtain ⟨b, hb, hrest⟩ := h
  exact ⟨b, List.mem_append_left _ hb, hrest⟩

theorem Faithful.log (h : s.Faithful) (m : WireMsg) (pid : BitVec 32) :
    (s.log m pid).Faithful :=
  fun r hr hne => (h r hr hne).snoc _

theorem Faithful.finish (h : s.Faithful) {c : OobCall} {result : BitVec 32}
    (hresult : result ≠ -1 →
      Answered s.served ⟨c.thread, c.translation, c.pid, c.start, result⟩) :
    (s.finish c result).Faithful := by
  intro r hr hne
  rcases List.mem_append.mp hr with hold | hnew
  · exact h r hold hne
  · obtain rfl := List.mem_singleton.mp hnew
    exact hresult hne

/-! ## The client's steps -/

/-- A call begins to write where the streams are quiet. -/
theorem Quiet.asking (h : s.Quiet) {c : OobCall} (hstart : c.start = s.written) :
    s.Asking c c.msg.bytes where
  replies := h.replies
  taken := ⟨[], h.serving, by rw [h.requests]; rfl⟩
  mark := h.mark.trans hstart.symm
  written := by rw [c.msg.length_bytes, hstart]

theorem streams_send (h : s.socket ≠ .closed → s.Quiet) (thread : Nat) (t : Translation)
    (pid : BitVec 32) (msg : WireMsg) (asks : t.Asks pid msg) :
    (s.send thread t pid msg asks).Streams := by
  refine ⟨bytes_ne_nil msg, fun hopen => ?_⟩
  let c : OobCall := ⟨thread, t, pid, msg, asks, s.written, .sending msg.bytes⟩
  have hasking : s.Asking c c.msg.bytes := (h hopen).asking rfl
  exact ⟨hasking.replies, hasking.taken, hasking.mark, hasking.written⟩

theorem streams_enter (hcall : s.call = none) (h : s.Streams) (thread : Nat) (t : Translation)
    (pid : BitVec 32) (stack : WireMsg) (connects : Bool) :
    (s.enter xndPid thread t pid stack connects).Streams := by
  have hquiet := (streams_none hcall).mp h
  unfold enter
  split
  case isTrue hunconnected =>
    have hq : s.Quiet := hquiet (by rw [hunconnected]; decide)
    split
    · apply streams_send
      intro _
      exact ⟨hq.requests, hq.replies, hq.serving, hq.mark⟩
    · refine (streams_none ?hnone).mpr ?_
      case hnone => exact hcall
      intro _
      exact ⟨hq.requests, hq.replies, hq.serving, hq.mark⟩
  case isFalse => exact streams_send hquiet ..

theorem faithful_enter (h : s.Faithful) (thread : Nat) (t : Translation) (pid : BitVec 32)
    (stack : WireMsg) (connects : Bool) :
    (s.enter xndPid thread t pid stack connects).Faithful := by
  unfold enter
  split
  · split
    · exact h
    · intro r hr hne
      rcases List.mem_append.mp hr with hold | hnew
      · exact h r hold hne
      · obtain rfl := List.mem_singleton.mp hnew
        exact absurd rfl hne
  · exact h

theorem Asking.write {c : OobCall} {rest : List UInt8} (h : s.Asking c rest) {n : Nat}
    (hn : n ≤ rest.length) :
    { s with requests := s.requests ++ rest.take n, written := s.written + n }.Asking c
      (rest.drop n) where
  replies := h.replies
  taken := by
    obtain ⟨got, hgot, hbytes⟩ := h.taken
    refine ⟨got, hgot, ?_⟩
    show got ++ (s.requests ++ rest.take n) ++ rest.drop n = _
    rw [← List.append_assoc, List.append_assoc, List.take_append_drop, hbytes]
  mark := h.mark
  written := by
    show s.written + n + (rest.drop n).length = _
    rw [List.length_drop, ← h.written]
    omega

theorem streams_afterWrite {c : OobCall} {rest : List UInt8} (h : s.Asking c rest) :
    (s.afterWrite c rest).Streams := by
  cases rest with
  | nil => exact Or.inl ⟨⟨h.replies, h.taken, h.mark, h.written⟩, rfl⟩
  | cons b rest =>
      exact ⟨List.cons_ne_nil b rest, fun _ => ⟨h.replies, h.taken, h.mark, h.written⟩⟩

theorem faithful_afterWrite (h : s.Faithful) (c : OobCall) (rest : List UInt8) :
    (s.afterWrite c rest).Faithful := by
  cases rest <;> exact h

/-- A `write` that fails before it has taken a byte leaves the streams as they were. -/
theorem Asking.quiet {c : OobCall} (h : s.Asking c c.msg.bytes) : s.Quiet := by
  obtain ⟨got, hgot, hbytes⟩ := h.taken
  have hnil : got ++ s.requests = [] := List.append_left_eq_self.mp hbytes
  obtain ⟨rfl, hrequests⟩ := List.append_eq_nil_iff.mp hnil
  have hwritten := h.written
  rw [c.msg.length_bytes] at hwritten
  exact ⟨hrequests, h.replies, hgot, by rw [h.mark]; omega⟩

theorem Answering.read {c : OobCall} {got : List UInt8} (h : s.Answering c got) (n : Nat) :
    { s with replies := s.replies.drop n }.Answering c (got ++ s.replies.take n) where
  requests := h.requests
  mark := h.mark
  reply := by
    obtain ⟨a, ha, hstart, hmsg, left, hleft, hbytes⟩ := h.reply
    refine ⟨a, ha, hstart, hmsg, left, hleft, ?_⟩
    show got ++ s.replies.take n ++ s.replies.drop n ++ left = _
    rw [List.append_assoc got, List.take_append_drop, hbytes]

/-- A reply that has arrived whole. -/
theorem Answering.whole {c : OobCall} {got : List UInt8} (h : s.Answering c got)
    (hwhole : got.length = WireMsg.size) :
    s.Quiet ∧ Answered s.served
      ⟨c.thread, c.translation, c.pid, c.start, c.translation.result (.ofBytes got)⟩ := by
  obtain ⟨a, ha, hstart, hmsg, left, hleft, hbytes⟩ := h.reply
  have hlen := congrArg List.length hbytes
  rw [List.length_append, List.length_append, WireMsg.length_bytes] at hlen
  have hreplies : s.replies = [] := List.eq_nil_of_length_eq_zero (by omega)
  have hnil : left = [] := List.eq_nil_of_length_eq_zero (by omega)
  rw [hreplies, hnil, List.append_nil, List.append_nil] at hbytes
  refine ⟨⟨h.requests, hreplies, ?_, h.mark⟩, a, ha, hstart, hmsg ▸ c.asks, ?_⟩
  · rcases hleft with ⟨hserving, -⟩ | ⟨-, hne⟩
    · exact hserving
    · exact absurd hnil hne
  · rw [hbytes, WireMsg.ofBytes_bytes, Translation.result_coordReply]

theorem streams_afterRead {c : OobCall} {got : List UInt8} (h : s.Answering c got) :
    (s.afterRead c got).Streams := by
  unfold afterRead
  split
  case isTrue hwhole =>
    have hquiet := (h.whole hwhole).1
    exact fun _ => ⟨hquiet.requests, hquiet.replies, hquiet.serving, hquiet.mark⟩
  case isFalse => exact Or.inr ⟨h.requests, h.mark, h.reply⟩

theorem faithful_afterRead (hf : s.Faithful) {c : OobCall} {got : List UInt8}
    (h : s.Answering c got) : (s.afterRead c got).Faithful := by
  unfold afterRead
  split
  case isTrue hwhole => exact hf.finish fun _ => (h.whole hwhole).2
  case isFalse => exact hf

/-! ## The coordinator's steps -/

theorem Asking.coordRead {c : OobCall} {rest got : List UInt8} (h : s.Asking c rest)
    (hgot : s.serving = .taking got) (n : Nat) :
    { s with
      requests := s.requests.drop n
      serving := .taking (got ++ s.requests.take n) }.Asking c rest where
  replies := h.replies
  taken := by
    obtain ⟨got', hgot', hbytes⟩ := h.taken
    obtain rfl : got' = got := Serving.taking.inj (hgot'.symm.trans hgot)
    refine ⟨_, rfl, ?_⟩
    show got' ++ s.requests.take n ++ s.requests.drop n ++ rest = _
    rw [List.append_assoc got', List.take_append_drop, hbytes]
  mark := h.mark
  written := h.written

/-- A request is answered by the translation it asks for. -/
theorem coordHandle_of_asks {t : Translation} {asked : BitVec 32} {m : WireMsg}
    (h : t.Asks asked m) (pid : BitVec 32) :
    s.coordHandle m pid = { s.log m pid with serving := .replying (t.coordReply pid).bytes } := by
  have hhdr := h.1
  cases t with
  | virtToReal => exact if_pos hhdr
  | realToVirt =>
      have hne : m.hdr ≠ XndMsghdr.virtToReal.code := by
        rw [hhdr]
        decide
      exact (if_neg hne).trans (if_pos hhdr)

/-- A message that is whole is the request. -/
theorem Asking.whole {c : OobCall} {rest got : List UInt8} (h : s.Asking c rest)
    (hgot : s.serving = .taking got) (hwhole : got.length = WireMsg.size) :
    WireMsg.ofBytes got = c.msg ∧ s.requests = [] ∧ rest = [] := by
  obtain ⟨got', hgot', hbytes⟩ := h.taken
  obtain rfl : got' = got := Serving.taking.inj (hgot'.symm.trans hgot)
  have hlen := congrArg List.length hbytes
  rw [List.length_append, List.length_append, WireMsg.length_bytes] at hlen
  have hrequests : s.requests = [] := List.eq_nil_of_length_eq_zero (by omega)
  have hrest : rest = [] := List.eq_nil_of_length_eq_zero (by omega)
  rw [hrequests, hrest, List.append_nil, List.append_nil] at hbytes
  exact ⟨by rw [hbytes, WireMsg.ofBytes_bytes], hrequests, hrest⟩

theorem Asking.coordHandle {c : OobCall} {got : List UInt8} (h : s.Asking c [])
    (hgot : s.serving = .taking got) (hwhole : got.length = WireMsg.size) (pid : BitVec 32) :
    (s.coordHandle (.ofBytes got) pid).Answering c [] := by
  obtain ⟨hmsg, hrequests, -⟩ := h.whole hgot hwhole
  rw [hmsg, coordHandle_of_asks c.asks]
  refine ⟨hrequests, ?_, ⟨s.mark, c.msg, pid⟩, ?_, h.mark, rfl, _, Or.inr ⟨rfl, bytes_ne_nil _⟩, ?_⟩
  · show s.mark + WireMsg.size = s.written
    rw [h.mark, ← h.written, List.length_nil, Nat.add_zero]
  · exact List.mem_append_right _ (List.mem_singleton_self _)
  · show [] ++ s.replies ++ _ = _
    rw [h.replies]
    rfl

theorem Answering.coordWrite {c : OobCall} {got rest : List UInt8} (h : s.Answering c got)
    (hrest : s.serving = .replying rest) (n : Nat) :
    ({ s with replies := s.replies ++ rest.take n }.afterCoordWrite (rest.drop n)).Answering
      c got := by
  obtain ⟨a, ha, hstart, hmsg, left, hleft, hbytes⟩ := h.reply
  obtain rfl : left = rest := by
    rcases hleft with ⟨htaking, -⟩ | ⟨hreplying, -⟩
    · rw [hrest] at htaking
      cases htaking
    · exact Serving.replying.inj (hreplying.symm.trans hrest)
  have hsplit : got ++ (s.replies ++ left.take n) ++ left.drop n =
      (c.translation.coordReply a.pid).bytes := by
    rw [← hbytes, ← List.append_assoc, List.append_assoc, List.take_append_drop]
  cases hdrop : left.drop n with
  | nil =>
      rw [hdrop] at hsplit
      exact ⟨h.requests, h.mark, a, ha, hstart, hmsg, [], Or.inl ⟨rfl, rfl⟩, hsplit⟩
  | cons b bs =>
      rw [hdrop] at hsplit
      exact ⟨h.requests, h.mark, a, ha, hstart, hmsg, b :: bs,
        Or.inr ⟨rfl, List.cons_ne_nil b bs⟩, hsplit⟩

theorem faithful_coordHandle (h : s.Faithful) (m : WireMsg) (pid : BitVec 32) :
    (s.coordHandle m pid).Faithful := by
  have hlog := h.log m pid
  unfold coordHandle
  split
  · exact hlog
  · split
    · exact hlog
    · split <;> exact hlog

theorem faithful_afterCoordWrite (h : s.Faithful) (rest : List UInt8) :
    (s.afterCoordWrite rest).Faithful := by
  cases rest <;> exact h

theorem ne_closed (h : s.socket = .open) : s.socket ≠ .closed := by
  rw [h]
  decide

/-- Where nothing is under way the coordinator has no byte to take. -/
theorem Quiet.not_le (h : s.Quiet) {n : Nat} (hn : 0 < n) : ¬ n ≤ s.requests.length := by
  rw [h.requests, List.length_nil]
  omega

theorem streams_coordRead {got : List UInt8} {n : Nat} (h : s.Streams)
    (hne : s.socket ≠ .closed) (hgot : s.serving = .taking got) (hpos : 0 < n)
    (hn : n ≤ s.requests.length) :
    { s with
      requests := s.requests.drop n
      serving := .taking (got ++ s.requests.take n) }.Streams := by
  rcases Option.eq_none_or_eq_some s.call with hcall | ⟨c, hcall⟩
  · exact absurd hn (((streams_none hcall).mp h hne).not_le hpos)
  · have hstage := (streams_some hcall).mp h
    refine (streams_some (c := c) ?hsome).mpr ?_
    case hsome => exact hcall
    cases hplace : c.place with
    | sending rest =>
        obtain ⟨hrest, hasking⟩ := (stage_sending hplace).mp hstage
        exact (stage_sending hplace).mpr ⟨hrest, fun _ => (hasking hne).coordRead hgot n⟩
    | receiving got' =>
        refine (stage_receiving hplace).mpr ?_
        rcases (stage_receiving hplace).mp hstage with ⟨hasking, hnil⟩ | hanswering
        · exact Or.inl ⟨hasking.coordRead hgot n, hnil⟩
        · rw [hanswering.requests, List.length_nil] at hn
          omega

theorem streams_coordHandle {got : List UInt8} (h : s.Streams) (hne : s.socket ≠ .closed)
    (hgot : s.serving = .taking got) (hwhole : got.length = WireMsg.size) (pid : BitVec 32) :
    (s.coordHandle (.ofBytes got) pid).Streams := by
  have hnotnil : s.serving ≠ .taking [] := by
    intro hnil
    obtain rfl : got = [] := Serving.taking.inj (hgot.symm.trans hnil)
    cases hwhole
  rcases Option.eq_none_or_eq_some s.call with hcall | ⟨c, hcall⟩
  · exact absurd ((streams_none hcall).mp h hne).serving hnotnil
  · have hstage := (streams_some hcall).mp h
    cases hplace : c.place with
    | sending rest =>
        obtain ⟨hrest, hasking⟩ := (stage_sending hplace).mp hstage
        exact absurd ((hasking hne).whole hgot hwhole).2.2 hrest
    | receiving got' =>
        rcases (stage_receiving hplace).mp hstage with ⟨hasking, rfl⟩ | hanswering
        · have hanswering := hasking.coordHandle hgot hwhole pid
          refine (streams_some (c := c) ?hsome).mpr ((stage_receiving hplace).mpr (Or.inr hanswering))
          rw [(hasking.whole hgot hwhole).1, coordHandle_of_asks c.asks]
          exact hcall
        · obtain ⟨-, -, -, -, left, hleft, -⟩ := hanswering.reply
          rcases hleft with ⟨htaking, -⟩ | ⟨hreplying, -⟩
          · exact absurd htaking hnotnil
          · rw [hgot] at hreplying
            cases hreplying

theorem streams_coordWrite {rest : List UInt8} (h : s.Streams) (hne : s.socket ≠ .closed)
    (hrest : s.serving = .replying rest) (n : Nat) :
    ({ s with replies := s.replies ++ rest.take n }.afterCoordWrite (rest.drop n)).Streams := by
  have hnottaking : ∀ got, s.serving ≠ .taking got := by
    intro got hgot
    rw [hrest] at hgot
    cases hgot
  rcases Option.eq_none_or_eq_some s.call with hcall | ⟨c, hcall⟩
  · exact absurd ((streams_none hcall).mp h hne).serving (hnottaking [])
  · have hstage := (streams_some hcall).mp h
    cases hplace : c.place with
    | sending left =>
        obtain ⟨got, hgot, -⟩ := (((stage_sending hplace).mp hstage).2 hne).taken
        exact absurd hgot (hnottaking got)
    | receiving got =>
        rcases (stage_receiving hplace).mp hstage with ⟨hasking, -⟩ | hanswering
        · obtain ⟨got', hgot', -⟩ := hasking.taken
          exact absurd hgot' (hnottaking got')
        · have hanswering := hanswering.coordWrite hrest n
          refine (streams_some (c := c) ?hsome).mpr
            ((stage_receiving hplace).mpr (Or.inr hanswering))
          cases rest.drop n <;> exact hcall

theorem streams_coordCloses (h : s.Streams) : { s with socket := .closed }.Streams := by
  rcases Option.eq_none_or_eq_some s.call with hcall | ⟨c, hcall⟩
  · refine (streams_none ?hnone).mpr fun hne => absurd rfl hne
    exact hcall
  · have hstage := (streams_some hcall).mp h
    refine (streams_some (c := c) ?hsome).mpr ?_
    case hsome => exact hcall
    cases hplace : c.place with
    | sending rest =>
        exact (stage_sending hplace).mpr
          ⟨((stage_sending hplace).mp hstage).1, fun hne => absurd rfl hne⟩
    | receiving got =>
        refine (stage_receiving hplace).mpr ?_
        rcases (stage_receiving hplace).mp hstage with ⟨hasking, hnil⟩ | hanswering
        · exact Or.inl ⟨⟨hasking.replies, hasking.taken, hasking.mark, hasking.written⟩, hnil⟩
        · exact Or.inr ⟨hanswering.requests, hanswering.mark, hanswering.reply⟩

/-! ## Runs -/

/-- **The invariant.** -/
structure Inv (s : Oob) : Prop where
  faithful : s.Faithful
  streams : s.Streams

theorem inv_init : Inv .init where
  faithful := List.forall_mem_nil _
  streams := fun _ => ⟨rfl, rfl, rfl, rfl⟩

/-- A call that fails where the condition holds. -/
theorem Inv.finish (h : s.Inv) {c : OobCall} (hcall : s.call = some c)
    (hclean : s.socket = .closed ∨ c.place = .sending c.msg.bytes) :
    (s.finish c (-1)).Inv := by
  refine ⟨h.faithful.finish fun hne => absurd rfl hne, ?_⟩
  intro hne
  rcases hclean with hclosed | hplace
  · exact absurd hclosed hne
  · have hstage := (streams_some hcall).mp h.streams
    have hquiet := (((stage_sending hplace).mp hstage).2 hne).quiet
    exact ⟨hquiet.requests, hquiet.replies, hquiet.serving, hquiet.mark⟩

theorem Inv.write (h : s.Inv) {c : OobCall} (hcall : s.call = some c) {rest : List UInt8}
    (hplace : c.place = .sending rest) (hopen : s.socket = .open) {n : Nat}
    (hn : n ≤ rest.length) :
    ({ s with requests := s.requests ++ rest.take n, written := s.written + n }.afterWrite c
      (rest.drop n)).Inv := by
  have hstage := (streams_some hcall).mp h.streams
  have hasking := ((stage_sending hplace).mp hstage).2 (ne_closed hopen)
  refine ⟨?_, streams_afterWrite (hasking.write hn)⟩
  apply faithful_afterWrite
  exact h.faithful

theorem Inv.read (h : s.Inv) {c : OobCall} (hcall : s.call = some c) {got : List UInt8}
    (hplace : c.place = .receiving got) {n : Nat} (hpos : 0 < n) (hn : n ≤ s.replies.length) :
    ({ s with replies := s.replies.drop n }.afterRead c (got ++ s.replies.take n)).Inv := by
  have hstage := (streams_some hcall).mp h.streams
  rcases (stage_receiving hplace).mp hstage with ⟨hasking, -⟩ | hanswering
  · rw [hasking.replies, List.length_nil] at hn
    omega
  · have hread := hanswering.read n
    refine ⟨?_, streams_afterRead hread⟩
    apply faithful_afterRead _ hread
    exact h.faithful

/-- **One step** keeps the invariant. -/
theorem Inv.step {s' : Oob} {a : Act} (h : s.Inv) (hclean : s.Clean a)
    (hstep : step xndPid s a = some s') : s'.Inv := by
  cases a with
  | enter thread t pid stack connects =>
      dsimp only [Oob.step] at hstep
      split at hstep
      · obtain rfl := Option.some.inj hstep
        exact ⟨faithful_enter h.faithful thread t pid stack connects,
          streams_enter ‹_› h.streams thread t pid stack connects⟩
      · cases hstep
  | write n =>
      dsimp only [Oob.step] at hstep
      split at hstep
      · split at hstep
        · obtain ⟨⟨hopen, -, hn⟩, rfl⟩ := guarded_eq_some.mp hstep
          exact h.write ‹_› ‹_› hopen hn
        · cases hstep
      · cases hstep
  | writeFails =>
      dsimp only [Oob.step] at hstep
      split at hstep
      · split at hstep
        · obtain rfl := Option.some.inj hstep
          refine h.finish ‹_› ?_
          rcases hclean with hclosed | hplace
          · exact Or.inl hclosed
          · exact Or.inr (hplace _ ‹_›)
        · cases hstep
      · cases hstep
  | read n =>
      dsimp only [Oob.step] at hstep
      split at hstep
      · split at hstep
        · cases hstep
        · obtain ⟨⟨hpos, hn, -⟩, rfl⟩ := guarded_eq_some.mp hstep
          exact h.read ‹_› ‹_› hpos hn
      · cases hstep
  | readFails =>
      dsimp only [Oob.step] at hstep
      split at hstep
      · split at hstep
        · cases hstep
        · obtain rfl := Option.some.inj hstep
          exact h.finish ‹_› (Or.inl hclean)
      · cases hstep
  | coordRead n =>
      dsimp only [Oob.step] at hstep
      split at hstep
      · obtain ⟨⟨hopen, hpos, hn, -⟩, rfl⟩ := guarded_eq_some.mp hstep
        exact ⟨h.faithful, streams_coordRead h.streams (ne_closed hopen) ‹_› hpos hn⟩
      · cases hstep
  | coordHandle pid =>
      dsimp only [Oob.step] at hstep
      split at hstep
      · obtain ⟨⟨hopen, hwhole⟩, rfl⟩ := guarded_eq_some.mp hstep
        exact ⟨faithful_coordHandle h.faithful _ pid,
          streams_coordHandle h.streams (ne_closed hopen) ‹_› hwhole pid⟩
      · cases hstep
  | coordWrite n =>
      dsimp only [Oob.step] at hstep
      split at hstep
      · cases hstep
      · obtain ⟨⟨hopen, -, -⟩, rfl⟩ := guarded_eq_some.mp hstep
        refine ⟨?_, streams_coordWrite h.streams (ne_closed hopen) ‹_› n⟩
        apply faithful_afterCoordWrite
        exact h.faithful
  | coordCloses =>
      obtain ⟨-, rfl⟩ := guarded_eq_some.mp hstep
      exact ⟨h.faithful, streams_coordCloses h.streams⟩

/-- **A translation returns the answer to its own request**: in a run in which a call
fails only where `Clean` says, a pid other than -1 that a call has returned is what the
coordinator answered when it was given the message which that call wrote. -/
theorem oob_answered {s : Oob} (h : Machine.Runs (step xndPid) Clean .init s) :
    ∀ r ∈ s.returned, r.result ≠ -1 → Answered s.served r :=
  (h.invariant (fun _ _ _ hs ha hstep => hs.step ha hstep) inv_init).faithful

/-- What the memory of a message held. -/
def blankMsg : WireMsg := default

/-- Two threads take turns; a call is interrupted before it has written anything, and the
coordinator writes a reply in two parts. -/
def turns : List Act :=
  [.enter 0 .virtToReal 5 blankMsg true, .write 80, .coordRead 80, .coordHandle 105,
    .coordWrite 30, .read 10, .coordWrite 50, .read 70,
    .enter 1 .realToVirt 106 blankMsg true, .writeFails,
    .enter 1 .realToVirt 106 blankMsg true, .write 80, .coordRead 40, .coordRead 40, .coordHandle 6,
    .coordWrite 80, .read 80]

theorem oob_answered_turns :
    ∃ s, Machine.Runs (step 7) Clean .init s ∧ s.returned.map Returned.result = [105, -1, 6] ∧
      ∀ r ∈ s.returned, r.result ≠ -1 → Answered s.served r := by
  obtain ⟨s, hs, hresults⟩ := Machine.exists_runs (step 7) Clean .init
    (fun s => decide (s.returned.map Returned.result = [105, -1, 6])) turns (by decide +kernel)
  exact ⟨s, hs, of_decide_eq_true hresults, oob_answered hs⟩

/-- A signal interrupts the `read` of the reply about 5, and the next call takes it for the
answer about 6. -/
def staleReply : List Act :=
  [.enter 0 .virtToReal 5 blankMsg true, .write 80, .readFails, .coordRead 80, .coordHandle 105,
    .coordWrite 80, .enter 0 .virtToReal 6 blankMsg true, .write 80, .read 80]

theorem not_oob_answered_staleReply :
    ∃ s, Machine.Runs (step 7) (fun _ _ => True) .init s ∧
      ¬ ∀ r ∈ s.returned, r.result ≠ -1 → Answered s.served r := by
  obtain ⟨s, hs, hstale⟩ := Machine.exists_runs (step 7) (fun _ _ => True) .init
    (fun s => decide ¬ s.Faithful) staleReply (by decide +kernel)
  exact ⟨s, hs, of_decide_eq_true hstale⟩

end Oob
end Xnd.Coord
