import Xnd.Coord.ProcList

/-!
# `coord_wait_for_msg` over the list in memory

One call asks `select` which sockets are ready and walks the list with
`proc_foreach_safe`.  A process is served on its socket and then on its
out-of-band socket.  An `XND_EXIT` removes the process it names, which may be the
one that is being served, the saved successor, or any other.

Two of these go wrong.  When the process being served is removed by a message on
its own socket, `p->oob_fd` is read from freed memory.  When the saved successor
is removed, the traversal steps onto freed memory.  `Benign` excludes both, and
`waitForMsg_sound` says that nothing else goes wrong: in a run of any length, with
processes added, removed and changed between the calls, no freed process is read
or removed and the size stays the number of nodes.
-/
namespace Xnd.Coord
open LinkedList

/-- `coord_exit`: the list is destroyed and the coordinator ends. -/
def coordExit {α : Type} (status : CoordStop) : MemM α := do
  procListDestroy
  Code.halt status

/-- `coord_send_virt_to_real`. -/
def memSendVirtToReal (fd : Int) (msg : XndMsg) : MemM Unit := do
  let s ← Code.get
  let real := s.table.virtualToReal msg.virtPid
  let real ← (if real ≠ -1 then pure real else procListVirtToReal msg.virtPid : MemM Int)
  let sent ← coordSendMsg fd
    (if real ≠ -1 then { hdr := .coordAck, ret := .success, realPid := real }
     else { hdr := .coordAck, ret := .failure, realPid := -1 })
  xndAssert .replySent (sent = true)

/-- `coord_send_real_to_virt`. -/
def memSendRealToVirt (fd : Int) (msg : XndMsg) : MemM Unit := do
  let s ← Code.get
  let virt := s.table.realToVirtual (← iteration) msg.realPid
  let virt ← (if virt ≠ -1 then pure virt else procListRealToVirt msg.realPid : MemM Int)
  let sent ← coordSendMsg fd
    (if virt ≠ -1 then { hdr := .coordAck, ret := .success, virtPid := virt }
     else { hdr := .coordAck, ret := .failure, virtPid := -1 })
  xndAssert .replySent (sent = true)

/-- `coord_handle_msg`. -/
def memHandleMsg (fd : Int) (msg : XndMsg) : MemM Unit :=
  match msg.hdr with
  | .exit => do
      match ← procListFindByRealPid msg.realPid with
      | some p => procListRemove p
      | none => pure ()
  | .virtToReal => memSendVirtToReal fd msg
  | .realToVirt => memSendRealToVirt fd msg
  | _ => coordExit (.exitFailure .unexpectedMessage)

/-- The part of a turn for `p->oob_fd`. -/
def serveOob (ready : List Int) (p : Nat) : MemM Unit := do
  let c ← deref p
  if c.data.oobFd ≠ -1 ∧ c.data.oobFd ∈ ready then do
    match ← coordRecvMsg c.data.oobFd with
    | none => procListRemove p
    | some msg => memHandleMsg c.data.oobFd msg
  else pure ()

/-- The turn of one process in the loop of `coord_wait_for_msg`. -/
def serve (ready : List Int) (p : Nat) : MemM Unit := do
  let c ← deref p
  if c.data.fd ∈ ready then do
    match ← coordRecvMsg c.data.fd with
    | none => procListRemove p
    | some msg => do
        memHandleMsg c.data.fd msg
        serveOob ready p
  else serveOob ready p

/-- The descriptors of the read set. -/
def readSet (procs : List Proc) : List Int :=
  procs.flatMap fun p => if p.oobFd ≠ -1 then [p.fd, p.oobFd] else [p.fd]

/-- `coord_wait_for_msg`. -/
def memWaitForMsg : MemM Unit := do
  let s ← Code.get
  let procs ← orFault (walk s.cells s.size s.head)
  match ← sysSelect (readSet procs) with
  | none => pure ()
  | some [] => pure ()
  | some ready => procForeachSafe (serve ready)

/-! ## Runs -/

/-- What the coordinator does to its list: `coord_wait_for_msg`, and what its other
functions do between two calls of it. -/
inductive ListOp where
  | waitForMsg
  /-- A process is added at an address that `malloc` returns. -/
  | add (p : Nat) (a : Proc)
  /-- The processes that have died are removed. -/
  | filter
  /-- A field of a listed process is assigned. -/
  | assign (p : Nat) (f : Proc → Proc)
  /-- The table of ids changes. -/
  | table (t : PidTable)

def runOp : ListOp → MemM Unit
  | .waitForMsg => memWaitForMsg
  | .add p a => do
      let s ← Code.get
      -- An address in use is not one that `malloc` returns.
      if (s.cells p).isNone then procListAdd p a else Code.halt .running
  | .filter => procListFilter
  | .assign p f => Code.modify fun s => { s with cells := setData s.cells p f }
  | .table t => Code.modify fun s => { s with table := t }

def runOps : List ListOp → MemM Unit
  | [] => pure ()
  | op :: ops => do runOp op; runOps ops

/-- The process a message removes: the first one listed under the real id in it. -/
def named (s : ProcMem) (msg : XndMsg) : Option Nat :=
  if msg.hdr = .exit then
    (findFrom s.cells (·.realPid = msg.realPid) s.size s.head).getD none
  else none

/-- **The condition** on an answer: a message that is received while `p` is being
served removes neither the saved successor nor, on the socket of `p`, `p`
itself. -/
def Benign (s : ProcMem) (c : CoordCall) (r : c.Answer) : Prop :=
  ∀ m ∈ c.received r, ∀ q ∈ named s m.2, s.next ≠ some q ∧
    ¬ (s.p = some q ∧ (s.cells q).map (·.data.fd) = some m.1)

instance (s : ProcMem) (c : CoordCall) (r : c.Answer) : Decidable (Benign s c r) :=
  inferInstanceAs (Decidable (∀ m ∈ c.received r, ∀ q ∈ named s m.2, _))

/-- A run is sound when it has not faulted, and when it has come to an end of the
operations with a list of as many nodes as its size says. -/
def Sound : Prog CoordCall.Answer ProcMem CoordStop Unit → Prop
  | .ret s _ => ∃ l, Rep s l
  | .call _ _ _ => True
  | .halt _ e => e ≠ .fault

/-! ## One turn -/

section Turn
variable {s : ProcMem} {as bs : List (Nat × Proc)} {p : Nat} {a : Proc}

theorem safe_coordExit {ok : ProcMem → (c : CoordCall) → c.Answer → Prop} {α : Type}
    {l : List (Nat × Proc)} (hr : Rep s l) {status : CoordStop} (hs : status ≠ .fault)
    {fin : ProcMem → α → Prop} : Safe ok (coordExit status) s fin :=
  (safe_procListDestroy hr).bind fun _ _ _ => Safe.halt hs

variable {ok : ProcMem → (c : CoordCall) → c.Answer → Prop} {l : List (Nat × Proc)}

/-- A reply leaves the memory alone. -/
theorem safe_reply {fd : Int} {msg : XndMsg} :
    Safe ok (do xndAssert .replySent ((← coordSendMsg fd msg) = true)) s fun s' _ => s' = s := by
  refine Safe.bind (M := fun s' _ => s' = s) (Safe.call fun _ _ => rfl) ?_
  rintro s _ rfl
  exact Safe.xndAssert fun _ => rfl

theorem safe_memSendVirtToReal (hr : Rep s l) (fd : Int) (msg : XndMsg) :
    Safe ok (memSendVirtToReal fd msg) s fun s' _ => s' = s := by
  refine Safe.get_bind (Safe.bind (M := fun s' _ => s' = s) (Safe.ite (fun _ => .pure rfl) fun _ =>
    safe_procListVirtToReal hr _) ?_)
  rintro s real rfl
  exact safe_reply

theorem safe_memSendRealToVirt (hr : Rep s l) (fd : Int) (msg : XndMsg) :
    Safe ok (memSendRealToVirt fd msg) s fun s' _ => s' = s := by
  refine Safe.get_bind (Safe.bind (M := fun s' _ => s' = s) (Safe.call fun _ _ => rfl) ?_)
  rintro s i rfl
  refine Safe.bind (M := fun s' _ => s' = s) (Safe.ite (fun _ => .pure rfl) fun _ =>
    safe_procListRealToVirt hr _) ?_
  rintro s virt rfl
  exact safe_reply

/-- What a list is after the process `q` has been removed, if there was one. -/
def Removed (q : Option Nat) (l l' : List (Nat × Proc)) : Prop :=
  match q with
  | none => l' = l
  | some q => ∃ xs a ys, l = xs ++ (q, a) :: ys ∧ l' = xs ++ ys

/-- **A message removes the process it names, and nothing else changes.** -/
theorem safe_memHandleMsg (hr : Rep s l) (fd : Int) (msg : XndMsg) :
    Safe ok (memHandleMsg fd msg) s fun s' _ =>
      ∃ l', Removed (named s msg) l l' ∧ Rep s' l' ∧ SameLocals s s' := by
  have stay : msg.hdr ≠ .exit → ∀ s', s' = s →
      ∃ l', Removed (named s msg) l l' ∧ Rep s' l' ∧ SameLocals s s' := by
    rintro hne _ rfl
    exact ⟨l, by simp [named, hne, Removed], hr, rfl, rfl⟩
  unfold memHandleMsg
  split
  case h_1 hexit =>
    obtain ⟨last, hs⟩ := hr.cells.seg
    have hnamed : named s msg = (l.find? fun n => decide (n.2.realPid = msg.realPid)).map
        Prod.fst := by
      rw [named, if_pos hexit, findFrom_eq hs (Nat.le_of_eq hr.size.symm)]
      rfl
    refine Safe.bind (Safe.get_bind (safe_procListFind hr)) ?_
    rintro s' _ ⟨rfl, rfl⟩
    rw [hnamed]
    cases hf : l.find? fun n => decide (n.2.realPid = msg.realPid) with
    | none => exact Safe.pure ⟨l, rfl, hr, rfl, rfl⟩
    | some n =>
        obtain ⟨xs, ys, rfl⟩ := exists_split_of_find hf
        exact (safe_procListRemove hr).mono fun s' _ h =>
          ⟨xs ++ ys, ⟨xs, n.2, ys, rfl, rfl⟩, h.1, h.2⟩
  case h_2 hv => exact (safe_memSendVirtToReal hr fd msg).mono fun s' _ => stay (by simp [hv]) s'
  case h_3 hv => exact (safe_memSendRealToVirt hr fd msg).mono fun s' _ => stay (by simp [hv]) s'
  case h_4 => exact safe_coordExit hr (by decide)

/-- What a removal makes of the stretch from `p` on: the nodes after `p` keep their
first one when it is not the one removed. -/
theorem Removed.split {q : Option Nat} {l' : List (Nat × Proc)}
    (h : Removed q (as ++ (p, a) :: bs) l') (hnext : ∀ r, q = some r → front bs ≠ some r) :
    ∃ as' bs', front bs' = front bs ∧ bs'.length ≤ bs.length ∧
      (l' = as' ++ (p, a) :: bs' ∨ q = some p ∧ l' = as' ++ bs') := by
  cases q with
  | none => exact ⟨as, bs, rfl, Nat.le_refl _, .inl h⟩
  | some q =>
      obtain ⟨xs, b, ys, hl, rfl⟩ := h
      have hne : front bs ≠ some q := hnext q rfl
      rcases List.append_eq_append_iff.mp hl with ⟨zs, rfl, hzs⟩ | ⟨zs, rfl, hzs⟩
      · cases zs with
        | nil =>
            obtain ⟨he, rfl⟩ := List.cons.inj hzs
            obtain ⟨rfl, -⟩ := Prod.mk.inj he
            exact ⟨as, bs, rfl, Nat.le_refl _, .inr ⟨rfl, by simp⟩⟩
        | cons z zs =>
            obtain ⟨rfl, rfl⟩ := List.cons.inj hzs
            refine ⟨as, zs ++ ys, ?_, by simp, .inl (by simp)⟩
            cases zs with
            | nil => exact absurd rfl hne
            | cons z zs => rfl
      · cases zs with
        | nil =>
            obtain ⟨he, rfl⟩ := List.cons.inj hzs
            obtain ⟨rfl, -⟩ := Prod.mk.inj he
            exact ⟨xs, ys, rfl, Nat.le_refl _, .inr ⟨rfl, rfl⟩⟩
        | cons z zs =>
            obtain ⟨rfl, rfl⟩ := List.cons.inj hzs
            exact ⟨xs ++ zs, bs, rfl, Nat.le_refl _, .inl (by simp)⟩

/-- Where a traversal stands at the end of a turn: what is still to come begins at the
saved successor, and is no longer than it was. -/
def Ahead (n : Nat) (s : ProcMem) : Prop :=
  ∃ as bs, Rep s (as ++ bs) ∧ s.next = front bs ∧ bs.length ≤ n

/-- The turn of the process at `p` has come. -/
structure AtTurn (s : ProcMem) (p : Nat) (a : Proc) (n : Nat) : Prop where
  rep : ∃ as bs, Rep s (as ++ (p, a) :: bs) ∧ s.next = front bs ∧ bs.length ≤ n
  p : s.p = some p

theorem AtTurn.ahead {n : Nat} (h : AtTurn s p a n) : Ahead n s := by
  obtain ⟨as, bs, hr, hn, hlen⟩ := h.rep
  exact ⟨as ++ [(p, a)], bs, by simpa using hr, hn, hlen⟩

theorem safe_deref_turn {n : Nat} (h : AtTurn s p a n) :
    Safe ok (deref p) s fun s' c => s' = s ∧ c.data = a ∧ s.cells p = some c := by
  obtain ⟨as, bs, hr, -⟩ := h.rep
  exact safe_deref hr

theorem safe_remove_turn {n : Nat} (h : AtTurn s p a n) :
    Safe ok (procListRemove p) s fun s' _ => Ahead n s' := by
  obtain ⟨as, bs, hr, hn, hlen⟩ := h.rep
  exact (safe_procListRemove hr).mono fun s' _ hs' => ⟨as, bs, hs'.1, hs'.2.2.trans hn, hlen⟩

/-- A message that does not name the saved successor leaves the traversal where it was,
and still at `p` when it does not name `p`. -/
theorem safe_handle_turn {n : Nat} (h : AtTurn s p a n) {fd : Int} {msg : XndMsg}
    (hnext : ∀ q, named s msg = some q → s.next ≠ some q) :
    Safe ok (memHandleMsg fd msg) s fun s' _ =>
      Ahead n s' ∧ (named s msg ≠ some p → AtTurn s' p a n) := by
  obtain ⟨as, bs, hr, hn, hlen⟩ := h.rep
  refine (safe_memHandleMsg hr fd msg).mono ?_
  rintro s' _ ⟨l', hrem, hr', hp, hnext'⟩
  obtain ⟨as', bs', hfront, hle, hl'⟩ := hrem.split (hn ▸ hnext)
  have hn' : s'.next = front bs' := by rw [hnext', hn, hfront]
  have hlen' : bs'.length ≤ n := Nat.le_trans hle hlen
  rcases hl' with rfl | ⟨hq, rfl⟩
  · have hat : AtTurn s' p a n := ⟨⟨as', bs', hr', hn', hlen'⟩, hp.trans h.p⟩
    exact ⟨hat.ahead, fun _ => hat⟩
  · exact ⟨⟨as', bs', hr', hn', hlen'⟩, fun hne => absurd hq hne⟩

theorem safe_serveOob {n : Nat} (ready : List Int) (h : AtTurn s p a n) :
    Safe Benign (serveOob ready p) s fun s' _ => Ahead n s' := by
  refine (safe_deref_turn h).bind ?_
  rintro s c ⟨rfl, rfl, -⟩
  refine Safe.ite (fun _ => ?_) fun _ => Safe.pure h.ahead
  refine Safe.bind (M := fun s' r => s' = s ∧ Benign s (.recv c.data.oobFd) r)
    (Safe.call fun r hr => ⟨rfl, hr⟩) ?_
  rintro s' (_ | msg) ⟨rfl, hb⟩
  · exact safe_remove_turn h
  · exact (safe_handle_turn h fun q hq => (hb _ rfl q hq).1).mono fun s' _ hs' => hs'.1

/-- **One turn.** -/
theorem safe_serve {n : Nat} (ready : List Int) (h : AtTurn s p a n) :
    Safe Benign (serve ready p) s fun s' _ => Ahead n s' := by
  refine (safe_deref_turn h).bind ?_
  rintro s c ⟨rfl, rfl, hc⟩
  refine Safe.ite (fun _ => ?_) fun _ => safe_serveOob ready h
  refine Safe.bind (M := fun s' r => s' = s ∧ Benign s (.recv c.data.fd) r)
    (Safe.call fun r hr => ⟨rfl, hr⟩) ?_
  rintro s' (_ | msg) ⟨rfl, hb⟩
  · exact safe_remove_turn h
  · refine (safe_handle_turn h fun q hq => (hb _ rfl q hq).1).bind fun s'' _ hs'' => ?_
    -- The socket is the one of `p`, so the message does not name `p`.
    have hne : named s' msg ≠ some p := fun hq => (hb _ rfl p hq).2 ⟨h.p, by simp [hc]⟩
    exact safe_serveOob ready (hs''.2 hne)

/-- **One call.** -/
theorem safe_memWaitForMsg (hr : Rep s l) :
    Safe Benign memWaitForMsg s fun s' _ => ∃ l', Rep s' l' := by
  obtain ⟨last, hs⟩ := hr.cells.seg
  refine Safe.get_bind (Safe.bind (M := fun s' _ => s' = s)
    (Safe.orFault (walk_eq hs (Nat.le_of_eq hr.size.symm)) rfl) ?_)
  rintro s procs rfl
  refine Safe.bind (M := fun s' _ => s' = s) (Safe.call fun _ _ => rfl) ?_
  rintro s (_ | _ | _) rfl
  · exact Safe.pure ⟨l, hr⟩
  · exact Safe.pure ⟨l, hr⟩
  · refine safe_procForeachSafe (fun s as p a bs hr hp hn => ?_) hr
    exact safe_serve _ ⟨⟨as, bs, hr, hn, Nat.le_refl _⟩, hp⟩

end Turn

/-! ## Runs -/

theorem safe_runOp {s : ProcMem} {l : List (Nat × Proc)} (hr : Rep s l) (op : ListOp) :
    Safe Benign (runOp op) s fun s' _ => ∃ l', Rep s' l' := by
  cases op with
  | waitForMsg => exact safe_memWaitForMsg hr
  | add p a =>
      refine Safe.get_bind (Safe.ite (fun hp => ?_) fun _ => Safe.halt (by decide))
      exact Safe.pure ⟨_, hr.cells.push (Option.isNone_iff_eq_none.mp hp), by simp [hr.size]⟩
  | filter => exact safe_procListFilter hr
  | assign p f => exact Safe.pure ⟨_, hr.cells.setData p f, by simp [hr.size]⟩
  | table t => exact Safe.pure ⟨l, hr.cells, hr.size⟩

theorem safe_runOps {s : ProcMem} {l : List (Nat × Proc)} (hr : Rep s l) (ops : List ListOp) :
    Safe Benign (runOps ops) s fun s' _ => ∃ l', Rep s' l' := by
  induction ops generalizing s l with
  | nil => exact Safe.pure ⟨l, hr⟩
  | cons op ops ih => exact (safe_runOp hr op).bind fun s' _ ⟨l', hr'⟩ => ih hr'

/-- **`coord_wait_for_msg` is memory safe** in every run all of whose messages are
benign: whatever is ready, whatever is received, and whatever happens to the list
between two calls, no process is read or removed that is not on the list, and the
size is the number of nodes. -/
theorem waitForMsg_sound (ops : List ListOp) {p : Prog CoordCall.Answer ProcMem CoordStop Unit}
    (h : (World.answering Benign).Reach (runOps ops memInit) () (p, ())) : Sound p := by
  obtain ⟨_, -, hp⟩ := (safe_runOps rep_memInit ops).reach h
  cases p with
  | ret => exact hp
  | call => trivial
  | halt => exact hp

/-- A process with the descriptor `fd`, in the runs below. -/
def procAt (fd oobFd real : Int) : Proc where
  fd := fd
  oobFd := oobFd
  xndPid := 1001
  xndPpid := 1000
  xndPgid := 1001
  virtPid := real
  realPid := real
  virtPpid := 1
  realPpid := 1
  isRootOfTree := false
  state := .running

/-- Three processes are listed; the first one reports the exit of the last one, the
second one its own on the out-of-band socket. -/
def exitOps : List ListOp :=
  [.add 1 (procAt 5 (-1) 101), .add 2 (procAt 6 7 102), .add 3 (procAt 8 (-1) 103), .waitForMsg]

def exitTrace : Trace :=
  [⟨.select [8, 6, 7, 5], some [8, 7, 5]⟩,
    ⟨.recv 8, some { hdr := .exit, realPid := 101 }⟩, ⟨.close 5, ()⟩,
    ⟨.recv 7, some { hdr := .exit, realPid := 102 }⟩, ⟨.close 6, ()⟩, ⟨.close 7, ()⟩]

theorem waitForMsg_sound_exits :
    ∃ p, Prog.after Benign (runOps exitOps memInit) exitTrace = some p ∧ p.state.size = 1 ∧
      Sound p := by
  refine ⟨_, rfl, rfl, waitForMsg_sound exitOps ?_⟩
  exact Prog.reach_of_after (t := exitTrace) rfl

/-- The `XND_EXIT` of `disconnect_from_coord` names its sender on the sender's own
socket: the process is removed, and then its out-of-band descriptor is read. -/
theorem not_waitForMsg_sound :
    ¬ ∀ ops p, (World.answering fun _ _ _ => True).Reach (runOps ops memInit) () (p, ()) →
      Sound p := by
  intro H
  have reach : ∃ s, (World.answering fun _ _ _ => True).Reach
      (runOps [.add 1 (procAt 5 (-1) 101), .waitForMsg] memInit) () (.halt s .fault, ()) :=
    ⟨_, Prog.reach_of_after (t := [⟨.select [5], some [5]⟩,
      ⟨.recv 5, some { hdr := .exit, realPid := 101 }⟩, ⟨.close 5, ()⟩]) rfl⟩
  obtain ⟨s, hs⟩ := reach
  have sound : CoordStop.fault ≠ .fault := H _ _ hs
  exact sound rfl

end Xnd.Coord
