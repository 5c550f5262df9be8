import Mathlib.Data.List.MinMax
import Mathlib.Order.Nat
import Xnd.Coord.Commit

/-!
# Rounds of any size

The coordinator does not limit the number of processes, the manifest does.  The world
of this module answers every call, and as a system would in which all goes well:
`n` processes are restarted, nobody dies, and the first round that is due is run
(`obligingAnswer`).  Code that never halts there returns, so it is enough to follow
the coordinator through it: for every `n` there is a run in which `n` processes are
told to resume (`exists_resumed`).  With one process more than the manifest has slots
this is the run in which nothing is committed.
-/
namespace Xnd.Coord
open Code

/-- The message of the process that is restarted after `k` of `n` others. -/
def peerMsg (n k : Nat) : XndMsg where
  hdr := .connectRestart
  realPid := 2000 + k
  realPpid := 50
  virtPid := 2 + k
  virtPpid := 1
  xndPid := 1001 + k
  xndPpid := 1000
  xndPgid := 1001
  xndUuid := 7
  epoch := 1
  numPeers := n
  ckptInterval := 60

/-- A descriptor that no listed process has. -/
def freshFd (s : CoordInfo) : Int := (s.procs.map (·.2.fd)).foldr max 4 + 1

/-- The answers of a system in which `n` processes are restarted and a round is due. -/
def obligingAnswer (n : Nat) (s : CoordInfo) (l : Ledger) : (c : CoordCall) → c.Answer
  | .select read => if l.started ≠ [] ∨ s.procs.length < n then some read else none
  | .selectWrite set => some set
  | .accept => some (freshFd s)
  | .recv _ => some (if s.procs.length < n then peerMsg n s.procs.length
      else if l.started = [] then { hdr := .ckptReady } else { hdr := .ckptDone })
  | .send _ _ | .ckptdirCreate _ _ | .ckptdirUnlink _ _ | .writeManifest _ _ _ => true
  | .close _ | .kill _ _ | .usleep | .sigprocmask _ => ()
  | .probe _ | .compressedCkptExists _ _ => false
  | .getppid => (50 : Int)
  | .stale => (0 : Int)
  | .elapsed => (60 : Int)
  | .iteration => (0 : Nat)
  | .ckptdirOpen _ _ => some (90 : Int)
  | .createManifest _ => some (91 : Int)
  | .ckptfileExists _ id => decide (id ∈ l.started.map Prod.snd)

def obligingWorld (n : Nat) : World CoordCall.Answer CoordInfo Ledger where
  answer s c l r l' := r = obligingAnswer n s l c ∧ l' = l.record s c r
  moves _ _ := False

variable {n : Nat}

theorem obligingWorld_total (s : CoordInfo) (c : CoordCall) (l : Ledger) :
    ∃ r l', (obligingWorld n).answer s c l r l' := ⟨_, _, rfl, rfl⟩

theorem freshFd_ne (s : CoordInfo) : ∀ m ∈ s.procs, m.2.fd ≠ freshFd s := by
  intro m hm
  have hle : m.2.fd ≤ (s.procs.map (·.2.fd)).foldr max 4 :=
    List.le_max_of_le' 4 (List.mem_map_of_mem (f := fun m : Nat × Proc => m.2.fd) hm) le_rfl
  unfold freshFd
  omega

/-- These answers are possible. -/
theorem obligingAnswer_allowed (s : CoordInfo) (l : Ledger) (c : CoordCall) :
    ledgerAllows s l c (obligingAnswer n s l c) := by
  cases c with
  | accept => exact freshFd_ne s
  | ckptfileExists _ id =>
      cases hid : decide (id ∈ l.started.map Prod.snd) with
      | false => simp only [obligingAnswer, hid, ledgerAllows]
      | true =>
          simp only [obligingAnswer, hid, ledgerAllows]
          exact of_decide_eq_true hid
  | _ => trivial

theorem ledgerWorld_of_obliging (s : CoordInfo) (c : CoordCall) (l : Ledger) (r : c.Answer)
    (l' : Ledger) (h : (obligingWorld n).answer s c l r l') : ledgerWorld.answer s c l r l' := by
  obtain ⟨rfl, rfl⟩ := h
  exact ⟨obligingAnswer_allowed s l c, rfl⟩

/-- The code runs to its end. -/
abbrev Obliged (n : Nat) {α : Type} (m : InfoM α) (s : CoordInfo) (l : Ledger)
    (fin : CoordInfo → α → Ledger → Prop) : Prop :=
  Wp (obligingWorld n) (fun _ _ => True) (fun _ _ _ => False) m s l fin

theorem obliged_call {c : CoordCall} {s : CoordInfo} {l : Ledger}
    {fin : CoordInfo → c.Answer → Ledger → Prop}
    (h : fin s (obligingAnswer n s l c) (l.record s c (obligingAnswer n s l c))) :
    Obliged n (Code.call c) s l fin := by
  refine Wp.call (fun l' => l' = l) (fun _ _ _ hm => hm.elim) rfl (fun _ _ => trivial) ?_
  rintro _ r _ rfl ⟨rfl, rfl⟩
  exact h

/-- What the ledger shows in any world, it shows here. -/
theorem obliged_and_ledger {α : Type} {m : InfoM α} {s : CoordInfo} {l : Ledger}
    {fin fin' : CoordInfo → α → Ledger → Prop} (h : Obliged n m s l fin) (h' : LedgerWp m s l fin') :
    Obliged n m s l fun s a l => fin s a l ∧ fin' s a l :=
  (Prog.Holds.and h (h'.restrict (fun s c l r l' => ledgerWorld_of_obliging s c l r l')
    fun _ _ hm => hm)).weaken (fun _ _ _ => trivial) fun _ _ _ h => h.1

/-- A run comes to a point where `n` processes have been started and somebody resumes. -/
abbrev Resumes (n : Nat) {α : Type} (m : InfoM α) (s : CoordInfo) (l : Ledger) : Prop :=
  Leads (obligingWorld n) m s l fun l => l.resumed = true ∧ l.peers = n

theorem Resumes.bind {α β : Type} {m : InfoM α} {f : α → InfoM β} {s : CoordInfo} {l : Ledger}
    {M : CoordInfo → α → Ledger → Prop} (hm : Obliged n m s l M)
    (hf : ∀ s a l, M s a l → Resumes n (f a) s l) : Resumes n (m >>= f) s l :=
  Leads.bind obligingWorld_total hm hf

/-! ## The peers -/

/-- The first `k` of `n` processes are listed, all in the state `st`. -/
structure Peers (n k : Nat) (st : ProcState) (s : CoordInfo) : Prop where
  ok : ListOk s
  length : s.procs.length = k
  state : ∀ m ∈ s.procs, m.2.state = st
  below : ∀ m ∈ s.procs, m.2.xndPid < 1001 + k
  ids : (s.procs.map (·.2.xndPid)).Nodup
  known : 0 < k → s.numPeers = n ∧ s.ckptInterval = 60

/-- Changes of the processes that keep descriptors and ids. -/
theorem Peers.map {k : Nat} {st st' : ProcState} {s : CoordInfo} (h : Peers n k st s)
    {g : Nat × Proc → Nat × Proc}
    (hg : ∀ m, (g m).1 = m.1 ∧ (g m).2.fd = m.2.fd ∧ (g m).2.xndPid = m.2.xndPid)
    (hst : ∀ m, m.2.state = st → (g m).2.state = st') :
    Peers n k st' { s with procs := s.procs.map g } := by
  have hids : (s.procs.map g).map (·.2.xndPid) = s.procs.map (·.2.xndPid) := by
    rw [List.map_map]
    exact List.map_congr_left fun m _ => (hg m).2.2
  refine ⟨h.ok.mapProcs fun m => ⟨(hg m).1, (hg m).2.1⟩, ?_, ?_, ?_, hids ▸ h.ids, h.known⟩
  · exact (List.length_map g).trans h.length
  · intro m hm
    obtain ⟨m, hmem, rfl⟩ := List.mem_map.mp hm
    exact hst m (h.state m hmem)
  · intro m hm
    obtain ⟨m, hmem, rfl⟩ := List.mem_map.mp hm
    rw [(hg m).2.2]
    exact h.below m hmem

/-- A node whose process is in another state. -/
def inState (st : ProcState) (m : Nat × Proc) : Nat × Proc := (m.1, { m.2 with state := st })

theorem Peers.inState {k : Nat} {st : ProcState} {s : CoordInfo} (h : Peers n k st s)
    (st' : ProcState) : Peers n k st' { s with procs := s.procs.map (inState st') } :=
  h.map (fun _ => ⟨rfl, rfl, rfl⟩) fun _ _ => rfl

/-- After the turns of `as`. -/
theorem ListOk.setState {s : CoordInfo} (h : ListOk s) {as rest : List (Nat × Proc)} {p : Nat}
    {a : Proc} {st : ProcState} (hs : s.procs = as.map (inState st) ++ (p, a) :: rest) :
    s.setProc p (fun a => { a with state := st }) =
      { s with procs := (as ++ [(p, a)]).map (inState st) ++ rest } := by
  have heq := h.setProc_eq hs (f := fun a => { a with state := st })
  rw [List.map_append, List.append_assoc]
  exact congrArg (fun procs => { s with procs := procs }) heq

/-! ## Registration -/

theorem obliged_coordConnectWithProcessOnRestart {k : Nat} {s : CoordInfo} {l : Ledger} {fd : Int}
    (h : Peers n k .restartInProgress s) (hfd : ∀ m ∈ s.procs, m.2.fd ≠ fd)
    (hknown : s.numPeers = n ∧ s.ckptInterval = 60) :
    Obliged n (coordConnectWithProcessOnRestart fd (peerMsg n k)) s l fun s' _ l' =>
      Peers n (k + 1) .restartInProgress s' ∧ l' = l := by
  refine Wp.modify_bind ?_
  refine Wp.bind (M := fun s' _ l' => s'.procs = s.procs ∧ s'.brk = s.brk ∧
    (s'.numPeers = s.numPeers ∧ s'.ckptInterval = s.ckptInterval) ∧ l' = l) ?_ ?_
  · refine Wp.get_bind (Wp.bind (M := fun s' (r : Bool) l' => (s'.procs = s.procs ∧
      s'.brk = s.brk ∧ (s'.numPeers = s.numPeers ∧ s'.ckptInterval = s.ckptInterval) ∧ l' = l) ∧
      r = true) (obliged_call ⟨⟨rfl, rfl, ⟨rfl, rfl⟩, rfl⟩, rfl⟩) ?_)
    rintro s' _ l' ⟨hs', rfl⟩
    exact Wp.pure hs'
  rintro s' _ l ⟨hprocs, hbrk, hkept, rfl⟩
  refine Wp.modify_bind (Wp.modify ⟨⟨?_, ?_, ?_, ?_, ?_, fun _ => ?_⟩, rfl⟩)
  · refine ListOk.push (h.ok.congr hprocs hbrk) ?_
    show ∀ m ∈ s'.procs, m.2.fd ≠ fd
    rw [hprocs]
    exact hfd
  · show s'.procs.length + 1 = _
    rw [hprocs, h.length]
  · refine List.forall_mem_cons.mpr ⟨rfl, ?_⟩
    rw [hprocs]
    exact h.state
  · refine List.forall_mem_cons.mpr ⟨by simp [peerMsg], ?_⟩
    rw [hprocs]
    intro m hm
    have := h.below m hm
    omega
  · show (_ :: s'.procs.map (·.2.xndPid)).Nodup
    rw [hprocs]
    refine List.nodup_cons.mpr ⟨fun hm => ?_, h.ids⟩
    obtain ⟨m, hmem, he⟩ := List.mem_map.mp hm
    have := h.below m hmem
    simp only [peerMsg] at he
    omega
  · exact ⟨hkept.1.trans hknown.1, hkept.2.trans hknown.2⟩

theorem obliged_coordWaitForConnection {k : Nat} {s : CoordInfo} {l : Ledger}
    (h : Peers n k .restartInProgress s) (hk : k < n) (fuel : Nat) :
    Obliged n (coordWaitForConnection fuel) s l fun s' _ l' =>
      Peers n (k + 1) .restartInProgress s' ∧ l' = l := by
  obtain rfl := h.length
  refine Wp.get_bind (Wp.bind (M := fun s' r l' => s' = s ∧ r = some [s.listenFd] ∧ l' = l)
    (obliged_call ⟨rfl, if_pos (.inr hk), rfl⟩) ?_)
  rintro s _ l ⟨rfl, rfl, rfl⟩
  refine Wp.bind (M := fun s' r l' => s' = s ∧ r = some (freshFd s) ∧ l' = l)
    (obliged_call ⟨rfl, rfl, rfl⟩) ?_
  rintro s _ l ⟨rfl, rfl, rfl⟩
  refine Wp.bind (M := fun s' r l' => s' = s ∧ r = some (peerMsg n s.procs.length) ∧ l' = l)
    (obliged_call ⟨rfl, by simp [obligingAnswer, hk], by simp [obligingAnswer, hk, Ledger.record,
      peerMsg]⟩) ?_
  rintro s _ l ⟨rfl, rfl, rfl⟩
  refine Wp.modify_bind ?_
  -- The first process brings the fields that the others find.
  by_cases hz : s.procs.length = 0
  · rw [if_pos hz]
    refine obliged_coordConnectWithProcessOnRestart ?_ (freshFd_ne s) ⟨rfl, rfl⟩
    exact ⟨h.ok.congr rfl rfl, rfl, h.state, h.below, h.ids, fun _ => ⟨rfl, rfl⟩⟩
  · rw [if_neg hz]
    exact obliged_coordConnectWithProcessOnRestart h (freshFd_ne s) (h.known (by omega))

/-- When all are listed, there is nobody to connect. -/
theorem obliged_coordWaitForConnection_none {st : ProcState} {s : CoordInfo} {l : Ledger}
    (h : Peers n n st s) (hl : l.started = []) (fuel : Nat) :
    Obliged n (coordWaitForConnection fuel) s l fun s' _ l' => s' = s ∧ l' = l := by
  have hnone : obligingAnswer n s l (.select [s.listenFd]) = none := if_neg (by
    simp [hl, h.length])
  refine Wp.get_bind (Wp.bind (M := fun s' r l' => s' = s ∧ r = none ∧ l' = l)
    (obliged_call ⟨rfl, hnone, by rw [hnone]; rfl⟩) ?_)
  rintro s _ l ⟨rfl, rfl, rfl⟩
  exact Wp.pure ⟨rfl, rfl⟩

/-- The first process of a restart. -/
theorem obliged_awaitProcess {s : CoordInfo} {l : Ledger} (h : Peers n 0 .restartInProgress s)
    (hn : 0 < n) (bailed : CoordError) (ppid : Int) (fuel : Nat) :
    Obliged n (awaitProcess bailed ppid (fuel + 1)) s l fun s' _ l' =>
      Peers n 1 .restartInProgress s' ∧ l' = l := by
  refine (obliged_coordWaitForConnection h hn fuel).bind ?_
  rintro s _ l ⟨h, rfl⟩
  refine Wp.get_bind (Wp.ite (fun _ => Wp.pure ⟨h, rfl⟩) fun hz => ?_)
  exact absurd h.length (by omega)

/-- The other processes. -/
theorem obliged_awaitPeers {k : Nat} {s : CoordInfo} {l : Ledger} (ppid : Int) {fuel : Nat}
    (h : Peers n k .restartInProgress s) (hk : 0 < k) (hkn : k ≤ n) (hfuel : n - k < fuel) :
    Obliged n (awaitPeers ppid fuel) s l fun s' _ l' =>
      Peers n n .restartInProgress s' ∧ l' = l := by
  induction fuel generalizing k s l with
  | zero => omega
  | succ fuel ih =>
      refine Wp.get_bind (Wp.ite (fun hlt => ?_) fun hge => Wp.pure ⟨?_, rfl⟩)
      · rw [h.length, (h.known hk).1] at hlt
        refine (obliged_coordWaitForConnection h hlt fuel).bind ?_
        rintro s _ l ⟨h, rfl⟩
        refine Wp.get_bind (Wp.ite (fun he => Wp.pure ⟨?_, rfl⟩) fun hne => ?_)
        · rw [h.length, (h.known (by omega)).1] at he
          exact he ▸ h
        · refine Wp.bind (M := fun s' r l' => s' = s ∧ r = false ∧ l' = l)
            (obliged_call ⟨rfl, rfl, rfl⟩) ?_
          rintro s _ l ⟨rfl, rfl, rfl⟩
          rw [h.length, (h.known (by omega)).1] at hne
          exact ih h (by omega) (by omega) (by omega)
      · rw [h.length, (h.known hk).1] at hge
        obtain rfl : k = n := by omega
        exact h

/-! ## Passes over the list -/

/-- A sweep finds everybody alive. -/
theorem obliged_coordCollectivePrepare {st : ProcState} {s : CoordInfo} {l : Ledger}
    (h : Peers n n st s) {type : CommType} (htype : type = .reduce → l.started ≠ []) (fuel : Nat) :
    Obliged n (coordCollectivePrepare type (fuel + 1)) s l fun s' total l' =>
      s' = s ∧ total = n ∧ l' = l := by
  have sweep : Obliged n (seqForeachSafe (0, []) prepareTurn) s l fun s' m l' =>
      s' = s ∧ m = (n, s.procs.map (·.2.fd)) ∧ l' = l := by
    refine Wp.mono (wp_seqForeachSafe (J := fun rest m s' l' => s' = s ∧ l' = l ∧
      ∃ as, s.procs = as ++ rest ∧ m = (as.length, as.map (·.2.fd))) ?_ ?_
      ⟨rfl, rfl, [], rfl, rfl⟩) ?_
    · rintro p a rest m _ _ ⟨rfl, rfl, as, hs, -⟩
      exact h.ok.next_eq hs
    · rintro p a rest m _ _ ⟨rfl, rfl, as, hs, rfl⟩
      refine (h.ok.wp_listProc hs).bind ?_
      rintro s a l ⟨rfl, rfl, rfl⟩
      refine Wp.bind (M := fun s' r l' => s' = s ∧ r = false ∧ l' = l)
        (obliged_call ⟨rfl, rfl, rfl⟩) ?_
      rintro s _ l ⟨rfl, rfl, rfl⟩
      exact Wp.pure ⟨rfl, rfl, as ++ [(p, a)], by simp [hs], by simp⟩
    · rintro s m l ⟨rfl, rfl, as, hs, rfl⟩
      rw [List.append_nil] at hs
      exact ⟨rfl, by rw [← hs, h.length], rfl⟩
  refine sweep.bind ?_
  rintro s _ l ⟨rfl, rfl, rfl⟩
  refine Wp.bind (M := fun s' r l' => s' = s ∧ r = some (s.procs.map (·.2.fd)) ∧ l' = l) ?_ ?_
  · cases type with
    | broadcast => exact obliged_call ⟨rfl, rfl, rfl⟩
    | reduce => exact obliged_call ⟨rfl, if_pos (.inl (htype rfl)), rfl⟩
  rintro s _ l ⟨rfl, rfl, rfl⟩
  refine Wp.ite (fun _ => Wp.pure ⟨rfl, rfl, rfl⟩) fun hne => absurd ?_ hne
  rw [List.length_map, h.length]

/-- A barrier whose message leaves `Q`. -/
theorem obliged_releaseLoop {type : BarrierType} {Q : Ledger → Prop} {s : CoordInfo} {l : Ledger}
    {rest : List (Nat × Proc)} (as : List (Nat × Proc)) (h : ListOk s)
    (hs : s.procs = as.map (inState type.next) ++ rest)
    (hst : ∀ m ∈ rest, m.2.state = type.expected)
    (hQ : ∀ s a l, Q l → Q (l.record s (.send a.fd (releaseMsg type s.numPeers a)) true)) (hl : Q l) :
    Obliged n (releaseLoop type (rest.map Prod.fst)) s l fun s' sent l' =>
      s' = { s with procs := (as ++ rest).map (inState type.next) } ∧ sent = true ∧ Q l' := by
  induction rest generalizing as s l with
  | nil => exact Wp.pure ⟨by rw [List.append_nil] at hs ⊢; rw [← hs], rfl, hl⟩
  | cons m rest ih =>
      obtain ⟨p, a⟩ := m
      refine (h.wp_listProc hs).bind ?_
      rintro s a l ⟨rfl, rfl, rfl⟩
      refine Wp.bind (M := fun s' _ l' => s' = s ∧ l' = l) (Wp.ite (fun _ => Wp.pure ⟨rfl, rfl⟩)
        fun hne => absurd (hst (p, a) (by simp)) hne) ?_
      rintro s _ l ⟨rfl, rfl⟩
      refine Wp.get_bind (Wp.bind (M := fun s' (r : Bool) l' => s' = s ∧ r = true ∧
        l' = l.record s (.send a.fd (releaseMsg type s.numPeers a)) true)
        (obliged_call ⟨rfl, rfl, rfl⟩) ?_)
      rintro s _ _ ⟨rfl, rfl, rfl⟩
      refine Wp.modify_bind ?_
      rw [h.setState hs]
      have hok : ListOk { s with procs := (as ++ [(p, a)]).map (inState type.next) ++ rest } := by
        rw [← h.setState hs]
        exact h.setProc fun _ => rfl
      refine (ih (as ++ [(p, a)]) hok rfl (fun m hm => hst m (by simp [hm])) (hQ _ _ _ hl)).mono ?_
      · rintro _ _ l' ⟨rfl, rfl, hl'⟩
        exact ⟨by simp, rfl, hl'⟩

theorem obliged_coordReleaseBarrier {type : BarrierType} {Q : Ledger → Prop} {s : CoordInfo}
    {l : Ledger} (h : Peers n n type.expected s)
    (hQ : ∀ s a l, Q l → Q (l.record s (.send a.fd (releaseMsg type s.numPeers a)) true)) (hl : Q l) :
    Obliged n (coordReleaseBarrier type) s l fun s' sent l' =>
      s' = { s with procs := s.procs.map (inState type.next) } ∧ sent = true ∧ Q l' :=
  Wp.get_bind (obliged_releaseLoop [] h.ok rfl h.state hQ hl)

/-! ## The round -/

/-- A pass of `coord_suspend_processes` over processes that are all in the state `st`:
each goes to `st'` and counts `c`. -/
theorem obliged_suspendPass {st : ProcState} (st' : ProcState) (c : Nat) {s : CoordInfo}
    {l : Ledger} (h : Peers n n st s)
    (hreq : ∀ p a s l, a.state = st → s.procs.length = n → l.started = [] →
      Obliged n (requestReady p a) s l fun s' r l' =>
        s' = s.setProc p (fun a => { a with state := st' }) ∧ r = c ∧ l' = l)
    (hl : l.started = []) :
    Obliged n (seqForeachSafe (0, 0) suspendTurn) s l fun s' m l' =>
      s' = { s with procs := s.procs.map (inState st') } ∧ m = (n, n * c) ∧ l' = l := by
  have keep : ∀ as rest : List (Nat × Proc), s.procs = as ++ rest →
      ListOk { s with procs := as.map (inState st') ++ rest } := by
    intro as rest hs
    refine ⟨?_, ?_, ?_⟩
    · have := h.ok.addresses
      rw [hs] at this
      simpa [inState, Function.comp_def] using this
    · have := h.ok.below
      rw [hs] at this
      intro m hm
      rcases List.mem_append.mp hm with hm | hm
      · obtain ⟨m, hmem, rfl⟩ := List.mem_map.mp hm
        exact this m (List.mem_append_left _ hmem)
      · exact this m (List.mem_append_right _ hm)
    · have := h.ok.fds
      rw [hs] at this
      simpa [inState, Function.comp_def] using this
  refine Wp.mono (wp_seqForeachSafe (J := fun rest m s' l' => l' = l ∧ ∃ as, s.procs = as ++ rest ∧
    s' = { s with procs := as.map (inState st') ++ rest } ∧ m = (as.length, as.length * c)) ?_ ?_
    ⟨rfl, [], rfl, rfl, by simp⟩) ?_
  · rintro p a rest m _ _ ⟨rfl, as, hs, rfl, -⟩
    exact (keep as _ hs).next_eq rfl
  · rintro p a rest m _ _ ⟨rfl, as, hs, rfl, rfl⟩
    have hok := keep as _ hs
    have hlen : (as.map (inState st') ++ (p, a) :: rest).length = n := by
      rw [← h.length, hs]
      simp
    refine (hok.wp_listProc rfl).bind ?_
    rintro _ a l ⟨rfl, rfl, rfl⟩
    refine (hreq p a _ l (h.state (p, a) (by simp [hs])) hlen hl).bind ?_
    rintro _ _ l ⟨rfl, rfl, rfl⟩
    refine Wp.bind (M := fun s' r l' => s' = _ ∧ r = false ∧ l' = l)
      (obliged_call ⟨rfl, rfl, rfl⟩) ?_
    rintro _ _ l ⟨rfl, rfl, rfl⟩
    refine Wp.pure ⟨rfl, as ++ [(p, a)], by simp [hs], ?_, by simp [Nat.succ_mul]⟩
    rw [hok.setState rfl]
  · rintro s' m l' ⟨rfl, as, hs, rfl, rfl⟩
    rw [List.append_nil] at hs
    refine ⟨by rw [List.append_nil, hs], ?_, rfl⟩
    rw [← h.length, hs]

/-- Two passes suspend everybody. -/
theorem obliged_coordSuspendProcesses {s : CoordInfo} {l : Ledger} (h : Peers n n .running s)
    (hn : 0 < n) (hl : l.started = []) (fuel : Nat) :
    Obliged n (coordSuspendProcesses (fuel + 2)) s l fun s' _ l' =>
      Peers n n .readyForCkpt s' ∧ l' = l := by
  refine (obliged_suspendPass .recvCkptRequest 0 h ?_ hl).bind ?_
  · intro p a s l ha hlen hl
    unfold requestReady
    rw [ha]
    refine Wp.bind (M := fun s' r l' => s' = s ∧ r = true ∧ l' = l)
      (obliged_call ⟨rfl, rfl, rfl⟩) ?_
    rintro s _ l ⟨rfl, rfl, rfl⟩
    exact Wp.modify_bind (Wp.pure ⟨rfl, rfl, rfl⟩)
  rintro _ _ l ⟨rfl, rfl, rfl⟩
  have h₁ := h.inState .recvCkptRequest
  refine Wp.ite (fun he => absurd he (by omega)) fun _ => ?_
  refine Wp.bind (M := fun s' _ l' => s' = _ ∧ l' = l) (obliged_call ⟨rfl, rfl⟩) ?_
  rintro _ _ l ⟨rfl, rfl⟩
  refine (obliged_suspendPass .readyForCkpt 1 h₁ ?_ hl).bind ?_
  · intro p a s l ha hlen hl
    have hready : obligingAnswer n s l (.recv a.fd) = some { hdr := .ckptReady } := by
      show some (if s.procs.length < n then _ else if l.started = [] then _ else _) = _
      rw [if_neg (by omega), if_pos hl]
    unfold requestReady
    rw [ha]
    refine Wp.bind (M := fun s' r l' => s' = s ∧ r = some { hdr := .ckptReady } ∧ l' = l)
      (obliged_call ⟨rfl, hready, by rw [hready]; rfl⟩) ?_
    rintro s _ l ⟨rfl, rfl, rfl⟩
    exact Wp.modify_bind (Wp.pure ⟨rfl, rfl, rfl⟩)
  rintro _ _ l ⟨rfl, rfl, rfl⟩
  exact Wp.ite (fun _ => Wp.pure ⟨h₁.inState _, rfl⟩) fun hne => absurd (by omega) hne

/-- Everybody completes. -/
theorem obliged_coordWaitForCkptCompletions {s : CoordInfo} {l : Ledger}
    (h : Peers n n .ckptInProgress s) (hpeers : s.numPeers = n) (hl : l.started ≠ []) (fuel : Nat) :
    Obliged n (coordWaitForCkptCompletions (fuel + 1)) s l fun s' _ l' =>
      Peers n n .ckptComplete s' ∧ l' = { l with done := l'.done } := by
  refine Wp.get_bind ((obliged_coordCollectivePrepare h (fun _ => hl) fuel).bind ?_)
  rintro s _ l ⟨rfl, rfl, rfl⟩
  refine Wp.ite (fun hne => absurd hpeers.symm hne) fun _ => Wp.get_bind ?_
  refine (wp_seqForeach (J := fun rest total s' l' => l' = { l with done := l'.done } ∧
    ∃ as, s.procs = as ++ rest ∧ total = as.length ∧
      s' = { s with procs := as.map (inState .ckptComplete) ++ rest } ∧ ListOk s') ?_ ?_
    ⟨rfl, [], rfl, rfl, rfl, h.ok⟩).bind ?_
  · rintro p a rest total _ l' ⟨-, as, hs, -, rfl, hok⟩
    exact hok.proc_eq rfl
  · rintro p a rest total _ l' ⟨hl', as, hs, rfl, rfl, hok⟩
    refine Wp.bind (M := fun s' _ l'' => s' = _ ∧ l'' = l') (Wp.ite (fun _ => Wp.pure ⟨rfl, rfl⟩)
      fun hne => absurd (h.state (p, a) (by simp [hs])) hne) ?_
    rintro _ _ l' ⟨rfl, rfl⟩
    have hlen : (as.map (inState .ckptComplete) ++ (p, a) :: rest).length = s.procs.length := by
      rw [hs]
      simp
    have hdone : ∀ s' : CoordInfo, s'.procs.length = s.procs.length →
        obligingAnswer s.procs.length s' l' (.recv a.fd) = some { hdr := .ckptDone } := by
      intro s' hs'
      have : l'.started ≠ [] := by rw [hl']; exact hl
      show some (if s'.procs.length < _ then _ else if l'.started = [] then _ else _) = _
      rw [if_neg (by omega), if_neg this]
    refine Wp.bind (M := fun s' r l'' => s' = _ ∧ r = some { hdr := .ckptDone } ∧
      l'' = { l with done := l''.done }) (obliged_call ⟨rfl, ?_, ?_⟩) ?_
    · rw [← h.length]
      exact hdone _ hlen
    · rw [← h.length, hdone _ hlen, Ledger.record]
      split
      · rw [hl']
      · exact hl'
    rintro _ _ l'' ⟨rfl, rfl, hl''⟩
    refine Wp.modify_bind (Wp.pure ⟨hl'', as ++ [(p, a)], by simp [hs], by simp, ?_, ?_⟩)
    · rw [hok.setState rfl]
    · exact hok.setProc fun _ => rfl
  · rintro _ total l' ⟨hl', as, hs, rfl, rfl, hok⟩
    rw [List.append_nil] at hs
    refine Wp.ite (fun hne => absurd ?_ hne) fun _ => Wp.pure ⟨?_, hl'⟩
    · rw [← hs, h.length, hpeers]
    · rw [List.append_nil, ← hs]
      exact h.inState _

/-- The files of a range. -/
theorem obliged_scanCkptfiles {s : CoordInfo} {l : Ledger} (dirfd : Int) (id m : Nat) :
    Obliged n (scanCkptfiles dirfd id m) s l fun s' ids l' => s' = s ∧
      ids = (List.range' id m).filter (fun x => decide (x ∈ l.started.map Prod.snd)) ∧
      l'.started = l.started ∧ l'.peers = l.peers := by
  induction m generalizing id l with
  | zero => exact Wp.pure ⟨rfl, rfl, rfl, rfl⟩
  | succ m ih =>
      refine Wp.bind (M := fun s' (r : Bool) l' => s' = s ∧
        r = decide (id ∈ l.started.map Prod.snd) ∧ l'.started = l.started ∧ l'.peers = l.peers)
        (obliged_call ⟨rfl, rfl, ?_⟩) ?_
      · simp only [obligingAnswer]
        cases decide (id ∈ l.started.map Prod.snd) with
        | false => exact ⟨rfl, rfl⟩
        | true => exact ⟨rfl, rfl⟩
      rintro s plain l₁ ⟨rfl, rfl, hst₁, hpeers₁⟩
      refine Wp.bind (M := fun s' (r : Bool) l' => s' = s ∧
        r = decide (id ∈ l.started.map Prod.snd) ∧ l'.started = l.started ∧ l'.peers = l.peers)
        (Wp.ite (fun hp => Wp.pure ⟨rfl, hp.symm, hst₁, hpeers₁⟩) fun hp =>
          obliged_call ⟨rfl, ?_, hst₁, hpeers₁⟩) ?_
      · simpa [obligingAnswer] using hp
      rintro s found l₂ ⟨rfl, rfl, hst₂, hpeers₂⟩
      refine (ih (l := l₂) (id + 1)).bind ?_
      rintro s rest l₃ ⟨rfl, rfl, hst₃, hpeers₃⟩
      refine Wp.pure ⟨rfl, ?_, hst₃.trans hst₂, hpeers₃.trans hpeers₂⟩
      rw [hst₂, List.range'_succ, List.filter_cons]

/-- Everybody has a file, so the count is right. -/
theorem length_range_filter {ids : List Nat} (hnodup : ids.Nodup) :
    ((List.range' (ids.foldr min uint32Max) (ids.foldr max 0 + 1 - ids.foldr min uint32Max)).filter
      fun x => decide (x ∈ ids)).length = ids.length := by
  refine List.Perm.length_eq ((List.perm_ext_iff_of_nodup ((List.nodup_range' ..).filter _) hnodup).mpr
    fun x => ?_)
  rw [List.mem_filter, List.mem_range'_1, decide_eq_true_iff]
  refine ⟨fun hx => hx.2, fun hx => ⟨?_, hx⟩⟩
  have hmin := List.min_le_of_le' (b := uint32Max) hx le_rfl
  have hmax := List.le_max_of_le' 0 hx le_rfl
  omega

theorem obliged_coordWriteCkptManifest {s : CoordInfo} {l : Ledger}
    (h : Peers n n .ckptComplete s) (hpeers : s.numPeers = n) (hmany : n ≤ 2 ^ 31)
    (hst : l.started.map Prod.snd = s.procs.map (·.2.xndPid)) :
    Obliged n coordWriteCkptManifest s l fun s' _ l' => s' = s ∧ l'.peers = l.peers := by
  have hbelow : ∀ x ∈ s.procs.map (·.2.xndPid), x ≤ 1001 + n := by
    intro x hx
    obtain ⟨m, hm, rfl⟩ := List.mem_map.mp hx
    exact Nat.le_of_lt (h.below m hm)
  have hmax := List.max_le_of_forall_le _ _ hbelow
  rw [Nat.bot_eq_zero] at hmax
  refine Wp.get_bind (Wp.bind (M := fun s' written l' => s' = s ∧ written = true ∧
    l'.peers = l.peers) ?_ ?_)
  · refine Wp.bind (M := fun s' r l' => s' = s ∧ r = some 90 ∧ l'.started = l.started ∧
      l'.peers = l.peers) (obliged_call ⟨rfl, rfl, rfl, rfl⟩) ?_
    rintro s _ l₁ ⟨rfl, rfl, hst₁, hp₁⟩
    refine Wp.bind (M := fun s' r l' => s' = s ∧ r = some 91 ∧ l'.started = l.started ∧
      l'.peers = l.peers) (obliged_call ⟨rfl, rfl, hst₁, hp₁⟩) ?_
    rintro s _ l₂ ⟨rfl, rfl, hst₂, hp₂⟩
    refine (obliged_scanCkptfiles _ _ _).bind ?_
    rintro s ids l₃ ⟨rfl, hids, hst₃, hp₃⟩
    have hlen : ids.length = s.numPeers := by
      rw [hids, hst₂, hst, length_range_filter h.ids, List.length_map, h.length, hpeers]
    refine Wp.ite (fun he => absurd he ?_) fun _ => ?_
    · rw [uint32Max]
      omega
    refine Wp.bind (M := fun s' r l' => s' = s ∧ r = true ∧ l'.peers = l.peers)
      (Wp.ite (fun _ => obliged_call ⟨rfl, rfl, hp₃.trans hp₂⟩) fun hne => absurd hlen hne) ?_
    rintro s _ l₄ ⟨rfl, rfl, hp₄⟩
    refine Wp.bind (M := fun s' _ l' => s' = s ∧ l'.peers = l.peers)
      (obliged_call ⟨rfl, hp₄⟩) ?_
    rintro s _ l₅ ⟨rfl, hp₅⟩
    refine Wp.bind (M := fun s' _ l' => s' = s ∧ l'.peers = l.peers)
      (obliged_call ⟨rfl, hp₅⟩) ?_
    rintro s _ l₆ ⟨rfl, hp₆⟩
    exact Wp.pure ⟨rfl, rfl, hp₆⟩
  · rintro s _ l' ⟨rfl, rfl, hp⟩
    exact Wp.pure ⟨rfl, hp⟩

/-- Somebody is told to resume. -/
theorem resumes_coordReleaseBarrier {s : CoordInfo} {l : Ledger} (h : Peers n n .ckptComplete s)
    (hn : 0 < n) (hl : l.peers = n) : Resumes n (coordReleaseBarrier .postckpt) s l := by
  refine Leads.get_bind ?_
  cases hs : s.procs with
  | nil =>
      have := h.length
      rw [hs] at this
      simp at this
      omega
  | cons m rest =>
      obtain ⟨p, a⟩ := m
      have ha : a.state = .ckptComplete := h.state (p, a) (by simp [hs])
      have hfront : s.procs = [] ++ (p, a) :: rest := hs
      refine Resumes.bind (h.ok.wp_listProc hfront) ?_
      rintro s a l ⟨rfl, rfl, rfl⟩
      refine Resumes.bind (M := fun s' _ l' => s' = s ∧ l' = l) (Wp.ite (fun _ => Wp.pure ⟨rfl, rfl⟩)
        fun hne => absurd ha hne) ?_
      rintro s _ l ⟨rfl, rfl⟩
      refine Leads.get_bind (Resumes.bind (M := fun _ _ l' => l'.resumed = true ∧ l'.peers = n)
        (obliged_call ⟨rfl, hl⟩) ?_)
      exact fun s sent l h => Leads.now h

theorem resumes_coordRunRound {s : CoordInfo} {epoch : Nat} (h : Peers n n .readyForCkpt s)
    (hn : 0 < n) (hmany : n ≤ 2 ^ 31) (fuel : Nat) :
    Resumes n (coordRunRound epoch (fuel + 1)) s { epoch } := by
  refine Leads.modify_bind (Leads.modify_bind ?_)
  have h₁ : Peers n n .readyForCkpt { { s with numPeers := s.procs.length } with
      procs := s.procs.map fun n => (n.1, { n.2 with isRootOfTree :=
        (CoordInfo.find { s with numPeers := s.procs.length } (·.realPid = n.2.realPpid)).isNone }) } :=
    Peers.map (s := { s with numPeers := s.procs.length })
      ⟨h.ok.congr rfl rfl, h.length, h.state, h.below, h.ids, fun hn => ⟨h.length, (h.known hn).2⟩⟩
      (fun _ => ⟨rfl, rfl, rfl⟩) fun _ hm => hm
  generalize hs₁ : CoordInfo.mk _ _ _ _ _ _ _ _ _ _ = s₁ at h₁ ⊢
  have hpeers₁ : s₁.numPeers = n := (h₁.known hn).1
  refine Resumes.bind (obliged_coordCollectivePrepare h₁ (by exact nofun) fuel) ?_
  rintro s₂ total l₂ ⟨rfl, htotal, rfl⟩
  refine Leads.get_bind (Resumes.bind (M := fun s' _ l' => s' = s₂ ∧ l' = { epoch })
    (Wp.ite (fun _ => Wp.pure ⟨rfl, rfl⟩) fun hne => absurd (htotal.trans hpeers₁.symm) hne) ?_)
  rintro s₂ _ _ ⟨rfl, rfl⟩
  refine Resumes.bind (obliged_and_ledger (obliged_coordReleaseBarrier (Q := fun _ => True) h₁
    (fun _ _ _ _ => trivial) trivial) (Wp.get_bind (wp_releaseLoop_preckpt h₁.ok
      (List.nil_append _).symm ⟨rfl, fun hne => absurd rfl hne, rfl⟩))) ?_
  rintro s₃ sent l₃ ⟨⟨hs₃, hsent, -⟩, -, hledger⟩
  obtain ⟨-, hst₃, -, hpeers₃, -, -⟩ := hledger hsent
  have h₃ : Peers _ _ .ckptInProgress s₃ := hs₃ ▸ h₁.inState .ckptInProgress
  refine Resumes.bind (M := fun s' _ l' => s' = s₃ ∧ l' = l₃)
    (Wp.ite (fun _ => Wp.pure ⟨rfl, rfl⟩) fun hne => absurd hsent hne) ?_
  rintro s₃ _ l₃ ⟨rfl, rfl⟩
  have hne₃ : s₃.procs ≠ [] := fun he => by
    have := h₃.length
    rw [he] at this
    exact absurd this (by simp; omega)
  have hstarted : l₃.started ≠ [] := by
    rw [hst₃.started]
    exact fun he => hne₃ (List.map_eq_nil_iff.mp he)
  have hp₃ : l₃.peers = s₂.numPeers := (hst₃.peers hne₃).trans hpeers₃
  refine Resumes.bind (obliged_and_ledger (obliged_coordWaitForCkptCompletions h₃
    (hpeers₃.trans hpeers₁) hstarted fuel) (wp_coordWaitForCkptCompletions h₃.ok hst₃
      (by rw [h₃.length, hpeers₃, hpeers₁]) (fuel + 1))) ?_
  rintro s₄ _ l₄ ⟨⟨h₄, hl₄⟩, -, hc, -, -⟩
  have hst₄ : l₄.started.map Prod.snd = s₄.procs.map (·.2.xndPid) := by
    rw [hc.started, CoordInfo.keys, List.map_map]
    rfl
  have hp₄ : l₄.peers = s₂.numPeers := by
    rw [hl₄]
    exact hp₃
  refine Resumes.bind (obliged_coordWriteCkptManifest h₄ (h₄.known hn).1 hmany hst₄) ?_
  rintro s₅ _ l₅ ⟨rfl, hp₅⟩
  exact Leads.first (resumes_coordReleaseBarrier h₄ hn (hp₅.trans (hp₄.trans hpeers₁)))

theorem resumes_coordDoCheckpoint {s : CoordInfo} {l : Ledger} (h : Peers n n .running s)
    (hn : 0 < n) (hmany : n ≤ 2 ^ 31) (hl : l.started = []) (fuel : Nat) :
    Resumes n (coordDoCheckpoint (fuel + 2)) s l := by
  refine Leads.get_bind (Resumes.bind (M := fun s' _ l' => s' = s ∧ l' = l)
    (obliged_call ⟨rfl, rfl⟩) ?_)
  rintro s _ l ⟨rfl, rfl⟩
  refine Resumes.bind (obliged_coordCollectivePrepare h (by exact nofun) (fuel + 1)) ?_
  rintro s _ l ⟨rfl, rfl, rfl⟩
  rw [if_neg (by omega)]
  refine Resumes.bind (obliged_coordSuspendProcesses h hn hl fuel) ?_
  rintro s' _ l ⟨h', rfl⟩
  refine Leads.first (Leads.get_bind (Resumes.bind (M := fun s'' (r : Bool) l' => s'' = s' ∧
    r = true ∧ l' = { epoch := s.epoch }) (obliged_call ⟨rfl, rfl, rfl⟩) ?_))
  rintro s' _ _ ⟨rfl, rfl, rfl⟩
  exact resumes_coordRunRound h' hn hmany (fuel + 1)

/-! ## Runs -/

theorem obliged_parentPid (s : CoordInfo) (l : Ledger) :
    Obliged n parentPid s l fun s' _ l' => s' = s ∧ l' = l := by
  refine Wp.bind (M := fun s' r l' => s' = s ∧ r = 50 ∧ l' = l) (obliged_call ⟨rfl, rfl, rfl⟩) ?_
  rintro s _ l ⟨rfl, rfl, rfl⟩
  exact Wp.ite (fun he => absurd he (by decide)) fun _ => Wp.pure ⟨rfl, rfl⟩

theorem obliged_coordDoRestart {s : CoordInfo} {l : Ledger} (h : Peers n 0 .restartInProgress s)
    (hn : 0 < n) {fuel : Nat} (hfuel : n ≤ fuel) :
    Obliged n (coordDoRestart (fuel + 1)) s l fun s' _ l' => Peers n n .running s' ∧ l' = l := by
  refine (obliged_parentPid s l).bind ?_
  rintro s ppid l ⟨rfl, rfl⟩
  refine (obliged_awaitProcess h hn _ ppid fuel).bind ?_
  rintro s _ l ⟨h, rfl⟩
  refine (obliged_awaitPeers ppid h (by omega) (by omega) (by omega)).bind ?_
  rintro s _ l ⟨h, rfl⟩
  refine (obliged_coordCollectivePrepare h (by exact nofun) fuel).bind ?_
  rintro s total l ⟨rfl, rfl, rfl⟩
  refine Wp.get_bind (Wp.ite (fun hne => absurd (h.known hn).1.symm hne) fun _ => ?_)
  refine Wp.bind (obliged_coordReleaseBarrier (Q := fun l' => l' = l) h ?_ rfl) ?_
  · exact fun _ _ _ hl => hl
  rintro _ _ l ⟨rfl, rfl, rfl⟩
  exact Wp.pure ⟨h.inState .running, rfl⟩

theorem resumes_coordWork {s : CoordInfo} {l : Ledger} (h : Peers n n .running s) (hn : 0 < n)
    (hmany : n ≤ 2 ^ 31) (hl : l.started = []) (fuel : Nat) :
    Resumes n (coordWork (fuel + 3)) s l := by
  refine Resumes.bind (obliged_parentPid s l) ?_
  rintro s ppid l ⟨rfl, rfl⟩
  refine Resumes.bind (M := fun s' _ l' => s' = s ∧ l' = l) ?_ ?_
  · refine (obliged_coordWaitForConnection_none h hl _).bind ?_
    rintro s _ l ⟨rfl, rfl⟩
    refine Wp.get_bind (Wp.ite (fun _ => Wp.pure ⟨rfl, rfl⟩) fun he => absurd h.length ?_)
    omega
  rintro s _ l ⟨rfl, rfl⟩
  refine Resumes.bind (obliged_coordWaitForConnection_none h hl _) ?_
  rintro s _ l ⟨rfl, rfl⟩
  have hnone : obligingAnswer n s l (.select (s.procs.flatMap fun m => watchedFds m.2)) = none :=
    if_neg (by simp [hl, h.length])
  refine Resumes.bind (M := fun s' _ l' => s' = s ∧ l' = l) ?_ ?_
  · refine Wp.get_bind (Wp.bind (M := fun s' r l' => s' = s ∧ r = none ∧ l' = l)
      (obliged_call ⟨rfl, hnone, by rw [hnone]; rfl⟩) ?_)
    rintro s _ l ⟨rfl, rfl, rfl⟩
    exact Wp.pure ⟨rfl, rfl⟩
  rintro s _ l ⟨rfl, rfl⟩
  have hinterval := (h.known hn).2
  refine Leads.first (Leads.get_bind ?_)
  rw [if_pos (by omega)]
  refine Resumes.bind (M := fun s' r l' => s' = s ∧ r = 60 ∧ l' = l) (obliged_call ⟨rfl, rfl, rfl⟩) ?_
  rintro s _ l ⟨rfl, rfl, rfl⟩
  rw [if_pos (by omega)]
  exact resumes_coordDoCheckpoint h hn hmany hl fuel

/-- **A round of any size resumes**, in some run. -/
theorem exists_resumed (hn : 0 < n) (hmany : n ≤ 2 ^ 31) :
    ∃ p l, ledgerWorld.Reach (coordMain true (n + 3) (coordInit 4 7 0)) {} (p, l) ∧
      l.resumed = true ∧ l.peers = n := by
  have hinit : Peers n 0 .restartInProgress (coordInit 4 7 0) :=
    ⟨listOk_coordInit 4 7 0, rfl, fun _ hm => absurd hm List.not_mem_nil, fun _ hm =>
      absurd hm List.not_mem_nil, List.nodup_nil, fun h => absurd h (Nat.lt_irrefl 0)⟩
  have hmain : Resumes n (coordMain true (n + 3)) (coordInit 4 7 0) {} := by
    refine Resumes.bind (obliged_coordDoRestart hinit hn (by omega)) ?_
    rintro s _ l ⟨h, rfl⟩
    exact resumes_coordWork h hn hmany rfl n
  obtain ⟨p, l, hr, hl⟩ := hmain
  have hmap := World.Reach.map (obligingWorld n) (𝒱 := ledgerWorld) (fun l => l) (J := fun _ => True)
    (fun s c l r l' _ ha => ⟨trivial, ledgerWorld_of_obliging s c l r l' ha⟩)
    (fun _ _ _ hm => hm.elim) trivial hr
  exact ⟨p, l, hmap.2, hl⟩

/-- **A round is committed before anybody resumes**, in every run, exactly when the
manifest has a slot for every peer. -/
theorem coordMain_committed (restart : Bool) (fuel : Nat) (fd : Int) (uuid : Nat) (interval : Int)
    {p : Prog CoordCall.Answer CoordInfo CoordStop Unit} {l : Ledger}
    (h : ledgerWorld.Reach (coordMain restart fuel (coordInit fd uuid interval)) {} (p, l))
    (hr : l.resumed = true) : l.Committed ↔ l.peers ≤ manifestEntryMax :=
  (coordMain_gathered h hr).committed_iff

theorem coordMain_committed_one : ∃ p l,
    ledgerWorld.Reach (coordMain true 4 (coordInit 4 7 0)) {} (p, l) ∧ l.resumed = true ∧
      l.peers = 1 ∧ l.Committed := by
  obtain ⟨p, l, h, hr, hl⟩ := exists_resumed (n := 1) (by decide) (by decide)
  exact ⟨p, l, h, hr, hl, (coordMain_committed true 4 4 7 0 h hr).mpr (by rw [hl]; decide)⟩

/-- With 257 processes the last one is not in the manifest. -/
theorem not_coordMain_committed :
    ¬ ∀ restart fuel fd uuid interval p l,
      ledgerWorld.Reach (coordMain restart fuel (coordInit fd uuid interval)) {} (p, l) →
        l.resumed = true → l.Committed := by
  intro H
  obtain ⟨p, l, h, hr, hl⟩ := exists_resumed (n := 257) (by decide) (by decide)
  have hroom := (coordMain_gathered h hr).committed_iff.mp (H true _ 4 7 0 p l h hr)
  rw [hl] at hroom
  exact absurd hroom (by decide)

end Xnd.Coord
