import Xnd.Restart.Criterion

/-!
# Groups and sessions of the recreated processes

A recreated process is born into the group and the session of the process that
forks it, and moves when its target led a session or a group.  When it is forked
before its creator moves, it is born where the creator was born.  `Process` carries
these ids along `create_process`: the name of a process is its place in the tree of
forks, and the group and the session in which `xnd_restart` runs have the empty
name.

`Home` says from the recorded ids alone where a target is born: with the process
that led its session or group, if that is the one that creates it, and otherwise
where its parent is born.  The restart keeps memberships exactly when every target
that does not lead was with its home (`memberships_kept_iff`).
-/
namespace Xnd.Restart
open XndRestartTarget Relation

/-- A process that runs `create_process`: its own id, and the ids of the group and the
session it is in. -/
structure Process where
  call : Call
  pid : List Nat
  pgrp : List Nat
  sid : List Nat
  deriving DecidableEq, Repr

namespace Process

/-- `setsid`, which `create_process` calls unless `getpid() == getsid(0)`. -/
def enterSession (p : Process) : Process :=
  if p.pid ≠ p.sid then { p with sid := p.pid, pgrp := p.pid } else p

/-- `setpgid(0, 0)`, unless `getpid() == getpgrp()`. -/
def enterGroup (p : Process) : Process :=
  if p.pid ≠ p.pgrp then { p with pgrp := p.pid } else p

/-- The moves among the actions. -/
def settle : Process → List Action → Process
  | p, [] => p
  | p, .enterSession :: as => settle p.enterSession as
  | p, .enterGroup :: as => settle p.enterGroup as
  | p, _ :: as => settle p as

/-- A process that `p` forks, directly or through one that exits. -/
def fork (p : Process) (i : Nat) (c : Call) : Process :=
  { call := c, pid := p.pid ++ [i], pgrp := p.pgrp, sid := p.sid }

/-- The processes that are created by the actions, `i` of them before. -/
def creates : Process → Nat → List Action → List Process
  | _, _, [] => []
  | p, i, .enterSession :: as => creates p.enterSession i as
  | p, i, .enterGroup :: as => creates p.enterGroup i as
  | p, i, a :: as =>
      match a.created p.call.target with
      | some c => p.fork i c :: creates p (i + 1) as
      | none => creates p i as

end Process

variable (targets : List XndRestartTarget)

/-- What a process does in `create_process`. -/
def Process.actions (irs : List XndRestartTarget) (p : Process) : List Action :=
  createProcess targets irs p.call.target p.call.createRoots

/-- The processes that a process creates. -/
def Process.forks (irs : List XndRestartTarget) (p : Process) : List Process :=
  p.creates 0 (p.actions targets irs)

/-- The process when it calls `exec_restart`. -/
def Process.restored (p : Process) : Process :=
  p.settle (p.actions targets (independentRoots targets))

/-- The process that `main` forks, or the orphan it creates. -/
def firstProcess (c : Call) : Process := { call := c, pid := [0], pgrp := [], sid := [] }

/-- `process_targets`, with the ids of the processes. -/
def restartProcesses (fuel : Nat) : Option (List Process) :=
  if rootsAgree targets = false then some []
  else
    match independentRoots targets with
    | [] => some []
    | ir :: irs =>
        Spawning.spawnAll (Process.forks targets (ir :: irs)) fuel (firstProcess (firstCall ir irs))

/-! ## The processes are those of `process_targets` -/

namespace Process
variable {targets}

@[simp] theorem enterSession_call (p : Process) : p.enterSession.call = p.call := by
  unfold enterSession
  split <;> rfl

@[simp] theorem enterSession_pid (p : Process) : p.enterSession.pid = p.pid := by
  unfold enterSession
  split <;> rfl

@[simp] theorem enterGroup_call (p : Process) : p.enterGroup.call = p.call := by
  unfold enterGroup
  split <;> rfl

@[simp] theorem enterGroup_pid (p : Process) : p.enterGroup.pid = p.pid := by
  unfold enterGroup
  split <;> rfl

/-- The calls of the processes that are created. -/
theorem map_call_creates (p : Process) (i : Nat) (as : List Action) :
    (p.creates i as).map (·.call) = as.filterMap (Action.created p.call.target) := by
  induction as generalizing p i with
  | nil => rfl
  | cons a as ih =>
      cases a with
      | enterSession =>
          rw [List.filterMap_cons_none rfl, ← p.enterSession_call]
          exact ih p.enterSession i
      | enterGroup =>
          rw [List.filterMap_cons_none rfl, ← p.enterGroup_call]
          exact ih p.enterGroup i
      | createChild t => exact congrArg (List.cons _) (ih p (i + 1))
      | createOrphan t r => exact congrArg (List.cons _) (ih p (i + 1))
      | execRestart =>
          rw [List.filterMap_cons_none rfl]
          exact ih p i

/-- Their names continue the name of `p`. -/
theorem map_pid_creates (p : Process) (i : Nat) (as : List Action) :
    ∃ n, (p.creates i as).map (·.pid) = (List.range' i n).map fun j => p.pid ++ [j] := by
  induction as generalizing p i with
  | nil => exact ⟨0, rfl⟩
  | cons a as ih =>
      have forked : ∀ c, a.created p.call.target = some c →
          p.creates i (a :: as) = p.fork i c :: p.creates (i + 1) as →
          ∃ n, (p.creates i (a :: as)).map (·.pid) = (List.range' i n).map fun j => p.pid ++ [j] := by
        intro c _ he
        obtain ⟨n, hn⟩ := ih p (i + 1)
        refine ⟨n + 1, ?_⟩
        rw [he, List.map_cons, hn, List.range'_succ, List.map_cons]
        rfl
      cases a with
      | enterSession => exact p.enterSession_pid ▸ ih p.enterSession i
      | enterGroup => exact p.enterGroup_pid ▸ ih p.enterGroup i
      | createChild t => exact forked _ rfl rfl
      | createOrphan t r => exact forked _ rfl rfl
      | execRestart => exact ih p i

theorem map_call_forks (irs : List XndRestartTarget) (p : Process) :
    (p.forks targets irs).map (·.call) = spawns targets irs p.call :=
  p.map_call_creates 0 _

/-- Actions that begin with `as`. -/
theorem creates_append (p : Process) (i : Nat) (as bs : List Action) :
    p.creates i (as ++ bs) =
      p.creates i as ++ (p.settle as).creates (i + (p.creates i as).length) bs := by
  induction as generalizing p i with
  | nil => rfl
  | cons a as ih =>
      cases a with
      | enterSession => exact ih p.enterSession i
      | enterGroup => exact ih p.enterGroup i
      | createChild t =>
          simp only [List.cons_append, creates, Action.created, settle, ih, List.length_cons]
          rw [show i + 1 + (p.creates (i + 1) as).length = i + ((p.creates (i + 1) as).length + 1) by
            omega]
      | createOrphan t r =>
          simp only [List.cons_append, creates, Action.created, settle, ih, List.length_cons]
          rw [show i + 1 + (p.creates (i + 1) as).length = i + ((p.creates (i + 1) as).length + 1) by
            omega]
      | execRestart => exact ih p i

theorem settle_append (p : Process) (as bs : List Action) :
    p.settle (as ++ bs) = (p.settle as).settle bs := by
  induction as generalizing p with
  | nil => rfl
  | cons a as ih => cases a <;> exact ih _

/-- An action that moves nobody. -/
def Still (a : Action) : Prop := a ≠ .enterSession ∧ a ≠ .enterGroup

theorem settle_of_still (p : Process) {as : List Action} (h : ∀ a ∈ as, Still a) : p.settle as = p := by
  induction as with
  | nil => rfl
  | cons a as ih =>
      have ih := ih fun b hb => h b (List.mem_cons_of_mem _ hb)
      cases a with
      | enterSession => exact absurd rfl (h _ List.mem_cons_self).1
      | enterGroup => exact absurd rfl (h _ List.mem_cons_self).2
      | _ => exact ih

/-- Between moves, processes are born where `p` is. -/
theorem mem_creates_of_still {p q : Process} {i : Nat} {as : List Action} (h : ∀ a ∈ as, Still a)
    (hq : q ∈ p.creates i as) :
    ∃ a ∈ as, ∃ j c, a.created p.call.target = some c ∧ q = p.fork j c := by
  induction as generalizing i with
  | nil => cases hq
  | cons a as ih =>
      have later : ∀ i, q ∈ p.creates i as →
          ∃ b ∈ a :: as, ∃ j c, b.created p.call.target = some c ∧ q = p.fork j c := by
        intro i hq
        obtain ⟨b, hb, hbq⟩ := ih (fun b hb => h b (List.mem_cons_of_mem _ hb)) hq
        exact ⟨b, List.mem_cons_of_mem _ hb, hbq⟩
      have now : ∀ c, a.created p.call.target = some c → q ∈ p.fork i c :: p.creates (i + 1) as →
          ∃ b ∈ a :: as, ∃ j c, b.created p.call.target = some c ∧ q = p.fork j c := by
        intro c hc hq
        rcases List.mem_cons.mp hq with rfl | hq
        · exact ⟨a, List.mem_cons_self, i, c, hc, rfl⟩
        · exact later _ hq
      cases a with
      | enterSession => exact absurd rfl (h _ List.mem_cons_self).1
      | enterGroup => exact absurd rfl (h _ List.mem_cons_self).2
      | createChild t => exact now _ rfl hq
      | createOrphan t r => exact now _ rfl hq
      | execRestart => exact later i hq

theorem still_createRootsLoop {irs : List XndRestartTarget} {t : XndRestartTarget} :
    ∀ a ∈ createRootsLoop irs t, Still a := by
  intro a ha
  obtain ⟨ir, -, ha⟩ := List.mem_flatMap.mp ha
  split at ha
  · rw [List.mem_singleton.mp ha]
    exact ⟨nofun, nofun⟩
  · cases ha

theorem still_childrenLoop {t : XndRestartTarget} : ∀ a ∈ childrenLoop targets t, Still a := by
  intro a ha
  obtain ⟨c, -, ha⟩ := List.mem_flatMap.mp ha
  split at ha
  · cases ha
  · split at ha
    · cases ha
    · rw [List.mem_singleton.mp ha]
      exact ⟨nofun, nofun⟩

theorem still_createMember {s t : XndRestartTarget} : ∀ a ∈ createMember s t, Still a := by
  intro a ha
  unfold createMember at ha
  split at ha
  · rw [List.mem_singleton.mp ha]
    exact ⟨nofun, nofun⟩
  · split at ha
    · rw [List.mem_singleton.mp ha]
      exact ⟨nofun, nofun⟩
    · cases ha

theorem still_membersLoop {t : XndRestartTarget} : ∀ a ∈ membersLoop targets t, Still a := by
  intro a ha
  obtain ⟨c, -, ha⟩ := List.mem_flatMap.mp ha
  split at ha
  · cases ha
  · split at ha
    · exact still_createMember a ha
    · split at ha
      · exact still_createMember a ha
      · cases ha

/-- The process after the moves of its target. -/
def settled (p : Process) : Process := p.settle (leaderActions p.call.target)

@[simp] theorem settled_call (p : Process) : p.settled.call = p.call := by
  unfold settled leaderActions
  split
  · exact p.enterSession_call
  · split
    · exact p.enterGroup_call
    · rfl

@[simp] theorem settled_pid (p : Process) : p.settled.pid = p.pid := by
  unfold settled leaderActions
  split
  · exact p.enterSession_pid
  · split
    · exact p.enterGroup_pid
    · rfl

theorem restored_eq_settled (p : Process) : p.restored targets = p.settled := by
  have still : ∀ a ∈ (if p.call.createRoots = true then
      createRootsLoop (independentRoots targets) p.call.target else []) ++
        childrenLoop targets p.call.target, Still a := by
    intro a ha
    rcases List.mem_append.mp ha with ha | ha
    · split at ha
      · exact still_createRootsLoop a ha
      · cases ha
    · exact still_childrenLoop a ha
  rw [restored, actions, createProcess, settle_append, settle_append, settle_append,
    settle_of_still p still]
  refine (congrArg (Process.settle · _) (settle_of_still _ still_membersLoop)).trans rfl

theorem creates_leaderActions (p : Process) (i : Nat) :
    p.creates i (leaderActions p.call.target) = [] := by
  unfold leaderActions
  split
  · rfl
  · split <;> rfl

/-- Where the processes that `p` forks are born: before its moves or after them. -/
theorem mem_forks {irs : List XndRestartTarget} {p q : Process} (hq : q ∈ p.forks targets irs) :
    (∃ a, (p.call.createRoots = true ∧ a ∈ createRootsLoop irs p.call.target ∨
      a ∈ childrenLoop targets p.call.target) ∧
        ∃ j c, a.created p.call.target = some c ∧ q = p.fork j c) ∨
    ∃ a ∈ membersLoop targets p.call.target,
      ∃ j c, a.created p.call.target = some c ∧ q = p.settled.fork j c := by
  have still : ∀ a ∈ (if p.call.createRoots = true then
      createRootsLoop irs p.call.target else []) ++ childrenLoop targets p.call.target, Still a := by
    intro a ha
    rcases List.mem_append.mp ha with ha | ha
    · split at ha
      · exact still_createRootsLoop a ha
      · cases ha
    · exact still_childrenLoop a ha
  rw [forks, actions, createProcess, List.append_assoc _ (membersLoop targets _), creates_append,
    creates_append, List.mem_append, List.mem_append, settle_of_still p still,
    creates_leaderActions] at hq
  rcases hq with (hq | hq) | hq
  · obtain ⟨a, ha, hc⟩ := mem_creates_of_still still hq
    refine .inl ⟨a, ?_, hc⟩
    rcases List.mem_append.mp ha with ha | ha
    · split at ha
      · exact .inl ⟨‹_›, ha⟩
      · cases ha
    · exact .inr ha
  · cases hq
  · right
    have hstill : ∀ a ∈ membersLoop targets p.call.target ++ [.execRestart], Still a := by
      intro a ha
      rcases List.mem_append.mp ha with ha | ha
      · exact still_membersLoop a ha
      · rw [List.mem_singleton.mp ha]
        exact ⟨by rintro ⟨⟩, by rintro ⟨⟩⟩
    rw [settle_append, settle_of_still p still] at hq
    obtain ⟨a, ha, j, c, hc, rfl⟩ := mem_creates_of_still hstill hq
    rcases List.mem_append.mp ha with ha | ha
    · exact ⟨a, ha, j, c, p.settled_call ▸ hc, rfl⟩
    · rw [List.mem_singleton.mp ha] at hc
      cases hc

end Process

/-- **The processes are those of `process_targets`.** -/
theorem map_call_restartProcesses (fuel : Nat) :
    (restartProcesses targets fuel).map (List.map (·.call)) = processTargets targets fuel := by
  unfold restartProcesses processTargets
  split
  · rfl
  · cases independentRoots targets with
    | nil => rfl
    | cons ir irs => exact Spawning.spawnAll_map _ Process.call (Process.map_call_forks _) fuel _

/-! ## Homes -/

/-- `p` led the session or the group of `t`. -/
def ledBoth (p t : XndRestartTarget) : Bool := p.wasSessionLeaderOf t || p.wasGroupLeaderOf t

/-- **The home of a target**, from the recorded ids: the target whose process it is born
with, `none` for the place of `xnd_restart`.  `led` is `wasSessionLeaderOf` for
sessions and `ledBoth` for groups. -/
inductive Home (led : XndRestartTarget → XndRestartTarget → Bool) :
    XndRestartTarget → Option XndRestartTarget → Prop
  /-- A root whose session no other target led. -/
  | alone {t} (ht : t ∈ targets) (hr : t.isRootOfTree = true)
      (hs : ∀ s ∈ targets, s ≠ t → s.pid ≠ t.sid) : Home led t none
  /-- A root is created by the target that led its session. -/
  | session {s t} (hs : s ∈ targets) (ht : t ∈ targets) (hr : t.isRootOfTree = true) (hst : s ≠ t)
      (hsid : s.pid = t.sid) : Home led t (some s)
  /-- A parent that led the target creates it after its own move. -/
  | parent {p t} (hp : ParentOf targets p t) (hled : led p t = true) : Home led t (some p)
  /-- A parent that did not creates it where it is born itself. -/
  | inherit {p t h} (hp : ParentOf targets p t) (hled : led p t = false) (hh : Home led p h) :
      Home led t h

variable {targets} {led : XndRestartTarget → XndRestartTarget → Bool}

theorem Home.mem {t : XndRestartTarget} {h : Option XndRestartTarget} (hh : Home targets led t h) :
    t ∈ targets ∧ ∀ s ∈ h, s ∈ targets := by
  induction hh with
  | alone ht => exact ⟨ht, nofun⟩
  | session hs ht => exact ⟨ht, fun x hx => Option.some.inj hx ▸ hs⟩
  | parent hp => exact ⟨hp.2.1, fun x hx => Option.some.inj hx ▸ hp.1⟩
  | inherit hp _ _ ih => exact ⟨hp.2.1, ih.2⟩

/-- A target has one home. -/
theorem Home.unique (hc : Consistent targets) {t : XndRestartTarget}
    {h h' : Option XndRestartTarget} (hh : Home targets led t h) (hh' : Home targets led t h') :
    h = h' := by
  have noParent : ∀ {p t}, ParentOf targets p t → t.isRootOfTree = true → False := by
    intro p t hp hr
    rw [hc.root_of_parentOf hp] at hr
    cases hr
  have oneParent : ∀ {p q t}, ParentOf targets p t → ParentOf targets q t → p = q := fun hp hq =>
    hc.eq_of_xndPid hp.1 hq.1 (hp.2.2.trans hq.2.2.symm)
  induction hh generalizing h' with
  | alone ht hr hs =>
      cases hh' with
      | alone => rfl
      | session hs' _ _ hst hsid => exact absurd hsid (hs _ hs' hst)
      | parent hp => exact (noParent hp hr).elim
      | inherit hp => exact (noParent hp hr).elim
  | session hs ht hr hst hsid =>
      cases hh' with
      | alone _ _ hs' => exact absurd hsid (hs' _ hs hst)
      | session hs' _ _ _ hsid' => rw [hc.eq_of_pid hs hs' (hsid.trans hsid'.symm)]
      | parent hp => exact (noParent hp hr).elim
      | inherit hp => exact (noParent hp hr).elim
  | parent hp hled =>
      cases hh' with
      | alone _ hr => exact (noParent hp hr).elim
      | session _ _ hr => exact (noParent hp hr).elim
      | parent hp' => rw [oneParent hp hp']
      | inherit hp' hled' =>
          rw [oneParent hp hp', hled'] at hled
          cases hled
  | inherit hp hled _ ih =>
      cases hh' with
      | alone _ hr => exact (noParent hp hr).elim
      | session _ _ hr => exact (noParent hp hr).elim
      | parent hp' hled' =>
          rw [oneParent hp' hp, hled] at hled'
          cases hled'
      | inherit hp' _ hh' => exact ih (oneParent hp' hp ▸ hh')

/-! ## Where the processes of a run are born -/

/-- The id of a home among the processes: that of its process. -/
def IdOf (procs : List Process) : Option XndRestartTarget → List Nat → Prop
  | none, x => x = []
  | some s, x => ∃ q ∈ procs, q.call.target = s ∧ x = q.pid

/-- A process is born into the session and the group of its homes. -/
structure Placed (targets : List XndRestartTarget) (procs : List Process) (p : Process) : Prop where
  listed : p ∈ procs
  session : ∃ h, Home targets wasSessionLeaderOf p.call.target h ∧ IdOf procs h p.sid
  group : ∃ h, Home targets ledBoth p.call.target h ∧ IdOf procs h p.pgrp
  /-- The names of the session and the group are shorter: they are those of ancestors. -/
  deeper : p.sid.length < p.pid.length ∧ p.pgrp.length < p.pid.length
  base : p.call.createRoots = true → p.sid = [] ∧ p.pgrp = []

/-- Where a process is after its moves. -/
theorem settled_ids {p : Process} (hp : p.sid.length < p.pid.length ∧ p.pgrp.length < p.pid.length) :
    p.settled.sid = (if p.call.target.pid = p.call.target.sid then p.pid else p.sid) ∧
    p.settled.pgrp = (if p.call.target.pid = p.call.target.sid ∨
      p.call.target.pid = p.call.target.pgid then p.pid else p.pgrp) := by
  have hsid : p.pid ≠ p.sid := fun he => by
    rw [he] at hp
    omega
  have hpgrp : p.pid ≠ p.pgrp := fun he => by
    rw [he] at hp
    omega
  unfold Process.settled leaderActions wasSessionLeader wasGroupLeader
  by_cases hs : p.call.target.pid = p.call.target.sid
  · rw [if_pos (beq_iff_eq.mpr hs), if_pos hs, if_pos (.inl hs)]
    simp [Process.settle, Process.enterSession, hsid]
  · rw [if_neg (fun he => hs (beq_iff_eq.mp he)), if_neg hs]
    by_cases hg : p.call.target.pid = p.call.target.pgid
    · rw [if_pos (beq_iff_eq.mpr hg), if_pos (.inr hg)]
      simp [Process.settle, Process.enterGroup, hpgrp]
    · rw [if_neg (fun he => hg (beq_iff_eq.mp he)), if_neg (by simp [hs, hg])]
      exact ⟨rfl, rfl⟩

section Run
variable (hc : Consistent targets) (hl : LeadersLead targets) {procs : List Process}
include hc hl

/-- **A process places the processes it forks.** -/
theorem placed_fork {p q : Process} (hp : Placed targets procs p)
    (hq : q ∈ p.forks targets (independentRoots targets)) (hlisted : q ∈ procs) :
    Placed targets procs q := by
  have hself := hp.session.choose_spec.1.mem.1
  have deeper : ∀ {x : List Nat} {j : Nat}, x.length < p.pid.length → x.length < (p.pid ++ [j]).length := by
    intro x j hx
    rw [List.length_append]
    omega
  have hsettled := settled_ids hp.deeper
  rcases Process.mem_forks hq with ⟨a, ha, j, c, hac, rfl⟩ | ⟨a, ha, j, c, hac, rfl⟩
  · have hdeep : p.sid.length < (p.pid ++ [j]).length ∧ p.pgrp.length < (p.pid ++ [j]).length :=
      ⟨deeper hp.deeper.1, deeper hp.deeper.2⟩
    rcases ha with ⟨hroots, ha⟩ | ha
    · -- An independent root, created by the first process.
      obtain ⟨ir, hir, ha⟩ := List.mem_flatMap.mp ha
      split at ha
      · obtain rfl := List.mem_singleton.mp ha
        obtain rfl := Option.some.inj hac
        obtain ⟨ht, hr, hs⟩ := (mem_independentRoots hc).mp hir
        obtain ⟨hsid, hpgrp⟩ := hp.base hroots
        exact ⟨hlisted, ⟨none, .alone ht hr hs, hsid⟩, ⟨none, .alone ht hr hs, hpgrp⟩, hdeep, nofun⟩
      · cases ha
    · -- A child that the target did not lead is born where its parent is.
      obtain ⟨t, ht, ha⟩ := List.mem_flatMap.mp ha
      split at ha
      · cases ha
      · split at ha
        · cases ha
        · rename_i hns hng
          obtain rfl := List.mem_singleton.mp ha
          obtain rfl := Option.some.inj hac
          obtain ⟨ht, -, hpar⟩ := mem_childrenOf.mp ht
          have hparent : ParentOf targets p.call.target t := ⟨hself, ht, hpar.symm⟩
          have hns : wasSessionLeaderOf p.call.target t = false := Bool.eq_false_of_not_eq_true hns
          have hng : wasGroupLeaderOf p.call.target t = false := Bool.eq_false_of_not_eq_true hng
          obtain ⟨h, hh, hid⟩ := hp.session
          obtain ⟨h', hh', hid'⟩ := hp.group
          refine ⟨hlisted, ⟨h, .inherit hparent hns hh, hid⟩,
            ⟨h', .inherit hparent ?_ hh', hid'⟩, hdeep, nofun⟩
          show (wasSessionLeaderOf p.call.target t || wasGroupLeaderOf p.call.target t) = false
          rw [hns, hng]
          rfl
  · -- A member of the session or the group that the target led.
    obtain ⟨t, ht, ha⟩ := List.mem_flatMap.mp ha
    have hdeep : p.settled.sid.length < (p.settled.pid ++ [j]).length ∧
        p.settled.pgrp.length < (p.settled.pid ++ [j]).length := by
      rw [hsettled.1, hsettled.2, p.settled_pid, List.length_append, List.length_singleton]
      constructor
      · split
        · omega
        · have := hp.deeper.1
          omega
      · split
        · omega
        · have := hp.deeper.2
          omega
    have hid : IdOf procs (some p.call.target) p.pid := ⟨p, hp.listed, rfl, rfl⟩
    split at ha
    · cases ha
    rename_i hne
    by_cases hsess : wasSessionLeaderOf p.call.target t = true
    · rw [if_pos hsess] at ha
      have hpt : p.call.target.pid = t.sid := (wasSessionLeaderOf_iff _ _).mp hsess
      have hlead : p.call.target.pid = p.call.target.sid :=
        (hc.sessionLeaders _ hself ⟨t, ht, hpt.symm⟩).symm
      rw [if_pos hlead, if_pos (.inl hlead)] at hsettled
      have hboth : ledBoth p.call.target t = true := by rw [ledBoth, hsess]; rfl
      unfold createMember at ha
      split at ha
      · rename_i hpar
        obtain rfl := List.mem_singleton.mp ha
        obtain rfl := Option.some.inj hac
        have hparent : ParentOf targets p.call.target t :=
          ⟨hself, ht, (wasParentOf_iff _ _).mp hpar⟩
        exact ⟨hlisted, ⟨_, .parent hparent hsess, hsettled.1 ▸ hid⟩,
          ⟨_, .parent hparent hboth, hsettled.2 ▸ hid⟩, hdeep, nofun⟩
      · split at ha
        · rename_i hr
          obtain rfl := List.mem_singleton.mp ha
          obtain rfl := Option.some.inj hac
          exact ⟨hlisted, ⟨_, .session hself ht hr (Ne.symm hne) hpt, hsettled.1 ▸ hid⟩,
            ⟨_, .session hself ht hr (Ne.symm hne) hpt, hsettled.2 ▸ hid⟩, hdeep, nofun⟩
        · cases ha
    · rw [if_neg hsess] at ha
      split at ha
      · rename_i hgrp
        have hns : p.call.target.pid ≠ t.sid := fun he =>
          hsess ((wasSessionLeaderOf_iff _ _).mpr he)
        have hpt : p.call.target.pid = t.pgid := (wasGroupLeaderOf_iff _ _).mp hgrp
        have hlead : p.call.target.pid = p.call.target.pgid :=
          (hc.groupLeaders _ hself ⟨t, ht, hpt.symm⟩).symm
        -- A group lies in one session, so the leader of this one led no session.
        have hnot : p.call.target.pid ≠ p.call.target.sid := fun he =>
          hns (he.trans (hc.groups _ hself t ht (hlead.symm.trans hpt)))
        rw [if_neg hnot, if_pos (.inr hlead)] at hsettled
        unfold createMember at ha
        split at ha
        · rename_i hpar
          obtain rfl := List.mem_singleton.mp ha
          obtain rfl := Option.some.inj hac
          have hparent : ParentOf targets p.call.target t :=
            ⟨hself, ht, (wasParentOf_iff _ _).mp hpar⟩
          obtain ⟨h, hh, hsid⟩ := hp.session
          refine ⟨hlisted, ⟨h, .inherit hparent (Bool.eq_false_of_not_eq_true hsess) hh, hsettled.1 ▸ hsid⟩,
            ⟨_, .parent hparent ?_, hsettled.2 ▸ hid⟩, hdeep, nofun⟩
          show (wasSessionLeaderOf p.call.target t || wasGroupLeaderOf p.call.target t) = true
          rw [hgrp, Bool.or_true]
        · split at ha
          · rename_i hr
            exact absurd (hl t ht hr _ hself (Ne.symm hne) hpt) hns
          · cases ha
      · cases ha

omit hl in
theorem placed_firstProcess {c : Call} (hir : c.target ∈ independentRoots targets)
    (hlisted : firstProcess c ∈ procs) : Placed targets procs (firstProcess c) := by
  obtain ⟨ht, hr, hs⟩ := (mem_independentRoots hc).mp hir
  exact ⟨hlisted, ⟨none, .alone ht hr hs, rfl⟩, ⟨none, .alone ht hr hs, rfl⟩,
    ⟨Nat.one_pos, Nat.one_pos⟩, fun _ => ⟨rfl, rfl⟩⟩

/-- Every process of a run is placed. -/
theorem placed_of_run {fuel : Nat} {c : Call} (hir : c.target ∈ independentRoots targets)
    (hrun : Spawning.spawnAll (Process.forks targets (independentRoots targets)) fuel
      (firstProcess c) = some procs) : ∀ p ∈ procs, Placed targets procs p := by
  have hperm := Spawning.perm_flatMap_spawns _ hrun
  have hfirst : firstProcess c ∈ procs := hperm.mem_iff.mpr List.mem_cons_self
  refine Spawning.forall_of_spawnAll _ (fun p hp q hq => ?_) hrun (placed_firstProcess hc hir hfirst)
  exact placed_fork hc hl hp hq
    (hperm.mem_iff.mpr (List.mem_cons_of_mem _ (List.mem_flatMap.mpr ⟨p, hp.listed, hq⟩)))

end Run

/-- The ids of the processes of a run are distinct, and none is that of `xnd_restart`. -/
theorem pids_of_run {irs : List XndRestartTarget} {fuel : Nat} {c : Call} {procs : List Process}
    (hrun : Spawning.spawnAll (Process.forks targets irs) fuel (firstProcess c) = some procs) :
    (procs.map (·.pid)).Nodup ∧ ∀ p ∈ procs, p.pid ≠ [] := by
  have hnames := Spawning.nodup_names (Process.forks targets irs) Process.pid (fun p => ?_) hrun
  · refine ⟨hnames.1, fun p hp he => ?_⟩
    have := (hnames.2 p hp).length_le
    rw [he] at this
    exact Nat.not_succ_le_zero 0 this
  · obtain ⟨n, hn⟩ := p.map_pid_creates 0 (p.actions targets irs)
    exact ⟨List.range' 0 n, List.nodup_range', hn⟩

/-! ## The criterion -/

/-- **Memberships are kept**: two processes are in one group (session) after the restart
iff their targets were. -/
def KeepsMemberships (targets : List XndRestartTarget) (procs : List Process) : Prop :=
  ∀ p ∈ procs, ∀ q ∈ procs,
    ((p.restored targets).pgrp = (q.restored targets).pgrp ↔
      p.call.target.pgid = q.call.target.pgid) ∧
    ((p.restored targets).sid = (q.restored targets).sid ↔ p.call.target.sid = q.call.target.sid)

theorem keepsMemberships_iff_settled {procs : List Process} :
    KeepsMemberships targets procs ↔ ∀ p ∈ procs, ∀ q ∈ procs,
      (p.settled.pgrp = q.settled.pgrp ↔ p.call.target.pgid = q.call.target.pgid) ∧
      (p.settled.sid = q.settled.sid ↔ p.call.target.sid = q.call.target.sid) := by
  simp only [KeepsMemberships, Process.restored_eq_settled]

instance (procs : List Process) : Decidable (KeepsMemberships targets procs) :=
  decidable_of_iff' _ keepsMemberships_iff_settled

/-- Every target that does not lead, by `id`, was with its home; those without a home were
together, and with no target that has one. -/
structure WithHomes (targets : List XndRestartTarget)
    (led : XndRestartTarget → XndRestartTarget → Bool) (id : XndRestartTarget → Int) : Prop where
  home : ∀ t ∈ targets, t.pid ≠ id t → ∀ s, Home targets led t (some s) → s.pid = id t
  apart : ∀ t ∈ targets, t.pid ≠ id t → Home targets led t none → ∀ s ∈ targets, s.pid ≠ id t
  together : ∀ t ∈ targets, ∀ u ∈ targets, t.pid ≠ id t → u.pid ≠ id u →
    Home targets led t none → Home targets led u none → id t = id u

/-- The criterion, for groups and sessions alike. -/
theorem kept_iff_withHomes (hc : Consistent targets) (id : XndRestartTarget → Int)
    {procs : List Process} (htargets : (procs.map (·.call.target)).Perm targets)
    (hpids : (procs.map (·.pid)).Nodup ∧ ∀ p ∈ procs, p.pid ≠ []) (born final : Process → List Nat)
    (hfinal : ∀ p ∈ procs, final p = if p.call.target.pid = id p.call.target then p.pid else born p)
    (hborn : ∀ p ∈ procs, ∃ h, Home targets led p.call.target h ∧ IdOf procs h (born p))
    (hlead : ∀ s ∈ targets, (∃ t ∈ targets, id t = s.pid) → id s = s.pid)
    (hled : ∀ t s, Home targets led t (some s) → id s = s.pid) :
    (∀ p ∈ procs, ∀ q ∈ procs, final p = final q ↔ id p.call.target = id q.call.target) ↔
      WithHomes targets led id := by
  have target : ∀ p ∈ procs, p.call.target ∈ targets := fun p hp =>
    htargets.mem_iff.mp (List.mem_map_of_mem (f := fun p : Process => p.call.target) hp)
  have process : ∀ t ∈ targets, ∃ p ∈ procs, p.call.target = t := fun t ht =>
    List.mem_map.mp (htargets.mem_iff.mpr ht)
  have same : ∀ p ∈ procs, ∀ q ∈ procs, p.pid = q.pid → p = q := fun p hp q hq he =>
    List.inj_on_of_nodup_map hpids.1 hp hq he
  have sameTarget : ∀ p ∈ procs, ∀ q ∈ procs, p.call.target = q.call.target → p = q :=
    fun p hp q hq he => List.inj_on_of_nodup_map (htargets.nodup_iff.mpr hc.nodup) hp hq he
  have birth : ∀ p ∈ procs, ∀ h, Home targets led p.call.target h → IdOf procs h (born p) := by
    intro p hp h hh
    obtain ⟨h', hh', hid⟩ := hborn p hp
    exact hh.unique hc hh' ▸ hid
  constructor
  · intro H
    refine ⟨fun t ht hne s hs => ?_, fun t ht hne hn s hs he => ?_,
      fun t ht u hu hne hne' hn hn' => ?_⟩
    · obtain ⟨p, hp, rfl⟩ := process t ht
      obtain ⟨q, hq, rfl, hqid⟩ := birth p hp _ hs
      have hsame : final p = final q := by
        rw [hfinal p hp, hfinal q hq, if_neg hne, if_pos (hled _ _ hs).symm, hqid]
      rw [(H p hp q hq).mp hsame, hled _ _ hs]
    · obtain ⟨p, hp, rfl⟩ := process t ht
      obtain ⟨q, hq, rfl⟩ := process s hs
      have hq' := hlead _ hs ⟨_, ht, he.symm⟩
      have hsame := (H p hp q hq).mpr (he.symm.trans hq'.symm)
      rw [hfinal p hp, hfinal q hq, if_neg hne, if_pos hq'.symm, birth p hp _ hn] at hsame
      exact hpids.2 q hq hsame.symm
    · obtain ⟨p, hp, rfl⟩ := process t ht
      obtain ⟨q, hq, rfl⟩ := process u hu
      refine (H p hp q hq).mp ?_
      rw [hfinal p hp, hfinal q hq, if_neg hne, if_neg hne', birth p hp _ hn, birth q hq _ hn']
  · intro H
    -- A process ends with the leader of what its target was in, if the restart has one.
    have own : ∀ p ∈ procs, (∃ q ∈ procs, final p = q.pid ∧ q.call.target.pid = id p.call.target) ∨
        (final p = [] ∧ p.call.target.pid ≠ id p.call.target ∧
          Home targets led p.call.target none) := by
      intro p hp
      rw [hfinal p hp]
      by_cases hself : p.call.target.pid = id p.call.target
      · rw [if_pos hself]
        exact .inl ⟨p, hp, rfl, hself⟩
      · rw [if_neg hself]
        obtain ⟨h, hh, hid⟩ := hborn p hp
        cases h with
        | none => exact .inr ⟨hid, hself, hh⟩
        | some s =>
            obtain ⟨q, hq, rfl, hqid⟩ := hid
            exact .inl ⟨q, hq, hqid, H.home _ (target p hp) hself _ hh⟩
    intro p hp q hq
    rcases own p hp with ⟨a, ha, hpa, hpid⟩ | ⟨hpn, hpself, hph⟩
    · rcases own q hq with ⟨b, hb, hqb, hqid⟩ | ⟨hqn, hqself, hqh⟩
      · rw [hpa, hqb, ← hpid, ← hqid]
        constructor
        · exact fun he => by rw [same a ha b hb he]
        · intro he
          rw [sameTarget a ha b hb (hc.eq_of_pid (target a ha) (target b hb) he)]
      · rw [hpa, hqn, ← hpid]
        exact ⟨fun he => absurd he (hpids.2 a ha), fun he =>
          absurd he (H.apart _ (target q hq) hqself hqh _ (target a ha))⟩
    · rcases own q hq with ⟨b, hb, hqb, hqid⟩ | ⟨hqn, hqself, hqh⟩
      · rw [hpn, hqb, ← hqid]
        exact ⟨fun he => absurd he.symm (hpids.2 b hb), fun he =>
          absurd he.symm (H.apart _ (target p hp) hpself hph _ (target b hb))⟩
      · rw [hpn, hqn]
        exact iff_of_true rfl
          (H.together _ (target p hp) _ (target q hq) hpself hqself hph hqh)

/-- What holds of the listed leaders holds of every home. -/
theorem Home.leader {P : XndRestartTarget → Prop}
    (hsession : ∀ s ∈ targets, ∀ t ∈ targets, s.pid = t.sid → P s)
    (hled : ∀ p t, ParentOf targets p t → led p t = true → P p) {t s : XndRestartTarget}
    (hh : Home targets led t (some s)) : P s := by
  generalize hs : some s = h at hh
  induction hh with
  | alone => cases hs
  | session hsm ht _ _ hsid =>
      obtain rfl := Option.some.inj hs
      exact hsession _ hsm _ ht hsid
  | parent hp hl =>
      obtain rfl := Option.some.inj hs
      exact hled _ _ hp hl
  | inherit _ _ _ ih => exact ih hs

/-- **The criterion.**  A restart that recreates its targets keeps their groups and their
sessions exactly when every target that did not lead its group (session) was in the
one of its home. -/
theorem keepsMemberships_iff (hc : Consistent targets)
    (hleaders : ∀ t ∈ targets, t.pid = t.sid → t.pid = t.pgid) (fuel : Nat) {procs : List Process}
    (hrun : restartProcesses targets fuel = some procs)
    (hrec : RecreatedBy targets (procs.map (·.call))) :
    KeepsMemberships targets procs ↔
      WithHomes targets ledBoth (·.pgid) ∧ WithHomes targets wasSessionLeaderOf (·.sid) := by
  have htargets : (procs.map (·.call.target)).Perm targets := by
    have := hrec.once
    rwa [List.map_map] at this
  have hl : LeadersLead targets := by
    refine (criterion_of_recreates hc ⟨fuel, procs.map (·.call), ?_, hrec⟩).1
    rw [← map_call_restartProcesses, hrun]
    rfl
  have run : (∀ p ∈ procs, Placed targets procs p) ∧
      ((procs.map (·.pid)).Nodup ∧ ∀ p ∈ procs, p.pid ≠ []) := by
    rw [restartProcesses, if_neg (by simp [rootsAgree_eq_true hc])] at hrun
    split at hrun
    · obtain rfl := Option.some.inj hrun
      exact ⟨fun _ hp => absurd hp List.not_mem_nil, List.nodup_nil, fun _ hp =>
        absurd hp List.not_mem_nil⟩
    · rename_i ir irs hirs
      have hir := (firstCall_spec ir irs).2
      rw [← hirs] at hrun hir
      exact ⟨placed_of_run hc hl hir hrun, pids_of_run hrun⟩
  obtain ⟨hplaced, hpids⟩ := run
  have restored : ∀ p ∈ procs, (p.restored targets).sid = p.settled.sid ∧
      (p.restored targets).pgrp = p.settled.pgrp := fun p _ => by
    rw [p.restored_eq_settled]
    exact ⟨rfl, rfl⟩
  have leaderOfSession : ∀ s ∈ targets, ∀ t ∈ targets, s.pid = t.sid → s.sid = s.pid :=
    fun s hs t ht he => hc.sessionLeaders s hs ⟨t, ht, he.symm⟩
  have leaderOfGroup : ∀ s ∈ targets, ∀ t ∈ targets, s.pid = t.sid → s.pgid = s.pid :=
    fun s hs t ht he => (hleaders s hs (leaderOfSession s hs t ht he).symm).symm
  have groups := kept_iff_withHomes hc (·.pgid) htargets hpids (·.pgrp)
    (fun p => (p.restored targets).pgrp) (fun p hp => ?_) (fun p hp => (hplaced p hp).group) hc.groupLeaders (fun t s hh => ?_)
  · have sessions := kept_iff_withHomes hc (·.sid) htargets hpids (·.sid)
      (fun p => (p.restored targets).sid) (fun p hp => ?_) (fun p hp => (hplaced p hp).session) hc.sessionLeaders (fun t s hh => ?_)
    · rw [← groups, ← sessions]
      exact ⟨fun H => ⟨fun p hp q hq => (H p hp q hq).1, fun p hp q hq => (H p hp q hq).2⟩,
        fun H p hp q hq => ⟨H.1 p hp q hq, H.2 p hp q hq⟩⟩
    · rw [(restored p hp).1, (settled_ids (hplaced p hp).deeper).1]
    · refine hh.leader leaderOfSession fun p t hp hled => ?_
      exact leaderOfSession p hp.1 t hp.2.1 ((wasSessionLeaderOf_iff _ _).mp hled)
  · have ht : p.call.target ∈ targets :=
      htargets.mem_iff.mp (List.mem_map_of_mem (f := fun p : Process => p.call.target) hp)
    rw [(restored p hp).2, (settled_ids (hplaced p hp).deeper).2]
    exact if_congr ⟨fun he => he.elim (hleaders _ ht) fun he => he, .inr⟩ rfl rfl
  · refine hh.leader leaderOfGroup fun p t hp hled => ?_
    rcases Bool.or_eq_true_iff.mp hled with hled | hled
    · exact leaderOfGroup p hp.1 t hp.2.1 ((wasSessionLeaderOf_iff _ _).mp hled)
    · exact hc.groupLeaders p hp.1 ⟨t, hp.2.1, ((wasGroupLeaderOf_iff _ _).mp hled).symm⟩

/-- Calls that recreate listed targets, checked one by one. -/
theorem recreatedBy_of_forall {calls : List Call} (h : (calls.map (·.target)).Perm targets)
    (hp : ∀ c ∈ calls, ∀ p ∈ targets, p.xndPid = c.target.xndPpid → c.forkedBy = some p) :
    RecreatedBy targets calls :=
  ⟨h, fun c hc p hpar => hp c hc p hpar.1 hpar.2.2⟩

/-- A session leader, its child with a group of its own, and an orphan of the group of
the leader. -/
theorem keepsMemberships_session : ∃ procs,
    restartProcesses [sessionLeader, groupLeader, { orphanedMember with pgid := 50 }] 3 = some procs ∧
      WithHomes [sessionLeader, groupLeader, { orphanedMember with pgid := 50 }] ledBoth (·.pgid) ∧
      WithHomes [sessionLeader, groupLeader, { orphanedMember with pgid := 50 }]
        wasSessionLeaderOf (·.sid) := by
  have hc : Consistent [sessionLeader, groupLeader, { orphanedMember with pgid := 50 }] :=
    { pids := by decide, xndPids := by decide, roots := by decide, ppid_lt := by decide
      groups := by decide, sessionLeaders := by decide, groupLeaders := by decide
      founders := founders_of_lt (by decide) (by decide) }
  refine ⟨_, rfl, (keepsMemberships_iff hc (by decide) 3 rfl ?_).mp (by decide)⟩
  exact recreatedBy_of_forall (by decide) (by decide)

/-- A second child of the session leader, in the group of the first. -/
def groupMember : XndRestartTarget := ⟨101, 50, 100, 50, 1002, 1000, false⟩

/-- The group of a pipeline is not kept: the leader of the session creates its second
process in its own group. -/
theorem not_keepsMemberships_pipeline :
    Consistent [sessionLeader, groupLeader, groupMember] ∧
      ∃ procs, restartProcesses [sessionLeader, groupLeader, groupMember] 3 = some procs ∧
        RecreatedBy [sessionLeader, groupLeader, groupMember] (procs.map (·.call)) ∧
        ¬ KeepsMemberships [sessionLeader, groupLeader, groupMember] procs := by
  refine ⟨?_, _, rfl, recreatedBy_of_forall (by decide) (by decide), by decide⟩
  exact
    { pids := by decide, xndPids := by decide, roots := by decide, ppid_lt := by decide
      groups := by decide, sessionLeaders := by decide, groupLeaders := by decide
      founders := founders_of_lt (by decide) (by decide) }

end Xnd.Restart
