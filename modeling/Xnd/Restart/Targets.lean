import Mathlib.Algebra.Ring.Nat
import Xnd.Lib.Spawning

/-!
# Restart targets and the processes that recreate them

`xnd_restart` reads the header of every image of a checkpoint
(`xnd_restart_target`), rebuilds the parent relation from the recorded ids
(`xnd_restart_dag`) and then forks: each process runs `createProcess` for one
target, which forks the processes of other targets, moves into the session or
group its target led, and ends in `exec_restart`.

The targets are pointers in the source and records here; the ids of a checkpoint
are distinct, so two pointers are equal when the records are.  A `Call` is one
process running `create_process`; its `forkedBy` is the target of the process it
is a child of, and `none` when it has no parent among them: `create_orphan` forks
twice and lets the process in the middle exit.
-/
namespace Xnd.Restart

/-- `struct xnd_restart_target`, with the header fields the restart reads. -/
structure XndRestartTarget where
  pid : Int
  ppid : Int
  pgid : Int
  sid : Int
  xndPid : Nat
  xndPpid : Nat
  isRootOfTree : Bool
  deriving DecidableEq, Repr

namespace XndRestartTarget
variable (self other : XndRestartTarget)

def wasOrphan : Bool := self.ppid == 1
def wasNotOrphan : Bool := !self.wasOrphan
def wasRootOfTree : Bool := self.isRootOfTree
def wasGroupLeader : Bool := self.pid == self.pgid
def wasGroupLeaderOf : Bool := self.pid == other.pgid
def wasSessionLeader : Bool := self.pid == self.sid
def wasSessionLeaderOf : Bool := self.pid == other.sid
def wasChildOf : Bool := self.xndPpid == other.xndPid
def wasParentOf : Bool := self.xndPid == other.xndPpid

@[simp] theorem wasGroupLeaderOf_iff : self.wasGroupLeaderOf other = true ↔ self.pid = other.pgid :=
  beq_iff_eq

@[simp] theorem wasSessionLeaderOf_iff :
    self.wasSessionLeaderOf other = true ↔ self.pid = other.sid :=
  beq_iff_eq

@[simp] theorem wasChildOf_iff : self.wasChildOf other = true ↔ self.xndPpid = other.xndPid :=
  beq_iff_eq

@[simp] theorem wasParentOf_iff : self.wasParentOf other = true ↔ self.xndPid = other.xndPpid :=
  beq_iff_eq

end XndRestartTarget

open XndRestartTarget

variable (targets : List XndRestartTarget)

/-! ## `xnd_restart_dag` -/

/-- `children_of`: the entry `_map[t]`. -/
def childrenOf (t : XndRestartTarget) : List XndRestartTarget :=
  targets.filter fun c => t ≠ c && c.wasChildOf t

/-- `indegree_of`: `_indegree[t]`, raised once for every entry of `_map` that
lists `t`. -/
def indegreeOf (t : XndRestartTarget) : Nat :=
  (targets.map fun s => (childrenOf targets s).count t).sum

/-! ## `create_process` -/

/-- What a process does on behalf of its target, in order.  The two moves are
guarded by the process's own ids: a process that leads a session (group) already
stays where it is. -/
inductive Action where
  /-- `t->create_child()` -/
  | createChild (t : XndRestartTarget)
  /-- `t->create_orphan(create_roots)` -/
  | createOrphan (t : XndRestartTarget) (createRoots : Bool)
  /-- `if (getpid() != getsid(0)) setsid()` -/
  | enterSession
  /-- `if (getpid() != getpgrp()) setpgid(0, 0)` -/
  | enterGroup
  | execRestart
  deriving DecidableEq, Repr

/-- The first loop of `create_process`: the other independent roots. -/
def createRootsLoop (independentRoots : List XndRestartTarget) (self : XndRestartTarget) :
    List Action :=
  independentRoots.flatMap fun ir => if ir ≠ self then [.createOrphan ir false] else []

/-- The loop over `dag->children_of(self)`. -/
def childrenLoop (self : XndRestartTarget) : List Action :=
  (childrenOf targets self).flatMap fun child =>
    if self.wasSessionLeaderOf child then []
    else if self.wasGroupLeaderOf child then []
    else [.createChild child]

/-- The process enters the session or the group its target led. -/
def leaderActions (self : XndRestartTarget) : List Action :=
  if self.wasSessionLeader then [.enterSession]
  else if self.wasGroupLeader then [.enterGroup]
  else []

/-- The body of the last loop, for a target the process led. -/
def createMember (self t : XndRestartTarget) : List Action :=
  if self.wasParentOf t then [.createChild t]
  else if t.wasRootOfTree then [.createOrphan t false]
  else []

/-- The last loop of `create_process`: the members of the session, then of the
group, the target led. -/
def membersLoop (self : XndRestartTarget) : List Action :=
  targets.flatMap fun t =>
    if t = self then []
    else if self.wasSessionLeaderOf t then createMember self t
    else if self.wasGroupLeaderOf t then createMember self t
    else []

/-- `xnd_restart_target::create_process`. -/
def createProcess (independentRoots : List XndRestartTarget) (self : XndRestartTarget)
    (createRoots : Bool) : List Action :=
  (if createRoots then createRootsLoop independentRoots self else []) ++
    childrenLoop targets self ++ leaderActions self ++ membersLoop targets self ++ [.execRestart]

/-! ## `process_targets` -/

/-- A process that runs `target->create_process(createRoots)`. -/
structure Call where
  target : XndRestartTarget
  createRoots : Bool
  forkedBy : Option XndRestartTarget
  deriving DecidableEq, Repr

/-- The process an action of `self` creates. -/
def Action.created (self : XndRestartTarget) : Action → Option Call
  | .createChild t => some ⟨t, false, some self⟩
  | .createOrphan t createRoots => some ⟨t, createRoots, none⟩
  | _ => none

/-- The processes that a process creates before it ends in `exec_restart`. -/
def spawns (independentRoots : List XndRestartTarget) (c : Call) : List Call :=
  (createProcess targets independentRoots c.target c.createRoots).filterMap
    (Action.created c.target)

/-- The `find_if` of `process_targets`: no other target led the session of `t`. -/
def hasNoSessionLeader (t : XndRestartTarget) : Bool :=
  targets.all fun s => !(s ≠ t && s.wasSessionLeaderOf t)

/-- The roots pushed by `process_targets`. -/
def independentRoots : List XndRestartTarget :=
  targets.filter fun t => indegreeOf targets t == 0 && hasNoSessionLeader targets t

/-- The two assertions of the loop of `process_targets`. -/
def rootsAgree : Bool :=
  targets.all fun t =>
    if indegreeOf targets t ≠ 0 then t.wasRootOfTree == false else t.wasRootOfTree

/-- The call that begins the run: the first independent root that was not an
orphan is recreated by the process itself, otherwise the first one of all as an
orphan. -/
def firstCall (ir : XndRestartTarget) (irs : List XndRestartTarget) : Call :=
  match (ir :: irs).find? wasNotOrphan with
  | some t => ⟨t, true, none⟩
  | none => ⟨ir, true, none⟩

/-- `xnd_restart_info::process_targets`: every process that comes to run
`create_process`, hence to `exec_restart`.  A failed assertion aborts before
anything is created; `none` when the processes nest deeper than the fuel. -/
def processTargets (fuel : Nat) : Option (List Call) :=
  if rootsAgree targets = false then some []
  else
    match independentRoots targets with
    | [] => some []
    | ir :: irs => Spawning.spawnAll (spawns targets (ir :: irs)) fuel (firstCall ir irs)

end Xnd.Restart
