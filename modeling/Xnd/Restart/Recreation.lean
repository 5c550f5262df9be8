import Xnd.Restart.Targets
import Mathlib.Logic.Relation
import Mathlib.Order.RelClasses
import Mathlib.Data.List.Nodup
import Mathlib.Algebra.Order.BigOperators.Group.List
import Mathlib.Order.WellFoundedSet

/-!
# Which checkpoints a restart recreates

Four places of the restart create a process: the loop over the independent
roots, the loop over the children, and the two branches of the loop over the
members of a session and of a group.  A target with a listed parent is created
by that parent and by nobody else, whatever the branch.  A root has two possible
creators: the target that led its session, and the first process when no listed
target did.  These two exclude each other.  The branch for group leaders is in
neither case excluded, and creates the root a second time.

So a consistent checkpoint is recreated exactly when every root whose group was
led by another listed target was also in the session of that target
(`LeadersLead`), and no chain of creators returns to its start (`NoCycle`);
`recreates_iff` states it.  The proof counts: by the conservation law of
`Spawning`, a target is created as often as its creators are, summed over its
creators.
-/
namespace Xnd.Restart
open XndRestartTarget Relation

variable (targets : List XndRestartTarget)

/-- `p` is a target and the recorded parent of the target `c`. -/
def ParentOf (p c : XndRestartTarget) : Prop :=
  p ∈ targets ∧ c ∈ targets ∧ p.xndPid = c.xndPpid

/-- **A consistent set of targets**, as image headers of one checkpoint record
it. -/
structure Consistent : Prop where
  pids : (targets.map (·.pid)).Nodup
  xndPids : (targets.map (·.xndPid)).Nodup
  roots : ∀ t ∈ targets, t.isRootOfTree = true ↔ ∀ s ∈ targets, s.xndPid ≠ t.xndPpid
  ppid_lt : ∀ t ∈ targets, t.xndPpid < t.xndPid
  groups : ∀ s ∈ targets, ∀ t ∈ targets, s.pgid = t.pgid → s.sid = t.sid
  sessionLeaders : ∀ s ∈ targets, (∃ t ∈ targets, t.sid = s.pid) → s.sid = s.pid
  groupLeaders : ∀ s ∈ targets, (∃ t ∈ targets, t.pgid = s.pid) → s.pgid = s.pid
  /-- No process belongs to a session founded by its own descendant. -/
  founders : ∀ t s, TransGen (ParentOf targets) t s → t.sid ≠ s.pid

/-- The processes `calls` recreate the targets: each target reaches
`exec_restart` once, and one whose parent is a target is a child of the process
of that parent. -/
structure RecreatedBy (calls : List Call) : Prop where
  once : (calls.map (·.target)).Perm targets
  parents : ∀ c ∈ calls, ∀ p, ParentOf targets p c.target → c.forkedBy = some p

/-- The restart ends, and its processes recreate the targets. -/
def Recreates : Prop :=
  ∃ fuel calls, processTargets targets fuel = some calls ∧ RecreatedBy targets calls

/-- Every root whose group was led by another target was in a session led by that
target. -/
def LeadersLead : Prop :=
  ∀ t ∈ targets, t.isRootOfTree = true →
    ∀ s ∈ targets, s ≠ t → s.pid = t.pgid → s.pid = t.sid

instance : Decidable (LeadersLead targets) :=
  inferInstanceAs (Decidable (∀ t ∈ targets, t.isRootOfTree = true →
    ∀ s ∈ targets, s ≠ t → s.pid = t.pgid → s.pid = t.sid))

/-- `u` has to exist before `t`: it was the parent of `t`, or `t` is a root and
`u` led its session. -/
def Brings (u t : XndRestartTarget) : Prop :=
  u ∈ targets ∧ t ∈ targets ∧
    (u.xndPid = t.xndPpid ∨ (t.isRootOfTree = true ∧ u ≠ t ∧ u.pid = t.sid))

/-- No chain of parents and session leaders returns to its start. -/
def NoCycle : Prop := ∀ t, ¬ TransGen (Brings targets) t t

/-! ## What one process creates -/

/-- The targets that the process of `self` creates, apart from the independent
roots. -/
def kids (self : XndRestartTarget) : List XndRestartTarget :=
  (childrenOf targets self).filter
      (fun c => !(self.wasSessionLeaderOf c || self.wasGroupLeaderOf c)) ++
    targets.filter (fun t => t ≠ self && ((self.wasSessionLeaderOf t || self.wasGroupLeaderOf t) &&
      (self.wasParentOf t || t.wasRootOfTree)))

theorem flatMap_singleton_if {α : Type} (p : α → Bool) (l : List α) :
    (l.flatMap fun x => if p x then [x] else []) = l.filter p := by
  induction l with
  | nil => rfl
  | cons a l ih => cases h : p a <;> simp [h, ih]

theorem created_membersLoop (self : XndRestartTarget) :
    ((membersLoop targets self).filterMap (Action.created self)).map (·.target) =
      targets.filter (fun t => t ≠ self &&
        ((self.wasSessionLeaderOf t || self.wasGroupLeaderOf t) &&
          (self.wasParentOf t || t.wasRootOfTree))) := by
  rw [← flatMap_singleton_if]
  simp only [membersLoop, List.filterMap_flatMap, List.map_flatMap]
  congr 1
  funext t
  by_cases ht : t = self
  · simp [ht]
  · cases hs : self.wasSessionLeaderOf t <;> cases hg : self.wasGroupLeaderOf t <;>
      cases hp : self.wasParentOf t <;> cases hr : t.wasRootOfTree <;>
      simp [ht, hp, hr, createMember, Action.created]

theorem created_childrenLoop (self : XndRestartTarget) :
    ((childrenLoop targets self).filterMap (Action.created self)).map (·.target) =
      (childrenOf targets self).filter
        (fun c => !(self.wasSessionLeaderOf c || self.wasGroupLeaderOf c)) := by
  rw [← flatMap_singleton_if]
  simp only [childrenLoop, List.filterMap_flatMap, List.map_flatMap]
  congr 1
  funext t
  cases hs : self.wasSessionLeaderOf t <;> cases hg : self.wasGroupLeaderOf t <;>
    simp [Action.created]

theorem created_createRootsLoop (irs : List XndRestartTarget) (self : XndRestartTarget) :
    ((createRootsLoop irs self).filterMap (Action.created self)).map (·.target) =
      irs.filter (· ≠ self) := by
  rw [← flatMap_singleton_if]
  simp only [createRootsLoop, List.filterMap_flatMap, List.map_flatMap]
  congr 1
  funext t
  by_cases ht : t = self <;> simp [ht, Action.created]

theorem created_leaderActions (self : XndRestartTarget) :
    (leaderActions self).filterMap (Action.created self) = [] := by
  unfold leaderActions
  split
  · rfl
  · split <;> rfl

/-- The targets a process creates. -/
theorem map_target_spawns (irs : List XndRestartTarget) (c : Call) :
    (spawns targets irs c).map (·.target) =
      (if c.createRoots then irs.filter (· ≠ c.target) else []) ++ kids targets c.target := by
  simp only [spawns, createProcess, List.filterMap_append, List.map_append,
    created_childrenLoop, created_membersLoop, created_leaderActions, kids]
  cases c.createRoots <;> simp [created_createRootsLoop, Action.created]

/-- How a process comes to be created: by the process of its parent, or as an
orphan when it is a root. -/
theorem spawns_cases {irs : List XndRestartTarget} {c d : Call}
    (h : d ∈ spawns targets irs c) :
    d.createRoots = false ∧
      ((d.forkedBy = some c.target ∧ c.target.xndPid = d.target.xndPpid) ∨
        (d.target ∈ irs ∨ d.target.isRootOfTree = true)) := by
  obtain ⟨a, ha, had⟩ := List.mem_filterMap.mp h
  simp only [createProcess, List.mem_append] at ha
  have member : ∀ t, a ∈ createMember c.target t →
      d.createRoots = false ∧
        ((d.forkedBy = some c.target ∧ c.target.xndPid = d.target.xndPpid) ∨
          (d.target ∈ irs ∨ d.target.isRootOfTree = true)) := by
    intro t ht
    unfold createMember at ht
    split at ht
    · obtain rfl := List.mem_singleton.mp ht
      obtain rfl := Option.some.inj had
      exact ⟨rfl, Or.inl ⟨rfl, (wasParentOf_iff _ _).mp ‹_›⟩⟩
    · split at ht
      · obtain rfl := List.mem_singleton.mp ht
        obtain rfl := Option.some.inj had
        exact ⟨rfl, Or.inr (Or.inr ‹_›)⟩
      · cases ht
  rcases ha with (((ha | ha) | ha) | ha) | ha
  · split at ha
    · obtain ⟨ir, hir, ha⟩ := List.mem_flatMap.mp ha
      split at ha
      · obtain rfl := List.mem_singleton.mp ha
        obtain rfl := Option.some.inj had
        exact ⟨rfl, Or.inr (Or.inl hir)⟩
      · cases ha
    · cases ha
  · obtain ⟨child, hchild, ha⟩ := List.mem_flatMap.mp ha
    split at ha
    · cases ha
    · split at ha
      · cases ha
      · obtain rfl := List.mem_singleton.mp ha
        obtain rfl := Option.some.inj had
        have hc := (List.mem_filter.mp hchild).2
        simp only [Bool.and_eq_true, wasChildOf_iff] at hc
        exact ⟨rfl, Or.inl ⟨rfl, hc.2.symm⟩⟩
  · have := created_leaderActions c.target
    rw [List.filterMap_eq_nil_iff] at this
    rw [this a ha] at had
    cases had
  · obtain ⟨t, -, ha⟩ := List.mem_flatMap.mp ha
    split at ha
    · cases ha
    · split at ha
      · exact member t ha
      · split at ha
        · exact member t ha
        · cases ha
  · obtain rfl := List.mem_singleton.mp ha
    cases had

/-! ## How often a target is created -/

section Counts
variable {targets} (h : Consistent targets)
include h

theorem Consistent.nodup : targets.Nodup := h.pids.of_map

theorem Consistent.eq_of_pid {s t : XndRestartTarget} (hs : s ∈ targets) (ht : t ∈ targets)
    (he : s.pid = t.pid) : s = t :=
  List.inj_on_of_nodup_map h.pids hs ht he

theorem Consistent.eq_of_xndPid {s t : XndRestartTarget} (hs : s ∈ targets) (ht : t ∈ targets)
    (he : s.xndPid = t.xndPid) : s = t :=
  List.inj_on_of_nodup_map h.xndPids hs ht he

/-- A target is not its own parent. -/
theorem Consistent.parent_ne {p c : XndRestartTarget} (hp : ParentOf targets p c) : p ≠ c := by
  rintro rfl
  have := h.ppid_lt p hp.1
  have := hp.2.2
  omega

/-- A target that is no root has a listed parent. -/
theorem Consistent.exists_parent {t : XndRestartTarget} (ht : t ∈ targets)
    (hr : t.isRootOfTree = false) : ∃ p, ParentOf targets p t := by
  by_contra hn
  have : t.isRootOfTree = true :=
    (h.roots t ht).mpr fun s hs he => hn ⟨s, hs, ht, he⟩
  rw [hr] at this
  cases this

theorem Consistent.root_of_parentOf {p t : XndRestartTarget} (hp : ParentOf targets p t) :
    t.isRootOfTree = false := by
  cases hr : t.isRootOfTree with
  | false => rfl
  | true => exact absurd hp.2.2 ((h.roots t hp.2.1).mp hr p hp.1)

omit h in
theorem count_filter_of_nodup {α : Type} [DecidableEq α] {l : List α} (hl : l.Nodup)
    (p : α → Bool) (a : α) : (l.filter p).count a = if a ∈ l ∧ p a = true then 1 else 0 := by
  rw [(hl.filter p).count]
  simp only [List.mem_filter]

omit h in
theorem mem_childrenOf {u t : XndRestartTarget} :
    t ∈ childrenOf targets u ↔ t ∈ targets ∧ u ≠ t ∧ t.xndPpid = u.xndPid := by
  simp [childrenOf]

/-- A target with a listed parent is created once by the process of its parent,
and by no other. -/
theorem count_kids_of_parent {u p t : XndRestartTarget} (hu : u ∈ targets)
    (hp : ParentOf targets p t) : (kids targets u).count t = if u = p then 1 else 0 := by
  have hroot : t.wasRootOfTree = false := h.root_of_parentOf hp
  have hc : t ∈ childrenOf targets u ↔ u = p := by
    rw [mem_childrenOf]
    constructor
    · rintro ⟨-, -, he⟩
      exact h.eq_of_xndPid hu hp.1 (he.symm.trans hp.2.2.symm)
    · rintro rfl
      exact ⟨hp.2.1, h.parent_ne hp, hp.2.2.symm⟩
  have hpar : u.wasParentOf t = true ↔ u = p := by
    rw [wasParentOf_iff]
    constructor
    · exact fun he => h.eq_of_xndPid hu hp.1 (he.trans hp.2.2.symm)
    · rintro rfl; exact hp.2.2
  have hnodup : (childrenOf targets u).Nodup := h.nodup.filter _
  rw [kids, List.count_append, count_filter_of_nodup hnodup, count_filter_of_nodup h.nodup]
  simp only [hc]
  by_cases hup : u = p
  · have hpar' : u.wasParentOf t = true := hpar.mpr hup
    have hne : t ≠ u := by rw [hup]; exact (h.parent_ne hp).symm
    cases hs : u.wasSessionLeaderOf t <;> cases hg : u.wasGroupLeaderOf t <;>
      simp [hup, hp.2.1, hup ▸ hne, hup ▸ hpar']
  · have hpar' : u.wasParentOf t = false := by
      rw [Bool.eq_false_iff]; exact fun hx => hup (hpar.mp hx)
    simp [hup, hpar', hroot]

/-- A root is created once by each other target that led its session or its
group. -/
theorem count_kids_of_root {u t : XndRestartTarget} (hu : u ∈ targets) (ht : t ∈ targets)
    (hr : t.isRootOfTree = true) :
    (kids targets u).count t = if u ≠ t ∧ (u.pid = t.sid ∨ u.pid = t.pgid) then 1 else 0 := by
  have hc : t ∉ childrenOf targets u := by
    rw [mem_childrenOf]
    exact fun hx => (h.roots t ht).mp hr u hu hx.2.2.symm
  have hroot : t.wasRootOfTree = true := hr
  have hnodup : (childrenOf targets u).Nodup := h.nodup.filter _
  rw [kids, List.count_append, count_filter_of_nodup hnodup, count_filter_of_nodup h.nodup]
  simp [hc, ht, hroot, ne_comm]

theorem indegreeOf_eq_zero_iff {t : XndRestartTarget} (ht : t ∈ targets) :
    indegreeOf targets t = 0 ↔ t.isRootOfTree = true := by
  rw [h.roots t ht]
  simp only [indegreeOf, List.sum_eq_zero_iff_forall_eq_nat, List.mem_map, forall_exists_index, and_imp,
    forall_apply_eq_imp_iff₂, List.count_eq_zero, mem_childrenOf, not_and]
  constructor
  · intro hz s hs he
    exact hz s hs ht (h.parent_ne ⟨hs, ht, he⟩) he.symm
  · exact fun hz s hs _ _ he => hz s hs he.symm

/-- The recorded roots are the targets without a listed parent, so the
assertions hold. -/
theorem rootsAgree_eq_true : rootsAgree targets = true := by
  rw [rootsAgree, List.all_eq_true]
  intro t ht
  have hz := indegreeOf_eq_zero_iff h ht
  by_cases hi : indegreeOf targets t = 0
  · simpa [hi, wasRootOfTree] using hz.mp hi
  · have hr : t.isRootOfTree = false := by
      rw [Bool.eq_false_iff]; exact fun hx => hi (hz.mpr hx)
    simp [hi, wasRootOfTree, hr]

theorem mem_independentRoots {t : XndRestartTarget} :
    t ∈ independentRoots targets ↔
      t ∈ targets ∧ t.isRootOfTree = true ∧ ∀ s ∈ targets, s ≠ t → s.pid ≠ t.sid := by
  simp only [independentRoots, List.mem_filter, Bool.and_eq_true, beq_iff_eq, hasNoSessionLeader,
    List.all_eq_true, Bool.not_eq_eq_eq_not, Bool.not_true, Bool.and_eq_false_imp,
    decide_eq_true_eq, wasSessionLeaderOf, beq_eq_false_iff_ne]
  constructor
  · rintro ⟨ht, hz, hs⟩
    exact ⟨ht, (indegreeOf_eq_zero_iff h ht).mp hz, hs⟩
  · rintro ⟨ht, hr, hs⟩
    exact ⟨ht, (indegreeOf_eq_zero_iff h ht).mpr hr, hs⟩

omit h in
theorem firstCall_spec (ir : XndRestartTarget) (irs : List XndRestartTarget) :
    (firstCall ir irs).createRoots = true ∧ (firstCall ir irs).target ∈ ir :: irs := by
  unfold firstCall
  split
  · exact ⟨rfl, List.mem_of_find?_eq_some ‹_›⟩
  · exact ⟨rfl, List.mem_cons_self⟩

omit h in
theorem kids_subset {u t : XndRestartTarget} (ht : t ∈ kids targets u) : t ∈ targets := by
  rcases List.mem_append.mp ht with ht | ht
  · exact (mem_childrenOf.mp (List.mem_filter.mp ht).1).1
  · exact (List.mem_filter.mp ht).1

/-! ### Over a whole run -/

section Run
variable {fuel : Nat} {first : Call} {calls : List Call}
  (hfirst : first.createRoots = true) (hir : first.target ∈ independentRoots targets)
  (hrun : Spawning.spawnAll (spawns targets (independentRoots targets)) fuel first = some calls)
include hrun

omit h in
/-- Every process of a run is the first one or was created by one of the run. -/
theorem run_cases {c : Call} (hc : c ∈ calls) :
    c = first ∨ ∃ d ∈ calls, c ∈ spawns targets (independentRoots targets) d := by
  have := (Spawning.perm_flatMap_spawns _ hrun).mem_iff.mp hc
  rcases List.mem_cons.mp this with rfl | hm
  · exact Or.inl rfl
  · exact Or.inr (List.mem_flatMap.mp hm)

omit h in
/-- A process creates processes of the run only. -/
theorem run_closed {c d : Call} (hc : c ∈ calls)
    (hd : d ∈ spawns targets (independentRoots targets) c) : d ∈ calls :=
  (Spawning.perm_flatMap_spawns _ hrun).mem_iff.mpr
    (List.mem_cons_of_mem _ (List.mem_flatMap.mpr ⟨c, hc, hd⟩))

include hir in
theorem run_target_mem {c : Call} (hc : c ∈ calls) : c.target ∈ targets := by
  rcases run_cases hrun hc with rfl | ⟨d, -, hcd⟩
  · exact ((mem_independentRoots h).mp hir).1
  · have hm := List.mem_map_of_mem (f := Call.target) hcd
    rw [map_target_spawns] at hm
    rcases List.mem_append.mp hm with hm | hm
    · split at hm
      · exact ((mem_independentRoots h).mp (List.mem_filter.mp hm).1).1
      · cases hm
    · exact kids_subset hm

include hfirst hir in
/-- **The creators of a target, counted.**  A target is created once if it is an
independent root, and once more for every process created for a target that has
it among its `kids`. -/
theorem count_run (t : XndRestartTarget) :
    (calls.map (·.target)).count t =
      (independentRoots targets).count t +
        ((calls.map (·.target)).map fun u => (kids targets u).count t).sum := by
  have hperm := Spawning.perm_flatMap_spawns _ hrun
  have hnodup : (independentRoots targets).Nodup := h.nodup.filter _
  -- Only the first process runs the loop over the independent roots.
  have loops : (calls.map fun c => ((if c.createRoots then
      (independentRoots targets).filter (· ≠ c.target) else []) : List _).count t).sum =
      ((independentRoots targets).filter (· ≠ first.target)).count t := by
    rw [(hperm.map _).sum_eq, List.map_cons, List.sum_cons, hfirst]
    have rest : ((calls.flatMap (spawns targets (independentRoots targets))).map fun c =>
        ((if c.createRoots then (independentRoots targets).filter (· ≠ c.target) else []) :
          List _).count t).sum = 0 := by
      rw [List.sum_eq_zero_iff_forall_eq_nat]
      intro x hx
      obtain ⟨c, hc, rfl⟩ := List.mem_map.mp hx
      obtain ⟨d, -, hcd⟩ := List.mem_flatMap.mp hc
      simp [(spawns_cases targets hcd).1]
    rw [rest, Nat.add_zero]
    simp
  have split : (calls.map (·.target)).count t =
      [first.target].count t + (calls.map fun c =>
        ((spawns targets (independentRoots targets) c).map (·.target)).count t).sum := by
    rw [(hperm.map _).count_eq, List.map_cons, List.map_flatMap, ← List.singleton_append,
      List.count_append, List.count_flatMap]
    rfl
  have hroots : [first.target].count t +
      ((independentRoots targets).filter (· ≠ first.target)).count t =
        (independentRoots targets).count t := by
    rw [count_filter_of_nodup hnodup, hnodup.count]
    by_cases ht : first.target = t
    · subst ht; simp [hir]
    · have ht' : t ≠ first.target := Ne.symm ht
      simp [ht, ht']
  rw [split, ← hroots, Nat.add_assoc, ← loops, List.map_map]
  congr 1
  simp only [map_target_spawns, List.count_append, Function.comp_def]
  rw [List.sum_map_add]

end Run

end Counts

end Xnd.Restart
