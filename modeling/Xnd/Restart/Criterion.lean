import Xnd.Restart.Recreation
import Mathlib.Data.List.Perm.Subperm
import Mathlib.Algebra.Order.Group.Nat

/-!
# The criterion for a restart to recreate its targets

Both directions of `recreates_iff` read the same count off a run.  When every
leader leads and nothing brings itself about, `Brings` is well founded both ways:
downwards the run ends, upwards every target is counted once, because exactly one
target brings it and that one was created once.  Conversely a run that ends has
no cycle, and one that creates a root once has no second creator for it.
-/
namespace Xnd.Restart
open XndRestartTarget Relation

/-- Induction along a relation without cycles, over the entries of a list. -/
theorem acyclic_induction {α : Type} {r : α → α → Prop} (hr : ∀ a, ¬ TransGen r a a)
    (l : List α) {P : α → Prop} (step : ∀ a ∈ l, (∀ b ∈ l, r b a → P b) → P a) :
    ∀ a ∈ l, P a := by
  have order : IsStrictOrder α (TransGen r) := { irrefl := hr, trans := fun _ _ _ => TransGen.trans }
  have wf : Set.WellFoundedOn {a | a ∈ l} (TransGen r) := Set.Finite.wellFoundedOn l.finite_toSet
  intro a ha
  exact wf.induction ha fun b hb ih => step b hb fun c hc hcb => ih c hc (.single hcb)

theorem not_rel_self_of_acc {α : Type} {r : α → α → Prop} {a : α} (h : Acc r a) : ¬ r a a := by
  induction h with
  | intro a _ ih => exact fun ha => ih a ha ha

variable {targets : List XndRestartTarget} (h : Consistent targets)

section Brings
include h

/-- The entries of `kids` are brought by their creator, when every leader
leads. -/
theorem brings_of_mem_kids (hl : LeadersLead targets) {u t : XndRestartTarget}
    (hu : u ∈ targets) (ht : t ∈ kids targets u) : Brings targets u t := by
  have htm : t ∈ targets := kids_subset ht
  have hpos := List.count_pos_iff.mpr ht
  refine ⟨hu, htm, ?_⟩
  cases hr : t.isRootOfTree with
  | false =>
      obtain ⟨p, hp⟩ := h.exists_parent htm hr
      rw [count_kids_of_parent h hu hp] at hpos
      split at hpos
      · subst u; exact Or.inl hp.2.2
      · omega
  | true =>
      rw [count_kids_of_root h hu htm hr] at hpos
      split at hpos
      · rename_i hc
        refine Or.inr ⟨rfl, hc.1, hc.2.elim id fun hg => ?_⟩
        exact hl t htm hr u hu hc.1 hg
      · omega

/-- A target creates what it brings. -/
theorem mem_kids_of_brings {u t : XndRestartTarget} (hb : Brings targets u t) :
    t ∈ kids targets u := by
  obtain ⟨hu, ht, hp | ⟨hr, hne, hs⟩⟩ := hb
  · rw [← List.count_pos_iff, count_kids_of_parent h hu ⟨hu, ht, hp⟩, if_pos rfl]
    exact Nat.one_pos
  · rw [← List.count_pos_iff, count_kids_of_root h hu ht hr, if_pos ⟨hne, Or.inl hs⟩]
    exact Nat.one_pos

/-- Some target is an independent root, unless there are none. -/
theorem independentRoots_ne_nil (hn : NoCycle targets) (hne : targets ≠ []) :
    independentRoots targets ≠ [] := by
  intro hnil
  obtain ⟨t, ht⟩ := List.exists_mem_of_ne_nil _ hne
  refine acyclic_induction hn targets (P := fun _ => False) (fun a ha hmin => ?_) t ht
  have hroot : a.isRootOfTree = true := by
    cases hr : a.isRootOfTree with
    | true => rfl
    | false =>
        obtain ⟨p, hp⟩ := h.exists_parent ha hr
        exact (hmin p hp.1 ⟨hp.1, ha, Or.inl hp.2.2⟩).elim
  have : a ∈ independentRoots targets :=
    (mem_independentRoots h).mpr ⟨ha, hroot, fun s hs hsa he =>
      hmin s hs ⟨hs, ha, Or.inr ⟨hroot, hsa, he⟩⟩⟩
  rw [hnil] at this
  cases this

/-- A process creates no infinite chain of processes, when nothing brings itself
about. -/
theorem acc_call (hl : LeadersLead targets) (hn : NoCycle targets) {irs : List XndRestartTarget}
    (hirs : ∀ t ∈ irs, t ∈ targets) (c : Call) :
    Acc (Spawning.Makes (spawns targets irs)) c := by
  have orphan : ∀ t ∈ targets, ∀ d : Call, d.target = t → d.createRoots = false →
      Acc (Spawning.Makes (spawns targets irs)) d := by
    refine acyclic_induction (r := fun a b => Brings targets b a)
      (fun a ha => hn a (transGen_swap.mp ha)) targets fun t ht ih d hdt hdr => ?_
    refine Acc.intro d fun e he => ?_
    have hm := List.mem_map_of_mem (f := Call.target) he
    rw [map_target_spawns, hdr, if_neg Bool.false_ne_true, List.nil_append, hdt] at hm
    exact ih e.target (kids_subset hm) (brings_of_mem_kids h hl ht hm) e rfl
      (spawns_cases targets he).1
  refine Acc.intro c fun d hd => ?_
  refine orphan d.target ?_ d rfl (spawns_cases targets hd).1
  have hm := List.mem_map_of_mem (f := Call.target) hd
  rw [map_target_spawns] at hm
  rcases List.mem_append.mp hm with hm | hm
  · split at hm
    · exact hirs _ (List.mem_filter.mp hm).1
    · cases hm
  · exact kids_subset hm

end Brings

/-! ## Counting over a run -/

theorem sum_map_eq_count {α : Type} [DecidableEq α] {l : List α} {f : α → Nat} {a : α}
    (hf : ∀ b ∈ l, f b = if b = a then 1 else 0) : (l.map f).sum = l.count a := by
  induction l with
  | nil => rfl
  | cons b l ih =>
      rw [List.map_cons, List.sum_cons, ih fun c hc => hf c (List.mem_cons_of_mem _ hc),
        hf b List.mem_cons_self, List.count_cons, Nat.add_comm]
      simp

/-- Two entries of a list without duplicates count twice. -/
theorem two_le_sum_map {α : Type} {l : List α} {f : α → Nat} {a b : α}
    (ha : a ∈ l) (hb : b ∈ l) (hab : a ≠ b) (hfa : f a = 1) (hfb : f b = 1) :
    2 ≤ (l.map f).sum := by
  have hsub : List.Subperm [a, b] l :=
    List.subperm_of_subset (by simp [hab]) (by simp [ha, hb])
  obtain ⟨l', hp, hs⟩ := hsub
  calc 2 = ([a, b].map f).sum := by simp [hfa, hfb]
    _ = (l'.map f).sum := ((hp.map f).sum_eq).symm
    _ ≤ (l.map f).sum := (hs.map f).sum_le_sum fun _ _ => Nat.zero_le _

section Run
variable {fuel : Nat} {first : Call} {calls : List Call}
  (hfirst : first.createRoots = true) (hir : first.target ∈ independentRoots targets)
  (hrun : Spawning.spawnAll (spawns targets (independentRoots targets)) fuel first = some calls)
include h hfirst hir hrun

/-- **Every target is created once**, when every leader leads. -/
theorem count_eq_one (hl : LeadersLead targets) (hn : NoCycle targets) :
    ∀ t ∈ targets, (calls.map (·.target)).count t = 1 := by
  have hmem : ∀ u ∈ calls.map (·.target), u ∈ targets := by
    intro u hu
    obtain ⟨c, hc, rfl⟩ := List.mem_map.mp hu
    exact run_target_mem h hir hrun hc
  have hnodup : (independentRoots targets).Nodup := h.nodup.filter _
  refine acyclic_induction hn targets fun t ht ih => ?_
  rw [count_run h hfirst hir hrun, hnodup.count]
  cases hr : t.isRootOfTree with
  | false =>
      obtain ⟨p, hp⟩ := h.exists_parent ht hr
      rw [sum_map_eq_count fun u hu => count_kids_of_parent h (hmem u hu) hp,
        ih p hp.1 ⟨hp.1, ht, Or.inl hp.2.2⟩, if_neg]
      intro hi
      rw [((mem_independentRoots h).mp hi).2.1] at hr
      cases hr
  | true =>
      by_cases hs : ∃ s ∈ targets, s ≠ t ∧ s.pid = t.sid
      · obtain ⟨s, hsm, hst, hsid⟩ := hs
        have only : ∀ u ∈ calls.map (·.target),
            (kids targets u).count t = if u = s then 1 else 0 := by
          intro u hu
          rw [count_kids_of_root h (hmem u hu) ht hr]
          refine if_congr ⟨fun ⟨hut, hlead⟩ => ?_, ?_⟩ rfl rfl
          · have : u.pid = t.sid := hlead.elim id fun hg => hl t ht hr u (hmem u hu) hut hg
            exact h.eq_of_pid (hmem u hu) hsm (this.trans hsid.symm)
          · rintro rfl; exact ⟨hst, Or.inl hsid⟩
        rw [sum_map_eq_count only, ih s hsm ⟨hsm, ht, Or.inr ⟨hr, hst, hsid⟩⟩,
          if_neg fun hi => ((mem_independentRoots h).mp hi).2.2 s hsm hst hsid]
      · have none : ∀ u ∈ calls.map (·.target), (kids targets u).count t = 0 := by
          intro u hu
          rw [count_kids_of_root h (hmem u hu) ht hr, if_neg]
          rintro ⟨hut, hlead⟩
          exact hs ⟨u, hmem u hu, hut,
            hlead.elim id fun hg => hl t ht hr u (hmem u hu) hut hg⟩
        have zero : ((calls.map (·.target)).map fun u => (kids targets u).count t).sum = 0 := by
          rw [List.sum_eq_zero_iff_forall_eq_nat]
          intro x hx
          obtain ⟨u, hu, rfl⟩ := List.mem_map.mp hx
          exact none u hu
        rw [zero, if_pos ((mem_independentRoots h).mpr
          ⟨ht, hr, fun s hsm hst he => hs ⟨s, hsm, hst, he⟩⟩)]

/-- A target with a listed parent is forked by the process of that parent. -/
theorem forkedBy_parent {c : Call} (hc : c ∈ calls) {p : XndRestartTarget}
    (hp : ParentOf targets p c.target) : c.forkedBy = some p := by
  have hroot := h.root_of_parentOf hp
  have notIr : c.target ∉ independentRoots targets := fun hi => by
    rw [((mem_independentRoots h).mp hi).2.1] at hroot
    cases hroot
  rcases run_cases hrun hc with rfl | ⟨d, hd, hcd⟩
  · exact absurd hir notIr
  · rcases (spawns_cases targets hcd).2 with ⟨hf, hx⟩ | hi | hr
    · rw [hf, h.eq_of_xndPid (run_target_mem h hir hrun hd) hp.1 (hx.trans hp.2.2.symm)]
    · exact absurd hi notIr
    · rw [hr] at hroot; cases hroot

/-- A restart that recreates every root once has no group leader that creates one
a second time. -/
theorem leadersLead_of_run (hperm : (calls.map (·.target)).Perm targets) :
    LeadersLead targets := by
  intro t ht hr s hsm hst hgid
  by_contra hsid
  have hnodup : (independentRoots targets).Nodup := h.nodup.filter _
  have hcount := count_run h hfirst hir hrun t
  rw [hperm.count_eq, h.nodup.count, if_pos ht, (hperm.map _).sum_eq] at hcount
  have hs1 : (kids targets s).count t = 1 := by
    rw [count_kids_of_root h hsm ht hr, if_pos ⟨hst, Or.inr hgid⟩]
  by_cases hl : ∃ u ∈ targets, u ≠ t ∧ u.pid = t.sid
  · obtain ⟨u, hum, hut, hu⟩ := hl
    have hu1 : (kids targets u).count t = 1 := by
      rw [count_kids_of_root h hum ht hr, if_pos ⟨hut, Or.inl hu⟩]
    have hus : u ≠ s := by rintro rfl; exact hsid hu
    have := two_le_sum_map hum hsm hus hu1 hs1
      (f := fun u => (kids targets u).count t)
    omega
  · have hi : t ∈ independentRoots targets :=
      (mem_independentRoots h).mpr ⟨ht, hr, fun u hum hut he => hl ⟨u, hum, hut, he⟩⟩
    rw [hnodup.count, if_pos hi] at hcount
    have : (kids targets s).count t ≤ (targets.map fun u => (kids targets u).count t).sum :=
      List.single_le_sum (by simp) _ (List.mem_map_of_mem hsm)
    omega

omit hfirst hir in
/-- A restart that ends and leaves no target out has no cycle. -/
theorem noCycle_of_run (hperm : (calls.map (·.target)).Perm targets) : NoCycle targets := by
  have acc : ∀ c, Acc (Spawning.Makes (spawns targets (independentRoots targets))) c →
      c ∈ calls → Acc (fun a b => Brings targets b a) c.target := by
    intro c hacc
    induction hacc with
    | intro c _ ih =>
      intro hc
      refine Acc.intro _ fun t hb => ?_
      have hm : t ∈ (spawns targets (independentRoots targets) c).map (·.target) := by
        rw [map_target_spawns]
        exact List.mem_append_right _ (mem_kids_of_brings h hb)
      obtain ⟨d, hd, rfl⟩ := List.mem_map.mp hm
      exact ih d hd (run_closed hrun hc hd)
  intro t hcycle
  have ht : t ∈ targets := by
    obtain ⟨u, hb, -⟩ := TransGen.head'_iff.mp hcycle
    exact hb.1
  obtain ⟨c, hc, rfl⟩ := List.mem_map.mp (hperm.mem_iff.mpr ht)
  have hacc := (acc c (Spawning.acc_of_spawnAll _ hrun c hc) hc).transGen
  exact not_rel_self_of_acc hacc (transGen_swap.mpr hcycle)

end Run

/-! ## The criterion -/

include h in
/-- A restart that recreates its targets meets the criterion. -/
theorem criterion_of_recreates (hrec : Recreates targets) :
    LeadersLead targets ∧ NoCycle targets := by
  obtain ⟨fuel, calls, hrun, hby⟩ := hrec
  rw [processTargets, if_neg (by simp [rootsAgree_eq_true h])] at hrun
  split at hrun
  · -- Nothing was created, so there are no targets.
    obtain rfl := Option.some.inj hrun
    obtain rfl : targets = [] := hby.once.nil_eq.symm
    refine ⟨fun t ht => absurd ht List.not_mem_nil, fun t hcycle => ?_⟩
    obtain ⟨u, hb, -⟩ := TransGen.head'_iff.mp hcycle
    cases hb.1
  · rename_i ir irs hirs
    obtain ⟨hfirst, hir⟩ := firstCall_spec ir irs
    rw [← hirs] at hrun hir
    exact ⟨leadersLead_of_run h hfirst hir hrun hby.once,
      noCycle_of_run h hrun hby.once⟩

include h in
/-- The criterion is enough. -/
theorem recreates_of_criterion (hl : LeadersLead targets) (hn : NoCycle targets) :
    Recreates targets := by
  by_cases hne : targets = []
  · subst hne
    exact ⟨0, [], rfl, List.Perm.refl _, fun c hc => nomatch hc⟩
  · obtain ⟨ir, irs, hirs⟩ := List.exists_cons_of_ne_nil (independentRoots_ne_nil h hn hne)
    obtain ⟨hfirst, hir⟩ := firstCall_spec ir irs
    rw [← hirs] at hir
    obtain ⟨fuel, calls, hrun⟩ := Spawning.exists_spawnAll _
      (acc_call h hl hn (fun t ht => ((mem_independentRoots h).mp ht).1) (firstCall ir irs))
    refine ⟨fuel, calls, ?_, List.perm_iff_count.mpr fun t => ?_,
      fun c hc p hp => forkedBy_parent h hfirst hir hrun hc hp⟩
    · rw [processTargets, if_neg (by simp [rootsAgree_eq_true h])]
      simp only [hirs, ← hrun]
    · by_cases ht : t ∈ targets
      · rw [count_eq_one h hfirst hir hrun hl hn t ht, h.nodup.count, if_pos ht]
      · rw [List.count_eq_zero.mpr ht, List.count_eq_zero]
        intro hm
        obtain ⟨c, hc, rfl⟩ := List.mem_map.mp hm
        exact ht (run_target_mem h hir hrun hc)

include h in
/-- **The criterion.**  A restart from a consistent set of targets recreates it
exactly when every root whose group was led by another target was also in a
session led by that target, and nothing brings itself about. -/
theorem recreates_iff : Recreates targets ↔ LeadersLead targets ∧ NoCycle targets :=
  ⟨criterion_of_recreates h, fun ⟨hl, hn⟩ => recreates_of_criterion h hl hn⟩

/-! ## A set that is recreated and one that is not -/

/-- Ids grow along a relation each step of which raises them. -/
theorem xndPid_lt_of_transGen {r : XndRestartTarget → XndRestartTarget → Prop}
    (hr : ∀ u t, r u t → u.xndPid < t.xndPid) {u t : XndRestartTarget} (hut : TransGen r u t) :
    u.xndPid < t.xndPid := by
  induction hut with
  | single hb => exact hr _ _ hb
  | tail _ hb ih => exact ih.trans (hr _ _ hb)

/-- Parents are listed and have smaller ids, so founders are checked pair by
pair. -/
theorem founders_of_lt (hlt : ∀ t ∈ targets, t.xndPpid < t.xndPid)
    (hf : ∀ t ∈ targets, ∀ s ∈ targets, t.xndPid < s.xndPid → t.sid ≠ s.pid)
    (t s : XndRestartTarget) (hts : TransGen (ParentOf targets) t s) : t.sid ≠ s.pid := by
  obtain ⟨c, hc, -⟩ := TransGen.head'_iff.mp hts
  obtain ⟨p, -, hp⟩ := TransGen.tail'_iff.mp hts
  refine hf t hc.1 s hp.2.1 (xndPid_lt_of_transGen (fun u v huv => ?_) hts)
  rw [huv.2.2]
  exact hlt v huv.2.1

/-- The leader of a session and of its group. -/
def sessionLeader : XndRestartTarget := ⟨50, 1, 50, 50, 1000, 999, true⟩

/-- Its child, the leader of a group of its own. -/
def groupLeader : XndRestartTarget := ⟨100, 50, 100, 50, 1001, 1000, false⟩

/-- A member of that group whose own parent has exited. -/
def orphanedMember : XndRestartTarget := ⟨101, 1, 100, 50, 1003, 1002, true⟩

/-- With the leader of the session among the targets, and the group of the
member its own, every target is recreated. -/
theorem recreates_session :
    Recreates [sessionLeader, groupLeader, { orphanedMember with pgid := 50 }] := by
  have hc : Consistent [sessionLeader, groupLeader, { orphanedMember with pgid := 50 }] :=
    { pids := by decide, xndPids := by decide, roots := by decide, ppid_lt := by decide
      groups := by decide, sessionLeaders := by decide, groupLeaders := by decide
      founders := founders_of_lt (by decide) (by decide) }
  refine (recreates_iff hc).mpr ⟨by decide, fun t ht => ?_⟩
  refine lt_irrefl _ (xndPid_lt_of_transGen (fun u v huv => ?_) ht)
  have step : ∀ u ∈ [sessionLeader, groupLeader, { orphanedMember with pgid := 50 }],
      ∀ v ∈ [sessionLeader, groupLeader, { orphanedMember with pgid := 50 }],
        (u.xndPid = v.xndPpid ∨ (v.isRootOfTree = true ∧ u ≠ v ∧ u.pid = v.sid)) →
          u.xndPid < v.xndPid := by decide
  exact step u huv.1 v huv.2.1 huv.2.2

/-- Without it, the group leader is a root: it creates the member as an
independent root and once more as a member of its group. -/
theorem not_recreates_group :
    Consistent [{ groupLeader with isRootOfTree := true }, orphanedMember] ∧
      ¬ Recreates [{ groupLeader with isRootOfTree := true }, orphanedMember] := by
  have hc : Consistent [{ groupLeader with isRootOfTree := true }, orphanedMember] :=
    { pids := by decide, xndPids := by decide, roots := by decide, ppid_lt := by decide
      groups := by decide, sessionLeaders := by decide, groupLeaders := by decide
      founders := founders_of_lt (by decide) (by decide) }
  refine ⟨hc, fun hrec => ?_⟩
  have hl := (criterion_of_recreates hc hrec).1
  revert hl
  decide

example : (processTargets [{ groupLeader with isRootOfTree := true }, orphanedMember] 2).map
    (·.map (·.target.pid)) = some [100, 101, 101] := by decide

end Xnd.Restart
