import Xnd.Pid.Forks

/-!
# Children that are waited for

`__fork_hook` puts the entry of a child in the table of its parent, and `__wait4_hook`
finds it there by the real id that `wait4` returned.  A child of the child inherits a
copy of the table, with entries of processes that it will never wait for; they stay when
those processes are gone and their real ids are given out again.

The processes are a tree with the operating system around it.  Each has one thread here.
The assertion of `pid_table_atfork_child` changes nothing when it holds; a child that
fails it exits.
-/
namespace Xnd.Coord.PidTable

/-- A real id that one entry has is found as that entry, whatever the iteration order. -/
theorem realToVirtual_of_unique {t : PidTable} {virt real : Int}
    (hl : t.lookup virt = some real) (hunique : ∀ v, t.lookup v = some real → v = virt) (i : Nat) :
    t.realToVirtual i real = virt := by
  have hmem : (virt, real) ∈ t.entries.filter (·.2 = real) :=
    List.mem_filter.mpr ⟨t.mem_entries_iff.mpr hl, by simp⟩
  have hlt := Nat.mod_lt i (List.length_pos_of_mem hmem)
  have hall : ∀ e ∈ t.entries.filter (·.2 = real), e.1 = virt := by
    intro e he
    obtain ⟨he, hreal⟩ := List.mem_filter.mp he
    exact hunique e.1 (t.mem_entries_iff.mp (of_decide_eq_true hreal ▸ he))
  simp only [realToVirtual, List.getElem?_eq_getElem hlt]
  exact hall _ (List.getElem_mem hlt)

/-- Every entry of a real id is found first in some iteration order. -/
theorem exists_realToVirtual {t : PidTable} {virt real : Int} (hl : t.lookup virt = some real) :
    ∃ i, t.realToVirtual i real = virt := by
  have hmem : (virt, real) ∈ t.entries.filter (·.2 = real) :=
    List.mem_filter.mpr ⟨t.mem_entries_iff.mpr hl, by simp⟩
  obtain ⟨i, hlt, hget⟩ := List.mem_iff_getElem.mp hmem
  refine ⟨i, ?_⟩
  simp only [realToVirtual, Nat.mod_eq_of_lt hlt, List.getElem?_eq_getElem hlt, hget]
  rfl

end Xnd.Coord.PidTable

namespace Xnd.Pid
open Coord (PidTable)

/-! ## `__wait4_hook` -/

inductive ExitKind where
  | exited | signaled
  deriving DecidableEq, Repr

/-- What `__wait4_hook` meets when `wait4` reaps a child: how it ended, where the iteration of
the table begins, and what the coordinator would answer. -/
structure WaitAnswer where
  kind : ExitKind
  order : Nat
  virtFromCoord : Int
  realFromCoord : Int
  deriving DecidableEq, Repr

/-- `real_to_virtual_pid` -/
def realToVirtualPid (t : PidTable) (order : Nat) (fromCoord real : Int) : Int :=
  if t.realToVirtual order real ≠ -1 then t.realToVirtual order real else fromCoord

/-- `virtual_to_real_pid` -/
def virtualToRealPid (t : PidTable) (fromCoord virt : Int) : Int :=
  if t.virtualToReal virt ≠ -1 then t.virtualToReal virt else fromCoord

structure WaitResult where
  virtRet : Int
  table : PidTable
  /-- The argument of `notify_coord_of_exit`. -/
  notified : Option Int

/-- The second switch of `__wait4_hook`, when `wait4` returns a child. -/
def wait4Reap (t : PidTable) (a : WaitAnswer) (realRet : Int) : WaitResult :=
  let virtRet := realToVirtualPid t a.order a.virtFromCoord realRet
  { virtRet := virtRet
    table := t.erase virtRet
    notified := match a.kind with
      | .exited => none
      | .signaled => some (virtualToRealPid t a.realFromCoord virtRet) }

/-- `__wait4_hook` returns the id of the child and takes its entry and no other out of the
table. -/
structure Reaps (t : PidTable) (virt real : Int) (r : WaitResult) : Prop where
  virtRet : r.virtRet = virt
  had : t.lookup virt = some real
  erased : r.table.lookup virt = none
  others : ∀ v, v ≠ virt → r.table.lookup v = t.lookup v

/-- With the entry of the child in the table, what a wait does is right whatever the iteration
order if and only if no other entry has the real id of the child. -/
theorem reaps_iff {t : PidTable} {virt real : Int} (hl : t.lookup virt = some real)
    (hvirt : virt ≠ -1) :
    (∀ a, Reaps t virt real (wait4Reap t a real)) ↔ ∀ v, t.lookup v = some real → v = virt := by
  constructor
  · intro h v hv
    by_cases hv1 : v = -1
    · -- the entry of -1 makes the hook ask the coordinator, which may answer anything
      obtain ⟨i, hi⟩ := PidTable.exists_realToVirtual hv
      have hret := (h ⟨.exited, i, virt + 1, 0⟩).virtRet
      simp only [wait4Reap, realToVirtualPid, hi, hv1, ne_eq, not_true_eq_false, if_false] at hret
      omega
    · obtain ⟨i, hi⟩ := PidTable.exists_realToVirtual hv
      have hret := (h ⟨.exited, i, 0, 0⟩).virtRet
      simp only [wait4Reap, realToVirtualPid, hi, ne_eq, hv1, not_false_eq_true, if_true] at hret
      exact hret
  · intro hunique a
    have hret : (wait4Reap t a real).virtRet = virt := by
      simp only [wait4Reap, realToVirtualPid, PidTable.realToVirtual_of_unique hl hunique,
        ne_eq, hvirt, not_false_eq_true, if_true]
    have htable : (wait4Reap t a real).table = t.erase virt := congrArg t.erase hret
    refine ⟨hret, hl, ?_, fun v hv => ?_⟩
    · rw [htable]
      exact t.lookup_erase_self virt
    · rw [htable]
      exact t.lookup_erase_of_ne hv

/-! ## The processes -/

inductive RunState where
  | running | zombie | reaped
  deriving DecidableEq, Repr

structure Process where
  realPid : Int
  parent : Option Nat
  state : RunState
  pidTable : PidTable
  /-- What `__fork_hook` returned for the process in its parent. -/
  forkRet : Int

structure Tree where
  procs : List Process
  nextVirtPid : Int

inductive TreeAction where
  /-- `__fork_hook`; the operating system gives the child this real id. -/
  | fork (p : Nat) (real : Int)
  | exit (p : Nat)
  /-- `__wait4_hook`; `wait4` returns this child. -/
  | wait (p c : Nat) (a : WaitAnswer)
  /-- A process whose parent is gone is reaped by the system. -/
  | orphan (c : Nat)
  deriving DecidableEq, Repr

/-- A process after `pid_table_init_pid_info`, when the coordinator, which counts from 1, has
handed out `ids` ids before. -/
def Tree.init (realPid realPpid : Int) (ids : Nat) : Tree where
  procs :=
    [{ realPid := realPid, parent := none, state := .running
       pidTable := (PidTable.empty.update (ids + 2) realPid).update (ids + 1) realPpid
       forkRet := ids + 2 }]
  nextVirtPid := ids + 3

/-- Some process that is not reaped has the real id. -/
def Tree.Live (w : Tree) (real : Int) : Prop := ∃ P ∈ w.procs, P.state ≠ .reaped ∧ P.realPid = real

instance (w : Tree) (real : Int) : Decidable (w.Live real) :=
  inferInstanceAs (Decidable (∃ P ∈ w.procs, _))

/-- The child is there for `wait4` of the process. -/
structure Tree.Waitable (w : Tree) (p c : Nat) (P C : Process) : Prop where
  caller : w.procs[p]? = some P
  child : w.procs[c]? = some C
  running : P.state = .running
  zombie : C.state = .zombie
  parent : C.parent = some p

/-- The entry of a child goes into the table of its parent, and into its own copy in
`pid_table_atfork_child`. -/
def Tree.forked (w : Tree) (p : Nat) (P : Process) (real : Int) : Tree where
  procs := w.procs.set p { P with pidTable := P.pidTable.update w.nextVirtPid real } ++
    [{ realPid := real, parent := some p, state := .running
       pidTable := P.pidTable.update w.nextVirtPid real, forkRet := w.nextVirtPid }]
  nextVirtPid := w.nextVirtPid + 1

def treeStep : Machine Tree TreeAction
  | w, .fork p real => do
      let P ← w.procs[p]?
      guarded (P.state = .running ∧ ¬ w.Live real) (w.forked p P real)
  | w, .exit p => do
      let P ← w.procs[p]?
      guarded (P.state = .running) { w with procs := w.procs.set p { P with state := .zombie } }
  | w, .wait p c a => do
      let P ← w.procs[p]?
      let C ← w.procs[c]?
      guarded (p ≠ c ∧ P.state = .running ∧ C.state = .zombie ∧ C.parent = some p)
        { w with
          procs := (w.procs.set c { C with state := .reaped }).set p
            { P with pidTable := (wait4Reap P.pidTable a C.realPid).table } }
  | w, .orphan c => do
      let C ← w.procs[c]?
      let p ← C.parent
      let P ← w.procs[p]?
      guarded (P.state ≠ .running ∧ C.state = .zombie)
        { w with procs := w.procs.set c { C with state := .reaped } }

/-- The system gives a child a real id that no entry in the table of the parent has. -/
def FreshIn (w : Tree) : TreeAction → Prop
  | .fork p real => ∀ P ∈ w.procs[p]?, ¬ P.pidTable.realIdExists real = true
  | _ => True

instance (w : Tree) (a : TreeAction) : Decidable (FreshIn w a) := by
  cases a <;> simp only [FreshIn] <;> infer_instance

/-! ## The invariant -/

/-- In the table of its parent, a child that is not reaped has one entry, under the id that
`__fork_hook` returned. -/
def Tree.Entered (w : Tree) : Prop :=
  ∀ (p c : Nat) (P C : Process), w.procs[p]? = some P → w.procs[c]? = some C →
    P.state = .running → C.state ≠ .reaped → C.parent = some p →
    ∀ v, P.pidTable.lookup v = some C.realPid ↔ v = C.forkRet

structure TreeOk (w : Tree) : Prop where
  entered : w.Entered
  live : ∀ (c c' : Nat) (C C' : Process), w.procs[c]? = some C → w.procs[c']? = some C' →
    C.state ≠ .reaped → C'.state ≠ .reaped → C.realPid = C'.realPid → c = c'
  below : ∀ P ∈ w.procs, 0 < P.forkRet ∧ P.forkRet < w.nextVirtPid
  distinct : ∀ (c c' : Nat) (C C' : Process), w.procs[c]? = some C → w.procs[c']? = some C' →
    C.forkRet = C'.forkRet → c = c'
  parents : ∀ P ∈ w.procs, ∀ p, P.parent = some p → p < w.procs.length

theorem treeOk_init (realPid realPpid : Int) (ids : Nat) :
    TreeOk (.init realPid realPpid ids) where
  entered p c P C _ hc _ _ hp := by
    obtain rfl := List.mem_singleton.mp (List.mem_of_getElem? hc)
    cases hp
  live c c' C C' hc hc' _ _ _ := by
    have h0 := (List.getElem?_eq_some_iff.mp hc).1
    have h1 := (List.getElem?_eq_some_iff.mp hc').1
    simp only [Tree.init, List.length_singleton] at h0 h1
    omega
  below P hP := by
    obtain rfl := List.mem_singleton.mp hP
    simp only [Tree.init]
    omega
  distinct c c' C C' hc hc' _ := by
    have h0 := (List.getElem?_eq_some_iff.mp hc).1
    have h1 := (List.getElem?_eq_some_iff.mp hc').1
    simp only [Tree.init, List.length_singleton] at h0 h1
    omega
  parents P hP p hp := by
    obtain rfl := List.mem_singleton.mp hP
    cases hp

/-! ## The steps -/

/-- A process after a step that is no fork: it may have ended, or its table have changed. -/
structure Process.Keeps (P P' : Process) : Prop where
  realPid : P'.realPid = P.realPid
  parent : P'.parent = P.parent
  forkRet : P'.forkRet = P.forkRet
  running : P'.state = .running → P.state = .running
  reaped : P'.state ≠ .reaped → P.state ≠ .reaped

theorem Process.Keeps.refl (P : Process) : P.Keeps P := ⟨rfl, rfl, rfl, id, id⟩

theorem TreeOk.of_keeps {w : Tree} (h : TreeOk w) {procs : List Process}
    (hlen : procs.length = w.procs.length)
    (hkeeps : ∀ (i : Nat) (P' : Process), procs[i]? = some P' →
      ∃ P, w.procs[i]? = some P ∧ P.Keeps P')
    (hentered : Tree.Entered { w with procs := procs }) : TreeOk { w with procs := procs } where
  entered := hentered
  live c c' C C' hc hc' hs hs' hreal := by
    obtain ⟨C₀, hc₀, hk⟩ := hkeeps c C hc
    obtain ⟨C₀', hc₀', hk'⟩ := hkeeps c' C' hc'
    refine h.live c c' C₀ C₀' hc₀ hc₀' (hk.reaped hs) (hk'.reaped hs') ?_
    rw [← hk.realPid, ← hk'.realPid, hreal]
  below P hP := by
    obtain ⟨i, hi⟩ := List.mem_iff_getElem?.mp hP
    obtain ⟨P₀, hP₀, hk⟩ := hkeeps i P hi
    rw [hk.forkRet]
    exact h.below P₀ (List.mem_of_getElem? hP₀)
  distinct c c' C C' hc hc' hret := by
    obtain ⟨C₀, hc₀, hk⟩ := hkeeps c C hc
    obtain ⟨C₀', hc₀', hk'⟩ := hkeeps c' C' hc'
    apply h.distinct c c' C₀ C₀' hc₀ hc₀'
    rw [← hk.forkRet, ← hk'.forkRet, hret]
  parents P hP p hp := by
    obtain ⟨i, hi⟩ := List.mem_iff_getElem?.mp hP
    obtain ⟨P₀, hP₀, hk⟩ := hkeeps i P hi
    show p < procs.length
    rw [hlen]
    exact h.parents P₀ (List.mem_of_getElem? hP₀) p (hk.parent ▸ hp)

/-- One process changes its state. -/
theorem keeps_set {procs : List Process} {p : Nat} {P P' : Process} (hP : procs[p]? = some P)
    (hk : P.Keeps P') (i : Nat) (Q' : Process) (hQ : (procs.set p P')[i]? = some Q') :
    ∃ Q, procs[i]? = some Q ∧ Q.Keeps Q' := by
  by_cases hi : i = p
  · subst hi
    rw [List.getElem?_set_self (List.getElem?_eq_some_iff.mp hP).1] at hQ
    obtain rfl := Option.some.inj hQ
    exact ⟨P, hP, hk⟩
  · rw [List.getElem?_set_ne (Ne.symm hi)] at hQ
    exact ⟨Q', hQ, .refl Q'⟩

theorem table_set {procs : List Process} {p : Nat} {P P' : Process} (hP : procs[p]? = some P)
    (ht : P'.pidTable = P.pidTable) {i : Nat} {Q Q' : Process} (hQ : procs[i]? = some Q)
    (hQ' : (procs.set p P')[i]? = some Q') : Q'.pidTable = Q.pidTable := by
  by_cases hi : i = p
  · subst hi
    rw [List.getElem?_set_self (List.getElem?_eq_some_iff.mp hP).1] at hQ'
    obtain rfl := Option.some.inj hQ'
    rw [ht, Option.some.inj (hP.symm.trans hQ)]
  · rw [List.getElem?_set_ne (Ne.symm hi)] at hQ'
    rw [Option.some.inj (hQ.symm.trans hQ')]

/-- A process ends or is reaped. -/
theorem TreeOk.setState {w : Tree} (h : TreeOk w) {p : Nat} {P P' : Process}
    (hP : w.procs[p]? = some P) (hk : P.Keeps P') (ht : P'.pidTable = P.pidTable) :
    TreeOk { w with procs := w.procs.set p P' } := by
  apply h.of_keeps List.length_set (keeps_set hP hk)
  intro q c Q C hq hc hrun hreaped hparent v
  obtain ⟨Q₀, hq₀, hkq⟩ := keeps_set hP hk q Q hq
  obtain ⟨C₀, hc₀, hkc⟩ := keeps_set hP hk c C hc
  rw [table_set hP ht hq₀ hq, hkc.realPid, hkc.forkRet]
  exact h.entered q c Q₀ C₀ hq₀ hc₀ (hkq.running hrun) (hkc.reaped hreaped) (hkc.parent ▸ hparent) v

/-- What a wait does, with one entry for the child in the table. -/
theorem TreeOk.reaps {w : Tree} (h : TreeOk w) {p c : Nat} {P C : Process}
    (hw : w.Waitable p c P C) (a : WaitAnswer) :
    Reaps P.pidTable C.forkRet C.realPid (wait4Reap P.pidTable a C.realPid) := by
  have hreaped : C.state ≠ .reaped := by
    rw [hw.zombie]
    exact RunState.noConfusion
  have hentered := h.entered p c P C hw.caller hw.child hw.running hreaped hw.parent
  have hpos := (h.below C (List.mem_of_getElem? hw.child)).1
  exact (reaps_iff ((hentered C.forkRet).mpr rfl) (by omega)).mpr (fun v => (hentered v).mp) a

theorem TreeOk.wait {w : Tree} (h : TreeOk w) {p c : Nat} {P C : Process} (hpc : p ≠ c)
    (hw : w.Waitable p c P C) (a : WaitAnswer) :
    TreeOk { w with
      procs := (w.procs.set c { C with state := .reaped }).set p
        { P with pidTable := (wait4Reap P.pidTable a C.realPid).table } } := by
  have hr := h.reaps hw a
  have hk : C.Keeps { C with state := .reaped } :=
    ⟨rfl, rfl, rfl, RunState.noConfusion, fun hne => absurd rfl hne⟩
  have h₁ := h.setState hw.child hk rfl
  have hP₁ : (w.procs.set c { C with state := .reaped })[p]? = some P := by
    rw [List.getElem?_set_ne (Ne.symm hpc)]
    exact hw.caller
  have hkp : P.Keeps { P with pidTable := (wait4Reap P.pidTable a C.realPid).table } :=
    ⟨rfl, rfl, rfl, id, id⟩
  apply h₁.of_keeps List.length_set (keeps_set hP₁ hkp)
  intro q d Q D hq hd hrun hreaped hparent v
  obtain ⟨Q₀, hq₀, hkq⟩ := keeps_set hP₁ hkp q Q hq
  obtain ⟨D₀, hd₀, hkd⟩ := keeps_set hP₁ hkp d D hd
  have hold := h₁.entered q d Q₀ D₀ hq₀ hd₀ (hkq.running hrun) (hkd.reaped hreaped)
    (hkd.parent ▸ hparent) v
  rw [hkd.realPid, hkd.forkRet, ← hold]
  by_cases hqp : q = p
  · subst hqp
    rw [List.getElem?_set_self (List.getElem?_eq_some_iff.mp hP₁).1] at hq
    obtain rfl := Option.some.inj hq
    obtain rfl := Option.some.inj (hP₁.symm.trans hq₀)
    by_cases hv : v = C.forkRet
    · -- the entry that was erased is that of another child
      have hdc : d ≠ c := by
        rintro rfl
        rw [List.getElem?_set_self (List.getElem?_eq_some_iff.mp hw.child).1] at hd₀
        obtain rfl := Option.some.inj hd₀
        exact hkd.reaped hreaped rfl
      subst hv
      rw [hr.erased]
      constructor
      · intro hn
        cases hn
      · intro hl
        have hret := hold.mp hl
        rw [List.getElem?_set_ne (Ne.symm hdc)] at hd₀
        exact absurd (h.distinct c d C D₀ hw.child hd₀ hret).symm hdc
    · rw [hr.others v hv]
  · rw [List.getElem?_set_ne (Ne.symm hqp)] at hq
    rw [Option.some.inj (hq.symm.trans hq₀)]

/-- After a fork: the processes from before, with the entry in the table of the parent, and
the child. -/
theorem forked_cases {w : Tree} {p : Nat} {P : Process} {real : Int} (hP : w.procs[p]? = some P)
    {i : Nat} {Q' : Process} (hQ : (w.forked p P real).procs[i]? = some Q') :
    (∃ Q, w.procs[i]? = some Q ∧ Q.Keeps Q' ∧
      ((i = p ∧ Q'.pidTable = Q.pidTable.update w.nextVirtPid real) ∨
        i ≠ p ∧ Q'.pidTable = Q.pidTable)) ∨
    (i = w.procs.length ∧ Q'.realPid = real ∧ Q'.parent = some p ∧ Q'.forkRet = w.nextVirtPid) := by
  rcases getElem?_snoc_cases hQ with hQ | ⟨hi, rfl⟩
  · left
    by_cases hi : i = p
    · subst hi
      rw [List.getElem?_set_self (List.getElem?_eq_some_iff.mp hP).1] at hQ
      obtain rfl := Option.some.inj hQ
      exact ⟨P, hP, ⟨rfl, rfl, rfl, id, id⟩, .inl ⟨rfl, rfl⟩⟩
    · rw [List.getElem?_set_ne (Ne.symm hi)] at hQ
      exact ⟨Q', hQ, .refl Q', .inr ⟨hi, rfl⟩⟩
  · right
    rw [List.length_set] at hi
    exact ⟨hi, rfl, rfl, rfl⟩

theorem TreeOk.fork {w : Tree} (h : TreeOk w) {p : Nat} {P : Process} {real : Int}
    (hP : w.procs[p]? = some P) (hlive : ¬ w.Live real)
    (hfresh : ¬ P.pidTable.realIdExists real = true) : TreeOk (w.forked p P real) := by
  have hpos : 0 < w.nextVirtPid := by
    have := h.below P (List.mem_of_getElem? hP)
    omega
  have hother : ∀ (c : Nat) (C : Process), w.procs[c]? = some C → C.state ≠ .reaped →
      C.realPid ≠ real :=
    fun c C hc hs hreal => hlive ⟨C, List.mem_of_getElem? hc, hs, hreal⟩
  constructor
  case entered =>
    intro q c Q C hq hc hrun hreaped hparent v
    rcases forked_cases hP hc with ⟨C₀, hc₀, hkc, -⟩ | ⟨rfl, hreal, hp, hret⟩
    · have hC := hother c C₀ hc₀ (hkc.reaped hreaped)
      have hlt := (h.below C₀ (List.mem_of_getElem? hc₀)).2
      have hparent₀ : C₀.parent = some q := hkc.parent ▸ hparent
      rcases forked_cases hP hq with ⟨Q₀, hq₀, hkq, ⟨rfl, ht⟩ | ⟨-, ht⟩⟩ | ⟨rfl, -⟩
      · have hold := h.entered q c Q₀ C₀ hq₀ hc₀ (hkq.running hrun) (hkc.reaped hreaped) hparent₀ v
        rw [ht, hkc.realPid, hkc.forkRet]
        by_cases hv : v = w.nextVirtPid
        · subst hv
          rw [PidTable.lookup_update_self, Option.some.injEq]
          constructor
          · intro heq
            exact absurd heq.symm hC
          · intro heq
            omega
        · rw [PidTable.lookup_update_of_ne _ hv]
          exact hold
      · rw [ht, hkc.realPid, hkc.forkRet]
        exact h.entered q c Q₀ C₀ hq₀ hc₀ (hkq.running hrun) (hkc.reaped hreaped) hparent₀ v
      · -- the child has no children yet
        have := h.parents C₀ (List.mem_of_getElem? hc₀) _ hparent₀
        omega
    · obtain rfl := Option.some.inj (hp.symm.trans hparent)
      rcases forked_cases hP hq with ⟨Q₀, hq₀, -, ⟨-, ht⟩ | ⟨hne, -⟩⟩ | ⟨hlen, -⟩
      · obtain rfl := Option.some.inj (hP.symm.trans hq₀)
        rw [ht, hreal, hret]
        by_cases hv : v = w.nextVirtPid
        · rw [hv, PidTable.lookup_update_self]
          simp
        · rw [PidTable.lookup_update_of_ne _ hv]
          constructor
          · intro hl
            refine absurd ?_ hfresh
            have hmem := P.pidTable.mem_entries_iff.mpr hl
            exact List.any_eq_true.mpr ⟨_, hmem, by simp⟩
          · intro heq
            exact absurd heq hv
      · exact absurd rfl hne
      · have := (List.getElem?_eq_some_iff.mp hP).1
        omega
  case live =>
    intro c c' C C' hc hc' hs hs' hreal
    rcases forked_cases hP hc with ⟨C₀, hc₀, hk, -⟩ | ⟨rfl, hr, -⟩ <;>
      rcases forked_cases hP hc' with ⟨C₀', hc₀', hk', -⟩ | ⟨rfl, hr', -⟩
    · refine h.live c c' C₀ C₀' hc₀ hc₀' (hk.reaped hs) (hk'.reaped hs') ?_
      rw [← hk.realPid, ← hk'.realPid, hreal]
    · refine absurd ?_ (hother c C₀ hc₀ (hk.reaped hs))
      rw [← hk.realPid, hreal, hr']
    · refine absurd ?_ (hother c' C₀' hc₀' (hk'.reaped hs'))
      rw [← hk'.realPid, ← hreal, hr]
    · rfl
  case below =>
    intro Q hQ
    obtain ⟨i, hi⟩ := List.mem_iff_getElem?.mp hQ
    rcases forked_cases hP hi with ⟨Q₀, hq₀, hk, -⟩ | ⟨-, -, -, hret⟩
    · have := h.below Q₀ (List.mem_of_getElem? hq₀)
      rw [hk.forkRet]
      exact ⟨this.1, Int.lt_trans this.2 (Int.lt_succ _)⟩
    · rw [hret]
      exact ⟨hpos, Int.lt_succ _⟩
  case distinct =>
    intro c c' C C' hc hc' hret
    rcases forked_cases hP hc with ⟨C₀, hc₀, hk, -⟩ | ⟨rfl, -, -, hr⟩ <;>
      rcases forked_cases hP hc' with ⟨C₀', hc₀', hk', -⟩ | ⟨rfl, -, -, hr'⟩
    · apply h.distinct c c' C₀ C₀' hc₀ hc₀'
      rw [← hk.forkRet, ← hk'.forkRet, hret]
    · have := (h.below C₀ (List.mem_of_getElem? hc₀)).2
      rw [hk.forkRet, hr'] at hret
      omega
    · have := (h.below C₀' (List.mem_of_getElem? hc₀')).2
      rw [hk'.forkRet, hr] at hret
      omega
    · rfl
  case parents =>
    intro Q hQ q hq
    have hlen : (w.forked p P real).procs.length = w.procs.length + 1 := by simp [Tree.forked]
    obtain ⟨i, hi⟩ := List.mem_iff_getElem?.mp hQ
    rcases forked_cases hP hi with ⟨Q₀, hq₀, hk, -⟩ | ⟨-, -, hp, -⟩
    · have := h.parents Q₀ (List.mem_of_getElem? hq₀) q (hk.parent ▸ hq)
      omega
    · obtain rfl := Option.some.inj (hp.symm.trans hq)
      have := (List.getElem?_eq_some_iff.mp hP).1
      omega

theorem TreeOk.step {w w' : Tree} {a : TreeAction} (h : TreeOk w) (ha : FreshIn w a)
    (hs : treeStep w a = some w') : TreeOk w' := by
  cases a with
  | fork p real =>
      obtain ⟨P, hP, hs⟩ := Option.bind_eq_some_iff.mp hs
      obtain ⟨⟨-, hlive⟩, rfl⟩ := guarded_eq_some.mp hs
      exact h.fork hP hlive (ha P hP)
  | exit p =>
      obtain ⟨P, hP, hs⟩ := Option.bind_eq_some_iff.mp hs
      obtain ⟨hrun, rfl⟩ := guarded_eq_some.mp hs
      refine h.setState hP ⟨rfl, rfl, rfl, RunState.noConfusion, fun _ => ?_⟩ rfl
      rw [hrun]
      exact RunState.noConfusion
  | wait p c a =>
      obtain ⟨P, hP, hs⟩ := Option.bind_eq_some_iff.mp hs
      obtain ⟨C, hC, hs⟩ := Option.bind_eq_some_iff.mp hs
      obtain ⟨⟨hpc, hrun, hzombie, hparent⟩, rfl⟩ := guarded_eq_some.mp hs
      exact h.wait hpc ⟨hP, hC, hrun, hzombie, hparent⟩ a
  | orphan c =>
      obtain ⟨C, hC, hs⟩ := Option.bind_eq_some_iff.mp hs
      obtain ⟨p, hp, hs⟩ := Option.bind_eq_some_iff.mp hs
      obtain ⟨P, hP, hs⟩ := Option.bind_eq_some_iff.mp hs
      obtain ⟨-, rfl⟩ := guarded_eq_some.mp hs
      exact h.setState hC ⟨rfl, rfl, rfl, RunState.noConfusion, fun hne => absurd rfl hne⟩ rfl

/-- **Waiting for a child.**  In a run in which the system gives a child only a real id that no
entry in the table of its parent has, a wait that reaps a child returns what `__fork_hook`
returned for it, and erases its entry and no other. -/
theorem reaps_of_freshIn {realPid realPpid : Int} {ids : Nat} {w : Tree}
    (hruns : treeStep.Runs FreshIn (.init realPid realPpid ids) w) {p c : Nat} {P C : Process}
    (hw : w.Waitable p c P C) (a : WaitAnswer) :
    Reaps P.pidTable C.forkRet C.realPid (wait4Reap P.pidTable a C.realPid) :=
  (hruns.invariant (fun _ _ _ hs ha hstep => TreeOk.step hs ha hstep) (treeOk_init ..)).reaps hw a

/-- A zombie child of a process, with the two. -/
def Tree.waitable? (w : Tree) (p c : Nat) : Option (Process × Process) := do
  let P ← w.procs[p]?
  let C ← w.procs[c]?
  if P.state = .running ∧ C.state = .zombie ∧ C.parent = some p then some (P, C) else none

theorem Tree.waitable_of_eq_some {w : Tree} {p c : Nat} {P C : Process}
    (h : w.waitable? p c = some (P, C)) : w.Waitable p c P C := by
  simp only [waitable?, Option.bind_eq_bind, Option.bind_eq_some_iff,
    Option.ite_none_right_eq_some, Option.some.injEq, Prod.mk.injEq] at h
  obtain ⟨P, hP, C, hC, ⟨hrun, hzombie, hparent⟩, rfl, rfl⟩ := h
  exact ⟨hP, hC, hrun, hzombie, hparent⟩

/-- A child and a grandchild are waited for by their parents. -/
theorem reaps_grandchild : ∃ w P C, treeStep.Runs FreshIn (.init 50 1 0) w ∧ w.Waitable 1 2 P C ∧
    C.realPid = 101 ∧
    Reaps P.pidTable C.forkRet C.realPid (wait4Reap P.pidTable ⟨.signaled, 0, 0, 0⟩ C.realPid) := by
  obtain ⟨w, hruns, hw⟩ := Machine.exists_runs treeStep FreshIn (.init 50 1 0)
    (fun w => (w.waitable? 1 2).any fun x => x.2.realPid = 101)
    [.fork 0 100, .fork 1 101, .exit 2] (by decide)
  obtain ⟨⟨P, C⟩, hPC, hreal⟩ := (Option.any_eq_true ..).mp hw
  have hwait := Tree.waitable_of_eq_some hPC
  exact ⟨w, P, C, hruns, hwait, of_decide_eq_true hreal, reaps_of_freshIn hruns hwait _⟩

/-- A process has the entry of its dead brother, and gets a child with the brother's real id:
the wait for the child returns the id of the brother. -/
theorem not_reaps_reusedPid : ¬ ∀ realPid realPpid ids w,
    treeStep.Runs (fun _ _ => True) (.init realPid realPpid ids) w → ∀ p c P C,
      w.Waitable p c P C → ∀ a,
        Reaps P.pidTable C.forkRet C.realPid (wait4Reap P.pidTable a C.realPid) := by
  intro hreaps
  obtain ⟨w, hruns, hw⟩ := Machine.exists_runs treeStep (fun _ _ => True) (.init 50 1 0)
    (fun w => (w.waitable? 2 3).any fun x =>
      (wait4Reap x.1.pidTable ⟨.exited, 1, 0, 0⟩ x.2.realPid).virtRet = 3 ∧ x.2.forkRet = 5)
    [.fork 0 100, .fork 0 101, .exit 1, .wait 0 1 ⟨.exited, 0, 0, 0⟩, .fork 2 100, .exit 3]
    (by decide)
  obtain ⟨⟨P, C⟩, hPC, hret⟩ := (Option.any_eq_true ..).mp hw
  obtain ⟨hvirt, hfork⟩ := of_decide_eq_true hret
  have hr := hreaps 50 1 0 w hruns 2 3 P C (Tree.waitable_of_eq_some hPC) ⟨.exited, 1, 0, 0⟩
  have := hr.virtRet
  simp only at hvirt hfork
  omega

end Xnd.Pid
