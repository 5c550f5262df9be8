import Mathlib.Logic.Equiv.Basic
import Xnd.Coord.Translation
import Xnd.Pid.Wrappers

/-!
# Virtual ids and a change of the real ones

A restart gives the processes of a computation other real ids.  `PidRenaming` is such a
change, and two worlds that differ by it (`Renamed`) should be one world to the
program.

They are, unless a wrapper takes an id for one of the other kind: `__getpgid_hook`
compares the virtual id it is given with `_real_pid`, and the wrappers of the
`proc_list` family translate only the first quarter of the bytes that the call counts.
-/
namespace Xnd.Pid
open Coord (PidTable)

/-- A change of the real ids of tracked processes.  The kernel and `launchd` are not tracked,
and the numbers below are no ids. -/
structure PidRenaming where
  real : Int → Int
  injective : Function.Injective real
  fixed : ∀ n ≤ 1, real n = n
  above : ∀ n, 1 < n → 1 < real n

namespace PidRenaming
variable (σ : PidRenaming)

@[simp] theorem real_neg_one : σ.real (-1) = -1 := σ.fixed _ (by decide)

@[simp] theorem real_zero : σ.real 0 = 0 := σ.fixed _ (by decide)

@[simp] theorem real_eq_iff {a b : Int} : σ.real a = σ.real b ↔ a = b := σ.injective.eq_iff

theorem real_eq_neg_one_iff {a : Int} : σ.real a = -1 ↔ a = -1 := by
  rw [← σ.real_neg_one, σ.real_eq_iff, σ.real_neg_one]

theorem real_eq_zero_iff {a : Int} : σ.real a = 0 ↔ a = 0 := by
  rw [← σ.real_zero, σ.real_eq_iff, σ.real_zero]

theorem real_pos {a : Int} (h : 0 < a) : 0 < σ.real a := by
  by_cases h1 : 1 < a
  · have := σ.above a h1
    omega
  · rw [σ.fixed a (by omega)]
    exact h

/-- The change of an argument of `wait4`, which is an id or, negative, that of a group. -/
def target (t : Int) : Int := if t < 0 then -σ.real (-t) else σ.real t

theorem target_neg {real : Int} (h : 0 < real) : σ.target (-real) = -σ.real real := by
  rw [target, if_pos (by omega), Int.neg_neg]

theorem target_of_pos {real : Int} (h : 0 < real) : σ.target real = σ.real real :=
  if_neg (by omega)

/-- The table with the other real ids. -/
def table (t : PidTable) : PidTable where
  entries := t.entries.map fun e => (e.1, σ.real e.2)
  nodup := by
    rw [List.map_map]
    exact t.nodup

theorem table_lookup (t : PidTable) (v : Int) : (σ.table t).lookup v = (t.lookup v).map σ.real := by
  simp only [PidTable.lookup, table, List.find?_map, Option.map_map]
  rfl

theorem table_virtualToReal (t : PidTable) (v : Int) :
    (σ.table t).virtualToReal v = σ.real (t.virtualToReal v) := by
  rw [PidTable.virtualToReal, PidTable.virtualToReal, table_lookup]
  cases t.lookup v <;> simp

theorem table_realToVirtual (t : PidTable) (i : Nat) (r : Int) :
    (σ.table t).realToVirtual i (σ.real r) = t.realToVirtual i r := by
  have hfilter : (σ.table t).entries.filter (·.2 = σ.real r) =
      (t.entries.filter (·.2 = r)).map fun e => (e.1, σ.real e.2) := by
    simp only [table, List.filter_map]
    congr 1
    apply List.filter_congr
    intro e _
    simp
  simp only [PidTable.realToVirtual, hfilter, List.length_map, List.getElem?_map, Option.map_map]
  rfl

theorem table_erase (t : PidTable) (v : Int) : (σ.table t).erase v = σ.table (t.erase v) := by
  simp only [table, PidTable.erase, PidTable.mk.injEq, List.filter_map]
  rfl

def info (i : PidInfo) : PidInfo :=
  { i with realPid := σ.real i.realPid, realPpid := σ.real i.realPpid }

/-- The corresponding call. -/
def call : SysCall → SysCall
  | .getpgid pid => .getpgid (σ.real pid)
  | .wait4 pid options => .wait4 (σ.target pid) options
  | .kill pid sig => .kill (σ.real pid) sig
  | .killpg pgrp sig => .killpg (σ.real pgrp) sig
  | .procListpids type typeinfo => .procListpids type
      (if type = Wrappers.procPgrpOnly ∨ type = Wrappers.procPpidOnly then σ.real typeinfo
        else typeinfo)
  | .procListpgrppids pgrp => .procListpgrppids (σ.real pgrp)
  | .procListchildpids ppid => .procListchildpids (σ.real ppid)
  | .realToVirtFromCoord real => .realToVirtFromCoord (σ.real real)
  | .notifyCoordOfExit pid => .notifyCoordOfExit (σ.real pid)
  | c => c

/-- The buffer of a list has the other real ids. -/
def ListRenamed (a a' : ListAnswer) : Prop := a'.ret = a.ret ∧ a'.buf = a.buf.map (List.map σ.real)

/-- Corresponding answers to corresponding calls.  The coordinator has the virtual id of every
process whose real id changes, and the real ids it has are ids. -/
def AnswerRenamed : (c : SysCall) → c.Answer → (σ.call c).Answer → Prop
  | .getpid, r, r' | .getppid, r, r' | .getpgrp, r, r' | .getpgid _, r, r' => r' = σ.real r
  | .wait4 _ _, a, a' => a' = { a with ret := σ.real a.ret }
  | .kill _ _, r, r' | .killpg _ _, r, r' => r' = r
  | .procListpids _ _, a, a' | .procListpgrppids _, a, a' | .procListchildpids _, a, a'
  | .procListallpids, a, a' => σ.ListRenamed a a'
  | .virtToRealFromCoord _, r, r' => r' = σ.real r ∧ (r = -1 ∨ 0 < r)
  | .realToVirtFromCoord real, v, v' => v' = v ∧ (v = -1 → σ.real real = real)
  | .notifyCoordOfExit _, _, _ => True
  | .iteration, _, _ => True

/-- The system and the coordinator of the two worlds. -/
def Renamed (o o' : Oracle SysCall.Answer) : Prop := ∀ n c, σ.AnswerRenamed c (o n c) (o' n (σ.call c))

/-- The ids past the entries that a wrapper translates do not change. -/
def ListTranslated (a : ListAnswer) : Prop :=
  ∀ list ∈ a.buf, ∀ real ∈ list.drop (if a.ret > 0 then Wrappers.ListAnswer.count a else 0),
    σ.real real = real

def AnswerTranslated : (c : SysCall) → c.Answer → Prop
  | .procListpids _ _, a | .procListpgrppids _, a | .procListchildpids _, a
  | .procListallpids, a => σ.ListTranslated a
  | _, _ => True

end PidRenaming

/-- A table that maps to ids, no two to one. -/
structure GoodTable (t : PidTable) : Prop where
  injective : t.Injective
  pos : ∀ e ∈ t.entries, 0 < e.2

theorem GoodTable.erase {t : PidTable} (h : GoodTable t) (v : Int) : GoodTable (t.erase v) where
  injective := h.injective.erase v
  pos e he := h.pos e (List.mem_filter.mp he).1

theorem GoodTable.virtualToReal_pos {t : PidTable} (h : GoodTable t) {v : Int}
    (hv : t.virtualToReal v ≠ -1) : 0 < t.virtualToReal v := by
  rw [PidTable.virtualToReal] at hv ⊢
  cases hl : t.lookup v with
  | none =>
      rw [hl] at hv
      exact absurd rfl hv
  | some r => exact h.pos _ (t.mem_entries_iff.mpr hl)

/-- The order of the iteration does not matter. -/
theorem GoodTable.realToVirtual_order {t : PidTable} (h : GoodTable t) (i j : Nat) (r : Int) :
    t.realToVirtual i r = t.realToVirtual j r := by
  by_cases hex : ∃ v, t.lookup v = some r
  · obtain ⟨v, hl⟩ := hex
    rw [h.injective.realToVirtual hl i, h.injective.realToVirtual hl j]
  · have hnone : t.entries.filter (·.2 = r) = [] := by
      apply List.filter_eq_nil_iff.mpr
      rintro ⟨v, r'⟩ he hr
      obtain rfl : r' = r := of_decide_eq_true hr
      exact hex ⟨v, t.mem_entries_iff.mp he⟩
    simp [PidTable.realToVirtual, hnone]

/-! ## The wrappers in two worlds -/

namespace PidRenaming
variable (σ : PidRenaming)

/-- Answers that correspond, with lists that are translated whole. -/
def AnswerAlike (c : SysCall) (r : c.Answer) (r' : (σ.call c).Answer) : Prop :=
  σ.AnswerRenamed c r r' ∧ σ.AnswerTranslated c r

def TableAlike (t t' : PidTable) : Prop := t' = σ.table t ∧ GoodTable t

abbrev Alike {α β : Type} (R : α → β → Prop) (m : PidM α) (m' : PidM β) : Prop :=
  Code.Alike σ.call σ.AnswerAlike σ.TableAlike R m m'

/-- Real ids that correspond, as a translation returns them. -/
def RealAlike (r r' : Int) : Prop := r' = σ.real r ∧ (r = -1 ∨ 0 < r)

theorem alike_virtualToRealPid (virt : Int) :
    σ.Alike σ.RealAlike (Wrappers.virtualToRealPid virt) (Wrappers.virtualToRealPid virt) := by
  apply Code.Alike.bind Code.Alike.get
  rintro t t' ⟨rfl, ht⟩
  rw [σ.table_virtualToReal]
  apply Code.Alike.ite (not_congr σ.real_eq_neg_one_iff.symm)
  · exact fun h => Code.Alike.pure ⟨rfl, .inr (ht.virtualToReal_pos h)⟩
  · exact fun _ => (Code.Alike.call (SysCall.virtToRealFromCoord virt)).mono fun r r' h => h.1

/-- The virtual ids of real ids that correspond are the same. -/
theorem alike_realToVirtualPid (real : Int) :
    σ.Alike (fun v v' => v = v' ∧ (v = -1 → σ.real real = real)) (Wrappers.realToVirtualPid real)
      (Wrappers.realToVirtualPid (σ.real real)) := by
  apply Code.Alike.bind (Code.Alike.call SysCall.iteration)
  intro (i : Nat) (j : Nat) _
  apply Code.Alike.bind Code.Alike.get
  rintro t t' ⟨rfl, ht⟩
  rw [σ.table_realToVirtual, ht.realToVirtual_order j i]
  apply Code.Alike.ite Iff.rfl
  · exact fun h => Code.Alike.pure ⟨rfl, fun h' => absurd h' h⟩
  · intro _
    apply (Code.Alike.call (SysCall.realToVirtFromCoord real)).mono
    rintro v v' ⟨⟨rfl, hv⟩, -⟩
    exact ⟨rfl, hv⟩

variable {i : PidInfo}

theorem alike_getpid (hv : i.virtPid ≠ -1) :
    σ.Alike Eq (Wrappers.getpidHook i) (Wrappers.getpidHook (σ.info i)) :=
  Code.Alike.ite Iff.rfl (fun _ => Code.Alike.pure rfl) fun h => absurd hv h

theorem alike_getppid (hv : i.virtPpid ≠ -1) :
    σ.Alike Eq (Wrappers.getppidHook i) (Wrappers.getppidHook (σ.info i)) :=
  Code.Alike.ite Iff.rfl (fun _ => Code.Alike.pure rfl) fun h => absurd hv h

theorem alike_getpgrp : σ.Alike Eq (Wrappers.getpgrpHook i) (Wrappers.getpgrpHook (σ.info i)) := by
  apply Code.Alike.bind (Code.Alike.call SysCall.getpgrp)
  rintro r r' ⟨rfl, -⟩
  apply Code.Alike.ite σ.real_eq_iff.symm
  · exact fun _ => Code.Alike.pure rfl
  intro _
  apply Code.Alike.ite σ.real_eq_iff.symm
  · exact fun _ => Code.Alike.pure rfl
  · exact fun _ => (σ.alike_realToVirtualPid r).mono fun v v' h => h.1

/-- The comparison with `_real_pid` has to come out the same. -/
theorem alike_getpgid {pid : Int} (hpid : pid = 0 ∨ (pid = i.realPid ↔ pid = σ.real i.realPid)) :
    σ.Alike Eq (Wrappers.getpgidHook i pid) (Wrappers.getpgidHook (σ.info i) pid) := by
  have hself : pid = 0 ∨ pid = i.realPid ↔ pid = 0 ∨ pid = (σ.info i).realPid := by
    rcases hpid with hpid | hpid
    · simp [hpid]
    · rw [hpid]
      rfl
  apply Code.Alike.ite hself
  · exact fun _ => σ.alike_getpgrp
  intro _
  apply Code.Alike.bind (σ.alike_virtualToRealPid pid)
  rintro r r' ⟨rfl, -⟩
  apply Code.Alike.ite σ.real_eq_neg_one_iff.symm
  · exact fun _ => Code.Alike.pure rfl
  intro _
  apply Code.Alike.bind (Code.Alike.call (SysCall.getpgid r))
  rintro pg pg' ⟨rfl, -⟩
  exact (σ.alike_realToVirtualPid pg).mono fun v v' h => h.1

theorem alike_wait4Target (pid : Int) :
    σ.Alike (fun t t' => t' = σ.target t) (Wrappers.wait4Target pid) (Wrappers.wait4Target pid) := by
  apply Code.Alike.ite Iff.rfl
  · intro _
    apply Code.Alike.bind (σ.alike_virtualToRealPid (-pid))
    rintro r r' ⟨rfl, hr⟩
    apply Code.Alike.ite σ.real_eq_neg_one_iff.symm
    · exact fun _ => Code.Alike.halt _
    · exact fun h => Code.Alike.pure (σ.target_neg (hr.resolve_left h)).symm
  intro _
  apply Code.Alike.ite Iff.rfl
  · rintro (rfl | rfl)
    · exact Code.Alike.pure (by simp [target])
    · exact Code.Alike.pure (by simp [target, σ.fixed])
  · intro _
    apply Code.Alike.bind (σ.alike_virtualToRealPid pid)
    rintro r r' ⟨rfl, hr⟩
    apply Code.Alike.ite σ.real_eq_neg_one_iff.symm
    · exact fun _ => Code.Alike.halt _
    · exact fun h => Code.Alike.pure (σ.target_of_pos (hr.resolve_left h)).symm

theorem alike_erase (v : Int) :
    σ.Alike Eq (Code.modify fun t => t.erase v : PidM Unit) (Code.modify fun t => t.erase v) := by
  apply Code.Alike.modify
  rintro t t' ⟨rfl, ht⟩
  exact ⟨σ.table_erase t v, ht.erase v⟩

theorem alike_forgetChild (status : WaitStatus) (v : Int) :
    σ.Alike Eq (Wrappers.forgetChild status v) (Wrappers.forgetChild status v) := by
  apply Code.Alike.ite Iff.rfl
  · exact fun _ => σ.alike_erase v
  intro _
  apply Code.Alike.ite Iff.rfl
  · intro _
    apply Code.Alike.bind (σ.alike_virtualToRealPid v)
    rintro r r' ⟨rfl, -⟩
    apply Code.Alike.bind (Code.Alike.call (SysCall.notifyCoordOfExit r))
    exact fun _ _ _ => σ.alike_erase v
  · exact fun _ => Code.Alike.pure rfl

theorem alike_wait4Result (a : Wait4Answer) :
    σ.Alike Eq (Wrappers.wait4Result a) (Wrappers.wait4Result { a with ret := σ.real a.ret }) := by
  apply Code.Alike.ite σ.real_eq_zero_iff.symm
  · exact fun _ => Code.Alike.pure rfl
  intro _
  apply Code.Alike.bind (σ.alike_realToVirtualPid a.ret)
  rintro v v' ⟨rfl, -⟩
  apply Code.Alike.bind (σ.alike_forgetChild a.status v)
  exact fun _ _ _ => Code.Alike.pure rfl

theorem alike_wait4 (pid : Int) (options : BitVec 32) (fuel : Nat) :
    σ.Alike Eq (Wrappers.wait4Hook pid options fuel) (Wrappers.wait4Hook pid options fuel) := by
  induction fuel with
  | zero => exact Code.Alike.halt _
  | succ fuel ih =>
      apply Code.Alike.bind (σ.alike_wait4Target pid)
      rintro t t' rfl
      apply Code.Alike.bind (Code.Alike.call (SysCall.wait4 t (options ||| Wrappers.wnohang)))
      rintro a a' ⟨rfl, -⟩
      apply Code.Alike.ite σ.real_eq_neg_one_iff.symm
      · exact fun _ => Code.Alike.pure rfl
      intro _
      apply Code.Alike.bind (σ.alike_wait4Result a)
      rintro v v' rfl
      apply Code.Alike.ite Iff.rfl
      · exact fun _ => Code.Alike.pure rfl
      · exact fun _ => ih

theorem alike_ask_killpg {g g' : Int} (h : g' = σ.real g) (sig : Int) :
    σ.Alike Eq (ask (.killpg g sig)) (ask (.killpg g' sig)) := by
  subst h
  exact (Code.Alike.call (SysCall.killpg g sig)).mono fun r r' h => h.1.symm

theorem alike_ask_kill {p p' : Int} (h : p' = σ.real p) (sig : Int) :
    σ.Alike Eq (ask (.kill p sig)) (ask (.kill p' sig)) := by
  subst h
  exact (Code.Alike.call (SysCall.kill p sig)).mono fun r r' h => h.1.symm

theorem alike_killpg (pgrp sig : Int) :
    σ.Alike Eq (Wrappers.killpgHook i pgrp sig) (Wrappers.killpgHook (σ.info i) pgrp sig) := by
  apply Code.Alike.ite Iff.rfl
  · exact fun _ => Code.Alike.pure rfl
  intro _
  apply Code.Alike.ite Iff.rfl
  · exact fun _ => σ.alike_ask_killpg σ.real_zero.symm sig
  intro _
  apply Code.Alike.bind (σ.alike_virtualToRealPid pgrp)
  rintro r r' ⟨rfl, -⟩
  apply Code.Alike.ite σ.real_eq_neg_one_iff.symm
  · exact fun _ => Code.Alike.pure rfl
  · exact fun _ => σ.alike_ask_killpg rfl sig

theorem alike_kill (pid sig : Int) :
    σ.Alike Eq (Wrappers.killHook i pid sig) (Wrappers.killHook (σ.info i) pid sig) := by
  apply Code.Alike.ite Iff.rfl
  · exact fun _ => Code.Alike.pure rfl
  intro _
  apply Code.Alike.ite Iff.rfl
  · exact fun _ => σ.alike_killpg (-pid) sig
  intro _
  apply Code.Alike.ite Iff.rfl
  · exact fun _ => σ.alike_ask_kill σ.real_neg_one.symm sig
  intro _
  apply Code.Alike.ite Iff.rfl
  · exact fun _ => σ.alike_killpg 0 sig
  intro _
  apply Code.Alike.bind (σ.alike_virtualToRealPid pid)
  rintro r r' ⟨rfl, -⟩
  apply Code.Alike.ite σ.real_eq_neg_one_iff.symm
  · exact fun _ => Code.Alike.pure rfl
  · exact fun _ => σ.alike_ask_kill rfl sig

/-! ## Lists -/

theorem alike_pidListEntry (real : Int) :
    σ.Alike Eq (Wrappers.pidListEntry real) (Wrappers.pidListEntry (σ.real real)) := by
  apply Code.Alike.ite σ.real_eq_zero_iff.symm
  · rintro rfl
    exact Code.Alike.pure σ.real_zero.symm
  intro _
  apply Code.Alike.bind (σ.alike_realToVirtualPid real)
  rintro v v' ⟨rfl, hv⟩
  apply Code.Alike.pure
  by_cases h : v = -1
  · simp only [h, ne_eq, not_true_eq_false, if_false, hv h]
  · simp only [ne_eq, h, not_false_eq_true, if_true]

/-- The entries that are translated are the same in both worlds, and the others do not
change. -/
theorem alike_pidListRealToVirt (count : Nat) (list : List Int)
    (hrest : ∀ real ∈ list.drop count, σ.real real = real) :
    σ.Alike Eq (Wrappers.pidListRealToVirt count list)
      (Wrappers.pidListRealToVirt count (list.map σ.real)) := by
  induction list generalizing count with
  | nil => cases count <;> exact Code.Alike.pure rfl
  | cons real list ih =>
      cases count with
      | zero =>
          apply Code.Alike.pure
          exact (List.map_id _).symm.trans (List.map_congr_left fun x hx => (hrest x hx).symm)
      | succ count =>
          apply Code.Alike.bind (σ.alike_pidListEntry real)
          rintro v v' rfl
          apply Code.Alike.bind (ih count hrest)
          rintro rest rest' rfl
          exact Code.Alike.pure rfl

theorem alike_virtualizeList {a a' : ListAnswer} (h : σ.ListRenamed a a')
    (ht : σ.ListTranslated a) :
    σ.Alike Eq (Wrappers.virtualizeList a) (Wrappers.virtualizeList a') := by
  obtain ⟨ret, buf⟩ := a
  obtain ⟨ret', buf'⟩ := a'
  obtain ⟨hret, hbuf⟩ := h
  simp only at hret hbuf
  subst hret hbuf
  cases buf with
  | none => exact Code.Alike.pure rfl
  | some list =>
      have hrest := ht list rfl
      apply Code.Alike.ite Iff.rfl
      · intro hpos
        rw [if_pos hpos] at hrest
        apply Code.Alike.bind (σ.alike_pidListRealToVirt _ list hrest)
        rintro l l' rfl
        exact Code.Alike.pure rfl
      · intro hpos
        rw [if_neg hpos] at hrest
        apply Code.Alike.pure
        have hsame : list.map σ.real = list :=
          (List.map_congr_left fun x hx => hrest x hx).trans (List.map_id _)
        rw [hsame]

/-- A wrapper of the family, from what its call does in the two worlds. -/
theorem alike_listOf {call : Int → PidM ListAnswer} (pid : Int)
    (hcall : ∀ real, σ.Alike (fun a a' => σ.ListRenamed a a' ∧ σ.ListTranslated a) (call real)
      (call (σ.real real))) :
    σ.Alike Eq (Wrappers.listOf call pid) (Wrappers.listOf call pid) := by
  apply Code.Alike.bind (σ.alike_virtualToRealPid pid)
  rintro r r' ⟨rfl, -⟩
  apply Code.Alike.ite σ.real_eq_neg_one_iff.symm
  · exact fun _ => Code.Alike.pure rfl
  intro _
  apply Code.Alike.bind (hcall r)
  rintro a a' ⟨ha, ht⟩
  exact σ.alike_virtualizeList ha ht

theorem alike_ask_procListpids {type x x' : Int}
    (h : x' = if type = Wrappers.procPgrpOnly ∨ type = Wrappers.procPpidOnly then σ.real x else x) :
    σ.Alike (fun a a' => σ.ListRenamed a a' ∧ σ.ListTranslated a) (ask (.procListpids type x))
      (ask (.procListpids type x')) := by
  subst h
  exact Code.Alike.call (SysCall.procListpids type x)

theorem alike_procListpids (type typeinfo : Int) :
    σ.Alike Eq (Wrappers.procListpidsHook type typeinfo) (Wrappers.procListpidsHook type typeinfo) := by
  apply Code.Alike.ite Iff.rfl
  · intro htype
    apply σ.alike_listOf
    exact fun real => σ.alike_ask_procListpids (if_pos htype).symm
  · intro htype
    apply Code.Alike.bind (σ.alike_ask_procListpids (if_neg htype).symm)
    rintro a a' ⟨ha, ht⟩
    exact σ.alike_virtualizeList ha ht

theorem alike_procListallpids :
    σ.Alike Eq Wrappers.procListallpidsHook Wrappers.procListallpidsHook := by
  apply Code.Alike.bind (Code.Alike.call SysCall.procListallpids)
  rintro a a' ⟨ha, ht⟩
  exact σ.alike_virtualizeList ha ht

/-! ## Sequences of calls -/

/-- The argument of `getpgid` is `_real_pid` in both worlds or in neither. -/
def SelfAlike (i : PidInfo) : HookCall → Prop
  | .getpgid pid => pid = 0 ∨ (pid = i.realPid ↔ pid = σ.real i.realPid)
  | _ => True

theorem Alike.of {m m' : PidM Int} (h : σ.Alike Eq m m') :
    σ.Alike Eq (HookResult.of <$> m) (HookResult.of <$> m') :=
  Code.Alike.bind h fun _ _ hab => Code.Alike.pure (congrArg HookResult.of hab)

theorem alike_code (hv : i.virtPid ≠ -1) (hp : i.virtPpid ≠ -1) {c : HookCall}
    (hself : σ.SelfAlike i c) : σ.Alike Eq (c.code i) (c.code (σ.info i)) := by
  cases c with
  | getpid => exact Alike.of σ (σ.alike_getpid hv)
  | getppid => exact Alike.of σ (σ.alike_getppid hp)
  | getpgrp => exact Alike.of σ σ.alike_getpgrp
  | getpgid pid => exact Alike.of σ (σ.alike_getpgid hself)
  | wait4 pid options fuel => exact σ.alike_wait4 pid options fuel
  | kill pid sig => exact Alike.of σ (σ.alike_kill pid sig)
  | killpg pgrp sig => exact Alike.of σ (σ.alike_killpg pgrp sig)
  | procListpids type typeinfo => exact σ.alike_procListpids type typeinfo
  | procListpgrppids pgrp =>
      exact σ.alike_listOf pgrp fun real => Code.Alike.call (SysCall.procListpgrppids real)
  | procListchildpids ppid =>
      exact σ.alike_listOf ppid fun real => Code.Alike.call (SysCall.procListchildpids real)
  | procListallpids => exact σ.alike_procListallpids

theorem alike_callAll (hv : i.virtPid ≠ -1) (hp : i.virtPpid ≠ -1) {calls : List HookCall}
    (hself : ∀ c ∈ calls, σ.SelfAlike i c) :
    σ.Alike Eq (callAll i calls) (callAll (σ.info i) calls) := by
  induction calls with
  | nil => exact Code.Alike.pure rfl
  | cons c calls ih =>
      apply Code.Alike.bind (σ.alike_code hv hp (hself c (List.mem_cons_self ..)))
      rintro r r' rfl
      apply Code.Alike.bind (ih fun c' hc' => hself c' (List.mem_cons_of_mem _ hc'))
      rintro rest rest' rfl
      exact Code.Alike.pure rfl

end PidRenaming

/-- The run of a sequence of calls in a world. -/
def worldRun (i : PidInfo) (t : PidTable) (calls : List HookCall) (o : Oracle SysCall.Answer) :
    Run SysCall PidTable Abort (List HookResult) :=
  (callAll i calls t).run o 0

/-- A registered process: it has its virtual ids, and its table maps to real ones. -/
structure Registered (i : PidInfo) (t : PidTable) : Prop extends GoodTable t where
  virtPid : i.virtPid ≠ -1
  virtPpid : i.virtPpid ≠ -1

/-- **Change of real ids.**  A sequence of calls in which the argument of `getpgid` is `_real_pid`
in both worlds or in neither, and in which the lists are translated as far as ids in them
change, has the same results in both worlds and makes corresponding calls. -/
theorem worldRun_renamed (σ : PidRenaming) {i : PidInfo} {t : PidTable} (hreg : Registered i t)
    {calls : List HookCall} (hself : ∀ c ∈ calls, σ.SelfAlike i c) {o o' : Oracle SysCall.Answer}
    (ho : σ.Renamed o o') (hlists : ∀ n c, σ.AnswerTranslated c (o n c)) :
    (worldRun (σ.info i) (σ.table t) calls o').result = (worldRun i t calls o).result ∧
      (worldRun (σ.info i) (σ.table t) calls o').calls = (worldRun i t calls o).calls.map σ.call := by
  have halike := σ.alike_callAll hreg.virtPid hreg.virtPpid hself t (σ.table t)
    ⟨rfl, hreg.toGoodTable⟩
  obtain ⟨hcalls, hresult, -⟩ := halike.run (fun n c => ⟨ho n c, hlists n c⟩) 0
  exact ⟨hresult, hcalls⟩

/-! ## Two worlds -/

/-- The real ids 100 and 101 change places. -/
def swapped : PidRenaming where
  real := Equiv.swap 100 101
  injective := (Equiv.swap (100 : Int) 101).injective
  fixed n hn := Equiv.swap_apply_of_ne_of_ne (by omega) (by omega)
  above n hn := by
    rw [Equiv.swap_apply_def]
    split
    · decide
    · split
      · decide
      · exact hn

/-- The answers in a process with this real id, where each process has a group of its own. -/
def ownGroups (realPid : Int) : Oracle SysCall.Answer := fun _ c =>
  match c with
  | .getpid | .getpgrp => realPid
  | .getppid => 50
  | .getpgid pid => pid
  | .wait4 _ _ => ⟨-1, .exited⟩
  | .kill _ _ | .killpg _ _ => (0 : Int)
  | .procListpids _ _ | .procListpgrppids _ | .procListchildpids _ | .procListallpids => ⟨0, none⟩
  | .virtToRealFromCoord _ => (-1 : Int)
  | .realToVirtFromCoord _ => (7 : Int)
  | .notifyCoordOfExit _ => ()
  | .iteration => (0 : Nat)

theorem ownGroups_renamed : swapped.Renamed (ownGroups 100) (ownGroups 101) := by
  intro n c
  cases c with
  | getpid | getpgrp | getppid => rfl
  | virtToRealFromCoord virt => exact ⟨rfl, .inl rfl⟩
  | realToVirtFromCoord real => exact ⟨rfl, fun h => by cases h⟩
  | notifyCoordOfExit | iteration => trivial
  | procListpids | procListpgrppids | procListchildpids | procListallpids => exact ⟨rfl, rfl⟩
  | _ => rfl

/-- A process with the virtual id 5 and the real id 100; another has the virtual id 100. -/
def selfInfo : PidInfo := ⟨5, 4, 100, 50, 30⟩

def selfTable : PidTable := ⟨[(5, 100), (4, 50), (100, 200)], by decide⟩

theorem registered_self : Registered selfInfo selfTable where
  injective := by decide
  pos := by decide
  virtPid := by decide
  virtPpid := by decide

/-- The results of `getpid` and of signals to a process are those of the other world. -/
theorem worldRun_swapped :
    (worldRun (swapped.info selfInfo) (swapped.table selfTable) [.getpid, .kill 100 9, .getpgid 5]
        (ownGroups 101)).result =
      (worldRun selfInfo selfTable [.getpid, .kill 100 9, .getpgid 5] (ownGroups 100)).result :=
  (worldRun_renamed swapped registered_self
    (by
      intro c hc
      simp only [List.mem_cons, List.not_mem_nil, or_false] at hc
      rcases hc with rfl | rfl | rfl
      · trivial
      · trivial
      · exact .inr (by decide))
    ownGroups_renamed
    (by
      intro n c
      cases c with
      | procListpids | procListpgrppids | procListchildpids | procListallpids =>
          exact fun list h => by cases h
      | _ => trivial)).1

/-- A process asks for the group of another whose virtual id is its own real one, and is told its
own group; with another real id it is told the group of the other. -/
theorem not_worldRun_renamed_getpgid : ¬ ∀ (σ : PidRenaming) (i : PidInfo) (t : PidTable)
    (calls : List HookCall) (o o' : Oracle SysCall.Answer), Registered i t → σ.Renamed o o' →
      (worldRun (σ.info i) (σ.table t) calls o').result = (worldRun i t calls o).result := by
  intro hsame
  have h := hsame swapped selfInfo selfTable [.getpgid 100] (ownGroups 100) (ownGroups 101)
    registered_self ownGroups_renamed
  have h₁ : (worldRun selfInfo selfTable [.getpgid 100] (ownGroups 100)).result =
      .ok [⟨5, none, none⟩] := by rfl
  have h₂ : (worldRun (swapped.info selfInfo) (swapped.table selfTable) [.getpgid 100]
      (ownGroups 101)).result = .ok [⟨100, none, none⟩] := by rfl
  rw [h₁, h₂] at h
  have hresults := Except.ok.inj h
  simp at hresults

end Xnd.Pid
