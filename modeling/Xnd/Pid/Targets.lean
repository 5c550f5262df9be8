import Xnd.Pid.Wrappers
import Mathlib.Data.Set.Basic

/-!
# Whom the wrappers signal and wait for

For the kernel a negative id names a group, and -1 names all processes.  The wrappers tell
these apart before they translate, so what an application means by an id of its own must not
be one of them.  The coordinator hands out ids from `INITIAL_VIRT_PID` on, which is 1.
-/
namespace Xnd.Pid
open Coord (PidTable)

/-- `INITIAL_VIRT_PID`. -/
def initialVirtPid : Int := 1

/-! ## What the calls mean -/

/-- The processes of the system, and which of them calls. -/
structure Processes where
  self : Int
  alive : Set Int
  pgrp : Int → Int
  ppid : Int → Int

namespace Processes
variable (ps : Processes)

/-- The processes of a group. -/
def group (g : Int) : Set Int := {p | p ∈ ps.alive ∧ ps.pgrp p = g}

/-- The processes that an id names for `kill` and for `wait4`. -/
def named (pid : Int) : Set Int :=
  if 0 < pid then {p | p ∈ ps.alive ∧ p = pid}
  else if pid = 0 then ps.group (ps.pgrp ps.self)
  else if pid = -1 then {p | p ∈ ps.alive ∧ p ≠ ps.self}
  else ps.group (-pid)

def children : Set Int := {p | p ∈ ps.alive ∧ ps.ppid p = ps.self}

/-- The processes that a call sends a signal to. -/
def signalled : SysCall → Set Int
  | .kill pid _ => ps.named pid
  | .killpg pgrp _ => if pgrp = 0 then ps.group (ps.pgrp ps.self) else ps.group pgrp
  | _ => ∅

/-- The processes that a call waits for, and may reap. -/
def awaited : SysCall → Set Int
  | .wait4 pid _ => ps.children ∩ ps.named pid
  | _ => ∅

/-- The processes that calls send a signal to, and those that they wait for. -/
def reached (calls : List SysCall) : Set Int × Set Int :=
  ({p | ∃ c ∈ calls, p ∈ ps.signalled c}, {p | ∃ c ∈ calls, p ∈ ps.awaited c})

end Processes

/-- The processes that a wrapper reaches. -/
def PidM.reaches {α : Type} (m : PidM α) (t : PidTable) (o : Oracle SysCall.Answer)
    (ps : Processes) : Set Int × Set Int :=
  ps.reached ((m t).run o 0).calls

/-- **The virtual id `virt` names the process `real`** and its group, for `kill`, `killpg` and
`wait4` alike, whatever the processes are. -/
structure Names (info : PidInfo) (t : PidTable) (virt real sig : Int) : Prop where
  kill : ∀ o ps, real ∈ ps.alive →
    PidM.reaches (Wrappers.killHook info virt sig) t o ps = ({real}, ∅)
  killpg : ∀ o ps, PidM.reaches (Wrappers.killpgHook info virt sig) t o ps = (ps.group real, ∅)
  killGroup : ∀ o ps, PidM.reaches (Wrappers.killHook info (-virt) sig) t o ps = (ps.group real, ∅)
  wait4 : ∀ options fuel o ps,
    PidM.reaches (Wrappers.wait4Hook (-virt) options (fuel + 1)) t o ps =
      (∅, ps.children ∩ ps.group real)

/-! ## What the wrappers call -/

section Calls
variable {info : PidInfo} {t : PidTable} {virt real sig : Int}

theorem virtualToRealPid_apply (h : t.virtualToReal virt = real) (hreal : real ≠ -1) :
    Wrappers.virtualToRealPid virt t = .ret t real := by
  show (if t.virtualToReal virt ≠ -1 then pure (t.virtualToReal virt) else _ : PidM Int) t = _
  rw [h, if_pos hreal]
  rfl

theorem virtualToRealPid_bind {α : Type} (h : t.virtualToReal virt = real) (hreal : real ≠ -1)
    (f : Int → PidM α) : (Wrappers.virtualToRealPid virt >>= f) t = f real t := by
  rw [Code.bind_apply, virtualToRealPid_apply h hreal]
  rfl

theorem Processes.reached_single (ps : Processes) (c : SysCall) :
    ps.reached [c] = (ps.signalled c, ps.awaited c) := by
  simp [reached]

/-- What is called to wait for a child: `wait4` with one argument, and no signal is sent. -/
def WaitsFor (pid : Int) : SysCall → Prop
  | .kill _ _ | .killpg _ _ => False
  | .wait4 pid' _ => pid' = pid
  | _ => True

theorem calls_realToVirtualPid {pid : Int} (r : Int) (t : PidTable) :
    (Wrappers.realToVirtualPid r t).Calls (WaitsFor pid) fun t' _ => t' = t := by
  refine ⟨trivial, fun i => ?_⟩
  show ((if t.realToVirtual i r ≠ -1 then pure (t.realToVirtual i r)
    else ask (.realToVirtFromCoord r) : PidM Int) t).Calls (WaitsFor pid) _
  split
  · rfl
  · exact ⟨trivial, fun _ => rfl⟩

theorem calls_virtualToRealPid {pid : Int} (v : Int) (t : PidTable) :
    (Wrappers.virtualToRealPid v t).Calls (WaitsFor pid) fun t' _ => t' = t := by
  show ((if t.virtualToReal v ≠ -1 then pure (t.virtualToReal v)
    else ask (.virtToRealFromCoord v) : PidM Int) t).Calls (WaitsFor pid) _
  split
  · rfl
  · exact ⟨trivial, fun _ => rfl⟩

/-- No entry is erased but that of the child. -/
theorem calls_forgetChild {pid : Int} (status : WaitStatus) (v : Int) (t : PidTable) :
    (Wrappers.forgetChild status v t).Calls (WaitsFor pid) fun t' _ => t' = t ∨ t' = t.erase v := by
  unfold Wrappers.forgetChild
  split
  · exact .inr rfl
  · split
    · refine (calls_virtualToRealPid v t).bind ?_
      rintro t' r rfl
      exact ⟨trivial, fun _ => .inr rfl⟩
    · exact .inl rfl

/-- When the wait goes on, the table has the entry still. -/
theorem calls_wait4Result {pid : Int} (hvirt : initialVirtPid ≤ virt) (a : Wait4Answer)
    (h : t.virtualToReal virt = real) :
    (Wrappers.wait4Result a t).Calls (WaitsFor pid)
      fun t' r => r = 0 → t'.virtualToReal virt = real := by
  unfold Wrappers.wait4Result
  split
  · exact fun _ => h
  · refine (calls_realToVirtualPid a.ret t).bind ?_
    rintro t' v rfl
    refine (calls_forgetChild a.status v t').bind ?_
    rintro t'' - hforgot rfl
    obtain rfl | rfl := hforgot
    · exact h
    · have hne : virt ≠ 0 := fun hzero => by
        rw [hzero] at hvirt
        exact absurd hvirt (by decide)
      rwa [PidTable.virtualToReal, PidTable.lookup_erase_of_ne _ hne]

/-- The target of a wait for a group. -/
theorem wait4Target_group (hvirt : 1 < virt) (h : t.virtualToReal virt = real) (hreal : 0 < real) :
    Wrappers.wait4Target (-virt) t = .ret t (-real) := by
  have hne : real ≠ -1 := by omega
  show (if -virt ≤ -2 then (do
    let realPid ← Wrappers.virtualToRealPid (- -virt)
    if realPid = -1 then Code.halt .assertion else return -realPid) else _ : PidM Int) t = _
  rw [if_pos (by omega), Int.neg_neg, virtualToRealPid_bind h hne, if_neg hne]
  rfl

/-- One turn of `wait4`. -/
theorem wait4Hook_succ (hvirt : 1 < virt) (h : t.virtualToReal virt = real) (hreal : 0 < real)
    (options : BitVec 32) (fuel : Nat) : Wrappers.wait4Hook (-virt) options (fuel + 1) t =
      .call t (.wait4 (-real) (options ||| Wrappers.wnohang)) fun a =>
        (if a.ret = -1 then return .of (-1) else do
          let virtRet ← Wrappers.wait4Result a
          if options &&& Wrappers.wnohang ≠ 0 ∨ virtRet ≠ 0 then
            return ⟨virtRet, some a.status, none⟩
          else Wrappers.wait4Hook (-virt) options fuel : PidM HookResult) t := by
  rw [Wrappers.wait4Hook, Code.bind_apply, wait4Target_group hvirt h hreal]
  rfl

theorem calls_wait4Hook (hvirt : 1 < virt) (h : t.virtualToReal virt = real) (hreal : 0 < real)
    (options : BitVec 32) (fuel : Nat) : (Wrappers.wait4Hook (-virt) options fuel t).Calls
      (WaitsFor (-real)) fun _ _ => True := by
  induction fuel generalizing t with
  | zero => trivial
  | succ fuel ih =>
      rw [wait4Hook_succ hvirt h hreal]
      refine ⟨rfl, fun a => ?_⟩
      beta_reduce
      split
      · trivial
      · refine (calls_wait4Result (Int.le_of_lt hvirt) a h).bind fun t' r hr => ?_
        split
        next => trivial
        next hgoes => exact ih (hr (by tauto))

/-- `killpg` with an id that is in the table. -/
theorem killpgHook_apply (hsig : sig ≠ info.ckptSignal) (hvirt : virt ≠ 0)
    (h : t.virtualToReal virt = real) (hreal : 0 < real) :
    Wrappers.killpgHook info virt sig t = .call t (.killpg real sig) (.ret t) := by
  have hne : real ≠ -1 := by omega
  rw [Wrappers.killpgHook, if_neg hsig, if_neg hvirt, virtualToRealPid_bind h hne, if_neg hne]
  rfl

theorem killHook_apply (hsig : sig ≠ info.ckptSignal) (hvirt : 0 < virt)
    (h : t.virtualToReal virt = real) (hreal : 0 < real) :
    Wrappers.killHook info virt sig t = .call t (.kill real sig) (.ret t) := by
  have hne : real ≠ -1 := by omega
  rw [Wrappers.killHook, if_neg hsig, if_neg (by omega), if_neg (by omega), if_neg (by omega),
    virtualToRealPid_bind h hne, if_neg hne]
  rfl

theorem killHook_group (hsig : sig ≠ info.ckptSignal) (hvirt : 1 < virt) :
    Wrappers.killHook info (-virt) sig = Wrappers.killpgHook info virt sig := by
  rw [Wrappers.killHook, if_neg hsig, if_pos (by omega), Int.neg_neg]

end Calls

/-! ## Whom they reach -/

section Reached
variable {info : PidInfo} {t : PidTable} {virt real sig : Int}

/-- A wrapper that makes one call. -/
theorem reaches_single {α : Type} {m : PidM α} {c : SysCall} {k : c.Answer → Prog _ _ _ α}
    (h : m t = .call t c k) (hk : ∀ r, ∃ a, k r = .ret t a) (o : Oracle SysCall.Answer)
    (ps : Processes) : PidM.reaches m t o ps = (ps.signalled c, ps.awaited c) := by
  obtain ⟨a, ha⟩ := hk (o 0 c)
  rw [PidM.reaches, h, Prog.run, ha]
  exact ps.reached_single c

theorem named_group (ps : Processes) (hreal : 1 < real) : ps.named (-real) = ps.group real := by
  rw [Processes.named, if_neg (by omega), if_neg (by omega), if_neg (by omega), Int.neg_neg]

theorem reaches_wait4 (hvirt : 1 < virt) (h : t.virtualToReal virt = real) (hreal : 1 < real)
    (options : BitVec 32) (fuel : Nat) (o : Oracle SysCall.Answer) (ps : Processes) :
    PidM.reaches (Wrappers.wait4Hook (-virt) options (fuel + 1)) t o ps =
      (∅, ps.children ∩ ps.group real) := by
  have hpos : 0 < real := by omega
  have hcalls := (calls_wait4Hook hvirt h hpos options (fuel + 1)).run o 0
  have hfirst : SysCall.wait4 (-real) (options ||| Wrappers.wnohang) ∈
      ((Wrappers.wait4Hook (-virt) options (fuel + 1) t).run o 0).calls := by
    rw [wait4Hook_succ hvirt h hpos]
    exact List.mem_cons_self
  refine Prod.ext (Set.eq_empty_iff_forall_notMem.mpr ?_) (Set.Subset.antisymm ?_ ?_)
  · rintro p ⟨c, hc, hp⟩
    have hw := hcalls c hc
    cases c with
    | kill | killpg => exact hw
    | _ => exact hp
  · rintro p ⟨c, hc, hp⟩
    have hw := hcalls c hc
    cases c with
    | wait4 pid options' =>
        obtain rfl : pid = -real := hw
        rwa [← named_group ps hreal]
    | _ => exact hp.elim
  · intro p hp
    refine ⟨_, hfirst, ?_⟩
    rwa [← named_group ps hreal] at hp

/-- A system that answers -1, or nothing. -/
def failing : Oracle SysCall.Answer := fun _ c =>
  match c with
  | .wait4 _ _ => ⟨-1, .exited⟩
  | .procListpids _ _ | .procListpgrppids _ | .procListchildpids _ | .procListallpids => ⟨-1, none⟩
  | .notifyCoordOfExit _ => ()
  | .iteration => (0 : Nat)
  | .getpid | .getppid | .getpgrp | .getpgid _ | .kill _ _ | .killpg _ _ | .virtToRealFromCoord _
  | .realToVirtFromCoord _ => (-1 : Int)

/-- Every process is in a group of its own and a child of `self`. -/
def apart (self : Int) : Processes where
  self := self
  alive := Set.univ
  pgrp p := p
  ppid _ := self

/-- The signal of `xnd` is sent to no one. -/
theorem ne_ckptSignal_of_names (hnames : Names info t virt real sig) : sig ≠ info.ckptSignal := by
  intro hsig
  have hkill := hnames.kill failing (apart real) trivial
  have hrefused : Wrappers.killHook info virt sig t = .ret t (-1) := by
    rw [Wrappers.killHook, if_pos hsig]
    rfl
  rw [PidM.reaches, hrefused] at hkill
  have hset : {p | ∃ c ∈ [], p ∈ (apart real).signalled c} = {real} := congrArg Prod.fst hkill
  obtain ⟨c, hc, -⟩ := Set.ext_iff.mp hset real |>.mpr rfl
  cases hc

/-- -1 is for all processes. -/
theorem ne_one_of_names (hnames : Names info t virt real sig) : virt ≠ 1 := by
  rintro rfl
  have hsig := ne_ckptSignal_of_names hnames
  have hall : Wrappers.killHook info (-1) sig t = .call t (.kill (-1) sig) (.ret t) := by
    rw [Wrappers.killHook, if_neg hsig, if_neg (by decide), if_pos rfl]
    rfl
  have hgroup := hnames.killGroup failing (apart real)
  rw [reaches_single hall fun r => ⟨r, rfl⟩] at hgroup
  have hset : (apart real).named (-1) = (apart real).group real := congrArg Prod.fst hgroup
  have hmem : real ∈ (apart real).named (-1) := hset ▸ ⟨trivial, rfl⟩
  exact hmem.2 rfl

/-- And so it is when the process itself is 1. -/
theorem real_ne_one_of_names (hvirt : 1 < virt) (h : t.virtualToReal virt = real)
    (hnames : Names info t virt real sig) : real ≠ 1 := by
  rintro rfl
  have hwait := hnames.wait4 0 0 failing (apart 5)
  rw [PidM.reaches, wait4Hook_succ hvirt h Int.one_pos] at hwait
  have hset : {p | ∃ c ∈ _, p ∈ (apart 5).awaited c} = (apart 5).children ∩ (apart 5).group 1 :=
    congrArg Prod.snd hwait
  have hmem : (7 : Int) ∈ (apart 5).children ∩ (apart 5).group 1 := Set.ext_iff.mp hset 7 |>.mp
    ⟨_, List.mem_cons_self, ⟨trivial, rfl⟩, trivial, by decide⟩
  have hone : (7 : Int) = 1 := hmem.2.2
  cases hone

/-- **A virtual id names its process and its group exactly when** neither of the two ids is
1, and the signal is not the one of `xnd`. -/
theorem names_iff (hvirt : initialVirtPid ≤ virt) (h : t.virtualToReal virt = real)
    (hreal : 0 < real) :
    Names info t virt real sig ↔ virt ≠ 1 ∧ real ≠ 1 ∧ sig ≠ info.ckptSignal := by
  have hvirt : 1 ≤ virt := hvirt
  constructor
  · intro hnames
    have hone := ne_one_of_names hnames
    exact ⟨hone, real_ne_one_of_names (by omega) h hnames, ne_ckptSignal_of_names hnames⟩
  · intro ⟨hone, hreal', hsig⟩
    have hlt : 1 < virt := by omega
    have hkillpg := fun o ps => reaches_single (killpgHook_apply hsig (by omega) h hreal)
      (fun r => ⟨r, rfl⟩) o ps
    have hgroup : ∀ ps : Processes, ps.signalled (.killpg real sig) = ps.group real :=
      fun ps => if_neg (by omega)
    refine ⟨fun o ps halive => ?_, fun o ps => ?_, fun o ps => ?_, fun options fuel o ps => ?_⟩
    · rw [reaches_single (killHook_apply hsig (by omega) h hreal) fun r => ⟨r, rfl⟩]
      refine Prod.ext ?_ rfl
      show ps.named real = {real}
      rw [Processes.named, if_pos hreal]
      exact Set.ext fun p => ⟨fun hp => hp.2, fun hp => ⟨hp ▸ halive, hp⟩⟩
    · rw [hkillpg, hgroup]
      rfl
    · rw [killHook_group hsig hlt, hkillpg, hgroup]
      rfl
    · exact reaches_wait4 hlt h (by omega) options fuel o ps

/-- The first process of a computation, and the second one. -/
theorem names_iff_two :
    Names ⟨2, 1, 50, 40, 30⟩ ((PidTable.empty.update 1 40).update 2 50) 2 50 15 ↔
      (2 : Int) ≠ 1 ∧ (50 : Int) ≠ 1 ∧ (15 : Int) ≠ 30 :=
  names_iff (by decide) (by decide) (by decide)

/-- **The first id that the coordinator hands out is 1**: a signal for the group of the process
goes to all processes, and a wait for it is one for any child. -/
theorem not_names_one :
    (PidTable.empty.update 1 40).virtualToReal 1 = 40 ∧
      ¬ Names ⟨2, 1, 50, 40, 30⟩ (PidTable.empty.update 1 40) 1 40 15 ∧
      ((Wrappers.killHook ⟨2, 1, 50, 40, 30⟩ (-1) 15 (PidTable.empty.update 1 40)).run
        failing 0).calls = [.kill (-1) 15] ∧
      ((Wrappers.killpgHook ⟨2, 1, 50, 40, 30⟩ 1 15 (PidTable.empty.update 1 40)).run
        failing 0).calls = [.killpg 40 15] ∧
      ((Wrappers.wait4Hook (-1) 0 1 (PidTable.empty.update 1 40)).run failing 0).calls =
        [.wait4 (-1) 1] :=
  ⟨by decide, fun hnames => ne_one_of_names hnames rfl, by decide, by decide, by decide⟩

end Reached
end Xnd.Pid
