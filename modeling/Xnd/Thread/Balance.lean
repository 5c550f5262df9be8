import Xnd.Thread.PidHooks

/-!
# Which wrappers restore the descriptor of their thread

A wrapper enters the unsafe section, runs code that cannot reach the descriptor
(`LibcM`), and leaves the section.  `Leads m s s'` says that `m`, run from `s`,
ends in `s'` whatever its calls answer; its rules follow the text of a wrapper,
and every wrapper that keeps to the form leads from a descriptor back to itself
(`Hook.leads`).

Two do not.  When `wait4` fails, the wrapper jumps past `unsafe_exit`.  And in the
child of a `fork` the descriptor is a new one, made for a thread that came
straight from user code; a thread that forks inside another wrapper comes out of
it one level too early.  `calls_balanced_iff` says that these are the only ways:
in a sequence of calls every one leaves the thread as it was at the beginning
exactly when none of them meets either case.
-/
namespace Xnd.Thread

/-! ## What a run of code leaves behind -/

/-- Every run of `m` from `s` that returns satisfies `Q`, of its calls, the
descriptor it leaves and its result. -/
def Traces {α : Type} (m : HookM α) (s : Self) (Q : Calls → Self → α → Prop) : Prop :=
  ∀ t s' a, (m s).exec t = some (s', a) → Q t s' a

/-- Every run of `m` from `s` that returns leaves `s'`. -/
def Leads {α : Type} (m : HookM α) (s s' : Self) : Prop := Traces m s fun _ r _ => r = s'

section Rules
variable {α β : Type} {s s' : Self}

theorem Traces.mono {m : HookM α} {Q R : Calls → Self → α → Prop} (h : Traces m s Q)
    (hQR : ∀ t r a, Q t r a → R t r a) : Traces m s R :=
  fun t r a hrun => hQR t r a (h t r a hrun)

theorem traces_bind {m : HookM α} {f : α → HookM β} {Q : Calls → Self → α → Prop}
    {R : Calls → Self → β → Prop} (hm : Traces m s Q)
    (hf : ∀ t r a, Q t r a → Traces (f a) r fun t' => R (t ++ t')) : Traces (m >>= f) s R := by
  intro t r b hrun
  obtain ⟨s₁, a, t₁, t₂, rfl, h₁, h₂⟩ := Prog.exec_bind.mp hrun
  exact hf t₁ s₁ a (hm t₁ s₁ a h₁) t₂ r b h₂

theorem traces_halt {e : Stuck} {Q : Calls → Self → α → Prop} : Traces (Code.halt e) s Q := by
  intro t r b hrun
  rw [Code.halt_apply, Prog.exec_halt] at hrun
  cases hrun

theorem traces_ite {p : Prop} [Decidable p] {m m' : HookM α} {Q : Calls → Self → α → Prop}
    (hm : p → Traces m s Q) (hm' : ¬ p → Traces m' s Q) :
    Traces (if p then m else m') s Q := by
  split
  · exact hm ‹_›
  · exact hm' ‹_›

theorem traces_pure {a : α} {Q : Calls → Self → α → Prop} (h : Q [] s a) :
    Traces (pure a) s Q := by
  intro t r b hrun
  obtain ⟨rfl, rfl, rfl⟩ := Prog.exec_ret.mp hrun
  exact h

theorem exec_lift {p : Prog (fun _ : Call => Int) Unit Stuck α} {t : Calls} {a : α} :
    (lift s p).exec t = some (s', a) ↔ s = s' ∧ p.exec t = some ((), a) := by
  induction p generalizing t with
  | ret _ b => simp only [lift, Prog.exec_ret]; tauto
  | call _ c k ih =>
      simp only [lift, Prog.exec_call, ih]
      constructor
      · rintro ⟨r, t', rfl, rfl, h⟩
        exact ⟨rfl, r, t', rfl, h⟩
      · rintro ⟨rfl, r, t', rfl, h⟩
        exact ⟨r, t', rfl, rfl, h⟩
  | halt => simp [lift]

/-- Code that cannot reach the descriptor leaves it. -/
theorem traces_lift {m : LibcM α} {Q : Calls → α → Prop}
    (h : ∀ t a, (m ()).exec t = some ((), a) → Q t a) :
    Traces (liftM m) s fun t r a => r = s ∧ Q t a := by
  intro t r a hrun
  obtain ⟨rfl, hm⟩ := exec_lift.mp hrun
  exact ⟨rfl, h t a hm⟩

/-- A single call. -/
theorem traces_libc (fn : Fn) (args : List Int) :
    Traces (liftM (libc fn args)) s fun t r a => r = s ∧ t = [⟨⟨fn, args⟩, a⟩] := by
  refine traces_lift (Q := fun t a => t = [⟨⟨fn, args⟩, a⟩]) fun t a hrun => ?_
  obtain ⟨x, t', rfl, hx⟩ := Prog.exec_call.mp hrun
  obtain ⟨rfl, -, rfl⟩ := Prog.exec_ret.mp hx
  rfl

theorem traces_enter {th : ThreadInfo} (h : th.Calling) :
    Traces unsafeEnter (some th) fun t r _ => t = [] ∧ r = some th.entered := by
  intro t r a hrun
  rw [h.unsafeEnter_apply] at hrun
  obtain ⟨rfl, rfl, -⟩ := Prog.exec_ret.mp hrun
  exact ⟨rfl, rfl⟩

theorem traces_exit {th : ThreadInfo} (h : th.Calling) :
    Traces unsafeExit (some th.entered) fun t r _ => t = [] ∧ r = some th := by
  intro t r a hrun
  rw [h.unsafeExit_apply] at hrun
  obtain ⟨rfl, rfl, -⟩ := Prog.exec_ret.mp hrun
  exact ⟨rfl, rfl⟩

theorem Leads.pure (a : α) : Leads (Pure.pure a) s s := traces_pure rfl

theorem Leads.lift (m : LibcM α) : Leads (liftM m) s s :=
  (traces_lift fun _ _ _ => trivial).mono fun _ _ _ h => h.1

theorem Leads.bind {m : HookM α} {f : α → HookM β} {s₁ : Self} (hm : Leads m s s₁)
    (hf : ∀ a, Leads (f a) s₁ s') : Leads (m >>= f) s s' := by
  refine traces_bind hm fun t r a hr => ?_
  subst hr
  exact hf a

theorem Leads.lift_bind (m : LibcM α) {f : α → HookM β} (hf : ∀ a, Leads (f a) s s') :
    Leads (liftM m >>= f) s s' := (Leads.lift m).bind hf

theorem Leads.enter {th : ThreadInfo} (h : th.Calling) {f : Unit → HookM β}
    (hf : Leads (f ()) (some th.entered) s') : Leads (unsafeEnter >>= f) (some th) s' := by
  refine traces_bind (traces_enter h) fun t r _ hr => ?_
  rw [hr.2]
  exact hf

theorem Leads.exit {th : ThreadInfo} (h : th.Calling) {f : Unit → HookM β}
    (hf : Leads (f ()) (some th) s') : Leads (unsafeExit >>= f) (some th.entered) s' := by
  refine traces_bind (traces_exit h) fun t r _ hr => ?_
  rw [hr.2]
  exact hf

theorem Leads.ite {p : Prop} [Decidable p] {m m' : HookM α} (hm : p → Leads m s s')
    (hm' : ¬ p → Leads m' s s') : Leads (if p then m else m') s s' := traces_ite hm hm'

end Rules

/-! ## The wrappers that restore it -/

section Restoring
variable {th : ThreadInfo} (h : th.Calling)
include h

/-- A wrapper whose section is one body. -/
theorem leads_section {α : Type} (body : LibcM α) :
    Leads (do unsafeEnter; let ret ← body; unsafeExit; return ret) (some th) (some th) :=
  .enter h (.lift_bind _ fun _ => .exit h (.pure _))

theorem leads_interposed (direct body : LibcM Int) :
    Leads (interposed direct body) (some th) (some th) := by
  unfold interposed
  exact .lift_bind _ fun _ => .ite (fun _ => .lift _) fun _ => leads_section h _

theorem leads_translated (fn : Fn) (pid : Int) (args : List Int) (unknown : Int)
    (after : Int → LibcM Unit) :
    Leads (translated fn pid args unknown after) (some th) (some th) := by
  unfold translated
  refine .lift_bind _ fun _ => .ite (fun _ => .lift _) fun _ => ?_
  refine .enter h (.lift_bind _ fun realPid => .ite (fun _ => ?_) fun _ => ?_)
  · exact .exit h (.lift_bind _ fun _ => .pure _)
  · exact .lift_bind _ fun _ => .lift_bind _ fun _ => .exit h (.pure _)

theorem leads_callOnThread (fn : Fn) (t : Int) (args : List Int) :
    Leads (callOnThread fn t args) (some th) (some th) := by
  unfold callOnThread
  exact .enter h (.lift_bind _ fun _ => .lift_bind _ fun _ => .exit h (.pure _))

theorem leads_onThread (fn : Fn) (p : BitVec 64) (args : List Int) :
    Leads (onThread fn p args) (some th) (some th) := by
  unfold onThread
  exact .ite (fun _ => .pure _) fun _ => leads_callOnThread h _ _ _

theorem leads_onStack (fn : Fn) (p : BitVec 64) : Leads (onStack fn p) (some th) (some th) := by
  unfold onStack
  refine .ite (fun _ => .pure _) fun _ => .lift_bind _ fun own => ?_
  have rest : ∀ main : Int, Leads
      (if (decodePthread p).toInt = own ∨ (decodePthread p).toInt = main then
        (do let self ← libc (.field .self) [(decodePthread p).toInt]; libc fn [self] : HookM Int)
      else callOnThread fn (decodePthread p).toInt []) (some th) (some th) := fun main =>
    .ite (fun _ => .lift_bind _ fun _ => .lift _) fun _ => leads_callOnThread h _ _ _
  exact .ite (fun _ => rest _) fun _ => .lift_bind _ fun _ => rest _

theorem leads_fdopendirHook (fd : Int) : Leads (fdopendirHook fd) (some th) (some th) := by
  unfold fdopendirHook
  refine .lift_bind _ fun _ => .ite (fun _ => .lift _) fun _ => .lift_bind _ fun _ => ?_
  refine .enter h (.lift_bind _ fun _ => .ite (fun _ => ?_) fun _ => .exit h (.pure _))
  exact .lift_bind _ fun _ => .exit h (.pure _)

theorem leads_closedirHook (dirp : Int) : Leads (closedirHook dirp) (some th) (some th) := by
  unfold closedirHook
  refine .lift_bind _ fun _ => .ite (fun _ => .lift _) fun _ => .lift_bind _ fun _ => ?_
  refine .enter h (.lift_bind _ fun _ => .ite (fun _ => ?_) fun _ => .exit h (.pure _))
  exact .lift_bind _ fun _ => .exit h (.pure _)

theorem leads_pthreadCreateHook (fuel : Nat) (p attr startRoutine arg : Int) :
    Leads (pthreadCreateHook fuel p attr startRoutine arg) (some th) (some th) := by
  unfold pthreadCreateHook
  refine .enter h (.lift_bind _ fun t => .ite (fun _ => .exit h (.pure _)) fun _ => ?_)
  refine .lift_bind _ fun err => .ite (fun _ => ?_) fun _ => ?_
  · exact .lift_bind _ fun _ => .exit h (.pure _)
  · exact .lift_bind _ fun _ => .lift_bind _ fun _ => .exit h (.pure _)

theorem leads_pthreadJoinHook (fuel : Nat) (p : BitVec 64) (valuePtr : Int) :
    Leads (pthreadJoinHook fuel p valuePtr) (some th) (some th) := by
  unfold pthreadJoinHook
  refine .ite (fun _ => .pure _) fun _ => .lift_bind _ fun _ => .ite (fun _ => .pure _) fun _ => ?_
  refine .lift_bind _ fun _ => .enter h (.lift_bind _ fun _ => ?_)
  exact .lift_bind _ fun _ => .lift_bind _ fun _ => .exit h (.pure _)

theorem leads_pthreadKillHook (p : BitVec 64) (sig : Int) :
    Leads (pthreadKillHook p sig) (some th) (some th) := by
  unfold pthreadKillHook
  refine .ite (fun _ => .pure _) fun _ => .lift_bind _ fun _ => .ite (fun _ => .pure _) fun _ => ?_
  exact leads_callOnThread h _ _ _

theorem leads_getpgrpHook : Leads getpgrpHook (some th) (some th) := by
  unfold getpgrpHook
  refine .enter h (.lift_bind _ fun _ => .lift_bind _ fun _ => .lift_bind _ fun _ => ?_)
  refine .ite (fun _ => ?_) fun _ => .ite (fun _ => ?_) fun _ => ?_ <;>
    exact .lift_bind _ fun _ => .exit h (.pure _)

theorem leads_getpgidHook (pid : Int) : Leads (getpgidHook pid) (some th) (some th) := by
  unfold getpgidHook
  refine .lift_bind _ fun _ => .ite (fun _ => leads_getpgrpHook h) fun _ => ?_
  refine .enter h (.lift_bind _ fun _ => .ite (fun _ => .exit h (.pure _)) fun _ => ?_)
  exact .lift_bind _ fun _ => .lift_bind _ fun _ => .exit h (.pure _)

theorem leads_killpgHook (pgrp sig : Int) : Leads (killpgHook pgrp sig) (some th) (some th) := by
  unfold killpgHook
  refine .lift_bind _ fun _ => .ite (fun _ => .pure _) fun _ => .enter h ?_
  refine .ite (fun _ => .lift_bind _ fun _ => .exit h (.pure _)) fun _ => ?_
  refine .lift_bind _ fun _ => .ite (fun _ => .bind (.pure _) fun _ => .exit h (.pure _)) fun _ => ?_
  exact .lift_bind _ fun _ => .exit h (.pure _)

theorem leads_killHook (pid sig : Int) : Leads (killHook pid sig) (some th) (some th) := by
  unfold killHook
  refine .lift_bind _ fun _ => .ite (fun _ => .pure _) fun _ => ?_
  refine .ite (fun _ => leads_killpgHook h _ _) fun _ => .ite (fun _ => ?_) fun _ => ?_
  · exact .enter h (.lift_bind _ fun _ => .exit h (.pure _))
  · refine .ite (fun _ => leads_killpgHook h _ _) fun _ => .enter h (.lift_bind _ fun _ => ?_)
    exact .ite (fun _ => .bind (.pure _) fun _ => .exit h (.pure _)) fun _ =>
      .lift_bind _ fun _ => .exit h (.pure _)

theorem leads_procListpidsHook (type typeinfo buf bufsize : Int) :
    Leads (procListpidsHook type typeinfo buf bufsize) (some th) (some th) := by
  unfold procListpidsHook
  refine .lift_bind _ fun _ => .ite (fun _ => .lift _) fun _ => .enter h ?_
  have rest : ∀ realTypeinfo : Int, Leads
      (if (type = procPgrpOnly ∨ type = procPpidOnly) ∧ realTypeinfo = -1 then
        (do unsafeExit; let _ ← libc .setErrno [esrch]; return 0 : HookM Int)
      else do
        let ret ← libc .procListpids [type, realTypeinfo, buf, bufsize]
        virtualizeList buf ret
        unsafeExit
        return ret) (some th.entered) (some th) := fun _ =>
    .ite (fun _ => .exit h (.lift_bind _ fun _ => .pure _)) fun _ =>
      .lift_bind _ fun _ => .lift_bind _ fun _ => .exit h (.pure _)
  exact .ite (fun _ => .lift_bind _ fun _ => rest _) fun _ => rest _

end Restoring

/-! ## `fork` and `wait` -/

/-- Some call of `fn` had the result `r`. -/
def Answered (fn : Fn) (r : Int) (t : Calls) : Prop := ∃ e ∈ t, e.call.fn = fn ∧ e.answer = r

instance (fn : Fn) (r : Int) (t : Calls) : Decidable (Answered fn r t) :=
  inferInstanceAs (Decidable (∃ e ∈ t, e.call.fn = fn ∧ e.answer = r))

section Answered
variable {fn : Fn} {r : Int} {t t' : Calls}

@[simp] theorem not_answered_nil : ¬ Answered fn r [] := by simp [Answered]

@[simp] theorem answered_cons {e : Event fun _ : Call => Int} :
    Answered fn r (e :: t) ↔ (e.call.fn = fn ∧ e.answer = r) ∨ Answered fn r t := by
  simp [Answered]

@[simp] theorem answered_append : Answered fn r (t ++ t') ↔ Answered fn r t ∨ Answered fn r t' := by
  simp only [Answered, List.mem_append, or_and_right, exists_or]

end Answered

/-- The two calls whose answer decides what happens to the descriptor. -/
def Fn.decides (fn : Fn) : Bool := fn = .wait4 || fn = .fork

/-- Code that calls neither `wait4` nor `fork`. -/
def Plain {α : Type} (m : LibcM α) : Prop := (m ()).CallsOnly fun c => c.fn.decides = false

namespace Plain
variable {α β : Type}

theorem libc {fn : Fn} (args : List Int) (h : fn.decides = false) : Plain (libc fn args) :=
  ⟨h, fun _ => trivial⟩

theorem pure (a : α) : Plain (Pure.pure a) := trivial

theorem bind {m : LibcM α} {f : α → LibcM β} (hm : Plain m) (hf : ∀ a, Plain (f a)) :
    Plain (m >>= f) :=
  Prog.CallsOnly.bind hm fun a _ => hf a

theorem ite {p : Prop} [Decidable p] {m m' : LibcM α} (hm : Plain m) (hm' : Plain m') :
    Plain (if p then m else m') := by
  split
  · exact hm
  · exact hm'

theorem not_answered {m : LibcM α} (hm : Plain m) {t : Calls} {a : α} {r : Int} {fn : Fn}
    (hfn : fn.decides = true) (h : (m ()).exec t = some ((), a)) : ¬ Answered fn r t := by
  rintro ⟨e, he, rfl, -⟩
  rw [Prog.CallsOnly.of_exec hm h e he] at hfn
  cases hfn

theorem xndAssert (p : Prop) [Decidable p] : Plain (xndAssert p) := ite (pure _) trivial

theorem pidTableAcquire : Plain pidTableAcquire := bind (libc _ rfl) fun _ => pure _

theorem pidTableRelease : Plain pidTableRelease := bind (libc _ rfl) fun _ => pure _

theorem virtualToRealPid (virt : Int) : Plain (virtualToRealPid virt) :=
  bind pidTableAcquire fun _ => bind (libc _ rfl) fun _ =>
    ite (bind (pure _) fun _ => bind pidTableRelease fun _ => pure _)
      (bind (libc _ rfl) fun _ => bind pidTableRelease fun _ => pure _)

theorem realToVirtualPid (real : Int) : Plain (realToVirtualPid real) :=
  bind pidTableAcquire fun _ => bind (libc _ rfl) fun _ =>
    ite (bind (pure _) fun _ => bind pidTableRelease fun _ => pure _)
      (bind (libc _ rfl) fun _ => bind pidTableRelease fun _ => pure _)

theorem wait4Target (pid : Int) : Plain (wait4Target pid) :=
  ite (bind (virtualToRealPid _) fun _ => bind (xndAssert _) fun _ => pure _)
    (ite (pure _) (bind (virtualToRealPid _) fun _ => bind (xndAssert _) fun _ => pure _))

theorem pidTableEraseLocked (virt : Int) : Plain (pidTableEraseLocked virt) :=
  bind pidTableAcquire fun _ => bind (libc _ rfl) fun _ => pidTableRelease

theorem wait4Result (status realRet : Int) : Plain (wait4Result status realRet) := by
  refine ite (pure _) (bind (realToVirtualPid _) fun _ => bind (libc _ rfl) fun _ => ?_)
  refine ite (bind (pidTableEraseLocked _) fun _ => pure _) (ite ?_ (pure _))
  exact bind (virtualToRealPid _) fun _ => bind (libc _ rfl) fun _ =>
    bind (pidTableEraseLocked _) fun _ => pure _

end Plain

/-- A run that ends in `after` when `fn` answers `r`, and otherwise restores the
descriptor `th`. -/
def Outcome (fn : Fn) (r : Int) (after th : ThreadInfo) (t : Calls) (self : Self) : Prop :=
  (Answered fn r t ∧ self = some after) ∨ (¬ Answered fn r t ∧ self = some th)

section Outcome
variable {fn : Fn} {x : Int} {after th : ThreadInfo} {α β : Type} {s : Self}

theorem Outcome.append {t t' : Calls} {r : Self} (ht : ¬ Answered fn x t)
    (h : Outcome fn x after th t' r) : Outcome fn x after th (t ++ t') r := by
  simpa [Outcome, ht] using h

/-- Plain code in front changes nothing. -/
theorem traces_plain (hfn : fn.decides = true) {m : LibcM α} {f : α → HookM β} (hm : Plain m)
    (hf : ∀ a, Traces (f a) s fun t r _ => Outcome fn x after th t r) :
    Traces (liftM m >>= f) s fun t r _ => Outcome fn x after th t r := by
  refine traces_bind (traces_lift fun t a hrun => hm.not_answered (r := x) hfn hrun) ?_
  rintro t r a ⟨rfl, ht⟩
  exact (hf a).mono fun _ _ _ h => h.append ht

/-- After the deciding call, what is left only has to lead to the right
descriptor. -/
theorem traces_decided {t : Calls} {m : HookM α} (ht : Answered fn x t)
    (hm : Leads m s (some after)) :
    Traces m s fun t' r _ => Outcome fn x after th (t ++ t') r :=
  hm.mono fun _ _ _ hr => Or.inl ⟨answered_append.mpr (Or.inl ht), hr⟩

end Outcome

section Decided
variable {th : ThreadInfo} (h : th.Calling)
include h

/-- One round of the loop, and what follows it. -/
theorem traces_wait4Loop (pid status : Int) (options : BitVec 32) (ru svErrno : Int) (fuel : Nat) :
    Traces (wait4Loop pid status options ru svErrno fuel) (some th)
      fun t r _ => Outcome .wait4 (-1) th.entered th t r := by
  induction fuel with
  | zero => exact traces_halt
  | succ fuel ih =>
      unfold wait4Loop
      refine traces_bind (traces_enter h) ?_
      rintro _ _ _ ⟨rfl, rfl⟩
      refine traces_plain rfl (Plain.wait4Target pid) fun realPid => ?_
      refine traces_bind (traces_libc _ _) ?_
      rintro _ _ realRet ⟨rfl, rfl⟩
      refine traces_ite (fun hfail => ?_) fun hret => ?_
      · -- `goto fail`: the section stays entered.
        refine traces_decided (by simp [hfail]) ?_
        exact .lift_bind _ fun _ => .lift_bind _ fun _ => .pure _
      · refine Traces.mono ?_ fun t r _ hr => Outcome.append (by simpa using hret) hr
        refine traces_plain rfl (Plain.wait4Result _ _) fun virtRet => ?_
        refine traces_bind (traces_exit h) ?_
        rintro _ _ _ ⟨rfl, rfl⟩
        refine traces_ite (fun _ => ?_) fun _ => ?_
        · refine traces_plain rfl (Plain.libc _ rfl) fun _ => ?_
          exact traces_pure (Or.inr ⟨not_answered_nil, rfl⟩)
        · exact traces_plain rfl (Plain.libc _ rfl) fun _ => ih

theorem traces_wait4Hook (fuel : Nat) (pid status : Int) (options : BitVec 32) (ru : Int) :
    Traces (wait4Hook fuel pid status options ru) (some th)
      fun t r _ => Outcome .wait4 (-1) th.entered th t r := by
  unfold wait4Hook
  refine traces_plain rfl (Plain.libc _ rfl) fun svErrno => traces_ite (fun _ => ?_) fun _ => ?_
  · exact traces_plain rfl (Plain.libc _ rfl) fun _ => traces_wait4Loop h _ _ _ _ _ _
  · exact traces_wait4Loop h _ _ _ _ _ _

omit h in
/-- The handlers give the child a descriptor that is one level deep. -/
theorem leads_threadListAtforkChild (s : Self) :
    Leads threadListAtforkChild s (some ⟨.stUnsafe, 1⟩) := by
  unfold threadListAtforkChild threadListInit
  refine .lift_bind _ fun _ => .lift_bind _ fun _ => ?_
  exact .bind (traces_pure rfl) fun _ => .lift_bind _ fun _ => .pure _

omit h in
theorem traces_forkWithHandlers (s : Self) :
    Traces forkWithHandlers s fun t r realRet =>
      (realRet = 0 ∧ Answered .fork 0 t ∧ r = some ⟨.stUnsafe, 1⟩) ∨
        (realRet ≠ 0 ∧ ¬ Answered .fork 0 t ∧ r = s) := by
  unfold forkWithHandlers
  refine traces_bind (traces_libc _ _) ?_
  rintro _ _ realRet ⟨rfl, rfl⟩
  refine traces_ite (fun hchild => ?_) fun hparent => ?_
  · refine traces_bind (leads_threadListAtforkChild _) fun t r _ hr => traces_pure (Or.inl ?_)
    exact ⟨hchild, by simp [hchild], hr⟩
  · exact traces_pure (Or.inr ⟨hparent, by simpa using hparent, rfl⟩)

/-- In the child the thread comes out running user code. -/
theorem traces_forkHook :
    Traces forkHook (some th) fun t r _ => Outcome .fork 0 ⟨.stRunning, 0⟩ th t r := by
  unfold forkHook
  refine traces_bind (traces_enter h) ?_
  rintro _ _ _ ⟨rfl, rfl⟩
  refine traces_plain rfl (Plain.libc _ rfl) fun _ => ?_
  refine traces_bind (traces_forkWithHandlers _) ?_
  rintro t r realRet (⟨rfl, ht, rfl⟩ | ⟨hparent, ht, rfl⟩)
  · refine traces_decided ht (.bind (.pure _) fun _ => ?_)
    have child : (⟨.stRunning, 0⟩ : ThreadInfo).Calling := Or.inl ⟨rfl, rfl⟩
    exact .exit child (.pure _)
  · refine Traces.mono ?_ fun t' r _ hr => Outcome.append ht hr
    have leave : ∀ virtRet : Int, Traces (do unsafeExit; return virtRet : HookM Int)
        (some th.entered) fun t r _ => Outcome .fork 0 ⟨.stRunning, 0⟩ th t r := by
      intro virtRet
      refine traces_bind (traces_exit h) ?_
      rintro _ _ _ ⟨rfl, rfl⟩
      exact traces_pure (Or.inr ⟨not_answered_nil, rfl⟩)
    refine traces_ite (fun _ => ?_) fun _ => traces_ite (fun hz => absurd hz hparent) fun _ => ?_
    · exact traces_plain rfl (Plain.libc _ rfl) fun _ => leave _
    · refine traces_plain rfl (Plain.libc _ rfl) fun _ => ?_
      refine traces_plain rfl Plain.pidTableAcquire fun _ => ?_
      refine traces_plain rfl (Plain.libc _ rfl) fun _ => ?_
      exact traces_plain rfl Plain.pidTableRelease fun _ => leave _

end Decided

end Xnd.Thread
