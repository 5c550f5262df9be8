import Mathlib.Data.BitVec
import Mathlib.Data.List.Basic

/-!
# Signals

A process has a disposition for every signal, and each of its threads a mask.  The library keeps one
signal to itself, with which the checkpoint thread stops the others: the wrappers of `sigaction`,
`signal` and `pthread_sigmask` let the program neither replace its handler nor block it
(`sigactionHook`, `signalHook`, `pthreadSigmaskHook`).

Dispositions belong to the kernel and are not in an image.  `sig_state_save` copies them to
`sa_table` and `sig_state_restore` installs them in a process that is restarted
(`sigStateRestore_sigStateSave`).
-/
namespace Xnd.Resume

/-- `sigset_t`. -/
abbrev SigSet := BitVec 32

namespace SigSet

/-- `sigmask`. -/
def bit (sig : Nat) : SigSet := 1#32 <<< (sig - 1)

def sigismember (set : SigSet) (sig : Nat) : Bool := set.getLsbD (sig - 1)

def sigaddset (set : SigSet) (sig : Nat) : SigSet := set ||| bit sig

def sigdelset (set : SigSet) (sig : Nat) : SigSet := set &&& ~~~bit sig

variable {set set' : SigSet} {sig sig' : Nat}

theorem getLsbD_bit (i : Nat) : (bit sig).getLsbD i = (decide (i < 32) && decide (i = sig - 1)) := by
  rw [bit, BitVec.getLsbD_shiftLeft, BitVec.getLsbD_one]
  by_cases hi : i < 32
  · by_cases hs : i = sig - 1
    · simp [hs]
    · have : ¬ (¬ i < sig - 1 ∧ i - (sig - 1) = 0) := by omega
      simp only [hi, hs, decide_true, decide_false, Bool.true_and]
      by_cases hlt : i < sig - 1
      · simp [hlt]
      · have : i - (sig - 1) ≠ 0 := by omega
        simp [hlt, this]
  · simp [hi]

@[simp] theorem sigismember_or :
    sigismember (set ||| set') sig = (sigismember set sig || sigismember set' sig) :=
  BitVec.getLsbD_or

theorem sigismember_and_not (h : sig ≤ 32) :
    sigismember (set &&& ~~~set') sig = (sigismember set sig && !sigismember set' sig) := by
  rw [sigismember, BitVec.getLsbD_and, BitVec.getLsbD_not, sigismember, sigismember]
  simp only [show sig - 1 < 32 by omega, decide_true, Bool.true_and]

theorem sigismember_bit (hpos : 0 < sig) (hlt : sig ≤ 32) (hpos' : 0 < sig') :
    sigismember (bit sig') sig = decide (sig = sig') := by
  rw [sigismember, getLsbD_bit]
  simp only [show sig - 1 < 32 by omega, decide_true, Bool.true_and, decide_eq_decide]
  omega

/-- A signal that is in the set already. -/
theorem sigaddset_of_mem (h : set.sigismember sig = true) : set.sigaddset sig = set := by
  apply BitVec.eq_of_getLsbD_eq
  intro i hi
  rw [sigaddset, BitVec.getLsbD_or, getLsbD_bit]
  by_cases hsig : i = sig - 1
  · subst hsig
    rw [show set.getLsbD (sig - 1) = true from h, Bool.true_or]
  · simp [hsig]

end SigSet

/-! ## Masks -/

/-- `SIG_BLOCK`, `SIG_UNBLOCK`, `SIG_SETMASK`. -/
inductive How where
  | sigBlock | sigUnblock | sigSetmask
  deriving DecidableEq, Repr

/-- `pthread_sigmask` of the C library: the mask after it. -/
def pthreadSigmask (how : How) (set : Option SigSet) (mask : SigSet) : SigSet :=
  match set, how with
  | none, _ => mask
  | some set, .sigBlock => mask ||| set
  | some set, .sigUnblock => mask &&& ~~~set
  | some set, .sigSetmask => set

/-- `__pthread_sigmask_hook`. -/
def pthreadSigmaskHook (ckptSig : Nat) (how : How) (set : Option SigSet) (mask : SigSet) : SigSet :=
  match set with
  | none => pthreadSigmask how none mask
  | some set =>
      let clean :=
        if how = .sigBlock ∨ how = .sigSetmask then
          if set.sigismember ckptSig then set.sigdelset ckptSig else set
        else set
      pthreadSigmask how (some clean) mask

/-! ## Dispositions -/

/-- `NSIG`. -/
def nsig : Nat := 32

def sigkill : Nat := 9

def sigstop : Nat := 17

/-- What is run for a signal. -/
inductive Handler where
  | sigDfl | sigIgn
  /-- A function of the program. -/
  | code (addr : Nat)
  | threadSighandler
  deriving DecidableEq, Repr

/-- `struct sigaction`. -/
structure SigAction where
  handler : Handler
  mask : SigSet
  flags : BitVec 32
  deriving DecidableEq, Repr

namespace SigAction

/-- The structure after `bzero`. -/
def zero : SigAction := ⟨.sigDfl, 0, 0⟩

/-- `SA_VALIDATE_SIGRETURN_FROM_SIGTRAMP`. -/
def saValidate : BitVec 32 := 0x0400#32

/-- Without the flag that only the trampoline of the C library can do with. -/
def plain (a : SigAction) : SigAction := { a with flags := a.flags &&& ~~~saValidate }

@[simp] theorem plain_plain (a : SigAction) : a.plain.plain = a.plain := by
  rw [plain, plain, BitVec.and_assoc, BitVec.and_self]

/-- `SA_ONSTACK`. -/
def onStack (a : SigAction) : Bool := a.flags.getLsbD 0

@[simp] theorem handler_plain (a : SigAction) : a.plain.handler = a.handler := rfl

@[simp] theorem mask_plain (a : SigAction) : a.plain.mask = a.mask := rfl

@[simp] theorem onStack_plain (a : SigAction) : a.plain.onStack = a.onStack := by
  rw [onStack, plain, BitVec.getLsbD_and]
  exact Bool.and_true _

end SigAction

/-- Where the kernel enters a process that handles a signal. -/
inductive Trampoline where
  | sigtramp | xndSigtramp
  deriving DecidableEq, Repr

/-- What the kernel keeps for a signal. -/
structure Disposition where
  action : SigAction
  tramp : Trampoline
  deriving DecidableEq, Repr

/-- No handler returns through the trampoline of the C library, which a restarted process cannot use. -/
def Disposition.Ours (x : Disposition) : Prop :=
  x.action.handler = .sigDfl ∨ x.action.handler = .sigIgn ∨ x.tramp = .xndSigtramp

abbrev Dispositions := Nat → Disposition

namespace Dispositions

def set (d : Dispositions) (sig : Nat) (x : Disposition) : Dispositions :=
  fun n => if n = sig then x else d n

@[simp] theorem set_self (d : Dispositions) (sig : Nat) (x : Disposition) : d.set sig x sig = x :=
  if_pos rfl

theorem set_of_ne (d : Dispositions) {sig n : Nat} (x : Disposition) (h : n ≠ sig) :
    d.set sig x n = d n := if_neg h

end Dispositions

/-- The system call, `none` when it fails: the action that there was, and the dispositions after. -/
def sysSigaction (tramp : Trampoline) (sig : Nat) (act : Option SigAction) (d : Dispositions) :
    Option (SigAction × Dispositions) :=
  if sig = 0 ∨ nsig ≤ sig then none
  else
    match act with
    | none => some ((d sig).action, d)
    | some a =>
        if sig = sigkill ∨ sig = sigstop then none
        else some ((d sig).action, d.set sig ⟨a, tramp⟩)

/-- `sigaction` of the C library. -/
def sigaction (sig : Nat) (act : Option SigAction) (d : Dispositions) :
    Option (SigAction × Dispositions) := sysSigaction .sigtramp sig act d

/-- `__xnd_sigaction`. -/
def xndSigaction (sig : Nat) (act : Option SigAction) (d : Dispositions) :
    Option (SigAction × Dispositions) :=
  if sig = 0 ∨ nsig ≤ sig then none
  else if act.isSome ∧ (sig = sigstop ∨ sig = sigkill) then none
  else sysSigaction .xndSigtramp sig (act.map SigAction.plain) d

/-- `__sigaction_hook`. -/
def sigactionHook (ckptSig sig : Nat) (act : Option SigAction) (d : Dispositions) :
    Option (SigAction × Dispositions) :=
  match act with
  | none => sigaction sig none d
  | some a =>
      if sig = ckptSig then none
      else if a.handler = .sigDfl ∨ a.handler = .sigIgn then sigaction sig (some a) d
      else xndSigaction sig (some a) d

/-- `SA_RESTART`. -/
def saRestart : BitVec 32 := 0x0002#32

/-- `signal` of the C library. -/
def signal (sig : Nat) (handler : Handler) (d : Dispositions) : Option (Handler × Dispositions) :=
  (sigaction sig (some ⟨handler, 0, saRestart⟩) d).map fun r => (r.1.handler, r.2)

/-- `__signal_hook`, `none` for `SIG_ERR`. -/
def signalHook (ckptSig sig : Nat) (handler : Handler) (d : Dispositions) :
    Option (Handler × Dispositions) :=
  if sig = ckptSig then none
  else if handler = .sigDfl ∨ handler = .sigIgn then signal sig handler d
  else (xndSigaction sig (some ⟨handler, 0, 0⟩) d).map fun r => (.sigDfl, r.2)

/-- The signals that a process can handle. -/
def signals : List Nat := (List.range' 1 (nsig - 1)).filter fun sig => sig ≠ sigkill ∧ sig ≠ sigstop

theorem mem_signals {sig : Nat} :
    sig ∈ signals ↔ 0 < sig ∧ sig < nsig ∧ sig ≠ sigkill ∧ sig ≠ sigstop := by
  rw [signals, List.mem_filter, List.mem_range', decide_eq_true_eq, nsig]
  constructor
  · rintro ⟨⟨i, hi, rfl⟩, hne⟩
    exact ⟨by omega, by omega, hne⟩
  · rintro ⟨hpos, hlt, hne⟩
    exact ⟨⟨sig - 1, by omega, by omega⟩, hne⟩

theorem nodup_signals : signals.Nodup := by decide

theorem xndSigaction_none {sig : Nat} (h : sig ∈ signals) (d : Dispositions) :
    xndSigaction sig none d = some ((d sig).action, d) := by
  obtain ⟨hpos, hlt, -⟩ := mem_signals.mp h
  have hsig : ¬ (sig = 0 ∨ nsig ≤ sig) := by omega
  simp [xndSigaction, sysSigaction, hsig]

theorem xndSigaction_some {sig : Nat} (h : sig ∈ signals) (a : SigAction) (d : Dispositions) :
    xndSigaction sig (some a) d = some ((d sig).action, d.set sig ⟨a.plain, .xndSigtramp⟩) := by
  obtain ⟨hpos, hlt, hkill, hstop⟩ := mem_signals.mp h
  have hsig : ¬ (sig = 0 ∨ nsig ≤ sig) := by omega
  simp [xndSigaction, sysSigaction, hsig, hkill, hstop]

theorem sysSigaction_some {sig : Nat} (h : sig ∈ signals) (tramp : Trampoline) (a : SigAction)
    (d : Dispositions) :
    sysSigaction tramp sig (some a) d = some ((d sig).action, d.set sig ⟨a, tramp⟩) := by
  obtain ⟨hpos, hlt, hkill, hstop⟩ := mem_signals.mp h
  have hsig : ¬ (sig = 0 ∨ nsig ≤ sig) := by omega
  simp [sysSigaction, hsig, hkill, hstop]

theorem sysSigaction_illegal {sig : Nat} (h : sig ∉ signals) (tramp : Trampoline) (a : SigAction)
    (d : Dispositions) : sysSigaction tramp sig (some a) d = none := by
  rw [mem_signals] at h
  by_cases hsig : sig = 0 ∨ nsig ≤ sig
  · exact if_pos hsig
  · have hks : sig = sigkill ∨ sig = sigstop := by omega
    simp [sysSigaction, hsig, hks]

theorem xndSigaction_illegal {sig : Nat} (h : sig ∉ signals) (a : SigAction) (d : Dispositions) :
    xndSigaction sig (some a) d = none := by
  rw [mem_signals] at h
  by_cases hsig : sig = 0 ∨ nsig ≤ sig
  · exact if_pos hsig
  · have hks : sig = sigstop ∨ sig = sigkill := by omega
    simp [xndSigaction, hsig, hks]

/-! ## Saving and restoring -/

/-- `sa_table` and `last_ckpt_sig`. -/
structure SigState where
  saTable : Nat → SigAction
  lastCkptSig : Int

/-- `sig_state_save`, `none` when it aborts. -/
def sigStateSave (ckptSig : Nat) (d : Dispositions) (st : SigState) : Option SigState :=
  if ckptSig = 0 ∨ nsig ≤ ckptSig ∨ ckptSig = sigkill ∨ ckptSig = sigstop then none
  else
    let saTable := signals.foldl (fun (table : Nat → SigAction) sig n =>
      if n = sig then ((xndSigaction sig none d).map (·.1)).getD .zero else table n) st.saTable
    some
      { saTable := fun n =>
          if n = ckptSig then { saTable n with handler := .threadSighandler } else saTable n
        lastCkptSig := ckptSig }

/-- `sig_state_restore`, `none` when it aborts. -/
def sigStateRestore (ckptSig : Nat) (st : SigState) (d : Dispositions) : Option Dispositions :=
  if (ckptSig : Int) ≠ st.lastCkptSig then none
  else if ckptSig = 0 ∨ nsig ≤ ckptSig ∨ ckptSig = sigkill ∨ ckptSig = sigstop then none
  else
    let saTable := fun n =>
      if n = ckptSig then { st.saTable n with handler := .threadSighandler } else st.saTable n
    some (signals.foldl (fun d sig =>
      match xndSigaction sig (some (saTable sig)) d with
      | some r => r.2
      | none => d) d)

/-- The table after the loop of `sig_state_save`. -/
theorem foldl_query (d : Dispositions) (table : Nat → SigAction) {l : List Nat}
    (hl : ∀ sig ∈ l, sig ∈ signals) (n : Nat) :
    l.foldl (fun (table : Nat → SigAction) sig n =>
      if n = sig then ((xndSigaction sig none d).map (·.1)).getD .zero else table n) table n =
        if n ∈ l then (d n).action else table n := by
  induction l generalizing table with
  | nil => rfl
  | cons sig l ih =>
      rw [List.foldl_cons, ih _ fun sig h => hl sig (List.mem_cons_of_mem _ h),
        xndSigaction_none (hl sig List.mem_cons_self)]
      by_cases hn : n = sig <;> simp [hn]

/-- The dispositions after the loop of `sig_state_restore`. -/
theorem foldl_install (saTable : Nat → SigAction) (d : Dispositions) {l : List Nat}
    (hl : ∀ sig ∈ l, sig ∈ signals) (n : Nat) :
    l.foldl (fun d sig =>
      match xndSigaction sig (some (saTable sig)) d with
      | some r => r.2
      | none => d) d n = if n ∈ l then ⟨(saTable n).plain, .xndSigtramp⟩ else d n := by
  induction l generalizing d with
  | nil => rfl
  | cons sig l ih =>
      rw [List.foldl_cons, ih _ fun sig h => hl sig (List.mem_cons_of_mem _ h),
        xndSigaction_some (hl sig List.mem_cons_self)]
      by_cases hn : n = sig
      · subst hn
        simp
      · simp [hn, Dispositions.set_of_ne]

section Reserved
variable {ckptSig : Nat} (hsig : ckptSig ∈ signals)
include hsig

theorem ckptSig_legal : ¬ (ckptSig = 0 ∨ nsig ≤ ckptSig ∨ ckptSig = sigkill ∨ ckptSig = sigstop) := by
  obtain ⟨hpos, hlt, hkill, hstop⟩ := mem_signals.mp hsig
  omega

/-- **What is saved.** -/
theorem sigStateSave_eq (d : Dispositions) (st : SigState) : ∃ st', sigStateSave ckptSig d st = some st' ∧
    st'.lastCkptSig = ckptSig ∧ ∀ sig ∈ signals, st'.saTable sig =
      if sig = ckptSig then { (d sig).action with handler := .threadSighandler } else (d sig).action := by
  refine ⟨_, if_neg (ckptSig_legal hsig), rfl, fun sig hmem => ?_⟩
  simp only [foldl_query d st.saTable (fun _ h => h), hmem, if_true]

/-- **What is restored.** -/
theorem sigStateRestore_eq {st : SigState} (hlast : st.lastCkptSig = ckptSig) (d : Dispositions) :
    ∃ d', sigStateRestore ckptSig st d = some d' ∧ ∀ sig ∈ signals, d' sig =
      ⟨(if sig = ckptSig then { st.saTable sig with handler := .threadSighandler }
        else st.saTable sig).plain, .xndSigtramp⟩ := by
  refine ⟨_, (if_neg (not_not.mpr hlast.symm)).trans (if_neg (ckptSig_legal hsig)), fun sig hmem => ?_⟩
  rw [foldl_install _ _ fun _ h => h, if_pos hmem]

/-- **Dispositions survive**: what is saved in one process is installed in another. -/
theorem sigStateRestore_sigStateSave (d d' : Dispositions) (st : SigState) :
    ∃ st' d'', sigStateSave ckptSig d st = some st' ∧ sigStateRestore ckptSig st' d' = some d'' ∧
      (d'' ckptSig).action.handler = .threadSighandler ∧
      ∀ sig ∈ signals, sig ≠ ckptSig → (d'' sig).action = (d sig).action.plain := by
  obtain ⟨st', hsave, hlast, htable⟩ := sigStateSave_eq hsig d st
  obtain ⟨d'', hrestore, hd⟩ := sigStateRestore_eq hsig hlast d'
  refine ⟨st', d'', hsave, hrestore, ?_, fun sig hmem hne => ?_⟩
  · rw [hd ckptSig hsig, if_pos rfl]
    rfl
  · rw [hd sig hmem, if_neg hne, htable sig hmem, if_neg hne]

end Reserved

/-! ## The wrappers -/

/-- **A wrapped mask** is the one that the program asked for, but for the reserved signal. -/
theorem sigismember_pthreadSigmaskHook {ckptSig sig : Nat} (hckpt : ckptSig ∈ signals)
    (hsig : sig ∈ signals) (hne : sig ≠ ckptSig) (how : How) (set : Option SigSet) (mask : SigSet) :
    (pthreadSigmaskHook ckptSig how set mask).sigismember sig =
      (pthreadSigmask how set mask).sigismember sig := by
  obtain ⟨hpos, hlt, -⟩ := mem_signals.mp hsig
  obtain ⟨hpos', -⟩ := mem_signals.mp hckpt
  have hlt : sig ≤ 32 := Nat.le_of_lt hlt
  cases set with
  | none => rfl
  | some set =>
      cases how <;> by_cases hm : set.sigismember ckptSig = true <;>
        simp [pthreadSigmaskHook, pthreadSigmask, SigSet.sigdelset, SigSet.sigismember_and_not hlt,
          SigSet.sigismember_bit hpos hlt hpos', hm, hne]

/-- The reserved signal is not blocked by a wrapped call. -/
theorem not_sigismember_pthreadSigmaskHook {ckptSig : Nat} (hckpt : ckptSig ∈ signals) (how : How)
    (set : Option SigSet) {mask : SigSet} (h : mask.sigismember ckptSig = false) :
    (pthreadSigmaskHook ckptSig how set mask).sigismember ckptSig = false := by
  obtain ⟨hpos, hlt, -⟩ := mem_signals.mp hckpt
  have hlt : ckptSig ≤ 32 := Nat.le_of_lt hlt
  cases set with
  | none => exact h
  | some set =>
      cases how <;> by_cases hm : set.sigismember ckptSig = true <;>
        simp [pthreadSigmaskHook, pthreadSigmask, SigSet.sigdelset, SigSet.sigismember_and_not hlt,
          SigSet.sigismember_bit hpos hlt hpos, hm, h]

end Xnd.Resume
