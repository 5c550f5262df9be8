import Xnd.Resume.Rollback

/-!
# The reserved signal

The checkpoint signal is the library's as long as no action that the program installs has it in its
`sa_mask`: the wrappers keep the program from blocking it, from handling it and from ignoring it, and
what is saved and restored leaves it so.  A thread in the code of the program never blocks it, the
checkpoint thread always does, and its handler is `thread_sighandler`, in every generation
(`Process.reserved_run`).
-/
namespace Xnd.Resume
open Thread (ThreadState XndState)

variable {c : Setup} {s s' : Process} {m : Memory} {t : Nat} {u : UserThread} {mask mask' : SigSet}
  {d : Dispositions} {x : Call}

/-! ## Masks that let the signal through -/

/-- The checkpoint signal is not in the mask. -/
def Setup.Open (c : Setup) (mask : SigSet) : Prop := mask.sigismember c.ckptSig = false

instance (c : Setup) (mask : SigSet) : Decidable (c.Open mask) := inferInstanceAs (Decidable (_ = _))

namespace Setup

theorem Open.zero (c : Setup) : c.Open 0 := BitVec.getLsbD_zero

theorem Open.or (h : c.Open mask) (h' : c.Open mask') : c.Open (mask ||| mask') := by
  rw [Open, SigSet.sigismember_or, h, h']
  rfl

theorem Open.sigaddset (h : c.Open mask) {sig : Nat} (hsig : c.Free sig) : c.Open (mask.sigaddset sig) := by
  obtain ⟨hpos, hlt, -⟩ := mem_signals.mp c.legal
  refine h.or ?_
  rw [Open, SigSet.sigismember_bit hpos (Nat.le_of_lt hlt) (mem_signals.mp hsig.1).1, decide_eq_false_iff_not]
  exact Ne.symm hsig.2

end Setup

/-- An action of the program does not block the checkpoint signal. -/
def Call.Polite (c : Setup) : Call → Prop
  | .sigaction _ (some a) => c.Open a.mask
  | _ => True

def Act.Polite (c : Setup) : Act → Prop
  | .call _ x => x.Polite c
  | _ => True

instance (c : Setup) : (x : Call) → Decidable (x.Polite c)
  | .sigaction _ (some a) => inferInstanceAs (Decidable (c.Open a.mask))
  | .sigaction _ none | .setSlot .. | .sigmask .. | .sigaltstack _ | .signal .. | .deliver _ | .sigreturn =>
      inferInstanceAs (Decidable True)

instance (c : Setup) : (a : Act) → Decidable (a.Polite c)
  | .call _ x => inferInstanceAs (Decidable (x.Polite c))
  | .create .. | .exit _ | .user _ | .ckpt | .ckptSlot .. | .signal _ | .checkpoint | .restoreThreads _
  | .restart .. => inferInstanceAs (Decidable True)

/-- The steps that are taken. -/
def Process.Allowed (c : Setup) (s : Process) (a : Act) : Prop := s.Settled a ∧ a.Polite c

instance (c : Setup) (s : Process) (a : Act) : Decidable (s.Allowed c a) :=
  inferInstanceAs (Decidable (_ ∧ _))

/-! ## Views -/

structure Visible.Open (c : Setup) (v : Visible) : Prop where
  mask : c.Open v.mask
  frames : ∀ f ∈ v.frames, c.Open f.mask

/-- No thread blocks the checkpoint signal, and no handler of the program will. -/
structure View.Open (c : Setup) (v : View) : Prop where
  threads : ∀ t, ∀ x ∈ v.threads t, x.Open c
  actions : ∀ sig, (v.actions sig).handler.isCode = true → c.Open (v.actions sig).mask

/-- A thread returns from a handler to a mask that it had. -/
theorem Visible.Open.interrupted (slots : Nat → Nat) (altstack : Option (Nat × Nat)) {l : List Frame}
    (h : ∀ f ∈ l, c.Open f.mask) : (Visible.interrupted slots altstack l).Open c := by
  cases l with
  | nil => exact ⟨Setup.Open.zero c, List.forall_mem_nil _⟩
  | cons f rest =>
      exact ⟨h f List.mem_cons_self, fun f' hf' => h f' (List.mem_cons_of_mem _ hf')⟩

/-- A handler of the program can be entered. -/
def Call.Delivers (c : Setup) (actions : Nat → SigAction) : Call → Prop
  | .deliver sig => c.Free sig ∧ (actions sig).handler.isCode = true
  | _ => True

/-- **A call** of a thread. -/
theorem Visible.Open.call {v : Visible} (h : v.Open c) {actions : Nat → SigAction}
    (hactions : ∀ sig, (actions sig).handler.isCode = true → c.Open (actions sig).mask)
    (hdelivers : x.Delivers c actions) : (v.call c actions x).Open c := by
  cases x with
  | setSlot slot word => exact ⟨h.mask, h.frames⟩
  | sigmask how set => exact ⟨not_sigismember_pthreadSigmaskHook c.legal how set h.mask, h.frames⟩
  | sigaltstack ss => exact ⟨h.mask, h.frames⟩
  | sigaction sig act => exact h
  | signal sig handler => exact h
  | deliver sig =>
      obtain ⟨hfree, hcode⟩ := hdelivers
      refine ⟨(h.mask.or (hactions sig hcode)).sigaddset hfree, fun f hf => ?_⟩
      rcases List.mem_cons.mp hf with rfl | hf
      · exact h.mask
      · exact h.frames f hf
  | sigreturn => exact .interrupted _ _ h.frames

theorem View.Open.setAction {v : View} (h : v.Open c) (sig : Nat) {a : SigAction} (ha : c.Open a.mask) :
    (v.setAction c sig a).Open c := by
  refine ⟨h.threads, fun n hcode => ?_⟩
  simp only [View.setAction] at hcode ⊢
  split at hcode
  next hfree =>
    rw [if_pos hfree]
    by_cases hn : n = sig
    · subst hn
      rw [put_self]
      exact ha
    · rw [put_of_ne _ _ hn] at hcode ⊢
      exact h.actions n hcode
  next hfree =>
    rw [if_neg hfree]
    exact h.actions n hcode

theorem View.Open.act {v : View} (h : v.Open c) (hx : x.Polite c) : (v.act c x).Open c := by
  cases x with
  | sigaction sig act =>
      cases act with
      | none => exact h
      | some a => exact h.setAction sig hx
  | signal sig handler => exact h.setAction sig (Setup.Open.zero c)
  | _ => exact h

/-- An operation of the program is one that happens, and blocks nothing. -/
def Op.Polite (c : Setup) (v : View) : Op → Prop
  | .call _ x => x.Polite c ∧ x.Delivers c v.actions
  | _ => True

theorem forall_mem_put {α : Type} {P : α → Prop} {f : Nat → Option α} (h : ∀ i, ∀ x ∈ f i, P x) (i : Nat)
    {o : Option α} (ho : ∀ x ∈ o, P x) : ∀ j, ∀ x ∈ put f i o j, P x := by
  intro j x hx
  by_cases hne : j = i
  · subst hne
    rw [put_self] at hx
    exact ho x hx
  · rw [put_of_ne _ _ hne] at hx
    exact h j x hx

/-- **What a program does** leaves the signal to the library. -/
theorem View.Open.apply {v : View} (h : v.Open c) {o : Op} (ho : o.Polite c v) :
    (v.apply c o).Open c := by
  cases o with
  | call t x =>
      refine ⟨forall_mem_put h.threads t fun y hy => ?_, (h.act ho.1).actions⟩
      obtain ⟨z, hz, rfl⟩ := Option.map_eq_some_iff.mp hy
      exact (h.threads t z hz).call h.actions ho.2
  | create t t' block =>
      refine ⟨forall_mem_put h.threads t' fun y hy => ?_, h.actions⟩
      obtain ⟨z, hz, rfl⟩ := Option.map_eq_some_iff.mp hy
      exact ⟨(h.threads t z hz).mask, List.forall_mem_nil _⟩
  | exit t => exact ⟨forall_mem_put h.threads t fun _ hy => (Option.not_mem_none _ hy).elim, h.actions⟩
  | ckptSlot slot word => exact ⟨h.threads, h.actions⟩

/-! ## Dispositions -/

/-- `thread_sighandler` is installed, and no handler returns through the C library. -/
structure Installed (c : Setup) (d : Dispositions) : Prop where
  handler : (d c.ckptSig).action.handler = .threadSighandler
  ours : ∀ sig ∈ signals, (d sig).Ours

theorem Installed.set (h : Installed c d) {sig : Nat} (hfree : c.Free sig) {y : Disposition}
    (hy : y.Ours) : Installed c (d.set sig y) := by
  refine ⟨?_, fun n hn => ?_⟩
  · rw [Dispositions.set_of_ne _ _ (Ne.symm hfree.2)]
    exact h.handler
  · by_cases hne : n = sig
    · subst hne
      rw [Dispositions.set_self]
      exact hy
    · rw [Dispositions.set_of_ne _ _ hne]
      exact h.ours n hn

/-- What `sig_state_restore` installs. -/
theorem Installed.restored {d' : Dispositions} {st : SigState}
    (h : sigStateRestore c.ckptSig st d = some d')
    (hlast : st.lastCkptSig = c.ckptSig) : Installed c d' := by
  obtain ⟨d'', hrestore, hd⟩ := sigStateRestore_eq c.legal hlast d
  obtain rfl := Option.some.inj (h.symm.trans hrestore)
  refine ⟨?_, fun sig hsig => .inr (.inr ?_)⟩
  · rw [hd _ c.legal, if_pos rfl]
    rfl
  · rw [hd sig hsig]

/-- What a call leaves installed. -/
theorem Installed.call (h : Installed c s.dispositions) (hstep : s.call c t u x = some s') :
    Installed c s'.dispositions := by
  cases x <;> simp only [Process.call, guarded_eq_some] at hstep
  case sigaction sig act =>
    obtain rfl := Option.some.inj hstep
    cases act with
    | none =>
        rw [Process.install_query]
        exact h
    | some a =>
        rcases sigactionHook_some c sig a s.dispositions with ⟨hnone, -⟩ | ⟨y, hsome, hfree, -, hy⟩
        · rw [hnone]
          exact h
        · rw [hsome]
          exact h.set hfree hy
  case signal sig handler =>
    obtain rfl := Option.some.inj hstep
    rcases signalHook_cases c sig handler s.dispositions with ⟨hnone, -⟩ | ⟨r, y, hsome, hfree, -, hy⟩
    · rw [hnone]
      exact h
    · rw [hsome]
      exact h.set hfree hy
  case sigreturn =>
    split at hstep
    · cases hstep
    · obtain rfl := Option.some.inj hstep
      exact h
  case sigmask =>
    obtain rfl := Option.some.inj hstep
    exact h
  all_goals
    obtain ⟨-, rfl⟩ := hstep
    exact h

/-! ## The invariant -/

/-- **The checkpoint signal is the library's**, now and in all images. -/
structure Reserved (c : Setup) (s : Process) : Prop where
  sound : Sound c s
  current : (s.view c).Open c
  saved : ∀ v ∈ (s.versions c).saved, v.Open c
  installed : s.ckptPc ≠ .restoreActions → Installed c s.dispositions

/-- A handler that a thread enters is one of the program. -/
theorem Sound.delivers (h : Sound c s) (ht : t ∈ s.mem.threadList) (hu : s.threads t = some u)
    (hstep : s.call c t u x = some s') : x.Delivers c (s.view c).actions := by
  cases x with
  | deliver sig =>
      obtain ⟨⟨hfree, hcode, -⟩, -⟩ := guarded_eq_some.mp hstep
      refine ⟨hfree, ?_⟩
      rw [h.view_actions ht hu, appActions, if_pos hfree, SigAction.handler_plain]
      exact hcode
  | _ => trivial

namespace Reserved
variable {a : Act}

/-- What happens in a step blocks nothing. -/
theorem polite (h : Reserved c s) (ha : a.Polite c) (hstep : s.step c a = some s') {o : Op}
    (ho : a.event = some (.op o)) : o.Polite c (s.view c) := by
  cases a with
  | call t x =>
      obtain rfl := VersionEvent.op.inj (Option.some.inj ho)
      obtain ⟨u, hruns, hcall⟩ := Option.bind_eq_some_iff.mp hstep
      obtain ⟨ht, hu, -⟩ := Process.runs_eq_some hruns
      exact ⟨ha, h.sound.delivers ht hu hcall⟩
  | create | exit | ckptSlot =>
      obtain rfl := VersionEvent.op.inj (Option.some.inj ho)
      trivial
  | user | ckpt | signal | checkpoint | restoreThreads | restart => cases ho

/-- What is installed after a step. -/
theorem installed_step (h : Reserved c s) (hstep : s.step c a = some s')
    (hpc : s'.ckptPc ≠ .restoreActions) : Installed c s'.dispositions := by
  cases a with
  | call t x =>
      obtain ⟨u, hruns, hcall⟩ := Option.bind_eq_some_iff.mp hstep
      obtain ⟨ht, hu, -⟩ := Process.runs_eq_some hruns
      exact (h.installed (h.sound.not_restoreActions ht hu)).call hcall
  | create t t' area block =>
      obtain ⟨u, -, hcreate⟩ := Option.bind_eq_some_iff.mp hstep
      obtain ⟨-, rfl⟩ := guarded_eq_some.mp hcreate
      exact h.installed hpc
  | exit t =>
      obtain ⟨u, -, hexit⟩ := Option.bind_eq_some_iff.mp hstep
      obtain ⟨-, rfl⟩ := guarded_eq_some.mp hexit
      exact h.installed hpc
  | user t =>
      simp only [Process.step] at hstep
      split at hstep
      next =>
        obtain ⟨u, -, huser⟩ := Option.bind_eq_some_iff.mp hstep
        obtain ⟨m, u', rfl⟩ := userStep_eq_after huser
        exact h.installed hpc
      next => cases hstep
  | ckpt =>
      by_cases hrestore : s.ckptPc = .restoreActions
      · simp only [Process.step, Process.ckptStep, hrestore] at hstep
        split at hstep
        next d hd =>
          obtain rfl := Option.some.inj hstep
          exact .restored hd (h.sound.ckpt.lastCkptSig (.inr hrestore))
        next hd =>
          obtain ⟨d, hd', -⟩ := sigStateRestore_eq c.legal
            (h.sound.ckpt.lastCkptSig (.inr hrestore)) s.dispositions
          rw [hd] at hd'
          cases hd'
      · obtain ⟨m, k, pc, d, rfl, hd⟩ := ckptStep_eq hstep
        change Installed c d
        rw [hd hrestore]
        exact h.installed hrestore
  | ckptSlot slot word =>
      obtain ⟨-, rfl⟩ := guarded_eq_some.mp hstep
      exact h.installed hpc
  | signal t =>
      simp only [Process.step] at hstep
      split at hstep
      next =>
        obtain ⟨u, -, rfl⟩ := Option.map_eq_some_iff.mp hstep
        exact h.installed hpc
      next => cases hstep
  | checkpoint =>
      obtain ⟨hck, rfl⟩ := guarded_eq_some.mp hstep
      exact h.installed (hck ▸ CkptPc.noConfusion)
  | restoreThreads area =>
      simp only [Process.step] at hstep
      split at hstep
      next hguard =>
        obtain rfl := Option.some.inj hstep
        exact h.installed (hguard.1 ▸ CkptPc.noConfusion)
      next => cases hstep
  | restart n area words mask d =>
      obtain ⟨m, -, hresume⟩ := Option.bind_eq_some_iff.mp hstep
      obtain ⟨-, rfl⟩ := guarded_eq_some.mp hresume
      exact absurd rfl hpc

/-- **A step** leaves the signal to the library. -/
theorem step (h : Reserved c s) (hsettled : s.Settled a) (ha : a.Polite c)
    (hstep : s.step c a = some s') : Reserved c s' := by
  obtain ⟨hs, hversions⟩ := h.sound.step hsettled hstep
  have hopen : (s'.versions c).current.Open c ∧ ∀ v ∈ (s'.versions c).saved, v.Open c := by
    rw [hversions]
    cases he : a.event with
    | none => exact ⟨h.current, h.saved⟩
    | some e =>
        refine Versions.apply_keeps (View.apply c) (fun o ho => ?_) h.current h.saved
        exact h.current.apply (h.polite ha hstep (he.trans (congrArg some ho)))
  exact ⟨hs, hopen.1, hopen.2, h.installed_step hstep⟩

/-- The process after `xnd_setup`. -/
theorem setup {i : Start} (hmask : c.Open i.mask) (h : Process.setup c i = some s) : Reserved c s := by
  have hs := Sound.setup h
  obtain rfl := Option.some.inj ((Process.setup_eq c i).symm.trans h)
  have hmain : ∀ d, i.main ∈ (i.process c d).mem.threadList := fun _ => List.mem_singleton_self _
  refine ⟨hs, ⟨fun t x hx => ?_, fun sig hcode => ?_⟩, List.forall_mem_nil _, fun _ => ⟨?_, fun sig hsig => ?_⟩⟩
  · by_cases ht : t = i.main
    · subst ht
      rw [Process.view_threads_of_mem (hmain _), Start.threads_process] at hx
      obtain rfl := Option.some.inj hx
      exact ⟨hmask, List.forall_mem_nil _⟩
    · rw [Process.view_threads_of_not_mem (List.mem_singleton.not.mpr ht)] at hx
      cases hx
  · rw [hs.view_actions (hmain _) (Start.threads_process c i _), appActions] at hcode ⊢
    split at hcode
    next hfree =>
      -- The program has not installed a handler yet.
      rw [SigAction.handler_plain, Start.dispositions_process, Dispositions.set_of_ne _ _ hfree.2] at hcode
      rcases i.plain sig with he | he <;> rw [he] at hcode <;> cases hcode
    next => cases hcode
  · rw [Start.dispositions_process, Dispositions.set_self]
    rfl
  · rw [Start.dispositions_process]
    by_cases hne : sig = c.ckptSig
    · subst hne
      rw [Dispositions.set_self]
      exact .inr (.inr rfl)
    · rw [Dispositions.set_of_ne _ _ hne]
      exact or_assoc.mp (.inl (i.plain sig))

variable (h : Reserved c s)
include h

/-- A thread that runs can be interrupted. -/
theorem open_of_run (ht : t ∈ s.mem.threadList) (hu : s.threads t = some u) (hpc : u.pc = .run) :
    c.Open u.kernel.mask := by
  have hview := h.current.threads t _ (Process.view_threads_of_mem ht)
  rw [hu] at hview
  simp only [visibleOf, hpc] at hview
  exact hview.mask

theorem ckpt_blocks (hsig : s.ckptPc.beforeSig = false) : ¬ c.Open s.ckpt.mask := by
  have hblocked := h.sound.ckpt.blocked
  rw [hsig] at hblocked
  exact fun hopen => Bool.noConfusion (hopen.symm.trans hblocked)

end Reserved

/-- The program tries to block the signal and to handle it, and is in a handler of its own when it is
stopped. -/
def attempted : List Act :=
  [.call 1 (.sigmask .sigBlock (some (SigSet.sigaddset 0 31))), .call 1 (.sigaction 31 (some ⟨.code 7, 0, 0⟩)),
    .call 1 (.signal 30 (.code 8)), .call 1 (.deliver 30)]

set_option maxRecDepth 10000 in
theorem isSome_follow_attempted : (Machine.follow (Process.step sampleSetup) (Process.Allowed sampleSetup)
    sampleInit (attempted ++ checkpointed ++ reborn :: released)).isSome = true := by decide

end Xnd.Resume
