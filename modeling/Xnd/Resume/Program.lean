import Xnd.Resume.Steps

/-!
# The program's own steps

A call of the program does to its view what it says, whatever the checkpoint thread is doing: the
wrappers pass on what concerns the program, and the checkpoint thread's signal is the only one that
they keep from it.
-/
namespace Xnd.Resume
open Thread (ThreadState XndState)

variable {c : Setup} {s s' : Process} {m : Memory} {t t' : Nat} {u u' : UserThread} {k : KernelThread}
  {d : Dispositions} {sig : Nat} {a : SigAction} {x : Call}

/-! ## Dispositions -/

theorem appActions_set (h : c.Free sig) (x : Disposition) :
    (appActions c fun n => (d.set sig x n).action) =
      put (appActions c fun n => (d n).action) sig x.action.plain := by
  funext n
  by_cases hn : n = sig
  · subst hn
    rw [put_self, appActions, if_pos h, Dispositions.set_self]
  · rw [put_of_ne _ _ hn, appActions, appActions, Dispositions.set_of_ne _ _ hn]

/-- **The wrapper of `sigaction`** installs an action when the signal is the program's. -/
theorem sigactionHook_some (c : Setup) (sig : Nat) (a : SigAction) (d : Dispositions) :
    (sigactionHook c.ckptSig sig (some a) d = none ∧ ¬ c.Free sig) ∨
      ∃ x, sigactionHook c.ckptSig sig (some a) d = some ((d sig).action, d.set sig x) ∧
        c.Free sig ∧ x.action.plain = a.plain ∧ x.Ours := by
  by_cases hckpt : sig = c.ckptSig
  · exact .inl ⟨if_pos hckpt, fun h => h.2 hckpt⟩
  · by_cases hsig : sig ∈ signals
    · refine .inr ?_
      rw [sigactionHook, if_neg hckpt]
      by_cases hplain : a.handler = .sigDfl ∨ a.handler = .sigIgn
      · refine ⟨⟨a, .sigtramp⟩, ?_, ⟨hsig, hckpt⟩, rfl, or_assoc.mp (.inl hplain)⟩
        rw [if_pos hplain]
        exact sysSigaction_some hsig _ a d
      · refine ⟨⟨a.plain, .xndSigtramp⟩, ?_, ⟨hsig, hckpt⟩, a.plain_plain, .inr (.inr rfl)⟩
        rw [if_neg hplain]
        exact xndSigaction_some hsig a d
    · refine .inl ⟨?_, fun h => hsig h.1⟩
      rw [sigactionHook, if_neg hckpt]
      split
      · exact sysSigaction_illegal hsig _ a d
      · exact xndSigaction_illegal hsig a d

/-- **The wrapper of `signal`.** -/
theorem signalHook_cases (c : Setup) (sig : Nat) (handler : Handler) (d : Dispositions) :
    (signalHook c.ckptSig sig handler d = none ∧ ¬ c.Free sig) ∨
      ∃ r x, signalHook c.ckptSig sig handler d = some (r, d.set sig x) ∧ c.Free sig ∧
        x.action.plain = (⟨handler, 0, if handler = .sigDfl ∨ handler = .sigIgn then saRestart
          else 0⟩ : SigAction).plain ∧ x.Ours := by
  by_cases hckpt : sig = c.ckptSig
  · exact .inl ⟨if_pos hckpt, fun h => h.2 hckpt⟩
  · rw [signalHook, if_neg hckpt]
    by_cases hsig : sig ∈ signals
    · refine .inr ?_
      by_cases hplain : handler = .sigDfl ∨ handler = .sigIgn
      · refine ⟨(d sig).action.handler, ⟨⟨handler, 0, saRestart⟩, .sigtramp⟩, ?_, ⟨hsig, hckpt⟩, ?_, or_assoc.mp (.inl hplain)⟩
        · rw [if_pos hplain, signal, sigaction, sysSigaction_some hsig]
          rfl
        · rw [if_pos hplain]
      · refine ⟨.sigDfl, ⟨(⟨handler, 0, 0⟩ : SigAction).plain, .xndSigtramp⟩, ?_, ⟨hsig, hckpt⟩, ?_, .inr (.inr rfl)⟩
        · rw [if_neg hplain, xndSigaction_some hsig]
          rfl
        · rw [if_neg hplain]
          exact SigAction.plain_plain _
    · refine .inl ⟨?_, fun h => hsig h.1⟩
      split
      · rw [signal, sigaction, sysSigaction_illegal hsig]
        rfl
      · rw [xndSigaction_illegal hsig]
        rfl

/-! ## Calls -/

/-- A question changes nothing. -/
theorem Process.install_query (s : Process) (c : Setup) (sig : Nat) :
    s.install (sigactionHook c.ckptSig sig none s.dispositions) = s := by
  by_cases hsig : sig = 0 ∨ nsig ≤ sig <;>
    simp [sigactionHook, sigaction, sysSigaction, hsig, Process.install]

theorem View.act_eq (v : View) (x : Call) : v.act c x = { v with actions := (v.act c x).actions } := by
  cases x with
  | sigaction sig act => cases act <;> rfl
  | _ => rfl

/-- A step that leaves the thread in the kernel as it is. -/
theorem after_self (hu : s.threads t = some u) :
    s.after t m u d = { s with mem := m, dispositions := d } := by
  have : put s.threads t (some u) = s.threads := by
    funext t'
    by_cases hne : t' = t
    · subst hne
      rw [put_self, hu]
    · exact put_of_ne _ _ hne
  rw [Process.after, this]

theorem Stack.isSome_registered (ss : Stack) : ss.registered.isSome = !ss.disabled := by
  rw [Stack.registered]
  cases ss.disabled <;> rfl

namespace Sound
variable (h : Sound c s) (ht : t ∈ s.mem.threadList) (hu : s.threads t = some u) (hpc : u.pc = .run)
include h ht hu hpc

/-- Where the checkpoint thread is while a thread runs. -/
theorem phase_of_run : s.ckptPc.counts = false ∧ s.ckptPc ≠ .checkpoint := by
  have hadmits := h.admitsAt ht hu
  cases hck : s.ckptPc <;> simp_all [CkptPc.Admits, CkptPc.counts]

/-- **A call** that changes the thread and the dispositions. -/
theorem call_after (hm : Touches s t m) (hinfo : m.info t = s.mem.info t) (hok : k.altstack.Ok)
    (harea : k.area = u.kernel.area) (harrived : m.threadsArrived = s.mem.threadsArrived)
    (hvisible : visibleOf m t (some { u with kernel := k }) =
      (visibleOf s.mem t (some u)).call c (s.view c).actions x)
    (hactions : (appActions c fun sig => (d sig).action) = ((s.view c).act c x).actions) :
    Sound c (s.after t m { u with kernel := k } d) ∧
      (s.after t m { u with kernel := k } d).view c = (s.view c).apply c (.call t x) := by
  have hfits := (h.fitsAt ht hu).2
  obtain ⟨hcounts, hck⟩ := h.phase_of_run ht hu hpc
  have hadmits : s.ckptPc.Admits (some { u with kernel := k }) := by
    have := h.admitsAt ht hu
    cases hck : s.ckptPc <;> simp_all [CkptPc.Admits]
  refine ⟨h.touch ht hm ⟨hok, ?_⟩ hadmits (areasOf_subset hu harea ?_ _) ?_ (fun _ => harrived) ?_, ?_⟩
  · simp only [hpc, RunState, hinfo] at hfits ⊢
    exact hfits
  · rw [hpc]
    exact Pc.noConfusion
  · intro hc
    rw [hcounts] at hc
    cases hc
  · exact fun hc => absurd hc hck
  · rw [h.view_touch ht hm (h.not_restoreActions ht hu), hvisible, hactions, View.apply, View.act_eq]
    have hview : (s.view c).threads t = some (visibleOf s.mem t (s.threads t)) := if_pos ht
    rw [hview, hu]
    rfl

omit hpc in
theorem view_actions : (s.view c).actions = appActions c fun sig => (s.dispositions sig).action :=
  congrArg (appActions c) (if_neg (h.not_restoreActions ht hu))

/-- A call that changes the dispositions only. -/
theorem call_dispositions (hx : ∀ actions v, Visible.call c actions v x = v)
    (hactions : (appActions c fun sig => (d sig).action) = ((s.view c).act c x).actions) :
    Sound c { s with dispositions := d } ∧
      Process.view c { s with dispositions := d } = (s.view c).apply c (.call t x) := by
  have := h.call_after ht hu hpc (touches_mem s t) rfl (h.fitsAt ht hu).1 rfl rfl (hx _ _).symm hactions
  rwa [after_self hu] at this

/-- **A call of the program** keeps the invariant and does what it says. -/
theorem call (hstep : s.call c t u x = some s') :
    Sound c s' ∧ s'.view c = (s.view c).apply c (.call t x) := by
  have hok := (h.fitsAt ht hu).1
  have hactions := h.view_actions ht hu
  have hm := touches_mem s t
  cases x with
  | setSlot slot word =>
      simp only [Process.call, guarded_eq_some] at hstep
      obtain ⟨⟨hlow, hhigh, -⟩, rfl⟩ := hstep
      rw [← after_self hu]
      refine h.call_after ht hu hpc (hm.store (area_mem hu)) rfl hok rfl rfl ?_ hactions.symm
      simp only [visibleOf, hpc, Visible.call, Memory.tsd_store ⟨hlow, hhigh⟩]
      rfl
  | sigmask how set =>
      obtain rfl := Option.some.inj hstep
      refine h.call_after ht hu hpc hm rfl hok rfl rfl ?_ hactions.symm
      simp only [visibleOf, hpc, Visible.call]
  | sigaltstack ss =>
      simp only [Process.call, guarded_eq_some] at hstep
      obtain ⟨⟨honstack, hsp⟩, rfl⟩ := hstep
      refine h.call_after ht hu hpc hm rfl ?_ rfl rfl ?_ hactions.symm
      · cases ss with
        | none => exact Bool.noConfusion
        | some y => exact fun _ => hsp y rfl
      · cases ss with
        | none => simp only [visibleOf, hpc, Visible.call, Stack.registered, if_true]
        | some y =>
            simp only [visibleOf, hpc, Visible.call, Stack.registered, honstack]
            rfl
  | sigaction sig act =>
      obtain rfl := Option.some.inj hstep
      cases act with
      | none =>
          rw [Process.install_query]
          exact h.call_dispositions ht hu hpc (fun _ _ => rfl) hactions.symm
      | some a =>
          rcases sigactionHook_some c sig a s.dispositions with ⟨hnone, hfree⟩ | ⟨y, hsome, hfree, hy, -⟩
          · rw [hnone]
            refine h.call_dispositions ht hu hpc (fun _ _ => rfl) ?_
            rw [View.act, View.setAction, if_neg hfree]
            exact hactions.symm
          · rw [hsome]
            refine h.call_dispositions ht hu hpc (fun _ _ => rfl) ?_
            rw [appActions_set hfree, View.act, View.setAction, if_pos hfree, hy, hactions]
  | signal sig handler =>
      obtain rfl := Option.some.inj hstep
      rcases signalHook_cases c sig handler s.dispositions with
        ⟨hnone, hfree⟩ | ⟨r, y, hsome, hfree, hy, -⟩
      · rw [hnone]
        refine h.call_dispositions ht hu hpc (fun _ _ => rfl) ?_
        rw [View.act, View.setAction, if_neg hfree]
        exact hactions.symm
      · rw [hsome]
        refine h.call_dispositions ht hu hpc (fun _ _ => rfl) ?_
        rw [appActions_set hfree, View.act, View.setAction, if_pos hfree, hy, hactions]
  | deliver sig =>
      simp only [Process.call, guarded_eq_some] at hstep
      obtain ⟨⟨hfree, -⟩, rfl⟩ := hstep
      have hsig : (s.view c).actions sig = (s.dispositions sig).action.plain := by
        rw [hactions, appActions, if_pos hfree]
      refine h.call_after ht hu hpc (hm.setFrames _) rfl hok rfl rfl ?_ hactions.symm
      simp only [visibleOf, hpc, Visible.call, put_self, hsig, SigAction.mask_plain,
        SigAction.onStack_plain, Stack.isSome_registered]
      rfl
  | sigreturn =>
      simp only [Process.call] at hstep
      split at hstep
      next => cases hstep
      next f rest hframes =>
        obtain rfl := Option.some.inj hstep
        refine h.call_after ht hu hpc (hm.setFrames _) rfl hok rfl rfl ?_ hactions.symm
        simp only [visibleOf, hpc, Visible.call, put_self, hframes, Visible.interrupted]
        rfl

end Sound

/-! ## Threads -/

/-- A change of an area that belongs to no thread leaves what is seen of the checkpoint thread. -/
theorem ckptFits_congr {s' : Process} (h : CkptFits c s) (hpc : s'.ckptPc = s.ckptPc)
    (hck : s'.mem.ckptThread = s.mem.ckptThread) (hkernel : s'.ckpt = s.ckpt)
    (hsig : s'.mem.sigState = s.mem.sigState) (hd : s'.dispositions = s.dispositions)
    (harea : s'.mem.slot s.ckpt.area = s.mem.slot s.ckpt.area)
    (htls : s'.mem.slot s.mem.ckptThread.tls = s.mem.slot s.mem.ckptThread.tls) : CkptFits c s' := by
  refine ⟨fun hp => ?_, fun hp => ?_, ?_, fun hp => ?_, fun hp => ?_⟩ <;>
    simp only [hpc, hck, hkernel, hsig, hd] at *
  · rw [Memory.tsd_congr harea, Memory.tsd_congr htls]
    exact h.tls hp
  · exact h.sigblocked hp
  · exact h.blocked
  · exact h.saTable hp
  · exact h.lastCkptSig hp

namespace Sound

/-- **A new thread.** -/
theorem create (h : Sound c s) (ht : t ∈ s.mem.threadList) (hu : s.threads t = some u)
    (hpc : u.pc = .run) (hrun : (s.mem.info t).state = .stRunning) (ht' : t' ∉ s.mem.threadList)
    {area block : Nat} (hfresh : s.FreshArea area) :
    Sound c (s.create c u t' area block) ∧
      (s.create c u t' area block).view c = (s.view c).apply c (.create t t' block) := by
  obtain ⟨harea, htls, hareas⟩ := hfresh
  have ne_of_mem : ∀ t'' ∈ s.mem.threadList, t'' ≠ t' := by
    rintro t'' hmem rfl
    exact ht' hmem
  have hself : (s.create c u t' area block).threads t' =
      some ⟨⟨area, u.kernel.mask, .none⟩, .run, false⟩ := put_self _ _ _
  have hother : ∀ t'', t'' ≠ t' → (s.create c u t' area block).threads t'' = s.threads t'' :=
    fun _ hne => put_of_ne _ _ hne
  have hinfo : ∀ t'', t'' ≠ t' → (s.create c u t' area block).mem.info t'' = s.mem.info t'' :=
    fun _ hne => put_of_ne _ _ hne
  have hslot : ∀ a, a ≠ area → (s.create c u t' area block).mem.slot a = s.mem.slot a :=
    fun _ hne => put_of_ne _ _ hne
  have same : ∀ t'' ∈ s.mem.threadList,
      SameOf s.mem (s.create c u t' area block).mem t'' (s.areas t'') := by
    refine fun t'' hmem => ⟨fun a ha => hslot a ?_, fun _ hb => hb, hinfo t'' (ne_of_mem t'' hmem),
      put_of_ne _ _ (ne_of_mem t'' hmem)⟩
    rintro rfl
    exact hareas t'' hmem ha
  have areas_self : (s.create c u t' area block).areas t' = [area] := by
    rw [Process.areas, hself]
    rfl
  have areas_other : ∀ t'', t'' ≠ t' → (s.create c u t' area block).areas t'' = s.areas t'' := by
    intro t'' hne
    rw [Process.areas, Process.areas, hother t'' hne, hinfo t'' hne]
  have hfits := (h.fitsAt ht hu).2
  have hadmits := h.admitsAt ht hu
  have hpending : u.pending = false := by
    simp only [hpc, RunState] at hfits
    rcases hfits with ⟨-, hp⟩ | ⟨hst, -⟩
    · exact hp
    · rw [hrun] at hst
      cases hst
  obtain ⟨hcounts, hck⟩ := h.phase_of_run ht hu hpc
  constructor
  · refine
      { nodup := List.nodup_cons.mpr ⟨ht', h.nodup⟩, fits := fun t'' hmem => ?_
        admits := fun t'' hmem => ?_, apart := fun t₁ h₁ t₂ h₂ a ha ha' => ?_
        ckptApart := fun t'' hmem a ha => ?_, xndState := h.xndState, starts := h.starts
        counts := fun hc => ?_
        ckpt := ckptFits_congr h.ckpt rfl rfl rfl rfl rfl (hslot _ (Ne.symm harea)) (hslot _ (Ne.symm htls))
        images := h.images, alive := h.alive }
    · rcases List.mem_cons.mp hmem with rfl | hmem
      · rw [hself]
        refine ⟨Bool.noConfusion, .inl ⟨?_, rfl⟩⟩
        exact congrArg ThreadInfo.state (put_self s.mem.info t'' _)
      · rw [hother t'' (ne_of_mem t'' hmem)]
        exact (same t'' hmem).fits (h.fits t'' hmem)
    · rcases List.mem_cons.mp hmem with rfl | hmem
      · rw [hself]
        change s.ckptPc.Admits _
        cases hck : s.ckptPc <;> simp_all [CkptPc.Admits]
      · rw [hother t'' (ne_of_mem t'' hmem)]
        exact h.admits t'' hmem
    · rcases List.mem_cons.mp h₁ with rfl | hold₁ <;> rcases List.mem_cons.mp h₂ with rfl | hold₂
      · rfl
      · rw [areas_self, List.mem_singleton] at ha
        rw [areas_other t₂ (ne_of_mem t₂ hold₂), ha] at ha'
        exact absurd ha' (hareas t₂ hold₂)
      · rw [areas_self, List.mem_singleton] at ha'
        rw [areas_other t₁ (ne_of_mem t₁ hold₁), ha'] at ha
        exact absurd ha (hareas t₁ hold₁)
      · rw [areas_other t₁ (ne_of_mem t₁ hold₁)] at ha
        rw [areas_other t₂ (ne_of_mem t₂ hold₂)] at ha'
        exact h.apart t₁ hold₁ t₂ hold₂ a ha ha'
    · rcases List.mem_cons.mp hmem with rfl | hmem
      · rw [areas_self, List.mem_singleton] at ha
        rw [ha]
        exact ⟨harea, htls⟩
      · rw [areas_other t'' (ne_of_mem t'' hmem)] at ha
        exact h.ckptApart t'' hmem a ha
    · exact absurd (hc.symm.trans hcounts) Bool.noConfusion
  · refine View.ext ?_ ?_ rfl rfl
    · funext t''
      by_cases hne : t'' = t'
      · subst hne
        rw [View.apply, Process.view, Process.view]
        simp only [put_self, if_pos ht, Option.map_some]
        refine (if_pos List.mem_cons_self).trans ?_
        rw [hself, hu]
        simp only [visibleOf, hpc, Option.some.injEq]
        refine Visible.ext (funext fun slot => ?_) rfl (put_self _ _ _) rfl rfl
        simp only [Memory.tsd, Process.create, Process.setThread, put_self]
        have := c.low
        have := c.high
        by_cases hslot : slot = c.tlvKey
        · rw [if_pos (by omega), if_pos hslot]
        · simp [hslot]
      · rw [View.apply]
        simp only [Process.view, put_of_ne _ _ hne, hother t'' hne]
        have hmem : t'' ∈ (s.create c u t' area block).mem.threadList ↔ t'' ∈ s.mem.threadList :=
          List.mem_cons.trans (or_iff_right hne)
        by_cases hin : t'' ∈ s.mem.threadList
        · rw [if_pos (hmem.mpr hin), if_pos hin]
          exact congrArg some (same t'' hin).visible
        · rw [if_neg (hmem.not.mpr hin), if_neg hin]
    · refine Memory.tsd_congr (hslot _ ?_)
      change (if s.ckptPc.beforeTls = true then s.mem.ckptThread.tls else s.ckpt.area) ≠ area
      split
      · exact Ne.symm htls
      · exact Ne.symm harea

/-- **A thread that ends.** -/
theorem exit (h : Sound c s) (ht : t ∈ s.mem.threadList) (hu : s.threads t = some u)
    (hpc : u.pc = .run) (hs : s' = { s with
      mem := { s.mem with threadList := s.mem.threadList.erase t }, threads := put s.threads t none }) :
    Sound c s' ∧ s'.view c = (s.view c).apply c (.exit t) := by
  have hmem : ∀ t', t' ∈ s'.mem.threadList ↔ t' ≠ t ∧ t' ∈ s.mem.threadList := by
    intro t'
    rw [hs]
    exact h.nodup.mem_erase_iff
  have hother : ∀ t', t' ≠ t → s'.threads t' = s.threads t' := by
    intro t' hne
    rw [hs]
    exact put_of_ne _ _ hne
  have hinfo : s'.mem.info = s.mem.info := by rw [hs]
  have areas : ∀ t', t' ≠ t → s'.areas t' = s.areas t' := by
    intro t' hne
    rw [Process.areas, Process.areas, hother t' hne, hinfo]
  have same : ∀ t' l, SameOf s.mem s'.mem t' l := by
    intro t' l
    rw [hs]
    exact ⟨fun _ _ => rfl, fun _ hb => hb, rfl, rfl⟩
  obtain ⟨hcounts, -⟩ := h.phase_of_run ht hu hpc
  have hck : s'.ckptPc = s.ckptPc := by rw [hs]
  constructor
  · refine
      { nodup := ?_, fits := fun t' h' => ?_, admits := fun t' h' => ?_
        apart := fun t₁ h₁ t₂ h₂ a ha ha' => ?_, ckptApart := fun t' h' a ha => ?_
        xndState := ?_, starts := ?_, counts := fun hc => ?_, ckpt := ?_, images := ?_, alive := ?_ }
    · rw [hs]
      exact h.nodup.erase t
    · obtain ⟨hne, hin⟩ := (hmem t').mp h'
      rw [hother t' hne]
      exact (same t' _).fits (h.fits t' hin)
    · obtain ⟨hne, hin⟩ := (hmem t').mp h'
      rw [hother t' hne, hck]
      exact h.admits t' hin
    · obtain ⟨hne₁, hin₁⟩ := (hmem t₁).mp h₁
      obtain ⟨hne₂, hin₂⟩ := (hmem t₂).mp h₂
      rw [areas t₁ hne₁] at ha
      rw [areas t₂ hne₂] at ha'
      exact h.apart t₁ hin₁ t₂ hin₂ a ha ha'
    · obtain ⟨hne, hin⟩ := (hmem t').mp h'
      rw [areas t' hne] at ha
      rw [hs]
      exact h.ckptApart t' hin a ha
    · rw [hs]
      exact h.xndState
    · rw [hs]
      exact h.starts
    · rw [hck] at hc
      exact absurd (hc.symm.trans hcounts) Bool.noConfusion
    · rw [hs]
      exact ckptFits_congr h.ckpt rfl rfl rfl rfl rfl rfl rfl
    · rw [hs]
      exact h.images
    · rw [hs]
      exact h.alive
  · refine View.ext ?_ ?_ ?_ ?_
    · funext t'
      rw [View.apply]
      by_cases hne : t' = t
      · subst hne
        exact (if_neg fun hin => ((hmem t').mp hin).1 rfl).trans (put_self _ _ _).symm
      · simp only [put_of_ne _ _ hne, Process.view]
        by_cases hin : t' ∈ s.mem.threadList
        · rw [if_pos ((hmem t').mpr ⟨hne, hin⟩), if_pos hin, hother t' hne, (same t' _).visible]
        · rw [if_neg fun hin' => hin ((hmem t').mp hin').2, if_neg hin]
    all_goals rw [hs]; rfl

/-- The checkpoint signal is sent. -/
theorem signal (h : Sound c s) (ht : t ∈ s.mem.threadList) (hu : s.threads t = some u)
    (hscan : s.ckptPc = .scan) (hrun : (s.mem.info t).state = .stRunning) (hs : s' = s.after t
      (s.mem.setInfo t fun th => { th with state := .stSignaled }) { u with pending := true }
      s.dispositions) : Sound c s' ∧ s'.view c = s.view c := by
  obtain ⟨hok, hfits⟩ := h.fitsAt ht hu
  have hadmits := h.admitsAt ht hu
  have hpc : u.pc = .run ∨ u.pc = .sigreturn := by
    rw [hscan] at hadmits
    cases hpc : u.pc <;> simp_all [CkptPc.Admits]
  rw [hs]
  refine h.still ht hu ((touches_mem s t).setInfo _) ⟨hok, ?_⟩ ?_ rfl ?_ ?_ (fun _ => rfl) ?_
  · rcases hpc with hpc | hpc
    · simp only [hpc, RunState, Memory.info_setInfo_self]
      exact .inr ⟨trivial, trivial⟩
    · simp only [hpc, RunState, Memory.info_setInfo_self] at hfits ⊢
      exact ⟨hfits.1, .inr ⟨trivial, trivial⟩⟩
  · rw [hscan] at hadmits ⊢
    exact hadmits
  · rcases hpc with hpc | hpc <;> rw [hpc] <;> exact Pc.noConfusion
  · intro hc
    rw [hscan] at hc
    cases hc
  · rcases hpc with hpc | hpc <;> simp only [visibleOf, hpc] <;> rfl

end Sound

end Xnd.Resume
