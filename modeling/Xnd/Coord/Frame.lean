import Xnd.Coord.Server

/-!
# What the functions do to the list

Facts about the state that hold whatever the environment answers.  `ListOk` is the
shape of the list: addresses are distinct and have been handed out, and listed
processes have distinct descriptors.  A liveness sweep leaves part of the list,
counts what it leaves, and touches nothing else (`Shrunk`).
-/
namespace Xnd.Coord
open Code

/-- The other addresses are not the one in the middle. -/
theorem CoordInfo.not_mem_middle {s : CoordInfo} {p : Nat} {a : Proc} {as rest : List (Nat × Proc)}
    (h : (s.procs.map Prod.fst).Nodup) (hs : s.procs = as ++ (p, a) :: rest) :
    p ∉ (as ++ rest).map Prod.fst := by
  rw [hs, List.map_append, List.map_cons] at h
  rw [List.map_append]
  exact (List.nodup_middle.mp h |> List.nodup_cons.mp).1

/-- **The shape of the list.** -/
structure ListOk (s : CoordInfo) : Prop where
  addresses : (s.procs.map Prod.fst).Nodup
  below : ∀ n ∈ s.procs, n.1 < s.brk
  fds : (s.procs.map (·.2.fd)).Nodup

theorem listOk_coordInit (fd : Int) (uuid : Nat) (interval : Int) :
    ListOk (coordInit fd uuid interval) :=
  ⟨List.nodup_nil, by simp [coordInit], List.nodup_nil⟩

namespace ListOk
variable {s : CoordInfo} {p : Nat} {a : Proc} {as rest : List (Nat × Proc)}

theorem congr (h : ListOk s) {s' : CoordInfo} (hp : s'.procs = s.procs) (hb : s'.brk = s.brk) :
    ListOk s' := by
  constructor
  · rw [hp]; exact h.addresses
  · rw [hp, hb]; exact h.below
  · rw [hp]; exact h.fds

theorem sublist (h : ListOk s) {s' : CoordInfo} (hs : s'.procs.Sublist s.procs)
    (hb : s'.brk = s.brk) : ListOk s' where
  addresses := h.addresses.sublist (hs.map _)
  below n hn := hb ▸ h.below n (hs.subset hn)
  fds := h.fds.sublist (hs.map _)

theorem not_mem (h : ListOk s) (hs : s.procs = as ++ (p, a) :: rest) :
    p ∉ (as ++ rest).map Prod.fst := CoordInfo.not_mem_middle h.addresses hs

theorem next_eq (h : ListOk s) (hs : s.procs = as ++ (p, a) :: rest) :
    s.next p = some (front rest) :=
  CoordInfo.next_eq_some hs fun hm => h.not_mem hs (by simp [List.mem_map.mp hm])

theorem proc_eq (h : ListOk s) (hs : s.procs = as ++ (p, a) :: rest) : s.proc p = some a :=
  CoordInfo.proc_eq_some hs fun hm => h.not_mem hs (by simp [List.mem_map.mp hm])

/-- A listed node is what is read at its address. -/
theorem eq_of_proc (h : ListOk s) {b : Proc} (hb : (p, b) ∈ s.procs) (ha : s.proc p = some a) :
    b = a := by
  obtain ⟨as, rest, hs⟩ := List.append_of_mem hb
  exact Option.some.inj ((h.proc_eq hs).symm.trans ha)

/-- Reading a listed process. -/
theorem wp_listProc {W : Type} {𝒲 : World CoordCall.Answer CoordInfo W}
    {inv : CoordInfo → W → Prop} {ends : CoordInfo → CoordStop → W → Prop} {w : W} (h : ListOk s)
    (hs : s.procs = as ++ (p, a) :: rest) :
    Wp 𝒲 inv ends (listProc p) s w fun s' a' w' => s' = s ∧ a' = a ∧ w' = w := by
  refine Coord.wp_listProc ?_ ?_
  · rw [h.proc_eq hs]
    exact nofun
  · exact fun a' ha' => ⟨rfl, Option.some.inj (ha'.symm.trans (h.proc_eq hs)), rfl⟩

theorem drop_eq (h : ListOk s) (hs : s.procs = as ++ (p, a) :: rest) :
    (s.drop p).procs = as ++ rest :=
  CoordInfo.drop_procs hs (h.not_mem hs)

theorem setProc_eq (h : ListOk s) (hs : s.procs = as ++ (p, a) :: rest) {f : Proc → Proc} :
    (s.setProc p f).procs = as ++ (p, f a) :: rest :=
  CoordInfo.setProc_procs hs (h.not_mem hs)

/-- Changes of the processes that keep their descriptors. -/
theorem mapProcs (h : ListOk s) {g : Nat × Proc → Nat × Proc}
    (hg : ∀ n, (g n).1 = n.1 ∧ (g n).2.fd = n.2.fd) : ListOk { s with procs := s.procs.map g } := by
  have hfst : (s.procs.map g).map Prod.fst = s.procs.map Prod.fst := by
    rw [List.map_map]
    exact List.map_congr_left fun n _ => (hg n).1
  have hfd : (s.procs.map g).map (·.2.fd) = s.procs.map (·.2.fd) := by
    rw [List.map_map]
    exact List.map_congr_left fun n _ => (hg n).2
  refine ⟨hfst ▸ h.addresses, fun n hn => ?_, hfd ▸ h.fds⟩
  obtain ⟨m, hm, rfl⟩ := List.mem_map.mp hn
  rw [(hg m).1]
  exact h.below m hm

theorem setProc (h : ListOk s) {f : Proc → Proc} (hf : ∀ a, (f a).fd = a.fd) :
    ListOk (s.setProc p f) := by
  refine h.mapProcs fun n => ?_
  split
  · exact ⟨rfl, hf n.2⟩
  · exact ⟨rfl, rfl⟩

/-- A process is given a descriptor that no listed process has. -/
theorem setFd (h : ListOk s) {fd : Int} (hfd : ∀ n ∈ s.procs, n.2.fd ≠ fd) :
    ListOk (s.setProc p fun a => { a with fd := fd }) := by
  by_cases hp : ∃ as a rest, s.procs = as ++ (p, a) :: rest
  · obtain ⟨as, a, rest, hs⟩ := hp
    have heq := h.setProc_eq hs (f := fun a => { a with fd := fd })
    have haddr := h.addresses
    have hfds := h.fds
    have hbelow := h.below
    rw [hs] at haddr hfds hbelow hfd
    refine ⟨?_, ?_, ?_⟩
    · rw [heq]
      simpa using haddr
    · rw [heq]
      intro n hn
      rcases List.mem_append.mp hn with hn | hn
      · exact hbelow n (List.mem_append_left _ hn)
      · rcases List.mem_cons.mp hn with rfl | hn
        · exact hbelow (p, a) (by simp)
        · exact hbelow n (by simp [hn])
    · rw [heq, List.map_append, List.map_cons, List.nodup_middle, List.nodup_cons]
      rw [List.map_append, List.map_cons, List.nodup_middle, List.nodup_cons] at hfds
      refine ⟨fun hm => ?_, hfds.2⟩
      rw [← List.map_append] at hm
      obtain ⟨n, hn, he⟩ := List.mem_map.mp hm
      refine hfd n ?_ he
      rcases List.mem_append.mp hn with hn | hn
      · exact List.mem_append_left _ hn
      · exact List.mem_append_right _ (List.mem_cons_of_mem _ hn)
  · -- The address is not on the list: nothing changes.
    have hid : (s.setProc p fun a => { a with fd := fd }).procs = s.procs := by
      refine (List.map_congr_left fun n hn => if_neg ?_).trans (List.map_id' _)
      rintro rfl
      obtain ⟨as, rest, hs⟩ := List.append_of_mem hn
      exact hp ⟨as, n.2, rest, hs⟩
    exact h.congr hid rfl

/-- A new process with such a descriptor. -/
theorem push (h : ListOk s) (hfd : ∀ n ∈ s.procs, n.2.fd ≠ a.fd) : ListOk (s.push a) where
  addresses := List.nodup_cons.mpr ⟨fun hm => by
    obtain ⟨n, hn, he⟩ := List.mem_map.mp hm
    exact absurd (h.below n hn) (by rw [he]; exact Nat.lt_irrefl _), h.addresses⟩
  below := List.forall_mem_cons.mpr ⟨Nat.lt_succ_self _, fun n hn => Nat.lt_succ_of_lt (h.below n hn)⟩
  fds := List.nodup_cons.mpr ⟨fun hm => by
    obtain ⟨n, hn, he⟩ := List.mem_map.mp hm
    exact hfd n hn he, h.fds⟩

end ListOk

/-- Reading the process that was assigned to. -/
theorem CoordInfo.proc_setProc (s : CoordInfo) (p : Nat) (f : Proc → Proc) :
    (s.setProc p f).proc p = (s.proc p).map f := by
  have hkey : ((fun n : Nat × Proc => decide (n.1 = p)) ∘ fun n => if n.1 = p then (n.1, f n.2) else n)
      = fun n => decide (n.1 = p) := by
    funext n
    by_cases hn : n.1 = p <;> simp [hn]
  rw [proc, proc, setProc, List.find?_map, hkey]
  cases hfind : s.procs.find? (fun n => decide (n.1 = p)) with
  | none => rfl
  | some n =>
      have hn : n.1 = p := by simpa using List.find?_some hfind
      simp [hn]

/-- A request leaves the process of the turn, up to its state. -/
theorem rets_requestReady {s : CoordInfo} {p : Nat} {a : Proc} (ha : s.proc p = some a) :
    Rets (requestReady p a) s fun s' _ => ∀ b, s'.proc p = some b → b.realPid = a.realPid := by
  have same : ∀ b, s.proc p = some b → b.realPid = a.realPid := fun b hb => by
    rw [Option.some.inj (hb.symm.trans ha)]
  have moved : ∀ st b, (s.setProc p fun a => { a with state := st }).proc p = some b →
      b.realPid = a.realPid := by
    intro st b hb
    rw [CoordInfo.proc_setProc, ha] at hb
    obtain rfl := Option.some.inj hb
    rfl
  unfold requestReady
  split
  · refine Rets.bind (P := fun s' _ => s' = s) (Rets.call fun _ => rfl) ?_
    rintro _ (sent : Bool) rfl
    exact Wp.ite (fun _ => Wp.modify_bind (Rets.pure (moved _))) fun _ => Rets.pure same
  · refine Rets.bind (P := fun s' _ => s' = s) (Rets.call fun _ => rfl) ?_
    rintro _ resp rfl
    cases resp with
    | none => exact Rets.pure same
    | some resp =>
        exact Wp.ite (fun _ => Wp.modify_bind (Rets.pure (moved _))) fun _ => Rets.pure same
  · exact Rets.pure same
  · exact Rets.pure same

/-! ## New ids -/

theorem rets_coordNextVirtPid (s : CoordInfo) :
    Rets coordNextVirtPid s fun s' _ => s'.procs = s.procs ∧ s'.brk = s.brk :=
  Wp.get_bind (Wp.modify_bind (Wp.get_bind (Wp.ite (fun _ => Wp.halt trivial) fun _ =>
    Wp.pure ⟨rfl, rfl⟩)))

/-- What a launched process is given that does not come from the counters. -/
theorem rets_launchIds (s : CoordInfo) (fd : Int) (msg : XndMsg) :
    Rets (launchIds fd msg) s fun _ a =>
      a.fd = fd ∧ a.oobFd = -1 ∧ a.realPid = msg.realPid ∧ a.state = .running := by
  have virt : ∀ s, Rets coordNextVirtPid s fun _ _ => True := fun s =>
    (rets_coordNextVirtPid s).mono fun _ _ _ => trivial
  have xnd : ∀ s, Rets coordNextXndPid s fun _ _ => True := fun s =>
    Wp.get_bind (Wp.modify_bind (Wp.pure trivial))
  refine Wp.get_bind (Wp.ite (fun _ => ?_) fun _ => ?_)
  · cases s.find (·.realPid = msg.realPpid) with
    | none => exact Rets.halt
    | some n =>
        exact (virt _).bind fun s _ _ => (xnd s).bind fun _ _ _ => Rets.pure ⟨rfl, rfl, rfl, rfl⟩
  · exact (virt _).bind fun s _ _ => (virt s).bind fun s _ _ => (xnd s).bind fun s _ _ =>
      (xnd s).bind fun _ _ _ => Rets.pure ⟨rfl, rfl, rfl, rfl⟩

theorem rets_launchIds_numPeers (s : CoordInfo) (fd : Int) (msg : XndMsg) :
    Rets (launchIds fd msg) s fun s' _ => s'.numPeers = s.numPeers := by
  have virt : ∀ s, Rets coordNextVirtPid s fun s' _ => s'.numPeers = s.numPeers := fun s =>
    Wp.get_bind (Wp.modify_bind (Wp.get_bind (Wp.ite (fun _ => Wp.halt trivial) fun _ =>
      Wp.pure rfl)))
  have xnd : ∀ s, Rets coordNextXndPid s fun s' _ => s'.numPeers = s.numPeers := fun s =>
    Wp.get_bind (Wp.modify_bind (Wp.pure rfl))
  refine Wp.get_bind (Wp.ite (fun _ => ?_) fun _ => ?_)
  · cases s.find (·.realPid = msg.realPpid) with
    | none => exact Rets.halt
    | some n => exact (virt s).bind fun s₁ _ h₁ => (xnd s₁).bind fun _ _ h₂ => Rets.pure (h₂.trans h₁)
  · exact (virt s).bind fun s₁ _ h₁ => (virt s₁).bind fun s₂ _ h₂ => (xnd s₂).bind fun s₃ _ h₃ =>
      (xnd s₃).bind fun _ _ h₄ => Rets.pure (h₄.trans (h₃.trans (h₂.trans h₁)))

/-! ## Sweeps -/

/-- `s'` has part of the processes of `s`; what a round reads is the same. -/
structure Shrunk (s s' : CoordInfo) : Prop where
  procs : s'.procs.Sublist s.procs
  brk : s'.brk = s.brk
  epoch : s'.epoch = s.epoch
  numPeers : s'.numPeers = s.numPeers
  xndUuid : s'.xndUuid = s.xndUuid

namespace Shrunk
variable {s s' s'' : CoordInfo}

theorem refl (s : CoordInfo) : Shrunk s s := ⟨.refl _, rfl, rfl, rfl, rfl⟩

theorem trans (h : Shrunk s s') (h' : Shrunk s' s'') : Shrunk s s'' :=
  ⟨h'.procs.trans h.procs, h'.brk.trans h.brk, h'.epoch.trans h.epoch,
    h'.numPeers.trans h.numPeers, h'.xndUuid.trans h.xndUuid⟩

theorem listOk (h : Shrunk s s') (hs : ListOk s) : ListOk s' := hs.sublist h.procs h.brk

end Shrunk

section Sweep
variable {s : CoordInfo} {p : Nat} {a : Proc} {as rest : List (Nat × Proc)}

/-- Reading a listed process. -/
theorem rets_listProc (h : ListOk s) (hs : s.procs = as ++ (p, a) :: rest) :
    Rets (listProc p) s fun s' a' => s' = s ∧ a' = a :=
  (h.wp_listProc hs).mono fun _ _ _ h => ⟨h.1, h.2.1⟩

theorem rets_closeIfOpen (fd : Int) : Rets (closeIfOpen fd) s fun s' _ => s' = s :=
  Wp.ite (fun _ => Rets.call fun _ => rfl) fun _ => Rets.pure rfl

theorem rets_listRemove (h : ListOk s) (hs : s.procs = as ++ (p, a) :: rest) :
    Rets (listRemove p) s fun s' _ => s'.procs = as ++ rest ∧ Shrunk s s' := by
  refine (rets_listProc h hs).bind ?_
  rintro _ _ ⟨rfl, rfl⟩
  refine Wp.modify_bind ((rets_closeIfOpen _).bind ?_)
  rintro _ _ rfl
  refine (rets_closeIfOpen _).bind ?_
  rintro _ _ rfl
  refine Wp.modify ⟨h.drop_eq hs, ?_, rfl, rfl, rfl, rfl⟩
  exact List.filter_sublist

/-- A turn of a sweep that may remove the process of the turn. -/
theorem rets_removeIf {β : Type} (h : ListOk s) (hs : s.procs = as ++ (p, a) :: rest) (gone : Bool)
    (x y : β) :
    Rets (if gone = true then do listRemove p; pure x else pure y) s fun s' b =>
      Shrunk s s' ∧ (s'.procs = as ++ rest ∧ b = x ∨ s'.procs = as ++ (p, a) :: rest ∧ b = y) := by
  refine Wp.ite (fun _ => (rets_listRemove h hs).bind fun s' _ hs' => ?_) fun _ => ?_
  · exact Rets.pure ⟨hs'.2, .inl ⟨hs'.1, rfl⟩⟩
  · exact Rets.pure ⟨.refl s, .inr ⟨hs, rfl⟩⟩

/-- **A liveness sweep** counts the processes it leaves. -/
theorem rets_sweep (h : ListOk s) :
    Rets (seqForeachSafe (0, []) prepareTurn) s fun s' n => Shrunk s s' ∧ n.1 = s'.procs.length := by
  have loop : Rets (seqForeachSafe (0, []) prepareTurn) s fun s' n =>
      Shrunk s s' ∧ ∃ as, s'.procs = as ++ [] ∧ n.1 = as.length := by
    refine wp_seqForeachSafe (J := fun rest (n : Nat × List Int) s' _ => Shrunk s s' ∧
      ∃ as, s'.procs = as ++ rest ∧ n.1 = as.length) ?_ ?_ ⟨.refl s, [], rfl, rfl⟩
    · rintro p a rest n s' _ ⟨hs', as, hl, -⟩
      exact (hs'.listOk h).next_eq hl
    · rintro p a rest n s' _ ⟨hs', as, hl, hn⟩
      have hok := hs'.listOk h
      refine (rets_listProc hok hl).bind ?_
      rintro _ a ⟨rfl, rfl⟩
      refine Rets.bind (P := fun s'' _ => s'' = _) (Rets.call fun _ => rfl) ?_
      rintro _ gone rfl
      refine (rets_removeIf hok hl gone n (n.1 + 1, n.2 ++ [a.fd])).mono ?_
      rintro s'' n' ⟨hs'', ⟨hl'', rfl⟩ | ⟨hl'', rfl⟩⟩
      · exact ⟨hs'.trans hs'', as, hl'', hn⟩
      · exact ⟨hs'.trans hs'', as ++ [(p, a)], by simp [hl''], by simp [hn]⟩
  refine loop.mono ?_
  rintro s' n ⟨hs', as, hl, hn⟩
  rw [List.append_nil] at hl
  exact ⟨hs', by rw [hn, hl]⟩

/-- `coord_collective_prepare` returns the size of the list it leaves. -/
theorem rets_coordCollectivePrepare (h : ListOk s) (type : CommType) (fuel : Nat) :
    Rets (coordCollectivePrepare type fuel) s fun s' total =>
      Shrunk s s' ∧ total = s'.procs.length := by
  induction fuel generalizing s with
  | zero => exact Rets.halt
  | succ fuel ih =>
      refine (rets_sweep h).bind ?_
      rintro s' n ⟨hs', hn⟩
      refine Rets.bind (P := fun s'' _ => s'' = s') ?_ ?_
      · cases type with
        | broadcast => exact Rets.call fun _ => rfl
        | reduce => exact Rets.call fun _ => rfl
      · rintro _ ready rfl
        cases ready with
        | none => exact Rets.halt
        | some ready =>
            refine Wp.ite (fun _ => Rets.pure ⟨hs', hn⟩) fun _ => ?_
            exact (ih (hs'.listOk h)).mono fun s'' total h'' => ⟨hs'.trans h''.1, h''.2⟩

end Sweep

end Xnd.Coord
