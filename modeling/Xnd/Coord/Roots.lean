import Xnd.Coord.Translation
import Xnd.Restart.Targets

/-!
# Roots of process trees

A round decides which listed processes are roots by the real pid of the parent that
was recorded when the process was registered; `xnd_restart_dag` rebuilds the parents
from the `xnd_ppid`s in the images, and `process_targets` asserts that the two agree.

`Kin` says that they do agree, of the listed processes: one has recorded another as
its parent by both ids or by neither.  Real pids are used again, so `Related` asks of
a process that arrives that its real pid is not one that a listed process has, or has
recorded as its parent's; a launched process is looked up in the table, and where the
table has its pid nobody is registered.
-/
namespace Xnd.Coord
open Code Restart

/-- `a` has recorded `b` as its parent by both ids, or by neither. -/
def ParentsAgree (a b : Proc) : Prop := a.realPpid = b.realPid ↔ a.xndPpid = b.xndPid

instance (a b : Proc) : Decidable (ParentsAgree a b) := inferInstanceAs (Decidable (_ ↔ _))

/-- **The invariant of parents.** -/
structure Kin (s : CoordInfo) : Prop where
  realNodup : (s.procs.map (·.2.realPid)).Nodup
  notOwn : ∀ n ∈ s.procs, n.2.realPpid ≠ n.2.realPid
  agree : ∀ n ∈ s.procs, ∀ m ∈ s.procs, ParentsAgree n.2 m.2

theorem kin_coordInit (fd : Int) (uuid : Nat) (interval : Int) : Kin (coordInit fd uuid interval) :=
  ⟨List.nodup_nil, by simp [coordInit], by simp [coordInit]⟩

/-- **The condition** on a message that arrives: it is admissible, and the process that
arrives is not its own parent.  A launched process whose pid is not in the table, and a
forked one, come with a real pid that no listed process has recorded as its parent's,
and a forked one with a real pid that no listed process has.  A restarted process comes
with a real pid that no listed process has, and agrees with every listed one about which
of the two is the parent of the other. -/
def Related (s : CoordInfo) (msg : XndMsg) : Prop :=
  Admissible s msg ∧
  (msg.hdr = .connectLaunch → msg.realPpid ≠ msg.realPid ∧
    (s.table.realIdExists msg.realPid ≠ true → ∀ n ∈ s.procs, n.2.realPpid ≠ msg.realPid)) ∧
  (msg.hdr = .atforkChild → msg.realPpid ≠ msg.realPid ∧
    ∀ n ∈ s.procs, n.2.realPid ≠ msg.realPid ∧ n.2.realPpid ≠ msg.realPid) ∧
  (msg.hdr = .connectRestart → msg.realPpid ≠ msg.realPid ∧
    ∀ n ∈ s.procs, n.2.realPid ≠ msg.realPid ∧
      (n.2.realPpid = msg.realPid ↔ n.2.xndPpid = msg.xndPid) ∧
      (msg.realPpid = n.2.realPid ↔ msg.xndPpid = n.2.xndPid))

instance (s : CoordInfo) (msg : XndMsg) : Decidable (Related s msg) :=
  inferInstanceAs (Decidable (_ ∧ _ ∧ _ ∧ _))

def AllRelated (s : CoordInfo) (c : CoordCall) (r : c.Answer) : Prop :=
  ∀ m ∈ c.received r, Related s m.2

instance (s : CoordInfo) (c : CoordCall) (r : c.Answer) : Decidable (AllRelated s c r) :=
  inferInstanceAs (Decidable (∀ m ∈ c.received r, Related s m.2))

/-! ## The steps -/

namespace Kin
variable {s : CoordInfo} {p : Nat}

/-- What does not touch the list. -/
theorem congr (h : Kin s) {s' : CoordInfo} (hp : s'.procs = s.procs) : Kin s' where
  realNodup := hp ▸ h.realNodup
  notOwn := hp ▸ h.notOwn
  agree := by rw [hp]; exact h.agree

theorem drop (h : Kin s) (p : Nat) : Kin (s.drop p) where
  realNodup := h.realNodup.sublist (List.filter_sublist.map _)
  notOwn n hn := h.notOwn n (List.mem_filter.mp hn).1
  agree n hn m hm := h.agree n (List.mem_filter.mp hn).1 m (List.mem_filter.mp hm).1

/-- Assigning to fields that are not ids. -/
theorem mapProcs (h : Kin s) {g : Nat × Proc → Nat × Proc}
    (hg : ∀ n, (g n).2.realPid = n.2.realPid ∧ (g n).2.realPpid = n.2.realPpid ∧
      (g n).2.xndPid = n.2.xndPid ∧ (g n).2.xndPpid = n.2.xndPpid) :
    Kin { s with procs := s.procs.map g } := by
  refine ⟨?_, ?_, ?_⟩
  · show ((s.procs.map g).map _).Nodup
    have hsame : (s.procs.map g).map (·.2.realPid) = s.procs.map (·.2.realPid) := by
      rw [List.map_map]
      exact List.map_congr_left fun n _ => (hg n).1
    rw [hsame]
    exact h.realNodup
  · intro n hn
    obtain ⟨k, hk, rfl⟩ := List.mem_map.mp hn
    rw [(hg k).1, (hg k).2.1]
    exact h.notOwn k hk
  · intro n hn m hm
    obtain ⟨k, hk, rfl⟩ := List.mem_map.mp hn
    obtain ⟨l, hl, rfl⟩ := List.mem_map.mp hm
    unfold ParentsAgree
    rw [(hg k).2.1, (hg k).2.2.2, (hg l).1, (hg l).2.2.1]
    exact h.agree k hk l hl

theorem setProc (h : Kin s) {f : Proc → Proc}
    (hf : ∀ a, (f a).realPid = a.realPid ∧ (f a).realPpid = a.realPpid ∧
      (f a).xndPid = a.xndPid ∧ (f a).xndPpid = a.xndPpid) : Kin (s.setProc p f) := by
  refine h.mapProcs fun n => ?_
  split
  · exact hf n.2
  · exact ⟨rfl, rfl, rfl, rfl⟩

end Kin

/-- A new process that agrees with the listed ones. -/
structure Kindred (s : CoordInfo) (a : Proc) : Prop where
  ok : Kin s
  fresh : ∀ n ∈ s.procs, n.2.realPid ≠ a.realPid
  notOwn : a.realPpid ≠ a.realPid ∧ a.xndPpid ≠ a.xndPid
  parent : ∀ n ∈ s.procs, ParentsAgree a n.2
  child : ∀ n ∈ s.procs, ParentsAgree n.2 a

/-- **A new process.** -/
theorem Kindred.register {s : CoordInfo} {a : Proc} (h : Kindred s a) (table : PidTable) :
    Kin (CoordInfo.push { s with table } a) := by
  have hself : ParentsAgree a a := iff_of_false h.notOwn.1 h.notOwn.2
  refine ⟨List.nodup_cons.mpr ⟨?_, h.ok.realNodup⟩,
    List.forall_mem_cons.mpr ⟨h.notOwn.1, h.ok.notOwn⟩,
    List.forall_mem_cons.mpr ⟨List.forall_mem_cons.mpr ⟨hself, h.parent⟩, ?_⟩⟩
  · intro hm
    obtain ⟨n, hn, he⟩ := List.mem_map.mp hm
    exact h.fresh n hn he
  · exact fun n hn => List.forall_mem_cons.mpr ⟨h.child n hn, h.ok.agree n hn⟩

/-! ## The code -/

abbrev kinWorld : World CoordCall.Answer CoordInfo Unit := .answering AllRelated

abbrev KeepsKin {α : Type} (m : InfoM α) : Prop :=
  Keeps (𝒲 := kinWorld) (fun s _ => Kin s) (fun s _ _ => Kin s) (fun s _ => Kin s) m

abbrev KinWp {α : Type} (m : InfoM α) (s : CoordInfo) (fin : CoordInfo → α → Prop) : Prop :=
  Wp kinWorld (fun s _ => Kin s) (fun s _ _ => Kin s) m s () fun s a _ => fin s a

/-- A call leaves the state alone. -/
theorem kinWp_call {c : CoordCall} {s : CoordInfo} (h : Kin s) {fin : CoordInfo → c.Answer → Prop}
    (hfin : ∀ r, AllRelated s c r → fin s r) : KinWp (Code.call c) s fin :=
  Prog.holds_call_answering h fun r hr => hfin r hr

/-- **Removal.** -/
theorem keepsKin_listRemove (p : Nat) : KeepsKin (listRemove p) := by
  intro s _ h
  refine Wp.bind (M := fun s' _ _ => s' = s) (wp_listProc (fun _ => h) fun _ _ => rfl) ?_
  rintro s a _ rfl
  have hdrop : Kin (s.drop p) := h.drop p
  refine Wp.modify_bind ((wp_closeIfOpen_answering hdrop).bind ?_)
  rintro _ _ _ rfl
  refine (wp_closeIfOpen_answering hdrop).bind ?_
  rintro _ _ _ rfl
  exact Wp.modify (hdrop.congr rfl)

theorem upkeep_kin :
    Upkeep kinWorld (fun s _ => Kin s) (fun s _ _ => Kin s) fun s _ => Kin s where
  stop _ _ _ h _ := h
  call c _ := keeps_call_answering c
  remove := keepsKin_listRemove
  state _ _ := Keeps.modify fun _ _ h => h.setProc fun _ => ⟨rfl, rfl, rfl, rfl⟩

/-- A round registers nobody. -/
theorem keepsKin_coordDoCheckpoint (fuel : Nat) : KeepsKin (coordDoCheckpoint fuel) := by
  refine upkeep_kin.coordDoCheckpoint (fun c _ => keeps_call_answering c) ?_ ?_ ?_ fuel
  · exact Keeps.modify fun s _ h => h.congr rfl
  · exact Keeps.modify fun s _ h => h.mapProcs fun _ => ⟨rfl, rfl, rfl, rfl⟩
  · exact Keeps.modify fun s _ h => h.congr rfl

/-! ### Registration -/

theorem kinWp_coordNextVirtPid {s : CoordInfo} (h : Kin s) :
    KinWp coordNextVirtPid s fun s' _ =>
      s' = { s with nextVirtPid := wrap32 (s.nextVirtPid + 1) } := by
  refine Wp.get_bind (Wp.modify_bind (Wp.get_bind (Wp.ite (fun _ => ?_) fun _ => ?_)))
  · exact Wp.halt (h.congr rfl)
  · exact Wp.pure rfl

theorem kinWp_coordNextXndPid {s : CoordInfo} (hroom : s.nextXndPid + 1 < 2 ^ 32) :
    KinWp coordNextXndPid s fun s' x =>
      s' = { s with nextXndPid := s.nextXndPid + 1 } ∧ x = s.nextXndPid := by
  refine Wp.get_bind (Wp.modify_bind (Wp.pure ⟨?_, rfl⟩))
  rw [Nat.mod_eq_of_lt hroom]

theorem kinWp_registerProc {s : CoordInfo} {a : Proc} (h : Kindred s a) :
    KinWp (registerProc a) s fun s' _ => Kin s' := by
  refine (wp_coordSendHandshake_answering h.ok h.ok a).bind ?_
  rintro _ _ _ rfl
  exact Wp.modify_bind (Wp.modify (h.register _))

/-- The real pid of a listed process is in the table. -/
theorem IdsOk.realPid_ne {s : CoordInfo} (h : IdsOk s) {real : Int}
    (hnew : s.table.realIdExists real ≠ true) {n : Nat × Proc} (hn : n ∈ s.procs) :
    n.2.realPid ≠ real := by
  rintro rfl
  exact hnew (PidTable.realIdExists_iff.mpr ⟨_, s.table.mem_entries_iff.mpr (h.mapped n hn), rfl⟩)

/-- The child of a listed process, with a new `xnd_pid` and a new real pid. -/
theorem Kindred.of_parent {s s' : CoordInfo} {a : Proc} {n : Nat × Proc} (hids : IdsOk s)
    (h : Kin s) (hprocs : s'.procs = s.procs) (hn : n ∈ s.procs) (hreal : a.realPpid = n.2.realPid)
    (hxnd : a.xndPpid = n.2.xndPid) (hnext : a.xndPid = s.nextXndPid)
    (hfresh : ∀ m ∈ s.procs, m.2.realPid ≠ a.realPid)
    (hparent : ∀ m ∈ s.procs, m.2.realPpid ≠ a.realPid) : Kindred s' a := by
  refine ⟨h.congr hprocs, hprocs ▸ hfresh, ⟨?_, ?_⟩, hprocs ▸ ?_, hprocs ▸ ?_⟩
  · rw [hreal]
    exact hfresh n hn
  · have := (hids.xndBelow n hn).1
    omega
  · intro m hm
    unfold ParentsAgree
    rw [hreal, hxnd]
    constructor
    · intro he
      rw [List.inj_on_of_nodup_map h.realNodup hn hm he]
    · intro he
      rw [List.inj_on_of_nodup_map hids.xndNodup hn hm he]
  · intro m hm
    have := (hids.xndBelow m hm).2
    exact iff_of_false (hparent m hm) (by omega)

/-- A launched process is below its parent by both ids, or has a parent that nobody
else has by either. -/
theorem kinWp_launchIds {s : CoordInfo} (hids : IdsOk s) (h : Kin s) (fd : Int) {msg : XndMsg}
    (hx : s.nextXndPid + 2 < 2 ^ 32) (hnew : s.table.realIdExists msg.realPid ≠ true)
    (hown : msg.realPpid ≠ msg.realPid) (hparent : ∀ n ∈ s.procs, n.2.realPpid ≠ msg.realPid) :
    KinWp (launchIds fd msg) s fun s' a => Kindred s' a := by
  have hfresh : ∀ n ∈ s.procs, n.2.realPid ≠ msg.realPid := fun n hn => hids.realPid_ne hnew hn
  refine Wp.get_bind (Wp.ite (fun _ => ?_) fun hppid => ?_)
  · cases hf : s.find (·.realPid = msg.realPpid) with
    | none => exact Wp.halt h
    | some n =>
        obtain ⟨hn, hreal⟩ := CoordInfo.mem_procs_of_find hf
        have hreal : n.2.realPid = msg.realPpid := by simpa using hreal
        refine (kinWp_coordNextVirtPid h).bind ?_
        rintro _ _ _ rfl
        refine (kinWp_coordNextXndPid ?room).bind ?_
        case room =>
          show s.nextXndPid + 1 < 2 ^ 32
          omega
        rintro _ _ _ ⟨rfl, rfl⟩
        exact Wp.pure (Kindred.of_parent hids h rfl hn hreal.symm rfl rfl hfresh hparent)
  · refine (kinWp_coordNextVirtPid h).bind ?_
    rintro _ _ _ rfl
    have h₁ : Kin { s with nextVirtPid := wrap32 (s.nextVirtPid + 1) } := h.congr rfl
    refine (kinWp_coordNextVirtPid h₁).bind ?_
    rintro _ _ _ rfl
    refine (kinWp_coordNextXndPid ?room).bind ?_
    case room =>
      show s.nextXndPid + 1 < 2 ^ 32
      omega
    rintro _ _ _ ⟨rfl, rfl⟩
    refine (kinWp_coordNextXndPid ?room).bind ?_
    case room =>
      show s.nextXndPid + 1 + 1 < 2 ^ 32
      omega
    rintro _ _ _ ⟨rfl, rfl⟩
    refine Wp.pure ⟨h.congr rfl, hfresh, ⟨hown, ?_⟩, fun n hn => ?_, fun n hn => ?_⟩
    · show s.nextXndPid ≠ s.nextXndPid + 1
      omega
    · have hbelow := (hids.xndBelow n hn).1
      refine iff_of_false ?_ ?_
      · show msg.realPpid ≠ n.2.realPid
        exact (hids.realPid_ne hppid hn).symm
      · show s.nextXndPid ≠ n.2.xndPid
        omega
    · have hbelow := (hids.xndBelow n hn).2
      refine iff_of_false (hparent n hn) ?_
      show n.2.xndPpid ≠ s.nextXndPid + 1
      omega

theorem kinWp_coordConnectWithProcessOnLaunch {s : CoordInfo} (hids : IdsOk s) (h : Kin s)
    (fd : Int) {msg : XndMsg} (hx : s.nextXndPid + 2 < 2 ^ 32) (hown : msg.realPpid ≠ msg.realPid)
    (hparent : s.table.realIdExists msg.realPid ≠ true → ∀ n ∈ s.procs, n.2.realPpid ≠ msg.realPid) :
    KinWp (coordConnectWithProcessOnLaunch fd msg) s fun s' _ => Kin s' := by
  refine Wp.get_bind (Wp.ite (fun _ => ?_) fun hnew => ?_)
  · cases s.find (·.realPid = msg.realPid) with
    | none => exact Wp.halt h
    | some n =>
        refine Wp.bind (M := fun s' _ _ => s' = s) (kinWp_call h fun _ _ => rfl) ?_
        rintro _ _ _ rfl
        have hset := h.setProc (p := n.1) (f := fun a => { a with fd := fd })
          fun _ => ⟨rfl, rfl, rfl, rfl⟩
        refine Wp.modify_bind ((wp_coordSendHandshake_answering hset hset _).mono ?_)
        rintro _ _ _ rfl
        exact hset
  · refine Wp.bind (M := fun s' _ _ => s' = s) (Wp.ite (fun _ => Wp.pure rfl) fun _ =>
      Wp.halt h) ?_
    rintro _ _ _ rfl
    refine (kinWp_launchIds hids h fd hx hnew hown (hparent hnew)).bind ?_
    exact fun s' a _ ha => kinWp_registerProc ha

/-- A forked child has the ids of its parent, who is listed. -/
theorem kinWp_coordAtfork {s : CoordInfo} (hids : IdsOk s) (h : Kin s) (fd : Int) {msg : XndMsg}
    (hx : s.nextXndPid + 1 < 2 ^ 32)
    (hsender : ∀ n ∈ s.procs, n.2.virtPid = msg.virtPpid → n.2.xndPid = msg.xndPpid) :
    KinWp (coordAtfork fd msg) s fun s' _ => Kin s' := by
  refine (kinWp_coordNextVirtPid h).bind ?_
  rintro _ virt _ rfl
  refine (kinWp_coordNextXndPid ?room).bind ?_
  case room => exact hx
  rintro s₁ _ _ ⟨hs₁, rfl⟩
  have hprocs : s₁.procs = s.procs := by rw [hs₁]
  have h₁ : Kin s₁ := h.congr hprocs
  refine Wp.bind (M := fun s' _ _ => s' = s₁) (kinWp_call h₁ fun _ _ => rfl) ?_
  rintro s₁ _ _ rfl
  refine Wp.ite (fun _ => Wp.get_bind ?_) fun _ => Wp.halt h₁
  cases hf : s₁.find (·.virtPid = msg.virtPpid) with
  | none => exact Wp.halt h₁
  | some n =>
      obtain ⟨hn, hvirt⟩ := CoordInfo.mem_procs_of_find hf
      rw [hprocs] at hn
      have hvirt : n.2.virtPid = msg.virtPpid := by simpa using hvirt
      refine Wp.bind (M := fun s' r _ => s' = s₁ ∧ AllRelated s₁ (.recv fd) r)
        (kinWp_call h₁ fun _ hr => ⟨rfl, hr⟩) ?_
      rintro s₁ childMsg _ ⟨rfl, hall⟩
      cases childMsg with
      | none => exact Wp.halt h₁
      | some childMsg =>
          refine Wp.bind (M := fun s' _ _ => s' = s₁ ∧ childMsg.hdr = .atforkChild)
            (Wp.ite (fun hc => Wp.pure ⟨rfl, hc⟩) fun _ => Wp.halt h₁) ?_
          rintro s₁ _ _ ⟨rfl, hc⟩
          refine Wp.bind (M := fun s' _ _ => s' = s₁ ∧ childMsg.realPpid = n.2.realPid)
            (Wp.ite (fun he => Wp.pure ⟨rfl, he⟩) fun _ => Wp.halt h₁) ?_
          rintro s₁ _ _ ⟨rfl, hreal⟩
          obtain ⟨-, hfree⟩ := (hall (fd, childMsg) rfl).2.2.1 hc
          rw [hprocs] at hfree
          exact kinWp_registerProc (Kindred.of_parent hids h hprocs hn hreal
            (hsender n hn hvirt).symm rfl (fun m hm => (hfree m hm).1) fun m hm => (hfree m hm).2)

/-- One connection. -/
theorem kinWp_coordHandleConnection {s : CoordInfo} (hids : IdsOk s) (h : Kin s) (fuel : Nat)
    (fd : Int) {msg : XndMsg} (ha : Related s msg) :
    KinWp (coordHandleConnection fuel fd msg) s fun s' _ => Kin s' := by
  obtain ⟨hadmissible, hlaunch, -, hrestart⟩ := ha
  by_cases hl : msg.hdr = .connectLaunch
  · obtain ⟨hown, hparent⟩ := hlaunch hl
    simp only [coordHandleConnection, hl]
    exact kinWp_coordConnectWithProcessOnLaunch hids h fd (hadmissible.1 hl).2 hown hparent
  by_cases hr : msg.hdr = .connectRestart
  · obtain ⟨hown, hagree⟩ := hrestart hr
    have hxnd : msg.xndPpid ≠ msg.xndPid := Nat.ne_of_lt (hadmissible.2.2 hr).2.1
    simp only [coordHandleConnection, hr]
    refine Wp.modify_bind (Wp.modify_bind (kinWp_registerProc ?_))
    split
    · exact ⟨h.congr rfl, fun n hn => (hagree n hn).1, ⟨hown, hxnd⟩,
        fun n hn => (hagree n hn).2.2, fun n hn => (hagree n hn).2.1⟩
    · exact ⟨h.congr rfl, fun n hn => (hagree n hn).1, ⟨hown, hxnd⟩,
        fun n hn => (hagree n hn).2.2, fun n hn => (hagree n hn).2.1⟩
  by_cases hf : msg.hdr = .atforkPrepare
  · obtain ⟨-, hx, hsender⟩ := hadmissible.2.1 hf
    simp only [coordHandleConnection, hf]
    exact kinWp_coordAtfork hids h fd hx hsender
  exact upkeep_kin.toTurns.coordHandleConnection (fun _ _ => keepsKin_coordDoCheckpoint fuel)
    (fun p fd => Keeps.modify fun s _ h => h.setProc fun _ => ⟨rfl, rfl, rfl, rfl⟩)
    ⟨hl, hr, hf⟩ s () h

/-! ### Ids and parents together -/

abbrev KeepsBoth {α : Type} (m : InfoM α) : Prop :=
  Keeps (𝒲 := kinWorld) (fun s _ => IdsOk s ∧ Kin s) (fun s _ _ => IdsOk s ∧ Kin s)
    (fun s _ => IdsOk s ∧ Kin s) m

/-- What code does to the ids and what it does to the parents, it does at once. -/
theorem wp_both {α : Type} {m : InfoM α} {s : CoordInfo}
    (hids : IdsWp m s fun s' _ => IdsOk s') (hkin : KinWp m s fun s' _ => Kin s') :
    Wp kinWorld (fun s _ => IdsOk s ∧ Kin s) (fun s _ _ => IdsOk s ∧ Kin s) m s ()
      fun s' _ _ => IdsOk s' ∧ Kin s' := by
  have hall : ∀ s (c : CoordCall) r, AllRelated s c r → AllAdmissible s c r :=
    fun _ _ _ hr n hn => (hr n hn).1
  have hworld : Wp kinWorld (fun s _ => IdsOk s) IdsEnds m s () fun s' _ _ => IdsOk s' :=
    Prog.Holds.restrict hids (fun s c _ r _ hr => hall s c r hr) fun _ _ hm => hm.elim
  refine (hworld.and hkin).weaken (fun _ _ h => h) ?_
  exact fun _ _ _ h => ⟨h.1.1, h.2⟩

theorem upkeep_both :
    Upkeep kinWorld (fun s _ => IdsOk s ∧ Kin s) (fun s _ _ => IdsOk s ∧ Kin s)
      fun s _ => IdsOk s ∧ Kin s where
  stop _ _ _ h _ := h
  call c _ := keeps_call_answering c
  remove p := fun s w h => wp_both (keepsIds_listRemove p s w h.1) (keepsKin_listRemove p s w h.2)
  state _ _ := Keeps.modify fun _ _ h =>
    ⟨h.1.setProc fun _ => ⟨rfl, rfl, rfl, rfl, rfl⟩, h.2.setProc fun _ => ⟨rfl, rfl, rfl, rfl⟩⟩

theorem keepsBoth_coordDoCheckpoint (fuel : Nat) : KeepsBoth (coordDoCheckpoint fuel) :=
  fun s w h =>
    wp_both (keepsIds_coordDoCheckpoint fuel s w h.1) (keepsKin_coordDoCheckpoint fuel s w h.2)

theorem keepsBoth_coordWaitForConnection (fuel : Nat) : KeepsBoth (coordWaitForConnection fuel) := by
  have arrived : ∀ s fd msg, AllRelated s (.recv fd) (some msg) → Related s msg :=
    fun _ fd msg hr => hr (fd, msg) rfl
  refine keeps_coordWaitForConnection arrived ?_ ?_
  · exact fun _ h => h
  · exact fun _ fd _ h ha => wp_both (idsWp_coordHandleConnection h.1 fuel fd ha.1)
      (kinWp_coordHandleConnection h.1 h.2 fuel fd ha)

/-! ## Runs -/

/-- A target has a parent among the others. -/
theorem indegreeOf_ne_zero_iff {targets : List XndRestartTarget} {t : XndRestartTarget}
    (ht : t ∈ targets) :
    indegreeOf targets t ≠ 0 ↔ ∃ u ∈ targets, u ≠ t ∧ t.xndPpid = u.xndPid := by
  have hmem : ∀ u, t ∈ childrenOf targets u ↔ u ≠ t ∧ t.xndPpid = u.xndPid := by
    intro u
    simp [childrenOf, ht]
  unfold indegreeOf
  rw [Ne, List.sum_eq_zero_iff_forall_eq_nat]
  constructor
  · intro hne
    by_contra hnone
    refine hne fun i hi => ?_
    obtain ⟨u, hu, rfl⟩ := List.mem_map.mp hi
    exact List.count_eq_zero.mpr fun hmemu => hnone ⟨u, hu, (hmem u).mp hmemu⟩
  · rintro ⟨u, hu, hchild⟩ hzero
    have hcount := hzero _ (List.mem_map_of_mem hu)
    exact List.count_eq_zero.mp hcount ((hmem u).mpr hchild)

/-- The images of the listed processes: the ids of each and whether it is a root. -/
structure ImagesOf (targets : List XndRestartTarget) (procs : List (Nat × Proc)) : Prop where
  source : ∀ t ∈ targets, ∃ n ∈ procs, t.xndPid = n.2.xndPid ∧ t.xndPpid = n.2.xndPpid ∧
    t.isRootOfTree = n.2.isRootOfTree
  saved : ∀ n ∈ procs, ∃ t ∈ targets, t.xndPid = n.2.xndPid

/-- The roots are those of the relation that a restart rebuilds. -/
def RootsRight (procs : List (Nat × Proc)) : Prop :=
  ∀ n ∈ procs, n.2.isRootOfTree = false ↔ ∃ m ∈ procs, m ≠ n ∧ m.2.xndPid = n.2.xndPpid

instance (procs : List (Nat × Proc)) : Decidable (RootsRight procs) :=
  inferInstanceAs (Decidable (∀ n ∈ procs, _ ↔ _))

/-- The node as `coord_determine_roots` leaves it. -/
theorem Kin.isRootOfTree_iff {s : CoordInfo} (h : Kin s) {n : Nat × Proc} (hn : n ∈ s.procs) :
    (s.find (·.realPid = n.2.realPpid)).isNone = false ↔
      ∃ m ∈ s.procs, m.2.xndPid = n.2.xndPpid := by
  rw [Option.isNone_eq_false_iff, CoordInfo.find, List.find?_isSome]
  constructor
  · rintro ⟨m, hm, hreal⟩
    have hreal : n.2.realPpid = m.2.realPid := by simpa using Eq.symm (of_decide_eq_true hreal)
    exact ⟨m, hm, ((h.agree n hn m hm).mp hreal).symm⟩
  · rintro ⟨m, hm, hxnd⟩
    exact ⟨m, hm, decide_eq_true ((h.agree n hn m hm).mpr hxnd.symm).symm⟩

/-- **The roots are right.** -/
theorem Kin.rootsRight {s s' : CoordInfo} (h : Kin s) (hs : coordDetermineRoots s = .ret s' ()) :
    RootsRight s'.procs := by
  cases hs
  intro n hn
  obtain ⟨k, hk, rfl⟩ := List.mem_map.mp hn
  refine (h.isRootOfTree_iff hk).trans ⟨?_, ?_⟩
  · rintro ⟨m, hm, hxnd⟩
    refine ⟨_, List.mem_map_of_mem hm, ?_, hxnd⟩
    intro he
    -- Nobody is its own parent by the real id, so nobody is by the other one.
    have hown : m.2.xndPid = k.2.xndPid := congrArg (·.2.xndPid) he
    exact h.notOwn k hk ((h.agree k hk k hk).mpr (hxnd.symm.trans hown))
  · rintro ⟨m, hm, -, hxnd⟩
    obtain ⟨l, hl, rfl⟩ := List.mem_map.mp hm
    exact ⟨l, hl, hxnd⟩

theorem Kin.determineRoots {s s' : CoordInfo} (h : Kin s) (hs : coordDetermineRoots s = .ret s' ()) :
    Kin s' := by
  cases hs
  exact h.mapProcs fun _ => ⟨rfl, rfl, rfl, rfl⟩

/-- **The assertions of `process_targets` hold** for the images. -/
theorem ImagesOf.rootsAgree {targets : List XndRestartTarget} {s : CoordInfo}
    (himages : ImagesOf targets s.procs) (h : Kin s) (hroots : RootsRight s.procs) :
    rootsAgree targets = true := by
  rw [Restart.rootsAgree, List.all_eq_true]
  intro t ht
  obtain ⟨n, hn, hpid, hppid, hroot⟩ := himages.source t ht
  have hown : t.xndPpid ≠ t.xndPid := by
    rw [hpid, hppid]
    exact fun he => h.notOwn n hn ((h.agree n hn n hn).mpr he)
  have hindegree : indegreeOf targets t ≠ 0 ↔ n.2.isRootOfTree = false := by
    rw [indegreeOf_ne_zero_iff ht, hroots n hn]
    constructor
    · rintro ⟨u, hu, -, hchild⟩
      obtain ⟨m, hm, hmpid, -⟩ := himages.source u hu
      have hxnd : m.2.xndPid = n.2.xndPpid := by rw [← hmpid, ← hchild, hppid]
      refine ⟨m, hm, ?_, hxnd⟩
      rintro rfl
      exact hown (by rw [hppid, hpid, hxnd])
    · rintro ⟨m, hm, -, hxnd⟩
      obtain ⟨u, hu, hupid⟩ := himages.saved m hm
      have hchild : t.xndPpid = u.xndPid := by rw [hppid, hupid, hxnd]
      exact ⟨u, hu, fun he => hown (he ▸ hchild), hchild⟩
  by_cases hzero : indegreeOf targets t = 0
  · have hnot : ¬ n.2.isRootOfTree = false := fun hf => hindegree.mpr hf hzero
    rw [if_neg (not_not.mpr hzero), XndRestartTarget.wasRootOfTree, hroot]
    exact (Bool.not_eq_false _).mp hnot
  · rw [if_pos hzero, XndRestartTarget.wasRootOfTree, hroot, hindegree.mp hzero]
    rfl

/-- **Roots are the processes without a listed parent** in every state a run reaches, as
long as every message that arrives is related: `coord_determine_roots` marks a process as
not a root just when some other one has the `xnd_pid` that is its `xnd_ppid`, so both
assertions about roots hold when the images of these processes are restarted. -/
theorem coordMain_roots (restart : Bool) (fuel : Nat) (fd : Int) (uuid : Nat) (interval : Int)
    {p : Prog CoordCall.Answer CoordInfo CoordStop Unit}
    (h : (World.answering AllRelated).Reach
      (coordMain restart fuel (coordInit fd uuid interval)) () (p, ())) :
    ∃ s, coordDetermineRoots p.state = .ret s () ∧ RootsRight s.procs ∧
      ∀ targets, ImagesOf targets s.procs → rootsAgree targets = true := by
  have hmain : KeepsBoth (coordMain restart fuel) :=
    upkeep_both.toTurns.coordMain keepsBoth_coordWaitForConnection keepsBoth_coordDoCheckpoint
      (keeps_call_answering _) restart fuel
  have hp := hmain.reach (fun _ _ _ _ hm => hm.elim) (fun _ _ _ _ _ hm => hm.elim)
    ⟨idsOk_coordInit fd uuid interval, kin_coordInit fd uuid interval⟩ h
  have hkin : Kin p.state := by
    cases p with
    | ret s a => exact hp.2
    | call s c k => exact hp.2
    | halt s e => exact hp.2
  have hroots := hkin.rootsRight rfl
  exact ⟨_, rfl, hroots, fun targets himages => himages.rootsAgree (hkin.determineRoots rfl) hroots⟩

/-- The process 101 is launched and forks the process 102. -/
theorem coordMain_roots_fork :
    ∃ p, Prog.after AllRelated (coordMain false 3 (coordInit 4 7 0))
        (launchTrace ++ forkEvents 102) = some p ∧
      ∃ s, coordDetermineRoots p.state = .ret s () ∧
        s.procs.map (fun n => (n.2.realPid, n.2.isRootOfTree)) = [(102, false), (101, true)] ∧
        RootsRight s.procs ∧ ∀ targets, ImagesOf targets s.procs → rootsAgree targets = true := by
  refine ⟨_, rfl, ?_⟩
  obtain ⟨s, hs, hroots⟩ := coordMain_roots false 3 4 7 0
    (Prog.reach_of_after (t := launchTrace ++ forkEvents 102) rfl)
  refine ⟨s, hs, ?_, hroots⟩
  cases hs
  rfl

/-- The images of a launched process and its forked child, neither with a root flag. -/
def twoImages : List XndRestartTarget :=
  [⟨100, 101, 101, 101, 1002, 1001, false⟩, ⟨101, 50, 101, 101, 1001, 1000, false⟩]

/-- The parent of the launched process dies and the forked child is given its pid: then
the launched process is not a root, although nobody has its `xnd_ppid`, and the images
cannot be restarted. -/
theorem not_coordMain_roots_reusedPid :
    ∃ p, Prog.after (fun _ _ _ => True) (coordMain false 3 (coordInit 4 7 0))
        (launchTrace ++ forkEvents 100) = some p ∧
      ∃ s, coordDetermineRoots p.state = .ret s () ∧ ¬ RootsRight s.procs ∧
        ¬ ∀ targets, ImagesOf targets s.procs → rootsAgree targets = true := by
  refine ⟨_, rfl, _, rfl, by decide, fun H => ?_⟩
  have hagree := H twoImages ⟨?source, ?saved⟩
  case source => decide
  case saved => decide
  revert hagree
  decide

end Xnd.Coord
