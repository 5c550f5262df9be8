import Xnd.Coord.Upkeep

/-!
# The ids of listed processes

Registration hands out ids from two counters and writes two entries of `pid_table`,
one for the process and one for its parent; removal erases only the first.  A
restarted process brings its own ids, and the counters are moved past them.
`IdsOk` is what all of these preserve.

The counters are a 32-bit signed and a 32-bit unsigned one.  Nothing stops them
from being moved past their types, and nothing stops a restarted process from
coming with ids that are in use, so `Admissible` asks of a connection that it does
neither; it is a condition on messages in the state they arrive in.
-/
namespace Xnd.Coord
open Code

/-- **The invariant of ids.** -/
structure IdsOk (s : CoordInfo) : Prop where
  virtNodup : (s.procs.map (·.2.virtPid)).Nodup
  xndNodup : (s.procs.map (·.2.xndPid)).Nodup
  mapped : ∀ n ∈ s.procs, s.table.lookup n.2.virtPid = some n.2.realPid
  virtBelow : ∀ n ∈ s.procs, n.2.virtPid < s.nextVirtPid ∧ n.2.virtPpid < s.nextVirtPid
  xndBelow : ∀ n ∈ s.procs, n.2.xndPid < s.nextXndPid ∧ n.2.xndPpid < s.nextXndPid
  tableBelow : ∀ e ∈ s.table.entries, e.1 < s.nextVirtPid
  positive : 0 < s.nextVirtPid

theorem idsOk_coordInit (fd : Int) (uuid : Nat) (interval : Int) :
    IdsOk (coordInit fd uuid interval) where
  virtNodup := List.nodup_nil
  xndNodup := List.nodup_nil
  mapped := by simp [coordInit]
  virtBelow := by simp [coordInit]
  xndBelow := by simp [coordInit]
  tableBelow := by simp [coordInit, PidTable.empty]
  positive := Int.one_pos

/-- **The condition** on a message that arrives: the counters have room for the ids a
launch or a fork takes; a fork request carries the two ids of its sender; a
restarted process comes with ids that are greater than its parent's, that no
listed process has and that have a successor, and when its parent is listed, with
the real id of the parent. -/
def Admissible (s : CoordInfo) (msg : XndMsg) : Prop :=
  (msg.hdr = .connectLaunch → s.nextVirtPid + 2 < 2 ^ 31 ∧ s.nextXndPid + 2 < 2 ^ 32) ∧
  (msg.hdr = .atforkPrepare → s.nextVirtPid + 1 < 2 ^ 31 ∧ s.nextXndPid + 1 < 2 ^ 32 ∧
    ∀ n ∈ s.procs, n.2.virtPid = msg.virtPpid → n.2.xndPid = msg.xndPpid) ∧
  (msg.hdr = .connectRestart → msg.virtPpid < msg.virtPid ∧ msg.xndPpid < msg.xndPid ∧
    msg.virtPid + 1 < 2 ^ 31 ∧ msg.xndPid + 1 < 2 ^ 32 ∧
    ∀ n ∈ s.procs, n.2.virtPid ≠ msg.virtPid ∧ n.2.xndPid ≠ msg.xndPid ∧
      (n.2.virtPid = msg.virtPpid → n.2.realPid = msg.realPpid))

instance (s : CoordInfo) (msg : XndMsg) : Decidable (Admissible s msg) :=
  inferInstanceAs (Decidable (_ ∧ _ ∧ _))

def AllAdmissible (s : CoordInfo) (c : CoordCall) (r : c.Answer) : Prop :=
  ∀ m ∈ c.received r, Admissible s m.2

instance (s : CoordInfo) (c : CoordCall) (r : c.Answer) : Decidable (AllAdmissible s c r) :=
  inferInstanceAs (Decidable (∀ m ∈ c.received r, Admissible s m.2))

/-! ## The steps -/

namespace IdsOk
variable {s : CoordInfo} {p : Nat} {a : Proc}

/-- A listed process that has the virtual id of a listed one is that one. -/
theorem eq_of_virtPid (h : IdsOk s) {n m : Nat × Proc} (hn : n ∈ s.procs) (hm : m ∈ s.procs)
    (he : n.2.virtPid = m.2.virtPid) : n = m :=
  List.inj_on_of_nodup_map h.virtNodup hn hm he

/-- What does not touch the list, the table or the counters. -/
theorem congr (h : IdsOk s) {s' : CoordInfo} (hp : s'.procs = s.procs) (ht : s'.table = s.table)
    (hv : s'.nextVirtPid = s.nextVirtPid) (hx : s'.nextXndPid = s.nextXndPid) : IdsOk s' where
  virtNodup := hp ▸ h.virtNodup
  xndNodup := hp ▸ h.xndNodup
  mapped := by rw [hp, ht]; exact h.mapped
  virtBelow := by rw [hp, hv]; exact h.virtBelow
  xndBelow := by rw [hp, hx]; exact h.xndBelow
  tableBelow := by rw [ht, hv]; exact h.tableBelow
  positive := hv ▸ h.positive

/-- Larger counters. -/
theorem mono (h : IdsOk s) {v : Int} {x : Nat} (hv : s.nextVirtPid ≤ v) (hx : s.nextXndPid ≤ x) :
    IdsOk { s with nextVirtPid := v, nextXndPid := x } where
  virtNodup := h.virtNodup
  xndNodup := h.xndNodup
  mapped := h.mapped
  virtBelow n hn := by have := h.virtBelow n hn; simp only; omega
  xndBelow n hn := by have := h.xndBelow n hn; simp only; omega
  tableBelow e he := by have := h.tableBelow e he; simp only; omega
  positive := by have := h.positive; simp only; omega

/-- Fewer processes. -/
theorem sublist (h : IdsOk s) {procs : List (Nat × Proc)} (hs : procs.Sublist s.procs) :
    IdsOk { s with procs } where
  virtNodup := h.virtNodup.sublist (hs.map _)
  xndNodup := h.xndNodup.sublist (hs.map _)
  mapped n hn := h.mapped n (hs.subset hn)
  virtBelow n hn := h.virtBelow n (hs.subset hn)
  xndBelow n hn := h.xndBelow n (hs.subset hn)
  tableBelow := h.tableBelow
  positive := h.positive

theorem drop (h : IdsOk s) (p : Nat) : IdsOk (s.drop p) := h.sublist List.filter_sublist

/-- Erasing an entry that belongs to no listed process. -/
theorem erase (h : IdsOk s) {virt : Int} (hv : ∀ n ∈ s.procs, n.2.virtPid ≠ virt) :
    IdsOk { s with table := s.table.erase virt } where
  virtNodup := h.virtNodup
  xndNodup := h.xndNodup
  mapped n hn := by
    show (s.table.erase virt).lookup n.2.virtPid = _
    rw [s.table.lookup_erase_of_ne (hv n hn)]
    exact h.mapped n hn
  virtBelow := h.virtBelow
  xndBelow := h.xndBelow
  tableBelow e he := h.tableBelow e (List.mem_filter.mp he).1
  positive := h.positive

/-- Writing an entry that is right for every listed process. -/
theorem update (h : IdsOk s) {virt : Int} (real : Int) (hb : virt < s.nextVirtPid)
    (hv : ∀ n ∈ s.procs, n.2.virtPid = virt → n.2.realPid = real) :
    IdsOk { s with table := s.table.update virt real } where
  virtNodup := h.virtNodup
  xndNodup := h.xndNodup
  mapped n hn := by
    show (s.table.update virt real).lookup n.2.virtPid = _
    by_cases he : n.2.virtPid = virt
    · rw [he, s.table.lookup_update_self, hv n hn he]
    · rw [s.table.lookup_update_of_ne he]
      exact h.mapped n hn
  virtBelow := h.virtBelow
  xndBelow := h.xndBelow
  tableBelow e he := by
    rcases List.mem_cons.mp he with rfl | he
    · exact hb
    · exact h.tableBelow e (List.mem_filter.mp he).1
  positive := h.positive

/-- Assigning to fields that are not ids. -/
theorem mapProcs (h : IdsOk s) {g : Nat × Proc → Nat × Proc}
    (hg : ∀ n, (g n).2.virtPid = n.2.virtPid ∧ (g n).2.realPid = n.2.realPid ∧
      (g n).2.virtPpid = n.2.virtPpid ∧ (g n).2.xndPid = n.2.xndPid ∧
      (g n).2.xndPpid = n.2.xndPpid) : IdsOk { s with procs := s.procs.map g } := by
  have hkey : ∀ {γ : Type} (key : Proc → γ), (∀ n, key (g n).2 = key n.2) →
      (s.procs.map g).map (fun n => key n.2) = s.procs.map fun n => key n.2 := by
    intro γ key hk
    rw [List.map_map]
    exact List.map_congr_left fun n _ => hk n
  refine ⟨hkey (·.virtPid) (fun n => (hg n).1) ▸ h.virtNodup,
    hkey (·.xndPid) (fun n => (hg n).2.2.2.1) ▸ h.xndNodup, ?_, ?_, ?_, h.tableBelow, h.positive⟩
  · intro n hn
    obtain ⟨m, hm, rfl⟩ := List.mem_map.mp hn
    rw [(hg m).1, (hg m).2.1]
    exact h.mapped m hm
  · intro n hn
    obtain ⟨m, hm, rfl⟩ := List.mem_map.mp hn
    rw [(hg m).1, (hg m).2.2.1]
    exact h.virtBelow m hm
  · intro n hn
    obtain ⟨m, hm, rfl⟩ := List.mem_map.mp hn
    rw [(hg m).2.2.2.1, (hg m).2.2.2.2]
    exact h.xndBelow m hm

theorem setProc (h : IdsOk s) {f : Proc → Proc}
    (hf : ∀ a, (f a).virtPid = a.virtPid ∧ (f a).realPid = a.realPid ∧
      (f a).virtPpid = a.virtPpid ∧ (f a).xndPid = a.xndPid ∧ (f a).xndPpid = a.xndPpid) :
    IdsOk (s.setProc p f) := by
  refine h.mapProcs fun n => ?_
  split
  · exact hf n.2
  · exact ⟨rfl, rfl, rfl, rfl, rfl⟩

end IdsOk

/-- The ids of a new process are below the counters; no listed process has its own,
and its parent's real id is the one that is listed, if the parent is. -/
structure Registrable (s : CoordInfo) (a : Proc) : Prop where
  ok : IdsOk s
  virtBelow : a.virtPid < s.nextVirtPid ∧ a.virtPpid < s.nextVirtPid
  xndBelow : a.xndPid < s.nextXndPid ∧ a.xndPpid < s.nextXndPid
  fresh : ∀ n ∈ s.procs, n.2.virtPid ≠ a.virtPid ∧ n.2.xndPid ≠ a.xndPid
  parent : ∀ n ∈ s.procs, n.2.virtPid = a.virtPpid → n.2.realPid = a.realPpid
  ne : a.virtPid ≠ a.virtPpid

/-- **A new process.** -/
theorem Registrable.register {s : CoordInfo} {a : Proc} (h : Registrable s a) :
    IdsOk (CoordInfo.push { s with
      table := (s.table.update a.virtPid a.realPid).update a.virtPpid a.realPpid } a) := by
  have htable := (h.ok.update a.realPid h.virtBelow.1 fun n hn he =>
    absurd he (h.fresh n hn).1).update a.realPpid h.virtBelow.2 h.parent
  have hown : ((s.table.update a.virtPid a.realPid).update a.virtPpid a.realPpid).lookup
      a.virtPid = some a.realPid := by
    rw [PidTable.lookup_update_of_ne _ h.ne, PidTable.lookup_update_self]
  refine ⟨List.nodup_cons.mpr ⟨fun hm => ?_, htable.virtNodup⟩,
    List.nodup_cons.mpr ⟨fun hm => ?_, htable.xndNodup⟩,
    List.forall_mem_cons.mpr ⟨hown, htable.mapped⟩,
    List.forall_mem_cons.mpr ⟨h.virtBelow, htable.virtBelow⟩,
    List.forall_mem_cons.mpr ⟨h.xndBelow, htable.xndBelow⟩, htable.tableBelow, htable.positive⟩
  · obtain ⟨n, hn, he⟩ := List.mem_map.mp hm
    exact (h.fresh n hn).1 he
  · obtain ⟨n, hn, he⟩ := List.mem_map.mp hm
    exact (h.fresh n hn).2 he

/-! ## The code -/

/-- A run does not end because the next virtual pid is in the table. -/
def IdsEnds (s : CoordInfo) (e : CoordStop) (_ : Unit) : Prop :=
  IdsOk s ∧ e ≠ .exitFailure .virtPidExists

abbrev idsWorld : World CoordCall.Answer CoordInfo Unit := .answering AllAdmissible

abbrev KeepsIds {α : Type} (m : InfoM α) : Prop :=
  Keeps (𝒲 := idsWorld) (fun s _ => IdsOk s) IdsEnds (fun s _ => IdsOk s) m

abbrev IdsWp {α : Type} (m : InfoM α) (s : CoordInfo) (fin : CoordInfo → α → Prop) : Prop :=
  Wp idsWorld (fun s _ => IdsOk s) IdsEnds m s () fun s a _ => fin s a

/-- A call leaves the state alone. -/
theorem idsWp_call {c : CoordCall} {s : CoordInfo} (h : IdsOk s) {fin : CoordInfo → c.Answer → Prop}
    (hfin : ∀ r, AllAdmissible s c r → fin s r) : IdsWp (Code.call c) s fin :=
  Prog.holds_call_answering h fun r hr => hfin r hr

theorem keepsIds_call (c : CoordCall) : KeepsIds (Code.call c) := keeps_call_answering c

/-- **Removal.** -/
theorem keepsIds_listRemove (p : Nat) : KeepsIds (listRemove p) := by
  intro s _ h
  refine Wp.bind (M := fun s' a _ => s' = s ∧ s.proc p = some a)
    (wp_listProc (fun _ => ⟨h, nofun⟩) fun a ha => ⟨rfl, ha⟩) ?_
  rintro s a _ ⟨rfl, ha⟩
  -- The others keep their entries: the virtual id that is erased is only its own.
  have hother : ∀ n ∈ (s.drop p).procs, n.2.virtPid ≠ a.virtPid := by
    intro n hn he
    obtain ⟨hn, hp⟩ := List.mem_filter.mp hn
    have := h.eq_of_virtPid hn (CoordInfo.mem_procs_of_proc ha) he
    simp [this] at hp
  have hdrop : IdsOk (s.drop p) := h.drop p
  refine Wp.modify_bind ((wp_closeIfOpen_answering hdrop).bind ?_)
  rintro _ _ _ rfl
  refine (wp_closeIfOpen_answering hdrop).bind ?_
  rintro _ _ _ rfl
  exact Wp.modify (hdrop.erase hother)

theorem upkeep_ids : Upkeep idsWorld (fun s _ => IdsOk s) IdsEnds fun s _ => IdsOk s where
  stop _ _ _ h he := ⟨h, he⟩
  call c _ := keepsIds_call c
  remove := keepsIds_listRemove
  state _ _ := Keeps.modify fun _ _ h => h.setProc fun _ => ⟨rfl, rfl, rfl, rfl, rfl⟩

/-- A round registers nobody. -/
theorem keepsIds_coordDoCheckpoint (fuel : Nat) : KeepsIds (coordDoCheckpoint fuel) := by
  refine upkeep_ids.coordDoCheckpoint (fun c _ => keepsIds_call c) ?_ ?_ ?_ fuel
  · exact Keeps.modify fun s _ h => h.congr rfl rfl rfl rfl
  · exact Keeps.modify fun s _ h => h.mapProcs fun _ => ⟨rfl, rfl, rfl, rfl, rfl⟩
  · exact Keeps.modify fun s _ h => h.congr rfl rfl rfl rfl

/-! ### Registration -/

/-- The next virtual id is not in the table. -/
theorem idsWp_coordNextVirtPid {s : CoordInfo} (h : IdsOk s) (hroom : s.nextVirtPid + 1 < 2 ^ 31) :
    IdsWp coordNextVirtPid s fun s' v =>
      s' = { s with nextVirtPid := s.nextVirtPid + 1 } ∧ v = s.nextVirtPid := by
  have hpos := h.positive
  have hwrap : wrap32 (s.nextVirtPid + 1) = s.nextVirtPid + 1 := by
    unfold wrap32
    omega
  have hnew : s.table.virtualIdExists s.nextVirtPid ≠ true := by
    intro hex
    obtain ⟨r, hr⟩ := Option.isSome_iff_exists.mp hex
    have := h.tableBelow _ ((s.table.mem_entries_iff).mpr hr)
    simp at this
  refine Wp.get_bind (Wp.modify_bind (Wp.get_bind (Wp.ite (fun hex => absurd hex hnew) fun _ => ?_)))
  exact Wp.pure ⟨by rw [hwrap], rfl⟩

theorem idsWp_coordNextXndPid {s : CoordInfo} (hroom : s.nextXndPid + 1 < 2 ^ 32) :
    IdsWp coordNextXndPid s fun s' x =>
      s' = { s with nextXndPid := s.nextXndPid + 1 } ∧ x = s.nextXndPid := by
  refine Wp.get_bind (Wp.modify_bind (Wp.pure ⟨?_, rfl⟩))
  rw [Nat.mod_eq_of_lt hroom]

theorem idsWp_coordSendHandshake {s : CoordInfo} (h : IdsOk s) (a : Proc) :
    IdsWp (coordSendHandshake a) s fun s' _ => s' = s :=
  wp_coordSendHandshake_answering h ⟨h, nofun⟩ a

theorem idsWp_registerProc {s : CoordInfo} {a : Proc} (h : Registrable s a) :
    IdsWp (registerProc a) s fun s' _ => IdsOk s' := by
  refine (idsWp_coordSendHandshake h.ok a).bind ?_
  rintro _ _ _ rfl
  exact Wp.modify_bind (Wp.modify h.register)

/-- A launched process is given new ids, and its parent's if the parent is listed. -/
theorem idsWp_launchIds {s : CoordInfo} (h : IdsOk s) (fd : Int) (msg : XndMsg)
    (hv : s.nextVirtPid + 2 < 2 ^ 31) (hx : s.nextXndPid + 2 < 2 ^ 32) :
    IdsWp (launchIds fd msg) s fun s' a => Registrable s' a := by
  have below : ∀ n ∈ s.procs, n.2.virtPid < s.nextVirtPid ∧ n.2.xndPid < s.nextXndPid := fun n hn =>
    ⟨(h.virtBelow n hn).1, (h.xndBelow n hn).1⟩
  refine Wp.get_bind (Wp.ite (fun _ => ?_) fun _ => ?_)
  · cases hf : s.find (·.realPid = msg.realPpid) with
    | none => exact Wp.halt ⟨h, nofun⟩
    | some n =>
        obtain ⟨hn, hreal⟩ := CoordInfo.mem_procs_of_find hf
        have hreal : n.2.realPid = msg.realPpid := by simpa using hreal
        refine (idsWp_coordNextVirtPid h (by omega)).bind ?_
        rintro _ _ _ ⟨rfl, rfl⟩
        refine (idsWp_coordNextXndPid (s := { s with nextVirtPid := s.nextVirtPid + 1 })
          (by simp only; omega)).bind ?_
        rintro _ _ _ ⟨rfl, rfl⟩
        have hb := below n hn
        refine Wp.pure ⟨h.mono (by simp only; omega) (by simp only; omega), ⟨?_, ?_⟩, ⟨?_, ?_⟩, fun m hm => ?_,
          fun m hm he => ?_, ?_⟩
        · simp only; omega
        · simp only; omega
        · simp only; omega
        · simp only; omega
        · have := below m hm
          simp only
          omega
        · rw [h.eq_of_virtPid hm hn he]
          exact hreal
        · simp only
          omega
  · refine (idsWp_coordNextVirtPid h (by omega)).bind ?_
    rintro _ _ _ ⟨rfl, rfl⟩
    have h₁ : IdsOk { s with nextVirtPid := s.nextVirtPid + 1 } := h.mono (by omega) (by omega)
    refine (idsWp_coordNextVirtPid h₁ (by simp only; omega)).bind ?_
    rintro _ _ _ ⟨rfl, rfl⟩
    refine (idsWp_coordNextXndPid (s := { s with nextVirtPid := s.nextVirtPid + 1 + 1 })
      (by simp only; omega)).bind ?_
    rintro _ _ _ ⟨rfl, rfl⟩
    refine (idsWp_coordNextXndPid (s := { s with
      nextVirtPid := s.nextVirtPid + 1 + 1, nextXndPid := s.nextXndPid + 1 })
      (by simp only; omega)).bind ?_
    rintro _ _ _ ⟨rfl, rfl⟩
    refine Wp.pure ⟨h.mono (by simp only; omega) (by simp only; omega), ⟨?_, ?_⟩, ⟨?_, ?_⟩, fun m hm => ?_,
      fun m hm he => ?_, ?_⟩
    · simp only; omega
    · simp only; omega
    · simp only; omega
    · simp only; omega
    · have := below m hm
      simp only
      omega
    · have := below m hm
      simp only at he
      omega
    · simp only
      omega

theorem idsWp_coordConnectWithProcessOnLaunch {s : CoordInfo} (h : IdsOk s) (fd : Int)
    (msg : XndMsg) (hv : s.nextVirtPid + 2 < 2 ^ 31) (hx : s.nextXndPid + 2 < 2 ^ 32) :
    IdsWp (coordConnectWithProcessOnLaunch fd msg) s fun s' _ => IdsOk s' := by
  refine Wp.get_bind (Wp.ite (fun _ => ?_) fun _ => ?_)
  · cases s.find (·.realPid = msg.realPid) with
    | none => exact Wp.halt ⟨h, nofun⟩
    | some n =>
        refine Wp.bind (M := fun s' _ _ => s' = s) (idsWp_call h fun _ _ => rfl) ?_
        rintro _ _ _ rfl
        have hset := h.setProc (p := n.1) (f := fun a => { a with fd := fd })
          fun _ => ⟨rfl, rfl, rfl, rfl, rfl⟩
        refine Wp.modify_bind ((idsWp_coordSendHandshake hset _).mono ?_)
        rintro _ _ _ rfl
        exact hset
  · refine Wp.bind (M := fun s' _ _ => s' = s) (Wp.ite (fun _ => Wp.pure rfl) fun _ =>
      Wp.halt ⟨h, nofun⟩) ?_
    rintro _ _ _ rfl
    exact (idsWp_launchIds h fd msg hv hx).bind fun s' a _ hr => idsWp_registerProc hr

/-- A restarted process brings its ids, and the counters are moved past them. -/
theorem idsWp_coordConnectWithProcessOnRestart {s : CoordInfo} (h : IdsOk s) (fd : Int)
    (msg : XndMsg) (hv : msg.virtPpid < msg.virtPid) (hx : msg.xndPpid < msg.xndPid)
    (hvroom : msg.virtPid + 1 < 2 ^ 31) (hxroom : msg.xndPid + 1 < 2 ^ 32)
    (hnew : ∀ n ∈ s.procs, n.2.virtPid ≠ msg.virtPid ∧ n.2.xndPid ≠ msg.xndPid ∧
      (n.2.virtPid = msg.virtPpid → n.2.realPid = msg.realPpid)) :
    IdsWp (coordConnectWithProcessOnRestart fd msg) s fun s' _ => IdsOk s' := by
  have hpos := h.positive
  have hvirt : s.nextVirtPid ≤ (if msg.virtPid ≥ s.nextVirtPid then wrap32 (msg.virtPid + 1)
      else s.nextVirtPid) ∧ msg.virtPid < (if msg.virtPid ≥ s.nextVirtPid then
      wrap32 (msg.virtPid + 1) else s.nextVirtPid) := by
    unfold wrap32
    split <;> omega
  have hxnd : s.nextXndPid ≤ (if msg.xndPid ≥ s.nextXndPid then (msg.xndPid + 1) % 2 ^ 32
      else s.nextXndPid) ∧ msg.xndPid < (if msg.xndPid ≥ s.nextXndPid then
      (msg.xndPid + 1) % 2 ^ 32 else s.nextXndPid) := by
    split <;> omega
  refine Wp.modify_bind (idsWp_registerProc ⟨h.mono hvirt.1 hxnd.1, ⟨hvirt.2, ?_⟩, ⟨hxnd.2, ?_⟩,
    fun n hn => ⟨(hnew n hn).1, (hnew n hn).2.1⟩, fun n hn => (hnew n hn).2.2, ?_⟩)
  · exact Int.lt_trans hv hvirt.2
  · exact Nat.lt_trans hx hxnd.2
  · exact (Int.ne_of_lt hv).symm

theorem idsWp_coordAtfork {s : CoordInfo} (h : IdsOk s) (fd : Int) (msg : XndMsg)
    (hv : s.nextVirtPid + 1 < 2 ^ 31) (hx : s.nextXndPid + 1 < 2 ^ 32)
    (hsender : ∀ n ∈ s.procs, n.2.virtPid = msg.virtPpid → n.2.xndPid = msg.xndPpid) :
    IdsWp (coordAtfork fd msg) s fun s' _ => IdsOk s' := by
  refine (idsWp_coordNextVirtPid h hv).bind ?_
  rintro _ _ _ ⟨rfl, rfl⟩
  refine (idsWp_coordNextXndPid (s := { s with nextVirtPid := s.nextVirtPid + 1 }) hx).bind ?_
  rintro _ _ _ ⟨rfl, rfl⟩
  have h₁ : IdsOk { s with nextVirtPid := s.nextVirtPid + 1, nextXndPid := s.nextXndPid + 1 } :=
    h.mono (by omega) (by omega)
  refine Wp.bind (M := fun s' _ _ => s' = _) (idsWp_call h₁ fun _ _ => rfl) ?_
  rintro _ _ _ rfl
  refine Wp.ite (fun _ => Wp.get_bind ?_) fun _ => Wp.halt ⟨h₁, nofun⟩
  cases hf : CoordInfo.find { s with
      nextVirtPid := s.nextVirtPid + 1, nextXndPid := s.nextXndPid + 1 }
      (·.virtPid = msg.virtPpid) with
  | none => exact Wp.halt ⟨h₁, nofun⟩
  | some n =>
      have hn : n ∈ s.procs := (CoordInfo.mem_procs_of_find hf).1
      have hvirt : n.2.virtPid = msg.virtPpid := by
        simpa using (CoordInfo.mem_procs_of_find hf).2
      refine Wp.bind (M := fun s' _ _ => s' = _) (idsWp_call h₁ fun _ _ => rfl) ?_
      rintro _ childMsg _ rfl
      cases childMsg with
      | none => exact Wp.halt ⟨h₁, nofun⟩
      | some childMsg =>
          refine Wp.bind (M := fun s' _ _ => s' = _) (Wp.ite (fun _ => Wp.pure rfl) fun _ =>
            Wp.halt ⟨h₁, nofun⟩) ?_
          rintro _ _ _ rfl
          refine Wp.bind (M := fun s' _ _ => s' = _ ∧ childMsg.realPpid = n.2.realPid)
            (Wp.ite (fun he => Wp.pure ⟨rfl, he⟩) fun _ => Wp.halt ⟨h₁, nofun⟩) ?_
          rintro _ _ _ ⟨rfl, hreal⟩
          have hb := h.virtBelow n hn
          have hxb := h.xndBelow n hn
          have hxnd := hsender n hn hvirt
          refine idsWp_registerProc ⟨h₁, ⟨?_, ?_⟩, ⟨?_, ?_⟩, fun m hm => ?_, fun m hm he => ?_, ?_⟩
          · simp only; omega
          · simp only; omega
          · simp only; omega
          · simp only; omega
          · have := h.virtBelow m hm
            have := h.xndBelow m hm
            simp only
            omega
          · rw [h.eq_of_virtPid hm hn (he.trans hvirt.symm)]
            exact hreal.symm
          · simp only
            omega

/-- One connection. -/
theorem idsWp_coordHandleConnection {s : CoordInfo} (h : IdsOk s) (fuel : Nat) (fd : Int)
    {msg : XndMsg} (ha : Admissible s msg) :
    IdsWp (coordHandleConnection fuel fd msg) s fun s' _ => IdsOk s' := by
  obtain ⟨hlaunch, hfork, hrestart⟩ := ha
  by_cases hl : msg.hdr = .connectLaunch
  · obtain ⟨hv, hx⟩ := hlaunch hl
    simp only [coordHandleConnection, hl]
    exact idsWp_coordConnectWithProcessOnLaunch h fd msg hv hx
  by_cases hr : msg.hdr = .connectRestart
  · obtain ⟨hv, hx, hvroom, hxroom, hnew⟩ := hrestart hr
    simp only [coordHandleConnection, hr]
    refine Wp.modify_bind (idsWp_coordConnectWithProcessOnRestart ?_ fd msg hv hx hvroom hxroom ?_)
    · split
      · exact h.congr rfl rfl rfl rfl
      · exact h
    · split
      · exact hnew
      · exact hnew
  by_cases hf : msg.hdr = .atforkPrepare
  · obtain ⟨hv, hx, hsender⟩ := hfork hf
    simp only [coordHandleConnection, hf]
    exact idsWp_coordAtfork h fd msg hv hx hsender
  exact upkeep_ids.toTurns.coordHandleConnection (fun _ _ => keepsIds_coordDoCheckpoint fuel)
    (fun p fd => Keeps.modify fun s _ h => h.setProc fun _ => ⟨rfl, rfl, rfl, rfl, rfl⟩)
    ⟨hl, hr, hf⟩ s () h

theorem keepsIds_coordWaitForConnection (fuel : Nat) : KeepsIds (coordWaitForConnection fuel) :=
  keeps_coordWaitForConnection (fun _ fd msg hr => hr (fd, msg) rfl) (fun _ h => ⟨h, nofun⟩)
    fun _ fd _ h ha => idsWp_coordHandleConnection h fuel fd ha

/-! ## Runs -/

/-- A launch of the process 101, whose parent 100 is not under the coordinator. -/
def launchTrace : Trace :=
  [⟨.getppid, (50 : Int)⟩, ⟨.select [4], some [4]⟩, ⟨.accept, some 5⟩,
    ⟨.recv 5, some { hdr := .connectLaunch, realPid := 101, realPpid := 100 }⟩,
    ⟨.send 5
      { hdr := .coordAck, realPid := 101, realPpid := 100, virtPid := 2, virtPpid := 1,
        xndUuid := 7, xndPid := 1001, xndPpid := 1000, xndPgid := 1001 }, true⟩]

/-- The restart messages of a run. -/
def restartMsgs (t : Trace) : List XndMsg :=
  t.filterMap fun e => ((e.call.received e.answer).map Prod.snd).filter (·.hdr = .connectRestart)

/-- They carry the ids of one checkpoint. -/
def OneCheckpoint (t : Trace) : Prop :=
  (restartMsgs t).Pairwise (fun m m' => m.virtPid ≠ m'.virtPid ∧ m.xndPid ≠ m'.xndPid) ∧
    (∀ m ∈ restartMsgs t, m.virtPpid < m.virtPid ∧ m.xndPpid < m.xndPid) ∧
    ∀ m ∈ restartMsgs t, ∀ m' ∈ restartMsgs t, m.virtPpid = m'.virtPid → m.realPpid = m'.realPid

instance (t : Trace) : Decidable (OneCheckpoint t) := inferInstanceAs (Decidable (_ ∧ _ ∧ _))

/-- A connection on restart, on the descriptor 6, of a process with the virtual id `virt`. -/
def restartEvents (virt : Int) (xnd : Nat) : Trace :=
  [⟨.select [4], some [4]⟩, ⟨.accept, some 6⟩,
    ⟨.recv 6, some
      { hdr := .connectRestart, realPid := 201, realPpid := 200, virtPid := virt, virtPpid := 1,
        xndPid := xnd, xndPpid := 1000, xndPgid := xnd, epoch := 1, numPeers := 2, xndUuid := 7 }⟩,
    ⟨.send 6
      { hdr := .coordAck, realPid := 201, realPpid := 200, virtPid := virt, virtPpid := 1,
        xndUuid := 7, xndPid := xnd, xndPpid := 1000, xndPgid := xnd }, true⟩]

end Xnd.Coord
