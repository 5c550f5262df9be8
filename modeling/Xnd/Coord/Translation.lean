import Xnd.Coord.Ids

/-!
# Translating back

`real_to_virtual` scans the table for a real pid, so its answer is the pid that was
asked for only while no two virtual pids have the same real one.  Nothing in the
table sees to that: registration writes an entry for the process and one for its
parent, removal erases the first of them only, and real pids come from the system,
which uses them again.

`Translates` is what is left to keep: the table is injective and maps the virtual
pid of every listed process to its real one.  A launch keeps it by its own tests.
A fork and a restart do not look whether a real pid is taken, so `Unambiguous` asks
it of their messages.
-/
namespace Xnd.Coord
open Code

namespace PidTable
variable (t : PidTable)

/-- No two entries hold the same real pid. -/
def Injective : Prop := (t.entries.map Prod.snd).Nodup

instance : Decidable t.Injective := inferInstanceAs (Decidable (List.Nodup _))

variable {t}

/-- In an injective table the order of the iteration does not matter. -/
theorem Injective.realToVirtual (h : t.Injective) {virt real : Int}
    (hl : t.lookup virt = some real) (i : Nat) : t.realToVirtual i real = virt := by
  have hmem : (virt, real) ∈ t.entries := t.mem_entries_iff.mpr hl
  have hall : ∀ e ∈ t.entries.filter (·.2 = real), e = (virt, real) := by
    intro e he
    obtain ⟨he, hreal⟩ := List.mem_filter.mp he
    exact List.inj_on_of_nodup_map h he hmem (by simpa using hreal)
  have hpos : 0 < (t.entries.filter (·.2 = real)).length :=
    List.length_pos_of_mem (List.mem_filter.mpr ⟨hmem, by simp⟩)
  have hlt := Nat.mod_lt i hpos
  have hget := hall _ (List.getElem_mem hlt)
  simp only [PidTable.realToVirtual, List.getElem?_eq_getElem hlt, hget]
  rfl

theorem Injective.erase (h : t.Injective) (virt : Int) : (t.erase virt).Injective :=
  h.sublist (List.filter_sublist.map _)

/-- The table after a registration. -/
theorem update_update_entries {virt virt' : Int} (hne : virt ≠ virt') (real real' : Int) :
    ((t.update virt real).update virt' real').entries =
      (virt', real') :: (virt, real) :: ((t.erase virt).erase virt').entries := by
  simp [update, PidTable.erase, hne]

theorem realIdExists_iff {real : Int} :
    t.realIdExists real = true ↔ ∃ e ∈ t.entries, e.2 = real := by
  simp [realIdExists]

/-- A registration, when the entries that stay hold neither of its real pids. -/
theorem Injective.update_update (h : t.Injective) {virt real virt' real' : Int}
    (hvirt : virt ≠ virt') (hreal : real ≠ real')
    (hothers : ∀ e ∈ t.entries, e.1 ≠ virt → e.1 ≠ virt' → e.2 ≠ real ∧ e.2 ≠ real') :
    ((t.update virt real).update virt' real').Injective := by
  have hrest : ∀ e ∈ ((t.erase virt).erase virt').entries, e.2 ≠ real ∧ e.2 ≠ real' := by
    intro e he
    obtain ⟨he, hv'⟩ := List.mem_filter.mp he
    obtain ⟨he, hv⟩ := List.mem_filter.mp he
    exact hothers e he (by simpa using hv) (by simpa using hv')
  unfold Injective
  rw [update_update_entries hvirt, List.map_cons, List.map_cons, List.nodup_cons, List.nodup_cons]
  refine ⟨?_, ?_, (h.erase virt).erase virt'⟩
  · intro hm
    rcases List.mem_cons.mp hm with he | hm
    · exact hreal he.symm
    · obtain ⟨e, he, hr⟩ := List.mem_map.mp hm
      exact (hrest e he).2 hr
  · intro hm
    obtain ⟨e, he, hr⟩ := List.mem_map.mp hm
    exact (hrest e he).1 hr

end PidTable

/-- **The invariant of translations.** -/
structure Translates (s : CoordInfo) : Prop where
  injective : s.table.Injective
  mapped : ∀ n ∈ s.procs, s.table.lookup n.2.virtPid = some n.2.realPid
  virtNodup : (s.procs.map (·.2.virtPid)).Nodup

theorem translates_coordInit (fd : Int) (uuid : Nat) (interval : Int) :
    Translates (coordInit fd uuid interval) :=
  ⟨List.nodup_nil, by simp [coordInit], List.nodup_nil⟩

/-- **The condition** on a message that arrives: a process that is launched is not its
own parent; a forked child has a real pid that the table does not hold; a restarted
process comes with two virtual and two real pids, its virtual pid belongs to no
listed process, its parent's real pid is the one that is listed, if the parent is,
and no other entry of the table holds one of its real pids. -/
def Unambiguous (s : CoordInfo) (msg : XndMsg) : Prop :=
  (msg.hdr = .connectLaunch → msg.realPid ≠ msg.realPpid) ∧
  (msg.hdr = .atforkChild → s.table.realIdExists msg.realPid ≠ true) ∧
  (msg.hdr = .connectRestart → msg.virtPid ≠ msg.virtPpid ∧ msg.realPid ≠ msg.realPpid ∧
    (∀ n ∈ s.procs, n.2.virtPid ≠ msg.virtPid ∧
      (n.2.virtPid = msg.virtPpid → n.2.realPid = msg.realPpid)) ∧
    ∀ e ∈ s.table.entries, e.1 ≠ msg.virtPid → e.1 ≠ msg.virtPpid →
      e.2 ≠ msg.realPid ∧ e.2 ≠ msg.realPpid)

instance (s : CoordInfo) (msg : XndMsg) : Decidable (Unambiguous s msg) :=
  inferInstanceAs (Decidable (_ ∧ _ ∧ _))

def AllUnambiguous (s : CoordInfo) (c : CoordCall) (r : c.Answer) : Prop :=
  ∀ m ∈ c.received r, Unambiguous s m.2

instance (s : CoordInfo) (c : CoordCall) (r : c.Answer) : Decidable (AllUnambiguous s c r) :=
  inferInstanceAs (Decidable (∀ m ∈ c.received r, Unambiguous s m.2))

/-! ## The steps -/

namespace Translates
variable {s : CoordInfo} {p : Nat}

/-- What does not touch the list or the table. -/
theorem congr (h : Translates s) {s' : CoordInfo} (hp : s'.procs = s.procs)
    (ht : s'.table = s.table) : Translates s' := by
  refine ⟨ht ▸ h.injective, ?_, hp ▸ h.virtNodup⟩
  rw [hp, ht]
  exact h.mapped

theorem drop (h : Translates s) (p : Nat) : Translates (s.drop p) where
  injective := h.injective
  mapped n hn := h.mapped n (List.mem_filter.mp hn).1
  virtNodup := h.virtNodup.sublist (List.filter_sublist.map _)

/-- Erasing an entry that belongs to no listed process. -/
theorem erase (h : Translates s) {virt : Int} (hv : ∀ n ∈ s.procs, n.2.virtPid ≠ virt) :
    Translates { s with table := s.table.erase virt } where
  injective := h.injective.erase virt
  mapped n hn := by
    show (s.table.erase virt).lookup n.2.virtPid = _
    rw [s.table.lookup_erase_of_ne (hv n hn)]
    exact h.mapped n hn
  virtNodup := h.virtNodup

/-- Assigning to fields that are not pids. -/
theorem mapProcs (h : Translates s) {g : Nat × Proc → Nat × Proc}
    (hg : ∀ n, (g n).2.virtPid = n.2.virtPid ∧ (g n).2.realPid = n.2.realPid) :
    Translates { s with procs := s.procs.map g } := by
  refine ⟨h.injective, ?_, ?_⟩
  · intro n hn
    obtain ⟨m, hm, rfl⟩ := List.mem_map.mp hn
    rw [(hg m).1, (hg m).2]
    exact h.mapped m hm
  · show ((s.procs.map g).map _).Nodup
    have hsame : (s.procs.map g).map (·.2.virtPid) = s.procs.map (·.2.virtPid) := by
      rw [List.map_map]
      exact List.map_congr_left fun n _ => (hg n).1
    rw [hsame]
    exact h.virtNodup

theorem setProc (h : Translates s) {f : Proc → Proc}
    (hf : ∀ a, (f a).virtPid = a.virtPid ∧ (f a).realPid = a.realPid) :
    Translates (s.setProc p f) := by
  refine h.mapProcs fun n => ?_
  split
  · exact hf n.2
  · exact ⟨rfl, rfl⟩

/-- The entry that holds the real pid of a listed process is that of the process. -/
theorem eq_virtPid (h : Translates s) {n : Nat × Proc} (hn : n ∈ s.procs) {e : Int × Int}
    (he : e ∈ s.table.entries) (hreal : e.2 = n.2.realPid) : e.1 = n.2.virtPid := by
  have hown := s.table.mem_entries_iff.mpr (h.mapped n hn)
  rw [List.inj_on_of_nodup_map h.injective he hown hreal]

end Translates

/-- A new process whose registration keeps the table injective. -/
structure Unclaimed (s : CoordInfo) (a : Proc) : Prop where
  ok : Translates s
  virtNe : a.virtPid ≠ a.virtPpid
  realNe : a.realPid ≠ a.realPpid
  fresh : ∀ n ∈ s.procs, n.2.virtPid ≠ a.virtPid
  parent : ∀ n ∈ s.procs, n.2.virtPid = a.virtPpid → n.2.realPid = a.realPpid
  others : ∀ e ∈ s.table.entries, e.1 ≠ a.virtPid → e.1 ≠ a.virtPpid →
    e.2 ≠ a.realPid ∧ e.2 ≠ a.realPpid

/-- **A new process.** -/
theorem Unclaimed.register {s : CoordInfo} {a : Proc} (h : Unclaimed s a) :
    Translates (CoordInfo.push { s with
      table := (s.table.update a.virtPid a.realPid).update a.virtPpid a.realPpid } a) := by
  have hown : ((s.table.update a.virtPid a.realPid).update a.virtPpid a.realPpid).lookup
      a.virtPid = some a.realPid := by
    rw [PidTable.lookup_update_of_ne _ h.virtNe, PidTable.lookup_update_self]
  have hlisted : ∀ n ∈ s.procs,
      ((s.table.update a.virtPid a.realPid).update a.virtPpid a.realPpid).lookup n.2.virtPid =
        some n.2.realPid := by
    intro n hn
    by_cases hp : n.2.virtPid = a.virtPpid
    · rw [hp, PidTable.lookup_update_self, h.parent n hn hp]
    · rw [PidTable.lookup_update_of_ne _ hp, PidTable.lookup_update_of_ne _ (h.fresh n hn)]
      exact h.ok.mapped n hn
  refine ⟨h.ok.injective.update_update h.virtNe h.realNe h.others,
    List.forall_mem_cons.mpr ⟨hown, hlisted⟩, List.nodup_cons.mpr ⟨?_, h.ok.virtNodup⟩⟩
  intro hm
  obtain ⟨n, hn, he⟩ := List.mem_map.mp hm
  exact h.fresh n hn he

/-! ## The code -/

abbrev pidsWorld : World CoordCall.Answer CoordInfo Unit := .answering AllUnambiguous

abbrev KeepsPids {α : Type} (m : InfoM α) : Prop :=
  Keeps (𝒲 := pidsWorld) (fun s _ => Translates s) (fun s _ _ => Translates s)
    (fun s _ => Translates s) m

abbrev PidsWp {α : Type} (m : InfoM α) (s : CoordInfo) (fin : CoordInfo → α → Prop) : Prop :=
  Wp pidsWorld (fun s _ => Translates s) (fun s _ _ => Translates s) m s () fun s a _ => fin s a

/-- A call leaves the state alone. -/
theorem pidsWp_call {c : CoordCall} {s : CoordInfo} (h : Translates s)
    {fin : CoordInfo → c.Answer → Prop} (hfin : ∀ r, AllUnambiguous s c r → fin s r) :
    PidsWp (Code.call c) s fin :=
  Prog.holds_call_answering h fun r hr => hfin r hr

/-- **Removal.** -/
theorem keepsPids_listRemove (p : Nat) : KeepsPids (listRemove p) := by
  intro s _ h
  refine Wp.bind (M := fun s' a _ => s' = s ∧ s.proc p = some a)
    (wp_listProc (fun _ => h) fun a ha => ⟨rfl, ha⟩) ?_
  rintro s a _ ⟨rfl, ha⟩
  have hother : ∀ n ∈ (s.drop p).procs, n.2.virtPid ≠ a.virtPid := by
    intro n hn he
    obtain ⟨hn, hp⟩ := List.mem_filter.mp hn
    have := List.inj_on_of_nodup_map h.virtNodup hn (CoordInfo.mem_procs_of_proc ha) he
    simp [this] at hp
  have hdrop : Translates (s.drop p) := h.drop p
  refine Wp.modify_bind ((wp_closeIfOpen_answering hdrop).bind ?_)
  rintro _ _ _ rfl
  refine (wp_closeIfOpen_answering hdrop).bind ?_
  rintro _ _ _ rfl
  exact Wp.modify (hdrop.erase hother)

theorem upkeep_pids :
    Upkeep pidsWorld (fun s _ => Translates s) (fun s _ _ => Translates s) fun s _ => Translates s where
  stop _ _ _ h _ := h
  call c _ := keeps_call_answering c
  remove := keepsPids_listRemove
  state _ _ := Keeps.modify fun _ _ h => h.setProc fun _ => ⟨rfl, rfl⟩

/-- A round registers nobody. -/
theorem keepsPids_coordDoCheckpoint (fuel : Nat) : KeepsPids (coordDoCheckpoint fuel) := by
  refine upkeep_pids.coordDoCheckpoint (fun c _ => keeps_call_answering c) ?_ ?_ ?_ fuel
  · exact Keeps.modify fun s _ h => h.congr rfl rfl
  · exact Keeps.modify fun s _ h => h.mapProcs fun _ => ⟨rfl, rfl⟩
  · exact Keeps.modify fun s _ h => h.congr rfl rfl

/-! ### Registration -/

/-- The next virtual pid is tested against the table. -/
theorem pidsWp_coordNextVirtPid {s : CoordInfo} (h : Translates s) :
    PidsWp coordNextVirtPid s fun s' v =>
      s' = { s with nextVirtPid := wrap32 (s.nextVirtPid + 1) } ∧ v = s.nextVirtPid ∧
        s.table.virtualIdExists v ≠ true := by
  refine Wp.get_bind (Wp.modify_bind (Wp.get_bind (Wp.ite (fun _ => ?_) fun hnew => ?_)))
  · exact Wp.halt (h.congr rfl rfl)
  · exact Wp.pure ⟨rfl, rfl, hnew⟩

theorem pidsWp_coordNextXndPid {s : CoordInfo} :
    PidsWp coordNextXndPid s fun s' _ =>
      s' = { s with nextXndPid := (s.nextXndPid + 1) % 2 ^ 32 } :=
  Wp.get_bind (Wp.modify_bind (Wp.pure rfl))

theorem wrap32_succ_ne (n : Int) : wrap32 (n + 1) ≠ n := by
  unfold wrap32
  omega

theorem PidTable.fst_ne_of_not_exists {t : PidTable} {virt : Int}
    (h : t.virtualIdExists virt ≠ true) {e : Int × Int} (he : e ∈ t.entries) : e.1 ≠ virt := by
  rintro rfl
  exact h (Option.isSome_iff_exists.mpr ⟨e.2, t.mem_entries_iff.mp he⟩)

/-- A virtual pid that the table does not have belongs to no listed process. -/
theorem Translates.virtPid_ne {s : CoordInfo} (h : Translates s) {virt : Int}
    (hnew : s.table.virtualIdExists virt ≠ true) {n : Nat × Proc} (hn : n ∈ s.procs) :
    n.2.virtPid ≠ virt :=
  PidTable.fst_ne_of_not_exists hnew (s.table.mem_entries_iff.mpr (h.mapped n hn))

theorem pidsWp_registerProc {s : CoordInfo} {a : Proc} (h : Unclaimed s a) :
    PidsWp (registerProc a) s fun s' _ => Translates s' := by
  refine (wp_coordSendHandshake_answering h.ok h.ok a).bind ?_
  rintro _ _ _ rfl
  exact Wp.modify_bind (Wp.modify h.register)

/-- A launch tests both of its real pids: its own is not in the table, and its
parent's is there only when the parent is listed. -/
theorem pidsWp_launchIds {s : CoordInfo} (h : Translates s) (fd : Int) {msg : XndMsg}
    (hnew : s.table.realIdExists msg.realPid ≠ true) (hne : msg.realPid ≠ msg.realPpid) :
    PidsWp (launchIds fd msg) s fun s' a => Unclaimed s' a := by
  have hown : ∀ e ∈ s.table.entries, e.2 ≠ msg.realPid := fun e he hr =>
    hnew (PidTable.realIdExists_iff.mpr ⟨e, he, hr⟩)
  refine Wp.get_bind (Wp.ite (fun hparent => ?_) fun hparent => ?_)
  · cases hf : s.find (·.realPid = msg.realPpid) with
    | none => exact Wp.halt h
    | some n =>
        obtain ⟨hn, hreal⟩ := CoordInfo.mem_procs_of_find hf
        have hreal : n.2.realPid = msg.realPpid := by simpa using hreal
        refine (pidsWp_coordNextVirtPid h).bind ?_
        rintro _ virt _ ⟨rfl, -, hvirt⟩
        refine pidsWp_coordNextXndPid.bind ?_
        rintro _ _ _ rfl
        refine Wp.pure ⟨h.congr rfl rfl, (h.virtPid_ne hvirt hn).symm, hne,
          fun m hm => h.virtPid_ne hvirt hm, fun m hm he => ?_, fun e he _ hp => ⟨hown e he, ?_⟩⟩
        · have hsame := List.inj_on_of_nodup_map h.virtNodup hm hn he
          rw [hsame]
          exact hreal
        · intro hr
          exact hp (h.eq_virtPid hn he (hr.trans hreal.symm))
  · have hppid : ∀ e ∈ s.table.entries, e.2 ≠ msg.realPpid := fun e he hr =>
      hparent (PidTable.realIdExists_iff.mpr ⟨e, he, hr⟩)
    refine (pidsWp_coordNextVirtPid h).bind ?_
    rintro _ virtPpid _ ⟨rfl, rfl, hvirtPpid⟩
    have h₁ : Translates { s with nextVirtPid := wrap32 (s.nextVirtPid + 1) } := h.congr rfl rfl
    refine (pidsWp_coordNextVirtPid h₁).bind ?_
    rintro _ virtPid _ ⟨rfl, rfl, hvirtPid⟩
    refine pidsWp_coordNextXndPid.bind ?_
    rintro _ _ _ rfl
    refine pidsWp_coordNextXndPid.bind ?_
    rintro _ _ _ rfl
    exact Wp.pure ⟨h.congr rfl rfl, wrap32_succ_ne _, hne, fun m hm => h₁.virtPid_ne hvirtPid hm,
      fun m hm he => absurd he (h.virtPid_ne hvirtPpid hm), fun e he _ _ => ⟨hown e he, hppid e he⟩⟩

theorem pidsWp_coordConnectWithProcessOnLaunch {s : CoordInfo} (h : Translates s) (fd : Int)
    {msg : XndMsg} (hne : msg.realPid ≠ msg.realPpid) :
    PidsWp (coordConnectWithProcessOnLaunch fd msg) s fun s' _ => Translates s' := by
  refine Wp.get_bind (Wp.ite (fun _ => ?_) fun hnew => ?_)
  · cases s.find (·.realPid = msg.realPid) with
    | none => exact Wp.halt h
    | some n =>
        refine Wp.bind (M := fun s' _ _ => s' = s) (pidsWp_call h fun _ _ => rfl) ?_
        rintro _ _ _ rfl
        have hset := h.setProc (p := n.1) (f := fun a => { a with fd := fd }) fun _ => ⟨rfl, rfl⟩
        refine Wp.modify_bind ((wp_coordSendHandshake_answering hset hset _).mono ?_)
        rintro _ _ _ rfl
        exact hset
  · refine Wp.bind (M := fun s' _ _ => s' = s) (Wp.ite (fun _ => Wp.pure rfl) fun _ =>
      Wp.halt h) ?_
    rintro _ _ _ rfl
    exact (pidsWp_launchIds h fd hnew hne).bind fun s' a _ ha => pidsWp_registerProc ha

/-- A forked child: its parent is listed, its own real pid is free. -/
theorem pidsWp_coordAtfork {s : CoordInfo} (h : Translates s) (fd : Int) (msg : XndMsg) :
    PidsWp (coordAtfork fd msg) s fun s' _ => Translates s' := by
  refine (pidsWp_coordNextVirtPid h).bind ?_
  rintro _ virt _ ⟨rfl, -, hvirt⟩
  refine pidsWp_coordNextXndPid.bind ?_
  rintro s₁ _ _ hs₁
  have hprocs : s₁.procs = s.procs := by rw [hs₁]
  have htable : s₁.table = s.table := by rw [hs₁]
  have h₁ : Translates s₁ := h.congr hprocs htable
  rw [← htable] at hvirt
  refine Wp.bind (M := fun s' _ _ => s' = s₁) (pidsWp_call h₁ fun _ _ => rfl) ?_
  rintro s₁ _ _ rfl
  refine Wp.ite (fun _ => Wp.get_bind ?_) fun _ => Wp.halt h₁
  cases hf : s₁.find (·.virtPid = msg.virtPpid) with
  | none => exact Wp.halt h₁
  | some n =>
      obtain ⟨hn, hparent⟩ := CoordInfo.mem_procs_of_find hf
      have hparent : n.2.virtPid = msg.virtPpid := by simpa using hparent
      refine Wp.bind (M := fun s' r _ => s' = s₁ ∧ AllUnambiguous s₁ (.recv fd) r)
        (pidsWp_call h₁ fun _ hr => ⟨rfl, hr⟩) ?_
      rintro s₁ childMsg _ ⟨rfl, hall⟩
      cases childMsg with
      | none => exact Wp.halt h₁
      | some childMsg =>
          have hchild : childMsg.hdr = .atforkChild →
              s₁.table.realIdExists childMsg.realPid ≠ true := (hall (fd, childMsg) rfl).2.1
          refine Wp.bind (M := fun s' _ _ => s' = s₁ ∧ childMsg.hdr = .atforkChild)
            (Wp.ite (fun hc => Wp.pure ⟨rfl, hc⟩) fun _ => Wp.halt h₁) ?_
          rintro s₁ _ _ ⟨rfl, hc⟩
          refine Wp.bind (M := fun s' _ _ => s' = s₁ ∧ childMsg.realPpid = n.2.realPid)
            (Wp.ite (fun he => Wp.pure ⟨rfl, he⟩) fun _ => Wp.halt h₁) ?_
          rintro s₁ _ _ ⟨rfl, hreal⟩
          have hown : ∀ e ∈ s₁.table.entries, e.2 ≠ childMsg.realPid := fun e he hr =>
            hchild hc (PidTable.realIdExists_iff.mpr ⟨e, he, hr⟩)
          have hentry := s₁.table.mem_entries_iff.mpr (h₁.mapped n hn)
          refine pidsWp_registerProc ⟨h₁, ?_, ?_, fun m hm => h₁.virtPid_ne hvirt hm, fun m hm he => ?_,
            fun e he _ hp => ⟨hown e he, fun hr => ?_⟩⟩
          · show virt ≠ msg.virtPpid
            rw [← hparent]
            exact (h₁.virtPid_ne hvirt hn).symm
          · show childMsg.realPid ≠ childMsg.realPpid
            rw [hreal]
            exact (hown _ hentry).symm
          · rw [List.inj_on_of_nodup_map h₁.virtNodup hm hn (he.trans hparent.symm)]
            exact hreal.symm
          · exact hp ((h₁.eq_virtPid hn he (hr.trans hreal)).trans hparent)

/-- One connection. -/
theorem pidsWp_coordHandleConnection {s : CoordInfo} (h : Translates s) (fuel : Nat) (fd : Int)
    {msg : XndMsg} (ha : Unambiguous s msg) :
    PidsWp (coordHandleConnection fuel fd msg) s fun s' _ => Translates s' := by
  obtain ⟨hlaunch, -, hrestart⟩ := ha
  by_cases hl : msg.hdr = .connectLaunch
  · simp only [coordHandleConnection, hl]
    exact pidsWp_coordConnectWithProcessOnLaunch h fd (hlaunch hl)
  by_cases hr : msg.hdr = .connectRestart
  · obtain ⟨hvirt, hreal, hlisted, hothers⟩ := hrestart hr
    simp only [coordHandleConnection, hr]
    refine Wp.modify_bind (Wp.modify_bind (pidsWp_registerProc ?_))
    split
    · exact ⟨h.congr rfl rfl, hvirt, hreal, fun n hn => (hlisted n hn).1,
        fun n hn => (hlisted n hn).2, hothers⟩
    · exact ⟨h.congr rfl rfl, hvirt, hreal, fun n hn => (hlisted n hn).1,
        fun n hn => (hlisted n hn).2, hothers⟩
  by_cases hf : msg.hdr = .atforkPrepare
  · simp only [coordHandleConnection, hf]
    exact pidsWp_coordAtfork h fd msg
  exact upkeep_pids.toTurns.coordHandleConnection (fun _ _ => keepsPids_coordDoCheckpoint fuel)
    (fun p fd => Keeps.modify fun s _ h => h.setProc fun _ => ⟨rfl, rfl⟩) ⟨hl, hr, hf⟩ s () h

theorem keepsPids_coordWaitForConnection (fuel : Nat) :
    KeepsPids (coordWaitForConnection fuel) := by
  have arrived : ∀ s fd msg, AllUnambiguous s (.recv fd) (some msg) → Unambiguous s msg :=
    fun _ fd msg hr => hr (fd, msg) rfl
  refine keeps_coordWaitForConnection arrived ?_ ?_
  · exact fun _ h => h
  · exact fun _ fd _ h ha => pidsWp_coordHandleConnection h fuel fd ha

/-! ## Runs -/

/-- `coord_send_real_to_virt`, asked for the real pid of a process, answers its virtual
pid, whichever entry the iteration comes to first. -/
def AnswersVirt (s : CoordInfo) (a : Proc) : Prop :=
  ∀ (i : Nat) (fd : Int) (msg : XndMsg), msg.realPid = a.realPid →
    ∃ reply k, Prog.after (fun _ _ _ => True) (coordSendRealToVirt fd msg s) [⟨.iteration, i⟩] =
        some (.call s (.send fd reply) k) ∧ reply.hdr = .coordAck ∧ reply.virtPid = a.virtPid

theorem Translates.answersVirt {s : CoordInfo} (h : Translates s) {n : Nat × Proc}
    (hn : n ∈ s.procs) : AnswersVirt s n.2 := by
  intro i fd msg hreal
  have hback : s.table.realToVirtual i msg.realPid = n.2.virtPid := by
    rw [hreal]
    exact h.injective.realToVirtual (h.mapped n hn) i
  -- The list is asked only when the virtual pid is -1, and then it answers the same.
  have hlist : ((s.find (·.realPid = msg.realPid)).map (·.2.virtPid)).getD (-1) ≠ -1 →
      ((s.find (·.realPid = msg.realPid)).map (·.2.virtPid)).getD (-1) = n.2.virtPid := by
    cases hf : s.find (·.realPid = msg.realPid) with
    | none => exact fun hne => absurd rfl hne
    | some m =>
        obtain ⟨hm, hmreal⟩ := CoordInfo.mem_procs_of_find hf
        have hmreal : m.2.realPid = n.2.realPid := by
          rw [← hreal]
          simpa using hmreal
        exact fun _ => h.eq_virtPid hn (s.table.mem_entries_iff.mpr (h.mapped m hm)) hmreal
  refine ⟨_, _, rfl, ?_, ?_⟩
  · rw [apply_ite XndMsg.hdr]
    exact ite_self _
  · rw [apply_ite XndMsg.virtPid, hback]
    by_cases hv : n.2.virtPid = -1
    · rw [if_neg (not_not.mpr hv)]
      split
      · exact hlist ‹_›
      · exact hv.symm
    · rw [if_pos hv, if_pos hv]

/-- **Translating back is the identity** in every state a run reaches, as long as every
message that arrives is unambiguous: the reply for the real pid of a listed process is
its virtual pid, and no two entries of the table hold the same real pid. -/
theorem coordMain_translates (restart : Bool) (fuel : Nat) (fd : Int) (uuid : Nat) (interval : Int)
    {p : Prog CoordCall.Answer CoordInfo CoordStop Unit}
    (h : (World.answering AllUnambiguous).Reach
      (coordMain restart fuel (coordInit fd uuid interval)) () (p, ())) :
    p.state.table.Injective ∧ ∀ n ∈ p.state.procs, AnswersVirt p.state n.2 := by
  have hmain : KeepsPids (coordMain restart fuel) :=
    upkeep_pids.toTurns.coordMain keepsPids_coordWaitForConnection keepsPids_coordDoCheckpoint
      (keeps_call_answering _) restart fuel
  have hp := hmain.reach (fun _ _ _ _ hm => hm.elim) (fun _ _ _ _ _ hm => hm.elim)
    (translates_coordInit fd uuid interval) h
  have hstate : Translates p.state := by
    cases p with
    | ret s a => exact hp
    | call s c k => exact hp
    | halt s e => exact hp
  exact ⟨hstate.injective, fun n hn => hstate.answersVirt hn⟩

/-- The process 101 of `launchTrace` forks the process `child`. -/
def forkEvents (child : Int) : Trace :=
  [⟨.select [4], some [4]⟩, ⟨.accept, some 6⟩,
    ⟨.recv 6, some { hdr := .atforkPrepare, virtPpid := 2, xndPpid := 1001, xndPgid := 1001 }⟩,
    ⟨.send 6 { hdr := .coordAck, virtPid := 3 }, true⟩,
    ⟨.recv 6, some { hdr := .atforkChild, realPid := child, realPpid := 101 }⟩,
    ⟨.send 6
      { hdr := .coordAck, realPid := child, realPpid := 101, virtPid := 3, virtPpid := 2,
        xndUuid := 7, xndPid := 1002, xndPpid := 1001, xndPgid := 1001 }, true⟩]

theorem coordMain_translates_fork :
    ∃ p, Prog.after AllUnambiguous (coordMain false 3 (coordInit 4 7 0))
        (launchTrace ++ forkEvents 102) = some p ∧
      p.state.procs.map (fun n => (n.2.virtPid, n.2.realPid)) = [(3, 102), (2, 101)] ∧
      p.state.table.Injective ∧ ∀ n ∈ p.state.procs, AnswersVirt p.state n.2 := by
  refine ⟨_, rfl, rfl, coordMain_translates false 3 4 7 0 ?_⟩
  exact Prog.reach_of_after (t := launchTrace ++ forkEvents 102) rfl

/-- A root on the descriptor `fd` that is restarted by the process 200. -/
def rootEvents (fd real virt : Int) (xnd : Nat) : Trace :=
  [⟨.select [4], some [4]⟩, ⟨.accept, some fd⟩,
    ⟨.recv fd, some
      { hdr := .connectRestart, realPid := real, realPpid := 200, virtPid := virt,
        virtPpid := virt - 1, xndPid := xnd, xndPpid := xnd - 1, xndPgid := xnd, epoch := 1,
        numPeers := 2, xndUuid := 7 }⟩,
    ⟨.send fd
      { hdr := .coordAck, realPid := real, realPpid := 200, virtPid := virt, virtPpid := virt - 1,
        xndUuid := 7, xndPid := xnd, xndPpid := xnd - 1, xndPgid := xnd }, true⟩]

/-- Without the condition two things go wrong.  The parent of a launched process dies,
its entry stays, and a forked child is given its pid: asked for the child's pid, the
coordinator may answer the parent's virtual pid.  And the roots of two independent trees
bring two virtual pids for the one process that restarts them. -/
theorem not_coordMain_translates :
    (∃ p, Prog.after (fun _ _ _ => True) (coordMain false 3 (coordInit 4 7 0))
        (launchTrace ++ forkEvents 100) = some p ∧
      ∃ n ∈ p.state.procs, ¬ AnswersVirt p.state n.2) ∧
    ∃ p, Prog.after (fun _ _ _ => True) (coordMain true 3 (coordInit 4 7 0))
        (⟨.getppid, (50 : Int)⟩ :: rootEvents 6 201 2 1001 ++ rootEvents 7 202 4 1003) = some p ∧
      ¬ p.state.table.Injective := by
  constructor
  · refine ⟨_, rfl, _, List.mem_cons_self, fun H => ?_⟩
    obtain ⟨reply, k, hsend, -, hvirt⟩ := H 1 6 { hdr := .realToVirt, realPid := 100 } rfl
    cases hsend
    revert hvirt
    decide
  · refine ⟨_, rfl, ?_⟩
    decide

end Xnd.Coord
