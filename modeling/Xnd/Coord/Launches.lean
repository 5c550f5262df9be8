import Xnd.Coord.Translation
import Xnd.Lib.Env

/-!
# What the table says about the list

`coord_connect_with_process_on_launch` asks the table whether a real pid is known and
then takes the process from the list.  The two are not written together: a launched
process without a listed parent enters its parent's pids into the table and nothing into
the list, and a removal erases one key of the table only.

`Sources` says where each entry comes from: from a listed process, or from the parent of
a launched process that was not listed (`Launches.outside`).  So a real pid is in the
table exactly when it is that of a listed process or of such a parent
(`Sources.realIdExists_iff`), and the list has what the table promised except for the
parents that stay outside.
-/
namespace Xnd.Coord
open Code

/-- A listed process has the real pid. -/
def Listed (s : CoordInfo) (real : Int) : Prop := ∃ n ∈ s.procs, n.2.realPid = real

instance (s : CoordInfo) (real : Int) : Decidable (Listed s real) :=
  inferInstanceAs (Decidable (∃ n ∈ s.procs, n.2.realPid = real))

/-! ## What has been launched -/

/-- A launch message, with the state in which it is handled and the parents that had
launched processes from outside before. -/
structure Launch where
  state : CoordInfo
  outside : List Int
  msg : XndMsg

inductive LaunchStage where
  | idle
  /-- A connection is accepted, its first message is to come. -/
  | accepted
  /-- A launch message has come, and the handshake is to be sent; the parent is not
  listed. -/
  | entering (realPpid : Int)
  deriving DecidableEq, Repr

/-- What has been launched so far. -/
structure Launches where
  /-- The parents, not listed, of the processes that registered by a launch. -/
  outside : List Int
  seen : List Launch
  stage : LaunchStage

namespace Launches

def empty : Launches := ⟨[], [], .idle⟩

/-- What a launch message begins. -/
def launch (w : Launches) (s : CoordInfo) (msg : XndMsg) : Launches where
  outside := w.outside
  seen := ⟨s, w.outside, msg⟩ :: w.seen
  stage := if Listed s msg.realPid ∨ Listed s msg.realPpid then .idle else .entering msg.realPpid

/-- What an answer adds. -/
def follow (s : CoordInfo) (w : Launches) : (c : CoordCall) → c.Answer → Launches
  | .accept, (some _ : Option Int) => { w with stage := .accepted }
  | .recv _, (r : Option XndMsg) =>
      if w.stage = .accepted then
        match r with
        | some msg => if msg.hdr = .connectLaunch then w.launch s msg else { w with stage := .idle }
        | none => { w with stage := .idle }
      else w
  | .send _ _, (sent : Bool) =>
      match w.stage with
      | .entering real =>
          if sent = true then { w with outside := real :: w.outside, stage := .idle } else w
      | _ => w
  | _, _ => w

end Launches

/-- No process of a restart connects. -/
def NoRestart (_ : CoordInfo) (_ : Launches) (c : CoordCall) (r : c.Answer) : Prop :=
  ∀ m ∈ c.received r, m.2.hdr ≠ .connectRestart

instance (s : CoordInfo) (w : Launches) (c : CoordCall) (r : c.Answer) :
    Decidable (NoRestart s w c r) :=
  inferInstanceAs (Decidable (∀ m ∈ c.received r, m.2.hdr ≠ .connectRestart))

abbrev launchWorld : World CoordCall.Answer CoordInfo Launches :=
  (Env.account Launches.follow).world NoRestart

/-- The list has what the table promises about the sender of a launch message and about its
parent. -/
def Launch.Finds (l : Launch) : Prop :=
  ∀ real, real = l.msg.realPid ∨ real = l.msg.realPpid → l.state.table.realIdExists real = true →
    (l.state.find (·.realPid = real)).isSome

/-- Neither the sender nor its parent is an unlisted parent of an earlier launch. -/
def Launch.Inside (l : Launch) : Prop :=
  ∀ real, real = l.msg.realPid ∨ real = l.msg.realPpid → real ∈ l.outside → Listed l.state real

/-! ## Where the entries come from -/

/-- **The invariant of the table.** -/
structure Sources (s : CoordInfo) (outside : List Int) : Prop where
  addresses : (s.procs.map Prod.fst).Nodup
  below : ∀ n ∈ s.procs, n.1 < s.brk
  virtNodup : (s.procs.map (·.2.virtPid)).Nodup
  own : ∀ n ∈ s.procs, s.table.lookup n.2.virtPid = some n.2.realPid
  known : ∀ e ∈ s.table.entries, (∃ n ∈ s.procs, n.2.virtPid = e.1) ∨ e.2 ∈ outside
  outer : ∀ real ∈ outside, ∃ e ∈ s.table.entries, e.2 = real ∧ ∀ n ∈ s.procs, n.2.virtPid ≠ e.1

theorem sources_coordInit (fd : Int) (uuid : Nat) (interval : Int) :
    Sources (coordInit fd uuid interval) [] where
  addresses := List.nodup_nil
  below := nofun
  virtNodup := List.nodup_nil
  own := nofun
  known := nofun
  outer := nofun

theorem listed_iff_find {s : CoordInfo} {real : Int} :
    (s.find (·.realPid = real)).isSome ↔ Listed s real := by
  simp [CoordInfo.find, Listed, List.find?_isSome]

namespace Sources
variable {s : CoordInfo} {outside : List Int} {p : Nat} {a : Proc}

/-- **What is in the table.** -/
theorem realIdExists_iff (h : Sources s outside) (real : Int) :
    s.table.realIdExists real = true ↔ Listed s real ∨ real ∈ outside := by
  rw [PidTable.realIdExists_iff]
  constructor
  · rintro ⟨e, he, rfl⟩
    rcases h.known e he with ⟨n, hn, hv⟩ | hout
    · have hreal : s.table.lookup e.1 = some e.2 := s.table.mem_entries_iff.mp he
      rw [← hv, h.own n hn] at hreal
      exact .inl ⟨n, hn, Option.some.inj hreal⟩
    · exact .inr hout
  · rintro (⟨n, hn, rfl⟩ | hout)
    · exact ⟨_, s.table.mem_entries_iff.mpr (h.own n hn), rfl⟩
    · obtain ⟨e, he, hr, -⟩ := h.outer real hout
      exact ⟨e, he, hr⟩

/-- The list has what the table promises, unless it is a parent that stays outside. -/
theorem finds_iff (h : Sources s outside) (msg : XndMsg) :
    Launch.Finds ⟨s, outside, msg⟩ ↔ Launch.Inside ⟨s, outside, msg⟩ := by
  refine forall₂_congr fun real _ => ?_
  show (s.table.realIdExists real = true → (s.find (·.realPid = real)).isSome) ↔
    (real ∈ outside → Listed s real)
  rw [h.realIdExists_iff real, listed_iff_find]
  constructor
  · exact fun hfind hout => hfind (.inr hout)
  · exact fun hin hor => hor.elim id hin

/-- No listed process has a virtual pid that the table does not have. -/
theorem virtPid_ne (h : Sources s outside) {virt : Int}
    (hnew : s.table.virtualIdExists virt ≠ true) {n : Nat × Proc} (hn : n ∈ s.procs) :
    n.2.virtPid ≠ virt :=
  PidTable.fst_ne_of_not_exists hnew (s.table.mem_entries_iff.mpr (h.own n hn))

/-- What does not touch the list or the table. -/
theorem congr (h : Sources s outside) {s' : CoordInfo} (hp : s'.procs = s.procs)
    (hb : s'.brk = s.brk) (ht : s'.table = s.table) : Sources s' outside := by
  constructor
  · rw [hp]; exact h.addresses
  · rw [hp, hb]; exact h.below
  · rw [hp]; exact h.virtNodup
  · rw [hp, ht]; exact h.own
  · rw [hp, ht]; exact h.known
  · rw [hp, ht]; exact h.outer

/-- Assigning to fields that are not pids. -/
theorem mapProcs (h : Sources s outside) {g : Nat × Proc → Nat × Proc}
    (hg : ∀ n, (g n).1 = n.1 ∧ (g n).2.virtPid = n.2.virtPid ∧ (g n).2.realPid = n.2.realPid) :
    Sources { s with procs := s.procs.map g } outside := by
  have hvirt : (s.procs.map g).map (·.2.virtPid) = s.procs.map (·.2.virtPid) := by
    rw [List.map_map]
    exact List.map_congr_left fun n _ => (hg n).2.1
  have haddr : (s.procs.map g).map Prod.fst = s.procs.map Prod.fst := by
    rw [List.map_map]
    exact List.map_congr_left fun n _ => (hg n).1
  refine ⟨haddr ▸ h.addresses, ?_, hvirt ▸ h.virtNodup, ?_, ?_, ?_⟩
  · intro n hn
    obtain ⟨m, hm, rfl⟩ := List.mem_map.mp hn
    rw [(hg m).1]
    exact h.below m hm
  · intro n hn
    obtain ⟨m, hm, rfl⟩ := List.mem_map.mp hn
    rw [(hg m).2.1, (hg m).2.2]
    exact h.own m hm
  · intro e he
    refine (h.known e he).imp_left ?_
    rintro ⟨m, hm, hv⟩
    exact ⟨g m, List.mem_map_of_mem hm, (hg m).2.1.trans hv⟩
  · intro real hr
    obtain ⟨e, he, hreal, hne⟩ := h.outer real hr
    refine ⟨e, he, hreal, fun n hn => ?_⟩
    obtain ⟨m, hm, rfl⟩ := List.mem_map.mp hn
    rw [(hg m).2.1]
    exact hne m hm

theorem setProc (h : Sources s outside) {f : Proc → Proc}
    (hf : ∀ a, (f a).virtPid = a.virtPid ∧ (f a).realPid = a.realPid) :
    Sources (s.setProc p f) outside := by
  refine h.mapProcs fun n => ?_
  split
  · exact ⟨rfl, hf n.2⟩
  · exact ⟨rfl, rfl, rfl⟩

/-- **Removal**, which erases the entry of the process. -/
theorem remove (h : Sources s outside) (ha : s.proc p = some a) :
    Sources { s.drop p with table := s.table.erase a.virtPid } outside := by
  have hmem := CoordInfo.mem_procs_of_proc ha
  -- What is left of the list is what has another virtual pid.
  have hne : ∀ n ∈ (s.drop p).procs, n.2.virtPid ≠ a.virtPid := by
    intro n hn he
    obtain ⟨hn, hp⟩ := List.mem_filter.mp hn
    have := List.inj_on_of_nodup_map h.virtNodup hn hmem he
    simp [this] at hp
  have hkeep : ∀ n ∈ s.procs, n.2.virtPid ≠ a.virtPid → n ∈ (s.drop p).procs := by
    intro n hn hv
    refine List.mem_filter.mpr ⟨hn, ?_⟩
    have : n.1 ≠ p := by
      intro hp
      have := List.inj_on_of_nodup_map h.addresses hn hmem hp
      exact hv (by rw [this])
    simpa using this
  have hsub : (s.drop p).procs.Sublist s.procs := List.filter_sublist
  refine ⟨h.addresses.sublist (hsub.map _), fun n hn => h.below n (hsub.subset hn),
    h.virtNodup.sublist (hsub.map _), ?_, ?_, ?_⟩
  · intro n hn
    show (s.table.erase a.virtPid).lookup n.2.virtPid = _
    rw [s.table.lookup_erase_of_ne (hne n hn)]
    exact h.own n (hsub.subset hn)
  · intro e he
    obtain ⟨he, hv⟩ := List.mem_filter.mp he
    have hv : e.1 ≠ a.virtPid := by simpa using hv
    refine (h.known e he).imp_left ?_
    rintro ⟨n, hn, hne⟩
    exact ⟨n, hkeep n hn (hne ▸ hv), hne⟩
  · intro real hr
    obtain ⟨e, he, hreal, hno⟩ := h.outer real hr
    have hv : e.1 ≠ a.virtPid := fun hv => hno _ hmem hv.symm
    exact ⟨e, List.mem_filter.mpr ⟨he, by simpa using hv⟩, hreal, fun n hn => hno n (hsub.subset hn)⟩

end Sources

/-- A new process, whose parent is listed or is one more that stays outside. -/
structure Enters (s : CoordInfo) (outside outside' : List Int) (a : Proc) : Prop where
  ok : Sources s outside
  fresh : s.table.virtualIdExists a.virtPid ≠ true
  ne : a.virtPid ≠ a.virtPpid
  parent : (outside' = outside ∧ ∃ n ∈ s.procs, n.2.virtPid = a.virtPpid ∧ n.2.realPid = a.realPpid) ∨
    (outside' = a.realPpid :: outside ∧ s.table.virtualIdExists a.virtPpid ≠ true)

namespace Enters
variable {s : CoordInfo} {outside outside' : List Int} {a : Proc}

theorem subset (h : Enters s outside outside' a) : ∀ real ∈ outside, real ∈ outside' := by
  rcases h.parent with ⟨rfl, -⟩ | ⟨rfl, -⟩
  · exact fun _ hr => hr
  · exact fun _ hr => List.mem_cons_of_mem _ hr

/-- An entry of a parent that stays outside is not that of the new process or its parent. -/
theorem keeps_outer (h : Enters s outside outside' a) {e : Int × Int} (he : e ∈ s.table.entries)
    (hno : ∀ n ∈ s.procs, n.2.virtPid ≠ e.1) : e.1 ≠ a.virtPid ∧ e.1 ≠ a.virtPpid := by
  refine ⟨PidTable.fst_ne_of_not_exists h.fresh he, ?_⟩
  rcases h.parent with ⟨-, n, hn, hv, -⟩ | ⟨-, hnew⟩
  · exact fun heq => hno n hn (hv.trans heq.symm)
  · exact PidTable.fst_ne_of_not_exists hnew he

theorem own (h : Enters s outside outside' a) : ∀ n ∈ s.procs,
    ((s.table.update a.virtPid a.realPid).update a.virtPpid a.realPpid).lookup n.2.virtPid =
      some n.2.realPid := by
  intro n hn
  by_cases hp : n.2.virtPid = a.virtPpid
  · rw [hp, PidTable.lookup_update_self]
    rcases h.parent with ⟨-, m, hm, hv, hr⟩ | ⟨-, hnew⟩
    · rw [List.inj_on_of_nodup_map h.ok.virtNodup hn hm (hp.trans hv.symm), hr]
    · exact absurd hp (h.ok.virtPid_ne hnew hn)
  · rw [PidTable.lookup_update_of_ne _ hp,
      PidTable.lookup_update_of_ne _ (h.ok.virtPid_ne h.fresh hn)]
    exact h.ok.own n hn

/-- **A new process.** -/
theorem register (h : Enters s outside outside' a) :
    Sources (CoordInfo.push { s with
      table := (s.table.update a.virtPid a.realPid).update a.virtPpid a.realPpid } a) outside' := by
  have hown : ((s.table.update a.virtPid a.realPid).update a.virtPpid a.realPpid).lookup
      a.virtPid = some a.realPid := by
    rw [PidTable.lookup_update_of_ne _ h.ne, PidTable.lookup_update_self]
  have hentries := PidTable.update_update_entries (t := s.table) h.ne a.realPid a.realPpid
  refine ⟨List.nodup_cons.mpr ⟨fun hm => ?_, h.ok.addresses⟩,
    List.forall_mem_cons.mpr ⟨Nat.lt_succ_self _, fun n hn => Nat.lt_succ_of_lt (h.ok.below n hn)⟩,
    List.nodup_cons.mpr ⟨fun hm => ?_, h.ok.virtNodup⟩,
    List.forall_mem_cons.mpr ⟨hown, h.own⟩, fun e he => ?_, fun real hr => ?_⟩
  · obtain ⟨n, hn, he⟩ := List.mem_map.mp hm
    exact absurd (h.ok.below n hn) (by rw [he]; exact Nat.lt_irrefl _)
  · obtain ⟨n, hn, he⟩ := List.mem_map.mp hm
    exact h.ok.virtPid_ne h.fresh hn he
  · -- Where the entries come from: the parent, the process, the entries that were there.
    have he : e ∈ ((s.table.update a.virtPid a.realPid).update a.virtPpid a.realPpid).entries := he
    rw [hentries] at he
    rcases List.mem_cons.mp he with rfl | he
    · rcases h.parent with ⟨-, n, hn, hv, -⟩ | ⟨rfl, -⟩
      · exact .inl ⟨n, List.mem_cons_of_mem _ hn, hv⟩
      · exact .inr List.mem_cons_self
    rcases List.mem_cons.mp he with rfl | he
    · exact .inl ⟨_, List.mem_cons_self, rfl⟩
    · have he := (List.mem_filter.mp (List.mem_filter.mp he).1).1
      rcases h.ok.known e he with ⟨n, hn, hv⟩ | hout
      · exact .inl ⟨n, List.mem_cons_of_mem _ hn, hv⟩
      · exact .inr (h.subset _ hout)
  · show ∃ e ∈ ((s.table.update a.virtPid a.realPid).update a.virtPpid a.realPpid).entries,
      e.2 = real ∧ ∀ n ∈ (s.brk, a) :: s.procs, n.2.virtPid ≠ e.1
    rw [hentries]
    have old : real ∈ outside → ∃ e ∈ (a.virtPpid, a.realPpid) :: (a.virtPid, a.realPid) ::
        ((s.table.erase a.virtPid).erase a.virtPpid).entries, e.2 = real ∧
        ∀ n ∈ (s.brk, a) :: s.procs, n.2.virtPid ≠ e.1 := by
      intro hr
      obtain ⟨e, he, hreal, hno⟩ := h.ok.outer real hr
      obtain ⟨hv, hp⟩ := h.keeps_outer he hno
      refine ⟨e, List.mem_cons_of_mem _ (List.mem_cons_of_mem _ ?_), hreal,
        List.forall_mem_cons.mpr ⟨hv.symm, hno⟩⟩
      exact List.mem_filter.mpr ⟨List.mem_filter.mpr ⟨he, by simpa using hv⟩, by simpa using hp⟩
    rcases h.parent with ⟨rfl, -⟩ | ⟨rfl, hnew⟩
    · exact old hr
    · rcases List.mem_cons.mp hr with rfl | hr
      · exact ⟨_, List.mem_cons_self, rfl,
          List.forall_mem_cons.mpr ⟨h.ne, fun n hn => h.ok.virtPid_ne hnew hn⟩⟩
      · exact old hr

end Enters

/-! ## The code -/

/-- What is said of the launch messages that have been handled. -/
def SeenOk (_ : CoordInfo) (w : Launches) : Prop := ∀ l ∈ w.seen, l.Finds ↔ l.Inside

/-- Between two exchanges. -/
structure Settled (s : CoordInfo) (w : Launches) : Prop where
  sources : Sources s w.outside
  seen : SeenOk s w
  idle : w.stage = .idle

abbrev KeepsSettled {α : Type} (m : InfoM α) : Prop :=
  Keeps (𝒲 := launchWorld) SeenOk (fun s _ w => SeenOk s w) Settled m

abbrev SettledWp {α : Type} (m : InfoM α) (s : CoordInfo) (w : Launches)
    (fin : CoordInfo → α → Launches → Prop) : Prop :=
  Wp launchWorld SeenOk (fun s _ w => SeenOk s w) m s w fin

section Steps
variable {s : CoordInfo} {w : Launches}

/-- A call, with what its answer adds. -/
theorem settledWp_call {c : CoordCall} (h : SeenOk s w) :
    SettledWp (Code.call c) s w fun s' r w' =>
      s' = s ∧ w' = w.follow s c r ∧ NoRestart s w c r :=
  Env.wp_call_account h

/-- Between two exchanges only a connection that is accepted adds anything. -/
theorem Launches.follow_idle (hw : w.stage = .idle) {c : CoordCall} (hc : c ≠ .accept)
    (r : c.Answer) : w.follow s c r = w := by
  unfold Launches.follow
  split
  · exact absurd rfl hc
  · rw [if_neg (by rw [hw]; exact nofun)]
  · rw [hw]
  · rfl

theorem settledWp_call_idle {c : CoordCall} (hc : c ≠ .accept) (hseen : SeenOk s w)
    (hidle : w.stage = .idle) :
    SettledWp (Code.call c) s w fun s' _ w' => s' = s ∧ w' = w := by
  refine (settledWp_call hseen).mono ?_
  rintro _ r _ ⟨rfl, rfl, -⟩
  exact ⟨rfl, Launches.follow_idle hidle hc r⟩

theorem keepsSettled_call {c : CoordCall} (hc : c ≠ .accept) : KeepsSettled (Code.call c) := by
  intro s w h
  refine (settledWp_call_idle hc h.seen h.idle).mono ?_
  rintro _ _ _ ⟨rfl, rfl⟩
  exact h

/-- **Removal.** -/
theorem keepsSettled_listRemove (p : Nat) : KeepsSettled (listRemove p) := by
  intro s w h
  refine Wp.bind (M := fun s' a w' => s' = s ∧ w' = w ∧ s.proc p = some a)
    (wp_listProc (fun _ => h.seen) fun a ha => ⟨rfl, rfl, ha⟩) ?_
  rintro s a w ⟨rfl, rfl, ha⟩
  have close : ∀ fd, SettledWp (closeIfOpen fd) (s.drop p) w fun s' _ w' =>
      s' = s.drop p ∧ w' = w := by
    refine fun fd => Wp.ite (fun _ => ?_) fun _ => Wp.pure ⟨rfl, rfl⟩
    refine (settledWp_call (s := s.drop p) (c := .close fd) h.seen).mono ?_
    rintro _ _ _ ⟨rfl, rfl, -⟩
    exact ⟨rfl, rfl⟩
  refine Wp.modify_bind ((close a.fd).bind ?_)
  rintro _ _ _ ⟨rfl, rfl⟩
  refine (close a.oobFd).bind ?_
  rintro _ _ _ ⟨rfl, rfl⟩
  exact Wp.modify ⟨h.sources.remove ha, h.seen, h.idle⟩

theorem upkeep_settled : Upkeep launchWorld SeenOk (fun s _ w => SeenOk s w) Settled where
  stop _ _ _ h _ := h.seen
  call c hc := keepsSettled_call (by rintro rfl; cases hc)
  remove := keepsSettled_listRemove
  state _ _ := Keeps.modify fun _ _ h =>
    ⟨h.sources.setProc fun _ => ⟨rfl, rfl⟩, h.seen, h.idle⟩

/-- A round registers nobody. -/
theorem keepsSettled_coordDoCheckpoint (fuel : Nat) : KeepsSettled (coordDoCheckpoint fuel) := by
  refine upkeep_settled.coordDoCheckpoint (fun c hc => keepsSettled_call hc) ?_ ?_ ?_ fuel
  · exact Keeps.modify fun s _ h => ⟨h.sources.congr rfl rfl rfl, h.seen, h.idle⟩
  · exact Keeps.modify fun s _ h => ⟨h.sources.mapProcs fun _ => ⟨rfl, rfl, rfl⟩, h.seen, h.idle⟩
  · exact Keeps.modify fun s _ h => ⟨h.sources.congr rfl rfl rfl, h.seen, h.idle⟩

/-! ### Registration -/

theorem settledWp_coordNextVirtPid (h : SeenOk s w) :
    SettledWp coordNextVirtPid s w fun s' v w' => w' = w ∧
      s' = { s with nextVirtPid := wrap32 (s.nextVirtPid + 1) } ∧ v = s.nextVirtPid ∧
        s.table.virtualIdExists v ≠ true := by
  refine Wp.get_bind (Wp.modify_bind (Wp.get_bind (Wp.ite (fun _ => Wp.halt h) fun hnew => ?_)))
  exact Wp.pure ⟨rfl, rfl, rfl, hnew⟩

theorem settledWp_coordNextXndPid :
    SettledWp coordNextXndPid s w fun s' _ w' =>
      w' = w ∧ s' = { s with nextXndPid := (s.nextXndPid + 1) % 2 ^ 32 } :=
  Wp.get_bind (Wp.modify_bind (Wp.pure ⟨rfl, rfl⟩))

/-- What is outside when the handshake has been sent. -/
def Launches.due (w : Launches) : List Int :=
  match w.stage with
  | .entering real => real :: w.outside
  | _ => w.outside

/-- After the handshake nothing is entering. -/
theorem Launches.follow_sent (hstage : w.stage ≠ .accepted) (fd : Int) (msg : XndMsg) :
    (w.follow s (.send fd msg) true).outside = w.due ∧
      (w.follow s (.send fd msg) true).seen = w.seen ∧
      (w.follow s (.send fd msg) true).stage = .idle := by
  obtain ⟨outside, seen, stage⟩ := w
  cases stage with
  | idle => exact ⟨rfl, rfl, rfl⟩
  | accepted => exact absurd rfl hstage
  | entering real => exact ⟨rfl, rfl, rfl⟩

theorem settledWp_coordSendHandshake (a : Proc) (hseen : SeenOk s w) (hstage : w.stage ≠ .accepted) :
    SettledWp (coordSendHandshake a) s w fun s' _ w' => s' = s ∧ w'.outside = w.due ∧
      SeenOk s w' ∧ w'.stage = .idle := by
  refine Wp.get_bind ((settledWp_call (c := .send a.fd _) hseen).bind ?_)
  rintro s (sent : Bool) _ ⟨rfl, rfl, -⟩
  cases sent with
  | true =>
      obtain ⟨hout, hlog, hidle⟩ := Launches.follow_sent (s := s) hstage a.fd _
      refine Wp.pure ⟨rfl, hout, ?_, hidle⟩
      rw [SeenOk, hlog]
      exact hseen
  | false =>
      refine Wp.halt ?_
      obtain ⟨outside, seen, stage⟩ := w
      cases stage with
      | idle => exact hseen
      | accepted => exact absurd rfl hstage
      | entering real => exact hseen

/-- A new process. -/
theorem settledWp_registerProc {a : Proc} (h : Enters s w.outside w.due a) (hseen : SeenOk s w)
    (hstage : w.stage ≠ .accepted) :
    SettledWp (registerProc a) s w fun s' _ w' => Settled s' w' := by
  refine (settledWp_coordSendHandshake a hseen hstage).bind ?_
  rintro _ _ w' ⟨rfl, hout, hseen, hidle⟩
  exact Wp.modify_bind (Wp.modify ⟨hout ▸ h.register, hseen, hidle⟩)

/-- The ids of a launch; a parent that the list does not have is one that the table does
not have. -/
theorem settledWp_launchIds (h : Sources s w.outside) (hseen : SeenOk s w) (fd : Int)
    {msg : XndMsg} (hnew : s.table.realIdExists msg.realPid ≠ true)
    (hstage : w.stage = if Listed s msg.realPid ∨ Listed s msg.realPpid then .idle
      else .entering msg.realPpid) :
    SettledWp (launchIds fd msg) s w fun s' a w' => w' = w ∧ Enters s' w.outside w.due a := by
  have hown : ¬Listed s msg.realPid := fun hl => hnew ((h.realIdExists_iff _).mpr (.inl hl))
  refine Wp.get_bind (Wp.ite (fun hparent => ?_) fun hparent => ?_)
  · cases hf : s.find (·.realPid = msg.realPpid) with
    | none => exact Wp.halt hseen
    | some n =>
        obtain ⟨hn, hreal⟩ := CoordInfo.mem_procs_of_find hf
        have hreal : n.2.realPid = msg.realPpid := by simpa using hreal
        have hdue : w.due = w.outside := by
          rw [Launches.due, hstage, if_pos (.inr ⟨n, hn, hreal⟩)]
        refine (settledWp_coordNextVirtPid hseen).bind ?_
        rintro _ virt w ⟨rfl, rfl, -, hvirt⟩
        refine settledWp_coordNextXndPid.bind ?_
        rintro _ _ w ⟨rfl, rfl⟩
        exact Wp.pure ⟨rfl, h.congr rfl rfl rfl, hvirt, (h.virtPid_ne hvirt hn).symm,
          .inl ⟨hdue, n, hn, rfl, hreal⟩⟩
  · have hppid : ¬Listed s msg.realPpid := fun hl => hparent ((h.realIdExists_iff _).mpr (.inl hl))
    have hdue : w.due = msg.realPpid :: w.outside := by
      rw [Launches.due, hstage, if_neg (not_or.mpr ⟨hown, hppid⟩)]
    refine (settledWp_coordNextVirtPid hseen).bind ?_
    rintro _ virtPpid w ⟨rfl, rfl, rfl, hvirtPpid⟩
    refine (settledWp_coordNextVirtPid (s := { s with nextVirtPid := wrap32 (s.nextVirtPid + 1) })
      hseen).bind ?_
    rintro _ virtPid w ⟨rfl, rfl, rfl, hvirtPid⟩
    refine settledWp_coordNextXndPid.bind ?_
    rintro _ _ w ⟨rfl, rfl⟩
    refine settledWp_coordNextXndPid.bind ?_
    rintro _ _ w ⟨rfl, rfl⟩
    exact Wp.pure ⟨rfl, h.congr rfl rfl rfl, hvirtPid, wrap32_succ_ne _, .inr ⟨hdue, hvirtPpid⟩⟩

/-- A launch message. -/
theorem settledWp_coordConnectWithProcessOnLaunch (h : Sources s w.outside) (hseen : SeenOk s w)
    (fd : Int) {msg : XndMsg}
    (hstage : w.stage = if Listed s msg.realPid ∨ Listed s msg.realPpid then .idle
      else .entering msg.realPpid) :
    SettledWp (coordConnectWithProcessOnLaunch fd msg) s w fun s' _ w' => Settled s' w' := by
  have hne : w.stage ≠ .accepted := by
    rw [hstage]
    split
    · exact nofun
    · exact nofun
  refine Wp.get_bind (Wp.ite (fun _ => ?_) fun hnew => ?_)
  · cases hf : s.find (·.realPid = msg.realPid) with
    | none => exact Wp.halt hseen
    | some n =>
        obtain ⟨hn, hreal⟩ := CoordInfo.mem_procs_of_find hf
        have hidle : w.stage = .idle := by
          rw [hstage, if_pos (.inl ⟨n, hn, by simpa using hreal⟩)]
        have hdue : w.due = w.outside := by rw [Launches.due, hidle]
        refine (settledWp_call (c := .close n.2.fd) hseen).bind ?_
        rintro s _ w ⟨rfl, rfl, -⟩
        have hset := h.setProc (p := n.1) (f := fun a => { a with fd := fd }) fun _ => ⟨rfl, rfl⟩
        refine Wp.modify_bind ((settledWp_coordSendHandshake
          (s := s.setProc n.1 fun a => { a with fd := fd }) _ hseen hne).mono ?_)
        rintro _ _ w' ⟨rfl, hout, hseen, hidle⟩
        rw [hdue] at hout
        exact ⟨hout ▸ hset, hseen, hidle⟩
  · refine Wp.bind (M := fun s' _ w' => s' = s ∧ w' = w) (Wp.ite (fun _ => Wp.pure ⟨rfl, rfl⟩)
      fun _ => Wp.halt hseen) ?_
    rintro _ _ w ⟨rfl, rfl⟩
    refine (settledWp_launchIds h hseen fd hnew hstage).bind ?_
    rintro s' a _ ⟨rfl, ha⟩
    exact settledWp_registerProc ha hseen hne

/-- A fork; the parent is listed. -/
theorem settledWp_coordAtfork (h : Settled s w) (fd : Int) (msg : XndMsg) :
    SettledWp (coordAtfork fd msg) s w fun s' _ w' => Settled s' w' := by
  refine (settledWp_coordNextVirtPid h.seen).bind ?_
  rintro _ virt w ⟨rfl, rfl, -, hvirt⟩
  refine settledWp_coordNextXndPid.bind ?_
  rintro s₁ _ w ⟨rfl, hs₁⟩
  have hsources : Sources s₁ w.outside := h.sources.congr (by rw [hs₁]) (by rw [hs₁]) (by rw [hs₁])
  have htable : s₁.table = s.table := by rw [hs₁]
  rw [← htable] at hvirt
  refine (settledWp_call_idle (s := s₁) (c := .send fd _) nofun h.seen h.idle).bind ?_
  rintro s₁ (sent : Bool) w ⟨rfl, rfl⟩
  refine Wp.ite (fun _ => Wp.get_bind ?_) fun _ => Wp.halt h.seen
  cases hf : s₁.find (·.virtPid = msg.virtPpid) with
  | none => exact Wp.halt h.seen
  | some n =>
      obtain ⟨hn, hparent⟩ := CoordInfo.mem_procs_of_find hf
      have hparent : n.2.virtPid = msg.virtPpid := by simpa using hparent
      refine (settledWp_call_idle (s := s₁) (c := .recv fd) nofun h.seen h.idle).bind ?_
      rintro s₁ (childMsg : Option XndMsg) w ⟨rfl, rfl⟩
      cases childMsg with
      | none => exact Wp.halt h.seen
      | some childMsg =>
          refine Wp.bind (M := fun s' _ w' => s' = s₁ ∧ w' = w) (Wp.ite (fun _ => Wp.pure ⟨rfl, rfl⟩)
            fun _ => Wp.halt h.seen) ?_
          rintro s₁ _ w ⟨rfl, rfl⟩
          refine Wp.bind (M := fun s' _ w' => s' = s₁ ∧ w' = w ∧ childMsg.realPpid = n.2.realPid)
            (Wp.ite (fun he => Wp.pure ⟨rfl, rfl, he⟩) fun _ => Wp.halt h.seen) ?_
          rintro s₁ _ w ⟨rfl, rfl, hreal⟩
          have hdue : w.due = w.outside := by rw [Launches.due, h.idle]
          refine settledWp_registerProc ⟨hsources, hvirt, ?_, .inl ⟨hdue, n, hn, hparent, hreal.symm⟩⟩
            h.seen (by rw [h.idle]; exact nofun)
          show virt ≠ msg.virtPpid
          rw [← hparent]
          exact (hsources.virtPid_ne hvirt hn).symm

end Steps

/-- The first message of a connection. -/
theorem Launches.follow_first (s : CoordInfo) (w : Launches) (fd : Int) (msg : XndMsg) :
    Launches.follow s { w with stage := .accepted } (.recv fd) (some msg) =
      if msg.hdr = .connectLaunch then w.launch s msg else { w with stage := .idle } := by
  rfl

/-- A launch message is handled in a settled state. -/
theorem SeenOk.launch {s : CoordInfo} {w : Launches} (h : Sources s w.outside) (hseen : SeenOk s w)
    (msg : XndMsg) : SeenOk s (w.launch s msg) := by
  rintro l hl
  rcases List.mem_cons.mp hl with rfl | hl
  · exact h.finds_iff msg
  · exact hseen l hl

theorem keepsSettled_coordWaitForConnection (fuel : Nat) :
    KeepsSettled (coordWaitForConnection fuel) := by
  refine Keeps.bind Keeps.get fun s => Keeps.bind (keepsSettled_call nofun) fun ready => ?_
  match ready with
  | none => exact Keeps.pure ()
  | some [] => exact Keeps.pure ()
  | some (_ :: _) =>
      intro s w h
      refine (settledWp_call (c := .accept) h.seen).bind ?_
      rintro s (fd : Option Int) _ ⟨rfl, rfl, -⟩
      cases fd with
      | none => exact Wp.pure h
      | some fd =>
          have hseen : SeenOk s { w with stage := .accepted } := h.seen
          refine (settledWp_call (c := .recv fd) hseen).bind ?_
          rintro s (msg : Option XndMsg) _ ⟨rfl, rfl, hok⟩
          cases msg with
          | none => exact Wp.halt h.seen
          | some msg =>
              have hrestart : msg.hdr ≠ .connectRestart := hok (fd, msg) rfl
              by_cases hlaunch : msg.hdr = .connectLaunch
              · rw [Launches.follow_first, if_pos hlaunch]
                show SettledWp (coordHandleConnection fuel fd msg) s (w.launch s msg) _
                simp only [coordHandleConnection, hlaunch]
                exact settledWp_coordConnectWithProcessOnLaunch (w := w.launch s msg) h.sources
                  (h.seen.launch h.sources msg) fd rfl
              · rw [Launches.follow_first, if_neg hlaunch]
                have h : Settled s { w with stage := .idle } := ⟨h.sources, h.seen, rfl⟩
                show SettledWp (coordHandleConnection fuel fd msg) s _ _
                by_cases hfork : msg.hdr = .atforkPrepare
                · simp only [coordHandleConnection, hfork]
                  exact settledWp_coordAtfork h fd msg
                · exact upkeep_settled.toTurns.coordHandleConnection (fun _ _ => keepsSettled_coordDoCheckpoint fuel)
                    (fun p fd => Keeps.modify fun _ _ h =>
                      ⟨h.sources.setProc fun _ => ⟨rfl, rfl⟩, h.seen, h.idle⟩)
                    ⟨hlaunch, hrestart, hfork⟩ s _ h

/-! ## Runs -/

/-- A second process of the parent 100. -/
def siblingEvents : Trace :=
  [⟨.select [4], some [4]⟩, ⟨.accept, some 6⟩,
    ⟨.recv 6, some { hdr := .connectLaunch, realPid := 102, realPpid := 100 }⟩]

end Xnd.Coord
