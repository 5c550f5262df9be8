import Mathlib.Logic.Function.Basic
import Xnd.Coord.Upkeep
import Xnd.Coord.Frame
import Xnd.Coord.Ids
import Xnd.Lib.Env

/-!
# Who is removed from the list

The coordinator removes a process when it reads the end of one of its two
descriptors, when a message says that a pid has exited, and when a probe finds
nobody under its pid.  Each of these speaks of a descriptor or a pid, and the
processes behind them change: a process dies and its pid is given out again, or it
executes another image, which closes the descriptors of the old one and registers
with the same pid.

`Os` has the processes as the operating system knows them, each with its own number,
and which one is behind a descriptor of the coordinator.  The process registered in
a node is the one behind its descriptor.  `Registry` is the invariant: that process
has the pid of the node and is behind both descriptors, and one that was registered
in a node and stands, neither dead nor having announced its exit, still is
(`NoneDropped`).
-/
namespace Xnd.Coord
open Code

/-! ## Processes -/

/-- A process of the operating system. -/
structure OsProc where
  pid : Int
  alive : Bool
  /-- It has sent `XND_EXIT` about itself. -/
  announced : Bool
  deriving DecidableEq, Repr

/-- The processes by their numbers, and the far ends of the coordinator's descriptors. -/
structure Os where
  procs : List OsProc
  /-- The process behind a descriptor. -/
  conn : Int → Nat
  /-- It has executed another image, which has closed the far end. -/
  closed : Int → Bool
  /-- The processes that have been registered, with their nodes. -/
  known : List (Nat × Nat)

/-- Steps of processes. -/
inductive OsMove where
  | born (pid : Int)
  | die (i : Nat)
  | exec (fd : Int)
  deriving DecidableEq, Repr

/-- No listed process has the descriptor. -/
def Unlisted (s : CoordInfo) (fd : Int) : Prop := ∀ n ∈ s.procs, n.2.fd ≠ fd ∧ n.2.oobFd ≠ fd

instance (s : CoordInfo) (fd : Int) : Decidable (Unlisted s fd) :=
  inferInstanceAs (Decidable (∀ n ∈ s.procs, _ ∧ _))

namespace Os
variable (w : Os)

/-- The process is alive and has not announced its exit. -/
def stands (i : Nat) : Bool := (w.procs[i]?).any fun o => o.alive && !o.announced

def pidOf (i : Nat) : Option Int := (w.procs[i]?).map (·.pid)

/-- Some process that is alive has the pid. -/
def taken (pid : Int) : Bool := w.procs.any fun o => o.alive && o.pid = pid

def update (i : Nat) (f : OsProc → OsProc) : Os := { w with procs := w.procs.modify i f }

/-- A process that is behind a new descriptor. -/
def connect (fd : Int) (i : Nat) : Os :=
  { w with conn := Function.update w.conn fd i, closed := Function.update w.closed fd false }

/-- What a message that has arrived says of the process behind the descriptor. -/
def heard (s : CoordInfo) (fd : Int) (msg : XndMsg) : List Os :=
  match msg.hdr with
  | .connectLaunch | .connectRestart =>
      if Unlisted s fd ∧ w.pidOf (w.conn fd) = some msg.realPid then [w] else []
  | .atforkChild =>
      -- The parent has opened the connection, the child is behind it from now on.
      if Unlisted s fd then
        ((List.range w.procs.length).filter fun i => w.pidOf i = some msg.realPid).map (w.connect fd)
      else []
  | .exit =>
      -- A process says that it exits, or that a child that it has reaped has.
      if w.pidOf (w.conn fd) = some msg.realPid then
        [w.update (w.conn fd) fun o => { o with announced := true }]
      else if ∃ o ∈ w.procs, o.alive = false ∧ o.pid = msg.realPid then [w] else []
  | _ => [w]

def react (s : CoordInfo) : (c : CoordCall) → c.Answer → List Os
  | .accept, some fd =>
      if Unlisted s fd then (List.range w.procs.length).map (w.connect fd) else []
  | .recv fd, none => if w.stands (w.conn fd) = false ∨ w.closed fd = true then [w] else []
  | .recv fd, some msg => w.heard s fd msg
  | .probe pid, true => if w.taken pid = false then [w] else []
  | _, _ => [w]

/-- The registered processes are remembered. -/
def note (s : CoordInfo) : Os :=
  { w with known := s.procs.map (fun n => (n.1, w.conn n.2.fd)) ++ w.known }

/-- The environment of the coordinator. -/
def env : Env CoordCall.Answer CoordInfo OsMove Os where
  respond s w c r := (w.react s c r).map fun w => w.note s
  move
    | .born pid, w =>
        if w.taken pid = false then some { w with procs := w.procs ++ [⟨pid, true, false⟩] } else none
    | .die i, w => some (w.update i fun o => { o with alive := false })
    | .exec fd, w =>
        if w.stands (w.conn fd) = true then
          some { w with closed := Function.update w.closed fd true }
        else none

def init : Os := ⟨[], fun _ => 0, fun _ => false, []⟩

end Os

/-- The descriptor whose end is read. -/
def CoordCall.ended : (c : CoordCall) → c.Answer → Option Int
  | .recv fd, none => some fd
  | _, _ => none

/-- **The condition** on a message that arrives.  The node that a launched process is
found in by its pid is its own, or the one of a process that is gone and has no
out-of-band connection; of the processes with a pid that has exited only the sender
may stand; and the first message of an out-of-band connection names its sender. -/
def Identified (s : CoordInfo) (w : Os) (fd : Int) (msg : XndMsg) : Prop :=
  (msg.hdr = .connectLaunch → ∀ n ∈ s.find (·.realPid = msg.realPid),
    w.conn n.2.fd = w.conn fd ∨ w.stands (w.conn n.2.fd) = false ∧ n.2.oobFd = -1) ∧
  (msg.hdr = .exit → ∀ i < w.procs.length, w.stands i = true → w.pidOf i = some msg.realPid →
    i = w.conn fd) ∧
  (Unlisted s fd → msg.hdr = .virtToReal ∨ msg.hdr = .realToVirt →
    ∀ n ∈ s.find (·.xndPid = msg.xndPid), w.conn n.2.fd = w.conn fd)

instance (s : CoordInfo) (w : Os) (fd : Int) (msg : XndMsg) : Decidable (Identified s w fd msg) :=
  inferInstanceAs (Decidable (_ ∧ _ ∧ _))

/-- **The condition** on what arrives: besides, the end of a descriptor that another image
of the process has closed is not read as long as the process stands. -/
def AllIdentified (s : CoordInfo) (w : Os) (c : CoordCall) (r : c.Answer) : Prop :=
  (∀ m ∈ c.received r, Identified s w m.1 m.2) ∧
  ∀ fd ∈ c.ended r, w.closed fd = true → w.stands (w.conn fd) = false

instance (s : CoordInfo) (w : Os) (c : CoordCall) (r : c.Answer) :
    Decidable (AllIdentified s w c r) :=
  inferInstanceAs (Decidable (_ ∧ ∀ fd ∈ c.ended r, _))

/-- **Nobody is dropped**: a process that was registered in a node and stands is. -/
def NoneDropped (s : CoordInfo) (w : Os) : Prop :=
  ∀ k ∈ w.known, w.stands k.2 = true → ∃ n ∈ s.procs, n.1 = k.1 ∧ w.conn n.2.fd = k.2

instance (s : CoordInfo) (w : Os) : Decidable (NoneDropped s w) :=
  inferInstanceAs (Decidable (∀ k ∈ w.known, _ → ∃ n ∈ s.procs, _))

/-! ## The invariant -/

/-- **The invariant of registered processes.** -/
structure Registry (s : CoordInfo) (w : Os) : Prop where
  ok : ListOk s
  pid : ∀ n ∈ s.procs, w.pidOf (w.conn n.2.fd) = some n.2.realPid
  oob : ∀ n ∈ s.procs, n.2.oobFd ≠ -1 → w.conn n.2.oobFd = w.conn n.2.fd
  born : ∀ k ∈ w.known, (w.pidOf k.2).isSome = true
  kept : NoneDropped s w

/-- What answers and moves do, as far as listed processes are concerned. -/
structure Evolves (s : CoordInfo) (w w' : Os) : Prop where
  pid : ∀ i x, w.pidOf i = some x → w'.pidOf i = some x
  stands : ∀ i, (w.pidOf i).isSome = true → w'.stands i = true → w.stands i = true
  conn : ∀ n ∈ s.procs, w'.conn n.2.fd = w.conn n.2.fd ∧ w'.conn n.2.oobFd = w.conn n.2.oobFd
  known : ∀ k ∈ w'.known, k ∈ w.known ∨ ∃ n ∈ s.procs, k = (n.1, w.conn n.2.fd)

namespace Evolves
variable {s : CoordInfo} {w w' w'' : Os}

theorem refl (s : CoordInfo) (w : Os) : Evolves s w w :=
  ⟨fun _ _ h => h, fun _ _ h => h, fun _ _ => ⟨rfl, rfl⟩, fun _ h => .inl h⟩

theorem gone (h : Evolves s w w') {i : Nat} {x : Int} (hp : w.pidOf i = some x)
    (hi : w.stands i = false) : w'.stands i = false := by
  by_contra hs
  have hstands := h.stands i (by rw [hp]; rfl) ((Bool.not_eq_false _).mp hs)
  rw [hi] at hstands
  cases hstands

end Evolves

namespace Os
variable {s : CoordInfo} {w w' : Os}

/-- A process that dies or announces its exit. -/
theorem evolves_update (s : CoordInfo) (w : Os) (i : Nat) {f : OsProc → OsProc}
    (hf : ∀ o, (f o).pid = o.pid ∧ ((f o).alive && !(f o).announced → o.alive && !o.announced)) :
    Evolves s w (w.update i f) := by
  have hget : ∀ j, (w.update i f).procs[j]? =
      (w.procs[j]?).map fun o => if i = j then f o else o := by
    intro j
    show (w.procs.modify i f)[j]? = _
    rw [List.getElem?_modify]
    split
    · rfl
    · simp
  refine ⟨fun j x h => ?_, fun j _ h => ?_, fun _ _ => ⟨rfl, rfl⟩, fun _ h => .inl h⟩
  · obtain ⟨o, ho, rfl⟩ := Option.map_eq_some_iff.mp h
    rw [pidOf, hget, ho]
    simp only [Option.map_some]
    split
    · rw [(hf o).1]
    · rfl
  · rw [stands, hget] at h
    cases ho : w.procs[j]? with
    | none => rw [ho] at h; cases h
    | some o =>
        rw [ho] at h
        rw [stands, ho]
        simp only [Option.map_some, Option.any_some] at h ⊢
        split at h
        · exact (hf o).2 h
        · exact h

theorem stands_announce (w : Os) (i : Nat) :
    (w.update i fun o => { o with announced := true }).stands i = false := by
  show ((w.procs.modify i _)[i]?).any _ = false
  rw [List.getElem?_modify]
  cases w.procs[i]? with
  | none => rfl
  | some o => simp

theorem evolves_connect {fd : Int} (h : Unlisted s fd) (w : Os) (i : Nat) :
    Evolves s w (w.connect fd i) := by
  refine ⟨fun _ _ h => h, fun _ _ h => h, fun n hn => ⟨?_, ?_⟩, fun _ h => .inl h⟩
  · exact Function.update_of_ne (h n hn).1 _ _
  · exact Function.update_of_ne (h n hn).2 _ _

theorem evolves_heard {fd : Int} {msg : XndMsg} (h : w' ∈ w.heard s fd msg) : Evolves s w w' := by
  unfold heard at h
  split at h
  · rw [List.mem_singleton.mp (List.mem_ite_nil_right.mp h).2]
    exact .refl s w
  · rw [List.mem_singleton.mp (List.mem_ite_nil_right.mp h).2]
    exact .refl s w
  · obtain ⟨hfree, h⟩ := List.mem_ite_nil_right.mp h
    obtain ⟨i, -, rfl⟩ := List.mem_map.mp h
    exact evolves_connect hfree w i
  · split at h
    · rw [List.mem_singleton.mp h]
      exact evolves_update s w _ fun o => ⟨rfl, by simp⟩
    · rw [List.mem_singleton.mp (List.mem_ite_nil_right.mp h).2]
      exact .refl s w
  · rw [List.mem_singleton.mp h]
    exact .refl s w

theorem evolves_react {c : CoordCall} {r : c.Answer} (h : w' ∈ w.react s c r) :
    Evolves s w w' := by
  unfold react at h
  split at h
  · obtain ⟨hfree, h⟩ := List.mem_ite_nil_right.mp h
    obtain ⟨i, -, rfl⟩ := List.mem_map.mp h
    exact evolves_connect hfree w i
  · rw [List.mem_singleton.mp (List.mem_ite_nil_right.mp h).2]
    exact .refl s w
  · exact evolves_heard h
  · rw [List.mem_singleton.mp (List.mem_ite_nil_right.mp h).2]
    exact .refl s w
  · rw [List.mem_singleton.mp h]
    exact .refl s w

theorem evolves_move {m : OsMove} (h : env.move m w = some w') : Evolves s w w' := by
  cases m with
  | born pid =>
      obtain ⟨-, h⟩ := Option.ite_none_right_eq_some.mp h
      obtain rfl := Option.some.inj h
      refine ⟨fun i x h => ?_, fun i hi h => ?_, fun _ _ => ⟨rfl, rfl⟩, fun _ h => .inl h⟩
      · obtain ⟨o, ho, rfl⟩ := Option.map_eq_some_iff.mp h
        have hlt := (List.getElem?_eq_some_iff.mp ho).1
        rw [pidOf, List.getElem?_append_left hlt, ho]
        rfl
      · obtain ⟨x, hx⟩ := Option.isSome_iff_exists.mp hi
        obtain ⟨o, ho, -⟩ := Option.map_eq_some_iff.mp hx
        have hlt := (List.getElem?_eq_some_iff.mp ho).1
        rw [stands, List.getElem?_append_left hlt] at h
        exact h
  | die i =>
      obtain rfl := Option.some.inj h
      exact evolves_update s w i fun o => ⟨rfl, by simp⟩
  | exec fd =>
      obtain ⟨-, h⟩ := Option.ite_none_right_eq_some.mp h
      obtain rfl := Option.some.inj h
      exact ⟨fun _ _ h => h, fun _ _ h => h, fun _ _ => ⟨rfl, rfl⟩, fun _ h => .inl h⟩

theorem conn_move {m : OsMove} (h : env.move m w = some w') : w'.conn = w.conn := by
  cases m with
  | born pid =>
      obtain rfl := Option.some.inj (Option.ite_none_right_eq_some.mp h).2
      rfl
  | die i =>
      obtain rfl := Option.some.inj h
      rfl
  | exec fd =>
      obtain rfl := Option.some.inj (Option.ite_none_right_eq_some.mp h).2
      rfl

end Os

namespace Registry
variable {s s' : CoordInfo} {w w' : Os}

theorem congr (h : Registry s w) (hp : s'.procs = s.procs) (hb : s'.brk = s.brk) :
    Registry s' w where
  ok := h.ok.congr hp hb
  pid := by rw [hp]; exact h.pid
  oob := by rw [hp]; exact h.oob
  born := h.born
  kept := by unfold NoneDropped; rw [hp]; exact h.kept

theorem evolve (h : Registry s w) (he : Evolves s w w') : Registry s w' where
  ok := h.ok
  pid n hn := by
    rw [(he.conn n hn).1]
    exact he.pid _ _ (h.pid n hn)
  oob n hn ho := by
    rw [(he.conn n hn).1, (he.conn n hn).2]
    exact h.oob n hn ho
  born k hk := by
    rcases he.known k hk with hk | ⟨n, hn, rfl⟩
    · obtain ⟨x, hx⟩ := Option.isSome_iff_exists.mp (h.born k hk)
      rw [he.pid _ _ hx]
      rfl
    · rw [he.pid _ _ (h.pid n hn)]
      rfl
  kept k hk hs := by
    rcases he.known k hk with hk | ⟨n, hn, rfl⟩
    · obtain ⟨n, hn, hp, hc⟩ := h.kept k hk (he.stands _ (h.born k hk) hs)
      exact ⟨n, hn, hp, (he.conn n hn).1.trans hc⟩
    · exact ⟨n, hn, rfl, (he.conn n hn).1⟩

/-- What is listed may be noted. -/
theorem note (h : Registry s w) : Registry s (w.note s) := by
  refine h.evolve ⟨fun _ _ h => h, fun _ _ h => h, fun _ _ => ⟨rfl, rfl⟩, fun k hk => ?_⟩
  rcases List.mem_append.mp hk with hk | hk
  · obtain ⟨n, hn, rfl⟩ := List.mem_map.mp hk
    exact .inr ⟨n, hn, rfl⟩
  · exact .inl hk

theorem move (h : Registry s w) {m : OsMove} (hm : Os.env.move m w = some w') : Registry s w' :=
  h.evolve (Os.evolves_move hm)

theorem mapProcs (h : Registry s w) {g : Nat × Proc → Nat × Proc}
    (hg : ∀ n, (g n).1 = n.1 ∧ (g n).2.fd = n.2.fd ∧ (g n).2.realPid = n.2.realPid)
    (hoob : ∀ n ∈ s.procs, (g n).2.oobFd ≠ -1 → w.conn (g n).2.oobFd = w.conn n.2.fd) :
    Registry { s with procs := s.procs.map g } w where
  ok := h.ok.mapProcs fun n => ⟨(hg n).1, (hg n).2.1⟩
  pid n hn := by
    obtain ⟨m, hm, rfl⟩ := List.mem_map.mp hn
    rw [(hg m).2.1, (hg m).2.2]
    exact h.pid m hm
  oob n hn ho := by
    obtain ⟨m, hm, rfl⟩ := List.mem_map.mp hn
    rw [(hg m).2.1]
    exact hoob m hm ho
  born := h.born
  kept k hk hs := by
    obtain ⟨n, hn, hp, hc⟩ := h.kept k hk hs
    exact ⟨g n, List.mem_map_of_mem hn, (hg n).1.trans hp, by rw [(hg n).2.1]; exact hc⟩

theorem setState (h : Registry s w) (p : Nat) (st : ProcState) :
    Registry (s.setProc p fun a => { a with state := st }) w := by
  refine h.mapProcs (fun n => ?_) fun n hn ho => ?_
  · split
    · exact ⟨rfl, rfl, rfl⟩
    · exact ⟨rfl, rfl, rfl⟩
  · split at ho
    · rw [if_pos ‹_›]
      exact h.oob n hn ho
    · rw [if_neg ‹_›]
      exact h.oob n hn ho

/-- A process that does not stand is unlinked. -/
theorem drop (h : Registry s w) {p : Nat}
    (hgone : ∀ a, s.proc p = some a → w.stands (w.conn a.fd) = false) : Registry (s.drop p) w where
  ok := h.ok.sublist List.filter_sublist rfl
  pid n hn := h.pid n (List.mem_filter.mp hn).1
  oob n hn := h.oob n (List.mem_filter.mp hn).1
  born := h.born
  kept k hk hs := by
    obtain ⟨n, hn, hp, hc⟩ := h.kept k hk hs
    refine ⟨n, List.mem_filter.mpr ⟨hn, ?_⟩, hp, hc⟩
    rw [decide_eq_true_eq]
    rintro rfl
    obtain ⟨as, rest, hsplit⟩ := List.append_of_mem hn
    have hstands := hgone n.2 (h.ok.proc_eq hsplit)
    rw [hc, hs] at hstands
    cases hstands

end Registry

/-! ## The steps -/

abbrev osWorld : World CoordCall.Answer CoordInfo Os := Os.env.world AllIdentified

abbrev RegistryWp {α : Type} (m : InfoM α) (s : CoordInfo) (w : Os)
    (fin : CoordInfo → α → Os → Prop) : Prop :=
  Wp osWorld Registry (fun s _ w => Registry s w) m s w fin

abbrev KeepsRegistry {α : Type} (m : InfoM α) : Prop :=
  Keeps (𝒲 := osWorld) Registry (fun s _ w => Registry s w) Registry m

section Calls
variable {s : CoordInfo} {w : Os}

/-- A call, with an assertion `P` that every move keeps. -/
theorem registryWp_call {c : CoordCall} {P : Os → Prop} {fin : CoordInfo → c.Answer → Os → Prop}
    (h : Registry s w) (hP : P w) (hmove : ∀ w m w', P w → Os.env.move m w = some w' → P w')
    (hk : ∀ w r v, P w → AllIdentified s w c r → v ∈ w.react s c r → Registry s (v.note s) →
      fin s r (v.note s)) : RegistryWp (Code.call c) s w fin := by
  refine Os.env.wp_call (fun w => Registry s w ∧ P w)
    (fun w m w' h hm => ⟨h.1.move hm, hmove w m w' h.2 hm⟩) ⟨h, hP⟩ (fun _ h => h.1) ?_
  rintro w r w' ⟨h, hP⟩ hok hw
  obtain ⟨v, hv, rfl⟩ := List.mem_map.mp hw
  exact hk w r v hP hok hv (h.evolve (Os.evolves_react hv)).note

theorem keepsRegistry_call (c : CoordCall) : KeepsRegistry (Code.call c) := fun _ _ h =>
  registryWp_call (P := fun _ => True) h trivial (fun _ _ _ _ _ => trivial)
    fun _ _ _ _ _ _ h => h

theorem calm_registry : Calm osWorld Registry (fun s _ w => Registry s w) Registry where
  stop _ _ _ h _ := h
  call c _ := keepsRegistry_call c

/-- A probe that finds nobody. -/
theorem registryWp_sysProbe (h : Registry s w) (pid : Int) :
    RegistryWp (sysProbe pid) s w fun s' gone w' => s' = s ∧ Registry s w' ∧
      (gone = true → ∀ i, w'.pidOf i = some pid → w'.stands i = false) := by
  refine registryWp_call (P := fun _ => True) h trivial (fun _ _ _ _ _ => trivial) ?_
  intro w r v _ _ hv h
  refine ⟨rfl, h, ?_⟩
  rintro rfl i hi
  obtain ⟨htaken, hv⟩ := List.mem_ite_nil_right.mp hv
  obtain rfl := List.mem_singleton.mp hv
  obtain ⟨o, ho, rfl⟩ := Option.map_eq_some_iff.mp hi
  have hfree := List.any_eq_false.mp htaken o (List.mem_of_getElem? ho)
  show (v.procs[i]?).any _ = false
  rw [show v.procs[i]? = some o from ho, Option.any_some]
  have halive : o.alive = false := by simpa using hfree
  rw [halive, Bool.false_and]

/-- The end of a descriptor. -/
theorem registryWp_coordRecvMsg (h : Registry s w) (fd : Int) :
    RegistryWp (coordRecvMsg fd) s w fun s' r w' => s' = s ∧ Registry s w' ∧
      (r = none → w'.stands (w'.conn fd) = false) ∧
      ∀ msg, r = some msg → msg.hdr = .exit → ∀ n ∈ s.procs, n.2.realPid = msg.realPid →
        w'.stands (w'.conn n.2.fd) = false := by
  refine registryWp_call (P := Registry s) h h (fun _ _ _ h hm => h.move hm) ?_
  rintro w r v h ⟨hmsg, hend⟩ hv hnote
  refine ⟨rfl, hnote, ?_, ?_⟩
  · rintro rfl
    obtain ⟨hgone, hv⟩ := List.mem_ite_nil_right.mp hv
    obtain rfl := List.mem_singleton.mp hv
    exact hgone.elim id fun hclosed => hend fd rfl hclosed
  · rintro msg rfl hexit n hn hpid
    have honly := (hmsg (fd, msg) rfl).2.1 hexit
    have hreg := hpid ▸ h.pid n hn
    have hlt : w.conn n.2.fd < w.procs.length := by
      obtain ⟨o, ho, -⟩ := Option.map_eq_some_iff.mp hreg
      exact (List.getElem?_eq_some_iff.mp ho).1
    have hevolves := Os.evolves_react hv
    show v.stands (v.conn n.2.fd) = false
    rw [(hevolves.conn n hn).1]
    by_cases hstands : w.stands (w.conn n.2.fd) = true
    · -- The process that stands under the pid is the sender, which exits.
      have hsender : w.conn n.2.fd = w.conn fd := honly _ hlt hstands hreg
      rw [hsender] at hreg
      replace hv : v ∈ w.heard s fd msg := hv
      simp only [Os.heard, hexit, if_pos hreg] at hv
      obtain rfl := List.mem_singleton.mp hv
      rw [hsender]
      exact w.stands_announce (w.conn fd)
    · exact hevolves.gone hreg ((Bool.not_eq_true _).mp hstands)

end Calls

/-- The process of a node is removed when it does not stand. -/
theorem registryWp_listRemove {s : CoordInfo} {w : Os} (h : Registry s w) {p : Nat}
    (hgone : ∀ a, s.proc p = some a → w.stands (w.conn a.fd) = false) :
    RegistryWp (listRemove p) s w fun s' _ w' => Registry s' w' := by
  have close : ∀ fd, KeepsRegistry (closeIfOpen fd) := fun fd =>
    Keeps.ite (fun _ => keepsRegistry_call _) fun _ => Keeps.pure ()
  refine Wp.bind (M := fun s' _ w' => s' = s ∧ w' = w)
    (wp_listProc (fun _ => h) fun _ _ => ⟨rfl, rfl⟩) ?_
  rintro s a w ⟨rfl, rfl⟩
  refine Wp.modify_bind ((close a.fd _ w (h.drop hgone)).bind fun s _ w h => ?_)
  exact (close a.oobFd s w h).bind fun s _ w h => Wp.modify (h.congr rfl rfl)

theorem registryWp_listProc {s : CoordInfo} {w : Os} (h : Registry s w) (p : Nat) :
    RegistryWp (listProc p) s w fun s' a w' => s' = s ∧ w' = w ∧ s.proc p = some a :=
  wp_listProc (fun _ => h) fun _ ha => ⟨rfl, rfl, ha⟩

/-- The process of a node is probed by its pid. -/
theorem registryWp_probeNode {s : CoordInfo} {w : Os} (h : Registry s w) {p : Nat} {pid : Int}
    (hpid : ∀ a, s.proc p = some a → a.realPid = pid) :
    RegistryWp (sysProbe pid) s w fun s' gone w' => Registry s' w' ∧
      (gone = true → ∀ a, s'.proc p = some a → w'.stands (w'.conn a.fd) = false) := by
  refine (registryWp_sysProbe h pid).mono ?_
  rintro s gone w ⟨rfl, h, hfree⟩
  refine ⟨h, fun hg a ha => hfree hg _ ?_⟩
  exact hpid a ha ▸ h.pid (p, a) (CoordInfo.mem_procs_of_proc ha)

theorem keepsRegistry_prepareTurn (p : Nat) (n : Nat × List Int) :
    KeepsRegistry (prepareTurn p n) := by
  intro s w h
  refine (registryWp_listProc h p).bind ?_
  rintro s a w ⟨rfl, rfl, ha⟩
  refine (registryWp_probeNode h fun b hb => by rw [Option.some.inj (hb.symm.trans ha)]).bind ?_
  rintro s gone w ⟨h, hgone⟩
  refine Wp.ite (fun hg => ?_) fun _ => Wp.pure h
  exact (registryWp_listRemove h (hgone hg)).bind fun _ _ _ h => Wp.pure h

theorem keepsRegistry_filterTurn (p : Nat) : KeepsRegistry (do
    let a ← listProc p
    let gone ← sysProbe a.realPid
    if gone then listRemove p else pure ()) := by
  intro s w h
  refine (registryWp_listProc h p).bind ?_
  rintro s a w ⟨rfl, rfl, ha⟩
  refine (registryWp_probeNode h fun b hb => by rw [Option.some.inj (hb.symm.trans ha)]).bind ?_
  rintro s gone w ⟨h, hgone⟩
  exact Wp.ite (fun hg => registryWp_listRemove h (hgone hg)) fun _ => Wp.pure h

theorem keepsRegistry_suspendTurn (p : Nat) (n : Nat × Nat) : KeepsRegistry (suspendTurn p n) := by
  intro s w h
  refine (registryWp_listProc h p).bind ?_
  rintro s a w ⟨rfl, rfl, ha⟩
  have ask : KeepsRegistry (requestReady p a) :=
    calm_registry.requestReady (fun p st _ => Keeps.modify fun _ _ h => h.setState p st) p a
  refine ((ask s w h).and_rets (rets_requestReady ha)).bind ?_
  rintro s ready w ⟨h, hpid⟩
  refine (registryWp_probeNode h hpid).bind ?_
  rintro s gone w ⟨h, hgone⟩
  refine Wp.ite (fun hg => ?_) fun _ => Wp.pure h
  exact (registryWp_listRemove h (hgone hg)).bind fun _ _ _ h => Wp.pure h

/-! ### Messages -/

/-- A message of a listed process or of an out-of-band connection. -/
theorem registryWp_coordHandleMsg {s : CoordInfo} {w : Os} (h : Registry s w) (fd : Int)
    {msg : XndMsg} (hexit : msg.hdr = .exit → ∀ n ∈ s.procs, n.2.realPid = msg.realPid →
      w.stands (w.conn n.2.fd) = false) :
    RegistryWp (coordHandleMsg fd msg) s w fun s' _ w' => Registry s' w' := by
  unfold coordHandleMsg
  split
  · refine Wp.get_bind ?_
    cases hf : s.find (·.realPid = msg.realPid) with
    | none => exact Wp.pure h
    | some n =>
        obtain ⟨hn, hpid⟩ := CoordInfo.mem_procs_of_find hf
        refine registryWp_listRemove h fun a ha => ?_
        obtain rfl := h.ok.eq_of_proc (b := n.2) hn ha
        exact hexit ‹_› n hn (by simpa using hpid)
  · exact calm_registry.coordSendVirtToReal fd msg s w h
  · exact calm_registry.coordSendRealToVirt fd msg s w h
  · exact Wp.halt h

/-- What is read from a descriptor of a node, or from one that a freed node has left. -/
theorem registryWp_serveFd {s : CoordInfo} {w : Os} (h : Registry s w) {p : Nat} {fd : Int}
    (hfd : ∀ w, Registry s w → ∀ a, s.proc p = some a → w.conn fd = w.conn a.fd)
    {serve : XndMsg → InfoM Unit}
    (hserve : ∀ msg s w, Registry s w → (msg.hdr = .exit → ∀ n ∈ s.procs,
      n.2.realPid = msg.realPid → w.stands (w.conn n.2.fd) = false) →
      RegistryWp (serve msg) s w fun s' _ w' => Registry s' w') :
    RegistryWp (coordRecvMsg fd >>= fun r => match r with
      | none => listRemove p
      | some msg => serve msg) s w fun s' _ w' => Registry s' w' := by
  refine (registryWp_coordRecvMsg h fd).bind ?_
  rintro s r w ⟨rfl, h, hend, hexit⟩
  cases r with
  | none => exact registryWp_listRemove h fun a ha => hfd w h a ha ▸ hend rfl
  | some msg => exact hserve msg s w h (hexit msg rfl)

theorem keepsRegistry_serveOobFd (ready : List Int) (p : Nat) :
    KeepsRegistry (serveOobFd ready p) := by
  intro s w h
  -- The out-of-band descriptor of a node that is listed is watched only when there is one.
  refine Wp.bind (M := fun s' fd w' => Registry s' w' ∧
    (fd ≠ -1 → ∀ w, Registry s' w → ∀ a, s'.proc p = some a → w.conn fd = w.conn a.fd)) ?_ ?_
  · refine Wp.get_bind ?_
    cases ha : s.proc p with
    | none =>
        refine registryWp_call (P := fun _ => True) h trivial (fun _ _ _ _ _ => trivial) ?_
        exact fun _ _ _ _ _ _ h => ⟨h, fun _ _ _ a ha' => by rw [ha] at ha'; cases ha'⟩
    | some a =>
        refine Wp.pure ⟨h, fun hne w h b hb => ?_⟩
        obtain rfl := Option.some.inj (ha.symm.trans hb)
        exact h.oob (p, a) (CoordInfo.mem_procs_of_proc ha) hne
  · rintro s fd w ⟨h, hfd⟩
    refine Wp.ite (fun hready => ?_) fun _ => Wp.pure h
    exact registryWp_serveFd h (hfd hready.1) fun msg s w h hexit =>
      registryWp_coordHandleMsg h fd hexit

theorem keepsRegistry_serveProc (ready : List Int) (p : Nat) : KeepsRegistry (serveProc ready p) := by
  intro s w h
  refine (registryWp_listProc h p).bind ?_
  rintro s a w ⟨rfl, rfl, ha⟩
  refine Wp.ite (fun _ => ?_) fun _ => keepsRegistry_serveOobFd ready p s w h
  refine registryWp_serveFd h (fun w _ b hb => ?_) fun msg s w h hexit => ?_
  · rw [Option.some.inj (ha.symm.trans hb)]
  · refine (registryWp_coordHandleMsg h a.fd hexit).bind fun s _ w h => ?_
    exact keepsRegistry_serveOobFd ready p s w h

theorem turns_registry : Turns osWorld Registry (fun s _ w => Registry s w) Registry where
  toCalm := calm_registry
  prepare := keepsRegistry_prepareTurn
  suspend := keepsRegistry_suspendTurn
  complete p total := Keeps.bind (calm_registry.listProc p) fun a =>
    calm_registry.completionTurn (fun p st => Keeps.modify fun _ _ h => h.setState p st) p a total
  filter := keepsRegistry_filterTurn
  serve := keepsRegistry_serveProc
  resume := calm_registry.coordReleaseBarrier
    (fun p st => Keeps.modify fun _ _ h => h.setState p st) fun _ _ _ => keepsRegistry_call _

theorem keepsRegistry_coordDoCheckpoint (fuel : Nat) : KeepsRegistry (coordDoCheckpoint fuel) := by
  refine turns_registry.coordDoCheckpoint (fun c _ => keepsRegistry_call c)
    (fun p st => Keeps.modify fun _ _ h => h.setState p st) ?_ ?_ ?_ fuel
  · exact Keeps.modify fun s w h => h.congr rfl rfl
  · exact Keeps.modify fun s w h => h.mapProcs (fun _ => ⟨rfl, rfl, rfl⟩) h.oob
  · exact Keeps.modify fun s w h => h.congr rfl rfl

/-! ### Registration -/

/-- A process with the pid is behind a descriptor that is not listed. -/
structure Applicant (fd pid : Int) (s : CoordInfo) (w : Os) : Prop where
  ok : Registry s w
  free : Unlisted s fd
  pid : w.pidOf (w.conn fd) = some pid

namespace Applicant
variable {fd pid : Int} {s s' : CoordInfo} {w w' : Os}

theorem congr (h : Applicant fd pid s w) (hp : s'.procs = s.procs) (hb : s'.brk = s.brk) :
    Applicant fd pid s' w :=
  ⟨h.ok.congr hp hb, fun n hn => h.free n (hp ▸ hn), h.pid⟩

theorem note (h : Applicant fd pid s w) : Applicant fd pid s (w.note s) :=
  ⟨h.ok.note, h.free, h.pid⟩

theorem push (h : Applicant fd pid s w) {a : Proc} (hfd : a.fd = fd) (hpid : a.realPid = pid)
    (hoob : a.oobFd = -1) : Registry (s.push a) w := by
  subst hfd hpid
  refine ⟨h.ok.ok.push fun n hn => (h.free n hn).1, ?_, ?_, h.ok.born, fun k hk hs => ?_⟩
  · exact List.forall_mem_cons.mpr ⟨h.pid, h.ok.pid⟩
  · exact List.forall_mem_cons.mpr ⟨fun hne => absurd hoob hne, h.ok.oob⟩
  · obtain ⟨n, hn, hkept⟩ := h.ok.kept k hk hs
    exact ⟨n, List.mem_cons_of_mem _ hn, hkept⟩

/-- A node is given the descriptor of the applicant, who is registered in it already or
takes the place of a process that is gone. -/
theorem setFd (h : Applicant fd pid s w) {p : Nat} {a : Proc} (ha : (p, a) ∈ s.procs)
    (hpid : a.realPid = pid)
    (hown : w.conn a.fd = w.conn fd ∨ w.stands (w.conn a.fd) = false ∧ a.oobFd = -1) :
    Registry (s.setProc p fun a => { a with fd := fd }) w := by
  have hnode : ∀ n ∈ s.procs, n.1 = p → n.2 = a := fun n hn hp => by
    obtain ⟨as, rest, hsplit⟩ := List.append_of_mem ha
    exact h.ok.ok.eq_of_proc (hp ▸ hn) (h.ok.ok.proc_eq hsplit)
  refine ⟨h.ok.ok.setFd fun n hn => (h.free n hn).1, fun n hn => ?_, fun n hn ho => ?_, h.ok.born,
    fun k hk hs => ?_⟩
  · obtain ⟨m, hm, rfl⟩ := List.mem_map.mp hn
    split
    · rw [hnode m hm ‹_›, hpid]
      exact h.pid
    · exact h.ok.pid m hm
  · obtain ⟨m, hm, rfl⟩ := List.mem_map.mp hn
    split at ho
    · rw [if_pos ‹_›]
      have hma := hnode m hm ‹_›
      rcases hown with hsame | ⟨-, hnone⟩
      · exact (h.ok.oob m hm ho).trans (by rw [hma, hsame])
      · exact absurd (hma ▸ hnone) ho
    · rw [if_neg ‹_›]
      exact h.ok.oob m hm ho
  · obtain ⟨n, hn, hp, hc⟩ := h.ok.kept k hk hs
    refine ⟨_, List.mem_map_of_mem hn, ?_⟩
    split
    · refine ⟨hp, ?_⟩
      have hna := hnode n hn ‹_›
      rcases hown with hsame | ⟨hgone, -⟩
      · rw [← hc, hna, hsame]
      · rw [← hc, hna, hgone] at hs
        cases hs
    · exact ⟨hp, hc⟩

end Applicant

/-- What is known of a message that has arrived. -/
structure Heard (fd : Int) (msg : XndMsg) (s : CoordInfo) (w : Os) : Prop where
  free : Unlisted s fd
  pid : msg.hdr = .connectLaunch ∨ msg.hdr = .connectRestart →
    w.pidOf (w.conn fd) = some msg.realPid
  own : msg.hdr = .connectLaunch → ∀ n ∈ s.find (·.realPid = msg.realPid),
    w.conn n.2.fd = w.conn fd ∨ w.stands (w.conn n.2.fd) = false ∧ n.2.oobFd = -1
  sender : msg.hdr = .virtToReal ∨ msg.hdr = .realToVirt →
    ∀ n ∈ s.find (·.xndPid = msg.xndPid), w.conn n.2.fd = w.conn fd

theorem heard_of_react {s : CoordInfo} {w v : Os} {fd : Int} {msg : XndMsg}
    (hfree : Unlisted s fd) (hmsg : Identified s w fd msg) (hv : v ∈ w.heard s fd msg) :
    Heard fd msg s v := by
  unfold Os.heard at hv
  refine ⟨hfree, ?_, fun hl => ?_, ?_⟩
  · rintro (hl | hr)
    · rw [hl] at hv
      obtain ⟨⟨-, hpid⟩, hv⟩ := List.mem_ite_nil_right.mp hv
      rw [List.mem_singleton.mp hv, hpid]
    · rw [hr] at hv
      obtain ⟨⟨-, hpid⟩, hv⟩ := List.mem_ite_nil_right.mp hv
      rw [List.mem_singleton.mp hv, hpid]
  · rw [hl] at hv
    rw [List.mem_singleton.mp (List.mem_ite_nil_right.mp hv).2]
    exact hmsg.1 hl
  · rintro (hvr | hrv)
    · rw [hvr] at hv
      rw [List.mem_singleton.mp hv]
      exact hmsg.2.2 hfree (.inl hvr)
    · rw [hrv] at hv
      rw [List.mem_singleton.mp hv]
      exact hmsg.2.2 hfree (.inr hrv)

theorem Heard.note {fd : Int} {msg : XndMsg} {s : CoordInfo} {w : Os} (h : Heard fd msg s w) :
    Heard fd msg s (w.note s) :=
  ⟨h.free, h.pid, h.own, h.sender⟩

section Registration
variable {s : CoordInfo} {w : Os} {fd pid : Int}

/-- The answers that an applicant is sent change nothing. -/
theorem registryWp_quiet {c : CoordCall} {Q : Os → Prop} (h : Applicant fd pid s w) (hQ : Q w)
    (hmove : ∀ w m w', Applicant fd pid s w → Q w → Os.env.move m w = some w' → Q w')
    (hnote : ∀ w, Q w → Q (w.note s)) (hc : ∀ (w : Os) r, w.react s c r = [w]) :
    RegistryWp (Code.call c) s w fun s' _ w' => s' = s ∧ Applicant fd pid s w' ∧ Q w' := by
  refine registryWp_call (P := fun w => Applicant fd pid s w ∧ Q w) h.ok ⟨h, hQ⟩ ?_ ?_
  · rintro w m w' ⟨h, hQ⟩ hm
    refine ⟨⟨h.ok.move hm, h.free, ?_⟩, hmove w m w' h hQ hm⟩
    have hconn : w'.conn = w.conn := Os.conn_move hm
    rw [hconn]
    exact (Os.evolves_move (s := s) hm).pid _ _ h.pid
  · rintro w r v ⟨h, hQ⟩ - hv -
    rw [hc] at hv
    obtain rfl := List.mem_singleton.mp hv
    exact ⟨rfl, h.note, hnote v hQ⟩

theorem registryWp_coordSendHandshake {a : Proc} (h : Applicant fd pid s w) :
    RegistryWp (coordSendHandshake a) s w fun s' _ w' => s' = s ∧ Applicant fd pid s w' := by
  refine Wp.get_bind ((registryWp_quiet (Q := fun _ => True) h trivial
    (fun _ _ _ _ _ _ => trivial) (fun _ _ => trivial) fun _ _ => rfl).bind ?_)
  rintro s (sent : Bool) w ⟨rfl, h, -⟩
  exact Wp.ite (fun _ => Wp.pure ⟨rfl, h⟩) fun _ => Wp.halt h.ok

theorem registryWp_registerProc {a : Proc} (h : Applicant a.fd a.realPid s w)
    (hoob : a.oobFd = -1) : RegistryWp (registerProc a) s w fun s' _ w' => Registry s' w' := by
  refine (registryWp_coordSendHandshake h).bind ?_
  rintro s _ w ⟨rfl, h⟩
  have table : Applicant a.fd a.realPid { s with
      table := (s.table.update a.virtPid a.realPid).update a.virtPpid a.realPpid } w :=
    h.congr rfl rfl
  exact Wp.modify_bind (Wp.modify (table.push rfl rfl hoob))

theorem registryWp_coordConnectWithProcessOnLaunch (h : Registry s w) {msg : XndMsg}
    (hl : msg.hdr = .connectLaunch) (hmsg : Heard fd msg s w) :
    RegistryWp (coordConnectWithProcessOnLaunch fd msg) s w fun s' _ w' => Registry s' w' := by
  have happ : Applicant fd msg.realPid s w := ⟨h, hmsg.free, hmsg.pid (.inl hl)⟩
  refine Wp.get_bind (Wp.ite (fun _ => ?_) fun _ => ?_)
  · cases hf : s.find (·.realPid = msg.realPid) with
    | none => exact Wp.halt h
    | some n =>
        obtain ⟨hn, hpid⟩ := CoordInfo.mem_procs_of_find hf
        have hreg := h.pid n hn
        have hclose : RegistryWp (sysClose n.2.fd) s w fun s' _ w' => s' = s ∧
            Applicant fd msg.realPid s w' ∧ (w'.conn n.2.fd = w'.conn fd ∨
              w'.stands (w'.conn n.2.fd) = false ∧ n.2.oobFd = -1) := by
          refine registryWp_quiet happ (hmsg.own hl n hf) ?_ (fun _ hQ => hQ) fun _ _ => rfl
          rintro w m w' h (hsame | ⟨hgone, hnone⟩) hm
          · exact .inl (by rw [Os.conn_move hm, hsame])
          · refine .inr ⟨?_, hnone⟩
            rw [Os.conn_move hm]
            exact (Os.evolves_move (s := s) hm).gone (h.ok.pid n hn) hgone
        refine hclose.bind ?_
        rintro s _ w ⟨rfl, happ, hown⟩
        refine Wp.modify_bind (calm_registry.coordSendHandshake _ _ w ?_)
        exact happ.setFd hn (by simpa using hpid) hown
  · refine Wp.bind (M := fun s' _ w' => s' = s ∧ w' = w)
      (Wp.ite (fun _ => Wp.pure ⟨rfl, rfl⟩) fun _ => Wp.halt h) ?_
    rintro s _ w ⟨rfl, rfl⟩
    have ids : Keeps (𝒲 := osWorld) Registry (fun s _ w => Registry s w)
        (Applicant fd msg.realPid) (launchIds fd msg) :=
      Calm.launchIds (fun _ _ _ h hp hb _ => h.congr hp hb) (fun _ _ _ h => h.ok) fd msg
    refine ((ids s w happ).and_rets (rets_launchIds s fd msg)).bind ?_
    rintro s a w ⟨happ, rfl, hoob, hpid, -⟩
    exact registryWp_registerProc (hpid ▸ happ) hoob

/-- The child that a fork announces. -/
theorem registryWp_recvChild (h : Registry s w) (fd : Int) :
    RegistryWp (coordRecvMsg fd) s w fun s' r w' => s' = s ∧ Registry s w' ∧
      ∀ msg, r = some msg → msg.hdr = .atforkChild → Applicant fd msg.realPid s w' := by
  refine registryWp_call (P := Registry s) h h (fun _ _ _ h hm => h.move hm) ?_
  intro w r v h _ hv hnote
  refine ⟨rfl, hnote, ?_⟩
  rintro msg rfl hchild
  replace hv : v ∈ w.heard s fd msg := hv
  simp only [Os.heard, hchild] at hv
  obtain ⟨hfree, hv⟩ := List.mem_ite_nil_right.mp hv
  obtain ⟨i, hi, rfl⟩ := List.mem_map.mp hv
  refine ⟨hnote, hfree, ?_⟩
  show w.pidOf (Function.update w.conn fd i fd) = some msg.realPid
  rw [Function.update_self]
  simpa using (List.mem_filter.mp hi).2

theorem registryWp_coordAtfork (h : Registry s w) (fd : Int) (msg : XndMsg) :
    RegistryWp (coordAtfork fd msg) s w fun s' _ w' => Registry s' w' := by
  have virt : KeepsRegistry coordNextVirtPid :=
    Calm.coordNextVirtPid (fun _ _ _ h hp hb _ => h.congr hp hb) fun _ _ _ h => h
  have xnd : KeepsRegistry coordNextXndPid :=
    Calm.coordNextXndPid fun _ _ _ h hp hb _ => h.congr hp hb
  refine (virt s w h).bind fun s virtPid w h => (xnd s w h).bind fun s xndPid w h => ?_
  refine (calm_registry.ack rfl s w h).bind fun s sent w h => ?_
  refine Wp.ite (fun _ => Wp.get_bind ?_) fun _ => Wp.halt h
  cases s.find (·.virtPid = msg.virtPpid) with
  | none => exact Wp.halt h
  | some n =>
      refine (registryWp_recvChild h fd).bind ?_
      rintro s childMsg w ⟨rfl, h, happ⟩
      cases childMsg with
      | none => exact Wp.halt h
      | some childMsg =>
          refine Wp.bind (M := fun s' _ w' => s' = s ∧ w' = w ∧ childMsg.hdr = .atforkChild)
            (Wp.ite (fun hc => Wp.pure ⟨rfl, rfl, hc⟩) fun _ => Wp.halt h) ?_
          rintro s _ w ⟨rfl, rfl, hchild⟩
          refine Wp.bind (M := fun s' _ w' => s' = s ∧ w' = w)
            (Wp.ite (fun _ => Wp.pure ⟨rfl, rfl⟩) fun _ => Wp.halt h) ?_
          rintro s _ w ⟨rfl, rfl⟩
          exact registryWp_registerProc (happ childMsg rfl hchild) rfl

/-- An out-of-band connection is given to its sender. -/
theorem registryWp_connectOob (h : Registry s w) {msg : XndMsg} (hmsg : Heard fd msg s w)
    (hdr : msg.hdr = .virtToReal ∨ msg.hdr = .realToVirt) :
    RegistryWp (connectOob fd msg) s w fun s' _ w' => Registry s' w' := by
  refine Wp.get_bind ?_
  cases hf : s.find (·.xndPid = msg.xndPid) with
  | none => exact Wp.halt h
  | some n =>
      have hn := (CoordInfo.mem_procs_of_find hf).1
      refine Wp.modify (h.mapProcs (fun m => ?_) fun m hm ho => ?_)
      · split
        · exact ⟨rfl, rfl, rfl⟩
        · exact ⟨rfl, rfl, rfl⟩
      · split at ho
        · rw [if_pos ‹_›]
          have hnode : m.2 = n.2 := by
            obtain ⟨as, rest, hsplit⟩ := List.append_of_mem hn
            refine h.ok.eq_of_proc (p := n.1) ?_ (h.ok.proc_eq hsplit)
            rw [← show m.1 = n.1 from ‹_›]
            exact hm
          rw [hnode]
          exact (hmsg.sender hdr n hf).symm
        · rw [if_neg ‹_›]
          exact h.oob m hm ho

/-- One connection. -/
theorem registryWp_coordHandleConnection (h : Registry s w) (fuel : Nat) {msg : XndMsg}
    (hmsg : Heard fd msg s w) :
    RegistryWp (coordHandleConnection fuel fd msg) s w fun s' _ w' => Registry s' w' := by
  unfold coordHandleConnection
  split
  · exact registryWp_coordConnectWithProcessOnLaunch h ‹_› hmsg
  · have happ : Applicant fd msg.realPid s w := ⟨h, hmsg.free, hmsg.pid (.inr ‹_›)⟩
    refine Wp.modify_bind (Wp.modify_bind (registryWp_registerProc ?_ rfl))
    split
    · exact happ.congr rfl rfl
    · exact happ.congr rfl rfl
  · exact registryWp_coordAtfork h fd msg
  · have command := turns_registry.coordHandleCommand
      (fun _ : msg.cmd = .ckptCmd => keepsRegistry_coordDoCheckpoint fuel) fd
    exact (Keeps.bind command fun _ => keepsRegistry_call (.close fd)) s w h
  · refine (registryWp_connectOob h hmsg (.inr ‹_›)).bind fun s _ w h => ?_
    exact calm_registry.coordSendRealToVirt fd msg s w h
  · refine (registryWp_connectOob h hmsg (.inl ‹_›)).bind fun s _ w h => ?_
    exact calm_registry.coordSendVirtToReal fd msg s w h
  · exact Wp.halt h

end Registration

theorem keepsRegistry_coordWaitForConnection (fuel : Nat) :
    KeepsRegistry (coordWaitForConnection fuel) := by
  refine calm_registry.coordWaitForConnection (A := Heard) (B := fun fd s _ => Unlisted s fd) ?_ ?_ ?_
  · intro s w h
    refine registryWp_call (P := fun _ => True) h trivial (fun _ _ _ _ _ => trivial) ?_
    intro w r v _ _ hv h
    refine ⟨h, ?_⟩
    rintro fd rfl
    exact (List.mem_ite_nil_right.mp hv).1
  · intro fd s w h hfree
    refine registryWp_call (P := Registry s) h h (fun _ _ _ h hm => h.move hm) ?_
    rintro w r v h ⟨hmsg, -⟩ hv hnote
    refine ⟨hnote, ?_⟩
    rintro msg rfl
    exact (heard_of_react hfree (hmsg (fd, msg) rfl) hv).note
  · exact fun fd msg s w h hmsg => registryWp_coordHandleConnection h fuel hmsg

/-! ## Runs -/

theorem registry_coordInit (fd : Int) (uuid : Nat) (interval : Int) :
    Registry (coordInit fd uuid interval) Os.init :=
  ⟨listOk_coordInit fd uuid interval, by simp [coordInit], by simp [coordInit],
    by simp [Os.init], by simp [NoneDropped, Os.init]⟩

/-- **Nobody is dropped** in any run in which everything that arrives is identified: a
process that was registered in a node, is alive and has not announced its exit is
registered in it still, whatever processes were born, have died and have executed other
images. -/
theorem coordMain_noneDropped (restart : Bool) (fuel : Nat) (fd : Int) (uuid : Nat)
    (interval : Int) {p : Prog CoordCall.Answer CoordInfo CoordStop Unit} {w : Os}
    (h : (Os.env.world AllIdentified).Reach
      (coordMain restart fuel (coordInit fd uuid interval)) Os.init (p, w)) :
    NoneDropped p.state w := by
  have hmain : KeepsRegistry (coordMain restart fuel) :=
    turns_registry.coordMain keepsRegistry_coordWaitForConnection keepsRegistry_coordDoCheckpoint
      (keepsRegistry_call _) restart fuel
  have hp := hmain.reach (fun _ _ _ h ⟨_, hm⟩ => h.move hm) (fun _ _ _ _ h ⟨_, hm⟩ => h.move hm)
    (registry_coordInit fd uuid interval) h
  cases p with
  | ret s a => exact hp.kept
  | call s c k => exact hp.kept
  | halt s e => exact hp.kept

def osReplies (t : Trace) : List (Turn CoordCall.Answer OsMove) := t.map fun e => .reply e 0

/-- The process 101 registers again, on the descriptor `fd`. -/
def reexecEvents (fd : Int) : Trace :=
  [⟨.select [4], some [4]⟩, ⟨.accept, some fd⟩,
    ⟨.recv fd, some { hdr := .connectLaunch, realPid := 101, realPpid := 100 }⟩, ⟨.close 5, ()⟩,
    ⟨.send fd
      { hdr := .coordAck, realPid := 101, realPpid := 100, virtPid := 2, virtPpid := 1,
        xndUuid := 7, xndPid := 1001, xndPpid := 1000, xndPgid := 1001 }, true⟩]

/-- The process 101 asks for a real pid, on an out-of-band connection. -/
def oobEvents : Trace :=
  [⟨.select [4], some [4]⟩, ⟨.accept, some 6⟩,
    ⟨.recv 6, some { hdr := .virtToReal, virtPid := 2, xndPid := 1001 }⟩,
    ⟨.send 6 { hdr := .coordAck, realPid := 101 }, true⟩, ⟨.select [5, 6], some []⟩,
    ⟨.probe 101, false⟩]

/-- The process 101 is launched and executes another image, which registers again. -/
def reexecTurns : List (Turn CoordCall.Answer OsMove) :=
  .move (.born 101) :: osReplies launchTrace ++ .move (.exec 5) :: osReplies (reexecEvents 6)

/-- The process 101 has an out-of-band connection when it executes the other image, and
the end of the old connection is read. -/
def dropTurns : List (Turn CoordCall.Answer OsMove) :=
  .move (.born 101) :: osReplies (launchTrace ++ oobEvents) ++ .move (.exec 6) ::
    osReplies (reexecEvents 7 ++ [⟨.select [7, 6], some [6]⟩, ⟨.recv 6, none⟩])

theorem coordMain_noneDropped_exec :
    ∃ c, Os.env.follow AllIdentified (coordMain false 8 (coordInit 4 7 0), Os.init)
        reexecTurns = some c ∧ c.1.state.procs.map (·.2.fd) = [6] ∧ NoneDropped c.1.state c.2 := by
  obtain ⟨c, hc, hfd⟩ := Os.env.exists_follow AllIdentified
    (coordMain false 8 (coordInit 4 7 0), Os.init) reexecTurns
    (fun c => c.1.state.procs.map (·.2.fd) = [6]) (by decide +kernel)
  exact ⟨c, hc, hfd, coordMain_noneDropped false 8 4 7 0 (Env.reach_of_follow hc)⟩

/-- Without the condition a process that stands is dropped: the node keeps the
out-of-band descriptor of the old image, whose end is read. -/
theorem not_coordMain_noneDropped_exec :
    ∃ c, Os.env.follow (fun _ _ _ _ => True) (coordMain false 8 (coordInit 4 7 0), Os.init)
        dropTurns = some c ∧ c.2.stands 0 = true ∧ c.1.state.procs = [] ∧
      ¬ NoneDropped c.1.state c.2 :=
  Os.env.exists_follow (fun _ _ _ _ => True) (coordMain false 8 (coordInit 4 7 0), Os.init)
    dropTurns (fun c => c.2.stands 0 = true ∧ c.1.state.procs = [] ∧ ¬ NoneDropped c.1.state c.2)
    (by decide +kernel)

end Xnd.Coord
