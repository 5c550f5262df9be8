import Xnd.Coord.PidTable
import Xnd.Lib.Machine
import Mathlib.Data.List.Perm.Basic
import Mathlib.Logic.Function.Basic

/-!
# The tables of restarted peers

After a restart the processes have new real ids.  Each peer registers with the coordinator, in
any order, and once all have done so they go through their tables, an entry at a time: the
entries of a peer itself and of its parent are what the system says, the others are asked of
the coordinator, and what the coordinator does not know is erased.

**A table ends up** with what `settled` says, whatever the other peers are doing meanwhile.
The invariant of the traversal is `Midway`; what carries it from one peer to the others is that
the coordinator's table is not changed any more (`Kept`).
-/
namespace Xnd.Pid.Postrestart
open Coord (PidTable)
open Function (update)

/-- A restarted process: its virtual ids, its new real ones, and its table at the
checkpoint. -/
structure Peer where
  virtPid : Int
  virtPpid : Int
  realPid : Int
  realPpid : Int
  saved : PidTable

/-- What the coordinator knows of the ids: `pid_table`, and the ids in `proc_list`. -/
structure Registry where
  table : PidTable
  procs : List (Int × Int)

namespace Registry
variable (g : Registry)

/-- `coord_connect_with_process_on_restart`. -/
def connect (p : Peer) : Registry where
  table := (g.table.update p.virtPid p.realPid).update p.virtPpid p.realPpid
  procs := (p.virtPid, p.realPid) :: g.procs

/-- `proc_list_virt_to_real`. -/
def procListVirtToReal (virt : Int) : Int :=
  ((g.procs.find? (·.1 = virt)).map Prod.snd).getD (-1)

/-- `coord_send_virt_to_real`: the id that is sent. -/
def virtToReal (virt : Int) : Int :=
  if g.table.virtualToReal virt ≠ -1 then g.table.virtualToReal virt
  else g.procListVirtToReal virt

end Registry

/-- Where a peer is: before `connect_to_coord_on_restart`, in the post-restart barrier, in the
loop of `pid_table_postrestart`, with the ids that are still to come and those that are to be
erased, or behind it. -/
inductive Phase where
  | early
  | connected
  | traversing (todo erased : List Int)
  | done
  deriving DecidableEq

structure Restarting where
  phase : Phase
  table : PidTable

/-- The coordinator and `n` peers; `released` when the barrier is. -/
structure Group (n : Nat) where
  registry : Registry
  released : Bool
  peers : Fin n → Restarting

inductive Action (n : Nat) where
  | register (i : Fin n)
  | release
  /-- `pid_table_postrestart` up to its loop, and the order in which the loop comes to the
  entries. -/
  | start (i : Fin n) (order : List Int)
  | turn (i : Fin n)
  | finish (i : Fin n)

section Step
variable {n : Nat} (ps : Fin n → Peer)

/-- The group before anyone has registered. -/
def restarted : Group n := ⟨⟨.empty, []⟩, false, fun i => ⟨.early, (ps i).saved⟩⟩

/-- The entries of a peer itself and of its parent are updated. -/
def Peer.renewed (p : Peer) : PidTable :=
  (p.saved.update p.virtPid p.realPid).update p.virtPpid p.realPpid

/-- A turn of the loop, for the id `virt`. -/
def turn (p : Peer) (g : Registry) (t : PidTable) (virt : Int) (todo erased : List Int) :
    Restarting :=
  if virt = p.virtPid ∨ virt = p.virtPpid then ⟨.traversing todo erased, t⟩
  else if g.virtToReal virt = -1 then ⟨.traversing todo (erased ++ [virt]), t⟩
  else ⟨.traversing todo erased, t.update virt (g.virtToReal virt)⟩

def step : Machine (Group n) (Action n)
  | s, .register i => guarded ((s.peers i).phase = .early)
      { s with
        registry := s.registry.connect (ps i)
        peers := update s.peers i { s.peers i with phase := .connected } }
  | s, .release => guarded (∀ i, (s.peers i).phase ≠ .early) { s with released := true }
  | s, .start i order => guarded (s.released = true ∧ (s.peers i).phase = .connected ∧
        ((ps i).virtPid ≠ -1 ∧ (ps i).virtPpid ≠ -1) ∧
        order.Perm ((ps i).renewed.entries.map Prod.fst))
      { s with peers := update s.peers i ⟨.traversing order [], (ps i).renewed⟩ }
  | s, .turn i =>
      match (s.peers i).phase with
      | .traversing (virt :: todo) erased =>
          let peer := turn (ps i) s.registry (s.peers i).table virt todo erased
          some { s with peers := update s.peers i peer }
      | _ => none
  | s, .finish i =>
      match (s.peers i).phase with
      | .traversing [] erased =>
          let table := erased.foldl PidTable.erase (s.peers i).table
          some { s with peers := update s.peers i ⟨.done, table⟩ }
      | _ => none

/-- Any order of steps. -/
abbrev Reached (s : Group n) : Prop := Machine.Runs (step ps) (fun _ _ => True) (restarted ps) s

/-- **The process tree was recreated**: a peer whose parent is a peer has it as its real parent.
The coordinator gives no virtual id twice. -/
structure Recreated : Prop where
  distinct : Function.Injective fun i => (ps i).virtPid
  parent : ∀ i j, (ps i).virtPpid = (ps j).virtPid → (ps i).realPpid = (ps j).realPid
  real : ∀ i, 0 < (ps i).realPid ∧ 0 < (ps i).realPpid

end Step

/-! ## One table -/

section Table
variable {p : Peer} {g : Registry} {t : PidTable} {todo erased : List Int} {v : Int}

/-- What an id is mapped to in the end. -/
def settled (p : Peer) (g : Registry) (v : Int) : Option Int :=
  if v = p.virtPpid then some p.realPpid
  else if v = p.virtPid then some p.realPid
  else if p.saved.lookup v = none ∨ g.virtToReal v = -1 then none
  else some (g.virtToReal v)

/-- The table without the entries that are to be erased. -/
def effective (t : PidTable) (erased : List Int) (v : Int) : Option Int :=
  if v ∈ erased then none else t.lookup v

theorem lookup_foldl_erase (erased : List Int) (t : PidTable) (v : Int) :
    (erased.foldl PidTable.erase t).lookup v = effective t erased v := by
  induction erased generalizing t with
  | nil => rfl
  | cons w erased ih =>
      rw [List.foldl_cons, ih]
      unfold effective
      by_cases hv : v = w
      · subst hv
        simp [PidTable.lookup_erase_self]
      · simp [hv, PidTable.lookup_erase_of_ne]

/-- **Midway through the loop**: what is not to come any more is settled, and so are the two
entries of the peer itself. -/
structure Midway (p : Peer) (g : Registry) (t : PidTable) (todo erased : List Int) : Prop where
  nodup : (erased ++ todo).Nodup
  saved : ∀ v ∈ todo, v ≠ p.virtPpid → v ≠ p.virtPid → p.saved.lookup v ≠ none
  agrees : ∀ v, v ∉ todo ∨ v = p.virtPpid ∨ v = p.virtPid → effective t erased v = settled p g v

theorem mem_keys_iff {t : PidTable} {v : Int} : v ∈ t.entries.map Prod.fst ↔ t.lookup v ≠ none := by
  rw [List.mem_map, Option.ne_none_iff_exists']
  constructor
  · rintro ⟨⟨v, r⟩, he, rfl⟩
    exact ⟨r, (t.mem_entries_iff).mp he⟩
  · rintro ⟨r, hr⟩
    exact ⟨(v, r), (t.mem_entries_iff).mpr hr, rfl⟩

/-- What two updates leave. -/
theorem lookup_update_update (t : PidTable) (v w r q x : Int) :
    ((t.update v r).update w q).lookup x =
      if x = w then some q else if x = v then some r else t.lookup x := by
  split
  next h => rw [h, PidTable.lookup_update_self]
  next h =>
    rw [PidTable.lookup_update_of_ne _ h]
    split
    next h' => rw [h', PidTable.lookup_update_self]
    next h' => rw [PidTable.lookup_update_of_ne _ h']

theorem lookup_renewed (p : Peer) (v : Int) : p.renewed.lookup v =
    if v = p.virtPpid then some p.realPpid
    else if v = p.virtPid then some p.realPid else p.saved.lookup v :=
  lookup_update_update ..

/-- In front of the loop. -/
theorem midway_renewed {order : List Int} (h : order.Perm (p.renewed.entries.map Prod.fst)) :
    Midway p g p.renewed order [] where
  nodup := h.nodup_iff.mpr p.renewed.nodup
  saved v hv hppid hpid := by
    have hkey := mem_keys_iff.mp (h.mem_iff.mp hv)
    rwa [lookup_renewed, if_neg hppid, if_neg hpid] at hkey
  agrees v hv := by
    have hrenewed := lookup_renewed p v
    show p.renewed.lookup v = _
    rw [hrenewed, settled]
    split
    · rfl
    next hppid =>
      split
      · rfl
      next hpid =>
        -- an id that the loop does not come to is not in the table
        have hkey := mt (h.mem_iff.mpr ∘ mem_keys_iff.mpr) (hv.resolve_right (by tauto))
        rw [hrenewed, if_neg hppid, if_neg hpid, not_not] at hkey
        rw [hkey, if_pos (.inl rfl)]

/-- A turn. -/
theorem Midway.turn (h : Midway p g t (v :: todo) erased) :
    ∃ t' erased', Postrestart.turn p g t v todo erased = ⟨.traversing todo erased', t'⟩ ∧
      Midway p g t' todo erased' := by
  have hnodup := h.nodup
  have hother : ∀ {w}, w ≠ v → (w ∉ todo ∨ w = p.virtPpid ∨ w = p.virtPid) →
      effective t erased w = settled p g w := fun hne hw =>
    h.agrees _ (hw.imp_left fun hnot hmem => (List.mem_cons.mp hmem).elim hne hnot)
  have hrest : (erased ++ todo).Nodup :=
    hnodup.sublist ((List.sublist_cons_self v todo).append_left erased)
  have hsaved : ∀ w ∈ todo, w ≠ p.virtPpid → w ≠ p.virtPid → p.saved.lookup w ≠ none :=
    fun w hw => h.saved w (List.mem_cons_of_mem v hw)
  unfold Postrestart.turn
  split
  next hown =>
    refine ⟨t, erased, rfl, hrest, hsaved, fun w hw => ?_⟩
    by_cases hwv : w = v
    · exact h.agrees w (.inr (hwv ▸ hown.symm))
    · exact hother hwv hw
  next hown =>
    have hppid : v ≠ p.virtPpid := fun heq => hown (.inr heq)
    have hpid : v ≠ p.virtPid := fun heq => hown (.inl heq)
    split
    next hunknown =>
      refine ⟨t, erased ++ [v], rfl, by simpa using hnodup, hsaved, fun w hw => ?_⟩
      by_cases hwv : w = v
      · rw [hwv, effective, if_pos (by simp), settled, if_neg hppid, if_neg hpid,
          if_pos (.inr hunknown)]
      · rw [← hother hwv hw]
        simp [effective, hwv]
    next hknown =>
      refine ⟨_, erased, rfl, hrest, hsaved, fun w hw => ?_⟩
      by_cases hwv : w = v
      · have hnot : v ∉ erased := fun hmem =>
          (List.nodup_append.mp hnodup).2.2 v hmem v List.mem_cons_self rfl
        have hkey := h.saved v List.mem_cons_self hppid hpid
        rw [hwv, effective, if_neg hnot, PidTable.lookup_update_self, settled, if_neg hppid,
          if_neg hpid, if_neg (by tauto)]
      · rw [← hother hwv hw, effective, effective, PidTable.lookup_update_of_ne _ hwv]

end Table

/-! ## The coordinator's table -/

section Registry
variable {n : Nat} {ps : Fin n → Peer} {g : Registry} {registered : Fin n → Prop}

/-- **What the coordinator knows**: the peers that have registered, and their parents. -/
structure Knows (ps : Fin n → Peer) (g : Registry) (registered : Fin n → Prop) : Prop where
  own : ∀ i, registered i → g.table.lookup (ps i).virtPid = some (ps i).realPid
  parent : ∀ i, registered i → g.table.lookup (ps i).virtPpid ≠ none
  entry : ∀ v r, g.table.lookup v = some r → ∃ i,
    (ps i).virtPid = v ∧ (ps i).realPid = r ∨ (ps i).virtPpid = v ∧ (ps i).realPpid = r
  listed : ∀ e ∈ g.procs, ∃ i, registered i ∧ ((ps i).virtPid, (ps i).realPid) = e

theorem knows_nobody : Knows ps ⟨.empty, []⟩ fun _ => False where
  own _ h := h.elim
  parent _ h := h.elim
  entry v r h := by simp at h
  listed e h := by simp at h

theorem lookup_connect (p : Peer) (v : Int) : (g.connect p).table.lookup v =
    if v = p.virtPpid then some p.realPpid
    else if v = p.virtPid then some p.realPid else g.table.lookup v :=
  lookup_update_update ..

/-- Registering a peer may overwrite the entry of another only with the same real id, since
the tree was recreated. -/
theorem Knows.connect (hrec : Recreated ps) (h : Knows ps g registered) (i : Fin n) :
    Knows ps (g.connect (ps i)) fun j => j = i ∨ registered j where
  own j hj := by
    rw [lookup_connect]
    split
    next hparent => rw [hrec.parent i j hparent.symm]
    next =>
      split
      next hsame => rw [hrec.distinct hsame]
      next hne => exact h.own j (hj.resolve_left fun heq => hne (heq ▸ rfl))
  parent j hj := by
    rw [lookup_connect]
    split
    · simp
    next hne =>
      split
      · simp
      · exact h.parent j (hj.resolve_left fun heq => hne (heq ▸ rfl))
  entry v r hv := by
    rw [lookup_connect] at hv
    split at hv
    next heq => exact ⟨i, .inr ⟨heq.symm, Option.some.inj hv⟩⟩
    next =>
      split at hv
      next heq => exact ⟨i, .inl ⟨heq.symm, Option.some.inj hv⟩⟩
      next => exact h.entry v r hv
  listed e he := by
    obtain rfl | he := List.mem_cons.mp he
    · exact ⟨i, .inl rfl, rfl⟩
    · obtain ⟨j, hj, rfl⟩ := h.listed e he
      exact ⟨j, .inr hj, rfl⟩

theorem Knows.positive (hrec : Recreated ps) (h : Knows ps g registered) {v r : Int}
    (hv : g.table.lookup v = some r) : 0 < r := by
  obtain ⟨i, ⟨-, rfl⟩ | ⟨-, rfl⟩⟩ := h.entry v r hv
  · exact (hrec.real i).1
  · exact (hrec.real i).2

/-- The table is asked before the list of processes, which therefore says nothing new. -/
theorem Knows.virtToReal_eq (hrec : Recreated ps) (h : Knows ps g registered) (v : Int) :
    g.virtToReal v = (g.table.lookup v).getD (-1) := by
  unfold Registry.virtToReal PidTable.virtualToReal
  split
  · rfl
  next hnone =>
    rw [not_not] at hnone
    rw [hnone]
    cases hv : g.table.lookup v with
    | some r =>
        have hpos := h.positive hrec hv
        rw [hv, Option.getD_some] at hnone
        omega
    | none =>
        unfold Registry.procListVirtToReal
        cases hfind : g.procs.find? (·.1 = v) with
        | none => rfl
        | some e =>
            obtain ⟨i, hi, rfl⟩ := h.listed e (List.mem_of_find?_eq_some hfind)
            have hpid : (ps i).virtPid = v := by simpa using List.find?_some hfind
            rw [← hpid, h.own i hi] at hv
            cases hv

theorem Knows.virtToReal_some (hrec : Recreated ps) (h : Knows ps g registered) {v r : Int}
    (hv : g.table.lookup v = some r) : g.virtToReal v = r := by
  rw [h.virtToReal_eq hrec, hv, Option.getD_some]

theorem Knows.lookup_of_virtToReal (hrec : Recreated ps) (h : Knows ps g registered) {v : Int}
    (hv : g.virtToReal v ≠ -1) : g.table.lookup v = some (g.virtToReal v) := by
  rw [h.virtToReal_eq hrec] at hv ⊢
  cases hlook : g.table.lookup v with
  | none => simp [hlook] at hv
  | some r => rfl

end Registry

/-! ## The group -/

section Group
variable {n : Nat} {ps : Fin n → Peer} {s s' : Group n} {i : Fin n}

/-- **The invariant.**  While a peer goes through its table the barrier has been released, so
everyone has registered and the coordinator's table is the one of the end. -/
structure Invariant (ps : Fin n → Peer) (s : Group n) : Prop where
  knows : Knows ps s.registry fun i => (s.peers i).phase ≠ .early
  released : s.released = true → ∀ i, (s.peers i).phase ≠ .early
  traversing : ∀ i todo erased, (s.peers i).phase = .traversing todo erased →
    s.released = true ∧ Midway (ps i) s.registry (s.peers i).table todo erased
  finished : ∀ i, (s.peers i).phase = .done →
    s.released = true ∧ ∀ v, (s.peers i).table.lookup v = settled (ps i) s.registry v

theorem invariant_restarted : Invariant ps (restarted ps) where
  knows := by
    have hnobody : (fun i => ((restarted ps).peers i).phase ≠ .early) = fun _ => False :=
      funext fun i => by simp [restarted]
    rw [hnobody]
    exact knows_nobody
  released h := by cases h
  traversing i todo erased h := by cases h
  finished i h := by cases h

/-- A step of the peer `i` after the barrier, to a phase and a table that the invariant allows
for it. -/
theorem Invariant.advance (h : Invariant ps s) (hrel : s.released = true) (peer : Restarting)
    (hearly : peer.phase ≠ .early)
    (htrav : ∀ todo erased, peer.phase = .traversing todo erased →
      Midway (ps i) s.registry peer.table todo erased)
    (hdone : peer.phase = .done → ∀ v, peer.table.lookup v = settled (ps i) s.registry v) :
    Invariant ps { s with peers := update s.peers i peer } := by
  have hall : ∀ j, (update s.peers i peer j).phase ≠ .early := fun j => by
    by_cases hj : j = i
    · subst hj
      rwa [Function.update_self]
    · rw [Function.update_of_ne hj]
      exact h.released hrel j
  refine ⟨?_, fun _ => hall, fun j todo erased hj => ⟨hrel, ?_⟩, fun j hj => ⟨hrel, ?_⟩⟩
  · have hsame : (fun j => (update s.peers i peer j).phase ≠ .early) =
        fun j => (s.peers j).phase ≠ .early :=
      funext fun j => propext ⟨fun _ => h.released hrel j, fun _ => hall j⟩
    show Knows ps s.registry fun j => (update s.peers i peer j).phase ≠ .early
    rw [hsame]
    exact h.knows
  · by_cases hji : j = i
    · subst hji
      simp only [Function.update_self] at hj ⊢
      exact htrav todo erased hj
    · simp only [Function.update_of_ne hji] at hj ⊢
      exact (h.traversing j todo erased hj).2
  · by_cases hji : j = i
    · subst hji
      simp only [Function.update_self] at hj ⊢
      exact hdone hj
    · simp only [Function.update_of_ne hji] at hj ⊢
      exact (h.finished j hj).2

/-- A peer that registers finds the barrier closed. -/
theorem Invariant.register (hrec : Recreated ps) (h : Invariant ps s)
    (hearly : (s.peers i).phase = .early) :
    Invariant ps { s with
      registry := s.registry.connect (ps i)
      peers := update s.peers i { s.peers i with phase := .connected } } := by
  have hclosed : s.released ≠ true := fun hrel => h.released hrel i hearly
  have hphase : ∀ {j} {ph : Phase}, ph ≠ .connected →
      (update s.peers i { s.peers i with phase := .connected } j).phase = ph →
      (s.peers j).phase = ph := fun {j ph} hne hj => by
    by_cases hji : j = i
    · subst hji
      rw [Function.update_self] at hj
      exact absurd hj.symm hne
    · rwa [Function.update_of_ne hji] at hj
  refine ⟨?_, fun hrel => absurd hrel hclosed, fun j todo erased hj => ?_, fun j hj => ?_⟩
  · have hsame : (fun j => (update s.peers i { s.peers i with phase := .connected } j).phase ≠
        .early) = fun j => j = i ∨ (s.peers j).phase ≠ .early := funext fun j => by
      by_cases hji : j = i
      · subst hji
        simp
      · simp [hji]
    show Knows ps (s.registry.connect (ps i)) fun j =>
      (update s.peers i { s.peers i with phase := .connected } j).phase ≠ .early
    rw [hsame]
    exact h.knows.connect hrec i
  · exact absurd (h.traversing j todo erased (hphase (by simp) hj)).1 hclosed
  · exact absurd (h.finished j (hphase (by simp) hj)).1 hclosed

/-- **One step.** -/
theorem Invariant.step (hrec : Recreated ps) (a : Action n) (h : Invariant ps s)
    (hstep : step ps s a = some s') : Invariant ps s' := by
  cases a with
  | register i =>
      obtain ⟨hearly, rfl⟩ := guarded_eq_some.mp hstep
      exact h.register hrec hearly
  | release =>
      obtain ⟨hall, rfl⟩ := guarded_eq_some.mp hstep
      exact ⟨h.knows, fun _ => hall, fun j todo erased hj => ⟨rfl, (h.traversing j _ _ hj).2⟩,
        fun j hj => ⟨rfl, (h.finished j hj).2⟩⟩
  | start i order =>
      obtain ⟨⟨hrel, -, -, hperm⟩, rfl⟩ := guarded_eq_some.mp hstep
      refine h.advance hrel _ (by simp) (fun todo erased hj => ?_) fun hj => by cases hj
      obtain ⟨rfl, rfl⟩ := Phase.traversing.inj hj
      exact midway_renewed hperm
  | turn i =>
      rw [Postrestart.step] at hstep
      split at hstep
      next virt todo erased hphase =>
        obtain rfl := Option.some.inj hstep
        obtain ⟨hrel, hmid⟩ := h.traversing i _ _ hphase
        obtain ⟨t', erased', hturn, hnext⟩ := hmid.turn
        rw [hturn]
        refine h.advance hrel _ (by simp) (fun todo' erased'' hj => ?_) fun hj => by cases hj
        obtain ⟨rfl, rfl⟩ := Phase.traversing.inj hj
        exact hnext
      · cases hstep
  | finish i =>
      rw [Postrestart.step] at hstep
      split at hstep
      next erased hphase =>
        obtain rfl := Option.some.inj hstep
        obtain ⟨hrel, hmid⟩ := h.traversing i _ _ hphase
        refine h.advance hrel _ (by simp) (fun todo' erased' hj => by cases hj) fun _ v => ?_
        rw [lookup_foldl_erase]
        exact hmid.agrees v (.inl List.not_mem_nil)
      · cases hstep

/-- **Any number of steps.** -/
theorem invariant_of_reached (hrec : Recreated ps) (hs : Reached ps s) : Invariant ps s :=
  hs.invariant (fun _ a _ h _ hstep => h.step hrec a hstep) invariant_restarted

/-- **The coordinator knows every id of a table.** -/
theorem Invariant.known (hrec : Recreated ps) (h : Invariant ps s) (hdone : (s.peers i).phase = .done)
    {v : Int} (hv : (s.peers i).table.lookup v ≠ none) : s.registry.virtToReal v ≠ -1 := by
  obtain ⟨hrel, htable⟩ := h.finished i hdone
  have hreg := h.released hrel i
  have hlisted : ∀ {w}, s.registry.table.lookup w ≠ none → s.registry.virtToReal w ≠ -1 :=
    fun {w} hw => by
      obtain ⟨r, hr⟩ := Option.ne_none_iff_exists'.mp hw
      have hpos := h.knows.positive hrec hr
      rw [h.knows.virtToReal_some hrec hr]
      omega
  rw [htable, settled] at hv
  split at hv
  next hppid =>
    subst hppid
    exact hlisted (h.knows.parent i hreg)
  next =>
    split at hv
    next hpid =>
      subst hpid
      exact hlisted (by simp [h.knows.own i hreg])
    next =>
      split at hv
      · simp at hv
      next hknown => exact fun hunknown => hknown (.inr hunknown)

/-- **An id that names a peer** is mapped to what that peer is now, if it is in the table at
all. -/
theorem Invariant.names (hrec : Recreated ps) (h : Invariant ps s)
    (hdone : (s.peers i).phase = .done) (j : Fin n) :
    (s.peers i).table.lookup (ps j).virtPid =
      if (ps j).virtPid = (ps i).virtPpid ∨ j = i ∨ (ps i).saved.lookup (ps j).virtPid ≠ none then
        some (ps j).realPid
      else none := by
  obtain ⟨hrel, htable⟩ := h.finished i hdone
  have hj := h.knows.virtToReal_some hrec (h.knows.own j (h.released hrel j))
  have hpos := (hrec.real j).1
  rw [htable, settled, hj]
  split
  next hppid => rw [if_pos (.inl hppid), hrec.parent i j hppid.symm]
  next hppid =>
    split
    next hpid =>
      obtain rfl := hrec.distinct hpid
      rw [if_pos (.inr (.inl rfl))]
    next hpid =>
      have hne : j ≠ i := fun heq => hpid (heq ▸ rfl)
      have hreal : (ps j).realPid ≠ -1 := by omega
      by_cases hsaved : (ps i).saved.lookup (ps j).virtPid = none <;>
        simp [hppid, hne, hreal, hsaved]

/-- An id that is in a table, for the parent's or another, when all that have it as the parent's
have the same parent. -/
theorem Invariant.same (hrec : Recreated ps) (h : Invariant ps s)
    (hdone : (s.peers i).phase = .done) {v r : Int} (hother : ∀ j, (ps j).virtPid ≠ v)
    (hsiblings : ∀ j k, (ps j).virtPpid = v → (ps k).virtPpid = v →
      (ps j).realPpid = (ps k).realPpid)
    (hv : (s.peers i).table.lookup v = some r) : r = s.registry.virtToReal v := by
  obtain ⟨hrel, htable⟩ := h.finished i hdone
  rw [htable, settled] at hv
  split at hv
  next hppid =>
    obtain ⟨q, hq⟩ := Option.ne_none_iff_exists'.mp (h.knows.parent i (h.released hrel i))
    rw [← hppid] at hq
    rw [h.knows.virtToReal_some hrec hq, ← Option.some.inj hv]
    obtain ⟨j, ⟨hj, -⟩ | ⟨hj, rfl⟩⟩ := h.knows.entry v q hq
    · exact absurd hj (hother j)
    · exact hsiblings i j hppid.symm hj
  next =>
    split at hv
    next hpid => exact absurd hpid.symm (hother i)
    next =>
      split at hv
      · cases hv
      · exact (Option.some.inj hv).symm

end Group

/-- A process, and a child of it that knows another that is gone. -/
def pair : Fin 2 → Peer
  | 0 => ⟨2, 1, 52, 40, PidTable.empty.update 3 13⟩
  | 1 => ⟨3, 2, 53, 52, (PidTable.empty.update 9 19).update 2 12⟩

/-- Everyone registers, and then goes through the table. -/
def everyone (first second : List Int) : List (Action 2) :=
  [.register 1, .register 0, .release, .start 0 first, .start 1 second, .turn 0, .turn 1, .turn 1,
    .turn 0, .turn 1, .turn 0, .finish 1, .finish 0]

/-- Two processes whose parent is gone, and only one of which has lost the intermediate process
that `create_orphan` gave it for a parent. -/
def orphans : Fin 2 → Peer
  | 0 => ⟨2, 1, 52, 51, (PidTable.empty.update 2 12).update 1 1⟩
  | 1 => ⟨3, 1, 54, 1, (PidTable.empty.update 3 13).update 1 1⟩

end Xnd.Pid.Postrestart
