import Mathlib.Data.List.Perm.Subperm
import Xnd.Coord.Ledger

/-!
# A round is committed before anybody resumes

The stages of `coord_do_checkpoint` after the directory is created: the start is sent
to every listed process (`Started`), a completion is received from each
(`Completed`), the manifest is written (`Ledger.Committed`).  Between them a sweep
may remove processes, and a count is compared with `num_peers` after each; equal
counts mean that nobody was removed.  The manifest is not made from the list but
from the files there are in a range of ids.  Every such file belongs to a started
process, so as many files as peers are the files of all of them, each once.

The slots of the manifest are not counted against its capacity, so this is a
committed round exactly when there are enough of them (`Ledger.Gathered.committed_iff`).
-/
namespace Xnd.Coord
open Code

/-- Assertions of a run: nobody resumes too early, whatever the run is doing. -/
abbrev LedgerWp {α : Type} (m : InfoM α) (s : CoordInfo) (l : Ledger)
    (fin : CoordInfo → α → Ledger → Prop) : Prop :=
  Wp ledgerWorld (fun _ l => l.Sound) (fun _ _ l => l.Sound) m s l fin

theorem wp_of_keepsLedger {Q : Ledger → Prop} {fd : Option Int} {α : Type} {m : InfoM α}
    (hm : KeepsLedger Q fd m) (hQ : ∀ l, Q l → l.Sound) {s : CoordInfo} {l : Ledger}
    (hs : ListOk s) (hfd : Spare fd s) (hl : Q l) :
    LedgerWp m s l fun s _ l => ListOk s ∧ Spare fd s ∧ Q l :=
  (hm s l ⟨hs, hfd, hl⟩).weaken (fun _ l h => hQ l h) fun _ _ l h => hQ l h

theorem spare_none (s : CoordInfo) : Spare none s := nofun

/-- A sweep, at any point of a round. -/
theorem wp_sweep {Q : Ledger → Prop} (hdone : ∀ l fd, Q l → Q { l with done := l.done ++ [fd] })
    (hQ : ∀ l, Q l → l.Sound) {s : CoordInfo} {l : Ledger} (hs : ListOk s) (hl : Q l)
    (type : CommType) (fuel : Nat) :
    LedgerWp (coordCollectivePrepare type fuel) s l fun s' total l' =>
      ListOk s' ∧ Q l' ∧ Shrunk s s' ∧ total = s'.procs.length := by
  have keeps := (upkeep_ledger hdone none).toTurns.coordCollectivePrepare type fuel
  refine ((wp_of_keepsLedger keeps hQ hs (spare_none s) hl).and_rets
    (rets_coordCollectivePrepare hs type fuel)).mono ?_
  rintro s' total l' ⟨⟨hs', -, hl'⟩, hshrunk, htotal⟩
  exact ⟨hs', hl', hshrunk, htotal⟩

/-! ## The start -/

/-- The nodes `as` have been sent the start. -/
structure Started (s : CoordInfo) (l : Ledger) (as : List (Nat × Proc)) : Prop where
  started : l.started = as.map fun n => (n.2.fd, n.2.xndPid)
  peers : as ≠ [] → l.peers = s.numPeers
  resumed : l.resumed = false

theorem Started.sound {s : CoordInfo} {l : Ledger} {as : List (Nat × Proc)} (h : Started s l as) :
    l.Sound := fun hr => by rw [h.resumed] at hr; cases hr

/-- In a list with distinct descriptors, one process has the descriptor. -/
theorem ListOk.keys_filter {s : CoordInfo} (h : ListOk s) {p : Nat} {a : Proc}
    {as rest : List (Nat × Proc)} (hs : s.procs = as ++ (p, a) :: rest) :
    s.keys.filter (·.1 = a.fd) = [(a.fd, a.xndPid)] := by
  have hfds := h.fds
  rw [hs, List.map_append, List.map_cons, List.nodup_middle, List.nodup_cons,
    ← List.map_append] at hfds
  have none : ∀ l : List (Nat × Proc), (∀ n ∈ l, n.2.fd ≠ a.fd) →
      (l.map fun n => (n.2.fd, n.2.xndPid)).filter (fun k => decide (k.1 = a.fd)) = [] := by
    intro l hl
    rw [List.filter_eq_nil_iff]
    intro k hk
    obtain ⟨n, hn, rfl⟩ := List.mem_map.mp hk
    simpa using hl n hn
  have hne : ∀ n ∈ as ++ rest, n.2.fd ≠ a.fd := fun n hn he =>
    hfds.1 (he ▸ List.mem_map_of_mem (f := fun n : Nat × Proc => n.2.fd) hn)
  rw [CoordInfo.keys, hs, List.map_append, List.map_cons, List.filter_append, List.filter_cons,
    none as fun n hn => hne n (List.mem_append_left _ hn),
    none rest fun n hn => hne n (List.mem_append_right _ hn)]
  simp

/-- The start is sent to the rest of the list. -/
theorem wp_releaseLoop_preckpt {as rest : List (Nat × Proc)} {s : CoordInfo} {l : Ledger}
    (hok : ListOk s) (hs : s.procs = as ++ rest) (hst : Started s l as) :
    LedgerWp (releaseLoop .preckpt (rest.map Prod.fst)) s l fun s' sent l' => l'.Sound ∧
      (sent = true → ListOk s' ∧ Started s' l' s'.procs ∧ s'.procs.length = s.procs.length ∧
        s'.numPeers = s.numPeers ∧ s'.epoch = s.epoch ∧ l'.epoch = l.epoch) := by
  induction rest generalizing as s l with
  | nil =>
      rw [List.append_nil] at hs
      exact Wp.pure ⟨hst.sound, fun _ => ⟨hok, hs ▸ hst, rfl, rfl, rfl, rfl⟩⟩
  | cons n rest ih =>
      obtain ⟨p, a⟩ := n
      refine (hok.wp_listProc hs).bind ?_
      rintro s a l ⟨rfl, rfl, rfl⟩
      refine Wp.bind (M := fun s' _ l' => s' = s ∧ l' = l) (Wp.ite (fun _ => Wp.pure ⟨rfl, rfl⟩)
        fun _ => Wp.halt hst.sound) ?_
      rintro s _ l ⟨rfl, rfl⟩
      refine Wp.get_bind (Wp.bind (M := fun s' (sent : Bool) l' => s' = s ∧
        l' = l.record s (.send a.fd (releaseMsg .preckpt s.numPeers a)) sent)
        (wp_ledger_call hst.sound fun _ _ => ⟨rfl, rfl⟩) ?_)
      rintro s sent _ ⟨rfl, rfl⟩
      cases sent with
      | false => exact Wp.pure ⟨hst.sound, nofun⟩
      | true =>
          refine Wp.modify_bind ?_
          have hs' := hok.setProc_eq hs (f := fun a => { a with state := BarrierType.next .preckpt })
          have hok' : ListOk (s.setProc p fun a => { a with state := BarrierType.next .preckpt }) :=
            hok.setProc fun _ => rfl
          have hsplit : (s.setProc p fun a => { a with state := BarrierType.next .preckpt }).procs =
              (as ++ [(p, { a with state := BarrierType.next .preckpt })]) ++ rest := by
            rw [hs', List.append_assoc, List.singleton_append]
          refine (ih hok' hsplit ⟨?_, ?_, ?_⟩).mono ?_
          · show l.started ++ _ = _
            rw [hok.keys_filter hs, hst.started]
            simp
          · exact fun _ => rfl
          · exact hst.resumed
          · rintro s'' sent l'' ⟨hsound, h⟩
            refine ⟨hsound, fun he => ?_⟩
            obtain ⟨h₁, h₂, h₃, h₄⟩ := h he
            exact ⟨h₁, h₂, by rw [h₃, hs', hs]; simp, h₄⟩

/-! ## The completions -/

/-- A completion has been received from every process that was started, and these are
the listed ones. -/
structure Completed (s : CoordInfo) (l : Ledger) : Prop where
  length : s.procs.length = s.numPeers
  started : l.started = s.keys
  peers : s.procs ≠ [] → l.peers = s.numPeers
  done : ∀ k ∈ l.started, k.1 ∈ l.done
  resumed : l.resumed = false

/-- What the loop over the completions keeps: the processes and the ledger are those
of the beginning, up to states and completions. -/
structure Completing (K : List (Int × Nat)) (s₀ s : CoordInfo) (l₀ l : Ledger) : Prop where
  ok : ListOk s
  keys : s.keys = K
  state : s.numPeers = s₀.numPeers ∧ s.epoch = s₀.epoch
  ledger : l = { l₀ with done := l.done }
  started : l₀.started = K
  resumed : l₀.resumed = false

theorem Completing.sound {K : List (Int × Nat)} {s₀ s : CoordInfo} {l₀ l : Ledger}
    (h : Completing K s₀ s l₀ l) : l.Sound := fun hr => by
  rw [h.ledger, h.resumed] at hr
  cases hr

theorem wp_completions {s₀ : CoordInfo} {l₀ : Ledger} (hok : ListOk s₀) (hst : Started s₀ l₀ s₀.procs) :
    LedgerWp (seqForeach completionTurn (s₀.procs.map Prod.fst) 0) s₀ l₀ fun s total l =>
      Completing s₀.keys s₀ s l₀ l ∧ (total = s₀.procs.length → ∀ k ∈ l.started, k.1 ∈ l.done) := by
  have init : Completing s₀.keys s₀ s₀ l₀ l₀ := ⟨hok, rfl, ⟨rfl, rfl⟩, rfl, hst.started, hst.resumed⟩
  refine Wp.mono (wp_seqForeach (J := fun rest total s l => Completing s₀.keys s₀ s l₀ l ∧
    ∃ as, s.procs = as ++ rest ∧ total ≤ as.length ∧
      (total = as.length → ∀ n ∈ as, n.2.fd ∈ l.done)) ?_ ?_
    ⟨init, [], rfl, Nat.le_refl 0, fun _ n hn => absurd hn List.not_mem_nil⟩) ?_
  · rintro p a rest total s l ⟨h, as, hs, -⟩
    exact h.ok.proc_eq hs
  · rintro p a rest total s l ⟨h, as, hs, hle, hdone⟩
    refine Wp.bind (M := fun s' _ l' => s' = s ∧ l' = l) (Wp.ite (fun _ => Wp.pure ⟨rfl, rfl⟩)
      fun _ => Wp.halt h.sound) ?_
    rintro s _ l ⟨rfl, rfl⟩
    refine Wp.bind (M := fun s' r l' => s' = s ∧ l' = l.record s (.recv a.fd) r)
      (wp_ledger_call h.sound fun _ _ => ⟨rfl, rfl⟩) ?_
    rintro s msg _ ⟨rfl, rfl⟩
    -- Without a completion the count stays behind the number of turns.
    have behind : ∀ l', Completing s₀.keys s₀ s l₀ l' → ∃ as', s.procs = as' ++ rest ∧
        total ≤ as'.length ∧ (total = as'.length → ∀ n ∈ as', n.2.fd ∈ l'.done) := fun l' _ =>
      ⟨as ++ [(p, a)], by simp [hs], by simp; omega, fun he => by simp at he; omega⟩
    cases msg with
    | none => exact Wp.pure ⟨h, behind l h⟩
    | some msg =>
        have hmem : a.fd ∈ l.started.map Prod.fst := by
          rw [h.ledger]
          show a.fd ∈ l₀.started.map Prod.fst
          rw [h.started, ← h.keys, CoordInfo.keys, hs]
          simp
        refine Wp.ite (fun hd => Wp.modify_bind (Wp.pure ?_)) fun hd => Wp.pure ?_
        · have hs' := h.ok.setProc_eq hs (f := fun a => { a with state := .ckptComplete })
          have hrec : l.record s (.recv a.fd) (some msg) = { l with done := l.done ++ [a.fd] } :=
            if_pos ⟨hd, hmem⟩
          refine ⟨⟨h.ok.setProc fun _ => rfl, ?_, h.state, ?_, h.started, h.resumed⟩, ?_⟩
          · rw [← h.keys, CoordInfo.keys, CoordInfo.keys, hs', hs]
            simp
          · rw [hrec]
            conv_lhs => rw [h.ledger]
          · refine ⟨as ++ [(p, { a with state := .ckptComplete })], by simp [hs'], by simp; omega, ?_⟩
            intro he n hn
            have he : total = as.length := by simpa using he
            rw [hrec]
            rcases List.mem_append.mp hn with hn | hn
            · exact List.mem_append_left _ (hdone he n hn)
            · rw [List.mem_singleton.mp hn]
              exact List.mem_append_right _ (by simp)
        · have hrec : l.record s (.recv a.fd) (some msg) = l := if_neg fun hx => hd hx.1
          rw [hrec]
          exact ⟨h, behind l h⟩
  · rintro s total l ⟨h, as, hs, hle, hdone⟩
    refine ⟨h, fun he k hk => ?_⟩
    rw [List.append_nil] at hs
    have hlen : s₀.procs.length = as.length := by
      have := congrArg List.length h.keys
      simpa [CoordInfo.keys, hs] using this.symm
    rw [h.ledger] at hk
    have hk : k ∈ s.keys := by rw [h.keys, ← h.started]; exact hk
    obtain ⟨n, hn, rfl⟩ := List.mem_map.mp hk
    exact hdone (he.trans hlen) n (hs ▸ hn)

/-- **All have completed** when the function returns. -/
theorem wp_coordWaitForCkptCompletions {s : CoordInfo} {l : Ledger} (hok : ListOk s)
    (hst : Started s l s.procs) (hlen : s.procs.length = s.numPeers) (fuel : Nat) :
    LedgerWp (coordWaitForCkptCompletions fuel) s l fun s' _ l' =>
      ListOk s' ∧ Completed s' l' ∧ s'.epoch = s.epoch ∧ l'.epoch = l.epoch := by
  refine Wp.get_bind ((wp_sweep (Q := fun l' => l' = { l with done := l'.done })
    (fun l' fd h => by rw [h]) (fun l' h hr => by rw [h, hst.resumed] at hr; cases hr) hok rfl
    .reduce fuel).bind ?_)
  rintro s' total l' ⟨hok', hl', hshrunk, htotal⟩
  refine Wp.ite (fun _ => Wp.halt fun hr => by rw [hl', hst.resumed] at hr; cases hr) fun he => ?_
  have he : total = s.numPeers := by simpa using he
  have hprocs : s'.procs = s.procs := hshrunk.procs.eq_of_length (by omega)
  have hst' : Started s' l' s'.procs := by
    refine ⟨?_, ?_, ?_⟩
    · rw [hl', hprocs]
      exact hst.started
    · rw [hl', hprocs, hshrunk.numPeers]
      exact hst.peers
    · rw [hl']
      exact hst.resumed
  refine Wp.get_bind ((wp_completions hok' hst').bind ?_)
  rintro s'' total' l'' ⟨hc, hdone⟩
  refine Wp.ite (fun _ => Wp.halt hc.sound) fun he' => Wp.pure ?_
  have he' : total' = s.numPeers := by simpa using he'
  have hkeys : s''.procs.length = s'.procs.length := by
    simpa [CoordInfo.keys] using congrArg List.length hc.keys
  refine ⟨hc.ok, ⟨?_, ?_, ?_, hdone ?_, ?_⟩, ?_, ?_⟩
  · rw [hkeys, hprocs, hc.state.1, hshrunk.numPeers, hlen]
  · rw [hc.ledger, hc.keys]
    exact hc.started
  · intro hne
    rw [hc.ledger, hc.state.1]
    refine hst'.peers fun he => hne ?_
    exact List.length_eq_zero_iff.mp (by rw [hkeys, he]; rfl)
  · rw [he', hprocs, hlen]
  · rw [hc.ledger]
    exact hc.resumed
  · rw [hc.state.2, hshrunk.epoch]
  · rw [hc.ledger, hl']

/-! ## The manifest -/

/-- The files of a range are those of started processes, each once. -/
theorem wp_scanCkptfiles {s : CoordInfo} {l : Ledger} (hr : l.resumed = false) (dirfd : Int)
    (id n : Nat) :
    LedgerWp (scanCkptfiles dirfd id n) s l fun s' ids l' => s' = s ∧
      l' = { l with found := l'.found } ∧ l.found ⊆ l'.found ∧ ids.Nodup ∧
        ∀ x ∈ ids, id ≤ x ∧ x ∈ l.started.map Prod.snd ∧ x ∈ l'.found := by
  have sound : ∀ {l : Ledger}, l.resumed = false → l.Sound := fun h hr => by rw [h] at hr; cases hr
  induction n generalizing id l with
  | zero => exact Wp.pure ⟨rfl, rfl, fun _ h => h, List.nodup_nil, by simp⟩
  | succ n ih =>
      -- A file of the id is one of a started process.
      have look : ∀ l' r, l' = (if r = true then { l with found := l.found ++ [id] } else l) →
          (r = true → id ∈ l.started.map Prod.snd) →
          l' = { l with found := l'.found } ∧ l.found ⊆ l'.found ∧
            (r = true → id ∈ l.started.map Prod.snd ∧ id ∈ l'.found) := by
        rintro l' (_ | _) rfl hid
        · exact ⟨rfl, fun _ h => h, nofun⟩
        · exact ⟨rfl, fun _ h => List.mem_append_left _ h, fun _ => ⟨hid rfl, by simp⟩⟩
      refine Wp.bind (M := fun s' (r : Bool) l' => s' = s ∧ l' = { l with found := l'.found } ∧
        l.found ⊆ l'.found ∧ (r = true → id ∈ l.started.map Prod.snd ∧ id ∈ l'.found))
        (wp_ledger_call (sound hr) ?_) ?_
      · rintro (_ | _) ha
        · exact ⟨rfl, look _ false rfl nofun⟩
        · exact ⟨rfl, look _ true rfl fun _ => ha⟩
      rintro s plain l₁ ⟨rfl, hl₁, hsub₁, hplain⟩
      have hr₁ : l₁.resumed = false := by rw [hl₁]; exact hr
      have hst₁ : l₁.started = l.started := by rw [hl₁]
      refine Wp.bind (M := fun s' (r : Bool) l' => s' = s ∧ l' = { l with found := l'.found } ∧
        l.found ⊆ l'.found ∧ (r = true → id ∈ l.started.map Prod.snd ∧ id ∈ l'.found))
        (Wp.ite (fun hp => Wp.pure ⟨rfl, hl₁, hsub₁, fun _ => hplain hp⟩) fun _ =>
          wp_ledger_call (sound hr₁) ?_) ?_
      · rintro (_ | _) ha
        · exact ⟨rfl, hl₁, hsub₁, nofun⟩
        · refine ⟨rfl, ?_, fun x hx => List.mem_append_left _ (hsub₁ hx), fun _ => ⟨hst₁ ▸ ha, ?_⟩⟩
          · show { l₁ with found := _ } = _
            rw [hl₁]
            rfl
          · exact List.mem_append_right _ (List.mem_singleton_self id)
      rintro s found l₂ ⟨rfl, hl₂, hsub₂, hfound⟩
      refine (ih (l := l₂) (by rw [hl₂]; exact hr) (id + 1)).bind ?_
      rintro s rest l₃ ⟨rfl, hl₃, hsub₃, hnodup, hrest⟩
      have hst₂ : l₂.started = l.started := by rw [hl₂]
      have hids : ∀ x ∈ rest, id ≤ x ∧ x ∈ l.started.map Prod.snd ∧ x ∈ l₃.found := fun x hx => by
        obtain ⟨hle, hmem, hf⟩ := hrest x hx
        exact ⟨by omega, hst₂ ▸ hmem, hf⟩
      refine Wp.pure ⟨rfl, ?_, fun x hx => hsub₃ (hsub₂ hx), ?_⟩
      · rw [hl₃, hl₂]
      split
      · have hid : id ∉ rest := fun hm => absurd (hrest id hm).1 (by omega)
        obtain ⟨hmem, hf⟩ := hfound ‹_›
        exact ⟨List.nodup_cons.mpr ⟨hid, hnodup⟩,
          List.forall_mem_cons.mpr ⟨⟨Nat.le_refl id, hmem, hsub₃ hf⟩, hids⟩⟩
      · exact ⟨hnodup, hids⟩

/-- As many files as peers are the files of all of them. -/
theorem perm_of_files {ids : List Nat} {started : List (Int × Nat)} (hnodup : ids.Nodup)
    (hmem : ∀ x ∈ ids, x ∈ started.map Prod.snd) (hlen : ids.length = started.length) :
    ids.Perm (started.map Prod.snd) :=
  (hnodup.subperm hmem).perm_of_length_le (by rw [List.length_map]; omega)

/-- What the functions of the manifest leave: the state, and a ledger in which nobody
has resumed and the start and the completions are those of `l`. -/
structure Writing (l l' : Ledger) : Prop where
  epoch : l'.epoch = l.epoch
  peers : l'.peers = l.peers
  started : l'.started = l.started
  done : l'.done = l.done
  resumed : l'.resumed = false

theorem Writing.sound {l l' : Ledger} (h : Writing l l') : l'.Sound := fun hr => by
  rw [h.resumed] at hr
  cases hr

/-- The manifest that is written lists the files. -/
theorem wp_xndCkptfileWriteManifest {s : CoordInfo} {l : Ledger} (hr : l.resumed = false)
    (hlen : l.started.length = s.numPeers) (minXndPid maxXndPid uuid : Nat) :
    LedgerWp (xndCkptfileWriteManifest s.numPeers minXndPid maxXndPid uuid l.epoch) s l
      fun s' written l' => s' = s ∧ Writing l l' ∧ (written = true → ∃ ids : List Nat,
        l'.manifest = some (l.epoch, s.numPeers, ids.take manifestEntryMax) ∧ ids.Nodup ∧
          ids.Perm (l.started.map Prod.snd) ∧ ∀ x ∈ ids, x ∈ l'.found) := by
  have same : ∀ {l' : Ledger}, Writing l l' → ∀ fd : Int, LedgerWp (sysClose fd) s l'
      fun s' _ l'' => s' = s ∧ l'' = l' := fun h fd =>
    wp_ledger_call h.sound fun _ _ => ⟨rfl, rfl⟩
  have h₀ : Writing l l := ⟨rfl, rfl, rfl, rfl, hr⟩
  refine Wp.bind (M := fun s' (dir : Option Int) l' => s' = s ∧
    l' = l.record s (.ckptdirOpen uuid l.epoch) dir) (wp_ledger_call h₀.sound fun _ _ => ⟨rfl, rfl⟩) ?_
  rintro s dir _ ⟨rfl, rfl⟩
  cases dir with
  | none => exact Wp.pure ⟨rfl, h₀, nofun⟩
  | some dirfd =>
      have h₁ : Writing l { l with dir := some (dirfd, l.epoch) } := ⟨rfl, rfl, rfl, rfl, hr⟩
      refine Wp.bind (M := fun s' (fd : Option Int) l' => s' = s ∧
        l' = Ledger.record s (.createManifest dirfd) fd { l with dir := some (dirfd, l.epoch) })
        (wp_ledger_call h₁.sound fun _ _ => ⟨rfl, rfl⟩) ?_
      rintro s fd _ ⟨rfl, rfl⟩
      cases fd with
      | none =>
          refine (same h₁ dirfd).bind ?_
          rintro _ _ _ ⟨rfl, rfl⟩
          exact Wp.pure ⟨rfl, h₁, nofun⟩
      | some fd =>
          -- The manifest is open in the directory of the epoch.
          have hfile : Ledger.record s (.createManifest dirfd) (some fd)
              { l with dir := some (dirfd, l.epoch) } =
              { l with dir := some (dirfd, l.epoch), manifestFile := some (fd, l.epoch) } := by
            simp [Ledger.record, Ledger.epochOf]
          rw [hfile]
          have h₂ : Writing l
              { l with dir := some (dirfd, l.epoch), manifestFile := some (fd, l.epoch) } :=
            ⟨rfl, rfl, rfl, rfl, hr⟩
          refine (wp_scanCkptfiles h₂.resumed dirfd _ _).bind ?_
          rintro s ids l₃ ⟨rfl, hl₃, -, hnodup, hmem⟩
          have h₃ : Writing l l₃ := by
            rw [hl₃]
            exact ⟨rfl, rfl, rfl, rfl, hr⟩
          refine Wp.ite (fun _ => Wp.halt h₃.sound) fun _ => ?_
          refine Wp.bind (M := fun s' (written : Bool) l' => s' = s ∧ Writing l l' ∧
            (written = true → ∃ ids : List Nat,
              l'.manifest = some (l.epoch, s.numPeers, ids.take manifestEntryMax) ∧ ids.Nodup ∧
                ids.Perm (l.started.map Prod.snd) ∧ ∀ x ∈ ids, x ∈ l'.found))
            (Wp.ite (fun hcount => ?_) fun _ => Wp.pure ⟨rfl, h₃, nofun⟩) ?_
          · refine wp_ledger_call h₃.sound ?_
            rintro (_ | _) -
            · exact ⟨rfl, h₃, nofun⟩
            · refine ⟨rfl, ⟨h₃.epoch, h₃.peers, h₃.started, h₃.done, h₃.resumed⟩, fun _ =>
                ⟨ids, ?_, hnodup, ?_, fun x hx => (hmem x hx).2.2⟩⟩
              · rw [hl₃]
                simp [Ledger.record, Ledger.epochOf, hcount]
              · exact perm_of_files hnodup (fun x hx => (hmem x hx).2.1) (by omega)
          · rintro s written l' ⟨rfl, h₄, hw⟩
            refine (same h₄ dirfd).bind ?_
            rintro _ _ _ ⟨rfl, rfl⟩
            refine (same h₄ fd).bind ?_
            rintro _ _ _ ⟨rfl, rfl⟩
            exact Wp.pure ⟨rfl, h₄, hw⟩

/-- The manifest gathers the round. -/
theorem wp_coordWriteCkptManifest {s : CoordInfo} {l : Ledger} (hok : ListOk s) (h : Completed s l)
    (he : s.epoch = l.epoch) :
    LedgerWp coordWriteCkptManifest s l fun s' _ l' =>
      ListOk s' ∧ l'.resumed = false ∧ (s'.procs ≠ [] → l'.Gathered) := by
  have hlen : l.started.length = s.numPeers := by
    rw [h.started, CoordInfo.keys, List.length_map, h.length]
  refine Wp.get_bind ?_
  rw [he]
  refine (wp_xndCkptfileWriteManifest h.resumed hlen _ _ _).bind ?_
  rintro s written l' ⟨rfl, hw, hmanifest⟩
  refine Wp.ite (fun hwritten => Wp.pure ⟨hok, hw.resumed, fun hne => ?_⟩) fun _ => Wp.halt hw.sound
  obtain ⟨ids, hids, hnodup, hperm, hfound⟩ := hmanifest hwritten
  have hpeers : l'.peers = s.numPeers := by rw [hw.peers, h.peers hne]
  refine ⟨?_, ?_, ids, ?_, hnodup, ?_, hfound⟩
  · rw [hw.started, hpeers, hlen]
  · rw [hw.started, hw.done]
    exact h.done
  · rw [hw.epoch, hpeers]
    exact hids
  · rw [hw.started]
    exact hperm

/-! ## The round -/

/-- After the manifest, processes may be told to resume. -/
theorem wp_releaseBarrier_postckpt {s : CoordInfo} {l : Ledger} (hok : ListOk s)
    (hr : l.resumed = false) (h : s.procs ≠ [] → l.Gathered) :
    LedgerWp (coordReleaseBarrier .postckpt) s l fun s' _ l' => ListOk s' ∧ l'.Sound := by
  by_cases hne : s.procs = []
  · refine Wp.get_bind ?_
    rw [hne]
    exact Wp.pure ⟨hok, fun he => by rw [hr] at he; cases he⟩
  · have U := upkeep_ledger (Q := Ledger.Gathered) (fun l fd h => h.recv fd) none
    have keeps : KeepsLedger Ledger.Gathered none (coordReleaseBarrier .postckpt) := by
      refine U.toCalm.coordReleaseBarrier U.state fun fd n a s l hI => wp_ledger_call hI.2.2 fun sent _ => ?_
      refine ⟨hI.1, hI.2.1, ?_⟩
      cases sent with
      | false => exact hI.2.2
      | true => exact ⟨hI.2.2.count, hI.2.2.done, hI.2.2.manifest⟩
    exact (wp_of_keepsLedger keeps (fun l hc _ => hc) hok (spare_none s) (h hne)).mono
      fun s' _ l' h' => ⟨h'.1, fun _ => h'.2.2⟩

/-- An assertion of the code changes nothing. -/
theorem ledgerWp_assert {s : CoordInfo} {l : Ledger} (hl : l.Sound) (failed : CoordAssertion)
    (b : Prop) [Decidable b] :
    LedgerWp (xndAssert failed b) s l fun s' _ l' => s' = s ∧ l' = l ∧ b :=
  Wp.ite (fun hb => Wp.pure ⟨rfl, rfl, hb⟩) fun _ => Wp.halt hl

/-- **The round**, from the new directory on. -/
theorem wp_coordRunRound {s : CoordInfo} {epoch : Nat} (hok : ListOk s)
    (he : s.epoch = epoch) (fuel : Nat) :
    LedgerWp (coordRunRound epoch fuel) s { epoch } fun s' _ l' => ListOk s' ∧ l'.Sound := by
  refine Wp.modify_bind (Wp.modify_bind ?_)
  have hok₁ : ListOk { { s with numPeers := s.procs.length } with
      procs := s.procs.map fun n => (n.1, { n.2 with isRootOfTree :=
        (CoordInfo.find { s with numPeers := s.procs.length } (·.realPid = n.2.realPpid)).isNone }) } :=
    ListOk.mapProcs (s := { s with numPeers := s.procs.length }) (hok.congr rfl rfl)
      fun _ => ⟨rfl, rfl⟩
  refine (wp_sweep (Q := fun l => l = { epoch, done := l.done }) (fun l fd h => by rw [h])
    (fun l h hr => by rw [h] at hr; cases hr) hok₁ rfl .broadcast fuel).bind ?_
  rintro s₂ total l₂ ⟨hok₂, hl₂, hshrunk, htotal⟩
  have hst₂ : Started s₂ l₂ [] := ⟨by rw [hl₂]; rfl, fun hne => absurd rfl hne, by rw [hl₂]⟩
  refine Wp.get_bind ((ledgerWp_assert hst₂.sound _ _).bind ?_)
  rintro s₂ _ l₂ ⟨rfl, rfl, hpeers⟩
  refine Wp.bind (Wp.get_bind (wp_releaseLoop_preckpt hok₂ (List.nil_append _).symm hst₂)) ?_
  rintro s₃ released l₃ ⟨hsound₃, h₃⟩
  refine (ledgerWp_assert hsound₃ _ _).bind ?_
  rintro s₃ _ l₃ ⟨rfl, rfl, hreleased⟩
  obtain ⟨hok₃, hst₃, hlen₃, hpeers₃, hepoch₃, hl₃⟩ := h₃ hreleased
  have hnum₃ : s₃.procs.length = s₃.numPeers := by rw [hlen₃, hpeers₃, ← hpeers, htotal]
  refine (wp_coordWaitForCkptCompletions hok₃ hst₃ hnum₃ fuel).bind ?_
  rintro s₄ _ l₄ ⟨hok₄, hc, hepoch₄, hl₄⟩
  have he₄ : s₄.epoch = l₄.epoch := by
    rw [hepoch₄, hepoch₃, hshrunk.epoch, hl₄, hl₃, hl₂]
    exact he
  refine (wp_coordWriteCkptManifest hok₄ hc he₄).bind ?_
  rintro s₅ _ l₅ ⟨hok₅, hr₅, hcommit⟩
  refine (wp_releaseBarrier_postckpt hok₅ hr₅ hcommit).bind ?_
  rintro s₆ resumed l₆ ⟨hok₆, hsound₆⟩
  refine (ledgerWp_assert hsound₆ _ _).bind ?_
  rintro s₆ _ l₆ ⟨rfl, rfl, -⟩
  have unlink : LedgerWp (unlinkPrevious epoch) s₆ l₆ fun s' _ l' => s' = s₆ ∧ l' = l₆ := by
    refine Wp.ite (fun _ => Wp.get_bind ?_) fun _ => Wp.pure ⟨rfl, rfl⟩
    refine Wp.bind (M := fun s' _ l' => s' = s₆ ∧ l' = l₆) (wp_ledger_call hsound₆
      fun _ _ => ⟨rfl, rfl⟩) ?_
    rintro s _ l ⟨rfl, rfl⟩
    exact Wp.pure ⟨rfl, rfl⟩
  refine unlink.bind ?_
  rintro s₆ _ l₆ ⟨rfl, rfl⟩
  exact Wp.modify ⟨hok₆.congr rfl rfl, hsound₆⟩

/-! ## Checkpoints -/

/-- What lies between two rounds. -/
abbrev KeepsSound (fd : Option Int) {α : Type} (m : InfoM α) : Prop :=
  KeepsLedger Ledger.Sound fd m

theorem upkeep_sound (fd : Option Int) :
    Upkeep ledgerWorld (fun _ l => l.Sound) (fun _ _ l => l.Sound)
      (fun s l => ListOk s ∧ Spare fd s ∧ l.Sound) :=
  upkeep_ledger (fun _ x hl => hl.recv x) fd

/-- The epoch changes nowhere else. -/
theorem upkeep_epoch (epoch : Nat) :
    Upkeep (.answering fun _ _ _ => True) (fun _ _ => True) (fun _ _ _ => True)
      fun s (_ : Unit) => s.epoch = epoch := by
  have call : ∀ c : CoordCall, Keeps (𝒲 := .answering fun _ _ _ => True) (fun _ _ => True)
      (fun _ _ _ => True) (fun s (_ : Unit) => s.epoch = epoch) (Code.call c : InfoM c.Answer) :=
    fun c => Keeps.call (fun _ _ _ => trivial) (fun _ _ _ _ hm => hm.elim) fun _ _ _ _ h _ => h
  refine ⟨⟨fun _ _ _ _ _ => trivial, fun c _ => call c⟩, fun p => ?_, fun p st => Keeps.modify fun _ _ h => h⟩
  refine Keeps.bind (fun s w h => wp_listProc (fun _ => trivial) fun _ _ => h) fun a => ?_
  refine Keeps.bind (Keeps.modify fun _ _ h => h) fun _ => ?_
  refine Keeps.bind (Keeps.ite (fun _ => call _) fun _ => Keeps.pure ()) fun _ => ?_
  refine Keeps.bind (Keeps.ite (fun _ => call _) fun _ => Keeps.pure ()) fun _ => ?_
  exact Keeps.modify fun _ _ h => h

theorem wp_coordCheckpointSuspended {s : CoordInfo} {l : Ledger} (hok : ListOk s) (hl : l.Sound)
    {epoch : Nat} (he : s.epoch = epoch) (fuel : Nat) :
    LedgerWp (coordCheckpointSuspended epoch fuel) s l fun s' _ l' =>
      ListOk s' ∧ Spare none s' ∧ l'.Sound := by
  refine Wp.get_bind (Wp.bind (M := fun s' (created : Bool) l' => s' = s ∧
    if created = true then l' = { epoch } else l' = l) (wp_ledger_call hl ?_) ?_)
  · rintro (_ | _) -
    · exact ⟨rfl, rfl⟩
    · exact ⟨rfl, rfl⟩
  rintro s created l' ⟨rfl, h⟩
  cases created with
  | true =>
      obtain rfl : l' = { epoch } := h
      refine (wp_coordRunRound hok he fuel).mono fun s' _ l' h => ?_
      exact ⟨h.1, spare_none s', h.2⟩
  | false =>
      obtain rfl : l' = l := h
      refine Wp.get_bind (Wp.bind (M := fun s' _ l'' => s' = s ∧ l'' = l')
        (wp_ledger_call hl fun _ _ => ⟨rfl, rfl⟩) ?_)
      rintro s _ l ⟨rfl, rfl⟩
      exact Wp.pure ⟨hok, spare_none s, hl⟩

theorem keepsSound_coordDoCheckpoint (fuel : Nat) : KeepsSound none (coordDoCheckpoint fuel) := by
  have mask : ∀ block, KeepsSound none (sysSigprocmask block) := fun block s l h =>
    wp_ledger_call h.2.2 fun _ _ => h
  intro s l h
  have prepare := (upkeep_sound none).toTurns.coordCollectivePrepare .broadcast fuel
  have suspend := (upkeep_sound none).toTurns.coordSuspendProcesses fuel
  have epoch := (upkeep_epoch s.epoch).toTurns
  refine Wp.get_bind (Wp.bind (M := fun s' _ l' => s' = s ∧ l' = l)
    (wp_ledger_call h.2.2 fun _ _ => ⟨rfl, rfl⟩) ?_)
  rintro s _ l ⟨rfl, rfl⟩
  refine ((prepare s l h).and_rets ((epoch.coordCollectivePrepare .broadcast fuel).rets rfl)).bind ?_
  rintro s₁ total l₁ ⟨h₁, he₁⟩
  refine Wp.ite (fun _ => mask false s₁ l₁ h₁) fun _ => ?_
  refine ((suspend s₁ l₁ h₁).and_rets ((epoch.coordSuspendProcesses fuel).rets he₁)).bind ?_
  rintro s₂ _ l₂ ⟨h₂, he₂⟩
  refine (wp_coordCheckpointSuspended h₂.1 h₂.2.2 he₂ fuel).bind ?_
  exact fun s₃ _ l₃ h₃ => mask false s₃ l₃ h₃

/-! ## Connections -/

/-- New ids change nothing that an assertion about the ledger reads. -/
theorem sound_ids (fd : Option Int) : ∀ s s' l, ListOk s ∧ Spare fd s ∧ Ledger.Sound l →
    s'.procs = s.procs → s'.brk = s.brk → s'.epoch = s.epoch →
    ListOk s' ∧ Spare fd s' ∧ Ledger.Sound l := fun _ _ _ h hp hb _ =>
  ⟨h.1.congr hp hb, fun x hx => hp ▸ h.2.1 x hx, h.2.2⟩

theorem keepsSound_coordNextVirtPid (fd : Option Int) : KeepsSound fd coordNextVirtPid :=
  Calm.coordNextVirtPid (sound_ids fd) fun _ _ _ h => h.2.2

theorem keepsSound_coordNextXndPid (fd : Option Int) : KeepsSound fd coordNextXndPid :=
  Calm.coordNextXndPid (sound_ids fd)

/-- A registration puts the new process on the accepted descriptor. -/
theorem wp_registerProc {s : CoordInfo} {l : Ledger} {a : Proc} (hok : ListOk s)
    (hfd : Spare (some a.fd) s) (hl : l.Sound) :
    LedgerWp (registerProc a) s l fun s' _ l' => ListOk s' ∧ Spare none s' ∧ l'.Sound := by
  refine ((upkeep_sound (some a.fd)).coordSendHandshake a s l ⟨hok, hfd, hl⟩).bind ?_
  rintro s _ l ⟨hok, hfd, hl⟩
  refine Wp.modify_bind (Wp.modify ⟨?_, spare_none _, hl⟩)
  have htable : ListOk { s with
      table := (s.table.update a.virtPid a.realPid).update a.virtPpid a.realPpid } :=
    hok.congr rfl rfl
  exact htable.push fun n hn => hfd a.fd rfl n hn

theorem keepsSound_launchIds (fd : Option Int) (x : Int) (msg : XndMsg) :
    KeepsSound fd (launchIds x msg) :=
  Calm.launchIds (sound_ids fd) (fun _ _ _ h => h.2.2) x msg

section Connection
variable {s : CoordInfo} {l : Ledger} {fd : Int} (hok : ListOk s) (hfd : Spare (some fd) s)
  (hl : l.Sound)
include hok hfd hl

theorem wp_coordConnectWithProcessOnLaunch (msg : XndMsg) :
    LedgerWp (coordConnectWithProcessOnLaunch fd msg) s l fun s' _ l' =>
      ListOk s' ∧ Spare none s' ∧ l'.Sound := by
  refine Wp.get_bind (Wp.ite (fun _ => ?_) fun _ => ?_)
  · cases s.find (·.realPid = msg.realPid) with
    | none => exact Wp.halt hl
    | some n =>
        refine Wp.bind (M := fun s' _ l' => s' = s ∧ l' = l)
          (wp_ledger_call hl fun _ _ => ⟨rfl, rfl⟩) ?_
        rintro s _ l ⟨rfl, rfl⟩
        refine Wp.modify_bind ((upkeep_sound none).coordSendHandshake _ _ l ⟨?_, spare_none _, hl⟩)
        exact hok.setFd fun n hn => hfd fd rfl n hn
  · refine (ledgerWp_assert hl _ _).bind ?_
    rintro s _ l ⟨rfl, rfl, -⟩
    refine ((keepsSound_launchIds (some fd) fd msg s l ⟨hok, hfd, hl⟩).and_rets
      (rets_launchIds s fd msg)).bind ?_
    rintro s a l ⟨⟨hok, hfd, hl⟩, rfl, -⟩
    exact wp_registerProc hok hfd hl

theorem wp_coordAtfork (msg : XndMsg) :
    LedgerWp (coordAtfork fd msg) s l fun s' _ l' => ListOk s' ∧ Spare none s' ∧ l'.Sound := by
  have U := upkeep_sound (some fd)
  refine (keepsSound_coordNextVirtPid (some fd) s l ⟨hok, hfd, hl⟩).bind ?_
  intro s virtPid l h
  refine (keepsSound_coordNextXndPid (some fd) s l h).bind ?_
  intro s xndPid l h
  refine (U.ack rfl s l h).bind ?_
  intro s sent l h
  refine Wp.ite (fun _ => Wp.get_bind ?_) fun _ => Wp.halt h.2.2
  cases s.find (·.virtPid = msg.virtPpid) with
  | none => exact Wp.halt h.2.2
  | some n =>
      refine (U.recv fd s l h).bind ?_
      intro s childMsg l h
      cases childMsg with
      | none => exact Wp.halt h.2.2
      | some childMsg =>
          refine (U.xndAssert _ _ s l h).bind fun s _ l h => ?_
          refine (U.xndAssert _ _ s l h).bind fun s _ l h => ?_
          exact wp_registerProc h.1 h.2.1 h.2.2

/-- One connection. -/
theorem wp_coordHandleConnection (fuel : Nat) (msg : XndMsg) :
    LedgerWp (coordHandleConnection fuel fd msg) s l fun s' _ l' =>
      ListOk s' ∧ Spare none s' ∧ l'.Sound := by
  have U := upkeep_sound none
  have h : ListOk s ∧ Spare none s ∧ l.Sound := ⟨hok, spare_none s, hl⟩
  have oob : KeepsSound none (connectOob fd msg) := by
    refine Keeps.bind Keeps.get fun s => ?_
    cases s.find (·.xndPid = msg.xndPid) with
    | none => exact U.halt nofun
    | some n => exact Keeps.modify fun s l h => ⟨h.1.setProc fun _ => rfl, spare_none _, h.2.2⟩
  unfold coordHandleConnection
  split
  · exact wp_coordConnectWithProcessOnLaunch hok hfd hl msg
  · refine Wp.modify_bind (Wp.modify_bind (wp_registerProc ?_ ?_ hl))
    · split <;> exact hok.congr rfl rfl
    · split <;> exact hfd
  · exact wp_coordAtfork hok hfd hl msg
  · have command := U.toTurns.coordHandleCommand
      (fun _ : msg.cmd = .ckptCmd => keepsSound_coordDoCheckpoint fuel) fd
    exact (Keeps.bind command fun _ => U.call (.close fd) rfl) s l h
  · exact (Keeps.bind oob fun _ => U.coordSendRealToVirt fd msg) s l h
  · exact (Keeps.bind oob fun _ => U.coordSendVirtToReal fd msg) s l h
  · exact Wp.halt hl

end Connection

theorem keepsSound_coordWaitForConnection (fuel : Nat) :
    KeepsSound none (coordWaitForConnection fuel) := by
  have U := upkeep_sound none
  refine Keeps.bind Keeps.get fun s => Keeps.bind (U.call (.select _) rfl) fun ready => ?_
  match ready with
  | none => exact Keeps.pure ()
  | some [] => exact Keeps.pure ()
  | some (_ :: _) =>
      intro s l h
      refine Wp.bind (M := fun s' fd l' => s' = s ∧ l' = l ∧ Spare fd s) (wp_ledger_call h.2.2 ?_) ?_
      · rintro (_ | fd) hr
        · exact ⟨rfl, rfl, spare_none s⟩
        · refine ⟨rfl, rfl, ?_⟩
          intro x hx
          obtain rfl := Option.some.inj hx
          exact hr
      rintro s fd l ⟨rfl, rfl, hfd⟩
      cases fd with
      | none => exact Wp.pure h
      | some fd =>
          refine ((upkeep_sound (some fd)).recv fd s l ⟨h.1, hfd, h.2.2⟩).bind ?_
          rintro s msg l ⟨hok, hfd, hl⟩
          cases msg with
          | none => exact Wp.halt hl
          | some msg => exact wp_coordHandleConnection hok hfd hl fuel msg

/-! ## Runs -/

/-- **A round is gathered before anybody resumes**, in every run. -/
theorem coordMain_gathered {restart : Bool} {fuel : Nat} {fd : Int} {uuid : Nat} {interval : Int}
    {p : Prog CoordCall.Answer CoordInfo CoordStop Unit} {l : Ledger}
    (h : ledgerWorld.Reach (coordMain restart fuel (coordInit fd uuid interval)) {} (p, l)) :
    l.Sound := by
  have ppid : KeepsSound none (Code.call CoordCall.getppid) := fun _ _ h =>
    wp_ledger_call h.2.2 fun _ _ => h
  have hmain : KeepsSound none (coordMain restart fuel) := (upkeep_sound none).toTurns.coordMain
    keepsSound_coordWaitForConnection keepsSound_coordDoCheckpoint ppid restart fuel
  have hinit : Ledger.Sound {} := nofun
  have hp := hmain.reach (fun _ _ _ _ hm => hm.elim) (fun _ _ _ _ _ hm => hm.elim)
    ⟨listOk_coordInit fd uuid interval, spare_none _, hinit⟩ h
  cases p with
  | ret s a => exact hp.2.2
  | call s c k => exact hp
  | halt s e => exact hp

end Xnd.Coord
