import Xnd.Coord.Upkeep
import Xnd.Coord.Frame

/-!
# The ledger of a round

The ledger is what a run has shown of its round: to whom `XND_CKPT_START` was sent,
on which of these descriptors `XND_CKPT_DONE` was received, of whom an image file was
found, what was written to the manifest of which epoch, and whether anybody has been
told to resume.  It is read off the calls with their answers (`Ledger.record`) and
begins again when a directory is created.

`ledgerWorld` is the environment that answers anything, with two exceptions: a
descriptor that is accepted belongs to no listed process, and in the new directory
there are image files of processes that have been started in this round only.
-/
namespace Xnd.Coord
open Code

/-- The descriptor and the `xnd_pid` of every listed process. -/
def CoordInfo.keys (s : CoordInfo) : List (Int × Nat) := s.procs.map fun n => (n.2.fd, n.2.xndPid)

structure Ledger where
  epoch : Nat := 0
  /-- The `num_peers` of `XND_CKPT_START`. -/
  peers : Nat := 0
  started : List (Int × Nat) := []
  done : List Int := []
  /-- The open directory of checkpoint files, with its epoch. -/
  dir : Option (Int × Nat) := none
  /-- The open manifest, with the epoch of its directory. -/
  manifestFile : Option (Int × Nat) := none
  /-- The ids for which there was a checkpoint file. -/
  found : List Nat := []
  /-- The manifest that was written: its epoch, its count and its slots. -/
  manifest : Option (Nat × Nat × List Nat) := none
  resumed : Bool := false

namespace Ledger

/-- The epoch of a descriptor. -/
def epochOf (file : Option (Int × Nat)) (fd : Int) : Option Nat :=
  (file.filter (·.1 = fd)).map Prod.snd

/-- The ledger after a call that is made in the state `s`. -/
def record (s : CoordInfo) : (c : CoordCall) → c.Answer → Ledger → Ledger
  | .ckptdirCreate _ epoch, true, _ => { epoch }
  | .send fd msg, true, l =>
      if msg.hdr = .ckptStart then
        { l with peers := msg.numPeers, started := l.started ++ s.keys.filter (·.1 = fd) }
      else if msg.hdr = .resumeAfterCkpt then { l with resumed := true }
      else l
  | .recv fd, some msg, l =>
      if msg.hdr = .ckptDone ∧ fd ∈ l.started.map Prod.fst then { l with done := l.done ++ [fd] }
      else l
  | .ckptdirOpen _ epoch, some dir, l => { l with dir := some (dir, epoch) }
  | .createManifest dir, some fd, l =>
      { l with manifestFile := (epochOf l.dir dir).map fun epoch => (fd, epoch) }
  | .ckptfileExists _ id, true, l => { l with found := l.found ++ [id] }
  | .compressedCkptExists _ id, true, l => { l with found := l.found ++ [id] }
  | .writeManifest fd count xndPids, true, l =>
      { l with manifest := (epochOf l.manifestFile fd).map fun epoch => (epoch, count, xndPids) }
  | _, _, l => l

/-- **A committed round**: `XND_CKPT_DONE` has come from every process that was started,
these are as many as there are peers, and the manifest of the epoch has been
written with exactly their `xnd_pid`s, each once. -/
structure Committed (l : Ledger) : Prop where
  count : l.started.length = l.peers
  done : ∀ k ∈ l.started, k.1 ∈ l.done
  manifest : ∃ ids, l.manifest = some (l.epoch, l.peers, ids) ∧ ids.Nodup ∧
    ids.Perm (l.started.map Prod.snd)

/-- What the code makes sure of: the manifest is the beginning of the list of the
`xnd_pid`s, as far as there are slots. -/
structure Gathered (l : Ledger) : Prop where
  count : l.started.length = l.peers
  done : ∀ k ∈ l.started, k.1 ∈ l.done
  manifest : ∃ ids : List Nat, l.manifest = some (l.epoch, l.peers, ids.take manifestEntryMax) ∧
    ids.Nodup ∧ ids.Perm (l.started.map Prod.snd) ∧ ∀ x ∈ ids, x ∈ l.found

/-- Nobody resumes before the round is gathered. -/
def Sound (l : Ledger) : Prop := l.resumed = true → l.Gathered

theorem Gathered.recv {l : Ledger} (h : l.Gathered) (fd : Int) :
    Gathered { l with done := l.done ++ [fd] } where
  count := h.count
  done k hk := List.mem_append_left _ (h.done k hk)
  manifest := h.manifest

theorem Sound.recv {l : Ledger} (h : l.Sound) (fd : Int) :
    Sound { l with done := l.done ++ [fd] } := fun hr => (h hr).recv fd

/-- A gathered round is committed when the manifest has a slot for every peer. -/
theorem Gathered.committed_iff {l : Ledger} (h : l.Gathered) :
    l.Committed ↔ l.peers ≤ manifestEntryMax := by
  obtain ⟨ids, hids, hnodup, hperm, -⟩ := h.manifest
  have hlen : ids.length = l.peers := by rw [hperm.length_eq, List.length_map, h.count]
  constructor
  · intro hc
    obtain ⟨ids', hids', -, hperm'⟩ := hc.manifest
    have hlen' : ids'.length = l.peers := by rw [hperm'.length_eq, List.length_map, hc.count]
    have htake : ids' = ids.take manifestEntryMax := by
      rw [hids] at hids'
      simpa using hids'.symm
    rw [htake, List.length_take] at hlen'
    omega
  · intro hroom
    refine ⟨h.count, h.done, ids, ?_, hnodup, hperm⟩
    rw [hids, List.take_of_length_le (by omega)]

end Ledger

/-- What the environment may answer. -/
def ledgerAllows (s : CoordInfo) (l : Ledger) :
    (c : CoordCall) → c.Answer → Prop
  | .accept, some fd => ∀ n ∈ s.procs, n.2.fd ≠ fd
  | .ckptfileExists _ id, true => id ∈ l.started.map Prod.snd
  | .compressedCkptExists _ id, true => id ∈ l.started.map Prod.snd
  | _, _ => True

def ledgerWorld : World CoordCall.Answer CoordInfo Ledger where
  answer s c l r l' := ledgerAllows s l c r ∧ l' = l.record s c r
  moves _ _ := False

section World
variable {inv : CoordInfo → Ledger → Prop}
  {ends : CoordInfo → CoordStop → Ledger → Prop} {s : CoordInfo} {l : Ledger}

theorem wp_ledger_call {c : CoordCall} {fin : CoordInfo → c.Answer → Ledger → Prop}
    (hinv : inv s l) (h : ∀ r, ledgerAllows s l c r → fin s r (l.record s c r)) :
    Wp ledgerWorld inv ends (Code.call c) s l fin := by
  refine Wp.call (fun l' => l' = l) (fun _ _ _ hm => hm.elim) rfl (fun _ hl => hl ▸ hinv) ?_
  rintro _ r _ rfl ⟨hr, rfl⟩
  exact h r hr

/-- A neutral call adds at most a completion to the ledger. -/
theorem record_neutral {c : CoordCall} (hc : c.neutral = true) (r : c.Answer) :
    l.record s c r = l ∨ ∃ fd, l.record s c r = { l with done := l.done ++ [fd] } := by
  cases c with
  | recv fd =>
      cases r with
      | none => exact .inl rfl
      | some msg =>
          simp only [Ledger.record]
          split
          · exact .inr ⟨fd, rfl⟩
          · exact .inl rfl
  | send fd msg =>
      cases r with
      | false => exact .inl rfl
      | true =>
          left
          rcases (by simpa [CoordCall.neutral] using hc : msg.hdr = .coordAck ∨
            msg.hdr = .ckptRequest ∨ msg.hdr = .resumeAfterRestart) with h | h | h <;>
            simp [Ledger.record, h]
  | _ => first | exact .inl rfl | cases hc

/-- No listed process has the descriptor that has just been accepted. -/
def Spare (fd : Option Int) (s : CoordInfo) : Prop := ∀ x ∈ fd, ∀ n ∈ s.procs, n.2.fd ≠ x

/-- The code keeps the shape of the list, the spare descriptor and `Q`. -/
abbrev KeepsLedger (Q : Ledger → Prop) (fd : Option Int) {α : Type} (m : InfoM α) : Prop :=
  Keeps (𝒲 := ledgerWorld) (fun _ l => Q l) (fun _ _ l => Q l)
    (fun s l => ListOk s ∧ Spare fd s ∧ Q l) m

/-- An assertion about the ledger that completions keep is kept by everything that
`Upkeep` speaks of. -/
theorem upkeep_ledger {Q : Ledger → Prop} (hQ : ∀ l fd, Q l → Q { l with done := l.done ++ [fd] })
    (fd : Option Int) :
    Upkeep ledgerWorld (fun _ l => Q l) (fun _ _ l => Q l)
      (fun s l => ListOk s ∧ Spare fd s ∧ Q l) := by
  have call : ∀ c : CoordCall, c.neutral = true → KeepsLedger Q fd (Code.call c) := by
    intro c hc s l h
    refine wp_ledger_call h.2.2 fun r _ => ⟨h.1, h.2.1, ?_⟩
    rcases record_neutral (s := s) (l := l) hc r with he | ⟨x, he⟩
    · rw [he]
      exact h.2.2
    · rw [he]
      exact hQ l x h.2.2
  have close : ∀ x : Int, KeepsLedger Q fd (closeIfOpen x) := fun x =>
    Keeps.ite (fun _ => call (.close x) rfl) fun _ => Keeps.pure ()
  refine ⟨⟨fun _ _ _ h _ => h.2.2, call⟩, fun p => ?_, fun p st => Keeps.modify fun s l h => ?_⟩
  · refine Keeps.bind ?_ fun a => Keeps.bind (Keeps.modify ?_) fun _ => ?_
    · exact fun s l h => wp_listProc (fun _ => h.2.2) fun _ _ => h
    · intro s l h
      refine ⟨h.1.sublist List.filter_sublist rfl, fun x hx n hn => ?_, h.2.2⟩
      exact h.2.1 x hx n (List.mem_filter.mp hn).1
    · refine Keeps.bind (close a.fd) fun _ => Keeps.bind (close a.oobFd) fun _ => ?_
      exact Keeps.modify fun s l h => ⟨h.1.congr rfl rfl, h.2⟩
  · refine ⟨h.1.setProc fun _ => rfl, fun x hx n hn => ?_, h.2.2⟩
    obtain ⟨m, hm, rfl⟩ := List.mem_map.mp hn
    split
    · exact h.2.1 x hx m hm
    · exact h.2.1 x hx m hm

end World

end Xnd.Coord
