import Xnd.Files.Fresh
import Xnd.Files.Reopen

/-!
# The descriptors of a process that restarts

The first loop of `fd_table_restore` dup's every inherited descriptor from the stream
its source is of, in the order of the descriptors.  A stream whose own number is taken
by another inherited stream is lost for the descriptors above it: they are dup'd from
what took its place.  With standard output and standard error swapped, both are the
new standard error after a restart.
-/
namespace Xnd.Files
open Function (update)

/-- **What a restart is to bring back** of the table in `m`, from the streams of `os`. -/
structure Restored (m : Memory) (os os' : Os) (m' : Memory) : Prop where
  shared : ∀ fd fd' s s', m.table fd = some s → m.table fd' = some s' →
    (os'.fileAt fd = os'.fileAt fd' ↔ s = s')
  stream : ∀ fd root, m.rootAt fd = some root → os'.fileAt fd = os.fileAt root
  reopened : ∀ fd s src, m.Reopens fd s src →
    ∃ d, (os'.fileAt fd).bind os'.file = some d ∧ d.target = .path src.path ∧
      (src.type = .file → d.offset = src.offset) ∧
      (src.type = .directory → (m'.stream src.dirp).map Stream.tell = some src.offset)
  closed : ∀ fd : Fd, fd.val < 3 → m.table fd = none → os'.desc fd = none

/-- The number of a stream that a descriptor above it is one of is not that of another
inherited stream. -/
def Untangled (m : Memory) : Prop :=
  ∀ fd, ∀ root ∈ m.rootAt fd, root < fd → ∀ root' ∈ m.rootAt root, root' = root

instance (m : Memory) : Decidable (Untangled m) :=
  decidable_of_iff (∀ fd, (m.rootAt fd).all fun root =>
      root < fd → (m.rootAt root).all (fun root' => root' = root) = true) (by
    simp only [Untangled, Option.all_eq_true, decide_eq_true_eq, Option.mem_def])

/-- The streams that the table has are different open files. -/
def Apart (m : Memory) (os : Os) : Prop :=
  ∀ fd, ∀ root ∈ m.rootAt fd, ∀ fd', ∀ root' ∈ m.rootAt fd',
    os.fileAt root = os.fileAt root' → root = root'

instance (m : Memory) (os : Os) : Decidable (Apart m os) :=
  decidable_of_iff (∀ fd, (m.rootAt fd).all fun root : Fd =>
      ∀ fd', (m.rootAt fd').all (fun root' : Fd =>
        os.fileAt root = os.fileAt root' → root = root') = true) (by
    simp only [Apart, Option.all_eq_true, decide_eq_true_eq, Option.mem_def])

/-! ## Sources -/

/-- What the restore rests on: an inherited source has the name of its root, and a stream
of a directory was made before the names that are still to come. -/
structure Sources (m : Memory) : Prop extends Unrestored m where
  dirp_lt : ∀ s src, m.source s = some src → src.type = .directory → src.dirp < m.next
  root : ∀ s src, m.source s = some src → src.type = .inherited → src.root.val = s

/-- A source that was written to, but for what it is of. -/
def FdSource.Kept (src src' : FdSource) : Prop :=
  src'.type = src.type ∧ src'.dirp = src.dirp ∧ src'.root = src.root ∧ src'.state ≠ .restored

/-- A source that was opened, or became a directory with a new stream. -/
def FdSource.New (src : FdSource) (next next' : Nat) : Prop :=
  src.type ≠ .inherited ∧ src.state ≠ .restored ∧
    (src.type = .directory → next ≤ src.dirp ∧ src.dirp < next')

namespace Sources
variable {m m' : Memory}

theorem kept (h : Sources m) {s : Nat} {src : FdSource} (hs : m.source s = some src) :
    src.Kept src := ⟨rfl, rfl, rfl, h.state s src hs⟩

/-- Sources are kept, but for one that is new. -/
theorem write (h : Sources m) (s₀ : Nat) (hnext : m.next ≤ m'.next)
    (hsource : ∀ s src', m'.source s = some src' →
      (∃ src, m.source s = some src ∧ src.Kept src') ∨ (s = s₀ ∧ src'.New m.next m'.next)) :
    Sources m' where
  state s src' hs := by
    obtain ⟨src, -, -, -, -, hstate⟩ | ⟨-, -, hstate, -⟩ := hsource s src' hs
    · exact hstate
    · exact hstate
  dirp s₁ s₂ src₁ src₂ h₁ h₂ hdir₁ hdir₂ heq := by
    -- a stream is from before, or it is the one of the new source
    have place : ∀ s src', m'.source s = some src' → src'.type = .directory →
        (∃ src, m.source s = some src ∧ src.type = .directory ∧ src.dirp = src'.dirp ∧
          src'.dirp < m.next) ∨ (s = s₀ ∧ m.next ≤ src'.dirp) := by
      intro s src' hs hdir
      obtain ⟨src, hs, htype, hdirp, -⟩ | ⟨rfl, -, -, hnew⟩ := hsource s src' hs
      · exact .inl ⟨src, hs, htype ▸ hdir, hdirp.symm, hdirp ▸ h.dirp_lt s src hs (htype ▸ hdir)⟩
      · exact .inr ⟨rfl, (hnew hdir).1⟩
    obtain ⟨src₁', hs₁, htype₁, hdirp₁, hlt₁⟩ | ⟨rfl, hle₁⟩ := place s₁ src₁ h₁ hdir₁ <;>
      obtain ⟨src₂', hs₂, htype₂, hdirp₂, hlt₂⟩ | ⟨rfl, hle₂⟩ := place s₂ src₂ h₂ hdir₂
    · exact h.dirp s₁ s₂ src₁' src₂' hs₁ hs₂ htype₁ htype₂ (by omega)
    · omega
    · omega
    · rfl
  dirp_lt s src' hs hdir := by
    obtain ⟨src, hs, htype, hdirp, -⟩ | ⟨-, -, -, hnew⟩ := hsource s src' hs
    · rw [hdirp]
      exact Nat.lt_of_lt_of_le (h.dirp_lt s src hs (htype ▸ hdir)) hnext
    · exact (hnew hdir).2
  root s src' hs hi := by
    obtain ⟨src, hs, htype, -, hroot, -⟩ | ⟨-, hni, -⟩ := hsource s src' hs
    · rw [hroot]
      exact h.root s src hs (htype ▸ hi)
    · exact absurd hi hni

/-- One source is written to. -/
theorem update (h : Sources m) {s : Nat} {src' : Option FdSource} (hnext : m.next ≤ m'.next)
    (hsource : m'.source = Function.update m.source s src')
    (hsrc : ∀ x ∈ src', (∃ src, m.source s = some src ∧ src.Kept x) ∨ x.New m.next m'.next) :
    Sources m' := by
  refine h.write s hnext fun s' x hs => ?_
  rw [hsource] at hs
  by_cases hss : s' = s
  · subst hss
    rw [Function.update_self] at hs
    exact (hsrc x hs).imp_right fun hnew => ⟨rfl, hnew⟩
  · rw [Function.update_of_ne hss] at hs
    exact .inl ⟨x, hs, h.kept hs⟩

/-! ## Calls -/

theorem init : Sources fdTableInit where
  state s src hs := by
    simp only [fdTableInit] at hs
    split at hs
    · obtain rfl := Option.some.inj hs
      rintro ⟨⟩
    · cases hs
  dirp s s' src src' hs _ hdir _ _ := by
    simp only [fdTableInit] at hs
    split at hs
    · obtain rfl := Option.some.inj hs
      cases hdir
    · cases hs
  dirp_lt s src hs hdir := by
    simp only [fdTableInit] at hs
    split at hs
    · obtain rfl := Option.some.inj hs
      cases hdir
    · cases hs
  root s src hs _ := by
    simp only [fdTableInit] at hs
    split at hs
    · obtain rfl := Option.some.inj hs
      rfl
    · cases hs

theorem openat (h : Sources m) (fd : Fd) (path : String) (flags : BitVec 32) (mode : Nat) :
    Sources (fdTableOpen m fd path flags mode) := by
  refine h.update (Nat.le_succ _) rfl fun x hx => .inr ?_
  obtain rfl := Option.some.inj hx
  exact ⟨nofun, nofun, nofun⟩

theorem close (h : Sources m) {fd : Fd} (hm : fdTableClose m fd = some m') : Sources m' := by
  rw [fdTableClose] at hm
  split at hm
  case h_1 =>
    obtain rfl := Option.some.inj hm
    exact h
  case h_2 s ht =>
    obtain ⟨src, hs, rfl⟩ := Option.map_eq_some_iff.mp hm
    split
    · exact h
    · refine h.update (Nat.le_refl _) rfl fun x hx => .inl ⟨src, hs, ?_⟩
      rw [FdSource.release] at hx
      split at hx
      · cases hx
      · obtain rfl := Option.some.inj hx
        exact ⟨rfl, rfl, rfl, h.state s src hs⟩

theorem dup (h : Sources m) {oldfd newfd : Fd} (hm : fdTableDup m oldfd newfd = some m') :
    Sources m' := by
  rw [fdTableDup] at hm
  split at hm
  case h_1 =>
    obtain rfl := Option.some.inj hm
    exact h
  case h_2 s ht =>
    obtain ⟨src, hs, rfl⟩ := Option.map_eq_some_iff.mp hm
    split
    · exact h
    · refine h.update (Nat.le_refl _) rfl fun x hx => .inl ⟨src, hs, ?_⟩
      obtain rfl := Option.some.inj hx
      exact ⟨rfl, rfl, rfl, h.state s src hs⟩

theorem opendir {w w' : Process} (h : Sources w.memory) {fd : Fd} {path : String} {tell : Int}
    (hw : w.tableOpendir fd path tell = some w') : Sources w'.memory := by
  obtain ⟨m, hm, rfl⟩ := Option.map_eq_some_iff.mp hw
  rw [fdTableOpendir] at hm
  split at hm
  case h_1 =>
    obtain rfl := Option.some.inj hm
    refine h.update (Nat.le_add_right _ 2) rfl fun x hx => .inr ?_
    obtain rfl := Option.some.inj hx
    exact ⟨by rintro ⟨⟩, by rintro ⟨⟩, fun _ => ⟨Nat.le_refl _, Nat.lt_succ_of_lt (Nat.lt_succ_self _)⟩⟩
  case h_2 s ht =>
    obtain ⟨src, hs, rfl⟩ := Option.map_eq_some_iff.mp hm
    refine h.update (Nat.le_succ _) rfl fun x hx => .inr ?_
    obtain rfl := Option.some.inj hx
    exact ⟨by rintro ⟨⟩, h.state s src hs, fun _ => ⟨Nat.le_refl _, Nat.lt_succ_self _⟩⟩

theorem freopen {w w' : Process} (h : Sources w.memory) {path : String} {oflag : BitVec 32}
    {oldfd newfd : Fd} (hw : w.tableFreopen path oflag oldfd newfd = some w') :
    Sources w'.memory := by
  obtain ⟨w₁, hw₁, hw⟩ := Option.bind_eq_some_iff.mp hw
  obtain ⟨w₂, hw₂, rfl⟩ := Option.map_eq_some_iff.mp hw
  have h₁ : Sources w₁.memory := by
    split at hw₁
    · obtain ⟨m, hm, rfl⟩ := Option.map_eq_some_iff.mp hw₁
      exact h.close hm
    · obtain rfl := Option.some.inj hw₁
      exact h
  obtain ⟨m, hm, rfl⟩ := Option.map_eq_some_iff.mp hw₂
  exact (h₁.close hm).openat newfd path oflag 0x1b6

/-- **A call.** -/
theorem step {w w' : Process} {c : Call} (h : Sources w.memory) (hstep : w.step c = some w') :
    Sources w'.memory := by
  obtain ⟨os, w₁, -, hw, rfl⟩ := Process.step_cases hstep
  show Sources w₁.memory
  cases c with
  | openat path flags mode ret =>
      obtain rfl := Option.some.inj hw
      exact h.openat ret path flags mode
  | opendir path tell fd | fdopendir fd path tell => exact h.opendir hw
  | dup oldfd newfd cloexec | dup2 oldfd newfd =>
      obtain ⟨m, hm, rfl⟩ := Option.map_eq_some_iff.mp hw
      exact h.dup hm
  | freopen path oflag oldfd newfd => exact h.freopen hw
  | close fd =>
      obtain ⟨m, hm, rfl⟩ := Option.map_eq_some_iff.mp hw
      exact h.close hm
  | setfl fd flags | setfd fd cloexec | seek fd pos =>
      obtain rfl := Option.some.inj hw
      exact h
  | walk dirp tell =>
      obtain ⟨d, -, rfl⟩ := Option.map_eq_some_iff.mp hw
      exact ⟨⟨h.state, h.dirp⟩, h.dirp_lt, h.root⟩

end Sources

theorem sources_of_runs {os : Os} {ok : Process → Call → Prop} {w : Process}
    (h : Process.step.Runs ok (.init os) w) : Sources w.memory :=
  h.invariant (I := fun w => Sources w.memory) (fun _ _ _ hw _ hstep => hw.step hstep) Sources.init

/-- What `file_save` and `dir_save` write to. -/
theorem opsSave_kept {k : Kernel} {m : Memory} {a : SaveAnswer} {fd : Fd} {src : FdSource}
    {r : Bool × FdSource} (hst : src.state ≠ .restored) (h : opsSave k m a fd src = some r) :
    src.Kept r.2 := by
  rw [opsSave] at h
  split at h
  case h_1 =>
    obtain rfl := Option.some.inj h
    unfold FdSource.fileSave
    split
    · exact ⟨rfl, rfl, rfl, hst⟩
    · split
      · exact ⟨rfl, rfl, rfl, hst⟩
      · split
        · exact ⟨rfl, rfl, rfl, hst⟩
        · exact ⟨rfl, rfl, rfl, by rintro ⟨⟩⟩
  case h_2 =>
    obtain rfl := Option.some.inj h
    unfold FdSource.dirSave
    split
    · exact ⟨rfl, rfl, rfl, hst⟩
    · split
      · exact ⟨rfl, rfl, rfl, hst⟩
      · exact ⟨rfl, rfl, rfl, by rintro ⟨⟩⟩
  case h_3 => cases h

theorem Sources.saveOne {k : Kernel} {a : SaveAnswer} {m m' : Memory} {fd : Fd} {ok : Bool}
    (h : Sources m) (hm : Files.saveOne k a m fd = some (ok, m')) : Sources m' := by
  rw [Files.saveOne] at hm
  split at hm
  case h_1 =>
    obtain ⟨-, rfl⟩ := Prod.mk.inj (Option.some.inj hm)
    exact h
  case h_2 s ht =>
    obtain ⟨src, hs, hm⟩ := Option.bind_eq_some_iff.mp hm
    split at hm
    · obtain ⟨-, rfl⟩ := Prod.mk.inj (Option.some.inj hm)
      exact h
    split at hm
    · obtain ⟨-, rfl⟩ := Prod.mk.inj (Option.some.inj hm)
      exact h
    obtain ⟨r, hr, hrm⟩ := Option.map_eq_some_iff.mp hm
    obtain ⟨-, rfl⟩ := Prod.mk.inj hrm
    refine h.update (Nat.le_refl _) rfl fun x hx => .inl ⟨src, hs, ?_⟩
    obtain rfl := Option.some.inj hx
    exact opsSave_kept (h.state s src hs) hr

theorem Sources.saveLoop {k : Kernel} {ans : Fd → SaveAnswer} {fds : List Fd} {m m' : Memory}
    {ok : Bool} (h : Sources m) (hm : Files.saveLoop k ans fds m = some (ok, m')) : Sources m' := by
  induction fds generalizing m ok with
  | nil =>
      obtain ⟨-, rfl⟩ := Prod.mk.inj (Option.some.inj hm)
      exact h
  | cons fd fds ih =>
      obtain ⟨ok₁, m₁, ok₂, h1, h2, -⟩ := saveLoop_cons hm
      exact ih (h.saveOne h1) h2

/-! ## The restore -/

/-- What is restored of the inherited descriptors, in the order of the first loop. -/
theorem Inherited.fileAt_eq_root {m : Memory} {os₀ os : Os} (h : Inherited m os₀ maxFiles os)
    {fd root : Fd} (hroot : m.rootAt fd = some root) (hle : fd ≤ root) :
    os.fileAt fd = os₀.fileAt root := by
  by_cases heq : fd = root
  · subst heq
    have hrest : os.desc fd = os₀.desc fd := by
      apply h.rest
      intro fd' root' hval hr hne
      obtain rfl := Fin.ext hval
      exact absurd (Option.some.inj (hr.symm.trans hroot)) hne
    rw [Os.fileAt, Os.fileAt, hrest]
  · exact h.above fd root hroot fd.isLt (Nat.lt_of_le_of_ne hle (Fin.val_ne_of_ne heq))

/-- A root that is not inherited, or is its own root, is left as it was. -/
theorem Inherited.fileAt_root {m : Memory} {os₀ os : Os} (h : Inherited m os₀ maxFiles os)
    {root : Fd} (hroot : ∀ root' ∈ m.rootAt root, root' = root) :
    os.fileAt root = os₀.fileAt root := by
  have hrest : os.desc root = os₀.desc root := by
    apply h.rest
    intro fd' root' hval hr hne
    obtain rfl := Fin.ext hval
    exact absurd (hroot root' hr) hne
  rw [Os.fileAt, Os.fileAt, hrest]

/-- What `fd_table_restore` does. -/
theorem fdTableRestore_spec {a : Reopening} {os os' : Os} {m m' : Memory} (hm : Unrestored m)
    (h : Os.fdTableRestore a os m = some (os', m')) :
    (∀ fd s, m.table fd = some s → m.source s ≠ none) ∧
      ∃ os₁ os₂ name, Inherited m os maxFiles os₁ ∧ Reopened a os₁ m name maxFiles (os₂, m') ∧
        os' = os₂.closeUntracked m := by
  obtain ⟨os₁, h₁, h⟩ := Option.bind_eq_some_iff.mp h
  obtain ⟨⟨os₂, m₂⟩, h₂, h⟩ := Option.map_eq_some_iff.mp h
  obtain ⟨rfl, rfl⟩ := Prod.mk.inj h
  obtain ⟨name, hre⟩ := forRange_restoreOne hm h₂
  refine ⟨fun _ _ => forRange_inheritOne_live h₁, os₁, os₂, name, forRange_inheritOne h₁, hre, ?_⟩
  rw [Os.closeUntracked, Os.closeUntracked, hre.table]

/-- A tracked descriptor is not closed. -/
theorem Os.closeUntracked_desc {os : Os} {m : Memory} {fd : Fd} (ht : m.table fd ≠ none) :
    (os.closeUntracked m).desc fd = os.desc fd := by
  simp only [closeUntracked, if_neg ht, dite_eq_ite, ite_self]

/-- An inherited descriptor after the restore. -/
theorem Reopened.fileAt_inherited {a : Reopening} {os₁ os₂ : Os} {m m' : Memory}
    {name : Nat → Nat} (h : Reopened a os₁ m name maxFiles (os₂, m')) {fd root : Fd}
    (hroot : m.rootAt fd = some root) : (os₂.closeUntracked m).fileAt fd = os₁.fileAt fd := by
  obtain ⟨s, src, ht, hs, hi, -⟩ := Memory.rootAt_eq_some.mp hroot
  have hrest : os₂.desc fd = os₁.desc fd := by
    apply h.rest
    intro fd' s' src' hval hre
    obtain rfl := Fin.ext hval
    obtain rfl := Option.some.inj (ht.symm.trans hre.1)
    exact absurd (Option.some.inj (hs.symm.trans hre.2.1) ▸ hi) hre.2.2
  rw [Os.fileAt, Os.closeUntracked_desc (by rw [ht]; rintro ⟨⟩), hrest, Os.fileAt]

/-- A file or directory after the restore. -/
theorem Reopened.fileAt_reopened {a : Reopening} {os₁ os₂ : Os} {m m' : Memory}
    {name : Nat → Nat} (h : Reopened a os₁ m name maxFiles (os₂, m')) {fd : Fd} {s : Nat}
    {src : FdSource} (hre : m.Reopens fd s src) :
    (os₂.closeUntracked m).fileAt fd = some (name s) := by
  obtain ⟨root, -, -, -, -, hdesc⟩ := h.root fd s src hre fd.isLt
  rw [Os.fileAt, Os.closeUntracked_desc (by rw [hre.1]; rintro ⟨⟩), hdesc, Option.map_some]

/-- A tracked descriptor is inherited, or it is restored by the second loop. -/
theorem Sources.tracked {m : Memory} (h : Sources m) {fd : Fd} {s : Nat}
    (ht : m.table fd = some s) (hs : m.source s ≠ none) :
    (∃ root : Fd, m.rootAt fd = some root ∧ root.val = s) ∨ ∃ src, m.Reopens fd s src := by
  obtain ⟨src, hs⟩ := Option.ne_none_iff_exists'.mp hs
  by_cases hi : src.type = .inherited
  · exact .inl ⟨src.root, Memory.rootAt_eq_some.mpr ⟨s, src, ht, hs, hi, rfl⟩, h.root s src hs hi⟩
  · exact .inr ⟨src, ht, hs, hi⟩

/-- An inherited descriptor is not restored by the second loop. -/
theorem Memory.Reopens.rootAt_ne {m : Memory} {fd fd' root : Fd} {s : Nat} {src : FdSource}
    (hre : m.Reopens fd s src) (ht : m.table fd' = some s) : m.rootAt fd' ≠ some root := by
  intro hroot
  obtain ⟨s', src', ht', hs', hi, -⟩ := Memory.rootAt_eq_some.mp hroot
  obtain rfl := Option.some.inj (ht.symm.trans ht')
  exact hre.2.2 (Option.some.inj (hre.2.1.symm.trans hs') ▸ hi)

/-- **A restart brings the table back** if and only if no descriptor is dup'd from a number
that another stream has taken, and the streams are different open files. -/
theorem restored_iff_untangled {os os₀ os' : Os} {w : Process} {seek : Fd → Bool} {ok : Bool}
    {m m' : Memory} {a : Reopening}
    (hrun : Process.step.Runs (fun _ _ => True) (.init os) w)
    (hsave : w.fdTableSave seek = some (ok, m))
    (hnamed : ∀ n e, os₀.desc n = some e → e.file < os₀.next)
    (hrestore : Os.fdTableRestore a os₀ m = some (os', m')) :
    Restored m os₀ os' m' ↔ Untangled m ∧ Apart m os₀ := by
  have hm : Sources m := (sources_of_runs hrun).saveLoop hsave
  obtain ⟨hlive, os₁, os₂, name, hinh, hre, rfl⟩ := fdTableRestore_spec hm.toUnrestored hrestore
  have source : ∀ fd root, m.rootAt fd = some root → m.table fd = some root.val := by
    intro fd root hr
    obtain ⟨s, src, ht, hs, hi, rfl⟩ := Memory.rootAt_eq_some.mp hr
    rw [ht, hm.root s src hs hi]
  constructor
  · intro h
    refine ⟨fun fd root hr hlt root' hr' => ?_, fun fd root hr fd' root' hr' heq => ?_⟩
    · have hsame : (os₂.closeUntracked m).fileAt fd = (os₂.closeUntracked m).fileAt root := by
        rw [hre.fileAt_inherited hr, hre.fileAt_inherited hr', hinh.below fd root hr fd.isLt hlt]
      have := (h.shared fd root _ _ (source fd root hr) (source root root' hr')).mp hsame
      exact (Fin.ext this).symm
    · have hsame : (os₂.closeUntracked m).fileAt fd = (os₂.closeUntracked m).fileAt fd' := by
        rw [h.stream fd root hr, h.stream fd' root' hr', heq]
      exact Fin.ext ((h.shared fd fd' _ _ (source fd root hr) (source fd' root' hr')).mp hsame)
  · rintro ⟨huntangled, hapart⟩
    have stream : ∀ fd root, m.rootAt fd = some root →
        (os₂.closeUntracked m).fileAt fd = os₀.fileAt root := by
      intro fd root hr
      rw [hre.fileAt_inherited hr]
      rcases Nat.lt_or_ge root fd with hlt | hge
      · rw [hinh.below fd root hr fd.isLt hlt]
        exact hinh.fileAt_root (huntangled fd root hr hlt)
      · exact hinh.fileAt_eq_root hr hge
    -- what was opened again is none of the streams
    have new : ∀ fd root fd' s src, m.rootAt fd = some root → m.Reopens fd' s src →
        (os₂.closeUntracked m).fileAt fd ≠ (os₂.closeUntracked m).fileAt fd' := by
      intro fd root fd' s src hr hre' heq
      rw [stream fd root hr, hre.fileAt_reopened hre'] at heq
      obtain ⟨e, he, hname⟩ := Option.map_eq_some_iff.mp heq
      have hold := hnamed root e he
      have hnew := (hre.named fd' s src hre' fd'.isLt).1
      rw [hinh.next] at hnew
      omega
    refine ⟨fun fd fd' s s' ht ht' => ?_, stream, fun fd s src hre' => ?_, fun fd hlt ht => ?_⟩
    · rcases hm.tracked ht (hlive fd s ht) with ⟨root, hr, rfl⟩ | ⟨src, hreo⟩ <;>
        rcases hm.tracked ht' (hlive fd' s' ht') with ⟨root', hr', rfl⟩ | ⟨src', hreo'⟩
      · rw [stream fd root hr, stream fd' root' hr']
        constructor
        · exact fun heq => congrArg Fin.val (hapart fd root hr fd' root' hr' heq)
        · exact fun heq => by rw [heq]
      · refine iff_of_false (new fd root fd' s' src' hr hreo') ?_
        rintro rfl
        exact hreo'.rootAt_ne ht hr
      · refine iff_of_false (new fd' root' fd s src hr' hreo).symm ?_
        rintro rfl
        exact hreo.rootAt_ne ht' hr'
      · rw [hre.fileAt_reopened hreo, hre.fileAt_reopened hreo', Option.some.injEq]
        constructor
        · exact hre.inj fd fd' s s' src src' hreo fd.isLt hreo' fd'.isLt
        · exact fun heq => by rw [heq]
    · obtain ⟨⟨d, hd, htarget, -, -, hoffset⟩, htell⟩ := hre.back fd s src hre' fd.isLt
      rw [hre.fileAt_reopened hre']
      exact ⟨d, hd, htarget, hoffset, htell⟩
    · simp only [Os.closeUntracked]
      rw [dif_pos hlt, if_pos ht]

/-- A file in the place of the standard input, and a second standard output. -/
theorem restored_iff_untangled_input : ∃ w m os' m',
    Process.step.Runs (fun _ _ => True) (.init threeStreams) w ∧
    w.fdTableSave (fun _ => true) = some (true, m) ∧
    Os.fdTableRestore ⟨fun _ => some 5, fun _ => true⟩ threeStreams m = some (os', m') ∧
    Restored m threeStreams os' m' := by
  obtain ⟨w, hruns, hw⟩ := Machine.exists_runs Process.step (fun _ _ => True) (.init threeStreams)
    (fun w => (w.fdTableSave (fun _ => true)).any fun r => r.1 &&
      ((Os.fdTableRestore ⟨fun _ => some 5, fun _ => true⟩ threeStreams r.2).isSome &&
        (Untangled r.2 && Apart r.2 threeStreams)))
    [.openat "in" 0 0 3, .dup2 3 0, .close 3, .dup 1 3 false, .seek 0 7] (by decide +kernel)
  obtain ⟨⟨ok, m⟩, hsave, hm⟩ := (Option.any_eq_true ..).mp hw
  simp only [Bool.and_eq_true, decide_eq_true_eq] at hm
  obtain ⟨rfl, hrestore, hcond⟩ := hm
  obtain ⟨⟨os', m'⟩, hrestore⟩ := Option.isSome_iff_exists.mp hrestore
  refine ⟨w, m, os', m', hruns, hsave, hrestore, ?_⟩
  exact (restored_iff_untangled hruns hsave threeStreams_named hrestore).mpr hcond

/-- Standard output and standard error are swapped. -/
theorem not_restored : ¬ ∀ os w seek ok m os₀ os' m' a,
    Process.step.Runs (fun _ _ => True) (.init os) w → w.fdTableSave seek = some (ok, m) →
    (∀ n e, os₀.desc n = some e → e.file < os₀.next) →
    Os.fdTableRestore a os₀ m = some (os', m') → Restored m os₀ os' m' := by
  intro H
  obtain ⟨w, hruns, hw⟩ := Machine.exists_runs Process.step (fun _ _ => True) (.init threeStreams)
    (fun w => (w.fdTableSave (fun _ => true)).any fun r => r.2.rootAt 2 = some 1 &&
      (Os.fdTableRestore ⟨fun _ => none, fun _ => true⟩ threeStreams r.2).any fun x =>
        x.1.fileAt 2 = some 2)
    [.dup 1 3 false, .dup2 2 1, .dup2 3 2] (by decide +kernel)
  obtain ⟨⟨ok, m⟩, hsave, hm⟩ := (Option.any_eq_true ..).mp hw
  simp only [Bool.and_eq_true, decide_eq_true_eq] at hm
  obtain ⟨hroot, hrestore⟩ := hm
  obtain ⟨⟨os', m'⟩, hrestore, hfile⟩ := (Option.any_eq_true ..).mp hrestore
  have := (H _ w _ ok m _ os' m' _ hruns hsave threeStreams_named hrestore).stream 2 1 hroot
  have htwo : os'.fileAt 2 = some 2 := of_decide_eq_true hfile
  exact absurd (htwo.symm.trans this) (by decide)

end Xnd.Files
