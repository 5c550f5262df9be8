import Xnd.Files.Refs
import Xnd.Lib.Loop

/-!
# Saving and reopening the descriptors of a process

`fd_table_save` reads the flags and the position of every source off one descriptor of
it, and `fd_table_restore` makes the descriptors again in a process that was started
with other streams.  Both are on the kernel of `Xnd.Files.Calls`, where descriptors
share descriptions.  The loops of the restore run in the order of the descriptors.
-/
namespace Xnd.Files
open Function (update)

/-! ## `fd_table_save` -/

namespace Os

/-- The description that a descriptor refers to. -/
def fileAt (os : Os) (fd : Nat) : Option Nat := (os.desc fd).map Entry.file

/-- What `lseek` reads of the descriptors. -/
def kernel (os : Os) : Kernel where
  desc fd := (os.fileAt fd).map .opened
  offset
    | .inherited _ => none
    | .opened n => (os.file n).map Description.offset
  opened := os.next

/-- The answers to the calls of `file_save` and `dir_save`.  `seek` is whether `lseek`, or
`telldir`, is answered. -/
def saveAnswer (os : Os) (seek : Fd → Bool) (fd : Fd) : SaveAnswer where
  seek := seek fd
  getfl := ((os.fileAt fd).bind os.file).map Description.status
  getfd := (os.desc fd).map fun e => if e.cloexec then fdCloexec else 0

/-- What `open` does to the descriptors. -/
theorem openFile_fileAt {os os' : Os} {path : String} {flags : BitVec 32} {fd : Fd}
    (h : os.openFile path flags fd = some os') :
    os'.fileAt fd ≠ none ∧ ∀ fd' : Fd, fd' ≠ fd → os'.fileAt fd' = os.fileAt fd' := by
  obtain ⟨-, rfl⟩ := openFile_spec h
  refine ⟨by simp [fileAt], fun fd' hf => ?_⟩
  simp only [fileAt, Function.update_of_ne (Fin.val_ne_of_ne hf)]

theorem close_fileAt {os os' : Os} {fd : Fd} (h : os.close fd = some os') (fd' : Fd)
    (hf : fd' ≠ fd) : os'.fileAt fd' = os.fileAt fd' := by
  obtain ⟨-, rfl⟩ := close_spec h
  simp only [fileAt, Function.update_of_ne (Fin.val_ne_of_ne hf)]

end Os

def Process.fdTableSave (w : Process) (seek : Fd → Bool) : Option (Bool × Memory) :=
  Files.fdTableSave w.os.kernel (w.os.saveAnswer seek) w.memory

/-! ## `fd_table_restore` -/

/-- The answers to the calls of `fd_table_restore`. -/
structure Reopening where
  /-- What `open` returns for the source that is restored at `fd`, -1 for none. -/
  ret : Fd → Option Nat
  /-- Whether the file can be seeked. -/
  seekable : Fd → Bool

namespace Os

/-- `open`, and `dup2` to `fd` and `close` when it returned another number. -/
def reopen (os : Os) (path : String) (flags : BitVec 32) (ret fd : Nat) : Option Os :=
  (os.openFile path flags ret).bind fun os =>
    if ret ≠ fd then (os.dup2 ret fd false).bind fun os => os.close ret else some os

/-- `file_restore` -/
def fileRestore (a : Reopening) (x : Os × Memory) (fd : Fd) (s : Nat) (src : FdSource) :
    Option (Os × Memory) :=
  (a.ret fd).bind fun ret => (x.1.reopen src.path src.flags ret fd).bind fun os =>
    if src.offset < 0 ∨ a.seekable fd = false then none
    else (os.seek fd src.offset).map fun os =>
      (os, x.2.setSource s { src with root := fd, state := .restored })

/-- `dir_restore`.  The stream has to be there for `seekdir`. -/
def dirRestore (a : Reopening) (x : Os × Memory) (fd : Fd) (s : Nat) (src : FdSource) :
    Option (Os × Memory) :=
  (a.ret fd).bind fun ret => (x.1.reopen src.path src.flags ret fd).bind fun os =>
    (x.2.stream src.dirp).map fun d =>
      (os, { x.2.setSource s { src with root := fd, state := .restored } with
        stream := update x.2.stream src.dirp (some { d with tell := src.offset }) })

/-- `fd_ops[type].restore(fd)` -/
def opsRestore (a : Reopening) (x : Os × Memory) (fd : Fd) (s : Nat) (src : FdSource) :
    Option (Os × Memory) :=
  match src.type with
  | .file => fileRestore a x fd s src
  | .directory => dirRestore a x fd s src
  | _ => none

/-- One turn of the first loop, over the inherited descriptors. -/
def inheritOne (m : Memory) (os : Os) (fd : Fd) : Option Os :=
  match m.table fd with
  | none => some os
  | some s => (m.source s).bind fun src =>
      if src.type = .inherited ∧ fd ≠ src.root then os.dup2 src.root fd false else some os

/-- One turn of the second loop. -/
def restoreOne (a : Reopening) (x : Os × Memory) (fd : Fd) : Option (Os × Memory) :=
  match x.2.table fd with
  | none => some x
  | some s => (x.2.source s).bind fun src =>
      if src.type = .inherited then some x
      else if src.state = .restored then (x.1.dup2 src.root fd false).map fun os => (os, x.2)
      else opsRestore a x fd s src

/-- The last loop: descriptors 0 to 2 that had been closed. -/
def closeUntracked (m : Memory) (os : Os) : Os :=
  { os with desc := fun n => if h : n < 3 then
      if m.table ⟨n, lt_maxFiles h⟩ = none then none else os.desc n
    else os.desc n }

/-- `fd_table_restore`, of the memory of an image.  There is no value when it aborts. -/
def fdTableRestore (a : Reopening) (os : Os) (m : Memory) : Option (Os × Memory) :=
  (forRange (inheritOne m) os).bind fun os =>
    (forRange (restoreOne a) (os, m)).map fun x => (closeUntracked x.2 x.1, x.2)

/-- What `reopen` does. -/
theorem reopen_spec {os os' : Os} {path : String} {flags : BitVec 32} {ret fd : Nat}
    (h : os.reopen path flags ret fd = some os') :
    os' = { desc := update os.desc fd (some ⟨os.next, ret = fd ∧ flags &&& oCloexec ≠ 0⟩)
            file := update os.file os.next (some ⟨.path path, flags, flags &&& statusFlags, 0⟩)
            next := os.next + 1 } := by
  obtain ⟨os₁, hopen, h⟩ := Option.bind_eq_some_iff.mp h
  obtain ⟨hfree, rfl⟩ := openFile_spec hopen
  by_cases hret : ret = fd
  · rw [if_neg (not_not.mpr hret)] at h
    obtain rfl := Option.some.inj h
    simp [hret]
  · rw [if_pos hret] at h
    obtain ⟨os₂, hdup, hclose⟩ := Option.bind_eq_some_iff.mp h
    obtain ⟨e, he, rfl⟩ := Option.map_eq_some_iff.mp hdup
    obtain ⟨-, rfl⟩ := close_spec hclose
    simp only [Function.update_self, Option.some.injEq] at he
    subst he
    -- The number that `open` returned was free and is free again.
    have hsame : update os.desc ret none = os.desc := by rw [← hfree, Function.update_eq_self]
    have hdesc : ∀ v : Option Entry, update (update (update os.desc ret v) fd
        (some ⟨os.next, false⟩)) ret none = update os.desc fd (some ⟨os.next, false⟩) := by
      intro v
      rw [Function.update_comm (Ne.symm hret), Function.update_idem, hsame]
    simp [hret, hdesc]

/-- What `file_restore` and `dir_restore` do: a description is opened at the descriptor, as
the source has it, and the source is marked. -/
theorem opsRestore_spec {a : Reopening} {x x' : Os × Memory} {fd : Fd} {s : Nat} {src : FdSource}
    (h : opsRestore a x fd s src = some x') :
    ∃ d : Description, d.target = .path src.path ∧ d.flags = src.flags ∧
      d.status = src.flags &&& statusFlags ∧ (src.type = .file → d.offset = src.offset) ∧
      x'.1 =
        { desc := update x.1.desc fd
            (some ⟨x.1.next, a.ret fd = some fd.val ∧ src.flags &&& oCloexec ≠ 0⟩)
          file := update x.1.file x.1.next (some d)
          next := x.1.next + 1 } ∧
      x'.2.table = x.2.table ∧
      x'.2.source = update x.2.source s (some { src with root := fd, state := .restored }) ∧
      (src.type = .directory → (x'.2.stream src.dirp).map Stream.tell = some src.offset) ∧
      ∀ n, (src.type = .directory → n ≠ src.dirp) → x'.2.stream n = x.2.stream n := by
  rw [opsRestore] at h
  split at h
  case h_1 htype =>
    obtain ⟨ret, hret, h⟩ := Option.bind_eq_some_iff.mp h
    obtain ⟨os₁, hopen, h⟩ := Option.bind_eq_some_iff.mp h
    split at h
    · cases h
    obtain ⟨os₂, hseek, rfl⟩ := Option.map_eq_some_iff.mp h
    obtain rfl := reopen_spec hopen
    obtain ⟨e, he, hseek⟩ := Option.bind_eq_some_iff.mp hseek
    simp only [Function.update_self, Option.some.injEq] at he
    subst he
    obtain ⟨d, hd, rfl⟩ := Option.map_eq_some_iff.mp hseek
    simp only [Function.update_self, Option.some.injEq] at hd
    subst hd
    refine ⟨⟨.path src.path, src.flags, src.flags &&& statusFlags, src.offset⟩, rfl, rfl, rfl,
      fun _ => rfl, ?_, rfl, rfl, ?_, fun _ _ => rfl⟩
    · simp only [Function.update_idem, hret, Option.some.injEq]
    · rw [htype]
      exact nofun
  case h_2 htype =>
    obtain ⟨ret, hret, h⟩ := Option.bind_eq_some_iff.mp h
    obtain ⟨os₁, hopen, h⟩ := Option.bind_eq_some_iff.mp h
    obtain ⟨d, hd, rfl⟩ := Option.map_eq_some_iff.mp h
    obtain rfl := reopen_spec hopen
    refine ⟨⟨.path src.path, src.flags, src.flags &&& statusFlags, 0⟩, rfl, rfl, rfl, ?_, ?_,
      rfl, rfl, fun _ => ?_, fun n hn => ?_⟩
    · rw [htype]
      exact nofun
    · simp only [hret, Option.some.injEq]
    · simp
    · exact Function.update_of_ne (hn htype) ..
  case h_3 => cases h

end Os

/-! ## The inherited descriptors -/

/-- The number that the stream of an inherited descriptor had. -/
def Memory.rootAt (m : Memory) (fd : Fd) : Option Fd :=
  ((m.table fd).bind m.source).bind fun src => if src.type = .inherited then some src.root else none

theorem Memory.rootAt_eq_some {m : Memory} {fd root : Fd} :
    m.rootAt fd = some root ↔ ∃ s src, m.table fd = some s ∧ m.source s = some src ∧
      src.type = .inherited ∧ src.root = root := by
  simp only [rootAt, Option.bind_eq_some_iff, Option.ite_none_right_eq_some, Option.some.injEq]
  constructor
  · rintro ⟨src, ⟨s, ht, hs⟩, htype, hroot⟩
    exact ⟨s, src, ht, hs, htype, hroot⟩
  · rintro ⟨s, src, ht, hs, htype, hroot⟩
    exact ⟨src, ⟨s, ht, hs⟩, htype, hroot⟩

/-- What a turn of the first loop does. -/
theorem inheritOne_cases {m : Memory} {os os' : Os} {fd : Fd}
    (h : os.inheritOne m fd = some os') :
    (os' = os ∧ ∀ root, m.rootAt fd = some root → root = fd) ∨
      ∃ root e, m.rootAt fd = some root ∧ root ≠ fd ∧ os.desc root = some e ∧
        os' = { os with desc := update os.desc fd (some ⟨e.file, false⟩) } := by
  rw [Os.inheritOne] at h
  split at h
  case h_1 ht =>
    obtain rfl := Option.some.inj h
    exact .inl ⟨rfl, fun root hr => by simp [Memory.rootAt, ht] at hr⟩
  case h_2 s ht =>
    obtain ⟨src, hs, h⟩ := Option.bind_eq_some_iff.mp h
    split at h
    case isTrue hi =>
      obtain ⟨e, he, rfl⟩ := Option.map_eq_some_iff.mp h
      refine .inr ⟨src.root, e, Memory.rootAt_eq_some.mpr ⟨s, src, ht, hs, hi.1, rfl⟩,
        Ne.symm hi.2, he, if_neg fun heq => hi.2 (Fin.ext heq).symm⟩
    case isFalse hi =>
      obtain rfl := Option.some.inj h
      refine .inl ⟨rfl, fun root hr => ?_⟩
      obtain ⟨s', src', ht', hs', htype, hroot⟩ := Memory.rootAt_eq_some.mp hr
      obtain rfl := Option.some.inj (ht.symm.trans ht')
      obtain rfl := Option.some.inj (hs.symm.trans hs')
      by_contra hne
      exact hi ⟨htype, fun heq => hne (hroot.symm.trans heq.symm)⟩

/-- After `k` turns of the first loop.  A root above a descriptor is still the stream that
was there at first; one below has had its own turn. -/
structure Inherited (m : Memory) (os₀ : Os) (k : Nat) (os : Os) : Prop where
  file : os.file = os₀.file
  next : os.next = os₀.next
  rest : ∀ n : Nat, (∀ fd root, n = fd.val → m.rootAt fd = some root → root ≠ fd → k ≤ n) →
    os.desc n = os₀.desc n
  above : ∀ fd root, m.rootAt fd = some root → fd.val < k → fd < root →
    os.fileAt fd = os₀.fileAt root
  below : ∀ fd root, m.rootAt fd = some root → fd.val < k → root < fd →
    os.fileAt fd = os.fileAt root

theorem Inherited.step {m : Memory} {os₀ os os' : Os} {fd : Fd} (h : Inherited m os₀ fd os)
    (hstep : os.inheritOne m fd = some os') : Inherited m os₀ (fd + 1) os' := by
  rcases inheritOne_cases hstep with ⟨rfl, hroot⟩ | ⟨root, e, hroot, hne, he, rfl⟩
  · -- The descriptor stays, and so it is its own root if it is inherited.
    have own : ∀ fd' root, m.rootAt fd' = some root → root ≠ fd' → fd'.val < fd + 1 →
        fd'.val < fd := by
      intro fd' root hr hne hlt
      have : fd' ≠ fd := by
        rintro rfl
        exact hne (hroot root hr)
      have := Fin.val_ne_of_ne this
      omega
    refine ⟨h.file, h.next, fun n hn => h.rest n fun fd' root hn' hr hne => ?_,
      fun fd' root hr hlt hab => ?_, fun fd' root hr hlt hbe => ?_⟩
    · exact Nat.le_of_succ_le (hn fd' root hn' hr hne)
    · exact h.above fd' root hr (own fd' root hr (Ne.symm (Fin.ne_of_lt hab)) hlt) hab
    · exact h.below fd' root hr (own fd' root hr (Fin.ne_of_lt hbe) hlt) hbe
  · have frame : ∀ n : Nat, n ≠ fd →
        (Os.mk (update os.desc fd (some ⟨e.file, false⟩)) os.file os.next).fileAt n = os.fileAt n :=
      fun n hn => by simp only [Os.fileAt, Function.update_of_ne hn]
    have here : (Os.mk (update os.desc fd (some ⟨e.file, false⟩)) os.file os.next).fileAt fd =
        os.fileAt root := by simp [Os.fileAt, he]
    refine ⟨h.file, h.next, fun n hn => ?_, fun fd' root' hr hlt hab => ?_,
      fun fd' root' hr hlt hbe => ?_⟩
    · have hnfd : n ≠ fd := by
        intro heq
        have := hn fd root heq hroot hne
        omega
      show update os.desc fd _ n = os₀.desc n
      rw [Function.update_of_ne hnfd]
      exact h.rest n fun fd' root hn' hr hne => Nat.le_of_succ_le (hn fd' root hn' hr hne)
    · by_cases hf : fd' = fd
      · subst hf
        obtain rfl := Option.some.inj (hroot.symm.trans hr)
        rw [here]
        have hlater : os.desc root = os₀.desc root :=
          h.rest root fun fd'' _ heq _ _ => Nat.le_of_lt hab
        rw [Os.fileAt, Os.fileAt, hlater]
      · have hf := Fin.val_ne_of_ne hf
        rw [frame fd' hf]
        exact h.above fd' root' hr (by omega) hab
    · by_cases hf : fd' = fd
      · subst hf
        obtain rfl := Option.some.inj (hroot.symm.trans hr)
        rw [here, frame root (Nat.ne_of_lt hbe)]
      · have hf := Fin.val_ne_of_ne hf
        have hbe' : root'.val < fd'.val := hbe
        rw [frame fd' hf, frame root' (by omega)]
        exact h.below fd' root' hr (by omega) hbe

theorem inherited_start (m : Memory) (os : Os) : Inherited m os 0 os :=
  ⟨rfl, rfl, fun _ _ => rfl, nofun, nofun⟩

/-- The first loop. -/
theorem forRange_inheritOne {m : Memory} {os₀ os : Os}
    (h : forRange (Os.inheritOne m) os₀ = some os) : Inherited m os₀ maxFiles os :=
  forRange_invariant (fun _ _ _ hos hstep => hos.step hstep) (inherited_start m os₀) h

/-- The first loop reads the source of every entry. -/
theorem forRange_inheritOne_live {m : Memory} {os₀ os : Os}
    (h : forRange (Os.inheritOne m) os₀ = some os) {fd : Fd} {s : Nat}
    (ht : m.table fd = some s) : m.source s ≠ none := by
  refine forRange_invariant (P := fun k _ => ∀ fd s, m.table fd = some s → fd.val < k →
    m.source s ≠ none) ?_ (fun _ _ _ hlt => absurd hlt (Nat.not_lt_zero _)) h fd s ht fd.isLt
  intro i os os' hlive hstep fd s ht hlt
  by_cases hfd : fd = i
  · subst hfd
    rw [Os.inheritOne, ht] at hstep
    obtain ⟨src, hs, -⟩ := Option.bind_eq_some_iff.mp hstep
    rw [hs]
    exact nofun
  · have := Fin.val_ne_of_ne hfd
    exact hlive fd s ht (by omega)

/-! ## The files and directories -/

/-- A descriptor that the second loop restores, with its source. -/
def Memory.Reopens (m : Memory) (fd : Fd) (s : Nat) (src : FdSource) : Prop :=
  m.table fd = some s ∧ m.source s = some src ∧ src.type ≠ .inherited

theorem Memory.Reopens.eq {m : Memory} {fd fd' : Fd} {s : Nat} {src src' : FdSource}
    (h : m.Reopens fd s src) (h' : m.Reopens fd' s src') : src' = src :=
  Option.some.inj (h'.2.1.symm.trans h.2.1)

/-- No source is in `FD_STATE_RESTORED`, and the streams of two directories are two. -/
structure Unrestored (m : Memory) : Prop where
  state : ∀ s src, m.source s = some src → src.state ≠ .restored
  dirp : ∀ s s' src src', m.source s = some src → m.source s' = some src' →
    src.type = .directory → src'.type = .directory → src.dirp = src'.dirp → s = s'

/-- What a turn of the second loop does. -/
theorem restoreOne_cases {a : Reopening} {x x' : Os × Memory} {fd : Fd}
    (h : Os.restoreOne a x fd = some x') :
    (x' = x ∧ ∀ s src, ¬ x.2.Reopens fd s src) ∨
      ∃ s src, x.2.Reopens fd s src ∧
        ((src.state = .restored ∧ ∃ os, x.1.dup2 src.root fd false = some os ∧ x' = (os, x.2)) ∨
          (src.state ≠ .restored ∧ Os.opsRestore a x fd s src = some x')) := by
  rw [Os.restoreOne] at h
  split at h
  case h_1 ht =>
    obtain rfl := Option.some.inj h
    exact .inl ⟨rfl, fun s src hre => absurd (ht.symm.trans hre.1) nofun⟩
  case h_2 s ht =>
    obtain ⟨src, hs, h⟩ := Option.bind_eq_some_iff.mp h
    by_cases hi : src.type = .inherited
    · rw [if_pos hi] at h
      obtain rfl := Option.some.inj h
      refine .inl ⟨rfl, fun s' src' hre => hre.2.2 ?_⟩
      obtain rfl := Option.some.inj (ht.symm.trans hre.1)
      exact Option.some.inj (hs.symm.trans hre.2.1) ▸ hi
    · rw [if_neg hi] at h
      refine .inr ⟨s, src, ⟨ht, hs, hi⟩, ?_⟩
      by_cases hst : src.state = .restored
      · rw [if_pos hst] at h
        obtain ⟨os, hdup, rfl⟩ := Option.map_eq_some_iff.mp h
        exact .inl ⟨hst, os, hdup, rfl⟩
      · rw [if_neg hst] at h
        exact .inr ⟨hst, h⟩

/-- A description of a file or directory that was opened again. -/
structure Back (x : Os × Memory) (src : FdSource) (n : Nat) : Prop where
  file : ∃ d, x.1.file n = some d ∧ d.target = .path src.path ∧ d.flags = src.flags ∧
    d.status = src.flags &&& statusFlags ∧ (src.type = .file → d.offset = src.offset)
  stream : src.type = .directory → (x.2.stream src.dirp).map Stream.tell = some src.offset

/-- After `k` turns of the second loop.  The first descriptor of a source is its root, and
every later one is dup'd from there; `name s` is the description of the source. -/
structure Reopened (a : Reopening) (os₁ : Os) (m : Memory) (name : Nat → Nat) (k : Nat)
    (x : Os × Memory) : Prop where
  table : x.2.table = m.table
  next : os₁.next ≤ x.1.next
  rest : ∀ n : Nat, (∀ fd s src, n = fd.val → m.Reopens fd s src → k ≤ n) →
    x.1.desc n = os₁.desc n
  absent : ∀ s, m.source s = none → x.2.source s = none
  pending : ∀ s src, m.source s = some src → (∀ fd, m.Reopens fd s src → k ≤ fd.val) →
    x.2.source s = some src
  root : ∀ fd s src, m.Reopens fd s src → fd.val < k → ∃ root : Fd,
    x.2.source s = some { src with root := root, state := .restored } ∧ root.val ≤ fd ∧
    m.table root = some s ∧ (∀ fd', m.table fd' = some s → root.val ≤ fd') ∧
    x.1.desc fd = some
      ⟨name s, fd = root ∧ a.ret fd = some fd.val ∧ src.flags &&& oCloexec ≠ 0⟩
  named : ∀ fd s src, m.Reopens fd s src → fd.val < k → os₁.next ≤ name s ∧ name s < x.1.next
  back : ∀ fd s src, m.Reopens fd s src → fd.val < k → Back x src (name s)
  inj : ∀ fd fd' s s' src src', m.Reopens fd s src → fd.val < k → m.Reopens fd' s' src' →
    fd'.val < k → name s = name s' → s = s'

namespace Reopened
variable {a : Reopening} {os₁ : Os} {m : Memory} {name : Nat → Nat} {k : Nat} {x x' : Os × Memory}
  {fd : Fd} {s : Nat} {src src' : FdSource}

/-- A source that is marked has had its turn, and no other has. -/
theorem reopens (h : Reopened a os₁ m name k x) (hre : x.2.Reopens fd s src') :
    ∃ src, m.Reopens fd s src ∧ ((src' = src ∧ ∀ fd', m.Reopens fd' s src → k ≤ fd'.val) ∨
      ∃ fd' root, m.Reopens fd' s src ∧ fd'.val < k ∧
        src' = { src with root := root, state := .restored }) := by
  obtain ⟨ht, hs', hi⟩ := hre
  rw [h.table] at ht
  cases hs : m.source s with
  | none => exact absurd (hs'.symm.trans (h.absent s hs)) nofun
  | some src =>
      by_cases hdone : ∃ fd', m.Reopens fd' s src ∧ fd'.val < k
      · obtain ⟨fd', hre, hlt⟩ := hdone
        obtain ⟨root, hroot, -⟩ := h.root fd' s src hre hlt
        obtain rfl := Option.some.inj (hs'.symm.trans hroot)
        exact ⟨src, ⟨ht, hs, hi⟩, .inr ⟨fd', root, hre, hlt, rfl⟩⟩
      · have hlater : ∀ fd', m.Reopens fd' s src → k ≤ fd'.val := fun fd' hre =>
          Nat.le_of_not_lt fun hlt => hdone ⟨fd', hre, hlt⟩
        obtain rfl := Option.some.inj (hs'.symm.trans (h.pending s src hs hlater))
        exact ⟨src', ⟨ht, hs, hi⟩, .inl ⟨rfl, hlater⟩⟩

/-- Every descriptor that is to be restored is one in the memory at hand. -/
theorem reopens_of (h : Reopened a os₁ m name k x) (hre : m.Reopens fd s src) :
    ∃ src', x.2.Reopens fd s src' := by
  have ht : x.2.table fd = some s := h.table ▸ hre.1
  by_cases hdone : ∃ fd', m.Reopens fd' s src ∧ fd'.val < k
  · obtain ⟨fd', hre', hlt⟩ := hdone
    obtain ⟨root, hroot, -⟩ := h.root fd' s src hre' hlt
    exact ⟨_, ht, hroot, hre.2.2⟩
  · exact ⟨src, ht, h.pending s src hre.2.1 fun fd' hre' =>
      Nat.le_of_not_lt fun hlt => hdone ⟨fd', hre', hlt⟩, hre.2.2⟩

/-- A turn for a descriptor that the loop does not restore. -/
theorem skip (h : Reopened a os₁ m name fd x) (hno : ∀ s src, ¬ m.Reopens fd s src) :
    Reopened a os₁ m name (fd + 1) x := by
  have before : ∀ fd' s src, m.Reopens fd' s src → fd'.val < fd + 1 → fd'.val < fd := by
    intro fd' s src hre hlt
    have : fd' ≠ fd := by
      rintro rfl
      exact hno s src hre
    have := Fin.val_ne_of_ne this
    omega
  refine ⟨h.table, h.next, fun n hn => ?_, h.absent, fun s src hs hlater => ?_,
    fun fd' s src hre hlt => ?_, fun fd' s src hre hlt => ?_, fun fd' s src hre hlt => ?_, ?_⟩
  · exact h.rest n fun fd' s src heq hre => Nat.le_of_succ_le (hn fd' s src heq hre)
  · exact h.pending s src hs fun fd' hre => Nat.le_of_succ_le (hlater fd' hre)
  · exact h.root fd' s src hre (before fd' s src hre hlt)
  · exact h.named fd' s src hre (before fd' s src hre hlt)
  · exact h.back fd' s src hre (before fd' s src hre hlt)
  · intro fd₁ fd₂ s s' src src' h₁ hlt₁ h₂ hlt₂
    exact h.inj fd₁ fd₂ s s' src src' h₁ (before _ _ _ h₁ hlt₁) h₂ (before _ _ _ h₂ hlt₂)

/-- A descriptor is dup'd from the root of its source. -/
theorem dup (h : Reopened a os₁ m name fd x) (hre : m.Reopens fd s src) {fd' root : Fd}
    (hre' : m.Reopens fd' s src) (hlt' : fd'.val < fd)
    (hs : x.2.source s = some { src with root := root, state := .restored })
    {os : Os} (hdup : x.1.dup2 root fd false = some os) :
    Reopened a os₁ m name (fd + 1) (os, x.2) := by
  obtain ⟨root', hs', hle, htroot, hmin, -⟩ := h.root fd' s src hre' hlt'
  obtain rfl : root = root' := congrArg FdSource.root (Option.some.inj (hs.symm.trans hs'))
  have hreroot : m.Reopens root s src := ⟨htroot, hre.2.1, hre.2.2⟩
  have hltroot : root.val < fd.val := Nat.lt_of_le_of_lt hle hlt'
  obtain ⟨e, he, rfl⟩ := Option.map_eq_some_iff.mp hdup
  rw [if_neg (Nat.ne_of_lt hltroot)]
  -- the description of the root is the one of its source
  obtain ⟨_, -, -, -, -, hdesc⟩ := h.root root s src hreroot hltroot
  obtain rfl := Option.some.inj (he.symm.trans hdesc)
  have earlier : ∀ fd₁ s' src', m.Reopens fd₁ s' src' → fd₁.val < fd + 1 →
      ∃ fd₂, m.Reopens fd₂ s' src' ∧ fd₂.val < fd := by
    intro fd₁ s' src' h₁ hlt
    by_cases hf : fd₁ = fd
    · subst hf
      obtain rfl := Option.some.inj (hre.1.symm.trans h₁.1)
      obtain rfl := h₁.eq hre
      exact ⟨root, hreroot, hltroot⟩
    · have hf := Fin.val_ne_of_ne hf
      exact ⟨fd₁, h₁, by omega⟩
  refine ⟨h.table, h.next, fun n hn => ?_, h.absent, fun s' src' hs' hlater => ?_,
    fun fd₁ s' src' h₁ hlt => ?_, fun fd₁ s' src' h₁ hlt => ?_, fun fd₁ s' src' h₁ hlt => ?_, ?_⟩
  · have hnfd : n ≠ fd := by
      intro heq
      have := hn fd s src heq hre
      omega
    show update x.1.desc fd _ n = os₁.desc n
    rw [Function.update_of_ne hnfd]
    exact h.rest n fun fd' s src heq hre => Nat.le_of_succ_le (hn fd' s src heq hre)
  · exact h.pending s' src' hs' fun fd' hre => Nat.le_of_succ_le (hlater fd' hre)
  · by_cases hf : fd₁ = fd
    · subst hf
      obtain rfl := Option.some.inj (hre.1.symm.trans h₁.1)
      obtain rfl := h₁.eq hre
      refine ⟨root, hs, Nat.le_of_lt hltroot, htroot, hmin, ?_⟩
      simp [Ne.symm (Fin.ne_of_lt hltroot)]
    · have hf' := Fin.val_ne_of_ne hf
      obtain ⟨root₁, hroot₁⟩ := h.root fd₁ s' src' h₁ (by omega)
      refine ⟨root₁, ?_⟩
      show _ ∧ _ ∧ _ ∧ _ ∧ update x.1.desc fd _ fd₁ = _
      rwa [Function.update_of_ne hf']
  · obtain ⟨fd₂, h₂, hlt₂⟩ := earlier fd₁ s' src' h₁ hlt
    exact h.named fd₂ s' src' h₂ hlt₂
  · obtain ⟨fd₂, h₂, hlt₂⟩ := earlier fd₁ s' src' h₁ hlt
    exact ⟨(h.back fd₂ s' src' h₂ hlt₂).file, (h.back fd₂ s' src' h₂ hlt₂).stream⟩
  · intro fd₁ fd₁' s₁ s₂ src₁ src₂ h₁ hlt₁ h₂ hlt₂
    obtain ⟨fd₃, h₃, hlt₃⟩ := earlier fd₁ s₁ src₁ h₁ hlt₁
    obtain ⟨fd₄, h₄, hlt₄⟩ := earlier fd₁' s₂ src₂ h₂ hlt₂
    exact h.inj fd₃ fd₄ s₁ s₂ src₁ src₂ h₃ hlt₃ h₄ hlt₄

/-- A source is opened again at its first descriptor. -/
theorem restore (h : Reopened a os₁ m name fd x) (hm : Unrestored m) (hre : m.Reopens fd s src)
    (hlater : ∀ fd', m.Reopens fd' s src → fd.val ≤ fd'.val)
    (hr : Os.opsRestore a x fd s src = some x') :
    Reopened a os₁ m (update name s x.1.next) (fd + 1) x' := by
  obtain ⟨d, htarget, hflags, hstatus, hoffset, hos, htable, hsource, htell, hstream⟩ :=
    Os.opsRestore_spec hr
  -- the source is at its first descriptor, the others are of other sources
  have cases : ∀ fd₁ s' src', m.Reopens fd₁ s' src' → fd₁.val < fd + 1 →
      (fd₁ = fd ∧ s' = s ∧ src' = src) ∨ (fd₁ ≠ fd ∧ s' ≠ s ∧ fd₁.val < fd) := by
    intro fd₁ s' src' h₁ hlt
    by_cases hf : fd₁ = fd
    · subst hf
      obtain rfl := Option.some.inj (hre.1.symm.trans h₁.1)
      exact .inl ⟨rfl, rfl, hre.eq h₁⟩
    · have hval := Fin.val_ne_of_ne hf
      refine .inr ⟨hf, fun hss => ?_, by omega⟩
      subst hss
      obtain rfl := h₁.eq hre
      have := hlater fd₁ h₁
      omega
  have hnext : x'.1.next = x.1.next + 1 := by rw [hos]
  have hfile : x'.1.file = update x.1.file x.1.next (some d) := by rw [hos]
  have hdesc : x'.1.desc = update x.1.desc fd
      (some ⟨x.1.next, a.ret fd = some fd.val ∧ src.flags &&& oCloexec ≠ 0⟩) := by rw [hos]
  refine ⟨htable.trans h.table, ?_, fun n hn => ?_, fun s' hs' => ?_, fun s' src' hs' hlater' => ?_,
    fun fd₁ s' src' h₁ hlt => ?_, fun fd₁ s' src' h₁ hlt => ?_, fun fd₁ s' src' h₁ hlt => ?_, ?_⟩
  · rw [hnext]
    exact Nat.le_succ_of_le h.next
  · have hnfd : n ≠ fd := by
      intro heq
      have := hn fd s src heq hre
      omega
    rw [hdesc, Function.update_of_ne hnfd]
    exact h.rest n fun fd' s src heq hre => Nat.le_of_succ_le (hn fd' s src heq hre)
  · have hss : s' ≠ s := by
      rintro rfl
      exact absurd (hs'.symm.trans hre.2.1) nofun
    rw [hsource, Function.update_of_ne hss]
    exact h.absent s' hs'
  · have hss : s' ≠ s := by
      rintro rfl
      obtain rfl := Option.some.inj (hs'.symm.trans hre.2.1)
      have := hlater' fd hre
      omega
    rw [hsource, Function.update_of_ne hss]
    exact h.pending s' src' hs' fun fd' hre => Nat.le_of_succ_le (hlater' fd' hre)
  · rcases cases fd₁ s' src' h₁ hlt with ⟨rfl, rfl, rfl⟩ | ⟨hf, hss, hlt⟩
    · refine ⟨fd₁, by rw [hsource, Function.update_self], Nat.le_refl _, hre.1, fun fd' ht => ?_, ?_⟩
      · exact hlater fd' ⟨ht, hre.2.1, hre.2.2⟩
      · simp only [hdesc, Function.update_self, true_and]
    · rw [hsource, Function.update_of_ne hss, hdesc, Function.update_of_ne (Fin.val_ne_of_ne hf),
        Function.update_of_ne hss]
      exact h.root fd₁ s' src' h₁ hlt
  · rw [hnext]
    rcases cases fd₁ s' src' h₁ hlt with ⟨rfl, rfl, rfl⟩ | ⟨hf, hss, hlt⟩
    · rw [Function.update_self]
      exact ⟨h.next, Nat.lt_succ_self _⟩
    · rw [Function.update_of_ne hss]
      have := h.named fd₁ s' src' h₁ hlt
      omega
  · rcases cases fd₁ s' src' h₁ hlt with ⟨rfl, rfl, rfl⟩ | ⟨hf, hss, hlt⟩
    · refine ⟨⟨d, ?_, htarget, hflags, hstatus, hoffset⟩, htell⟩
      rw [hfile, Function.update_self, Function.update_self]
    · have hback := h.back fd₁ s' src' h₁ hlt
      have hold : name s' ≠ x.1.next := Nat.ne_of_lt (h.named fd₁ s' src' h₁ hlt).2
      rw [Function.update_of_ne hss]
      refine ⟨?_, fun hdir' => ?_⟩
      · rw [hfile, Function.update_of_ne hold]
        exact hback.file
      · rw [hstream src'.dirp fun hdir heq => hss (hm.dirp s' s src' src h₁.2.1 hre.2.1 hdir' hdir heq)]
        exact hback.stream hdir'
  · intro fd₁ fd₂ s₁ s₂ src₁ src₂ h₁ hlt₁ h₂ hlt₂ heq
    rcases cases fd₁ s₁ src₁ h₁ hlt₁ with ⟨rfl, rfl, rfl⟩ | ⟨-, hss₁, hlt₁⟩ <;>
      rcases cases fd₂ s₂ src₂ h₂ hlt₂ with ⟨hf, hs₂, hsrc⟩ | ⟨-, hss₂, hlt₂⟩
    · exact hs₂.symm
    · rw [Function.update_self, Function.update_of_ne hss₂] at heq
      have := (h.named fd₂ s₂ src₂ h₂ hlt₂).2
      omega
    · rw [hs₂, Function.update_self, Function.update_of_ne hss₁] at heq
      have := (h.named fd₁ s₁ src₁ h₁ hlt₁).2
      omega
    · rw [Function.update_of_ne hss₁, Function.update_of_ne hss₂] at heq
      exact h.inj fd₁ fd₂ s₁ s₂ src₁ src₂ h₁ hlt₁ h₂ hlt₂ heq

theorem step (h : Reopened a os₁ m name fd x) (hm : Unrestored m)
    (hr : Os.restoreOne a x fd = some x') : ∃ name, Reopened a os₁ m name (fd + 1) x' := by
  rcases restoreOne_cases hr with ⟨rfl, hno⟩ | ⟨s, src', hre', hturn⟩
  · refine ⟨name, h.skip fun s src hre => ?_⟩
    obtain ⟨src', hre'⟩ := h.reopens_of hre
    exact hno s src' hre'
  · obtain ⟨src, hre, ⟨rfl, hlater⟩ | ⟨fd', root, hre₁, hlt, rfl⟩⟩ := h.reopens hre'
    · rcases hturn with ⟨hst, -⟩ | ⟨-, hr⟩
      · exact absurd hst (hm.state s src' hre.2.1)
      · exact ⟨_, h.restore hm hre hlater hr⟩
    · rcases hturn with ⟨-, os, hdup, rfl⟩ | ⟨hst, -⟩
      · exact ⟨name, h.dup hre hre₁ hlt hre'.2.1 hdup⟩
      · exact absurd rfl hst

end Reopened

theorem reopened_start (a : Reopening) (os : Os) (m : Memory) :
    Reopened a os m id 0 (os, m) where
  table := rfl
  next := Nat.le_refl _
  rest _ _ := rfl
  absent _ hs := hs
  pending _ _ hs _ := hs
  root _ _ _ _ hlt := absurd hlt (Nat.not_lt_zero _)
  named _ _ _ _ hlt := absurd hlt (Nat.not_lt_zero _)
  back _ _ _ _ hlt := absurd hlt (Nat.not_lt_zero _)
  inj _ _ _ _ _ _ _ hlt := absurd hlt (Nat.not_lt_zero _)

/-- The second loop. -/
theorem forRange_restoreOne {a : Reopening} {os : Os} {m : Memory} {x : Os × Memory}
    (hm : Unrestored m) (h : forRange (Os.restoreOne a) (os, m) = some x) :
    ∃ name, Reopened a os m name maxFiles x :=
  forRange_invariant (P := fun k x => ∃ name, Reopened a os m name k x)
    (fun _ _ _ ⟨_, hx⟩ hstep => hx.step hm hstep) ⟨id, reopened_start a os m⟩ h

end Xnd.Files
