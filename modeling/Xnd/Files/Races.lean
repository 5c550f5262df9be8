import Xnd.Files.Reopen
import Xnd.Lib.Late

/-!
# Calls of several threads

A wrapper makes its call and then, holding `fd_table.lock`, updates the table: two steps
with calls of other threads in between.  The kernel gives a number that was closed out
again at once, so a thread that has closed a descriptor and one that was given the same
number can come to the table in the other order.  The table is a copy of what the kernel
has that is updated late; the updates of two calls that have a number in common do not
commute.
-/
namespace Xnd.Files
open Function (update)

/-- What a descriptor was opened as. -/
inductive Label where
  | inherited
  | opened (path : String) (flags : BitVec 32)
  deriving DecidableEq, Repr

/-- What the kernel has a descriptor of, if it is one that the wrappers know of: of the
descriptors that the process was started with these are the streams 0, 1 and 2. -/
def Os.label (os : Os) (fd : Fd) : Option Label :=
  ((os.fileAt fd).bind os.file).bind fun d =>
    match d.target with
    | .stream n => if n < 3 then some .inherited else none
    | .path path => some (.opened path d.flags)

def FdSource.label (src : FdSource) : Option Label :=
  match src.type with
  | .inherited => some .inherited
  | .file => some (.opened src.path src.flags)
  | _ => none

/-- What the table has a descriptor as. -/
def Memory.label (m : Memory) (fd : Fd) : Option Label :=
  ((m.table fd).bind m.source).bind FdSource.label

/-- **The table is that of the kernel**: the tracked descriptors are those that are open,
and a file has the path and the flags that it was opened with. -/
structure Mirrors (os : Os) (m : Memory) : Prop where
  tracked : ∀ fd, m.table fd ≠ none ↔ os.label fd ≠ none
  recorded : ∀ fd path flags, os.label fd = some (.opened path flags) →
    ∃ s src, m.table fd = some s ∧ m.source s = some src ∧ src.type = .file ∧
      src.path = path ∧ src.flags = flags

/-! ## Threads -/

namespace Call

/-- The wrappers of two steps that are looked at: `open`, `close` and `dup`. -/
def Wrapped : Call → Prop
  | .openat .. | .close _ | .dup .. => True
  | _ => False

instance : (c : Call) → Decidable c.Wrapped
  | .openat .. | .close _ | .dup .. => inferInstanceAs (Decidable True)
  | .opendir .. | .fdopendir .. | .dup2 .. | .freopen .. | .setfl .. | .setfd .. | .seek ..
  | .walk .. => inferInstanceAs (Decidable False)

/-- The number that is returned is the lowest one that is free. -/
def Lowest (os : Os) : Call → Prop
  | .openat _ _ _ ret => ∀ n < ret.val, os.desc n ≠ none
  | .dup _ newfd _ => ∀ n < newfd.val, os.desc n ≠ none
  | _ => True

instance (os : Os) : (c : Call) → Decidable (c.Lowest os)
  | .openat _ _ _ fd | .dup _ fd _ => inferInstanceAs (Decidable (∀ n < fd.val, os.desc n ≠ none))
  | .opendir .. | .fdopendir .. | .dup2 .. | .freopen .. | .close _ | .setfl .. | .setfd ..
  | .seek .. | .walk .. => inferInstanceAs (Decidable True)

/-- The descriptors whose entry the wrapper writes. -/
def written : Call → List Fd
  | .openat _ _ _ ret => [ret]
  | .close fd => [fd]
  | .dup _ newfd _ => [newfd]
  | _ => []

/-- The descriptors whose entry it reads. -/
def read : Call → List Fd
  | .dup oldfd _ _ => [oldfd]
  | _ => []

/-- Neither call writes an entry that the other reads or writes. -/
def Apart (c c' : Call) : Prop :=
  (∀ fd ∈ c.written, fd ∉ c'.written ∧ fd ∉ c'.read) ∧ ∀ fd ∈ c'.written, fd ∉ c.read

instance (c c' : Call) : Decidable (c.Apart c') := inferInstanceAs (Decidable (_ ∧ _))

end Call

/-- The threads of a process, and the calls that are between their two steps, in the order
in which they were made. -/
structure Threads where
  process : Process
  pending : List (Nat × Call)

def Threads.init (os : Os) : Threads := ⟨.init os, []⟩

inductive Move where
  /-- A thread makes a call. -/
  | call (t : Nat) (c : Call)
  /-- It updates the table. -/
  | update (t : Nat)
  deriving DecidableEq, Repr

/-- A step of one of the threads. -/
def Threads.step : Machine Threads Move
  | w, .call t c =>
      if c.Wrapped ∧ c.Lowest w.process.os ∧ takeOf t w.pending = none then
        (c.kernel w.process.os).map fun os =>
          { process := { w.process with os := os }, pending := w.pending ++ [(t, c)] }
      else none
  | w, .update t => (takeOf t w.pending).bind fun x =>
      (x.2.1.wrapper w.process).map fun p => { process := p, pending := x.1 ++ x.2.2 }

/-- An update does not overtake one of another thread that has a number in common with it:
the calls that were made before it and are still to be told to the table are apart. -/
def InOrder (w : Threads) : Move → Prop
  | .call _ _ => True
  | .update t => ∀ x ∈ takeOf t w.pending, ∀ p ∈ x.1, x.2.1.Apart p.2

instance (w : Threads) (a : Move) : Decidable (InOrder w a) := by
  cases a <;> simp only [InOrder] <;> infer_instance

/-! ## Labels -/

/-- What a call does to the labels. -/
def Call.relabel (v : Fd → Option Label) : Call → Fd → Option Label
  | .openat path flags _ ret => update v ret (some (.opened path flags))
  | .close fd => update v fd none
  | .dup oldfd newfd _ => if v oldfd = none then v else update v newfd (v oldfd)
  | _ => v

theorem Call.relabel_of_not_written {c : Call} {v : Fd → Option Label} {fd : Fd}
    (h : fd ∉ c.written) : c.relabel v fd = v fd := by
  cases c with
  | openat path flags mode ret => exact Function.update_of_ne (List.ne_of_not_mem_cons h) ..
  | close fd' => exact Function.update_of_ne (List.ne_of_not_mem_cons h) ..
  | dup oldfd newfd cloexec =>
      simp only [relabel]
      split
      · rfl
      · exact Function.update_of_ne (List.ne_of_not_mem_cons h) ..
  | _ => rfl

/-- An entry that is written depends on the entries that are read. -/
theorem Call.relabel_congr {c : Call} {v v' : Fd → Option Label}
    (hread : ∀ fd ∈ c.read, v fd = v' fd) {fd : Fd} (hfd : v fd = v' fd) :
    c.relabel v fd = c.relabel v' fd := by
  have same : ∀ (fd' : Fd) (x : Option Label), update v fd' x fd = update v' fd' x fd := by
    intro fd' x
    by_cases hf : fd = fd'
    · rw [hf, Function.update_self, Function.update_self]
    · rw [Function.update_of_ne hf, Function.update_of_ne hf, hfd]
  cases c with
  | openat path flags mode ret => exact same ret _
  | close fd' => exact same fd' none
  | dup oldfd newfd cloexec =>
      simp only [relabel, hread oldfd List.mem_cons_self]
      split
      · exact hfd
      · exact same newfd _
  | _ => exact hfd

theorem Call.Apart.commutes {c c' : Call} (h : c.Apart c') : Commutes Call.relabel c c' := by
  intro v
  funext fd
  have hread' : ∀ fd ∈ c'.read, c.relabel v fd = v fd := fun fd hr =>
    relabel_of_not_written fun hw => (h.1 fd hw).2 hr
  have hread : ∀ fd ∈ c.read, v fd = c'.relabel v fd := fun fd hr =>
    (relabel_of_not_written fun hw => h.2 fd hw hr).symm
  by_cases hw : fd ∈ c.written
  · -- the other call leaves the entry that this one writes
    have hw' : fd ∉ c'.written := (h.1 fd hw).1
    rw [relabel_of_not_written hw']
    exact relabel_congr hread (relabel_of_not_written hw').symm
  · rw [relabel_of_not_written (v := c'.relabel v) hw]
    exact relabel_congr hread' (relabel_of_not_written hw)

theorem Os.label_congr {os os' : Os} {fd fd' : Fd} (hat : os'.fileAt fd' = os.fileAt fd)
    (hfile : ∀ n, os.fileAt fd = some n → os'.file n = os.file n) : os'.label fd' = os.label fd := by
  rw [label, label, hat]
  cases h : os.fileAt fd with
  | none => rfl
  | some n => simp only [Option.bind_some, hfile n h]

/-- What a call does to the labels of the kernel. -/
theorem Os.label_kernel {os os' : Os} {c : Call}
    (hnamed : ∀ n e, os.desc n = some e → e.file < os.next) (hc : c.Wrapped)
    (h : c.kernel os = some os') :
    os'.label = c.relabel os.label ∧ ∀ n e, os'.desc n = some e → e.file < os'.next := by
  cases c with
  | openat path flags mode ret =>
      obtain ⟨-, rfl⟩ := openFile_spec h
      refine ⟨funext fun fd => ?_, fun n e he => ?_⟩
      · by_cases hf : fd = ret
        · subst hf
          simp [label, fileAt, Call.relabel]
        · have hval := Fin.val_ne_of_ne hf
          rw [Call.relabel, Function.update_of_ne hf]
          refine label_congr (by simp only [fileAt, Function.update_of_ne hval]) fun n hn => ?_
          obtain ⟨e, he, rfl⟩ := Option.map_eq_some_iff.mp hn
          exact Function.update_of_ne (Nat.ne_of_lt (hnamed fd e he)) ..
      · by_cases hn : n = ret
        · simp only [hn, Function.update_self, Option.some.injEq] at he
          subst he
          exact Nat.lt_succ_self _
        · simp only [Function.update_of_ne hn] at he
          exact Nat.lt_succ_of_lt (hnamed n e he)
  | close fd =>
      obtain ⟨-, rfl⟩ := close_spec h
      refine ⟨funext fun fd' => ?_, fun n e he => ?_⟩
      · by_cases hf : fd' = fd
        · subst hf
          simp [label, fileAt, Call.relabel]
        · have hval := Fin.val_ne_of_ne hf
          rw [Call.relabel, Function.update_of_ne hf]
          exact label_congr (by simp only [fileAt, Function.update_of_ne hval]) fun _ _ => rfl
      · by_cases hn : n = fd
        · simp only [hn, Function.update_self] at he
          cases he
        · simp only [Function.update_of_ne hn] at he
          exact hnamed n e he
  | dup oldfd newfd cloexec =>
      simp only [Call.kernel, Os.dup] at h
      split at h
      · cases h
      rename_i hfree
      obtain ⟨e, he, rfl⟩ := Option.map_eq_some_iff.mp h
      have hne : oldfd.val ≠ newfd.val := by
        intro heq
        rw [heq] at he
        exact hfree (by rw [he]; rintro ⟨⟩)
      rw [if_neg hne]
      refine ⟨funext fun fd => ?_, fun n e' he' => ?_⟩
      · by_cases hf : fd = newfd
        · subst hf
          have hnew : os.label fd = none := by
            rw [label, fileAt, not_ne_iff.mp hfree]
            rfl
          have hcopy : Os.label { os with desc := update os.desc fd (some ⟨e.file, cloexec⟩) } fd =
              os.label oldfd := by
            refine label_congr ?_ fun _ _ => rfl
            simp only [fileAt, Function.update_self, he, Option.map_some]
          rw [hcopy, Call.relabel]
          split
          · rw [hnew]
            assumption
          · rw [Function.update_self]
        · have hval := Fin.val_ne_of_ne hf
          rw [Call.relabel_of_not_written (fun hw => hf (List.mem_singleton.mp hw))]
          exact label_congr (by simp only [fileAt, Function.update_of_ne hval]) fun _ _ => rfl
      · by_cases hn : n = newfd
        · simp only [hn, Function.update_self, Option.some.injEq] at he'
          subst he'
          exact hnamed oldfd e he
        · simp only [Function.update_of_ne hn] at he'
          exact hnamed n e' he'
  | _ => cases hc

/-! ## References -/

/-- A source is not freed while an entry points at it, whatever the order of the updates. -/
structure Held (m : Memory) : Prop where
  named : ∀ fd s, m.table fd = some s → s < m.next
  live : ∀ fd s, m.table fd = some s → m.source s ≠ none
  typed : ∀ s src, m.source s = some src → src.type = .inherited ∨ src.type = .file
  counted : ∀ s src, m.source s = some src → (m.slots s : Int) ≤ src.ref

theorem slots_update_le {m m' : Memory} {fd : Fd} {v : Option Nat}
    (ht : m'.table = update m.table fd v) (s : Nat) :
    m'.slots s ≤ m.slots s + if v = some s then 1 else 0 := by
  have := slots_update ht s
  omega

namespace Held
variable {m m' : Memory}

theorem init : Held fdTableInit := by
  have h : Refs (.init threeStreams) := refs_init (by decide +kernel)
  refine ⟨fun fd s ht => h.accounts.table_lt ht, h.accounts.live, fun s src hs => .inl ?_,
    fun s src hs => Int.le_of_eq (h.accounts.source s src hs).2.2.1.symm⟩
  simp only [fdTableInit] at hs
  split at hs
  · obtain rfl := Option.some.inj hs
    rfl
  · cases hs

/-- A descriptor that is not tracked has no label. -/
theorem label_ne_none (h : Held m) {fd : Fd} : m.label fd ≠ none ↔ m.table fd ≠ none := by
  rw [not_iff_not]
  cases ht : m.table fd with
  | none => simp [Memory.label, ht]
  | some s =>
      obtain ⟨src, hs⟩ := Option.ne_none_iff_exists'.mp (h.live fd s ht)
      simp only [Memory.label, ht, hs, Option.bind_some, reduceCtorEq, iff_false]
      rcases h.typed s src hs with htype | htype <;> simp [FdSource.label, htype]

theorem not_null (h : Held m) {s : Nat} {src : FdSource} (hs : m.source s = some src) :
    src.type ≠ .null := by
  rcases h.typed s src hs with htype | htype <;> rw [htype] <;> exact nofun

/-- The label of an entry that is left, of a source that is left. -/
theorem label_congr {fd fd' : Fd} (ht : m'.table fd' = m.table fd)
    (hs : ∀ s, m.table fd = some s →
      (m'.source s).bind FdSource.label = (m.source s).bind FdSource.label) :
    m'.label fd' = m.label fd := by
  rw [Memory.label, Memory.label, ht]
  cases h : m.table fd with
  | none => rfl
  | some s =>
      rw [Option.bind_some, Option.bind_some]
      exact hs s h

theorem openat (h : Held m) (fd : Fd) (path : String) (flags : BitVec 32) (mode : Nat) :
    Held (fdTableOpen m fd path flags mode) ∧
      (fdTableOpen m fd path flags mode).label = update m.label fd (some (.opened path flags)) := by
  have old : ∀ fd' s, m.table fd' = some s → s ≠ m.next := fun fd' s ht =>
    Nat.ne_of_lt (h.named fd' s ht)
  have entry : ∀ fd' s, (fdTableOpen m fd path flags mode).table fd' = some s →
      s = m.next ∨ m.table fd' = some s := by
    intro fd' s ht
    by_cases hf : fd' = fd
    · subst hf
      simp only [fdTableOpen, Memory.addSource_table, Function.update_self,
        Option.some.injEq] at ht
      exact .inl ht.symm
    · simp only [fdTableOpen, Memory.addSource_table, Function.update_of_ne hf] at ht
      exact .inr ht
  refine ⟨⟨fun fd' s ht => ?_, fun fd' s ht => ?_, fun s src hs => ?_, fun s src hs => ?_⟩,
    funext fun fd' => ?_⟩
  · rcases entry fd' s ht with rfl | ht
    · exact Nat.lt_succ_self _
    · exact Nat.lt_succ_of_lt (h.named fd' s ht)
  · rcases entry fd' s ht with rfl | ht
    · simp [fdTableOpen]
    · simp only [fdTableOpen, Memory.addSource_source, Function.update_of_ne (old fd' s ht)]
      exact h.live fd' s ht
  · by_cases hss : s = m.next
    · simp only [fdTableOpen, Memory.addSource_source, hss, Function.update_self,
        Option.some.injEq] at hs
      exact .inr (hs ▸ rfl)
    · simp only [fdTableOpen, Memory.addSource_source, Function.update_of_ne hss] at hs
      exact h.typed s src hs
  · have htable : (fdTableOpen m fd path flags mode).table = update m.table fd (some m.next) := rfl
    have hslots := slots_update_le htable s
    by_cases hss : s = m.next
    · subst hss
      have hnone : m.slots m.next = 0 := slots_eq_zero fun fd' ht => old fd' _ ht rfl
      rw [hnone, if_pos rfl] at hslots
      simp only [fdTableOpen, Memory.addSource_source, Function.update_self,
        Option.some.injEq] at hs
      subst hs
      exact Int.ofNat_le.mpr hslots
    · rw [if_neg fun heq => hss (Option.some.inj heq).symm, Nat.add_zero] at hslots
      simp only [fdTableOpen, Memory.addSource_source, Function.update_of_ne hss] at hs
      exact Int.le_trans (Int.ofNat_le.mpr hslots) (h.counted s src hs)
  · by_cases hf : fd' = fd
    · subst hf
      simp [Memory.label, fdTableOpen, FdSource.label]
    · rw [Function.update_of_ne hf]
      refine label_congr ?_ fun s ht => ?_
      · simp only [fdTableOpen, Memory.addSource_table, Function.update_of_ne hf]
      · simp only [fdTableOpen, Memory.addSource_source, Function.update_of_ne (old fd' s ht)]

theorem close (h : Held m) (fd : Fd) :
    ∃ m', fdTableClose m fd = some m' ∧ Held m' ∧ m'.label = update m.label fd none := by
  cases ht : m.table fd with
  | none =>
      have hnone : m.label fd = none := by rw [Memory.label, ht]; rfl
      refine ⟨m, by rw [fdTableClose, ht], h, ?_⟩
      rw [← hnone, Function.update_eq_self]
  | some s =>
      obtain ⟨src, hs⟩ := Option.ne_none_iff_exists'.mp (h.live fd s ht)
      generalize hm : ({ m with
        table := update m.table fd none
        source := update m.source s src.release } : Memory) = m'
      have htable : m'.table = update m.table fd none := by rw [← hm]
      have hsource : m'.source = update m.source s src.release := by rw [← hm]
      have hnext : m'.next = m.next := by rw [← hm]
      have entry : ∀ fd' s', m'.table fd' = some s' → fd' ≠ fd ∧ m.table fd' = some s' := by
        intro fd' s' ht'
        rw [htable] at ht'
        by_cases hf : fd' = fd
        · rw [hf, Function.update_self] at ht'
          cases ht'
        · rw [Function.update_of_ne hf] at ht'
          exact ⟨hf, ht'⟩
      have slots : ∀ s', m'.slots s' + (if s = s' then 1 else 0) = m.slots s' := by
        intro s'
        have := slots_update htable s'
        simpa [ht] using this
      have hcount := h.counted s src hs
      -- the source is only freed when this was its last entry
      have release : m'.slots s ≠ 0 → src.release = some { src with ref := src.ref - 1 } := by
        intro hpos
        have := slots s
        rw [if_pos rfl] at this
        rw [FdSource.release, if_neg (by omega)]
      refine ⟨m', ?_, ⟨fun fd' s' ht' => ?_, fun fd' s' ht' => ?_, fun s' src' hs' => ?_,
        fun s' src' hs' => ?_⟩, funext fun fd' => ?_⟩
      · simp only [fdTableClose, ht, hs, Option.map_some, if_neg (h.not_null hs), hm]
      · rw [hnext]
        exact h.named fd' s' (entry fd' s' ht').2
      · rw [hsource]
        by_cases hss : s' = s
        · subst hss
          rw [Function.update_self, release (Nat.pos_iff_ne_zero.mp (slots_pos ht'))]
          rintro ⟨⟩
        · rw [Function.update_of_ne hss]
          exact h.live fd' s' (entry fd' s' ht').2
      · rw [hsource] at hs'
        by_cases hss : s' = s
        · subst hss
          rw [Function.update_self, FdSource.release] at hs'
          split at hs'
          · cases hs'
          · obtain rfl := Option.some.inj hs'
            exact h.typed s' src hs
        · rw [Function.update_of_ne hss] at hs'
          exact h.typed s' src' hs'
      · rw [hsource] at hs'
        have hslots := slots s'
        by_cases hss : s' = s
        · subst hss
          rw [Function.update_self, FdSource.release] at hs'
          rw [if_pos rfl] at hslots
          split at hs'
          · cases hs'
          · obtain rfl := Option.some.inj hs'
            show (m'.slots s' : Int) ≤ src.ref - 1
            omega
        · rw [Function.update_of_ne hss] at hs'
          rw [if_neg (Ne.symm hss), Nat.add_zero] at hslots
          rw [hslots]
          exact h.counted s' src' hs'
      · by_cases hf : fd' = fd
        · subst hf
          simp [Memory.label, htable]
        · rw [Function.update_of_ne hf]
          refine label_congr (by rw [htable, Function.update_of_ne hf]) fun s' ht' => ?_
          rw [hsource]
          by_cases hss : s' = s
          · subst hss
            have ht'' : m'.table fd' = some s' := by rw [htable, Function.update_of_ne hf, ht']
            rw [Function.update_self, release (Nat.pos_iff_ne_zero.mp (slots_pos ht'')), hs]
            rfl
          · rw [Function.update_of_ne hss]

theorem dup (h : Held m) (oldfd newfd : Fd) :
    ∃ m', fdTableDup m oldfd newfd = some m' ∧ Held m' ∧
      m'.label = if m.label oldfd = none then m.label else update m.label newfd (m.label oldfd) := by
  cases ht : m.table oldfd with
  | none =>
      have hnone : m.label oldfd = none := by rw [Memory.label, ht]; rfl
      exact ⟨m, by rw [fdTableDup, ht], h, by rw [if_pos hnone]⟩
  | some s =>
      obtain ⟨src, hs⟩ := Option.ne_none_iff_exists'.mp (h.live oldfd s ht)
      generalize hm : ({ m with
        table := update m.table newfd (some s)
        source := update m.source s (some { src with ref := src.ref + 1 }) } : Memory) = m'
      have htable : m'.table = update m.table newfd (some s) := by rw [← hm]
      have hsource : m'.source = update m.source s (some { src with ref := src.ref + 1 }) := by
        rw [← hm]
      have hnext : m'.next = m.next := by rw [← hm]
      have entry : ∀ fd' s', m'.table fd' = some s' → ∃ fd'', m.table fd'' = some s' := by
        intro fd' s' ht'
        rw [htable] at ht'
        by_cases hf : fd' = newfd
        · rw [hf, Function.update_self] at ht'
          exact ⟨oldfd, ht.trans ht'⟩
        · rw [Function.update_of_ne hf] at ht'
          exact ⟨fd', ht'⟩
      have label : ∀ s', (m'.source s').bind FdSource.label = (m.source s').bind FdSource.label := by
        intro s'
        rw [hsource]
        by_cases hss : s' = s
        · rw [hss, Function.update_self, hs]
          rfl
        · rw [Function.update_of_ne hss]
      refine ⟨m', ?_, ⟨fun fd' s' ht' => ?_, fun fd' s' ht' => ?_, fun s' src' hs' => ?_,
        fun s' src' hs' => ?_⟩, ?_⟩
      · simp only [fdTableDup, ht, hs, Option.map_some, if_neg (h.not_null hs), hm]
      · obtain ⟨fd'', ht''⟩ := entry fd' s' ht'
        rw [hnext]
        exact h.named fd'' s' ht''
      · obtain ⟨fd'', ht''⟩ := entry fd' s' ht'
        rw [hsource]
        by_cases hss : s' = s
        · rw [hss, Function.update_self]
          rintro ⟨⟩
        · rw [Function.update_of_ne hss]
          exact h.live fd'' s' ht''
      · rw [hsource] at hs'
        by_cases hss : s' = s
        · rw [hss, Function.update_self] at hs'
          obtain rfl := Option.some.inj hs'
          exact h.typed s src hs
        · rw [Function.update_of_ne hss] at hs'
          exact h.typed s' src' hs'
      · have hslots := slots_update_le htable s'
        rw [hsource] at hs'
        by_cases hss : s' = s
        · subst hss
          rw [Function.update_self] at hs'
          obtain rfl := Option.some.inj hs'
          rw [if_pos rfl] at hslots
          have := h.counted s' src hs
          show (m'.slots s' : Int) ≤ src.ref + 1
          omega
        · rw [Function.update_of_ne hss] at hs'
          rw [if_neg fun heq => hss (Option.some.inj heq).symm, Nat.add_zero] at hslots
          exact Int.le_trans (Int.ofNat_le.mpr hslots) (h.counted s' src' hs')
      · rw [if_neg (h.label_ne_none.mpr (by rw [ht]; rintro ⟨⟩))]
        funext fd'
        by_cases hf : fd' = newfd
        · rw [hf, Function.update_self]
          exact label_congr (by rw [htable, Function.update_self, ht]) fun s' _ => label s'
        · rw [Function.update_of_ne hf]
          exact label_congr (by rw [htable, Function.update_of_ne hf]) fun s' _ => label s'

/-- **An update of the table**: it reads no source that was freed, and relabels the entries
as the call did. -/
theorem wrapper {w : Process} (h : Held w.memory) {c : Call} (hc : c.Wrapped) :
    ∃ w', c.wrapper w = some w' ∧ w'.os = w.os ∧ Held w'.memory ∧
      w'.memory.label = c.relabel w.memory.label := by
  cases c with
  | openat path flags mode ret =>
      obtain ⟨hheld, hlabel⟩ := h.openat ret path flags mode
      exact ⟨_, rfl, rfl, hheld, hlabel⟩
  | close fd =>
      obtain ⟨m, hm, hheld, hlabel⟩ := h.close fd
      exact ⟨_, Option.map_eq_some_iff.mpr ⟨m, hm, rfl⟩, rfl, hheld, hlabel⟩
  | dup oldfd newfd cloexec =>
      obtain ⟨m, hm, hheld, hlabel⟩ := h.dup oldfd newfd
      exact ⟨_, Option.map_eq_some_iff.mpr ⟨m, hm, rfl⟩, rfl, hheld, hlabel⟩
  | _ => cases hc

end Held

/-! ## Runs -/

/-- **The invariant of the threads**: the updates that are left lead from what the table has
to what the kernel has. -/
structure Synced (w : Threads) : Prop where
  named : ∀ n e, w.process.os.desc n = some e → e.file < w.process.os.next
  held : Held w.process.memory
  wrapped : ∀ p ∈ w.pending, p.2.Wrapped
  late : Late Call.relabel w.process.os.label w.process.memory.label w.pending

theorem synced_init {os : Os} (hnamed : ∀ n e, os.desc n = some e → e.file < os.next)
    (hos : ∀ fd, os.label fd = if fd.val < 3 then some .inherited else none) :
    Synced (.init os) where
  named := hnamed
  held := Held.init
  wrapped := nofun
  late := by
    refine funext fun fd => (?_ : fdTableInit.label fd = os.label fd)
    rw [hos]
    by_cases hlt : fd.val < 3
    · simp [Memory.label, fdTableInit, hlt, inheritedSource, FdSource.label]
    · simp [Memory.label, fdTableInit, hlt]

/-- **A step of a thread.** -/
theorem Synced.step {w w' : Threads} {a : Move} (h : Synced w) (ha : InOrder w a)
    (hstep : w.step a = some w') : Synced w' := by
  cases a with
  | call t c =>
      simp only [Threads.step] at hstep
      split at hstep
      case isFalse => cases hstep
      case isTrue hcall =>
        obtain ⟨os, hos, rfl⟩ := Option.map_eq_some_iff.mp hstep
        obtain ⟨hlabel, hnamed⟩ := Os.label_kernel h.named hcall.1 hos
        refine ⟨hnamed, h.held, fun p hp => ?_, ?_⟩
        · rcases List.mem_append.mp hp with hp | hp
          · exact h.wrapped p hp
          · obtain rfl := List.mem_singleton.mp hp
            exact hcall.1
        · show Late Call.relabel os.label w.process.memory.label (w.pending ++ [(t, c)])
          rw [hlabel]
          exact h.late.make t c
  | update t =>
      obtain ⟨⟨before, c, after⟩, htake, hstep⟩ := Option.bind_eq_some_iff.mp hstep
      obtain ⟨p, hp, rfl⟩ := Option.map_eq_some_iff.mp hstep
      have hpending : w.pending = before ++ (t, c) :: after := eq_of_takeOf htake
      have hlate := h.late
      rw [hpending] at hlate
      have hc : c.Wrapped := h.wrapped (t, c) (by simp [hpending])
      obtain ⟨p', hp', hos, hheld, hlabel⟩ := h.held.wrapper hc
      obtain rfl := Option.some.inj (hp'.symm.trans hp)
      refine ⟨?_, hheld, fun q hq => h.wrapped q ?_, ?_⟩
      · rw [hos]
        exact h.named
      · rw [hpending]
        exact (List.mem_append.mp hq).elim (List.mem_append_left _) fun hq =>
          List.mem_append_right _ (List.mem_cons_of_mem _ hq)
      · show Late Call.relabel p'.os.label p'.memory.label (before ++ after)
        rw [hos, hlabel]
        exact hlate.deliver fun q hq => (ha _ htake q hq).commutes

/-- The table of a process none of whose threads is between its two steps. -/
theorem Synced.mirrors {w : Threads} (h : Synced w) (hquiet : w.pending = []) :
    Mirrors w.process.os w.process.memory := by
  have hlate := h.late
  rw [hquiet] at hlate
  have heq : w.process.memory.label = w.process.os.label := hlate.eq
  refine ⟨fun fd => ?_, fun fd path flags hfd => ?_⟩
  · rw [← heq, h.held.label_ne_none]
  · rw [← heq] at hfd
    obtain ⟨src, hs, hlabel⟩ := Option.bind_eq_some_iff.mp hfd
    obtain ⟨s, ht, hs⟩ := Option.bind_eq_some_iff.mp hs
    rcases h.held.typed s src hs with htype | htype
    · simp [FdSource.label, htype] at hlabel
    · simp only [FdSource.label, htype, Option.some.injEq, Label.opened.injEq] at hlabel
      exact ⟨s, src, ht, hs, htype, hlabel⟩

/-- **The table is that of the kernel** whenever no thread is between its two steps, in a run
in which no update overtakes one that it has a number in common with, of a process that
was started with its three streams. -/
theorem mirrors_of_inOrder {os : Os} (hnamed : ∀ n e, os.desc n = some e → e.file < os.next)
    (hos : ∀ fd, os.label fd = if fd.val < 3 then some .inherited else none) {w : Threads}
    (hrun : Threads.step.Runs InOrder (.init os) w) (hquiet : w.pending = []) :
    Mirrors w.process.os w.process.memory :=
  (hrun.invariant (fun _ _ _ hw ha hstep => hw.step ha hstep) (synced_init hnamed hos)).mirrors
    hquiet

theorem threeStreams_label (fd : Fd) :
    threeStreams.label fd = if fd.val < 3 then some .inherited else none := by
  by_cases hlt : fd.val < 3
  · simp [Os.label, Os.fileAt, threeStreams, hlt]
  · simp [Os.label, Os.fileAt, threeStreams, hlt]

/-- Two threads with numbers of their own. -/
theorem mirrors_of_inOrder_twoThreads : ∃ w,
    Threads.step.Runs InOrder (.init threeStreams) w ∧ w.pending = [] ∧
    w.process.os.label 3 = some (.opened "log" 1) ∧ w.process.os.label 4 = none ∧
    Mirrors w.process.os w.process.memory := by
  obtain ⟨w, hruns, hw⟩ := Machine.exists_runs Threads.step InOrder (.init threeStreams)
    (fun w => w.pending = [] ∧ w.process.os.label 3 = some (.opened "log" 1) ∧
      w.process.os.label 4 = none)
    [.call 1 (.openat "log" 1 0 3), .call 2 (.dup 1 4 false), .update 2, .update 1,
      .call 2 (.close 4), .update 2] (by decide +kernel)
  obtain ⟨hquiet, hthree, hfour⟩ := of_decide_eq_true hw
  exact ⟨w, hruns, hquiet, hthree, hfour,
    mirrors_of_inOrder threeStreams_named threeStreams_label hruns hquiet⟩

/-- A thread closes a descriptor, and another is given its number and tells the table
first. -/
theorem not_mirrors : ¬ ∀ os : Os, (∀ n e, os.desc n = some e → e.file < os.next) →
    (∀ fd : Fd, os.label fd = if fd.val < 3 then some .inherited else none) →
    ∀ w, Threads.step.Runs (fun _ _ => True) (.init os) w → w.pending = [] →
      Mirrors w.process.os w.process.memory := by
  intro H
  obtain ⟨w, hruns, hw⟩ := Machine.exists_runs Threads.step (fun _ _ => True) (.init threeStreams)
    (fun w => w.pending = [] ∧ w.process.os.label 3 ≠ none ∧ w.process.memory.table 3 = none)
    [.call 1 (.openat "log" 1 0 3), .update 1, .call 1 (.close 3), .call 2 (.openat "out" 1 0 3),
      .update 2, .update 1] (by decide +kernel)
  obtain ⟨hquiet, hopen, htable⟩ := of_decide_eq_true hw
  exact ((H threeStreams threeStreams_named threeStreams_label w hruns hquiet).tracked 3).mpr hopen
    htable

end Xnd.Files
