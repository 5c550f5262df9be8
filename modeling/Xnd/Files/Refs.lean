import Mathlib.Algebra.BigOperators.Group.Finset.Basic
import Mathlib.Data.Fintype.BigOperators
import Xnd.Files.Calls

/-!
# References to sources

`ref` counts the entries of the table that point at a source.  Entries are made by
`fd_table_open`, `fd_table_opendir` and `fd_table_dup` and taken back by
`fd_table_close`, so the count is right as long as an entry is made where there is none.
`open` and `dup` see to that, since they return descriptors that are free; `dup2` does
not, and `fd_table_dup` writes over the entry of `newfd` without giving its source back.
-/
namespace Xnd.Files
open Function (update)

/-- How many entries of the table point at a source. -/
def Memory.slots (m : Memory) (s : Nat) : Nat := ∑ fd, if m.table fd = some s then 1 else 0

/-- **The references of a process are counted**: a source that was allocated has its
count in `ref`, or no entry points at it and it was freed once. -/
structure Counted (w : Process) : Prop where
  ref : ∀ s src, w.memory.source s = some src → src.ref = w.memory.slots s
  live : ∀ fd s, w.memory.table fd = some s → w.memory.source s ≠ none
  freed : ∀ s ∈ w.mallocs, (w.memory.source s = none ↔ w.memory.slots s = 0) ∧
    w.frees.count s = if w.memory.slots s = 0 then 1 else 0

/-- `dup2` of a tracked descriptor does not go onto a tracked one. -/
def Vacant (w : Process) : Call → Prop
  | .dup2 oldfd newfd => w.memory.table oldfd ≠ none → w.memory.table newfd = none
  | _ => True

instance (w : Process) : (c : Call) → Decidable (Vacant w c)
  | .dup2 oldfd newfd =>
      inferInstanceAs (Decidable (w.memory.table oldfd ≠ none → w.memory.table newfd = none))
  | .openat .. | .opendir .. | .fdopendir .. | .dup .. | .freopen .. | .close _ | .setfl ..
  | .setfd .. | .seek .. | .walk .. => inferInstanceAs (Decidable True)

/-! ## Entries -/

theorem slots_update {m m' : Memory} {fd : Fd} {v : Option Nat}
    (ht : m'.table = update m.table fd v) (s : Nat) :
    m'.slots s + (if m.table fd = some s then 1 else 0) =
      m.slots s + if v = some s then 1 else 0 := by
  have split : ∀ t : Fd → Option Nat, (∑ fd, if t fd = some s then 1 else 0) =
      (if t fd = some s then 1 else 0) +
        ∑ fd' ∈ Finset.univ.erase fd, if t fd' = some s then 1 else 0 := fun t =>
    (Finset.add_sum_erase _ _ (Finset.mem_univ fd)).symm
  have rest : (∑ fd' ∈ Finset.univ.erase fd, if update m.table fd v fd' = some s then 1 else 0) =
      ∑ fd' ∈ Finset.univ.erase fd, if m.table fd' = some s then 1 else 0 :=
    Finset.sum_congr rfl fun fd' h => by
      rw [Function.update_of_ne (Finset.ne_of_mem_erase h)]
  rw [Memory.slots, Memory.slots, ht, split (update m.table fd v), split m.table, rest,
    Function.update_self]
  omega

theorem slots_pos {m : Memory} {fd : Fd} {s : Nat} (h : m.table fd = some s) : 0 < m.slots s := by
  refine Nat.pos_of_ne_zero fun h0 => ?_
  have := (Finset.sum_eq_zero_iff.mp h0) fd (Finset.mem_univ fd)
  simp [h] at this

theorem slots_congr {m m' : Memory} (h : m'.table = m.table) (s : Nat) : m'.slots s = m.slots s := by
  rw [Memory.slots, h]
  rfl

/-- No entry points at a name that is not in use. -/
theorem slots_eq_zero {m : Memory} {s : Nat} (h : ∀ fd, m.table fd ≠ some s) : m.slots s = 0 :=
  Finset.sum_eq_zero fun fd _ => if_neg (h fd)

/-- What the counts rest on, when names are handed out in order. -/
structure Accounts (m : Memory) (mallocs frees : List Nat) : Prop where
  named : ∀ s, s ∈ mallocs ∨ s ∈ frees → s < m.next
  source : ∀ s src, m.source s = some src →
    s ∈ mallocs ∧ src.type ≠ .null ∧ src.ref = m.slots s ∧ 0 < m.slots s
  live : ∀ fd s, m.table fd = some s → m.source s ≠ none
  freed : ∀ s ∈ mallocs, frees.count s = if m.source s = none then 1 else 0

namespace Accounts
variable {m m' : Memory} {mallocs frees : List Nat} {fd : Fd} {s : Nat} {src : FdSource}

theorem source_lt (h : Accounts m mallocs frees) (hs : m.source s ≠ none) : s < m.next := by
  obtain ⟨src, hs⟩ := Option.ne_none_iff_exists'.mp hs
  exact h.named s (.inl (h.source s src hs).1)

theorem table_lt (h : Accounts m mallocs frees) (hs : m.table fd = some s) : s < m.next :=
  h.source_lt (h.live fd s hs)

theorem source_next (h : Accounts m mallocs frees) : m.source m.next = none := by
  by_contra hs
  exact Nat.lt_irrefl _ (h.source_lt hs)

/-- A source is allocated for an entry that is empty. -/
theorem addSource (h : Accounts m mallocs frees) (hfd : m.table fd = none)
    (hnull : src.type ≠ .null) (href : src.ref = 1) :
    Accounts (m.addSource fd src) (m.next :: mallocs) frees := by
  have slots : ∀ s, (m.addSource fd src).slots s = m.slots s + if m.next = s then 1 else 0 := by
    intro s
    have := slots_update (m.addSource_table fd src) s
    simpa [hfd] using this
  have hnext : m.slots m.next = 0 :=
    slots_eq_zero fun fd ht => Nat.lt_irrefl _ (h.table_lt ht)
  refine ⟨fun s hs => ?_, fun s src' hs => ?_, fun fd' s ht => ?_, fun s hs => ?_⟩
  · rw [List.mem_cons, or_assoc] at hs
    rcases hs with rfl | hs
    · exact Nat.lt_succ_self _
    · exact Nat.lt_succ_of_lt (h.named s hs)
  · by_cases hsn : s = m.next
    · subst hsn
      simp only [Memory.addSource_source, Function.update_self, Option.some.injEq] at hs
      subst hs
      rw [slots, hnext, if_pos rfl, href]
      exact ⟨List.mem_cons_self, hnull, by omega, by omega⟩
    · simp only [Memory.addSource_source, Function.update_of_ne hsn] at hs
      obtain ⟨hmem, hsrc⟩ := h.source s src' hs
      rw [slots, if_neg (Ne.symm hsn), Nat.add_zero]
      exact ⟨List.mem_cons_of_mem _ hmem, hsrc⟩
  · simp only [Memory.addSource_table, Memory.addSource_source] at ht ⊢
    by_cases hsn : s = m.next
    · rw [hsn, Function.update_self]
      exact nofun
    · rw [Function.update_of_ne hsn]
      by_cases hf : fd' = fd
      · rw [hf, Function.update_self] at ht
        exact absurd (Option.some.inj ht).symm hsn
      · rw [Function.update_of_ne hf] at ht
        exact h.live fd' s ht
  · by_cases hsn : s = m.next
    · subst hsn
      rw [List.count_eq_zero.mpr fun hm => Nat.lt_irrefl _ (h.named _ (.inr hm))]
      simp
    · rw [Memory.addSource_source, Function.update_of_ne hsn]
      exact h.freed s ((List.mem_cons.mp hs).resolve_left hsn)

/-- A source is assigned to. -/
theorem setSource (h : Accounts m mallocs frees) (hs : m.source s = some src) {src' : FdSource}
    (hnull : src'.type ≠ .null) (href : src'.ref = src.ref) :
    Accounts (m.setSource s src') mallocs frees := by
  have same : ∀ s', (m.setSource s src').source s' = none ↔ m.source s' = none := by
    intro s'
    by_cases hss : s' = s
    · simp [hss, hs]
    · rw [Memory.setSource_source, Function.update_of_ne hss]
  refine ⟨h.named, fun s' src'' hs' => ?_, fun fd s' ht => ?_, fun s' hs' => ?_⟩
  · by_cases hss : s' = s
    · subst hss
      simp only [Memory.setSource_source, Function.update_self, Option.some.injEq] at hs'
      subst hs'
      obtain ⟨hmem, -, hcount, hpos⟩ := h.source s' src hs
      exact ⟨hmem, hnull, href.trans hcount, hpos⟩
    · rw [Memory.setSource_source, Function.update_of_ne hss] at hs'
      exact h.source s' src'' hs'
  · exact fun hnone => h.live fd s' ht ((same s').mp hnone)
  · rw [h.freed s' hs']
    exact if_congr (same s').symm rfl rfl

/-- The heap hands out a name for something else. -/
theorem newStream (h : Accounts m mallocs frees) (stream : Nat → Option Stream) :
    Accounts { m with stream := stream, next := m.next + 1 } mallocs frees :=
  ⟨fun s hs => Nat.lt_succ_of_lt (h.named s hs), h.source, h.live, h.freed⟩

/-- **`fd_table_dup`** to an entry that is empty. -/
theorem dup (h : Accounts m mallocs frees) {oldfd newfd : Fd}
    (hnew : m.table oldfd ≠ none → m.table newfd = none)
    (hm : fdTableDup m oldfd newfd = some m') : Accounts m' mallocs frees := by
  cases ht : m.table oldfd with
  | none =>
      rw [fdTableDup, ht] at hm
      obtain rfl := Option.some.inj hm
      exact h
  | some s =>
      rw [fdTableDup, ht] at hm
      obtain ⟨src, hs, hm⟩ := Option.map_eq_some_iff.mp hm
      obtain ⟨hmem, hnull, href, hpos⟩ := h.source s src hs
      rw [if_neg hnull] at hm
      have hnew := hnew (by rw [ht]; exact nofun)
      have slots : ∀ s', m'.slots s' = m.slots s' + if s = s' then 1 else 0 := by
        intro s'
        have htable : m'.table = update m.table newfd (some s) := by rw [← hm]
        have := slots_update htable s'
        simpa [hnew] using this
      have source : m'.source = update m.source s (some { src with ref := src.ref + 1 }) := by
        rw [← hm]
      have same : ∀ s', m'.source s' = none ↔ m.source s' = none := by
        intro s'
        by_cases hss : s' = s
        · simp [source, hss, hs]
        · rw [source, Function.update_of_ne hss]
      refine ⟨fun s' hs' => ?_, fun s' src' hs' => ?_, fun fd s' ht' => ?_, fun s' hs' => ?_⟩
      · rw [← hm]
        exact h.named s' hs'
      · rw [slots]
        by_cases hss : s' = s
        · subst hss
          rw [source, Function.update_self, Option.some.injEq] at hs'
          subst hs'
          rw [if_pos rfl]
          exact ⟨hmem, hnull, by rw [href, Int.natCast_add]; rfl, Nat.succ_pos _⟩
        · rw [source, Function.update_of_ne hss] at hs'
          rw [if_neg (Ne.symm hss), Nat.add_zero]
          exact h.source s' src' hs'
      · rw [Ne, same]
        rw [← hm] at ht'
        by_cases hf : fd = newfd
        · simp only [hf, Function.update_self, Option.some.injEq] at ht'
          rw [← ht', hs]
          exact nofun
        · simp only [Function.update_of_ne hf] at ht'
          exact h.live fd s' ht'
      · rw [h.freed s' hs']
        exact if_congr (same s').symm rfl rfl

/-- What `fd_table_close` does to the source of the entry. -/
theorem release_eq_none {src : FdSource} {n : Nat} (href : src.ref = n + 1) :
    src.release = none ↔ n = 0 := by
  rw [FdSource.release, href]
  split <;> simp <;> omega

theorem release_eq_some {src src' : FdSource} (h : src.release = some src') :
    src' = { src with ref := src.ref - 1 } := by
  rw [FdSource.release] at h
  split at h
  · cases h
  · exact (Option.some.inj h).symm

/-- **`fd_table_close`.** -/
theorem close (h : Accounts m mallocs frees) (hm : fdTableClose m fd = some m') :
    Accounts m' mallocs (m.freedBy fd ++ frees) ∧ m'.table = update m.table fd none := by
  cases ht : m.table fd with
  | none =>
      rw [fdTableClose, ht] at hm
      obtain rfl := Option.some.inj hm
      have hfree : m.freedBy fd = [] := by rw [Memory.freedBy, ht]
      rw [hfree]
      exact ⟨h, (Function.update_eq_self_iff.mpr ht.symm).symm⟩
  | some s =>
      rw [fdTableClose, ht] at hm
      obtain ⟨src, hs, hm⟩ := Option.map_eq_some_iff.mp hm
      obtain ⟨hmem, hnull, href, hpos⟩ := h.source s src hs
      rw [if_neg hnull] at hm
      have table : m'.table = update m.table fd none := by rw [← hm]
      have source : m'.source = update m.source s src.release := by rw [← hm]
      have slots : ∀ s', m'.slots s' + (if s = s' then 1 else 0) = m.slots s' := by
        intro s'
        simpa [ht] using slots_update table s'
      have hself : m'.slots s + 1 = m.slots s := by simpa using slots s
      have hrelease : src.release = none ↔ m'.slots s = 0 :=
        release_eq_none (by rw [href, ← hself]; rfl)
      have hfree : m.freedBy fd = if src.release = none then [s] else [] := by
        simp [Memory.freedBy, ht, hs, hnull]
      have hcount : ∀ s', s' ≠ s → (m.freedBy fd ++ frees).count s' = frees.count s' := by
        intro s' hss
        rw [hfree, List.count_append]
        split <;> simp [Ne.symm hss]
      refine ⟨⟨fun s' hs' => ?_, fun s' src' hs' => ?_, fun fd' s' ht' => ?_, fun s' hs' => ?_⟩, table⟩
      · have hnext : m'.next = m.next := by rw [← hm]
        rw [hnext]
        rcases hs' with hs' | hs'
        · exact h.named s' (.inl hs')
        · rw [hfree, List.mem_append] at hs'
          rcases hs' with hs' | hs'
          · split at hs'
            · rw [List.mem_singleton.mp hs']
              exact h.table_lt ht
            · cases hs'
          · exact h.named s' (.inr hs')
      · by_cases hss : s' = s
        · subst hss
          rw [source, Function.update_self] at hs'
          rw [release_eq_some hs']
          have hne : m'.slots s' ≠ 0 := fun h0 => by
            rw [hrelease.mpr h0] at hs'
            cases hs'
          exact ⟨hmem, hnull, by simp only; omega, Nat.pos_of_ne_zero hne⟩
        · rw [source, Function.update_of_ne hss] at hs'
          have := slots s'
          rw [if_neg (Ne.symm hss), Nat.add_zero] at this
          rw [this]
          exact h.source s' src' hs'
      · by_cases hss : s' = s
        · -- Another entry points at the source, so it is not freed.
          subst hss
          rw [source, Function.update_self, Ne, hrelease]
          exact Nat.pos_iff_ne_zero.mp (slots_pos ht')
        · rw [source, Function.update_of_ne hss]
          rw [table] at ht'
          by_cases hf : fd' = fd
          · rw [hf, Function.update_self] at ht'
            cases ht'
          · rw [Function.update_of_ne hf] at ht'
            exact h.live fd' s' ht'
      · by_cases hss : s' = s
        · subst hss
          have hnot : frees.count s' = 0 := by simpa [hs] using h.freed s' hs'
          rw [hfree, source, Function.update_self, List.count_append, hnot]
          split <;> simp
        · rw [hcount s' hss, source, Function.update_of_ne hss]
          exact h.freed s' hs'

end Accounts

/-! ## Calls -/

/-- Descriptors with an entry are open. -/
def Tracked (os : Os) (m : Memory) : Prop := ∀ fd : Fd, m.table fd ≠ none → os.desc fd ≠ none

/-- **The invariant of the counts.** -/
structure Refs (w : Process) : Prop where
  accounts : Accounts w.memory w.mallocs w.frees
  tracked : Tracked w.os w.memory

theorem Refs.counted {w : Process} (h : Refs w) : Counted w := by
  have free_iff : ∀ s, w.memory.source s = none ↔ w.memory.slots s = 0 := by
    intro s
    constructor
    · exact fun hs => slots_eq_zero fun fd ht => h.accounts.live fd s ht hs
    · intro h0
      by_contra hs
      obtain ⟨src, hs⟩ := Option.ne_none_iff_exists'.mp hs
      have := (h.accounts.source s src hs).2.2.2
      omega
  refine ⟨fun s src hs => (h.accounts.source s src hs).2.2.1, h.accounts.live, fun s hs => ?_⟩
  refine ⟨free_iff s, (h.accounts.freed s hs).trans ?_⟩
  exact if_congr (free_iff s) rfl rfl

theorem refs_init {os : Os} (hos : ∀ fd : Fd, fd.val < 3 → os.desc fd ≠ none) :
    Refs (.init os) where
  accounts := by
    have one : ∀ n : Fin 3, fdTableInit.slots n = 1 := by
      intro n
      have hn : n.val < maxFiles := by have := n.isLt; simp only [maxFiles]; omega
      have : ∀ fd : Fd, (fdTableInit.table fd = some n.val) ↔ fd = ⟨n, hn⟩ := by
        intro fd
        simp only [fdTableInit, Fin.ext_iff]
        have := n.isLt
        split
        · exact Option.some_inj
        · constructor
          · exact nofun
          · omega
      simp only [Memory.slots, this]
      simp
    refine ⟨fun s hs => ?_, fun s src hs => ?_, fun fd s ht => ?_, fun s hs => ?_⟩
    · show s < 3
      rcases hs with hs | hs
      · simp only [Process.init, List.mem_cons, List.not_mem_nil, or_false] at hs
        omega
      · cases hs
    · simp only [Process.init, fdTableInit] at hs
      split at hs
      case isTrue hlt =>
        obtain rfl := Option.some.inj hs
        have hslots : (Process.init os).memory.slots s = 1 := one ⟨s, hlt⟩
        rw [hslots]
        refine ⟨?_, nofun, rfl, Nat.one_pos⟩
        simp only [Process.init, List.mem_cons, List.not_mem_nil, or_false]
        omega
      case isFalse => cases hs
    · simp only [Process.init, fdTableInit] at ht ⊢
      split at ht
      case isTrue hlt =>
        obtain rfl := Option.some.inj ht
        rw [dif_pos hlt]
        exact nofun
      case isFalse => cases ht
    · have hlt : s < 3 := by
        simp only [Process.init, List.mem_cons, List.not_mem_nil, or_false] at hs
        omega
      simp [Process.init, fdTableInit, hlt]
  tracked fd ht := hos fd (by
    by_contra hn
    exact ht (if_neg hn))

/-- A source for an entry that is empty. -/
theorem Accounts.openEntry {m : Memory} {mallocs frees : List Nat} (h : Accounts m mallocs frees)
    {fd : Fd} (hfd : m.table fd = none) (path : String) (flags : BitVec 32) (mode : Nat) :
    Accounts (fdTableOpen m fd path flags mode) (m.next :: mallocs) frees :=
  h.addSource hfd nofun rfl

/-- A directory stream, of a new source or of the one that its descriptor has. -/
theorem Accounts.opendir {w w' : Process} (h : Accounts w.memory w.mallocs w.frees) {fd : Fd}
    {path : String} {tell : Int} (hw : w.tableOpendir fd path tell = some w') :
    Accounts w'.memory w'.mallocs w'.frees ∧
      ∀ fd', w'.memory.table fd' ≠ none → fd' = fd ∨ w.memory.table fd' ≠ none := by
  have hnew := h.newStream (update w.memory.stream w.memory.next (some ⟨fd, tell⟩))
  obtain ⟨m, hm, rfl⟩ := Option.map_eq_some_iff.mp hw
  cases ht : w.memory.table fd with
  | none =>
      rw [fdTableOpendir, ht] at hm
      obtain rfl := Option.some.inj hm
      simp only [if_true]
      refine ⟨hnew.addSource ht nofun rfl, fun fd' h' => ?_⟩
      by_cases hf : fd' = fd
      · exact .inl hf
      · rw [Memory.addSource_table, Function.update_of_ne hf] at h'
        exact .inr h'
  | some s =>
      rw [fdTableOpendir, ht] at hm
      obtain ⟨src, hs, rfl⟩ := Option.map_eq_some_iff.mp hm
      simp only [reduceCtorEq, if_false]
      exact ⟨hnew.setSource hs nofun rfl, fun fd' h' => .inr h'⟩

/-- What `open` does. -/
theorem Os.openFile_spec {os os' : Os} {path : String} {flags : BitVec 32} {ret : Nat}
    (h : os.openFile path flags ret = some os') :
    os.desc ret = none ∧
      os' = { desc := update os.desc ret (some ⟨os.next, flags &&& oCloexec ≠ 0⟩)
              file := update os.file os.next (some ⟨.path path, flags, flags &&& statusFlags, 0⟩)
              next := os.next + 1 } := by
  rw [openFile] at h
  split at h
  · cases h
  · exact ⟨not_ne_iff.mp ‹_›, (Option.some.inj h).symm⟩

theorem Os.close_spec {os os' : Os} {fd : Nat} (h : os.close fd = some os') :
    os.desc fd ≠ none ∧ os' = { os with desc := update os.desc fd none } := by
  rw [close] at h
  split at h
  · cases h
  · exact ⟨‹_›, (Option.some.inj h).symm⟩

/-- An entry is made for a descriptor that is opened. -/
theorem Tracked.grow {os os' : Os} {m m' : Memory} {fd : Fd} (h : Tracked os m)
    (ht : ∀ fd', m'.table fd' ≠ none → fd' = fd ∨ m.table fd' ≠ none)
    (hopen : os'.desc fd ≠ none) (hrest : ∀ fd' : Nat, fd' ≠ fd → os'.desc fd' = os.desc fd') :
    Tracked os' m' := by
  intro fd' h'
  by_cases hf : fd' = fd
  · exact hf ▸ hopen
  · rw [hrest fd' fun he => hf (Fin.ext he)]
    exact h fd' ((ht fd' h').resolve_left hf)

theorem tracked_addSource {m : Memory} {fd fd' : Fd} {src : FdSource}
    (h : (m.addSource fd src).table fd' ≠ none) : fd' = fd ∨ m.table fd' ≠ none := by
  by_cases hf : fd' = fd
  · exact .inl hf
  · rw [Memory.addSource_table, Function.update_of_ne hf] at h
    exact .inr h

theorem tracked_dup {m m' : Memory} {oldfd newfd fd : Fd} (hm : fdTableDup m oldfd newfd = some m')
    (h : m'.table fd ≠ none) : fd = newfd ∨ m.table fd ≠ none := by
  rw [fdTableDup] at hm
  split at hm
  · obtain rfl := Option.some.inj hm
    exact .inr h
  · obtain ⟨src, hs, rfl⟩ := Option.map_eq_some_iff.mp hm
    split at h
    · exact .inr h
    · by_cases hf : fd = newfd
      · exact .inl hf
      · simp only [Function.update_of_ne hf] at h
        exact .inr h

/-- `dup2` opens `newfd`, and leaves the other numbers. -/
theorem Os.dup2_spec {os os' : Os} {oldfd newfd : Nat} {cloexec : Bool}
    (h : os.dup2 oldfd newfd cloexec = some os') :
    os'.desc newfd ≠ none ∧ ∀ fd, fd ≠ newfd → os'.desc fd = os.desc fd := by
  obtain ⟨e, he, rfl⟩ := Option.map_eq_some_iff.mp h
  split
  case isTrue heq =>
    subst heq
    exact ⟨by rw [he]; exact nofun, fun _ _ => rfl⟩
  case isFalse =>
    exact ⟨by simp, fun fd hf => Function.update_of_ne hf ..⟩

theorem Os.setFile_desc {os os' : Os} {fd : Nat} {f : Description → Description}
    (h : os.setFile fd f = some os') : os'.desc = os.desc := by
  obtain ⟨e, -, h⟩ := Option.bind_eq_some_iff.mp h
  obtain ⟨d, -, rfl⟩ := Option.map_eq_some_iff.mp h
  rfl

/-- A dup of a tracked descriptor goes to an entry that is empty. -/
theorem Refs.dup {w w' : Process} (h : Refs w) {os : Os} {oldfd newfd : Fd} {cloexec : Bool}
    (hnew : w.memory.table oldfd ≠ none → w.memory.table newfd = none)
    (hos : w.os.dup2 oldfd newfd cloexec = some os) (hw : w.tableDup oldfd newfd = some w') :
    Refs { w' with os := os } := by
  obtain ⟨m, hm, rfl⟩ := Option.map_eq_some_iff.mp hw
  obtain ⟨hopen, hrest⟩ := Os.dup2_spec hos
  exact ⟨h.accounts.dup hnew hm, h.tracked.grow (fun _ => tracked_dup hm) hopen fun _ => hrest _⟩

/-- A stream of a descriptor that is open. -/
theorem Refs.opendir {w w' : Process} (h : Refs w) {os : Os} {fd : Fd} {path : String} {tell : Int}
    (hopen : os.desc fd ≠ none) (hrest : ∀ fd' : Nat, fd' ≠ fd → os.desc fd' = w.os.desc fd')
    (hw : w.tableOpendir fd path tell = some w') : Refs { w' with os := os } := by
  obtain ⟨haccounts, htable⟩ := h.accounts.opendir hw
  exact ⟨haccounts, h.tracked.grow htable hopen hrest⟩

theorem Refs.close {w w' : Process} (h : Refs w) {os : Os} {fd : Fd}
    (hos : w.os.close fd = some os) (hw : w.tableClose fd = some w') :
    Refs { w' with os := os } ∧ w'.memory.table = update w.memory.table fd none := by
  obtain ⟨m, hm, rfl⟩ := Option.map_eq_some_iff.mp hw
  obtain ⟨haccounts, htable⟩ := h.accounts.close hm
  obtain ⟨-, rfl⟩ := Os.close_spec hos
  refine ⟨⟨haccounts, fun fd' ht => ?_⟩, htable⟩
  have hf : fd' ≠ fd := by
    rintro rfl
    exact ht (by rw [htable, Function.update_self])
  rw [htable, Function.update_of_ne hf] at ht
  show update w.os.desc fd none fd' ≠ none
  rw [Function.update_of_ne fun he => hf (Fin.ext he)]
  exact h.tracked fd' ht

/-- `open` makes an entry where there is none. -/
theorem Refs.open {w : Process} (h : Refs w) {os : Os} {fd : Fd} {path path' : String}
    {flags flags' : BitVec 32} (hfd : w.memory.table fd = none)
    (hos : w.os.openFile path flags fd = some os) (mode : Nat) :
    Refs { w.tableOpen fd path' flags' mode with os := os } := by
  obtain ⟨-, rfl⟩ := Os.openFile_spec hos
  refine ⟨h.accounts.openEntry hfd path' flags' mode, h.tracked.grow (fun _ => tracked_addSource) ?_
    fun fd' hf => Function.update_of_ne hf ..⟩
  simp

/-- `freopen` closes an entry before it makes another. -/
theorem Refs.freopen {w w' : Process} (h : Refs w) {os : Os} {path : String} {oflag : BitVec 32}
    {oldfd newfd : Fd} (hos : w.os.freopen path oflag oldfd newfd = some os)
    (hw : w.tableFreopen path oflag oldfd newfd = some w') : Refs { w' with os := os } := by
  obtain ⟨os₁, hclose, hopen⟩ := Option.bind_eq_some_iff.mp hos
  obtain ⟨w₁, hw₁, hw⟩ := Option.bind_eq_some_iff.mp hw
  obtain ⟨w₂, hw₂, rfl⟩ := Option.map_eq_some_iff.mp hw
  have hfree : os₁.desc newfd = none := (Os.openFile_spec hopen).1
  -- The stream's own entry is closed first when it gets another number.
  by_cases hne : newfd ≠ oldfd
  · rw [if_pos hne] at hw₁
    have h₁ := (h.close hclose hw₁).1
    have hempty : w₁.memory.table newfd = none := by
      by_contra ht
      exact h₁.tracked newfd ht hfree
    obtain ⟨m, hm, rfl⟩ := Option.map_eq_some_iff.mp hw₂
    obtain ⟨haccounts, htable⟩ := h₁.accounts.close hm
    have h₂ : Refs { w₁ with os := os₁, memory := m, frees := w₁.memory.freedBy newfd ++ w₁.frees } := by
      refine ⟨haccounts, fun fd ht => h₁.tracked fd ?_⟩
      have heq : m.table = w₁.memory.table := by
        rw [htable, ← hempty, Function.update_eq_self]
      exact fun hn => ht (by rw [heq]; exact hn)
    exact h₂.open (by rw [htable, Function.update_self]) hopen 0x1b6
  · rw [if_neg hne] at hw₁
    obtain rfl := Option.some.inj hw₁
    obtain rfl := not_ne_iff.mp hne
    obtain ⟨h₂, htable⟩ := h.close hclose hw₂
    exact h₂.open (by rw [htable, Function.update_self]) hopen 0x1b6

/-- **A call.** -/
theorem Refs.step {w w' : Process} {c : Call} (h : Refs w) (hc : Vacant w c)
    (hstep : w.step c = some w') : Refs w' := by
  obtain ⟨os, w₁, hos, hw, rfl⟩ := Process.step_cases hstep
  have free : ∀ fd : Fd, w.os.desc fd = none → w.memory.table fd = none := fun fd hf => by
    by_contra ht
    exact h.tracked fd ht hf
  cases c with
  | openat path flags mode ret =>
      obtain rfl := Option.some.inj hw
      exact h.open (free ret (Os.openFile_spec hos).1) hos mode
  | opendir path tell ret =>
      obtain ⟨-, rfl⟩ := Os.openFile_spec hos
      exact h.opendir (by simp) (fun fd' hf => Function.update_of_ne hf ..) hw
  | fdopendir fd path tell =>
      simp only [Call.kernel] at hos
      split at hos
      · cases hos
      · obtain rfl := Option.some.inj hos
        exact h.opendir ‹_› (fun _ _ => rfl) hw
  | dup oldfd newfd cloexec =>
      simp only [Call.kernel, Os.dup] at hos
      split at hos
      · cases hos
      · exact h.dup (fun _ => free newfd (not_ne_iff.mp ‹_›)) hos hw
  | dup2 oldfd newfd => exact h.dup hc hos hw
  | freopen path oflag oldfd newfd => exact h.freopen hos hw
  | close fd => exact (h.close hos hw).1
  | setfl fd flags | seek fd pos =>
      obtain rfl := Option.some.inj hw
      exact ⟨h.accounts, fun fd' ht => by rw [Os.setFile_desc hos]; exact h.tracked fd' ht⟩
  | setfd fd cloexec =>
      obtain rfl := Option.some.inj hw
      obtain ⟨e, he, rfl⟩ := Option.map_eq_some_iff.mp hos
      exact ⟨h.accounts, h.tracked.grow (fun _ => .inr) (by simp) fun fd' hf =>
        Function.update_of_ne hf ..⟩
  | walk dirp tell =>
      obtain ⟨d, -, rfl⟩ := Option.map_eq_some_iff.mp hw
      obtain rfl := Option.some.inj hos
      exact ⟨⟨h.accounts.named, h.accounts.source, h.accounts.live, h.accounts.freed⟩, h.tracked⟩

/-- **The counts are right** after every call, in a run in which no tracked descriptor is
dup'd onto a tracked one by `dup2`, of a process that was started with its three streams. -/
theorem counted_of_vacant {os : Os} (hos : ∀ fd : Fd, fd.val < 3 → os.desc fd ≠ none) {w : Process}
    (h : Process.step.Runs Vacant (.init os) w) : Counted w :=
  (h.invariant (fun _ _ _ hw hc hstep => hw.step hc hstep) (refs_init hos)).counted

/-- The streams 0, 1 and 2. -/
def threeStreams : Os where
  desc fd := if fd < 3 then some ⟨fd, false⟩ else none
  file n := if n < 3 then some ⟨.stream n, 0, 0, 0⟩ else none
  next := 3

theorem threeStreams_named (n : Nat) (e : Entry) (he : threeStreams.desc n = some e) :
    e.file < threeStreams.next := by
  simp only [threeStreams, Option.ite_none_right_eq_some, Option.some.injEq] at he
  obtain ⟨hlt, rfl⟩ := he
  exact hlt

theorem counted_of_vacant_closed : ∃ w, Process.step.Runs Vacant (.init threeStreams) w ∧
    w.mallocs = [4, 3, 2, 1, 0] ∧ w.frees = [3] ∧ Counted w := by
  obtain ⟨w, hruns, hw⟩ := Machine.exists_runs Process.step Vacant (.init threeStreams)
    (fun w => w.mallocs = [4, 3, 2, 1, 0] ∧ w.frees = [3])
    [.openat "log" 0 0 3, .dup 3 4 false, .close 3, .dup2 4 5, .close 4, .freopen "out" 1 5 5]
    (by decide +kernel)
  obtain ⟨hmallocs, hfrees⟩ := of_decide_eq_true hw
  exact ⟨w, hruns, hmallocs, hfrees, counted_of_vacant (by decide +kernel) hruns⟩

/-- The source of the standard output is not freed when a file takes its place. -/
theorem not_counted_of_vacant : ¬ ∀ os : Os, (∀ fd : Fd, fd.val < 3 → os.desc fd ≠ none) →
    ∀ w, Process.step.Runs (fun _ _ => True) (.init os) w → Counted w := by
  intro H
  obtain ⟨w, hruns, hw⟩ := Machine.exists_runs Process.step (fun _ _ => True) (.init threeStreams)
    (fun w => w.memory.source 1 ≠ none ∧ 1 ∈ w.mallocs ∧ ∀ fd, w.memory.table fd ≠ some 1)
    [.openat "log" 0 0 3, .dup2 3 1] (by decide +kernel)
  obtain ⟨hlive, hmade, hgone⟩ := of_decide_eq_true hw
  exact hlive (((H threeStreams (by decide +kernel) w hruns).freed 1 hmade).1.mpr
    (slots_eq_zero hgone))

end Xnd.Files
