import Xnd.Files.Streams

/-!
# Flags across a checkpoint

A source has one word of flags for all its descriptors.  `file_save` reads it off the
first one: it adds the status flags that are set, but takes none back, and it makes
`O_CLOEXEC` what close-on-exec is for this descriptor.  `file_restore` opens the file
with that word, and every other descriptor is made by `dup2`, which clears
close-on-exec.
-/
namespace Xnd.Files
open Function (update)

/-! ## Words of flags -/

theorem cloexecFlags_oCloexec (flags getfd : BitVec 32) :
    cloexecFlags flags getfd &&& oCloexec ≠ 0 ↔ getfd &&& fdCloexec ≠ 0 := by
  unfold cloexecFlags
  split
  case isTrue h =>
    have hclear : flags &&& ~~~oCloexec &&& oCloexec = 0 := by
      rw [BitVec.and_assoc]
      exact BitVec.and_zero
    simp only [hclear, h.2]
  case isFalse h =>
    split
    case isTrue hset =>
      have : (flags ||| oCloexec) &&& oCloexec ≠ 0 := by
        rw [BitVec.and_or_distrib_right, hset.2]
        decide
      exact iff_of_true this hset.1
    case isFalse hset =>
      by_cases hf : flags &&& oCloexec = 0
      · exact iff_of_false (not_not.mpr hf) fun hg => hset ⟨hg, hf⟩
      · exact iff_of_true hf fun hg => h ⟨hf, hg⟩

/-- The flag of `F_GETFD` is the only one that is written. -/
theorem cloexecFlags_and {mask : BitVec 32} (hmask : ~~~oCloexec &&& mask = mask)
    (hmask' : oCloexec &&& mask = 0) (flags getfd : BitVec 32) :
    cloexecFlags flags getfd &&& mask = flags &&& mask := by
  unfold cloexecFlags
  split
  · rw [BitVec.and_assoc, hmask]
  · split
    · rw [BitVec.and_or_distrib_right, hmask']
      exact BitVec.or_zero
    · rfl

/-- No flag is added to those that are set. -/
theorem or_and_eq_iff (a b mask : BitVec 32) :
    (a ||| b &&& mask) &&& mask = b &&& mask ↔ a &&& mask &&& ~~~b = 0 := by
  have bit : ∀ x y m : Bool, ((x || y && m) && m) = (y && m) ↔ (x && m && !y) = false := by decide
  constructor
  · intro h
    apply BitVec.eq_of_getElem_eq
    intro i hi
    have : ((a ||| b &&& mask) &&& mask)[i] = (b &&& mask)[i] := by rw [h]
    simp only [BitVec.getElem_and, BitVec.getElem_or, BitVec.getElem_not] at this ⊢
    exact ((bit _ _ _).mp this).trans (BitVec.getElem_zero hi).symm
  · intro h
    apply BitVec.eq_of_getElem_eq
    intro i hi
    have : (a &&& mask &&& ~~~b)[i] = false := by
      rw [h]
      exact BitVec.getElem_zero hi
    simp only [BitVec.getElem_and, BitVec.getElem_or, BitVec.getElem_not] at this ⊢
    exact (bit _ _ _).mpr this

/-- The word that `file_save` leaves. -/
def savedFlags (flags status getfd : BitVec 32) : BitVec 32 :=
  cloexecFlags (flags ||| (status &&& statusFlags)) getfd &&& ~~~oTrunc &&& ~~~oExcl

theorem savedFlags_and {mask : BitVec 32} (hcloexec : ~~~oCloexec &&& mask = mask)
    (hcloexec' : oCloexec &&& mask = 0) (hopen : ~~~oTrunc &&& (~~~oExcl &&& mask) = mask)
    (flags status getfd : BitVec 32) :
    savedFlags flags status getfd &&& mask = (flags ||| (status &&& statusFlags)) &&& mask := by
  rw [savedFlags, BitVec.and_assoc, BitVec.and_assoc, hopen,
    cloexecFlags_and hcloexec hcloexec']

theorem savedFlags_statusFlags (flags status getfd : BitVec 32) :
    savedFlags flags status getfd &&& statusFlags &&& statusFlags = status &&& statusFlags ↔
      flags &&& statusFlags &&& ~~~status = 0 := by
  rw [BitVec.and_assoc, BitVec.and_self,
    savedFlags_and (by decide) (by decide) (by decide), or_and_eq_iff]

theorem savedFlags_oCloexec (flags status getfd : BitVec 32) :
    savedFlags flags status getfd &&& oCloexec ≠ 0 ↔ getfd &&& fdCloexec ≠ 0 := by
  have hmask : ~~~oTrunc &&& (~~~oExcl &&& oCloexec) = oCloexec := by decide
  rw [savedFlags, BitVec.and_assoc, BitVec.and_assoc, hmask, cloexecFlags_oCloexec]

theorem savedFlags_oTrunc (flags status getfd : BitVec 32) :
    savedFlags flags status getfd &&& oTrunc = 0 := by
  have hmask : ~~~oTrunc &&& (~~~oExcl &&& oTrunc) = 0 := by decide
  rw [savedFlags, BitVec.and_assoc, BitVec.and_assoc, hmask]
  exact BitVec.and_zero

theorem savedFlags_oExcl (flags status getfd : BitVec 32) :
    savedFlags flags status getfd &&& oExcl = 0 := by
  have hmask : ~~~oTrunc &&& (~~~oExcl &&& oExcl) = 0 := by decide
  rw [savedFlags, BitVec.and_assoc, BitVec.and_assoc, hmask]
  exact BitVec.and_zero

/-! ## `fd_table_save` -/

/-- `file_save` that is successful. -/
theorem FdSource.fileSave_spec {k : Kernel} {a : SaveAnswer} {fd : Fd} {src src' : FdSource}
    (h : src.fileSave k a fd = (true, src')) :
    ∃ status getfd, a.getfl = some status ∧ a.getfd = some getfd ∧
      src'.flags = savedFlags src.flags status getfd ∧ src'.type = src.type ∧ src'.state = .saved := by
  unfold fileSave at h
  split at h
  case h_1 => cases h
  case h_2 =>
    split at h
    case h_1 => cases h
    case h_2 status hstatus =>
      split at h
      case h_1 => cases h
      case h_2 getfd hgetfd =>
        obtain rfl := (Prod.mk.inj h).2
        exact ⟨status, getfd, hstatus, hgetfd, rfl, rfl, rfl⟩

/-- A turn leaves the sources of the other descriptors. -/
theorem saveOne_other {k : Kernel} {a : SaveAnswer} {m m' : Memory} {fd : Fd} {ok : Bool}
    (h : saveOne k a m fd = some (ok, m')) {s : Nat} (ht : m.table fd ≠ some s) :
    m'.source s = m.source s := by
  rcases saveOne_cases h with ⟨rfl, -⟩ | ⟨s', src, src', ht', -, -, -, rfl, -⟩
  · rfl
  · have hss : s ≠ s' := by
      rintro rfl
      exact ht ht'
    exact Function.update_of_ne hss ..

/-- A file is saved by the first of its descriptors. -/
theorem saveLoop_first {k : Kernel} {ans : Fd → SaveAnswer} {fds : List Fd} {m m' : Memory}
    (h : saveLoop k ans fds m = some (true, m')) (hsorted : fds.Pairwise (· < ·)) {fd : Fd}
    (hfd : fd ∈ fds) {s : Nat} {src : FdSource} (ht : m.table fd = some s)
    (hmin : ∀ fd', m.table fd' = some s → fd ≤ fd') (hs : m.source s = some src)
    (hfile : src.type = .file) (hst : src.state ≠ .saved) :
    ∃ src', src.fileSave k (ans fd) fd = (true, src') ∧ m'.source s = some src' := by
  induction fds generalizing m with
  | nil => cases hfd
  | cons fd' fds ih =>
      obtain ⟨ok₁, m₁, ok₂, h1, h2, hok⟩ := saveLoop_cons h
      obtain ⟨rfl, rfl⟩ := (Bool.and_eq_true_iff ..).mp hok.symm
      obtain ⟨hlt, hsorted⟩ := List.pairwise_cons.mp hsorted
      by_cases hhead : fd = fd'
      · subst hhead
        rw [saveOne, ht] at h1
        simp only [hs, Option.bind_some, if_neg hst, opsSave, hfile, Option.map_some,
          reduceCtorEq, if_false, Option.some.injEq, Prod.mk.injEq] at h1
        obtain ⟨hsaved, rfl⟩ := h1
        have hsave : src.fileSave k (ans fd) fd = (true, (src.fileSave k (ans fd) fd).2) :=
          Prod.ext hsaved rfl
        obtain ⟨-, -, -, -, -, -, hstate⟩ := FdSource.fileSave_spec hsave
        exact ⟨_, hsave, saveLoop_keeps h2 (Function.update_self ..) (.inr hstate)⟩
      · have hmem := (List.mem_cons.mp hfd).resolve_left hhead
        have hother : m.table fd' ≠ some s := by
          intro ht'
          have hle : fd.val ≤ fd'.val := hmin fd' ht'
          have hgt : fd'.val < fd.val := hlt fd hmem
          omega
        have htable := (saveOne_table h1).1
        exact ih h2 hsorted hmem (htable ▸ ht) (htable ▸ hmin) ((saveOne_other h1 hother).trans hs)

/-! ## Descriptors of one source -/

/-- `dup` and `dup2` are of tracked descriptors. -/
def Aliasing (w : Process) : Call → Prop
  | .dup oldfd _ _ | .dup2 oldfd _ => w.memory.table oldfd ≠ none
  | _ => True

instance (w : Process) : (c : Call) → Decidable (Aliasing w c)
  | .dup oldfd _ _ | .dup2 oldfd _ => inferInstanceAs (Decidable (w.memory.table oldfd ≠ none))
  | .openat .. | .opendir .. | .fdopendir .. | .freopen .. | .close _ | .setfl .. | .setfd ..
  | .seek .. | .walk .. => inferInstanceAs (Decidable True)

/-- **The invariant of the descriptors**: those of one source have one description, and
before the first save no source is marked.  An entry whose descriptor is closed was made by
`fd_table_init`, and is the only one of its source. -/
structure Aliased (os : Os) (m : Memory) : Prop where
  named : ∀ fd s, m.table fd = some s → s < m.next
  source : ∀ s src, m.source s = some src → src.type ≠ .null ∧ src.state = .null
  closed : ∀ fd fd' s, m.table fd = some s → os.fileAt fd = none → m.table fd' = some s → fd' = fd
  shared : ∀ fd fd' s, m.table fd = some s → m.table fd' = some s → os.fileAt fd = os.fileAt fd'

namespace Aliased
variable {os os' : Os} {m m' : Memory}

theorem init : Aliased os fdTableInit := by
  have name : ∀ (fd : Fd) s, fdTableInit.table fd = some s → fd.val = s ∧ s < 3 := by
    intro fd s ht
    simp only [fdTableInit] at ht
    split at ht
    · obtain rfl := Option.some.inj ht
      exact ⟨rfl, by assumption⟩
    · cases ht
  have one : ∀ fd fd' s, fdTableInit.table fd = some s → fdTableInit.table fd' = some s →
      fd' = fd := fun fd fd' s ht ht' => Fin.ext ((name fd' s ht').1.trans (name fd s ht).1.symm)
  refine ⟨fun fd s ht => (name fd s ht).2, fun s src hs => ?_,
    fun fd fd' s ht _ ht' => one fd fd' s ht ht', fun fd fd' s ht ht' => ?_⟩
  · simp only [fdTableInit] at hs
    split at hs
    · obtain rfl := Option.some.inj hs
      exact ⟨by rintro ⟨⟩, rfl⟩
    · cases hs
  · rw [one fd fd' s ht ht']

/-- Every entry is one from before, with its description. -/
theorem of_entries (h : Aliased os m) (g : Fd → Fd)
    (hg : ∀ fd fd', os.fileAt (g fd) = none → g fd' = g fd → fd' = fd) (hnext : m.next ≤ m'.next)
    (hsource : ∀ s src, m'.source s = some src → src.type ≠ .null ∧ src.state = .null)
    (htable : ∀ fd s, m'.table fd = some s →
      m.table (g fd) = some s ∧ os'.fileAt fd = os.fileAt (g fd)) : Aliased os' m' where
  named fd s ht := Nat.lt_of_lt_of_le (h.named (g fd) s (htable fd s ht).1) hnext
  source := hsource
  closed fd fd' s ht hclosed ht' := by
    obtain ⟨ht, hfile⟩ := htable fd s ht
    rw [hfile] at hclosed
    exact hg fd fd' hclosed (h.closed (g fd) (g fd') s ht hclosed (htable fd' s ht').1)
  shared fd fd' s ht ht' := by
    obtain ⟨ht, hfile⟩ := htable fd s ht
    obtain ⟨ht', hfile'⟩ := htable fd' s ht'
    rw [hfile, hfile']
    exact h.shared (g fd) (g fd') s ht ht'

/-- The entries are those from before. -/
theorem of_table (h : Aliased os m) (hnext : m.next ≤ m'.next)
    (hsource : ∀ s src, m'.source s = some src → src.type ≠ .null ∧ src.state = .null)
    (htable : ∀ fd s, m'.table fd = some s → m.table fd = some s ∧ os'.fileAt fd = os.fileAt fd) :
    Aliased os' m' :=
  h.of_entries id (fun _ _ _ heq => heq) hnext hsource htable

/-- A descriptor is opened whose entry was never in use. -/
theorem openClosed (h : Aliased os m) {fd : Fd} (hclosed : os.fileAt fd = none)
    (hopen : os'.fileAt fd ≠ none) (hrest : ∀ fd' : Fd, fd' ≠ fd → os'.fileAt fd' = os.fileAt fd') :
    Aliased os' m := by
  refine ⟨h.named, h.source, fun fd₁ fd₂ s h₁ hc h₂ => ?_, fun fd₁ fd₂ s h₁ h₂ => ?_⟩
  · have hne : fd₁ ≠ fd := by
      rintro rfl
      exact hopen hc
    exact h.closed fd₁ fd₂ s h₁ (hrest fd₁ hne ▸ hc) h₂
  · by_cases hf₁ : fd₁ = fd
    · subst hf₁
      rw [h.closed fd₁ fd₂ s h₁ hclosed h₂]
    · by_cases hf₂ : fd₂ = fd
      · subst hf₂
        exact absurd (h.closed fd₂ fd₁ s h₂ hclosed h₁) hf₁
      · rw [hrest fd₁ hf₁, hrest fd₂ hf₂]
        exact h.shared fd₁ fd₂ s h₁ h₂

/-- A source is made for a descriptor that is open now. -/
theorem addSource (h : Aliased os m) {fd : Fd} {src : FdSource}
    (hsrc : src.type ≠ .null ∧ src.state = .null) (hopen : os'.fileAt fd ≠ none)
    (hrest : ∀ fd' : Fd, fd' ≠ fd → os'.fileAt fd' = os.fileAt fd') :
    Aliased os' (m.addSource fd src) := by
  have cases : ∀ fd' s, (m.addSource fd src).table fd' = some s →
      (fd' = fd ∧ s = m.next) ∨ (fd' ≠ fd ∧ m.table fd' = some s) := by
    intro fd' s ht
    by_cases hf : fd' = fd
    · subst hf
      simp only [Memory.addSource_table, Function.update_self, Option.some.injEq] at ht
      exact .inl ⟨rfl, ht.symm⟩
    · simp only [Memory.addSource_table, Function.update_of_ne hf] at ht
      exact .inr ⟨hf, ht⟩
  refine ⟨fun fd' s ht => ?_, fun s src' hs => ?_, fun fd₁ fd₂ s h₁ hc h₂ => ?_,
    fun fd₁ fd₂ s h₁ h₂ => ?_⟩
  · rcases cases fd' s ht with ⟨-, rfl⟩ | ⟨-, ht⟩
    · exact Nat.lt_succ_self _
    · exact Nat.lt_succ_of_lt (h.named fd' s ht)
  · by_cases hss : s = m.next
    · simp only [Memory.addSource_source, hss, Function.update_self, Option.some.injEq] at hs
      exact hs ▸ hsrc
    · simp only [Memory.addSource_source, Function.update_of_ne hss] at hs
      exact h.source s src' hs
  · rcases cases fd₁ s h₁ with ⟨rfl, -⟩ | ⟨hf₁, h₁⟩
    · exact absurd hc hopen
    · rcases cases fd₂ s h₂ with ⟨-, rfl⟩ | ⟨-, h₂⟩
      · exact absurd (h.named fd₁ _ h₁) (Nat.lt_irrefl _)
      · exact h.closed fd₁ fd₂ s h₁ (hrest fd₁ hf₁ ▸ hc) h₂
  · rcases cases fd₁ s h₁ with ⟨rfl, rfl⟩ | ⟨hf₁, h₁⟩ <;>
      rcases cases fd₂ _ h₂ with ⟨hf₂, hs₂⟩ | ⟨hf₂, h₂⟩
    · rw [hf₂]
    · exact absurd (h.named fd₂ _ h₂) (Nat.lt_irrefl _)
    · exact absurd (hs₂ ▸ h.named fd₁ s h₁) (Nat.lt_irrefl _)
    · rw [hrest fd₁ hf₁, hrest fd₂ hf₂]
      exact h.shared fd₁ fd₂ s h₁ h₂

/-- A new stream is put in the heap. -/
theorem newStream (h : Aliased os m) (stream : Nat → Option Stream) :
    Aliased os { m with stream := stream, next := m.next + 1 } :=
  h.of_table (Nat.le_succ _) h.source fun _ _ ht => ⟨ht, rfl⟩

theorem close (h : Aliased os m) {fd : Fd} (hm : fdTableClose m fd = some m')
    (hrest : ∀ fd' : Fd, fd' ≠ fd → os'.fileAt fd' = os.fileAt fd') : Aliased os' m' := by
  cases ht : m.table fd with
  | none =>
      rw [fdTableClose, ht] at hm
      obtain rfl := Option.some.inj hm
      refine h.of_table (Nat.le_refl _) h.source fun fd' s ht' => ⟨ht', hrest fd' ?_⟩
      rintro rfl
      exact absurd (ht.symm.trans ht') (by rintro ⟨⟩)
  | some s =>
      rw [fdTableClose, ht] at hm
      obtain ⟨src, hs, rfl⟩ := Option.map_eq_some_iff.mp hm
      rw [if_neg (h.source s src hs).1]
      refine h.of_table (Nat.le_refl _) (fun s' src' hs' => ?_) fun fd' s' ht' => ?_
      · by_cases hss : s' = s
        · simp only [hss, Function.update_self, FdSource.release] at hs'
          split at hs'
          · cases hs'
          · obtain rfl := Option.some.inj hs'
            exact h.source s src hs
        · simp only [Function.update_of_ne hss] at hs'
          exact h.source s' src' hs'
      · by_cases hf : fd' = fd
        · simp only [hf, Function.update_self] at ht'
          cases ht'
        · simp only [Function.update_of_ne hf] at ht'
          exact ⟨ht', hrest fd' hf⟩

theorem dup (h : Aliased os m) {oldfd newfd : Fd} {cloexec : Bool} (ht : m.table oldfd ≠ none)
    (hos : os.dup2 oldfd newfd cloexec = some os') (hm : fdTableDup m oldfd newfd = some m') :
    Aliased os' m' := by
  obtain ⟨s, hs⟩ := Option.ne_none_iff_exists'.mp ht
  rw [fdTableDup, hs] at hm
  obtain ⟨src, hsrc, rfl⟩ := Option.map_eq_some_iff.mp hm
  rw [if_neg (h.source s src hsrc).1]
  obtain ⟨e, he, rfl⟩ := Option.map_eq_some_iff.mp hos
  refine h.of_entries (fun fd => if fd = newfd then oldfd else fd) (fun fd fd' hc heq => ?_)
    (Nat.le_refl _) (fun s' src' hs' => ?_) fun fd s' ht' => ?_
  · -- the descriptor that has an alias now is open
    have hne : (if fd = newfd then oldfd else fd) ≠ oldfd := by
      intro hold
      rw [hold, Os.fileAt, he] at hc
      cases hc
    have hfd : fd ≠ newfd := fun hf => hne (if_pos hf)
    rw [if_neg hfd] at heq hne
    by_cases hfd' : fd' = newfd
    · rw [if_pos hfd'] at heq
      exact absurd heq.symm hne
    · rwa [if_neg hfd'] at heq
  · by_cases hss : s' = s
    · simp only [hss, Function.update_self, Option.some.injEq] at hs'
      exact hs' ▸ h.source s src hsrc
    · simp only [Function.update_of_ne hss] at hs'
      exact h.source s' src' hs'
  · by_cases hf : fd = newfd
    · subst hf
      simp only [Function.update_self] at ht'
      simp only [if_true]
      refine ⟨hs.trans ht', ?_⟩
      split
      case isTrue heq => rw [heq]
      case isFalse => simp only [Os.fileAt, Function.update_self, he, Option.map_some]
    · simp only [Function.update_of_ne hf] at ht'
      simp only [if_neg hf]
      refine ⟨ht', ?_⟩
      split
      · rfl
      · simp only [Os.fileAt, Function.update_of_ne (Fin.val_ne_of_ne hf)]

/-- A stream of a descriptor that is open now. -/
theorem opendir {w w' : Process} (h : Aliased os w.memory) {fd : Fd} {path : String} {tell : Int}
    (hopen : os'.fileAt fd ≠ none) (hrest : ∀ fd' : Fd, fd' ≠ fd → os'.fileAt fd' = os.fileAt fd')
    (hsame : os.fileAt fd ≠ none → os'.fileAt fd = os.fileAt fd)
    (hw : w.tableOpendir fd path tell = some w') : Aliased os' w'.memory := by
  have hnew := h.newStream (update w.memory.stream w.memory.next (some ⟨fd, tell⟩))
  obtain ⟨m, hm, rfl⟩ := Option.map_eq_some_iff.mp hw
  cases ht : w.memory.table fd with
  | none =>
      rw [fdTableOpendir, ht] at hm
      obtain rfl := Option.some.inj hm
      exact hnew.addSource ⟨by rintro ⟨⟩, rfl⟩ hopen hrest
  | some s =>
      rw [fdTableOpendir, ht] at hm
      obtain ⟨src, hs, rfl⟩ := Option.map_eq_some_iff.mp hm
      have hopened : Aliased os' { w.memory with
          stream := update w.memory.stream w.memory.next (some ⟨fd, tell⟩)
          next := w.memory.next + 1 } := by
        by_cases hclosed : os.fileAt fd = none
        · exact hnew.openClosed hclosed hopen hrest
        · refine hnew.of_table (Nat.le_refl _) hnew.source fun fd' _ ht' => ⟨ht', ?_⟩
          by_cases hf : fd' = fd
          · exact hf ▸ hsame hclosed
          · exact hrest fd' hf
      refine hopened.of_table (Nat.le_refl _) (fun s' src' hs' => ?_) fun _ _ ht' => ⟨ht', rfl⟩
      by_cases hss : s' = s
      · simp only [Memory.setSource_source, hss, Function.update_self, Option.some.injEq] at hs'
        exact hs' ▸ ⟨by rintro ⟨⟩, (h.source s src hs).2⟩
      · simp only [Memory.setSource_source, Function.update_of_ne hss] at hs'
        exact h.source s' src' hs'

theorem freopen {w w' : Process} (h : Aliased os w.memory) {path : String} {oflag : BitVec 32}
    {oldfd newfd : Fd} (hos : os.freopen path oflag oldfd newfd = some os')
    (hw : w.tableFreopen path oflag oldfd newfd = some w') : Aliased os' w'.memory := by
  obtain ⟨os₁, hclose, hopen⟩ := Option.bind_eq_some_iff.mp hos
  obtain ⟨w₁, hw₁, hw⟩ := Option.bind_eq_some_iff.mp hw
  obtain ⟨w₂, hw₂, rfl⟩ := Option.map_eq_some_iff.mp hw
  obtain ⟨hnew, hrest⟩ := Os.openFile_fileAt hopen
  obtain ⟨m, hm, rfl⟩ := Option.map_eq_some_iff.mp hw₂
  have h₁ : Aliased os₁ m := by
    by_cases hne : newfd ≠ oldfd
    · rw [if_pos hne] at hw₁
      obtain ⟨m₁, hm₁, rfl⟩ := Option.map_eq_some_iff.mp hw₁
      exact (h.close hm₁ (Os.close_fileAt hclose)).close hm fun _ _ => rfl
    · rw [if_neg hne] at hw₁
      obtain rfl := Option.some.inj hw₁
      obtain rfl := not_ne_iff.mp hne
      exact h.close hm (Os.close_fileAt hclose)
  exact h₁.addSource ⟨nofun, rfl⟩ hnew hrest

/-- **A call.** -/
theorem step {w w' : Process} {c : Call} (h : Aliased w.os w.memory) (hc : Aliasing w c)
    (hstep : w.step c = some w') : Aliased w'.os w'.memory := by
  obtain ⟨os, w₁, hos, hw, rfl⟩ := Process.step_cases hstep
  show Aliased os w₁.memory
  have same : (∀ fd : Fd, os.fileAt fd = w.os.fileAt fd) → Aliased os w.memory := fun hsame =>
    h.of_table (Nat.le_refl _) h.source fun fd _ ht => ⟨ht, hsame fd⟩
  cases c with
  | openat path flags mode ret =>
      obtain rfl := Option.some.inj hw
      obtain ⟨hnew, hrest⟩ := Os.openFile_fileAt hos
      exact h.addSource ⟨nofun, rfl⟩ hnew hrest
  | opendir path tell fd =>
      obtain ⟨hnew, hrest⟩ := Os.openFile_fileAt hos
      have hfree : w.os.fileAt fd = none := by
        rw [Os.fileAt, (Os.openFile_spec hos).1, Option.map_none]
      exact h.opendir hnew hrest (fun hopen => absurd hfree hopen) hw
  | fdopendir fd path tell =>
      simp only [Call.kernel] at hos
      split at hos
      · cases hos
      · obtain rfl := Option.some.inj hos
        exact h.opendir (by simpa [Os.fileAt]) (fun _ _ => rfl) (fun _ => rfl) hw
  | dup oldfd newfd cloexec =>
      obtain ⟨m, hm, rfl⟩ := Option.map_eq_some_iff.mp hw
      simp only [Call.kernel, Os.dup] at hos
      split at hos
      · cases hos
      · exact h.dup hc hos hm
  | dup2 oldfd newfd =>
      obtain ⟨m, hm, rfl⟩ := Option.map_eq_some_iff.mp hw
      exact h.dup hc hos hm
  | freopen path oflag oldfd newfd => exact h.freopen hos hw
  | close fd =>
      obtain ⟨m, hm, rfl⟩ := Option.map_eq_some_iff.mp hw
      exact h.close hm (Os.close_fileAt hos)
  | setfl fd flags | seek fd pos =>
      obtain rfl := Option.some.inj hw
      exact same fun fd' => by rw [Os.fileAt, Os.setFile_desc hos, Os.fileAt]
  | setfd fd cloexec =>
      obtain rfl := Option.some.inj hw
      obtain ⟨e, he, rfl⟩ := Option.map_eq_some_iff.mp hos
      refine same fun fd' => ?_
      by_cases hf : fd' = fd
      · simp only [hf, Os.fileAt, Function.update_self, he, Option.map_some]
      · simp only [Os.fileAt, Function.update_of_ne (Fin.val_ne_of_ne hf)]
  | walk dirp tell =>
      obtain ⟨d, -, rfl⟩ := Option.map_eq_some_iff.mp hw
      obtain rfl := Option.some.inj hos
      exact h.of_table (Nat.le_refl _) h.source fun _ _ ht => ⟨ht, rfl⟩

end Aliased

theorem aliased_of_runs {os : Os} {w : Process} (h : Process.step.Runs Aliasing (.init os) w) : Aliased w.os w.memory :=
  h.invariant (I := fun w => Aliased w.os w.memory) (fun _ _ _ hw hc hstep => hw.step hc hstep)
    Aliased.init

/-! ## The flags of a file -/

/-- The first descriptor of a source. -/
theorem exists_first {m : Memory} {fd : Fd} {s : Nat} (ht : m.table fd = some s) :
    ∃ first, m.table first = some s ∧ ∀ fd', m.table fd' = some s → first ≤ fd' := by
  have hex : ∃ n, ∃ h : n < maxFiles, m.table ⟨n, h⟩ = some s := ⟨fd, fd.isLt, ht⟩
  obtain ⟨hlt, hfirst⟩ := Nat.find_spec hex
  exact ⟨⟨Nat.find hex, hlt⟩, hfirst, fun fd' ht' => Nat.find_min' hex ⟨fd'.isLt, ht'⟩⟩

/-- **What a checkpoint and a restart keep** of the flags of a descriptor. -/
structure FlagsKept (e : Entry) (d : Description) (e' : Entry) (d' : Description) : Prop where
  status : d'.status &&& statusFlags = d.status &&& statusFlags
  cloexec : e'.cloexec = e.cloexec
  trunc : d'.flags &&& oTrunc = 0
  excl : d'.flags &&& oExcl = 0

/-- **The flags of a file are kept** if and only if no status flag that it was opened with
was cleared, and a descriptor that is to be closed on exec is the first one of its file and
what `open` returns. -/
theorem flagsKept_iff {os os₀ os' : Os} {w : Process} {seek : Fd → Bool} {m m' : Memory}
    {a : Reopening} (hrun : Process.step.Runs Aliasing (.init os) w)
    (hsave : w.fdTableSave seek = some (true, m))
    (hrestore : Os.fdTableRestore a os₀ m = some (os', m'))
    {fd : Fd} {s : Nat} {src : FdSource} {e : Entry} {d : Description}
    (ht : w.memory.table fd = some s) (hs : w.memory.source s = some src)
    (hfile : src.type = .file) (he : w.os.desc fd = some e) (hd : w.os.file e.file = some d) :
    (∃ e' d', os'.desc fd = some e' ∧ os'.file e'.file = some d' ∧ FlagsKept e d e' d') ↔
      src.flags &&& statusFlags &&& ~~~d.status = 0 ∧
        (e.cloexec = true →
          a.ret fd = some fd.val ∧ ∀ fd', w.memory.table fd' = some s → fd ≤ fd') := by
  have hal := aliased_of_runs hrun
  have hm : Sources m := (sources_of_runs hrun).saveLoop hsave
  have htable : m.table = w.memory.table := saveLoop_table hsave
  obtain ⟨-, os₁, os₂, name, -, hre, rfl⟩ := fdTableRestore_spec hm.toUnrestored hrestore
  -- the source was saved by its first descriptor
  obtain ⟨first, hfirst, hmin⟩ := exists_first ht
  obtain ⟨src', hsave', hs'⟩ := saveLoop_first hsave (List.pairwise_lt_finRange _)
    (List.mem_finRange first) hfirst hmin hs hfile (by rw [(hal.source s src hs).2]; rintro ⟨⟩)
  obtain ⟨status, getfd, hstatus, hgetfd, hflags, htype, -⟩ := FdSource.fileSave_spec hsave'
  obtain rfl : status = d.status := by
    have hshared : w.os.fileAt first = some e.file := by
      rw [hal.shared first fd s hfirst ht, Os.fileAt, he, Option.map_some]
    simp only [Os.saveAnswer, hshared, Option.bind_some, hd, Option.map_some,
      Option.some.injEq] at hstatus
    exact hstatus.symm
  have hcloexec : src'.flags &&& oCloexec ≠ 0 ↔ (w.os.desc first).any Entry.cloexec = true := by
    obtain ⟨e₁, he₁, rfl⟩ := Option.map_eq_some_iff.mp hgetfd
    rw [hflags, savedFlags_oCloexec, he₁, Option.any_some]
    cases e₁.cloexec <;> decide
  have hreo : m.Reopens fd s src' := by
    refine ⟨htable ▸ ht, hs', ?_⟩
    rw [htype, hfile]
    rintro ⟨⟩
  -- it is restored as its descriptor `root`, which is the first one
  obtain ⟨root, -, -, htroot, hminroot, hdesc⟩ := hre.root fd s src' hreo fd.isLt
  obtain ⟨⟨d', hd', -, hflags', hstatus', -⟩, -⟩ := hre.back fd s src' hreo fd.isLt
  obtain rfl : root = first := Fin.ext <| Nat.le_antisymm (hminroot first (htable ▸ hfirst))
    (hmin root (htable ▸ htroot))
  have hfd : (os₂.closeUntracked m).desc fd = some
      ⟨name s, fd = root ∧ a.ret fd = some fd.val ∧ src'.flags &&& oCloexec ≠ 0⟩ := by
    rw [Os.closeUntracked_desc (by rw [htable, ht]; rintro ⟨⟩), hdesc]
  have hroot : fd = root ↔ ∀ fd', w.memory.table fd' = some s → fd ≤ fd' := by
    constructor
    · rintro rfl
      exact hmin
    · exact fun h => Fin.ext (Nat.le_antisymm (h root hfirst) (hmin fd ht))
  have hkept : decide (fd = root ∧ a.ret fd = some fd.val ∧ src'.flags &&& oCloexec ≠ 0) =
      e.cloexec ↔ (e.cloexec = true → a.ret fd = some fd.val ∧
        ∀ fd', w.memory.table fd' = some s → fd ≤ fd') := by
    rw [Bool.eq_iff_iff, decide_eq_true_eq, hcloexec, ← hroot]
    by_cases heq : fd = root
    · subst heq
      simp only [he, Option.any_some, and_true, true_and]
      cases e.cloexec <;> simp
    · simp only [heq, false_and, and_false]
      cases e.cloexec <;> simp
  constructor
  · rintro ⟨e', d'', he', hd'', h⟩
    obtain rfl := Option.some.inj (hfd.symm.trans he')
    obtain rfl := Option.some.inj (hd'.symm.trans hd'')
    refine ⟨?_, hkept.mp h.cloexec⟩
    have := h.status
    rwa [hstatus', hflags, savedFlags_statusFlags] at this
  · rintro ⟨hstat, hcl⟩
    refine ⟨_, d', hfd, hd', ?_, hkept.mpr hcl, ?_, ?_⟩
    · rwa [hstatus', hflags, savedFlags_statusFlags]
    · rw [hflags', hflags, savedFlags_oTrunc]
    · rw [hflags', hflags, savedFlags_oExcl]

/-- `open` returns the number that is asked for, and every file can be seeked. -/
def inPlace : Reopening where
  ret fd := some fd
  seekable _ := true

/-- Close-on-exec and `O_NONBLOCK` are set after `open`, on two descriptors of a file. -/
theorem flagsKept_iff_log : ∃ w m os' m' e d, Process.step.Runs Aliasing (.init threeStreams) w ∧
    w.fdTableSave (fun _ => true) = some (true, m) ∧
    Os.fdTableRestore inPlace threeStreams m = some (os', m') ∧
    w.os.desc 3 = some e ∧ w.os.file e.file = some d ∧ d.status = statusFlags ∧
    ∃ e' d', os'.desc 3 = some e' ∧ os'.file e'.file = some d' ∧ FlagsKept e d e' d' := by
  obtain ⟨w, hruns, hw⟩ := Machine.exists_runs Process.step Aliasing (.init threeStreams)
    (fun w => w.memory.table 3 = some 3 && (w.os.desc 3).any fun e => (w.os.file e.file).any fun d =>
      (w.memory.source 3).any fun src => (w.fdTableSave (fun _ => true)).any fun r =>
        r.1 && ((Os.fdTableRestore inPlace threeStreams r.2).isSome &&
          (d.status = statusFlags ∧ src.type = .file ∧
            ∀ fd', w.memory.table fd' = some 3 → 3 ≤ fd' : Bool)))
    [.openat "log" oAppend 0 3, .dup 3 4 false, .setfl 4 statusFlags, .setfd 3 true]
    (by decide +kernel)
  obtain ⟨htable, hw⟩ := (Bool.and_eq_true_iff ..).mp hw
  obtain ⟨e, he, hw⟩ := (Option.any_eq_true ..).mp hw
  obtain ⟨d, hd, hw⟩ := (Option.any_eq_true ..).mp hw
  obtain ⟨src, hs, hw⟩ := (Option.any_eq_true ..).mp hw
  obtain ⟨⟨ok, m⟩, hsave, hw⟩ := (Option.any_eq_true ..).mp hw
  simp only [Bool.and_eq_true, decide_eq_true_eq] at htable hw
  obtain ⟨rfl, hrestore, hstatus, hfile, hmin⟩ := hw
  obtain ⟨⟨os', m'⟩, hrestore⟩ := Option.isSome_iff_exists.mp hrestore
  refine ⟨w, m, os', m', e, d, hruns, hsave, hrestore, he, hd, hstatus, ?_⟩
  refine (flagsKept_iff hruns hsave hrestore htable hs hfile he hd).mpr
    ⟨?_, fun _ => ⟨rfl, hmin⟩⟩
  rw [hstatus, BitVec.and_assoc]
  have : statusFlags &&& ~~~statusFlags = 0 := by decide
  rw [this]
  exact BitVec.and_zero

/-- A file is opened with `O_APPEND`, which is cleared later. -/
theorem not_flagsKept : ¬ ∀ os os₀ os' w seek m m' a,
    Process.step.Runs Aliasing (.init os) w →
    w.fdTableSave seek = some (true, m) → Os.fdTableRestore a os₀ m = some (os', m') →
    ∀ (fd : Fd) s src e d, w.memory.table fd = some s → w.memory.source s = some src →
      src.type = .file → w.os.desc fd = some e → w.os.file e.file = some d →
      ∃ e' d', os'.desc fd = some e' ∧ os'.file e'.file = some d' ∧ FlagsKept e d e' d' := by
  intro H
  obtain ⟨w, hruns, hw⟩ := Machine.exists_runs Process.step Aliasing (.init threeStreams)
    (fun w => w.memory.table 3 = some 3 && (w.os.desc 3).any fun e => (w.os.file e.file).any fun d =>
      (w.memory.source 3).any fun src => (w.fdTableSave (fun _ => true)).any fun r =>
        r.1 && (Os.fdTableRestore inPlace threeStreams r.2).any fun x =>
          ((x.1.desc 3).bind fun e => x.1.file e.file).any fun d' =>
            d'.status = oAppend ∧ d.status = 0 ∧ src.type = .file)
    [.openat "log" oAppend 0 3, .setfl 3 0] (by decide +kernel)
  obtain ⟨htable, hw⟩ := (Bool.and_eq_true_iff ..).mp hw
  obtain ⟨e, he, hw⟩ := (Option.any_eq_true ..).mp hw
  obtain ⟨d, hd, hw⟩ := (Option.any_eq_true ..).mp hw
  obtain ⟨src, hs, hw⟩ := (Option.any_eq_true ..).mp hw
  obtain ⟨⟨ok, m⟩, hsave, hw⟩ := (Option.any_eq_true ..).mp hw
  obtain ⟨rfl, hw⟩ := (Bool.and_eq_true_iff ..).mp hw
  obtain ⟨⟨os', m'⟩, hrestore, hw⟩ := (Option.any_eq_true ..).mp hw
  obtain ⟨d₁, hd₁, hw⟩ := (Option.any_eq_true ..).mp hw
  obtain ⟨hnew, hold, hfile⟩ := of_decide_eq_true hw
  obtain ⟨e', d', he', hd', hkept⟩ := H _ _ os' w _ m m' _ hruns hsave hrestore
    3 3 src e d (of_decide_eq_true htable) hs hfile he hd
  obtain ⟨e₁, he₁, hd₁⟩ := Option.bind_eq_some_iff.mp hd₁
  obtain rfl := Option.some.inj (he₁.symm.trans he')
  obtain rfl := Option.some.inj (hd₁.symm.trans hd')
  have := hkept.status
  rw [hnew, hold] at this
  exact absurd this (by decide)

end Xnd.Files
