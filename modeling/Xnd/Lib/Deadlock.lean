import Mathlib.Logic.Relation

/-!
# Deadlock

Threads hold locks, and each may want one more.  A thread waits for the thread that
holds what it wants; a deadlock is a cycle of threads that wait for each other.

**The rule of lock order** is `not_deadlocked`: when the locks have ranks and every
thread wants a lock above all it holds, there is no cycle.  The ranks may differ from
state to state.
-/
namespace Xnd
open Relation

section Deadlock
variable {T L : Type} (wants : T → L → Prop) (holds : T → L → Prop)

/-- The second thread holds a lock that the first wants. -/
def WaitsFor (t t' : T) : Prop := ∃ l, wants t l ∧ holds t' l

/-- A cycle of threads that wait for each other. -/
def Deadlocked : Prop := ∃ t, TransGen (WaitsFor wants holds) t t

variable {wants holds}

/-- Along a chain of waiting threads the locks rise. -/
theorem TransGen.rank_le (rank : L → Nat)
    (h : ∀ t l l', wants t l → holds t l' → rank l' < rank l) {t t' : T}
    (hchain : TransGen (WaitsFor wants holds) t t') :
    ∃ l l', wants t l ∧ holds t' l' ∧ rank l ≤ rank l' := by
  induction hchain with
  | single hw =>
      obtain ⟨l, hl, hl'⟩ := hw
      exact ⟨l, l, hl, hl', Nat.le_refl _⟩
  | tail _ hw ih =>
      obtain ⟨l, l₁, hl, hl₁, hle⟩ := ih
      obtain ⟨l₂, hl₂, hl₂'⟩ := hw
      have := h _ l₂ l₁ hl₂ hl₁
      exact ⟨l, l₂, hl, hl₂', by omega⟩

/-- **The rule of lock order.** -/
theorem not_deadlocked (rank : L → Nat)
    (h : ∀ t l l', wants t l → holds t l' → rank l' < rank l) : ¬ Deadlocked wants holds := by
  intro ⟨t, hchain⟩
  obtain ⟨l, l', hl, hl', hle⟩ := TransGen.rank_le rank h hchain
  have := h t l l' hl hl'
  omega

/-- Two threads that want what the other holds. -/
theorem deadlocked_of_pair {t t' : T} {l l' : L} (hw : wants t l) (hh : holds t' l)
    (hw' : wants t' l') (hh' : holds t l') : Deadlocked wants holds :=
  ⟨t, .tail (.single ⟨l, hw, hh⟩) ⟨l', hw', hh'⟩⟩

end Deadlock

end Xnd
