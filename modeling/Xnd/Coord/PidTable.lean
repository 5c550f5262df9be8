import Mathlib.Data.List.Nodup
import Mathlib.Data.List.Basic

/-!
# The table of virtual ids

`virtual_id_table<pid_t>` is an `unordered_map` from virtual to real ids.  Here it
is the list of its entries, with the proof that no virtual id has two.  A lookup
by virtual id does not depend on the order of the entries.  A lookup by real id
does: it returns the entry the iteration comes to first, and the iteration may
come to any entry first, so `realToVirtual` takes the choice as an argument.
-/
namespace Xnd.Coord

/-- `virtual_id_table<pid_t>`. -/
structure PidTable where
  entries : List (Int × Int)
  nodup : (entries.map Prod.fst).Nodup

namespace PidTable
variable (t : PidTable)

def empty : PidTable := ⟨[], List.nodup_nil⟩

/-- `erase`. -/
def erase (virt : Int) : PidTable where
  entries := t.entries.filter (·.1 ≠ virt)
  nodup := t.nodup.sublist (List.filter_sublist.map _)

/-- `update`: `table[virt] = real`. -/
def update (virt real : Int) : PidTable where
  entries := (virt, real) :: (t.erase virt).entries
  nodup := by
    refine List.nodup_cons.mpr ⟨?_, (t.erase virt).nodup⟩
    simp [erase]

/-- The real id of a virtual one, if it has one. -/
def lookup (virt : Int) : Option Int := (t.entries.find? (·.1 = virt)).map Prod.snd

/-- `virtual_to_real`; -1 when there is none. -/
def virtualToReal (virt : Int) : Int := (t.lookup virt).getD (-1)

/-- `virtual_id_exists`. -/
def virtualIdExists (virt : Int) : Bool := (t.lookup virt).isSome

/-- `real_id_exists`. -/
def realIdExists (real : Int) : Bool := t.entries.any (·.2 = real)

/-- `real_to_virtual`, when the iteration comes to the `i`-th matching entry (counted
cyclically) first; -1 when there is none. -/
def realToVirtual (i : Nat) (real : Int) : Int :=
  let found := t.entries.filter (·.2 = real)
  (found[i % found.length]?.map Prod.fst).getD (-1)

@[simp] theorem lookup_empty (v : Int) : empty.lookup v = none := rfl

@[simp] theorem lookup_update_self (v r : Int) : (t.update v r).lookup v = some r := by
  simp [lookup, update]

theorem lookup_erase_of_ne {v w : Int} (h : v ≠ w) : (t.erase w).lookup v = t.lookup v := by
  rw [lookup, lookup, erase]
  simp only
  rw [List.find?_filter]
  congr 1
  congr 1
  funext e
  by_cases he : e.1 = v
  · simp [he, h]
  · simp [he]

theorem lookup_update_of_ne {v w r : Int} (h : v ≠ w) : (t.update w r).lookup v = t.lookup v := by
  rw [← t.lookup_erase_of_ne h]
  simp [lookup, update, Ne.symm h]

theorem lookup_erase_self (v : Int) : (t.erase v).lookup v = none := by
  rw [lookup, Option.map_eq_none_iff, List.find?_eq_none]
  intro e he
  simpa [erase] using (List.mem_filter.mp he).2

/-- An entry of the table is what its virtual id maps to. -/
theorem mem_entries_iff {v r : Int} : (v, r) ∈ t.entries ↔ t.lookup v = some r := by
  rw [lookup, Option.map_eq_some_iff]
  constructor
  · intro hm
    cases hf : t.entries.find? (·.1 = v) with
    | none =>
        have := List.find?_eq_none.mp hf _ hm
        simp at this
    | some e =>
        have he := List.mem_of_find?_eq_some hf
        have hv : e.1 = v := by simpa using List.find?_some hf
        refine ⟨e, rfl, ?_⟩
        have := List.inj_on_of_nodup_map t.nodup he hm hv
        rw [this]
  · rintro ⟨e, hf, rfl⟩
    have hv : e.1 = v := by simpa using List.find?_some hf
    rw [← hv]
    exact List.mem_of_find?_eq_some hf

end PidTable

end Xnd.Coord
