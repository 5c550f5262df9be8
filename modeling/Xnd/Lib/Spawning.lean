import Mathlib.Data.List.Forall2

/-!
# Calls that make calls

A call of type `κ` makes the calls `spawns c`, in this order, each of them in a
process of its own.  `spawnAll` lists every call that is made when one is made
to begin with; it runs on fuel, because nothing bounds the depth in general.

Two facts carry every argument about such a run.  `perm_flatMap_spawns` is the
conservation law: a call of the run is the first one, or was made by exactly one
call of the run, so the run is a permutation of the first call followed by what
its calls make.  `acc_of_spawnAll` and `exists_spawnAll` tie termination to the
relation "makes": a run that ends is a well-founded one, and conversely.
-/
namespace Xnd.Spawning

variable {κ : Type} (spawns : κ → List κ)

/-- Every call of the run that `c` begins, `c` first; `none` when the run is
deeper than the fuel. -/
def spawnAll : Nat → κ → Option (List κ)
  | 0, _ => none
  | fuel + 1, c =>
      ((spawns c).mapM (spawnAll fuel)).map fun runs => c :: runs.flatten

/-- `d` is made by `c`. -/
def Makes (d c : κ) : Prop := d ∈ spawns c

theorem mapM_some_iff {α β : Type} {f : α → Option β} :
    ∀ {as : List α} {bs : List β},
      as.mapM f = some bs ↔ List.Forall₂ (fun a b => f a = some b) as bs
  | [], bs => by cases bs <;> simp
  | a :: as, bs => by
      cases hb : f a with
      | none => cases bs <;> simp [hb]
      | some b =>
          cases bs with
          | nil => cases hm : as.mapM f <;> simp [hb, hm]
          | cons b' bs =>
              have ih := @mapM_some_iff _ _ f as bs
              cases hm : as.mapM f with
              | none => rw [hm] at ih; simp [hb, hm, ← ih]
              | some bs' => rw [hm] at ih; simp [hb, hm, ← ih]

/-- What a list related entry by entry holds comes from some entry. -/
theorem exists_left_of_mem {α β : Type} {R : α → β → Prop} {as : List α} {bs : List β}
    (h : List.Forall₂ R as bs) {b : β} (hb : b ∈ bs) : ∃ a ∈ as, R a b := by
  induction h with
  | nil => cases hb
  | @cons a b' as bs hab _ ih =>
      rcases List.mem_cons.mp hb with rfl | hb
      · exact ⟨a, List.mem_cons_self, hab⟩
      · obtain ⟨a', ha', hr⟩ := ih hb
        exact ⟨a', List.mem_cons_of_mem _ ha', hr⟩

/-- A run is its first call, then the runs of the calls this one makes. -/
theorem spawnAll_succ {fuel : Nat} {c : κ} {l : List κ} :
    spawnAll spawns (fuel + 1) c = some l ↔
      ∃ runs, List.Forall₂ (fun d run => spawnAll spawns fuel d = some run) (spawns c) runs ∧
        l = c :: runs.flatten := by
  simp only [spawnAll, Option.map_eq_some_iff, mapM_some_iff]
  constructor
  · rintro ⟨runs, h, rfl⟩; exact ⟨runs, h, rfl⟩
  · rintro ⟨runs, h, rfl⟩; exact ⟨runs, h, rfl⟩

theorem mem_spawnAll_self {fuel : Nat} {c : κ} {l : List κ}
    (h : spawnAll spawns fuel c = some l) : c ∈ l := by
  cases fuel with
  | zero => cases h
  | succ fuel =>
      obtain ⟨runs, -, rfl⟩ := (spawnAll_succ spawns).mp h
      exact List.mem_cons_self

/-- **Conservation.**  The calls of a run are the first one and those its calls
make, each counted as often as it is made. -/
theorem perm_flatMap_spawns : ∀ {fuel : Nat} {c : κ} {l : List κ},
    spawnAll spawns fuel c = some l → l.Perm (c :: l.flatMap spawns)
  | 0, _, _, h => by cases h
  | fuel + 1, c, l, h => by
      obtain ⟨runs, hruns, rfl⟩ := (spawnAll_succ spawns).mp h
      have key : ∀ {ds : List κ} {runs : List (List κ)},
          List.Forall₂ (fun d run => spawnAll spawns fuel d = some run) ds runs →
            runs.flatten.Perm (ds ++ runs.flatten.flatMap spawns) := by
        intro ds runs hf
        induction hf with
        | nil => exact List.Perm.refl _
        | @cons d run ds runs hd _ ih =>
            have hrun : run.Perm (d :: run.flatMap spawns) := perm_flatMap_spawns hd
            simp only [List.flatten_cons, List.flatMap_append, List.cons_append]
            refine (hrun.append ih).trans ?_
            rw [List.cons_append]
            refine List.Perm.cons d ?_
            rw [← List.append_assoc, ← List.append_assoc]
            exact List.Perm.append_right _ List.perm_append_comm
      rw [List.flatMap_cons]
      exact List.Perm.cons c (key hruns)

/-- What the first call has and calls pass on, every call of the run has. -/
theorem forall_of_spawnAll {P : κ → Prop} (hstep : ∀ c, P c → ∀ d ∈ spawns c, P d) :
    ∀ {fuel : Nat} {c : κ} {l : List κ}, spawnAll spawns fuel c = some l → P c → ∀ d ∈ l, P d
  | 0, _, _, h, _ => by cases h
  | fuel + 1, c, l, h, hc => by
      obtain ⟨runs, hruns, rfl⟩ := (spawnAll_succ spawns).mp h
      intro d hd
      rcases List.mem_cons.mp hd with rfl | hd
      · exact hc
      · obtain ⟨run, hrun, hd⟩ := List.mem_flatten.mp hd
        obtain ⟨e, he, hrun'⟩ := exists_left_of_mem hruns hrun
        exact forall_of_spawnAll hstep hrun' (hstep c hc e he) d hd

/-! ## Names -/

/-- A run of richer calls, seen through `f`. -/
theorem spawnAll_map {μ : Type} {spawns' : μ → List μ} (f : μ → κ)
    (hf : ∀ c, (spawns' c).map f = spawns (f c)) (fuel : Nat) (c : μ) :
    (spawnAll spawns' fuel c).map (List.map f) = spawnAll spawns fuel (f c) := by
  induction fuel generalizing c with
  | zero => rfl
  | succ fuel ih =>
      have runs : ∀ cs : List μ, (cs.mapM (spawnAll spawns' fuel)).map (List.map (List.map f)) =
          (cs.map f).mapM (spawnAll spawns fuel) := by
        intro cs
        induction cs with
        | nil => rfl
        | cons d cs ihcs =>
            rw [List.map_cons, List.mapM_cons, List.mapM_cons, ← ih d, ← ihcs]
            cases spawnAll spawns' fuel d with
            | none => rfl
            | some run => cases cs.mapM (spawnAll spawns' fuel) <;> rfl
      rw [spawnAll, spawnAll, ← hf c, ← runs (spawns' c)]
      cases (spawns' c).mapM (spawnAll spawns' fuel) with
      | none => rfl
      | some rs => simp [List.map_flatten]

section Names
variable {ι : Type} (name : κ → List ι)
  (hname : ∀ c, ∃ idx : List ι, idx.Nodup ∧
    (spawns c).map name = idx.map fun i => name c ++ [i])
include hname

/-- **Names.**  When the calls that a call makes have its name followed by a letter each,
no two calls of a run have the same name. -/
theorem nodup_names : ∀ {fuel : Nat} {c : κ} {l : List κ}, spawnAll spawns fuel c = some l →
    (l.map name).Nodup ∧ ∀ d ∈ l, name c <+: name d
  | 0, _, _, h => by cases h
  | fuel + 1, c, l, h => by
      obtain ⟨runs, hruns, rfl⟩ := (spawnAll_succ spawns).mp h
      obtain ⟨idx, hidx, hmap⟩ := hname c
      have key : ∀ {ds : List κ} {runs : List (List κ)} {idx : List ι},
          List.Forall₂ (fun d run => spawnAll spawns fuel d = some run) ds runs → idx.Nodup →
          ds.map name = idx.map (fun i => name c ++ [i]) →
          (runs.flatten.map name).Nodup ∧
            ∀ d ∈ runs.flatten, ∃ i ∈ idx, name c ++ [i] <+: name d := by
        intro ds runs idx hf
        induction hf generalizing idx with
        | nil => exact fun _ _ => ⟨List.nodup_nil, by simp⟩
        | @cons d run ds runs hd _ ih =>
            intro hnodup hds
            cases idx with
            | nil => cases hds
            | cons i idx =>
                obtain ⟨hdi, hds⟩ := List.cons.inj hds
                replace hdi : name d = name c ++ [i] := hdi
                obtain ⟨hi, hnodup⟩ := List.nodup_cons.mp hnodup
                obtain ⟨hrest, hpre⟩ := ih hnodup hds
                obtain ⟨hrun, hprun⟩ := nodup_names hd
                rw [List.flatten_cons, List.map_append, List.nodup_append]
                refine ⟨⟨hrun, hrest, ?_⟩, ?_⟩
                · rintro x hx y hy rfl
                  obtain ⟨e, he, hxe⟩ := List.mem_map.mp hx
                  obtain ⟨e', he', hxe'⟩ := List.mem_map.mp hy
                  obtain ⟨j, hj, hpj⟩ := hpre e' he'
                  have hpi := hprun e he
                  rw [hdi, hxe] at hpi
                  rw [hxe'] at hpj
                  have heq := (List.prefix_of_prefix_length_le hpi hpj (by simp)).eq_of_length
                    (by simp)
                  have hij : i = j := by simpa using heq
                  exact hi (hij ▸ hj)
                · intro e he
                  rcases List.mem_append.mp he with he | he
                  · exact ⟨i, List.mem_cons_self, hdi ▸ hprun e he⟩
                  · obtain ⟨j, hj, hpj⟩ := hpre e he
                    exact ⟨j, List.mem_cons_of_mem _ hj, hpj⟩
      obtain ⟨hnodup, hpre⟩ := key hruns hidx hmap
      rw [List.map_cons, List.nodup_cons]
      refine ⟨⟨fun hm => ?_, hnodup⟩, ?_⟩
      · obtain ⟨d, hd, hdc⟩ := List.mem_map.mp hm
        obtain ⟨i, -, hp⟩ := hpre d hd
        have := hp.length_le
        rw [hdc, List.length_append, List.length_singleton] at this
        omega
      · intro d hd
        rcases List.mem_cons.mp hd with rfl | hd
        · exact List.prefix_rfl
        · obtain ⟨i, -, hp⟩ := hpre d hd
          exact (List.prefix_append _ _).trans hp

end Names

/-! ## Termination -/

/-- A call of a run that ends makes no infinite chain of calls. -/
theorem acc_of_spawnAll : ∀ {fuel : Nat} {c : κ} {l : List κ},
    spawnAll spawns fuel c = some l → ∀ d ∈ l, Acc (Makes spawns) d
  | 0, _, _, h => by cases h
  | fuel + 1, c, l, h => by
      obtain ⟨runs, hruns, rfl⟩ := (spawnAll_succ spawns).mp h
      have sub : ∀ run ∈ runs, ∀ d ∈ run, Acc (Makes spawns) d := by
        intro run hrun
        obtain ⟨d', -, hd'⟩ := exists_left_of_mem hruns hrun
        exact acc_of_spawnAll hd'
      intro d hd
      rcases List.mem_cons.mp hd with rfl | hd
      · refine Acc.intro _ fun e he => ?_
        obtain ⟨run, hrun, he'⟩ := exists_left_of_mem hruns.flip he
        exact sub run hrun e (mem_spawnAll_self spawns he')
      · obtain ⟨run, hrun, hd⟩ := List.mem_flatten.mp hd
        exact sub run hrun d hd

/-- More fuel changes nothing. -/
theorem spawnAll_mono : ∀ {fuel : Nat} {c : κ} {l : List κ},
    spawnAll spawns fuel c = some l → ∀ k, spawnAll spawns (fuel + k) c = some l
  | 0, _, _, h, _ => by cases h
  | fuel + 1, c, l, h, k => by
      obtain ⟨runs, hruns, rfl⟩ := (spawnAll_succ spawns).mp h
      rw [show fuel + 1 + k = (fuel + k) + 1 by omega]
      exact (spawnAll_succ spawns).mpr
        ⟨runs, hruns.imp fun _ _ hd => spawnAll_mono hd k, rfl⟩

/-- **A call that makes no infinite chain of calls has a run.** -/
theorem exists_spawnAll {c : κ} (h : Acc (Makes spawns) c) :
    ∃ fuel l, spawnAll spawns fuel c = some l := by
  induction h with
  | intro c _ ih =>
    have all : ∀ ds : List κ, (∀ d ∈ ds, d ∈ spawns c) →
        ∃ fuel runs, List.Forall₂ (fun d run => spawnAll spawns fuel d = some run) ds runs := by
      intro ds hds
      induction ds with
      | nil => exact ⟨0, [], List.Forall₂.nil⟩
      | cons d ds ihds =>
          obtain ⟨f₁, run, h₁⟩ := ih d (hds d List.mem_cons_self)
          obtain ⟨f₂, runs, h₂⟩ := ihds fun e he => hds e (List.mem_cons_of_mem _ he)
          refine ⟨f₁ + f₂, run :: runs, List.Forall₂.cons (spawnAll_mono spawns h₁ f₂) ?_⟩
          refine h₂.imp fun _ _ he => ?_
          rw [Nat.add_comm]
          exact spawnAll_mono spawns he f₁
    obtain ⟨fuel, runs, hruns⟩ := all (spawns c) fun _ hd => hd
    exact ⟨fuel + 1, _, (spawnAll_succ spawns).mpr ⟨runs, hruns, rfl⟩⟩

end Xnd.Spawning
