import Mathlib.Data.Set.Basic

/-!
# Labelled transition systems

A system has initial states, a guard and a successor function: `next s l` is the
state after the step with label `l`, which may be taken when `enabled s l`.
A reachable state is the end of a finite run. `restrict` keeps only the steps
that meet a further condition on the state before the step, so that "in every
run whose steps all meet the condition" is reachability in the restricted
system.
-/

structure TransitionSystem (σ ℓ : Type*) where
  init : σ → Prop
  enabled : σ → ℓ → Prop
  next : σ → ℓ → σ

namespace TransitionSystem

variable {σ ℓ : Type*} {sys : TransitionSystem σ ℓ}

inductive Reachable (sys : TransitionSystem σ ℓ) : σ → Prop where
  | init {s : σ} : sys.init s → Reachable sys s
  | step {s : σ} {l : ℓ} : Reachable sys s → sys.enabled s l → Reachable sys (sys.next s l)

/-- The steps that also meet a condition. -/
def restrict (sys : TransitionSystem σ ℓ) (cond : σ → ℓ → Prop) : TransitionSystem σ ℓ where
  init := sys.init
  enabled s l := sys.enabled s l ∧ cond s l
  next := sys.next

theorem Reachable.of_restrict {cond : σ → ℓ → Prop} {s : σ}
    (h : (sys.restrict cond).Reachable s) : sys.Reachable s := by
  induction h with
  | init hinit => exact .init hinit
  | step _ henabled ih => exact .step ih henabled.1

theorem Reachable.weaken {cond cond' : σ → ℓ → Prop} (himp : ∀ s l, cond s l → cond' s l) {s : σ}
    (h : (sys.restrict cond).Reachable s) : (sys.restrict cond').Reachable s := by
  induction h with
  | init hinit => exact .init hinit
  | step _ henabled ih => exact .step ih ⟨henabled.1, himp _ _ henabled.2⟩

theorem reachable_restrict_true {s : σ} :
    (sys.restrict fun _ _ => True).Reachable s ↔ sys.Reachable s := by
  refine ⟨Reachable.of_restrict, fun h => ?_⟩
  induction h with
  | init hinit => exact .init hinit
  | step _ henabled ih => exact .step ih ⟨henabled, trivial⟩

/-- A property of the initial states that every step keeps. -/
theorem Reachable.invariant {inv : σ → Prop} (hinit : ∀ s, sys.init s → inv s)
    (hstep : ∀ s l, sys.Reachable s → inv s → sys.enabled s l → inv (sys.next s l)) {s : σ}
    (h : sys.Reachable s) : inv s := by
  induction h with
  | init hi => exact hinit _ hi
  | step hreach henabled ih => exact hstep _ _ hreach ih henabled

/-- The same below a bound that no step ever gets back under. -/
theorem Reachable.invariant_below {inv bound : σ → Prop}
    (hbound : ∀ s l, bound (sys.next s l) → bound s)
    (hinit : ∀ s, sys.init s → inv s)
    (hstep : ∀ s l, sys.Reachable s → inv s → sys.enabled s l → bound (sys.next s l) →
      inv (sys.next s l)) {s : σ} (h : sys.Reachable s) (hs : bound s) : inv s := by
  induction h with
  | init hi => exact hinit _ hi
  | step hreach henabled ih => exact hstep _ _ hreach (ih (hbound _ _ hs)) henabled hs

/-- The state after the steps of a list. -/
def exec (sys : TransitionSystem σ ℓ) (s : σ) (labels : List ℓ) : σ :=
  labels.foldl sys.next s

/-- Every step of the list may be taken when its turn comes. -/
def Admits (sys : TransitionSystem σ ℓ) : σ → List ℓ → Prop
  | _, [] => True
  | s, l :: rest => sys.enabled s l ∧ sys.Admits (sys.next s l) rest

instance instDecidableAdmits [∀ s l, Decidable (sys.enabled s l)] :
    (s : σ) → (labels : List ℓ) → Decidable (sys.Admits s labels)
  | _, [] => isTrue trivial
  | s, l :: rest =>
      have : Decidable (sys.Admits (sys.next s l) rest) := instDecidableAdmits _ rest
      inferInstanceAs (Decidable (_ ∧ _))

theorem Reachable.exec {s : σ} {labels : List ℓ} (h : sys.Reachable s)
    (hadmits : sys.Admits s labels) : sys.Reachable (sys.exec s labels) := by
  induction labels generalizing s with
  | nil => exact h
  | cons l rest ih => exact ih (h.step hadmits.1) hadmits.2

/-- Steps that change nothing may be left out. -/
theorem exec_filter {cond : σ → ℓ → Prop} {keep : ℓ → Bool}
    (hskip : ∀ s l, cond s l → keep l = false → sys.next s l = s) {s : σ} {labels : List ℓ}
    (h : (sys.restrict cond).Admits s labels) :
    sys.exec s (labels.filter keep) = sys.exec s labels := by
  induction labels generalizing s with
  | nil => rfl
  | cons l rest ih =>
      obtain ⟨⟨_, hcond⟩, hrest⟩ := h
      have htail : sys.exec (sys.next s l) (rest.filter keep) = sys.exec (sys.next s l) rest :=
        ih hrest
      cases hkeep : keep l with
      | true =>
          rw [List.filter_cons_of_pos hkeep]
          exact htail
      | false =>
          rw [List.filter_cons_of_neg (ne_true_of_eq_false hkeep)]
          rw [hskip s l hcond hkeep] at htail
          exact htail.trans (congrArg (fun t => sys.exec t rest) (hskip s l hcond hkeep).symm)

/-! ### Where a run leads -/

/-- Some run leads from one state to another. -/
def Leads (sys : TransitionSystem σ ℓ) (s t : σ) : Prop :=
  ∃ labels, sys.Admits s labels ∧ sys.exec s labels = t

theorem Leads.refl (s : σ) : sys.Leads s s := ⟨[], trivial, rfl⟩

theorem Leads.head {s t : σ} {l : ℓ} (henabled : sys.enabled s l)
    (h : sys.Leads (sys.next s l) t) : sys.Leads s t := by
  obtain ⟨labels, hadmits, hexec⟩ := h
  exact ⟨l :: labels, ⟨henabled, hadmits⟩, hexec⟩

theorem Reachable.leads {s t : σ} (hs : sys.Reachable s) (h : sys.Leads s t) :
    sys.Reachable t := by
  obtain ⟨labels, hadmits, hexec⟩ := h
  exact hexec ▸ hs.exec hadmits

/-- A run of some of the steps is a run. -/
theorem Leads.of_restrict {cond : σ → ℓ → Prop} {s t : σ}
    (h : (sys.restrict cond).Leads s t) : sys.Leads s t := by
  obtain ⟨labels, hadmits, hexec⟩ := h
  induction labels generalizing s with
  | nil => exact ⟨[], trivial, hexec⟩
  | cons l rest ih => exact .head hadmits.1.1 (ih hadmits.2 hexec)

/-- Some run of so many steps leads from one state to another. -/
def LeadsIn (sys : TransitionSystem σ ℓ) (n : ℕ) (s t : σ) : Prop :=
  ∃ labels, sys.Admits s labels ∧ labels.length = n ∧ sys.exec s labels = t

theorem LeadsIn.single {s : σ} {l : ℓ} (henabled : sys.enabled s l) :
    sys.LeadsIn 1 s (sys.next s l) := ⟨[l], ⟨henabled, trivial⟩, rfl, rfl⟩

theorem LeadsIn.leads {n : ℕ} {s t : σ} (h : sys.LeadsIn n s t) : sys.Leads s t := by
  obtain ⟨labels, hadmits, -, hexec⟩ := h
  exact ⟨labels, hadmits, hexec⟩

theorem Admits.append {s : σ} {labels labels' : List ℓ} (h : sys.Admits s labels)
    (h' : sys.Admits (sys.exec s labels) labels') : sys.Admits s (labels ++ labels') := by
  induction labels generalizing s with
  | nil => exact h'
  | cons l rest ih => exact ⟨h.1, ih h.2 h'⟩

theorem Leads.trans {s t u : σ} (h : sys.Leads s t) (h' : sys.Leads t u) : sys.Leads s u := by
  obtain ⟨labels, hadmits, rfl⟩ := h
  obtain ⟨labels', hadmits', rfl⟩ := h'
  exact ⟨labels ++ labels', hadmits.append hadmits', List.foldl_append⟩

theorem LeadsIn.trans {m n : ℕ} {s t u : σ} (h : sys.LeadsIn m s t) (h' : sys.LeadsIn n t u) :
    sys.LeadsIn (m + n) s u := by
  obtain ⟨labels, hadmits, rfl, rfl⟩ := h
  obtain ⟨labels', hadmits', rfl, rfl⟩ := h'
  exact ⟨labels ++ labels', hadmits.append hadmits', List.length_append, List.foldl_append⟩

/-! ### Runs that end -/

/-- Every run from the state ends, and where no step is left, the goal is reached. -/
def Ends (sys : TransitionSystem σ ℓ) (s : σ) (goal : σ → Prop) : Prop :=
  (∃ bound, ∀ labels, sys.Admits s labels → labels.length ≤ bound) ∧
    ∀ t, sys.Leads s t → (∀ l, ¬ sys.enabled t l) → goal t

theorem Ends.mono {s : σ} {goal goal' : σ → Prop} (h : sys.Ends s goal)
    (himp : ∀ t, goal t → goal' t) : sys.Ends s goal' :=
  ⟨h.1, fun t hleads hstuck => himp t (h.2 t hleads hstuck)⟩

section Decreasing

variable {inv : σ → Prop} {work : σ → ℕ}
  (hinv : ∀ s l, inv s → sys.enabled s l → inv (sys.next s l))
include hinv

theorem Leads.invariant {s t : σ} (h : sys.Leads s t) (hs : inv s) : inv t := by
  obtain ⟨labels, hadmits, rfl⟩ := h
  induction labels generalizing s with
  | nil => exact hs
  | cons l rest ih => exact ih (hinv s l hs hadmits.1) hadmits.2

variable (hwork : ∀ s l, inv s → sys.enabled s l → work (sys.next s l) < work s)
include hwork

/-- A run is no longer than the measure that its steps decrease. -/
theorem Admits.length_le {s : σ} {labels : List ℓ} (h : sys.Admits s labels) (hs : inv s) :
    labels.length ≤ work s := by
  induction labels generalizing s with
  | nil => exact Nat.zero_le _
  | cons l rest ih =>
      have hrest := ih h.2 (hinv s l hs h.1)
      have hstep := hwork s l hs h.1
      rw [List.length_cons]
      omega

theorem ends_of_decreasing {goal : σ → Prop}
    (hgoal : ∀ s, inv s → (∀ l, ¬ sys.enabled s l) → goal s) {s : σ} (hs : inv s) :
    sys.Ends s goal := by
  refine ⟨⟨work s, fun labels hadmits => hadmits.length_le hinv hwork hs⟩, ?_⟩
  intro t hleads hstuck
  exact hgoal t (hleads.invariant hinv hs) hstuck

/-- Some run goes on until no step is left. -/
theorem exists_stuck_of_decreasing {s : σ} (hs : inv s) :
    ∃ t, sys.Leads s t ∧ inv t ∧ ∀ l, ¬ sys.enabled t l := by
  induction hbound : work s using Nat.strong_induction_on generalizing s with
  | h bound ih =>
      by_cases hstep : ∃ l, sys.enabled s l
      · obtain ⟨l, henabled⟩ := hstep
        have hless := hwork s l hs henabled
        obtain ⟨t, hleads, ht, hstuck⟩ := ih _ (hbound ▸ hless) (hinv s l hs henabled) rfl
        exact ⟨t, .head henabled hleads, ht, hstuck⟩
      · exact ⟨s, .refl s, hs, fun l henabled => hstep ⟨l, henabled⟩⟩

end Decreasing

/-! ### Refinement -/

/-- A map takes the states of one system to states of another, and every step to a run. -/
structure Refines {τ ℓ' : Type*} (sys : TransitionSystem σ ℓ) (sys' : TransitionSystem τ ℓ')
    (f : σ → τ) : Prop where
  init {s : σ} : sys.init s → sys'.init (f s)
  step {s : σ} {l : ℓ} : sys.Reachable s → sys'.Reachable (f s) → sys.enabled s l →
    sys'.Leads (f s) (f (sys.next s l))

theorem Refines.reachable {τ ℓ' : Type*} {sys' : TransitionSystem τ ℓ'} {f : σ → τ}
    (h : sys.Refines sys' f) {s : σ} (hs : sys.Reachable s) : sys'.Reachable (f s) := by
  induction hs with
  | init hinit => exact .init (h.init hinit)
  | step hreach henabled ih => exact ih.leads (h.step hreach ih henabled)

end TransitionSystem
