import Mathlib.Data.List.Nodup
import Mathlib.Logic.Function.Basic

/-!
# Descriptors and the places that keep them

A system hands out resources under descriptor numbers, and hands a number out again after it is
closed. A program keeps numbers in places. When every number is in one place and a place is
emptied by closing its number or by moving it, each resource is closed at most once; when
besides no place is overwritten, none is forgotten.
-/

/-- The resources, counted from the first one on. -/
structure Descriptors where
  created : Nat := 0
  /-- The latest resource under a number. -/
  holder : Nat → Option Nat := fun _ => none
  /-- For which resource each call of `close` was. -/
  closes : List Nat := []

namespace Descriptors

/-- A number that may be handed out. -/
def Free (d : Descriptors) (n : Nat) : Prop := ∀ k ∈ d.holder n, k ∈ d.closes

instance (d : Descriptors) (n : Nat) : Decidable (d.Free n) :=
  inferInstanceAs (Decidable (∀ k ∈ d.holder n, k ∈ d.closes))

/-- A resource that is open under a number. -/
def Live (d : Descriptors) (n k : Nat) : Prop := d.holder n = some k ∧ k ∉ d.closes

instance (d : Descriptors) (n k : Nat) : Decidable (d.Live n k) :=
  inferInstanceAs (Decidable (_ ∧ _))

def create (d : Descriptors) (n : Nat) : Descriptors :=
  { d with created := d.created + 1, holder := Function.update d.holder n (some d.created) }

def close (d : Descriptors) (n : Nat) : Descriptors :=
  { d with closes := d.closes ++ (d.holder n).toList }

@[simp] theorem create_created (d : Descriptors) (n : Nat) :
    (d.create n).created = d.created + 1 := rfl

@[simp] theorem create_holder (d : Descriptors) (n : Nat) :
    (d.create n).holder n = some d.created :=
  Function.update_self ..

theorem create_holder_of_ne (d : Descriptors) {n m : Nat} (h : m ≠ n) :
    (d.create n).holder m = d.holder m :=
  Function.update_of_ne h ..

@[simp] theorem close_holder (d : Descriptors) (n : Nat) : (d.close n).holder = d.holder := rfl

theorem mem_close_closes {d : Descriptors} {n k : Nat} :
    k ∈ (d.close n).closes ↔ k ∈ d.closes ∨ d.holder n = some k := by
  rw [close, List.mem_append, Option.mem_toList]

theorem foldl_close_created (numbers : List Nat) (d : Descriptors) :
    (numbers.foldl close d).created = d.created := by
  induction numbers generalizing d with
  | nil => rfl
  | cons n rest ih => exact ih (d.close n)

theorem foldl_close_holder (numbers : List Nat) (d : Descriptors) :
    (numbers.foldl close d).holder = d.holder := by
  induction numbers generalizing d with
  | nil => rfl
  | cons n rest ih => exact ih (d.close n)

/-- What holds of the system alone. -/
structure Sound (d : Descriptors) : Prop where
  held : ∀ n k, d.holder n = some k → k < d.created
  closed : ∀ k ∈ d.closes, k < d.created
  one : ∀ n m k, d.holder n = some k → d.holder m = some k → n = m

theorem Sound.create {d : Descriptors} (h : Sound d) (n : Nat) : Sound (d.create n) := by
  refine ⟨fun m k hm => ?_, fun k hk => Nat.lt_succ_of_lt (h.closed k hk), fun m m' k hm hm' => ?_⟩
  · by_cases hmn : m = n
    · rw [hmn, create_holder] at hm
      rw [← Option.some.inj hm]
      exact Nat.lt_succ_self _
    · rw [create_holder_of_ne d hmn] at hm
      exact Nat.lt_succ_of_lt (h.held m k hm)
  · by_cases hmn : m = n
    · by_cases hmn' : m' = n
      · rw [hmn, hmn']
      · rw [hmn, create_holder] at hm
        rw [create_holder_of_ne d hmn', ← hm] at hm'
        exact absurd (h.held m' _ hm') (Nat.lt_irrefl _)
    · rw [create_holder_of_ne d hmn] at hm
      by_cases hmn' : m' = n
      · rw [hmn', create_holder, ← hm] at hm'
        exact absurd (h.held m _ hm'.symm) (Nat.lt_irrefl _)
      · rw [create_holder_of_ne d hmn'] at hm'
        exact h.one m m' k hm hm'

theorem Sound.close {d : Descriptors} (h : Sound d) (n : Nat) : Sound (d.close n) := by
  refine ⟨h.held, fun k hk => ?_, h.one⟩
  obtain hk | hk := mem_close_closes.mp hk
  · exact h.closed k hk
  · exact h.held n k hk

section Places

variable {ι : Type*}

/-- No number is in two places, and the numbers in the places are open. -/
structure Exclusive (d : Descriptors) (place : ι → Option Nat) : Prop where
  sound : Sound d
  inj : ∀ o o' n, place o = some n → place o' = some n → o = o'
  live : ∀ o n, place o = some n → ∃ k, d.Live n k
  nodup : d.closes.Nodup

/-- Every resource is closed, or its number is in a place. -/
def Covered (d : Descriptors) (place : ι → Option Nat) : Prop :=
  ∀ k, k < d.created → k ∈ d.closes ∨ ∃ o n, place o = some n ∧ d.holder n = some k

variable {d : Descriptors} {place : ι → Option Nat} {o o' : ι} {n : Nat}

theorem Exclusive.ne_of_free (h : Exclusive d place) (hfree : d.Free n) (o : ι) :
    place o ≠ some n := by
  intro ho
  obtain ⟨k, hk, hopen⟩ := h.live o n ho
  exact hopen (hfree k hk)

/-- Each resource is closed once when all places are empty. -/
theorem Covered.count_closes (hcovered : Covered d place) (h : Exclusive d place)
    (hempty : ∀ o, place o = none) {k : Nat} (hk : k < d.created) : d.closes.count k = 1 := by
  refine List.count_eq_one_of_mem h.nodup ((hcovered k hk).resolve_right ?_)
  rintro ⟨o, n, ho, -⟩
  rw [hempty o] at ho
  cases ho

/-- A new resource, before its number is put into a place. -/
theorem Exclusive.create (h : Exclusive d place) (hfree : d.Free n) :
    Exclusive (d.create n) place := by
  refine ⟨h.sound.create n, h.inj, fun a m ha => ?_, h.nodup⟩
  obtain ⟨k, hk, hopen⟩ := h.live a m ha
  have hne : m ≠ n := fun hmn => h.ne_of_free hfree a (hmn ▸ ha)
  exact ⟨k, by rw [create_holder_of_ne d hne, hk], hopen⟩

theorem live_create (h : Sound d) (n : Nat) : (d.create n).Live n d.created :=
  ⟨create_holder d n, fun hmem => absurd (h.closed _ hmem) (Nat.lt_irrefl _)⟩

/-- A new resource that is closed at once. -/
theorem Exclusive.create_close (h : Exclusive d place) (hfree : d.Free n) :
    Exclusive ((d.create n).close n) place := by
  have hsound := h.sound.create n
  refine ⟨hsound.close n, h.inj, fun a m ha => ?_, ?_⟩
  · obtain ⟨k, hk, hopen⟩ := (h.create hfree).live a m ha
    refine ⟨k, hk, fun hmem => ?_⟩
    obtain hmem | hmem := mem_close_closes.mp hmem
    · exact hopen hmem
    · exact h.ne_of_free hfree a (hsound.one m n k hk hmem ▸ ha)
  · rw [Descriptors.close, create_holder, Option.toList_some]
    exact List.nodup_append_comm.mp
      (List.nodup_cons.mpr ⟨(live_create h.sound n).2, h.nodup⟩)

theorem Covered.create_close (hcovered : Covered d place) (h : Exclusive d place)
    (hfree : d.Free n) : Covered ((d.create n).close n) place := by
  intro k hk
  obtain hlt | heq := Nat.lt_or_eq_of_le (Nat.le_of_lt_succ hk)
  · obtain hclosed | ⟨a, m, ha, hm⟩ := hcovered k hlt
    · exact .inl (mem_close_closes.mpr (.inl hclosed))
    · have hmn : m ≠ n := fun hmn => h.ne_of_free hfree a (hmn ▸ ha)
      exact .inr ⟨a, m, ha, by rw [close_holder, create_holder_of_ne d hmn, hm]⟩
  · exact .inl (mem_close_closes.mpr (.inr (by rw [heq, create_holder])))

variable [DecidableEq ι]

theorem update_eq_some_iff {x : Option Nat} {m : Nat} :
    Function.update place o x o' = some m ↔
      o' = o ∧ x = some m ∨ o' ≠ o ∧ place o' = some m := by
  by_cases h : o' = o
  · rw [h, Function.update_self]
    simp
  · rw [Function.update_of_ne h]
    simp [h]

/-- Forget what a place holds. -/
theorem Exclusive.forget (h : Exclusive d place) (o : ι) :
    Exclusive d (Function.update place o none) := by
  have hother : ∀ a m, Function.update place o none a = some m → place a = some m := by
    intro a m ha
    obtain ⟨-, hnone⟩ | ⟨-, ha⟩ := update_eq_some_iff.mp ha
    · cases hnone
    · exact ha
  exact ⟨h.sound, fun a b m ha hb => h.inj a b m (hother a m ha) (hother b m hb),
    fun a m ha => h.live a m (hother a m ha), h.nodup⟩

/-- Put a number that is in no place into one. What that held before is forgotten. -/
theorem Exclusive.put (h : Exclusive d place) {k : Nat} (hlive : d.Live n k)
    (hnew : ∀ a, place a ≠ some n) (o : ι) :
    Exclusive d (Function.update place o (some n)) := by
  refine ⟨h.sound, fun a b m ha hb => ?_, fun a m ha => ?_, h.nodup⟩
  · obtain ⟨rfl, hm⟩ | ⟨-, ha⟩ := update_eq_some_iff.mp ha
    · obtain ⟨rfl, -⟩ | ⟨-, hb⟩ := update_eq_some_iff.mp hb
      · rfl
      · exact absurd (hb.trans hm.symm) (hnew b)
    · obtain ⟨-, hm⟩ | ⟨-, hb⟩ := update_eq_some_iff.mp hb
      · exact absurd (ha.trans hm.symm) (hnew a)
      · exact h.inj a b m ha hb
  · obtain ⟨-, hm⟩ | ⟨-, ha⟩ := update_eq_some_iff.mp ha
    · rw [← Option.some.inj hm]
      exact ⟨k, hlive⟩
    · exact h.live a m ha

/-- A new resource in a place. -/
theorem Exclusive.create_put (h : Exclusive d place) (hfree : d.Free n) (o : ι) :
    Exclusive (d.create n) (Function.update place o (some n)) :=
  (h.create hfree).put (live_create h.sound n) (h.ne_of_free hfree) o

theorem Covered.create_put (hcovered : Covered d place) (h : Exclusive d place)
    (hfree : d.Free n) (hempty : place o = none) :
    Covered (d.create n) (Function.update place o (some n)) := by
  intro k hk
  obtain hlt | heq := Nat.lt_or_eq_of_le (Nat.le_of_lt_succ hk)
  · obtain hclosed | ⟨a, m, ha, hm⟩ := hcovered k hlt
    · exact .inl hclosed
    · have hao : a ≠ o := fun hao => by rw [hao, hempty] at ha; cases ha
      have hmn : m ≠ n := fun hmn => h.ne_of_free hfree a (hmn ▸ ha)
      exact .inr ⟨a, m, update_eq_some_iff.mpr (.inr ⟨hao, ha⟩), by
        rw [create_holder_of_ne d hmn, hm]⟩
  · exact .inr ⟨o, n, Function.update_self .., by rw [heq, create_holder]⟩

/-- Empty a place and close its number. -/
theorem Exclusive.close (h : Exclusive d place) (ho : place o = some n) :
    Exclusive (d.close n) (Function.update place o none) := by
  obtain ⟨k, hk, hopen⟩ := h.live o n ho
  have hrest := h.forget o
  refine ⟨h.sound.close n, hrest.inj, fun a m ha => ?_, ?_⟩
  · obtain ⟨j, hj, hjopen⟩ := hrest.live a m ha
    refine ⟨j, hj, fun hmem => ?_⟩
    obtain hmem | hmem := mem_close_closes.mp hmem
    · exact hjopen hmem
    · obtain ⟨-, hnone⟩ | ⟨hao, ha⟩ := update_eq_some_iff.mp ha
      · cases hnone
      · rw [h.sound.one m n j hj hmem] at ha
        exact hao (h.inj a o n ha ho)
  · rw [Descriptors.close, hk, Option.toList_some]
    exact List.nodup_append_comm.mp (List.nodup_cons.mpr ⟨hopen, h.nodup⟩)

theorem Covered.close (hcovered : Covered d place) (ho : place o = some n) :
    Covered (d.close n) (Function.update place o none) := by
  intro k hk
  obtain hclosed | ⟨a, m, ha, hm⟩ := hcovered k hk
  · exact .inl (mem_close_closes.mpr (.inl hclosed))
  · by_cases hao : a = o
    · rw [hao, ho] at ha
      rw [← Option.some.inj ha] at hm
      exact .inl (mem_close_closes.mpr (.inr hm))
    · exact .inr ⟨a, m, update_eq_some_iff.mpr (.inr ⟨hao, ha⟩), hm⟩

/-- Move a number to another place. What that held before is forgotten. -/
theorem Exclusive.move (h : Exclusive d place) (ho : place o = some n) (o' : ι) :
    Exclusive d (Function.update (Function.update place o none) o' (some n)) := by
  obtain ⟨k, hlive⟩ := h.live o n ho
  refine (h.forget o).put hlive (fun a ha => ?_) o'
  obtain ⟨-, hnone⟩ | ⟨hao, ha⟩ := update_eq_some_iff.mp ha
  · cases hnone
  · exact hao (h.inj a o n ha ho)

theorem Covered.move (hcovered : Covered d place) (ho : place o = some n)
    (hempty : place o' = none) :
    Covered d (Function.update (Function.update place o none) o' (some n)) := by
  intro k hk
  obtain hclosed | ⟨a, m, ha, hm⟩ := hcovered k hk
  · exact .inl hclosed
  · right
    by_cases hao : a = o
    · rw [hao, ho] at ha
      exact ⟨o', n, Function.update_self .., by rw [Option.some.inj ha, hm]⟩
    · have hao' : a ≠ o' := fun heq => by rw [heq, hempty] at ha; cases ha
      exact ⟨a, m, update_eq_some_iff.mpr (.inr ⟨hao', update_eq_some_iff.mpr (.inr ⟨hao, ha⟩)⟩),
        hm⟩

/-- Empty some places and close their numbers. -/
theorem close_all {entries : List (ι × Nat)} (hnodup : (entries.map Prod.fst).Nodup)
    (hentries : ∀ entry ∈ entries, place entry.1 = some entry.2) (h : Exclusive d place) :
    Exclusive ((entries.map Prod.snd).foldl close d)
        (fun o => if o ∈ entries.map Prod.fst then none else place o) ∧
      (Covered d place → Covered ((entries.map Prod.snd).foldl close d)
        (fun o => if o ∈ entries.map Prod.fst then none else place o)) := by
  induction entries generalizing d place with
  | nil => exact ⟨by simpa using h, fun hcovered => by simpa using hcovered⟩
  | cons entry rest ih =>
      obtain ⟨hfresh, hnodupRest⟩ := List.nodup_cons.mp hnodup
      obtain ⟨hfirst, hrest⟩ := List.forall_mem_cons.mp hentries
      have hplace : (fun o => if o ∈ (entry :: rest).map Prod.fst then none else place o) =
          fun o => if o ∈ rest.map Prod.fst then none
            else Function.update place entry.1 none o := by
        funext o
        rw [Function.update_apply]
        by_cases ho : o = entry.1
        · simp [ho]
        · by_cases hmem : o ∈ rest.map Prod.fst <;> simp only [List.map_cons, List.mem_cons, ho,
            hmem, if_true, if_false, or_true, or_false]
      have hstill : ∀ e ∈ rest, Function.update place entry.1 none e.1 = some e.2 := by
        intro e he
        have hne : e.1 ≠ entry.1 := fun heq => hfresh (heq ▸ List.mem_map_of_mem he)
        exact update_eq_some_iff.mpr (.inr ⟨hne, hrest e he⟩)
      obtain ⟨hexclusive, hcovers⟩ := ih hnodupRest hstill (h.close hfirst)
      rw [List.map_cons, List.foldl_cons, hplace]
      exact ⟨hexclusive, fun hcovered => hcovers (hcovered.close hfirst)⟩

end Places

end Descriptors
