import Mathlib.Data.List.Infix
import Mathlib.Data.List.TakeWhile

/-!
# Searching a text for a pattern

`seek` is the text from the first occurrence of a pattern on. A pattern that starts with a quote
is not found in what has no quotes, and a quoted pattern is not found in another quoted text.
-/

namespace Scan

variable {α : Type*} [DecidableEq α]

/-- The text from the first occurrence of the pattern on. -/
def seek (pattern : List α) : List α → Option (List α)
  | [] => if pattern = [] then some [] else none
  | c :: s => if pattern <+: c :: s then some (c :: s) else seek pattern s

variable {pattern s : List α} {q c : α}

theorem seek_of_prefix (h : pattern <+: s) : seek pattern s = some s := by
  cases s with
  | nil => rw [seek, if_pos (List.prefix_nil.mp h)]
  | cons c s => rw [seek, if_pos h]

theorem seek_append (pattern s : List α) : seek pattern (pattern ++ s) = some (pattern ++ s) :=
  seek_of_prefix (List.prefix_append _ _)

theorem seek_cons (h : ¬ pattern <+: c :: s) : seek pattern (c :: s) = seek pattern s := by
  rw [seek, if_neg h]

/-- Where the first element of the pattern is missing, there is no occurrence. -/
theorem seek_skip {skipped : List α} (h : q ∉ skipped) (s : List α) :
    seek (q :: pattern) (skipped ++ s) = seek (q :: pattern) s := by
  induction skipped with
  | nil => rfl
  | cons c rest ih =>
      have hc : q ≠ c := fun heq => h (heq ▸ List.mem_cons_self)
      rw [List.cons_append, seek_cons fun hprefix => hc (List.cons_prefix_cons.mp hprefix).1]
      exact ih fun hmem => h (List.mem_cons_of_mem _ hmem)

omit [DecidableEq α] in
/-- What stands before a quote is determined by the text. -/
theorem eq_of_quoted_start {key name : List α} (hkey : q ∉ key) (hname : q ∉ name)
    (h : key ++ [q] <+: name ++ q :: s) : key = name := by
  induction key generalizing name with
  | nil =>
      cases name with
      | nil => rfl
      | cons d name =>
          obtain rfl := (List.cons_prefix_cons.mp h).1
          exact absurd List.mem_cons_self hname
  | cons c key ih =>
      cases name with
      | nil =>
          obtain rfl := (List.cons_prefix_cons.mp h).1
          exact absurd List.mem_cons_self hkey
      | cons d name =>
          obtain ⟨rfl, hrest⟩ := List.cons_prefix_cons.mp h
          rw [ih (fun hmem => hkey (List.mem_cons_of_mem _ hmem))
            (fun hmem => hname (List.mem_cons_of_mem _ hmem)) hrest]

/-- Another quoted text, with what separates it from the rest, is passed over. -/
theorem seek_quoted {key name : List α} {sep : α} (hkey : q ∉ key) (hname : q ∉ name)
    (hne : key ≠ name) (hhead : key.head? ≠ some sep) (hnil : key ≠ []) (hsep : sep ≠ q)
    (s : List α) :
    seek (q :: (key ++ [q])) (q :: (name ++ q :: sep :: s)) = seek (q :: (key ++ [q])) s := by
  have hlast : seek (q :: (key ++ [q])) ([sep] ++ s) = seek (q :: (key ++ [q])) s :=
    seek_skip (by simpa using hsep.symm) s
  rw [seek_cons, seek_skip hname, seek_cons]
  · exact hlast
  · intro hprefix
    obtain ⟨c, rest, rfl⟩ := List.exists_cons_of_ne_nil hnil
    obtain rfl := (List.cons_prefix_cons.mp (List.cons_prefix_cons.mp hprefix).2).1
    exact hhead rfl
  · intro hprefix
    exact hne (eq_of_quoted_start hkey hname (List.cons_prefix_cons.mp hprefix).2)

end Scan
