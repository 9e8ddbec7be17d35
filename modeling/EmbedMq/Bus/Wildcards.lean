import EmbedMq.Bus.Routing

/-!
# The meaning of a pattern

A pattern is a list of segments, and so is a topic. `Matches` says which topics a pattern
stands for, without a loop and without indices. The loop of `matchWildcard` decides it.
-/

namespace EmbedMq

namespace TopicRouter

/-- The topics, as lists of segments, that a pattern stands for. -/
inductive Matches : List Bytes → List Bytes → Prop where
  | nil : Matches [] []
  | hash (ts : List Bytes) : Matches [[TopicRouter.hash]] ts
  | star {ps ts : List Bytes} (t : Bytes) (h : Matches ps ts) :
      Matches ([TopicRouter.star] :: ps) (t :: ts)
  | segment {p : Bytes} {ps ts : List Bytes} (hp : p ≠ [TopicRouter.hash]) (h : Matches ps ts) :
      Matches (p :: ps) (p :: ts)

theorem matches_nil_iff {ts : List Bytes} : Matches [] ts ↔ ts = [] := by
  constructor
  · intro h
    cases h
    rfl
  · rintro rfl
    exact .nil

/-- With a `#` in front, nothing may follow. -/
theorem matches_hash_iff {ps ts : List Bytes} : Matches ([hash] :: ps) ts ↔ ps = [] := by
  constructor
  · intro h
    cases h with
    | hash => rfl
    | segment hp _ => exact absurd rfl hp
  · rintro rfl
    exact .hash ts

theorem not_matches_nil {p : Bytes} (hp : p ≠ [hash]) (ps : List Bytes) :
    ¬Matches (p :: ps) [] := by
  intro h
  cases h
  exact hp rfl

theorem matches_cons_iff {p : Bytes} (hp : p ≠ [hash]) {t : Bytes} {ps ts : List Bytes} :
    Matches (p :: ps) (t :: ts) ↔ (p = [star] ∨ p = t) ∧ Matches ps ts := by
  constructor
  · intro h
    cases h with
    | hash => exact absurd rfl hp
    | star _ h => exact ⟨.inl rfl, h⟩
    | segment _ h => exact ⟨.inr rfl, h⟩
  · rintro ⟨rfl | rfl, h⟩
    · exact .star t h
    · exact .segment hp h

/-- The loop of `matchWildcard` decides what the segments stand for. -/
theorem matchParts_iff (ps ts : List Bytes) : matchParts ps ts = true ↔ Matches ps ts := by
  induction ps generalizing ts with
  | nil => cases ts <;> simp [matchParts, matches_nil_iff]
  | cons p ps ih =>
      by_cases hp : p = [hash]
      · rw [hp, matches_hash_iff]
        cases ts <;> cases ps <;> simp [matchParts]
      · cases ts with
        | nil =>
            have hnot : matchParts (p :: ps) [] = false := by
              cases ps <;> simp [matchParts, hp]
            simp [hnot, not_matches_nil hp]
        | cons t ts =>
            rw [matches_cons_iff hp, matchParts, if_neg hp, ← ih ts]
            split <;> simp [*]

theorem modifyHead_nil_append (segments : List Bytes) :
    segments.modifyHead ([] ++ ·) = segments := by
  cases segments <;> rfl

/-- `split` cuts at every slash, except for one that stands at the end. The induction takes the
segment read so far along, as the loop does. -/
theorem splitLoop_eq_splitOn {token s : Bytes} (hs : s = [] → token ≠ [])
    (hlast : s.getLast? ≠ some slash) :
    splitLoop slash token s = (s.splitOn slash).modifyHead (token ++ ·) := by
  induction s generalizing token with
  | nil => simpa [splitLoop] using hs rfl
  | cons c rest ih =>
      have hrest := getLast?_ne_slash_of_cons hlast
      rw [splitLoop, List.splitOn_cons_eq_if_modifyHead]
      by_cases hc : c = slash
      · have hne : rest ≠ [] := by
          rintro rfl
          rw [hc] at hlast
          exact hlast rfl
        rw [if_pos hc, if_pos (beq_iff_eq.mpr hc), ih (fun h => absurd h hne) hrest]
        rw [modifyHead_nil_append, List.modifyHead_cons, List.append_nil]
      · rw [if_neg hc, if_neg (by simpa using hc), ih (fun _ => by simp) hrest,
          List.modifyHead_modifyHead]
        congr 1
        funext segment
        simp

theorem split_eq_splitOn {s : Bytes} (hne : s ≠ []) (hlast : s.getLast? ≠ some slash) :
    split s slash = s.splitOn slash := by
  rw [split, splitLoop_eq_splitOn (fun h => absurd h hne) hlast, modifyHead_nil_append]

/-- Matching agrees with the meaning of the pattern. -/
theorem matchWildcard_iff_matches {pattern topic : Bytes} (hpattern : pattern ≠ [])
    (hpatternLast : pattern.getLast? ≠ some slash) (htopic : topic ≠ [])
    (htopicLast : topic.getLast? ≠ some slash) :
    matchWildcard pattern topic = true ↔
      Matches (pattern.splitOn slash) (topic.splitOn slash) := by
  rw [matchWildcard, split_eq_splitOn hpattern hpatternLast, split_eq_splitOn htopic htopicLast]
  exact matchParts_iff _ _

/-- `*/#` matches `a`. -/
theorem matchWildcard_iff_matches_star :
    matchWildcard [star, slash, hash] [0x61] = true ↔
      Matches ([star, slash, hash].splitOn slash) ([0x61].splitOn slash) :=
  matchWildcard_iff_matches (by decide) (by decide) (by decide) (by decide)

end TopicRouter

end EmbedMq
