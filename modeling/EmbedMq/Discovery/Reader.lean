import EmbedMq.Codec.RoundTrip

/-!
# Reading through a cursor

`Reader` of `discovery_agent.cpp`: a cursor over a payload that remembers whether any
read went past the end. A read that does returns a default and leaves the cursor where
it was, and later reads may still succeed. Programs over a cursor record the positions
that they read.

A `Parser` is a program that reads inside the payload only and never forgets a failure;
it carries the proof, so that every parser that is put together from the reads has these
properties. `Reads` says that a parser returns a value from certain bytes and is not
satisfied by less of them. Its rules follow the constructors of a program, so that the
format of a message is read off its parser.
-/

namespace EmbedMq

/-- A cursor over a payload. -/
structure Reader where
  data : Bytes
  off : Nat := 0
  ok : Bool := true

/-- A program over a cursor that reads inside the payload and keeps a failure. -/
structure Parser (α : Type) where
  run : Reader → Tracked (α × Reader)
  data : ∀ r, (run r).value.2.data = r.data
  inside : ∀ r, Tracked.Within r.data.length (run r)
  sticky : ∀ r, r.ok = false → (run r).value.2.ok = false

namespace Parser

variable {α β : Type}

protected def pure (a : α) : Parser α where
  run r := pure (a, r)
  data _ := rfl
  inside _ := Tracked.within_pure _ _
  sticky _ h := h

protected def bind (x : Parser α) (f : α → Parser β) : Parser β where
  run r := x.run r >>= fun p => (f p.1).run p.2
  data r := ((f _).data _).trans (x.data r)
  inside r := by
    refine (x.inside r).bind ?_
    have hrest := (f (x.run r).value.1).inside (x.run r).value.2
    rwa [x.data] at hrest
  sticky r h := (f _).sticky _ (x.sticky r h)

instance : Monad Parser where
  pure := Parser.pure
  bind := Parser.bind

@[simp] theorem bind_value (x : Parser α) (f : α → Parser β) (r : Reader) :
    ((x >>= f).run r).value = ((f (x.run r).value.1).run (x.run r).value.2).value := rfl

@[simp] theorem pure_value (a : α) (r : Reader) : ((pure a : Parser α).run r).value = (a, r) := rfl

@[simp] theorem ite_value (c : Prop) [Decidable c] (x y : Parser α) (r : Reader) :
    ((if c then x else y).run r).value = if c then (x.run r).value else (y.run r).value := by
  split <;> rfl

end Parser

namespace Reader

open MessageCodec (bytes16 bytes32)

/-- There are `n` more bytes; otherwise the cursor remembers the failure. -/
def need (n : Nat) (r : Reader) : Bool × Reader :=
  if r.data.length < n ∨ r.data.length - n < r.off then (false, { r with ok := false })
  else (true, r)

variable {r : Reader} {n : Nat}

theorem need_of_le (h : r.off + n ≤ r.data.length) : need n r = (true, r) := by
  rw [need, if_neg (by omega)]

theorem need_of_lt (h : r.data.length < r.off + n) :
    need n r = (false, { r with ok := false }) := by
  rw [need, if_pos (by omega)]

/-- Read a value from the next `n` bytes, if they are there, and move the cursor by `step`. -/
def fetch {α : Type} (n step : Nat) (default : α) (get : Bytes → Nat → Tracked α)
    (h : ∀ data off, off + n ≤ data.length → Tracked.Within data.length (get data off)) :
    Parser α where
  run r :=
    if (need n r).1 then do
      let v ← get r.data r.off
      return (v, { r with off := r.off + step })
    else return (default, (need n r).2)
  data r := by
    obtain hlt | hle := Nat.lt_or_ge r.data.length (r.off + n)
    · rw [need_of_lt hlt]
      rfl
    · rw [need_of_le hle]
      rfl
  inside r := by
    obtain hlt | hle := Nat.lt_or_ge r.data.length (r.off + n)
    · rw [need_of_lt hlt]
      exact Tracked.within_pure _ _
    · rw [need_of_le hle]
      exact (h _ _ hle).bind (Tracked.within_pure _ _)
  sticky r hfailed := by
    obtain hlt | hle := Nat.lt_or_ge r.data.length (r.off + n)
    · rw [need_of_lt hlt]
      rfl
    · rw [need_of_le hle]
      exact hfailed

def u8 : Parser UInt8 :=
  fetch 1 1 0 Tracked.read fun data _ h => Tracked.within_read data h

def u16 : Parser UInt16 :=
  fetch 2 2 0 MessageCodec.getU16 fun data _ h => MessageCodec.within_getU16 data h

def u32 : Parser UInt32 :=
  fetch 4 4 0 MessageCodec.getU32 fun data _ h => MessageCodec.within_getU32 data h

/-- The next `n` bytes, or none of them. -/
def chars (n : Nat) : Parser Bytes :=
  fetch n n [] (fun data p => Tracked.readRange data p n) fun data _ h =>
    Tracked.within_readRange data h

def str8 : Parser Bytes := do
  let n ← u8
  chars n.toNat

def str16 : Parser Bytes := do
  let n ← u16
  chars n.toNat

/-- The next `n` bytes, which the cursor does not pass. -/
def peek (n : Nat) : Parser (Option Bytes) :=
  fetch n 0 none (fun data p => do return some (← Tracked.readRange data p n)) fun data _ h =>
    (Tracked.within_readRange data h).bind (Tracked.within_pure _ _)

/-- No read has gone past the end. -/
def isOk : Parser Bool where
  run r := pure (r.ok, r)
  data _ := rfl
  inside _ := Tracked.within_pure _ _
  sticky _ h := h

@[simp] theorem isOk_value (r : Reader) : (isOk.run r).value = (r.ok, r) := rfl

/-! ### The bytes that a program reads -/

variable {α : Type}

/-- What is left to read. -/
def rest (r : Reader) : Bytes := r.data.drop r.off

theorem rest_start (data : Bytes) : rest { data } = data := rfl

/-- A cursor that has not failed. -/
structure Good (r : Reader) : Prop where
  ok : r.ok = true
  off : r.off ≤ r.data.length

/-- The bytes that are left are not all of `bytes`. -/
def Short (r : Reader) (bytes : Bytes) : Prop := ∃ missing, missing ≠ [] ∧ r.rest ++ missing = bytes

/-- From `bytes` the program returns `v`, and it fails on less of them. -/
structure Accepts (x : Parser α) (v : α) (bytes : Bytes) : Prop where
  value : ∀ r more, Good r → r.rest = bytes ++ more →
    (x.run r).value.1 = v ∧ (x.run r).value.2.ok = true
  short : ∀ r, Good r → Short r bytes → (x.run r).value.2.ok = false

/-- It also moves the cursor behind them. -/
structure Reads (x : Parser α) (v : α) (bytes : Bytes) : Prop extends Accepts x v bytes where
  moves : ∀ r more, Good r → r.rest = bytes ++ more →
    Good (x.run r).value.2 ∧ (x.run r).value.2.rest = more

theorem not_short_nil : ¬ Short r [] := by
  rintro ⟨missing, hne, happend⟩
  exact hne (List.append_eq_nil_iff.mp happend).2

theorem reads_pure (a : α) : Reads (pure a : Parser α) a [] where
  value _ _ h _ := ⟨rfl, h.ok⟩
  short _ _ h := absurd h not_short_nil
  moves _ _ h hrest := ⟨h, hrest⟩

theorem reads_isOk : Reads isOk true [] where
  value _ _ h _ := ⟨h.ok, h.ok⟩
  short _ _ h := absurd h not_short_nil
  moves _ _ h hrest := ⟨h, hrest⟩

/-- Less than two parts is less than the first, or the first and less than the second. -/
theorem short_append {first second : Bytes} (h : Short r (first ++ second)) :
    Short r first ∨ ∃ more, r.rest = first ++ more ∧ ∃ missing, missing ≠ [] ∧
      more ++ missing = second := by
  obtain ⟨missing, hne, happend⟩ := h
  obtain ⟨more, hfirst, hsecond⟩ | ⟨more, hrest, hmissing⟩ := List.append_eq_append_iff.mp happend
  · cases more with
    | nil =>
        refine Or.inr ⟨[], ?_, missing, hne, hsecond⟩
        rw [hfirst, List.append_nil, List.append_nil]
    | cons c more => exact Or.inl ⟨c :: more, by simp, hfirst.symm⟩
  · exact Or.inr ⟨more, hrest, missing, hne, hmissing.symm⟩

section Bind

variable {β : Type} {x : Parser α} {f : α → Parser β} {v : α} {w : β} {first second : Bytes}

theorem Accepts.bind (hx : Reads x v first) (hf : Accepts (f v) w second) :
    Accepts (x >>= f) w (first ++ second) where
  value r more hgood hrest := by
    rw [List.append_assoc] at hrest
    obtain ⟨hafter, hmoved⟩ := hx.moves r _ hgood hrest
    rw [Parser.bind_value, (hx.value r _ hgood hrest).1]
    exact hf.value _ more hafter hmoved
  short r hgood hshort := by
    rw [Parser.bind_value]
    obtain hfirst | ⟨more, hrest, missing, hne, hsecond⟩ := short_append hshort
    · exact (f _).sticky _ (hx.short r hgood hfirst)
    · obtain ⟨hafter, hmoved⟩ := hx.moves r more hgood hrest
      rw [(hx.value r more hgood hrest).1]
      refine hf.short _ hafter ⟨missing, hne, ?_⟩
      rw [hmoved]
      exact hsecond

/-- Nothing is read after the bytes. -/
theorem Accepts.bind_quiet (hx : Accepts x v first)
    (hf : ∀ r, r.ok = true → ((f v).run r).value = (w, r)) : Accepts (x >>= f) w first where
  value r more hgood hrest := by
    obtain ⟨hvalue, hok⟩ := hx.value r more hgood hrest
    rw [Parser.bind_value, hvalue, hf _ hok]
    exact ⟨rfl, hok⟩
  short r hgood hshort := by
    rw [Parser.bind_value]
    exact (f _).sticky _ (hx.short r hgood hshort)

theorem Reads.bind (hx : Reads x v first) (hf : Reads (f v) w second) :
    Reads (x >>= f) w (first ++ second) where
  toAccepts := Accepts.bind hx hf.toAccepts
  moves r more hgood hrest := by
    rw [List.append_assoc] at hrest
    obtain ⟨hafter, hmoved⟩ := hx.moves r _ hgood hrest
    rw [Parser.bind_value, (hx.value r _ hgood hrest).1]
    exact hf.moves _ more hafter hmoved

end Bind

/-! ### The single reads -/

section Fetch

variable {bytes more : Bytes} (hlength : bytes.length = n)
include hlength

omit hlength in
theorem fetch_of_le {get : Bytes → Nat → Tracked α} {step : Nat} {default : α} {hget}
    (h : r.off + n ≤ r.data.length) :
    ((fetch n step default get hget).run r).value =
      ((get r.data r.off).value, { r with off := r.off + step }) := by
  simp only [fetch, need_of_le h]
  rfl

omit hlength in
theorem fetch_of_lt {get : Bytes → Nat → Tracked α} {step : Nat} {default : α} {hget}
    (h : r.data.length < r.off + n) :
    ((fetch n step default get hget).run r).value = (default, { r with ok := false }) := by
  simp only [fetch, need_of_lt h]
  rfl

/-- The bytes are there. -/
theorem le_of_rest (hgood : Good r) (hrest : r.rest = bytes ++ more) :
    r.off + n ≤ r.data.length ∧ MessageCodec.slice r.data r.off n = bytes := by
  have hdrop : r.data.drop r.off = bytes ++ more := hrest
  have hsum := congrArg List.length hdrop
  rw [List.length_drop, List.length_append] at hsum
  have hoff := hgood.off
  refine ⟨by omega, ?_⟩
  rw [MessageCodec.slice, hdrop, ← hlength, List.take_left]

/-- They are not. -/
theorem lt_of_short (hgood : Good r) (hshort : Short r bytes) :
    r.data.length < r.off + n := by
  obtain ⟨missing, hne, happend⟩ := hshort
  have hsum := congrArg List.length happend
  have hpos := List.length_pos_iff.mpr hne
  rw [List.length_append, rest, List.length_drop] at hsum
  have hoff := hgood.off
  omega

theorem accepts_fetch {get : Bytes → Nat → Tracked α} {step : Nat} (default : α) {v : α} {hget}
    (h : ∀ data off, off + n ≤ data.length → MessageCodec.slice data off n = bytes →
      (get data off).value = v) : Accepts (fetch n step default get hget) v bytes where
  value r more hgood hrest := by
    obtain ⟨hle, hslice⟩ := le_of_rest hlength hgood hrest
    rw [fetch_of_le hle]
    exact ⟨h _ _ hle hslice, hgood.ok⟩
  short r hgood hshort := by
    rw [fetch_of_lt (lt_of_short hlength hgood hshort)]

theorem reads_fetch {get : Bytes → Nat → Tracked α} (default : α) {v : α} {hget}
    (h : ∀ data off, off + n ≤ data.length → MessageCodec.slice data off n = bytes →
      (get data off).value = v) : Reads (fetch n n default get hget) v bytes where
  toAccepts := accepts_fetch hlength default h
  moves r more hgood hrest := by
    obtain ⟨hle, _⟩ := le_of_rest hlength hgood hrest
    rw [fetch_of_le hle]
    refine ⟨⟨hgood.ok, hle⟩, ?_⟩
    change r.data.drop (r.off + n) = more
    rw [← List.drop_drop]
    change r.rest.drop n = more
    rw [hrest, ← hlength, List.drop_left]

theorem reads_chars : Reads (chars n) bytes bytes :=
  reads_fetch hlength [] fun _ _ hle hslice => (Tracked.readRange_value hle).trans hslice

theorem accepts_peek : Accepts (peek n) (some bytes) bytes := by
  refine accepts_fetch hlength none fun data off hle hslice => congrArg some ?_
  exact (Tracked.readRange_value hle).trans hslice

end Fetch

theorem reads_u8 (b : UInt8) : Reads u8 b [b] := by
  have hlength : [b].length = 1 := rfl
  refine reads_fetch hlength 0 fun data off hle hslice => ?_
  rw [MessageCodec.slice_cons 0 (by omega), MessageCodec.slice_zero] at hslice
  exact (List.cons.inj hslice).1

theorem reads_u16 (v : UInt16) : Reads u16 v (bytes16 v) := by
  refine reads_fetch (MessageCodec.bytes16_length v) 0 fun data off hle hslice => ?_
  rw [MessageCodec.getU16_value hle, MessageCodec.field, hslice, MessageCodec.value_bytes16,
    UInt16.ofNat_toNat]

theorem reads_u32 (v : UInt32) : Reads u32 v (bytes32 v) := by
  refine reads_fetch (MessageCodec.bytes32_length v) 0 fun data off hle hslice => ?_
  rw [MessageCodec.getU32_value hle, MessageCodec.field, hslice, MessageCodec.value_bytes32,
    UInt32.ofNat_toNat]

theorem reads_str8 {s : Bytes} {n : UInt8} (h : s.length = n.toNat) : Reads str8 s (n :: s) :=
  (reads_u8 n).bind (reads_chars h)

theorem reads_str16 {s : Bytes} {n : UInt16} (h : s.length = n.toNat) :
    Reads str16 s (bytes16 n ++ s) :=
  (reads_u16 n).bind (reads_chars h)

end Reader

end EmbedMq
