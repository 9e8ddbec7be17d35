import EmbedMq.Codec.Basic
import EmbedMq.Foundation.Scan

/-!
# The configuration of the transports

`TransportManager::initAll` writes the configuration into one text, in the form of a JSON object,
and the transports look up what they need: `UdpTransport::parseConfig` and `ShmTransport::init`
share a search for a quoted key and read the value behind the next colon. Nothing is escaped.
-/

namespace EmbedMq

namespace ConfigText

open Scan (seek)

def quote : UInt8 := 0x22
def comma : UInt8 := 0x2C
def colon : UInt8 := 0x3A
def opening : UInt8 := 0x7B
def closing : UInt8 := 0x7D
def blank : UInt8 := 0x20

/-- A value ends before a quote, a comma or a closing brace. -/
def endsValue (c : UInt8) : Bool := c == quote || c == comma || c == closing

/-- `extract` of `UdpTransport::parseConfig`, and `parseStr` of `shm_transport.cpp`. -/
def extract (cfg key : Bytes) : Bytes :=
  match seek (quote :: (key ++ [quote])) cfg with
  | none => []
  | some found =>
      match seek [colon] found with
      | none => []
      | some rest =>
          ((rest.drop 1).dropWhile fun c => c == blank || c == quote).takeWhile fun c =>
            !endsValue c

/-! ### Fields -/

structure Field where
  name : Bytes
  value : Bytes
  quoted : Bool := false

def Field.valueText (f : Field) : Bytes :=
  if f.quoted then quote :: (f.value ++ [quote]) else f.value

def Field.text (f : Field) : Bytes := quote :: (f.name ++ quote :: colon :: f.valueText)

/-- The fields up to the closing brace. -/
def body : List Field → Bytes
  | [] => [closing]
  | [f] => f.text ++ [closing]
  | f :: rest => f.text ++ comma :: body rest

def render (fields : List Field) : Bytes := opening :: body fields

/-- A key has no character that structures the text. -/
def IsKey (key : Bytes) : Prop :=
  key ≠ [] ∧ ∀ c ∈ key, endsValue c = false ∧ c ≠ colon

/-- A value that is read back. -/
def IsValue (value : Bytes) : Prop :=
  (∀ c ∈ value, endsValue c = false) ∧ value.head? ≠ some blank

instance (key : Bytes) : Decidable (IsKey key) :=
  @instDecidableAnd _ _ _ (List.decidableBAll (fun c => endsValue c = false ∧ c ≠ colon) key)

instance (value : Bytes) : Decidable (IsValue value) :=
  @instDecidableAnd _ _ (List.decidableBAll (fun c => endsValue c = false) value) _

structure Field.WellFormed (f : Field) : Prop where
  name : IsKey f.name
  value : IsValue f.value

variable {key value : Bytes} {f : Field} {fields : List Field}

theorem not_mem_of_ends {c : UInt8} {s : Bytes} (hc : endsValue c = true)
    (h : ∀ c ∈ s, endsValue c = false) : c ∉ s := by
  intro hmem
  rw [h c hmem] at hc
  cases hc

theorem IsKey.head (h : IsKey key) {c : UInt8} (hc : endsValue c = true ∨ c = colon) :
    key.head? ≠ some c := by
  intro hhead
  obtain ⟨hends, hcolon⟩ := h.2 c (List.mem_of_mem_head? hhead)
  obtain hc | hc := hc
  · rw [hc] at hends
    cases hends
  · exact hcolon hc

/-- A field of another name is passed over. -/
theorem seek_field (hkey : IsKey key) (hf : f.WellFormed) (hname : f.name ≠ key)
    (hvalue : f.quoted = true → f.value ≠ key) {sep : UInt8} (hsep : sep = comma ∨ sep = closing)
    (s : Bytes) :
    seek (quote :: (key ++ [quote])) (f.text ++ sep :: s) = seek (quote :: (key ++ [quote])) s := by
  have hquote : ∀ {s : Bytes}, (∀ c ∈ s, endsValue c = false) → quote ∉ s :=
    not_mem_of_ends rfl
  have hkeyQuote : quote ∉ key := hquote fun c hc => (hkey.2 c hc).1
  have hnameQuote : quote ∉ f.name := hquote fun c hc => (hf.name.2 c hc).1
  have hvalueQuote : quote ∉ f.value := hquote hf.value.1
  have hends : endsValue sep = true := by
    obtain rfl | rfl := hsep <;> rfl
  have hsepQuote : sep ≠ quote := by
    obtain rfl | rfl := hsep <;> decide
  have htext : f.text ++ sep :: s =
      quote :: (f.name ++ quote :: colon :: (f.valueText ++ sep :: s)) := by
    simp [Field.text]
  rw [htext, Scan.seek_quoted hkeyQuote hnameQuote (Ne.symm hname) (hkey.head (.inr rfl)) hkey.1
    (by decide), Field.valueText]
  split
  · rename_i hquoted
    have hinner : quote :: (f.value ++ [quote]) ++ sep :: s =
        quote :: (f.value ++ quote :: sep :: s) := by
      simp
    rw [hinner, Scan.seek_quoted hkeyQuote hvalueQuote (Ne.symm (hvalue hquoted))
      (hkey.head (.inl hends)) hkey.1 hsepQuote]
  · have hskip : quote ∉ f.value ++ [sep] := by
      simpa [hvalueQuote] using hsepQuote.symm
    have hlast : seek (quote :: (key ++ [quote])) (f.value ++ [sep] ++ s) =
        seek (quote :: (key ++ [quote])) s := Scan.seek_skip hskip s
    rw [List.append_assoc] at hlast
    exact hlast

/-- The value behind its key. -/
theorem value_read (name : Bytes) (h : IsValue value) (quoted : Bool) {sep : UInt8}
    (hsep : sep = comma ∨ sep = closing) (s : Bytes) :
    (((Field.valueText ⟨name, value, quoted⟩ ++ sep :: s).dropWhile fun c =>
      c == blank || c == quote).takeWhile fun c => !endsValue c) = value := by
  have hstop : ∀ {c : UInt8} {t : Bytes}, (c = quote ∨ c = comma ∨ c = closing) →
      (value ++ c :: t).takeWhile (fun c => !endsValue c) = value := by
    intro c t hc
    have hends : endsValue c = true := by
      obtain rfl | rfl | rfl := hc <;> rfl
    rw [List.takeWhile_append_of_pos fun d hd => by rw [h.1 d hd]; rfl,
      List.takeWhile_cons_of_neg (by simp [hends]), List.append_nil]
  have hkeep : ∀ {c : UInt8} {t : Bytes}, value ≠ [] →
      (value ++ c :: t).dropWhile (fun c => c == blank || c == quote) = value ++ c :: t := by
    intro c t hnil
    obtain ⟨d, rest, rfl⟩ := List.exists_cons_of_ne_nil hnil
    have hblank : d ≠ blank := fun heq => h.2 (by rw [heq]; rfl)
    have hquote : d ≠ quote := by
      rintro rfl
      exact absurd (h.1 _ List.mem_cons_self) (by decide)
    rw [List.cons_append, List.dropWhile_cons_of_neg (by simp [hblank, hquote])]
  have hsepStop : (sep == blank || sep == quote) = false := by
    obtain rfl | rfl := hsep <;> decide
  by_cases hnil : value = []
  · subst hnil
    cases quoted with
    | false =>
        change ((sep :: s).dropWhile _).takeWhile _ = _
        rw [List.dropWhile_cons_of_neg (by simp [hsepStop])]
        exact hstop (.inr hsep)
    | true =>
        change ((quote :: quote :: sep :: s).dropWhile _).takeWhile _ = _
        rw [List.dropWhile_cons_of_pos (by decide), List.dropWhile_cons_of_pos (by decide),
          List.dropWhile_cons_of_neg (by simp [hsepStop])]
        exact hstop (.inr hsep)
  · cases quoted with
    | false =>
        change ((value ++ sep :: s).dropWhile _).takeWhile _ = _
        rw [hkeep hnil]
        exact hstop (.inr hsep)
    | true =>
        have htext : Field.valueText ⟨name, value, true⟩ ++ sep :: s =
            quote :: (value ++ quote :: sep :: s) := by
          simp [Field.valueText]
        rw [htext, List.dropWhile_cons_of_pos (by decide), hkeep hnil]
        exact hstop (.inl rfl)

theorem seek_closing (key : Bytes) :
    seek (quote :: (key ++ [quote])) [closing] = seek (quote :: (key ++ [quote])) [] :=
  Scan.seek_skip (by decide : quote ∉ [closing]) []

theorem seek_nil (key : Bytes) : seek (quote :: (key ++ [quote])) [] = none := by
  rw [seek, if_neg (List.cons_ne_nil _ _)]

/-- What follows a field is what the other fields are read from. -/
theorem body_cons (f : Field) (rest : List Field) : ∃ sep tail, (sep = comma ∨ sep = closing) ∧
    body (f :: rest) = f.text ++ sep :: tail ∧ ∀ key,
      seek (quote :: (key ++ [quote])) tail = seek (quote :: (key ++ [quote])) (body rest) := by
  cases rest with
  | nil => exact ⟨closing, [], .inr rfl, rfl, fun key => (seek_closing key).symm⟩
  | cons g rest => exact ⟨comma, body (g :: rest), .inl rfl, rfl, fun _ => rfl⟩

/-- A key is found at the first field that has it as its name. -/
theorem seek_body (hkey : IsKey key) (hfields : ∀ f ∈ fields, f.WellFormed)
    (hvalues : ∀ f ∈ fields, f.name ≠ key → f.quoted = true → f.value ≠ key) :
    match fields.find? fun f => f.name = key with
    | none => seek (quote :: (key ++ [quote])) (body fields) = none
    | some f => ∃ sep s, (sep = comma ∨ sep = closing) ∧
        seek (quote :: (key ++ [quote])) (body fields) = some (f.text ++ sep :: s) := by
  induction fields with
  | nil => exact (seek_closing key).trans (seek_nil key)
  | cons f rest ih =>
      obtain ⟨sep, tail, hsep, hbody, htail⟩ := body_cons f rest
      by_cases hname : f.name = key
      · rw [List.find?_cons_of_pos (by simpa using hname)]
        refine ⟨sep, tail, hsep, ?_⟩
        rw [hbody]
        apply Scan.seek_of_prefix
        rw [← hname]
        exact ⟨colon :: (f.valueText ++ sep :: tail), by simp [Field.text]⟩
      · rw [List.find?_cons_of_neg (by simpa using hname), hbody,
          seek_field hkey (hfields f List.mem_cons_self) hname
            (hvalues f List.mem_cons_self hname) hsep, htail]
        exact ih (fun g hg => hfields g (List.mem_cons_of_mem _ hg))
          fun g hg => hvalues g (List.mem_cons_of_mem _ hg)

/-- A text of fields is read by looking a name up, unless another value is this name. -/
theorem extract_render (hkey : IsKey key) (hfields : ∀ f ∈ fields, f.WellFormed)
    (hvalues : ∀ f ∈ fields, f.name ≠ key → f.quoted = true → f.value ≠ key) :
    extract (render fields) key =
      ((fields.find? fun f => f.name = key).map Field.value).getD [] := by
  have hopening : seek (quote :: (key ++ [quote])) (render fields) =
      seek (quote :: (key ++ [quote])) (body fields) :=
    Scan.seek_skip (by decide : quote ∉ [opening]) _
  have hsearch := seek_body hkey hfields hvalues
  generalize hfind : (fields.find? fun f => f.name = key) = found at hsearch
  cases found with
  | none =>
      simp only [extract, hopening, hsearch]
      rfl
  | some f =>
      obtain ⟨sep, s, hsep, hseek⟩ := hsearch
      have hmem := List.mem_of_find?_eq_some hfind
      have hname : f.name = key := by simpa using List.find?_some hfind
      -- Neither the quotes nor the key have a colon.
      have hskip : colon ∉ quote :: (key ++ [quote]) := by
        have hcolon : colon ∉ key := fun hc => (hkey.2 _ hc).2 rfl
        simpa [hcolon] using (by decide : colon ≠ quote)
      have htext : f.text ++ sep :: s =
          quote :: (key ++ [quote]) ++ ([colon] ++ (f.valueText ++ sep :: s)) := by
        simp [Field.text, hname]
      have hcolon : seek [colon] (f.text ++ sep :: s) =
          some ([colon] ++ (f.valueText ++ sep :: s)) := by
        rw [htext, Scan.seek_skip hskip, Scan.seek_append]
      simp only [extract, hopening, hseek, hcolon, Option.map_some, Option.getD_some]
      exact value_read f.name (hfields f hmem).value f.quoted hsep s

/-- What is read is a value. -/
theorem isValue_extract (cfg key : Bytes) : IsValue (extract cfg key) := by
  have hnil : IsValue [] := by decide
  rw [extract]
  split
  · exact hnil
  · split
    · exact hnil
    · rename_i rest _
      generalize hdropped : (rest.drop 1).dropWhile (fun c => c == blank || c == quote) = dropped
      refine ⟨fun c hc => by simpa using List.mem_takeWhile_imp hc, fun hhead => ?_⟩
      cases dropped with
      | nil => cases hhead
      | cons d dropped =>
          have hkept := List.head_dropWhile_not (fun c => c == blank || c == quote)
            (show (rest.drop 1).dropWhile _ ≠ [] by rw [hdropped]; exact List.cons_ne_nil _ _)
          simp only [hdropped, List.head_cons, Bool.or_eq_false_iff, beq_eq_false_iff_ne] at hkept
          rw [List.takeWhile_cons] at hhead
          split at hhead
          · exact hkept.1 (Option.some.inj hhead)
          · cases hhead

/-! ### Numbers -/

/-- `std::to_string`. -/
def decimal (n : Nat) : Bytes := ascii (Nat.toDigits 10 n)

def isSpace (c : UInt8) : Bool := c == blank || (0x09 ≤ c && c ≤ 0x0D)

def isDigit (c : UInt8) : Bool := 0x30 ≤ c && c ≤ 0x39

def digitsValue (digits : Bytes) : Nat := digits.foldl (fun v d => 10 * v + (d.toNat - 48)) 0

/-- The sign and the digits at the start of a text, as `strtol` reads them. -/
def scanNumber (s : Bytes) : Option (Bool × Nat) :=
  let s := s.dropWhile isSpace
  let negative := s.head? == some 0x2D
  let digits := (if negative || s.head? == some 0x2B then s.drop 1 else s).takeWhile isDigit
  if digits.isEmpty then none else some (negative, digitsValue digits)

/-- `std::stoi`, with `none` for an exception. -/
def stoi (s : Bytes) : Option Int :=
  (scanNumber s).bind fun (negative, n) =>
    let i : Int := if negative then -n else n
    if -2 ^ 31 ≤ i ∧ i < 2 ^ 31 then some i else none

/-- `std::stoul`, by the width of `unsigned long`. -/
def stoul (width : SizeT) (s : Bytes) : Option Nat :=
  (scanNumber s).bind fun (negative, n) =>
    if n < width.modulus then some (if negative then (width.modulus - n) % width.modulus else n)
    else none

theorem digit_ne {c d : UInt8} (hc : isDigit c = true) (hd : isDigit d = false) : c ≠ d := by
  rintro rfl
  rw [hc] at hd
  cases hd

theorem digit_not_space {c : UInt8} (h : isDigit c = true) : isSpace c = false := by
  have hblank : c ≠ blank := digit_ne h rfl
  simp only [isDigit, Bool.and_eq_true, decide_eq_true_eq, UInt8.le_iff_toNat_le] at h
  have hlow : 48 ≤ c.toNat := h.1
  have htab : ¬ c ≤ 0x0D := by
    rw [UInt8.le_iff_toNat_le]
    change ¬ c.toNat ≤ 13
    omega
  simp [isSpace, hblank, htab]

theorem digit_of_mem {n : Nat} {c : UInt8} (h : c ∈ decimal n) : isDigit c = true := by
  obtain ⟨d, hd, rfl⟩ := List.mem_map.mp h
  have hdigit := Nat.isDigit_of_mem_toDigits (by decide) (by decide) hd
  simp only [Char.isDigit, Bool.and_eq_true, decide_eq_true_eq, UInt32.le_iff_toNat_le] at hdigit
  have hvalue : d.toNat = d.val.toNat := rfl
  have hlow : (48 : Nat) ≤ d.val.toNat := hdigit.1
  have hhigh : d.val.toNat ≤ 57 := hdigit.2
  simp only [isDigit, Bool.and_eq_true, decide_eq_true_eq, UInt8.le_iff_toNat_le]
  rw [UInt8.toNat_ofNat_of_lt' (by change d.toNat < 256; omega)]
  exact ⟨by change 48 ≤ d.toNat; omega, by change d.toNat ≤ 57; omega⟩

theorem decimal_ne_nil (n : Nat) : decimal n ≠ [] := by
  rw [decimal, ascii, Ne, List.map_eq_nil_iff]
  exact Nat.toDigits_ne_nil

theorem digitsValue_decimal (n : Nat) : digitsValue (decimal n) = n := by
  have hfold : digitsValue (decimal n) = Nat.ofDigitChars 10 (Nat.toDigits 10 n) 0 := by
    rw [digitsValue, decimal, ascii, List.foldl_map, Nat.ofDigitChars_eq_foldl]
    refine List.foldl_ext _ _ _ fun v d hd => ?_
    have hdigit := Nat.isDigit_of_mem_toDigits (by decide) (by decide) hd
    simp only [Char.isDigit, Bool.and_eq_true, decide_eq_true_eq, UInt32.le_iff_toNat_le] at hdigit
    have hhigh : d.toNat ≤ 57 := hdigit.2
    rw [UInt8.toNat_ofNat_of_lt' (by change d.toNat < 256; omega)]
    rfl
  rw [hfold]
  exact Nat.ofDigitChars_ten_toDigits

theorem scanNumber_decimal (n : Nat) : scanNumber (decimal n) = some (false, n) := by
  obtain ⟨c, rest, hcons⟩ := List.exists_cons_of_ne_nil (decimal_ne_nil n)
  have hdigit : isDigit c = true := digit_of_mem (by rw [hcons]; exact List.mem_cons_self)
  have hspace := digit_not_space hdigit
  have hsign : c ≠ 0x2D ∧ c ≠ 0x2B := ⟨digit_ne hdigit rfl, digit_ne hdigit rfl⟩
  have hdrop : (decimal n).dropWhile isSpace = decimal n := by
    rw [hcons, List.dropWhile_cons_of_neg (by simp [hspace])]
  have htake : (decimal n).takeWhile isDigit = decimal n :=
    List.takeWhile_eq_self_iff.mpr fun d hd => digit_of_mem hd
  have hhead : (decimal n).head? = some c := by rw [hcons]; rfl
  have hplain : ((decimal n).head? == some 0x2D) = false ∧
      ((decimal n).head? == some 0x2B) = false := by
    rw [hhead]
    simp [hsign]
  simp only [scanNumber, hdrop, hplain.1, hplain.2, Bool.or_self, Bool.false_eq_true, if_false,
    htake, List.isEmpty_iff, decimal_ne_nil, digitsValue_decimal]

theorem stoi_decimal {n : Nat} (h : n < 2 ^ 31) : stoi (decimal n) = some (n : Int) := by
  rw [stoi, scanNumber_decimal, Option.bind_some]
  exact if_pos ⟨by change -2 ^ 31 ≤ (n : Int); omega, by change (n : Int) < 2 ^ 31; omega⟩

theorem stoul_decimal {n : Nat} (h : n < 2 ^ 32) (width : SizeT) :
    stoul width (decimal n) = some n := by
  rw [stoul, scanNumber_decimal, Option.bind_some]
  exact if_pos (SizeT.lt_modulus h width)

theorem isValue_decimal (n : Nat) : IsValue (decimal n) := by
  refine ⟨fun c hc => ?_, fun hhead => ?_⟩
  · have hdigit := digit_of_mem hc
    have hquote : c ≠ quote := digit_ne hdigit rfl
    have hcomma : c ≠ comma := digit_ne hdigit rfl
    have hclosing : c ≠ closing := digit_ne hdigit rfl
    simp [endsValue, hquote, hcomma, hclosing]
  · exact digit_ne (digit_of_mem (List.mem_of_mem_head? hhead)) rfl rfl

end ConfigText

open ConfigText

/-! ### The text of `initAll` -/

/-- What `TransportManager::initAll` reads of a `ParticipantConfig`. -/
structure TransportConfig where
  udpPort : UInt16 := 0
  multicastGroup : Bytes := ascii ['2', '3', '9', '.', '2', '5', '5', '.', '0', '.', '1']
  multicastPort : UInt16 := 19900
  enableMulticast : Bool := true
  udpRecvBufferSize : UInt32 := 2048

namespace ConfigText

def portKey : Bytes := ascii ['p', 'o', 'r', 't']

def multicastGroupKey : Bytes :=
  ascii ['m', 'u', 'l', 't', 'i', 'c', 'a', 's', 't', '_', 'g', 'r', 'o', 'u', 'p']

def multicastPortKey : Bytes :=
  ascii ['m', 'u', 'l', 't', 'i', 'c', 'a', 's', 't', '_', 'p', 'o', 'r', 't']

def multicastEnabledKey : Bytes :=
  ascii ['m', 'u', 'l', 't', 'i', 'c', 'a', 's', 't', '_', 'e', 'n', 'a', 'b', 'l', 'e', 'd']

def udpRecvBufferSizeKey : Bytes :=
  ascii ['u', 'd', 'p', '_', 'r', 'e', 'c', 'v', '_', 'b', 'u', 'f', 'f', 'e', 'r', '_',
    's', 'i', 'z', 'e']

def shmNameKey : Bytes := ascii ['s', 'h', 'm', '_', 'n', 'a', 'm', 'e']

def shmSlotSizeKey : Bytes :=
  ascii ['s', 'h', 'm', '_', 's', 'l', 'o', 't', '_', 's', 'i', 'z', 'e']

def shmSlotCountKey : Bytes :=
  ascii ['s', 'h', 'm', '_', 's', 'l', 'o', 't', '_', 'c', 'o', 'u', 'n', 't']

/-- The keys that the transports look for. -/
def keys : List Bytes :=
  [portKey, multicastGroupKey, multicastPortKey, multicastEnabledKey, udpRecvBufferSizeKey,
    shmNameKey, shmSlotSizeKey, shmSlotCountKey]

end ConfigText

/-- The name of the inbox of a process, `initAll` of `transport_manager.cpp` and the default of
`ShmTransport::init`. -/
def shmName (pid : Nat) : Bytes :=
  ascii ['e', 'm', 'q', '_', 's', 'h', 'm', '_'] ++ decimal pid

namespace TransportConfig

def fields (config : TransportConfig) (pid : UInt64) : List Field :=
  [{ name := portKey, value := decimal config.udpPort.toNat },
    { name := multicastGroupKey, value := config.multicastGroup, quoted := true },
    { name := multicastPortKey, value := decimal config.multicastPort.toNat },
    { name := multicastEnabledKey, value := ascii [if config.enableMulticast then '1' else '0'] },
    { name := udpRecvBufferSizeKey, value := decimal config.udpRecvBufferSize.toNat },
    { name := shmNameKey, value := shmName pid.toNat, quoted := true }]

/-- The text that every transport is initialised with. -/
def text (config : TransportConfig) (pid : UInt64) : Bytes := render (config.fields pid)

end TransportConfig

/-! ### Reading it -/

/-- The members of `UdpTransport` that the text sets. -/
structure UdpTransport.Settings where
  localPort : UInt16 := 0
  multicastGroup : Bytes := ascii ['2', '3', '9', '.', '2', '5', '5', '.', '0', '.', '1']
  multicastPort : UInt16 := 19900
  multicastEnabled : Bool := true
  recvBufferSize : UInt32 := 65536

namespace UdpTransport

/-- A cast of an `int` to `uint16_t`. -/
def toUInt16 (i : Int) : UInt16 := UInt16.ofNat (i % 2 ^ 16).toNat

/-- A number that is there and in range, else the old one. -/
def readPort (text : Bytes) (old : UInt16) : UInt16 :=
  if text.isEmpty then old else ((stoi text).map toUInt16).getD old

def parseConfig (width : SizeT) (cfg : Bytes) (s : Settings) : Settings where
  localPort := readPort (extract cfg portKey) s.localPort
  multicastGroup :=
    if (extract cfg multicastGroupKey).isEmpty then s.multicastGroup
    else extract cfg multicastGroupKey
  multicastPort := readPort (extract cfg multicastPortKey) s.multicastPort
  multicastEnabled :=
    if (extract cfg multicastEnabledKey).isEmpty then s.multicastEnabled
    else extract cfg multicastEnabledKey != ascii ['0']
  recvBufferSize :=
    if (extract cfg udpRecvBufferSizeKey).isEmpty then s.recvBufferSize
    else
      match stoul width (extract cfg udpRecvBufferSizeKey) with
      | some n => if 64 ≤ UInt32.ofNat n then UInt32.ofNat n else s.recvBufferSize
      | none => s.recvBufferSize

end UdpTransport

/-- The members of `ShmTransport` that the text sets. -/
structure ShmTransport.Settings where
  name : Bytes := []
  slotSize : UInt32 := 4096
  slotCount : UInt32 := 256

namespace ShmTransport

/-- A number that is there and in range, else the old one. -/
def readSize (width : SizeT) (text : Bytes) (old : UInt32) : UInt32 :=
  if text.isEmpty then old else ((stoul width text).map UInt32.ofNat).getD old

/-- The start of `ShmTransport::init`. -/
def parseConfig (width : SizeT) (pid : UInt64) (cfg : Bytes) (s : Settings) : Settings where
  name := if (extract cfg shmNameKey).isEmpty then shmName pid.toNat else extract cfg shmNameKey
  slotSize :=
    let slotSize := readSize width (extract cfg shmSlotSizeKey) s.slotSize
    if slotSize < 64 then 64 else slotSize
  slotCount :=
    let slotCount := readSize width (extract cfg shmSlotCountKey) s.slotCount
    if slotCount < 2 then 2 else slotCount

end ShmTransport

namespace TransportConfig

variable {config : TransportConfig} {pid : UInt64} {key : Bytes}

theorem isValue_shmName (pid : Nat) : IsValue (shmName pid) := by
  refine ⟨fun c hc => ?_, by simp [shmName, ascii, blank]⟩
  obtain hc | hc := List.mem_append.mp hc
  · have hprefix : IsValue (ascii ['e', 'm', 'q', '_', 's', 'h', 'm', '_']) := by decide
    exact hprefix.1 c hc
  · exact (isValue_decimal pid).1 c hc

/-- The name of the segment is none of the keys. -/
theorem shmName_ne {pid : Nat} (hkey : key ∈ keys) :
    shmName pid ≠ key := by
  have hhead : (shmName pid).head? = some 0x65 := rfl
  rintro rfl
  have hkeys : ∀ key ∈ keys, key.head? ≠ some 0x65 := by decide
  exact hkeys _ hkey hhead

theorem keys_isKey (hkey : key ∈ keys) : IsKey key := by
  revert key
  decide

theorem fields_wellFormed (hgroup : IsValue config.multicastGroup) :
    ∀ f ∈ config.fields pid, f.WellFormed := by
  have hflag : IsValue (ascii [if config.enableMulticast then '1' else '0']) := by
    cases config.enableMulticast <;> decide
  intro f hf
  simp only [fields, List.mem_cons, List.not_mem_nil, or_false] at hf
  obtain rfl | rfl | rfl | rfl | rfl | rfl := hf
  · exact ⟨keys_isKey (by decide : portKey ∈ keys), isValue_decimal _⟩
  · exact ⟨keys_isKey (by decide : multicastGroupKey ∈ keys), hgroup⟩
  · exact ⟨keys_isKey (by decide : multicastPortKey ∈ keys), isValue_decimal _⟩
  · exact ⟨keys_isKey (by decide : multicastEnabledKey ∈ keys), hflag⟩
  · exact ⟨keys_isKey (by decide : udpRecvBufferSizeKey ∈ keys), isValue_decimal _⟩
  · exact ⟨keys_isKey (by decide : shmNameKey ∈ keys), isValue_shmName pid.toNat⟩

/-- A key is read by looking its field up. -/
theorem extract_text (hkey : key ∈ keys) (hgroup : IsValue config.multicastGroup)
    (hother : key ≠ multicastGroupKey → config.multicastGroup ≠ key) :
    extract (config.text pid) key =
      (((config.fields pid).find? fun f => f.name = key).map Field.value).getD [] := by
  refine extract_render (keys_isKey hkey) (fields_wellFormed hgroup) fun f hf hname hquoted => ?_
  simp only [fields, List.mem_cons, List.not_mem_nil, or_false] at hf
  obtain rfl | rfl | rfl | rfl | rfl | rfl := hf
  · cases hquoted
  · exact hother (Ne.symm hname)
  · cases hquoted
  · cases hquoted
  · cases hquoted
  · exact shmName_ne hkey

theorem readPort_decimal (n old : UInt16) :
    UdpTransport.readPort (decimal n.toNat) old = n := by
  have hlt : n.toNat < 65536 := n.toNat_lt
  have hcast : UdpTransport.toUInt16 (n.toNat : Int) = n := by
    rw [UdpTransport.toUInt16, Int.emod_eq_of_lt (by omega) (by omega), Int.toNat_natCast,
      UInt16.ofNat_toNat]
  rw [UdpTransport.readPort, if_neg (by simp [decimal_ne_nil]), stoi_decimal (by omega),
    Option.map_some, Option.getD_some, hcast]

/-- The group is read back exactly if it is a value and not empty. -/
theorem multicastGroup_read_iff (width : SizeT) (config : TransportConfig) (pid : UInt64) :
    (UdpTransport.parseConfig width (config.text pid) {}).multicastGroup = config.multicastGroup ↔
      IsValue config.multicastGroup ∧ config.multicastGroup ≠ [] := by
  simp only [UdpTransport.parseConfig]
  constructor
  · intro hread
    split at hread
    · rw [← hread]
      decide
    · rename_i hnil
      rw [← hread]
      exact ⟨isValue_extract _ _, by simpa using hnil⟩
  · rintro ⟨hgroup, hnil⟩
    have hextract : extract (config.text pid) multicastGroupKey = config.multicastGroup :=
      extract_text (by decide) hgroup (absurd rfl)
    rw [hextract, if_neg (by simpa using hnil)]

/-- Whatever the configuration is, the group is read back exactly if it is a value and not empty;
and if it is a value, but none of the keys, then everything is read back, except that a receive
buffer of less than 64 bytes leaves the default in place. -/
theorem text_read_back (width : SizeT) (config : TransportConfig) (pid : UInt64) :
    ((UdpTransport.parseConfig width (config.text pid) {}).multicastGroup = config.multicastGroup ↔
      IsValue config.multicastGroup ∧ config.multicastGroup ≠ []) ∧
    (IsValue config.multicastGroup → config.multicastGroup ∉ keys →
      UdpTransport.parseConfig width (config.text pid) {} =
        { localPort := config.udpPort
          multicastGroup :=
            if config.multicastGroup = [] then ({} : UdpTransport.Settings).multicastGroup
            else config.multicastGroup
          multicastPort := config.multicastPort
          multicastEnabled := config.enableMulticast
          recvBufferSize :=
            if 64 ≤ config.udpRecvBufferSize then config.udpRecvBufferSize else 65536 } ∧
      ShmTransport.parseConfig width pid (config.text pid) {} =
        { name := shmName pid.toNat, slotSize := 4096, slotCount := 256 }) := by
  refine ⟨multicastGroup_read_iff width config pid, fun hgroup hkeys => ?_⟩
  have hread : ∀ key ∈ keys, extract (config.text pid) key =
      (((config.fields pid).find? fun f => f.name = key).map Field.value).getD [] :=
    fun key hkey => extract_text hkey hgroup fun _ heq => hkeys (heq ▸ hkey)
  have hport : extract (config.text pid) portKey = decimal config.udpPort.toNat :=
    hread _ (by decide)
  have hmulticastGroup : extract (config.text pid) multicastGroupKey = config.multicastGroup :=
    hread _ (by decide)
  have hmulticastPort : extract (config.text pid) multicastPortKey =
      decimal config.multicastPort.toNat := hread _ (by decide)
  have hmulticastEnabled : extract (config.text pid) multicastEnabledKey =
      ascii [if config.enableMulticast then '1' else '0'] := hread _ (by decide)
  have hbuffer : extract (config.text pid) udpRecvBufferSizeKey =
      decimal config.udpRecvBufferSize.toNat := hread _ (by decide)
  have hname : extract (config.text pid) shmNameKey = shmName pid.toNat :=
    hread _ (by decide)
  have hslotSize : extract (config.text pid) shmSlotSizeKey = [] := hread _ (by decide)
  have hslotCount : extract (config.text pid) shmSlotCountKey = [] := hread _ (by decide)
  have hempty : ∀ n, (decimal n).isEmpty = false := fun n => by simp [decimal_ne_nil]
  constructor
  · have hflag : ((ascii [if config.enableMulticast then '1' else '0']).isEmpty = false) ∧
        (ascii [if config.enableMulticast then '1' else '0'] != ascii ['0']) =
          config.enableMulticast := by
      cases config.enableMulticast <;> decide
    simp only [UdpTransport.parseConfig, hport, hmulticastGroup, hmulticastPort, hmulticastEnabled,
      hbuffer, readPort_decimal, hflag, hempty, stoul_decimal config.udpRecvBufferSize.toNat_lt,
      UInt32.ofNat_toNat, List.isEmpty_iff, Bool.false_eq_true, if_false]
  · have hfirst : (shmName pid.toNat).isEmpty = false := rfl
    simp only [ShmTransport.parseConfig, hname, hslotSize, hslotCount, hfirst,
      ShmTransport.readSize, Bool.false_eq_true, if_false]
    rfl

end TransportConfig

end EmbedMq
