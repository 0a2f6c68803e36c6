import TheSix.Tier.Oxigraph

/-!
# Hexadecimal transport

`hex_decode` takes its text two bytes at a time and reads each byte as a character. Here it does so
too, with `none` for an index out of bounds. It never is, and the decoder accepts exactly the texts
of even length whose bytes are digits, whatever their case (`hex_transport`).

A text is given by its bytes, and a byte above 127 of a longer character is no digit.
-/

namespace TheSix

namespace L5OxigraphBackend

/-! ## The decoder -/

/-- `chunks(2)`. -/
def chunks : List UInt8 → List (List UInt8)
  | hi :: lo :: rest => [hi, lo] :: chunks rest
  | [hi] => [[hi]]
  | [] => []

/-- The loop of `hex_decode`. -/
def decodeChunks : List (List UInt8) → Option (Except CacheError (List UInt8))
  | [] => some (.ok [])
  | pair :: rest => do
    match toDigit (← pair[0]?) with
    | none => return .error .serializationFailed
    | some hi =>
      match toDigit (← pair[1]?) with
      | none => return .error .serializationFailed
      | some lo => return (← decodeChunks rest).map (UInt8.ofNat (hi <<< 4 ||| lo) :: ·)

/-- `hex_decode`, in chunks. -/
def hexDecodeChunks (text : List UInt8) : Option (Except CacheError (List UInt8)) :=
  if text.length % 2 ≠ 0 then some (.error .serializationFailed) else decodeChunks (chunks text)

/-- A hexadecimal digit, of either case. -/
def IsHexDigit (c : UInt8) : Prop :=
  ('0'.toUInt8 ≤ c ∧ c ≤ '9'.toUInt8) ∨ ('a'.toUInt8 ≤ c ∧ c ≤ 'f'.toUInt8) ∨
    ('A'.toUInt8 ≤ c ∧ c ≤ 'F'.toUInt8)

/-- `u8::to_ascii_lowercase`. -/
def toAsciiLowercase (c : UInt8) : UInt8 :=
  if 'A'.toUInt8 ≤ c ∧ c ≤ 'Z'.toUInt8 then c + 32 else c

/-! ## Digits -/

theorem isHexDigit_iff_toNat {c : UInt8} : IsHexDigit c ↔ (48 ≤ c.toNat ∧ c.toNat ≤ 57) ∨
    (97 ≤ c.toNat ∧ c.toNat ≤ 102) ∨ (65 ≤ c.toNat ∧ c.toNat ≤ 70) := Iff.rfl

theorem isHexDigit_iff {c : UInt8} : IsHexDigit c ↔ ∃ d, toDigit c = some d := by
  rw [isHexDigit_iff_toNat, toDigit]
  split_ifs with hdecimal hlower hupper
  · exact iff_of_true (.inl hdecimal) ⟨_, rfl⟩
  · exact iff_of_true (.inr (.inl hlower)) ⟨_, rfl⟩
  · exact iff_of_true (.inr (.inr hupper)) ⟨_, rfl⟩
  · exact iff_of_false (by tauto) (by simp)

theorem toNat_toAsciiLowercase (c : UInt8) : (toAsciiLowercase c).toNat =
    if 65 ≤ c.toNat ∧ c.toNat ≤ 90 then c.toNat + 32 else c.toNat := by
  have hupper : ('A'.toUInt8 ≤ c ∧ c ≤ 'Z'.toUInt8) ↔ (65 ≤ c.toNat ∧ c.toNat ≤ 90) := Iff.rfl
  unfold toAsciiLowercase
  simp only [hupper]
  split_ifs with h
  · have hadd : (c + 32).toNat = (c.toNat + 32) % 256 := UInt8.toNat_add c 32
    omega
  · rfl

/-- A digit is the one of its value, in lower case. -/
theorem hexDigit_of_toDigit {c : UInt8} {d : ℕ} (h : toDigit c = some d) :
    d < 16 ∧ hexDigit d = toAsciiLowercase c := by
  have hvalue : (48 ≤ c.toNat ∧ c.toNat ≤ 57 ∧ d = c.toNat - 48) ∨
      (97 ≤ c.toNat ∧ c.toNat ≤ 102 ∧ d = c.toNat - 87) ∨
        (65 ≤ c.toNat ∧ c.toNat ≤ 70 ∧ d = c.toNat - 55) := by
    unfold toDigit at h
    split_ifs at h <;> cases h <;> omega
  refine ⟨by omega, UInt8.toNat_inj.mp ?_⟩
  rw [toNat_toAsciiLowercase, hexDigit, UInt8.toNat_ofNat']
  split_ifs <;> omega

/-! ## The chunks -/

/-- **No index of the decoder is out of bounds**, and it decodes pair by pair. -/
theorem decodeChunks_chunks {text : List UInt8} (heven : text.length % 2 = 0) :
    decodeChunks (chunks text) = some (hexPairs text) := by
  induction text using List.twoStepInduction with
  | nil => rfl
  | singleton hi => simp at heven
  | cons_cons hi lo rest ih _ =>
    rw [List.length_cons, List.length_cons] at heven
    have hrest := ih (by omega)
    cases hhi : toDigit hi with
    | none => simp [chunks, decodeChunks, hexPairs, hhi]
    | some h =>
      cases hlo : toDigit lo with
      | none => simp [chunks, decodeChunks, hexPairs, hhi, hlo]
      | some l =>
        have hbyte : h <<< 4 ||| l = 16 * h + l := by
          have hlt : l < 2 ^ 4 := (hexDigit_of_toDigit hlo).1
          rw [← Nat.shiftLeft_add_eq_or_of_lt hlt, Nat.shiftLeft_eq]
          omega
        rw [chunks, decodeChunks]
        simp only [List.getElem?_cons_zero, List.getElem?_cons_succ, hhi, hlo, hrest, hbyte,
          hexPairs, Option.bind_eq_bind, Option.bind_some, Option.pure_def]

theorem hexDecodeChunks_eq (text : List UInt8) : hexDecodeChunks text = some (hexDecode text) := by
  unfold hexDecodeChunks hexDecode
  split_ifs with hodd
  · rfl
  · exact decodeChunks_chunks (Decidable.not_not.1 hodd)

/-! ## What is accepted -/

theorem hexEncode_cons (b : UInt8) (bytes : List UInt8) : hexEncode (b :: bytes) =
    hexDigit (b.toNat / 16) :: hexDigit (b.toNat % 16) :: hexEncode bytes := rfl

/-- A pair is decoded when both are digits. -/
theorem hexPairs_cons_eq_ok {hi lo : UInt8} {rest bytes : List UInt8} :
    hexPairs (hi :: lo :: rest) = .ok bytes ↔ ∃ h l more, toDigit hi = some h ∧
      toDigit lo = some l ∧ hexPairs rest = .ok more ∧ UInt8.ofNat (16 * h + l) :: more = bytes := by
  cases hhi : toDigit hi with
  | none => simp [hexPairs, hhi]
  | some h =>
    cases hlo : toDigit lo with
    | none => simp [hexPairs, hhi, hlo]
    | some l => cases hrest : hexPairs rest <;> simp [hexPairs, hhi, hlo, hrest, Except.map]

/-- Digits are decoded. -/
theorem hexPairs_of_digits {text : List UInt8} (hdigits : ∀ c ∈ text, IsHexDigit c) :
    ∃ bytes, hexPairs text = .ok bytes := by
  induction text using List.twoStepInduction with
  | nil => exact ⟨[], rfl⟩
  | singleton hi => exact ⟨[], rfl⟩
  | cons_cons hi lo rest ih _ =>
    obtain ⟨h, hhi⟩ := isHexDigit_iff.1 (hdigits hi (by simp))
    obtain ⟨l, hlo⟩ := isHexDigit_iff.1 (hdigits lo (by simp))
    obtain ⟨bytes, hrest⟩ := ih fun c hc => hdigits c (by simp [hc])
    exact ⟨_, hexPairs_cons_eq_ok.2 ⟨h, l, bytes, hhi, hlo, hrest, rfl⟩⟩

/-- What is decoded are digits, the ones of the bytes but for the case. -/
theorem digits_of_hexPairs {text bytes : List UInt8} (heven : text.length % 2 = 0)
    (h : hexPairs text = .ok bytes) :
    (∀ c ∈ text, IsHexDigit c) ∧ hexEncode bytes = text.map toAsciiLowercase := by
  induction text using List.twoStepInduction generalizing bytes with
  | nil =>
    cases h
    exact ⟨by simp, rfl⟩
  | singleton hi => simp at heven
  | cons_cons hi lo rest ih _ =>
    rw [List.length_cons, List.length_cons] at heven
    obtain ⟨x, y, more, hhi, hlo, hrest, rfl⟩ := hexPairs_cons_eq_ok.1 h
    obtain ⟨hdigits, hlower⟩ := ih (by omega) hrest
    obtain ⟨hx, hxdigit⟩ := hexDigit_of_toDigit hhi
    obtain ⟨hy, hydigit⟩ := hexDigit_of_toDigit hlo
    have hbyte : (UInt8.ofNat (16 * x + y)).toNat = 16 * x + y := by
      rw [UInt8.toNat_ofNat']
      omega
    have hhigh : (16 * x + y) / 16 = x := by omega
    have hlow : (16 * x + y) % 16 = y := by omega
    constructor
    · intro c hc
      rcases List.mem_cons.1 hc with rfl | hc
      · exact isHexDigit_iff.2 ⟨x, hhi⟩
      · rcases List.mem_cons.1 hc with rfl | hc
        · exact isHexDigit_iff.2 ⟨y, hlo⟩
        · exact hdigits c hc
    · rw [hexEncode_cons, hbyte, hhigh, hlow, hxdigit, hydigit, hlower]
      rfl

/-- **Hexadecimal transport is lossless and strict.** Bytes come back; a text is accepted exactly
when its length is even and it has nothing but digits; an accepted text is the encoding of its bytes
but for the case; and no text takes an index out of bounds. -/
theorem hex_transport :
    (∀ bytes, hexDecodeChunks (hexEncode bytes) = some (.ok bytes)) ∧
    (∀ text, (∃ bytes, hexDecodeChunks text = some (.ok bytes)) ↔
      text.length % 2 = 0 ∧ ∀ c ∈ text, IsHexDigit c) ∧
    (∀ text bytes, hexDecodeChunks text = some (.ok bytes) →
      hexEncode bytes = text.map toAsciiLowercase) ∧
    ∀ text, hexDecodeChunks text ≠ none := by
  -- an accepted text has even length, and is decoded pair by pair
  have hpairs : ∀ {text bytes}, hexDecodeChunks text = some (.ok bytes) →
      text.length % 2 = 0 ∧ hexPairs text = .ok bytes := by
    intro text bytes h
    rw [hexDecodeChunks_eq, Option.some.injEq, hexDecode] at h
    split_ifs at h with hodd
    exact ⟨Decidable.not_not.1 hodd, h⟩
  refine ⟨fun bytes => ?_, fun text => ⟨?_, ?_⟩, fun text bytes h => ?_, fun text => ?_⟩
  · rw [hexDecodeChunks_eq, hexDecode_hexEncode]
  · rintro ⟨bytes, h⟩
    obtain ⟨heven, h⟩ := hpairs h
    exact ⟨heven, (digits_of_hexPairs heven h).1⟩
  · rintro ⟨heven, hdigits⟩
    obtain ⟨bytes, h⟩ := hexPairs_of_digits hdigits
    refine ⟨bytes, ?_⟩
    rw [hexDecodeChunks_eq, hexDecode, if_neg (by omega), h]
  · obtain ⟨heven, h⟩ := hpairs h
    exact (digits_of_hexPairs heven h).2
  · rw [hexDecodeChunks_eq]
    exact Option.some_ne_none _

end L5OxigraphBackend

end TheSix
