import TreeWat.Proofs.Lower.Literals
set_option autoImplicit false

/-!
# Wat: the text of a string

The format of modules writes a string between quotes: characters in UTF-8, signs and
control codes behind a backslash, bytes as two hexadecimal digits, and characters by
their number.  `StringText` is that grammar as a relation between what is written and
the bytes it stands for.  A literal that the generator writes is of the grammar if and
only if its escapes are those of the language, and it then stands for as many bytes as
the layout of memory has counted.
-/

namespace TreeWat.Wat

/-! ## The grammar -/

/-- A hexadecimal number of the format, in which single underscores separate digits. -/
inductive HexNumber : Bytes → Nat → Prop where
  | digit {b : UInt8} {v : Nat} (isDigit : hexValue? b = some v) : HexNumber [b] v
  | next {text : Bytes} {n : Nat} {b : UInt8} {v : Nat} (before : HexNumber text n)
      (isDigit : hexValue? b = some v) : HexNumber (text ++ [b]) (16 * n + v)
  | separated {text : Bytes} {n : Nat} {b : UInt8} {v : Nat} (before : HexNumber text n)
      (isDigit : hexValue? b = some v) : HexNumber (text ++ [byte '_', b]) (16 * n + v)

/-- What may stand between the quotes of a string, and the bytes it stands for. -/
inductive StringText : Bytes → Bytes → Prop where
  | nil : StringText [] []
  | character {c : Char} {text bytes : Bytes} (visible : 32 ≤ c.toNat ∧ c.toNat ≠ 127)
      (unquoted : c ≠ '"' ∧ c ≠ '\\') (rest : StringText text bytes) :
      StringText (String.utf8EncodeChar c ++ text) (String.utf8EncodeChar c ++ bytes)
  | sign {b e : UInt8} {text bytes : Bytes} (isSign : escaped? b = some e)
      (rest : StringText text bytes) : StringText (byte '\\' :: b :: text) (e :: bytes)
  | number {b d : UInt8} {high low : Nat} {text bytes : Bytes}
      (isHigh : hexValue? b = some high) (isLow : hexValue? d = some low)
      (rest : StringText text bytes) :
      StringText (byte '\\' :: b :: d :: text) ((high * 16 + low).toUInt8 :: bytes)
  | scalar {c : Char} {digits text bytes : Bytes} (isNumber : HexNumber digits c.toNat)
      (rest : StringText text bytes) :
      StringText (byte '\\' :: byte 'u' :: byte '\x7b' :: (digits ++ byte '\x7d' :: text))
        (String.utf8EncodeChar c ++ bytes)

/-- Only the backslash is encoded with a backslash in front. -/
theorem utf8EncodeChar_ne_backslash {c : Char} (h : c ≠ '\\') {text rest : Bytes} :
    String.utf8EncodeChar c ++ text ≠ byte '\\' :: rest := by
  have hval : c.val.toNat ≠ 92 := by
    intro heq
    exact h (Char.toNat_inj.mp heq)
  have hbyte : ∀ n, n < 256 → UInt8.ofNat n = byte '\\' → n = 92 := by
    intro n hn heq
    have htoNat := congrArg UInt8.toNat heq
    rw [UInt8.toNat_ofNat', Nat.mod_eq_of_lt hn] at htoNat
    exact htoNat
  intro heq
  rw [String.utf8EncodeChar] at heq
  split at heq
  · exact hval (hbyte _ (by omega) (List.cons.inj heq).1)
  · split at heq
    · have := hbyte _ (by omega) (List.cons.inj heq).1
      omega
    · split at heq
      · have := hbyte _ (by omega) (List.cons.inj heq).1
        omega
      · have := hbyte _ (by omega) (List.cons.inj heq).1
        omega

/-- What may follow a backslash. -/
theorem StringText.backslash_cases {text bytes : Bytes}
    (h : StringText (byte '\\' :: text) bytes) :
    (∃ b e text' bytes', text = b :: text' ∧ bytes = e :: bytes' ∧ escaped? b = some e ∧
      StringText text' bytes') ∨
    (∃ b d high low text' bytes', text = b :: d :: text' ∧
      bytes = (high * 16 + low).toUInt8 :: bytes' ∧ hexValue? b = some high ∧
      hexValue? d = some low ∧ StringText text' bytes') ∨
    ∃ text', text = byte 'u' :: byte '\x7b' :: text' := by
  generalize hwhole : byte '\\' :: text = whole at h
  cases h with
  | nil => cases hwhole
  | character visible unquoted rest =>
    exact absurd hwhole.symm (utf8EncodeChar_ne_backslash unquoted.2)
  | sign isSign rest =>
    cases hwhole
    exact .inl ⟨_, _, _, _, rfl, rfl, isSign, rest⟩
  | number isHigh isLow rest =>
    cases hwhole
    exact .inr (.inl ⟨_, _, _, _, _, _, rfl, rfl, isHigh, isLow, rest⟩)
  | scalar isNumber rest =>
    cases hwhole
    exact .inr (.inr ⟨_, rfl⟩)

theorem stringText_nil_iff {bytes : Bytes} : StringText [] bytes ↔ bytes = [] := by
  constructor
  · intro h
    generalize hwhole : ([] : Bytes) = whole at h
    cases h with
    | nil => rfl
    | @character c _ _ visible unquoted rest =>
      have hlength := congrArg List.length hwhole
      rw [List.length_append, String.length_utf8EncodeChar, List.length_nil] at hlength
      have hpos := c.utf8Size_pos
      omega
    | sign | number | scalar => cases hwhole
  · rintro rfl
    exact .nil

/-! ## What the generator writes -/

/-- A byte written as a number stands for the byte. -/
theorem stringText_escapeByte_iff {b : UInt8} {text bytes : Bytes} :
    StringText (escapeByte b ++ text) bytes ↔ ∃ rest, bytes = b :: rest ∧ StringText text rest := by
  have hhigh := hexDigit_decodes (n := b.toNat / 16 % 16) (by omega)
  have hlow := hexDigit_decodes (n := b.toNat % 16) (by omega)
  show StringText (byte '\\' :: Bytes.hexDigit false (b.toNat / 16 % 16) ::
    Bytes.hexDigit false (b.toNat % 16) :: text) bytes ↔ _
  constructor
  · intro h
    obtain ⟨_, e, _, _, hcons, -, hsign, -⟩ | ⟨_, _, high, low, _, rest, hcons, rfl, hb, hd, htext⟩ |
      ⟨_, hcons⟩ := h.backslash_cases
    · cases hcons
      rw [hhigh.1] at hsign
      cases hsign
    · cases hcons
      rw [hhigh.2] at hb
      rw [hlow.2] at hd
      cases hb
      cases hd
      exact ⟨rest, by rw [toUInt8_digits], htext⟩
    · have hdigit : hexValue? (byte 'u') = none := by decide
      rw [(List.cons.inj hcons).1, hdigit] at hhigh
      cases hhigh.2
  · rintro ⟨rest, rfl, htext⟩
    have hnumber := StringText.number hhigh.2 hlow.2 htext
    rw [toUInt8_digits] at hnumber
    exact hnumber

/-- An escape is of the grammar if and only if it is one of the language, and then
stands for the same byte. -/
theorem stringText_escapePair_iff {c : UInt8} {raw bytes : Bytes} :
    StringText (escapePair c ++ escapeLiteral raw) bytes ↔
      ∃ e rest, Source.escape? c = some e ∧ bytes = e :: rest ∧
        StringText (escapeLiteral raw) rest := by
  obtain ⟨e, hescape, hpair⟩ | ⟨hsame, hpair⟩ := escapePair_cases c
  · rw [hpair, hescape, stringText_escapeByte_iff]
    simp
  rw [hpair, hsame]
  show StringText (byte '\\' :: c :: escapeLiteral raw) bytes ↔ _
  constructor
  · intro h
    obtain ⟨_, e, _, rest, hcons, rfl, hsign, htext⟩ | ⟨_, d, _, low, text, _, hcons, -, -, hd, -⟩ |
      ⟨text, hcons⟩ := h.backslash_cases
    · cases hcons
      exact ⟨e, rest, hsign, rfl, htext⟩
    · -- what follows begins with a backslash, which is no digit and opens no number
      have hdigit : hexValue? (byte '\\') = none := by decide
      obtain hnil | ⟨t, ht⟩ := escapeLiteral_start raw
      · rw [hnil] at hcons
        cases (List.cons.inj hcons).2
      · rw [ht] at hcons
        rw [← (List.cons.inj (List.cons.inj hcons).2).1, hdigit] at hd
        cases hd
    · obtain hnil | ⟨t, ht⟩ := escapeLiteral_start raw
      · rw [hnil] at hcons
        cases (List.cons.inj hcons).2
      · rw [ht] at hcons
        have hbrace : byte '\\' ≠ byte '\x7b' := by decide
        exact absurd (List.cons.inj (List.cons.inj hcons).2).1 hbrace
  · rintro ⟨e, rest, hsign, rfl, htext⟩
    exact .sign hsign htext

/-- A literal as the generator writes it stands for the bytes that it stands for in the
language. -/
theorem stringText_escapeLiteral_iff {raw bytes : Bytes} :
    StringText (escapeLiteral raw) bytes ↔ Source.literalBytes? raw = some bytes := by
  induction raw using escapeLiteral.induct generalizing bytes with
  | case1 =>
    rw [escapeLiteral, Source.literalBytes?, stringText_nil_iff, Option.some.injEq, eq_comm]
  | case2 b =>
    have hsingle : StringText (escapeByte b ++ []) bytes ↔ _ := stringText_escapeByte_iff
    rw [List.append_nil] at hsingle
    rw [escapeLiteral, Source.literalBytes?, hsingle]
    simp [stringText_nil_iff, eq_comm]
  | case3 c rest ih =>
    rw [escapeLiteral, if_pos rfl, Source.literalBytes?, if_pos rfl, stringText_escapePair_iff]
    cases Source.escape? c with
    | none => simp
    | some e =>
      rw [Option.map_eq_some_iff]
      constructor
      · rintro ⟨_, rest, hescape, rfl, htext⟩
        cases hescape
        exact ⟨rest, ih.mp htext, rfl⟩
      · rintro ⟨rest, htext, rfl⟩
        exact ⟨e, rest, rfl, rfl, ih.mpr htext⟩
  | case4 b c rest isPlain ih =>
    rw [escapeLiteral, if_neg isPlain, Source.literalBytes?, if_neg isPlain,
      stringText_escapeByte_iff, Option.map_eq_some_iff]
    constructor
    · rintro ⟨rest, rfl, htext⟩
      exact ⟨rest, ih.mp htext, rfl⟩
    · rintro ⟨rest, htext, rfl⟩
      exact ⟨rest, rfl, ih.mpr htext⟩

/-! ## Escapes from left to right -/

/-- Where a scan from the left can stand, if a backslash takes the byte behind it along. -/
inductive ScanAt (raw : Bytes) : Nat → Prop where
  | start : ScanAt raw 0
  | plain {i : Nat} {b : UInt8} (before : ScanAt raw i) (here : raw[i]? = some b)
      (isPlain : b ≠ byte '\\') : ScanAt raw (i + 1)
  | escape {i : Nat} {b : UInt8} (before : ScanAt raw i) (here : raw[i]? = some (byte '\\'))
      (behind : raw[i + 1]? = some b) : ScanAt raw (i + 2)

/-- Each backslash that starts an escape and is not the last byte stands in front of a
letter or sign of the language. -/
def EscapesKnown (raw : Bytes) : Prop :=
  ∀ i b, ScanAt raw i → raw[i]? = some (byte '\\') → raw[i + 1]? = some b →
    b ∈ utf8 "ntrbf\\\"'"

theorem escape?_isSome_iff (b : UInt8) :
    (Source.escape? b).isSome = true ↔ b ∈ utf8 "ntrbf\\\"'" := by
  have hbytes : utf8 "ntrbf\\\"'" = [byte 'n', byte 't', byte 'r', byte 'b', byte 'f',
    byte '\\', byte '"', byte '\''] := by decide
  rw [hbytes]
  unfold Source.escape?
  split_ifs <;> simp_all

section Scan

variable {b c : UInt8} {raw rest : Bytes}

theorem ScanAt.cons (isPlain : b ≠ byte '\\') {i : Nat} (h : ScanAt raw i) :
    ScanAt (b :: raw) (i + 1) := by
  induction h with
  | start => exact .plain .start rfl isPlain
  | plain _ here isPlain ih => exact .plain ih (by simpa using here) isPlain
  | escape _ here behind ih => exact .escape ih (by simpa using here) (by simpa using behind)

theorem ScanAt.cons_escape {i : Nat} (h : ScanAt raw i) :
    ScanAt (byte '\\' :: c :: raw) (i + 2) := by
  induction h with
  | start => exact .escape .start rfl rfl
  | plain _ here isPlain ih => exact .plain ih (by simpa using here) isPlain
  | escape _ here behind ih => exact .escape ih (by simpa using here) (by simpa using behind)

theorem ScanAt.of_cons (isPlain : b ≠ byte '\\') {j : Nat} (h : ScanAt (b :: raw) j) :
    j = 0 ∨ ∃ i, j = i + 1 ∧ ScanAt raw i := by
  induction h with
  | start => exact .inl rfl
  | plain _ here isOther ih =>
    obtain rfl | ⟨i, rfl, hi⟩ := ih
    · exact .inr ⟨0, rfl, .start⟩
    · exact .inr ⟨i + 1, rfl, .plain hi (by simpa using here) isOther⟩
  | escape _ here behind ih =>
    obtain rfl | ⟨i, rfl, hi⟩ := ih
    · exact absurd (by simpa using here) isPlain
    · exact .inr ⟨i + 2, rfl, .escape hi (by simpa using here) (by simpa using behind)⟩

theorem ScanAt.of_cons_escape {j : Nat} (h : ScanAt (byte '\\' :: c :: raw) j) :
    j = 0 ∨ ∃ i, j = i + 2 ∧ ScanAt raw i := by
  induction h with
  | start => exact .inl rfl
  | plain _ here isOther ih =>
    obtain rfl | ⟨i, rfl, hi⟩ := ih
    · exact absurd (by simpa [eq_comm] using here) isOther
    · exact .inr ⟨i + 1, rfl, .plain hi (by simpa using here) isOther⟩
  | escape _ here behind ih =>
    obtain rfl | ⟨i, rfl, hi⟩ := ih
    · exact .inr ⟨0, rfl, .start⟩
    · exact .inr ⟨i + 2, rfl, .escape hi (by simpa using here) (by simpa using behind)⟩

theorem escapesKnown_cons_iff (isPlain : b ≠ byte '\\') :
    EscapesKnown (b :: raw) ↔ EscapesKnown raw := by
  constructor
  · intro h i e hscan here behind
    exact h (i + 1) e (hscan.cons isPlain) (by simpa using here) (by simpa using behind)
  · intro h j e hscan here behind
    obtain rfl | ⟨i, rfl, hi⟩ := hscan.of_cons isPlain
    · exact absurd (by simpa using here) isPlain
    · exact h i e hi (by simpa using here) (by simpa using behind)

theorem escapesKnown_escape_iff :
    EscapesKnown (byte '\\' :: c :: raw) ↔
      c ∈ utf8 "ntrbf\\\"'" ∧ EscapesKnown raw := by
  constructor
  · intro h
    refine ⟨h 0 c .start rfl rfl, ?_⟩
    intro i e hscan here behind
    exact h (i + 2) e hscan.cons_escape (by simpa using here) (by simpa using behind)
  · rintro ⟨hc, h⟩ j e hscan here behind
    obtain rfl | ⟨i, rfl, hi⟩ := hscan.of_cons_escape
    · cases behind
      exact hc
    · exact h i e hi (by simpa using here) (by simpa using behind)

end Scan

/-- The literals of the language are those whose escapes are known. -/
theorem literalBytes?_isSome_iff (raw : Bytes) :
    (Source.literalBytes? raw).isSome = true ↔ EscapesKnown raw := by
  induction raw using escapeLiteral.induct with
  | case1 => simp [Source.literalBytes?, EscapesKnown]
  | case2 b =>
    refine iff_of_true rfl ?_
    intro i c _ here behind
    have hfirst := (List.getElem?_eq_some_iff.mp here).1
    have hsecond := (List.getElem?_eq_some_iff.mp behind).1
    simp only [List.length_singleton] at hfirst hsecond
    omega
  | case3 c rest ih =>
    rw [escapesKnown_escape_iff, ← escape?_isSome_iff, ← ih, Source.literalBytes?, if_pos rfl]
    cases Source.escape? c with
    | none => simp
    | some e => simp
  | case4 b c rest isPlain ih =>
    rw [escapesKnown_cons_iff isPlain, ← ih, Source.literalBytes?, if_neg isPlain,
      Option.isSome_map]

/-- A literal as the generator writes it is the text of a string if and only if each
backslash that starts an escape is the last byte or in front of a letter or sign of the
language; the string is then the literal with its escapes replaced, and as long as the
layout of memory takes it to be. -/
theorem escapeLiteral_valid (raw : Bytes) :
    ((∃ bytes, StringText (escapeLiteral raw) bytes) ↔ EscapesKnown raw) ∧
      ∀ bytes, StringText (escapeLiteral raw) bytes ↔
        Source.literalBytes? raw = some bytes ∧ bytes.length = literalLength raw := by
  constructor
  · rw [← literalBytes?_isSome_iff, Option.isSome_iff_exists]
    exact exists_congr fun _ => stringText_escapeLiteral_iff
  · intro bytes
    rw [stringText_escapeLiteral_iff]
    exact ⟨fun h => ⟨h, Source.literalBytes?_length h⟩, fun h => h.1⟩

end TreeWat.Wat
