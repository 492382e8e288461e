import Inks.Httpd.Helper

/-
  Percent escapes, and that `decode_percent` accepts exactly
  the strings in which they are well formed.

  Key definitions include:
    * `IsHexDigit`
    * `WellFormed`

  Key theorems include:
    * `Hlpr.decodePercent_ok_iff`
-/

------------------------------------------------------------
-- Well-Formed Escapes
------------------------------------------------------------

namespace Inks

def IsHexDigit
    (c : UInt8) : Prop :=
  c ∈ text "0123456789abcdefABCDEF"

instance
    (c : UInt8) :
    Decidable (IsHexDigit c) := by
  unfold IsHexDigit
  infer_instance

/-
  A string that is cut from left to right into bytes other
  than `%` and escapes of `%` and two hex digits.
-/
inductive WellFormed : ByteString → Prop where
| nil : WellFormed []
| byte
    {c : UInt8}
    {rest : ByteString}
    (hByte : c ≠ Ascii.percent)
    (hRest : WellFormed rest) :
    WellFormed (c :: rest)
| escape
    {h l : UInt8}
    {rest : ByteString}
    (hHigh : IsHexDigit h)
    (hLow : IsHexDigit l)
    (hRest : WellFormed rest) :
    WellFormed (Ascii.percent :: h :: l :: rest)

theorem wellFormed_cons_iff
    {c : UInt8}
    {rest : ByteString}
    (hByte : c ≠ Ascii.percent) :
    WellFormed (c :: rest) ↔ WellFormed rest := by
  constructor
  · intro hFormed
    cases hFormed with
    | byte _ hRest => exact hRest
    | escape _ _ _ => exact absurd rfl hByte
  · exact WellFormed.byte hByte

theorem wellFormed_escape_iff
    {h l : UInt8}
    {rest : ByteString} :
    WellFormed (Ascii.percent :: h :: l :: rest) ↔
      (IsHexDigit h ∧ IsHexDigit l) ∧ WellFormed rest := by
  constructor
  · intro hFormed
    cases hFormed with
    | byte hByte _ => exact absurd rfl hByte
    | escape hHigh hLow hRest =>
        exact ⟨⟨hHigh, hLow⟩, hRest⟩
  · rintro ⟨⟨hHigh, hLow⟩, hRest⟩
    exact WellFormed.escape hHigh hLow hRest

/- An escape does not end early. -/
theorem not_wellFormed_short
    {src : ByteString}
    (hShort : ∀ h l rest, src = h :: l :: rest → False) :
    ¬ WellFormed (Ascii.percent :: src) := by
  intro hFormed
  cases hFormed with
  | byte hByte _ => exact hByte rfl
  | escape _ _ _ => exact hShort _ _ _ rfl

end Inks

------------------------------------------------------------
-- What Decoding Accepts
------------------------------------------------------------

namespace Inks

/- A byte is one of 256, and each is looked at. -/
theorem char2hex_nonneg_iff
    (c : UInt8) :
    ¬ char2hex c < 0 ↔ IsHexDigit c := by
  have hAll :
      ∀ n : Fin 256,
        ¬ char2hex (UInt8.ofNat n) < 0 ↔
          IsHexDigit (UInt8.ofNat n) := by
    decide +kernel
  simpa using hAll ⟨c.toNat, c.toNat_lt⟩

/- Two digits that `char2hex` knows make an escape. -/
theorem wellFormed_digits_iff
    {h l : UInt8}
    {rest : ByteString}
    (hDigits : ¬ (char2hex h < 0 ∨ char2hex l < 0)) :
    WellFormed (Ascii.percent :: h :: l :: rest) ↔
      WellFormed rest := by
  rw [wellFormed_escape_iff, ← char2hex_nonneg_iff,
    ← char2hex_nonneg_iff, ← not_or]
  exact and_iff_right hDigits

namespace Hlpr

/- The loop accepts what is left when it is well formed. -/
theorem decodeLoop_ok_iff
    (flags : Flags)
    (src res : ByteString) :
    (decodeLoop flags src res).1 = true ↔
      WellFormed src := by
  fun_induction decodeLoop flags src res with
  | case1 res => simp [WellFormed.nil]
  | case2 res h l rest hBad =>
      rw [wellFormed_escape_iff, ← char2hex_nonneg_iff,
        ← char2hex_nonneg_iff, ← not_or]
      simp [hBad]
  | case3 res h l rest hDigits decoded hSlash hFlag ih =>
      rw [wellFormed_digits_iff hDigits]
      exact ih
  | case4 res h l rest hDigits decoded hSlash hFlag ih =>
      rw [wellFormed_digits_iff hDigits]
      exact ih
  | case5 res h l rest hDigits decoded hOther ih =>
      rw [wellFormed_digits_iff hDigits]
      exact ih
  | case6 src res hShort =>
      simp [not_wellFormed_short hShort]
  | case7 c src res hByte hPlus ih =>
      rw [wellFormed_cons_iff hByte]
      exact ih
  | case8 c src res hByte hOther ih =>
      rw [wellFormed_cons_iff hByte]
      exact ih

theorem decodePercent_ok_iff
    (src : ByteString)
    (flags : Flags) :
    (decodePercent src flags).1 = true ↔
      WellFormed src :=
  decodeLoop_ok_iff flags src []

end Hlpr

end Inks
