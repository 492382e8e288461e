import Inks.Httpd.Escapes

/-
  Percent encoding, apart from the decoder: the pieces that
  an encoded string is cut into, what each of them means,
  and the ways in which a string can be written.

  Key definitions include:
    * `Piece`
    * `Piece.written`, `Piece.meaning`
    * `Spelling`

  Key theorems include:
    * `wellFormed_iff_pieces`
    * `Hlpr.decodePercent_pieces`
    * `Hlpr.decodePercent_of_spelling`
-/

------------------------------------------------------------
-- Pieces
------------------------------------------------------------

namespace Inks

/- A hex digit, in either letter case. -/
structure HexDigit where
  char : UInt8
  isDigit : IsHexDigit char
deriving DecidableEq

namespace HexDigit

/- A bit tells the cases of a letter apart; digits have it. -/
def lower
    (d : HexDigit) : UInt8 :=
  d.char ||| 0x20

def value
    (d : HexDigit) : Nat :=
  (text "0123456789abcdef").idxOf d.lower

/- The byte that two digits encode. -/
def pair
    (h l : HexDigit) : UInt8 :=
  UInt8.ofNat (16 * h.value + l.value)

end HexDigit

/-
  A piece of an encoded string: a byte other than `%`, or an
  escape of `%` and two hex digits.
-/
inductive Piece where
| byte (c : UInt8) (hByte : c ≠ Ascii.percent)
| escape (h l : HexDigit)
deriving DecidableEq

namespace Piece

def written : Piece → ByteString
| .byte c _ => [c]
| .escape h l => [Ascii.percent, h.char, l.char]

/-
  What a piece stands for: a plus is a space under the space
  flag, and without the slash flag an escaped slash stays as
  it is written.
-/
def meaning
    (flags : Hlpr.Flags) : Piece → ByteString
| .byte c _ =>
    if c = Ascii.plus ∧ flags.space then
      [Ascii.space]
    else
      [c]
| .escape h l =>
    if h.pair l = Ascii.slash ∧ ¬ flags.slash then
      [Ascii.percent, h.char, l.char]
    else
      [h.pair l]

end Piece

/- The string that is cut into some pieces. -/
def written
    (pieces : List Piece) : ByteString :=
  pieces.flatMap Piece.written

/- What the pieces stand for, one after the other. -/
def meaning
    (flags : Hlpr.Flags)
    (pieces : List Piece) : ByteString :=
  pieces.flatMap (Piece.meaning flags)

@[simp] theorem written_nil :
    written [] = [] := rfl

@[simp] theorem written_cons
    (piece : Piece)
    (pieces : List Piece) :
    written (piece :: pieces) =
      piece.written ++ written pieces := rfl

@[simp] theorem meaning_nil
    (flags : Hlpr.Flags) :
    meaning flags [] = [] := rfl

@[simp] theorem meaning_cons
    (flags : Hlpr.Flags)
    (piece : Piece)
    (pieces : List Piece) :
    meaning flags (piece :: pieces) =
      piece.meaning flags ++ meaning flags pieces := rfl

/- A string is well formed when it can be cut into pieces. -/
theorem wellFormed_iff_pieces
    {src : ByteString} :
    WellFormed src ↔ ∃ pieces, src = written pieces := by
  constructor
  · intro hFormed
    induction hFormed with
    | nil => exact ⟨[], rfl⟩
    | byte hByte _ ih =>
        rcases ih with ⟨pieces, rfl⟩
        exact ⟨.byte _ hByte :: pieces, rfl⟩
    | escape hHigh hLow _ ih =>
        rcases ih with ⟨pieces, rfl⟩
        exact ⟨.escape ⟨_, hHigh⟩ ⟨_, hLow⟩ :: pieces, rfl⟩
  · rintro ⟨pieces, rfl⟩
    induction pieces with
    | nil => exact WellFormed.nil
    | cons piece pieces ih =>
        cases piece with
        | byte c hByte => exact WellFormed.byte hByte ih
        | escape h l =>
            exact WellFormed.escape h.isDigit l.isDigit ih

end Inks

------------------------------------------------------------
-- Hex Digits
------------------------------------------------------------

namespace Inks

namespace HexDigit

/- A byte is one of 256, and each is looked at. -/
theorem char2hex_eq
    (d : HexDigit) :
    char2hex d.char = d.value := by
  have hAll :
      ∀ n : Fin 256, IsHexDigit (UInt8.ofNat n) →
        char2hex (UInt8.ofNat n) =
          (text "0123456789abcdef").idxOf
            (UInt8.ofNat n ||| 0x20) := by
    decide +kernel
  have hDigit := hAll ⟨d.char.toNat, d.char.toNat_lt⟩
  simp only [UInt8.ofNat_toNat] at hDigit
  exact hDigit d.isDigit

theorem value_lt
    (d : HexDigit) :
    d.value < 16 := by
  have hAll :
      ∀ n : Fin 256, IsHexDigit (UInt8.ofNat n) →
        (text "0123456789abcdef").idxOf
            (UInt8.ofNat n ||| 0x20) < 16 := by
    decide +kernel
  have hDigit := hAll ⟨d.char.toNat, d.char.toNat_lt⟩
  simp only [UInt8.ofNat_toNat] at hDigit
  exact hDigit d.isDigit

/- The shift and the disjunction of the code. -/
theorem decoded_eq_pair
    (h l : HexDigit) :
    UInt8.ofNat
        ((char2hex h.char).toNat <<< 4 |||
          (char2hex l.char).toNat) =
      h.pair l := by
  rw [char2hex_eq, char2hex_eq, Int.toNat_natCast,
    Int.toNat_natCast]
  have hLow : l.value < 2 ^ 4 := l.value_lt
  rw [← Nat.shiftLeft_add_eq_or_of_lt hLow,
    Nat.shiftLeft_eq, Nat.mul_comm]
  rfl

theorem ne_of_not_isDigit
    (d : HexDigit)
    {c : UInt8}
    (hNot : ¬ IsHexDigit c) :
    c ≠ d.char := by
  rintro rfl
  exact hNot d.isDigit

theorem not_neg
    (h l : HexDigit) :
    ¬ (char2hex h.char < 0 ∨ char2hex l.char < 0) := by
  rw [char2hex_eq, char2hex_eq]
  omega

end HexDigit

end Inks

------------------------------------------------------------
-- Decoding Pieces
------------------------------------------------------------

namespace Inks

namespace Hlpr

/- A round of the loop takes one piece. -/
theorem decodeLoop_piece
    (flags : Flags)
    (piece : Piece)
    (rest res : ByteString) :
    decodeLoop flags (piece.written ++ rest) res =
      decodeLoop flags rest
        (res ++ piece.meaning flags) := by
  cases piece with
  | byte c hByte =>
      simp only [Piece.written, List.singleton_append,
        Piece.meaning]
      rw [decodeLoop.eq_def]
      simp only [if_neg hByte]
      split <;> rfl
  | escape h l =>
      simp only [Piece.written, List.cons_append,
        List.nil_append, Piece.meaning]
      rw [decodeLoop, if_pos rfl]
      simp only [HexDigit.not_neg, HexDigit.decoded_eq_pair]
      by_cases hSlash : h.pair l = Ascii.slash
      · cases flags.slash <;> simp [hSlash]
      · simp [hSlash]

/- So the loop takes a string piece by piece. -/
theorem decodeLoop_written
    (flags : Flags)
    (pieces : List Piece)
    (rest res : ByteString) :
    decodeLoop flags (written pieces ++ rest) res =
      decodeLoop flags rest
        (res ++ meaning flags pieces) := by
  induction pieces generalizing res with
  | nil => simp
  | cons piece pieces ih =>
      rw [written_cons, List.append_assoc,
        decodeLoop_piece, ih, meaning_cons,
        List.append_assoc]

theorem decodePercent_pieces
    (flags : Flags)
    (pieces : List Piece) :
    decodePercent (written pieces) flags =
      (true, meaning flags pieces) := by
  have hLoop := decodeLoop_written flags pieces [] []
  rw [List.append_nil, List.nil_append] at hLoop
  rw [decodePercent, hLoop, decodeLoop]

end Hlpr

end Inks

------------------------------------------------------------
-- Spellings
------------------------------------------------------------

namespace Inks

/-
  `Spelling Literal plusForSpace t src` says that `src` is a
  way to write `t`: a byte with `Literal` may stand as it
  is, each byte may be an escape, and where `plusForSpace`
  allows it a space may be a plus.
-/
inductive Spelling
    (Literal : UInt8 → Prop)
    (plusForSpace : Bool) :
    ByteString → ByteString → Prop where
| nil : Spelling Literal plusForSpace [] []
| literal
    {c : UInt8}
    {t src : ByteString}
    (hLiteral : Literal c)
    (hRest : Spelling Literal plusForSpace t src) :
    Spelling Literal plusForSpace (c :: t) (c :: src)
| escape
    (h l : HexDigit)
    {t src : ByteString}
    (hRest : Spelling Literal plusForSpace t src) :
    Spelling Literal plusForSpace (h.pair l :: t)
      (Ascii.percent :: h.char :: l.char :: src)
| plus
    {t src : ByteString}
    (hPlus : plusForSpace = true)
    (hRest : Spelling Literal plusForSpace t src) :
    Spelling Literal plusForSpace (Ascii.space :: t)
      (Ascii.plus :: src)

namespace Spelling

variable {Literal : UInt8 → Prop}
variable {plusForSpace : Bool}
variable {t src : ByteString}

/- An escape of a byte that is known to be encoded. -/
theorem escape_as
    {h l : HexDigit}
    {c : UInt8}
    (hPair : h.pair l = c)
    (hRest : Spelling Literal plusForSpace t src) :
    Spelling Literal plusForSpace (c :: t)
      (Ascii.percent :: h.char :: l.char :: src) := by
  subst hPair
  exact Spelling.escape h l hRest

/-
  The pieces of a spelling mean what is spelled, under flags
  for which literal bytes mean themselves.
-/
theorem exists_pieces
    (flags : Hlpr.Flags)
    (hSpelling : Spelling Literal plusForSpace t src)
    (hSlash : flags.slash = true)
    (hSpace : plusForSpace = true → flags.space = true)
    (hLiteral :
      ∀ c, Literal c →
        c ≠ Ascii.percent ∧
          (flags.space = true → c ≠ Ascii.plus)) :
    ∃ pieces, src = written pieces ∧
      meaning flags pieces = t := by
  induction hSpelling with
  | nil => exact ⟨[], rfl, rfl⟩
  | literal hByte _ ih =>
      rcases ih with ⟨pieces, rfl, rfl⟩
      rcases hLiteral _ hByte with ⟨hPercent, hPlus⟩
      refine ⟨.byte _ hPercent :: pieces, rfl, ?_⟩
      have hPlain :
          ¬ (_ = Ascii.plus ∧ flags.space = true) :=
        fun hBoth => hPlus hBoth.2 hBoth.1
      simp [Piece.meaning, hPlain]
  | escape h l _ ih =>
      rcases ih with ⟨pieces, rfl, rfl⟩
      refine ⟨.escape h l :: pieces, rfl, ?_⟩
      simp [Piece.meaning, hSlash]
  | plus hPlus _ ih =>
      rcases ih with ⟨pieces, rfl, rfl⟩
      refine ⟨.byte Ascii.plus (by decide) :: pieces,
        rfl, ?_⟩
      simp [Piece.meaning, hSpace hPlus]

/- A byte that is never written does not occur. -/
theorem notMem
    {c : UInt8}
    (hSpelling : Spelling Literal plusForSpace t src)
    (hLiteral : ¬ Literal c)
    (hPercent : c ≠ Ascii.percent)
    (hDigit : ¬ IsHexDigit c)
    (hPlus : c ≠ Ascii.plus) :
    c ∉ src := by
  induction hSpelling with
  | nil => simp
  | literal hByte _ ih =>
      have hNe : c ≠ _ := fun hEq => hLiteral (hEq ▸ hByte)
      simp [hNe, ih]
  | escape h l _ ih =>
      have hHigh := h.ne_of_not_isDigit hDigit
      have hLow := l.ne_of_not_isDigit hDigit
      simp [hPercent, hHigh, hLow, ih]
  | plus _ _ ih => simp [hPlus, ih]

theorem eq_nil_iff
    (hSpelling : Spelling Literal plusForSpace t src) :
    src = [] ↔ t = [] := by
  cases hSpelling <;> simp

end Spelling

/- Decoding undoes a spelling. -/
theorem Hlpr.decodePercent_of_spelling
    {Literal : UInt8 → Prop}
    {plusForSpace : Bool}
    {t src : ByteString}
    (flags : Hlpr.Flags)
    (hSpelling : Spelling Literal plusForSpace t src)
    (hSlash : flags.slash = true)
    (hSpace : plusForSpace = true → flags.space = true)
    (hLiteral :
      ∀ c, Literal c →
        c ≠ Ascii.percent ∧
          (flags.space = true → c ≠ Ascii.plus)) :
    Hlpr.decodePercent src flags = (true, t) := by
  rcases hSpelling.exists_pieces flags hSlash hSpace
      hLiteral with
    ⟨pieces, rfl, rfl⟩
  exact Hlpr.decodePercent_pieces flags pieces

end Inks
