import Inks.Httpd.Spelling

/-
  What `decode_percent` computes, and that it reads nothing
  past the length that it is given.

  Key definitions include:
    * `Hlpr.decodeAt`
    * `Hlpr.LegalByte`
    * `Hlpr.DecodesExactly`

  Key theorems include:
    * `Hlpr.decodeAt_eq`
    * `Hlpr.decode_percent_exact`
-/

------------------------------------------------------------
-- Reading Memory
------------------------------------------------------------

namespace Inks

namespace Hlpr

/- A read at a position; past the length there is none. -/
def read
    (mem : ByteString)
    (len i : Nat) : Option UInt8 :=
  if i < len then mem[i]? else none

/-
  The loop of `decode_percent` over a pointer into memory,
  with the comparisons of pointers that the source makes. A
  read past the length ends it without a result.
-/
def decodeAt
    (flags : Flags)
    (mem : ByteString)
    (len : Nat)
    (src : Nat)
    (res : ByteString) : Option (Bool × ByteString) :=
  if src < len then do
    let c ← read mem len src
    if c = Ascii.percent then
      if len - src < 3 then
        return (false, res)
      else
        let h ← read mem len (src + 1)
        let l ← read mem len (src + 2)
        if char2hex h < 0 ∨ char2hex l < 0 then
          return (false, res)
        else
          let decoded :=
            UInt8.ofNat
              ((char2hex h).toNat <<< 4 |||
                (char2hex l).toNat)
          if decoded = Ascii.slash then
            if flags.slash then
              decodeAt flags mem len (src + 3)
                (res ++ [decoded])
            else
              decodeAt flags mem len (src + 3)
                (res ++ [c, h, l])
          else
            decodeAt flags mem len (src + 3)
              (res ++ [decoded])
    else if c = Ascii.plus ∧ flags.space then
      decodeAt flags mem len (src + 1)
        (res ++ [Ascii.space])
    else
      decodeAt flags mem len (src + 1) (res ++ [c])
  else
    return (true, res)
termination_by len - src

/- What follows the string in memory is not read. -/
theorem read_append
    (src after : ByteString)
    (i : Nat) :
    read (src ++ after) src.length i = src[i]? := by
  unfold read
  split
  · rename_i hLt
    exact List.getElem?_append_left hLt
  · rename_i hNot
    exact (List.getElem?_eq_none (Nat.not_lt.mp hNot)).symm

end Hlpr

end Inks

------------------------------------------------------------
-- No Read Past the End
------------------------------------------------------------

namespace Inks

namespace Hlpr

/- The bytes from a position on, when there are some. -/
theorem drop_eq_cons
    {src rest : ByteString}
    {c : UInt8}
    {pos : Nat}
    (hDrop : src.drop pos = c :: rest) :
    pos < src.length ∧ src[pos]? = some c ∧
      src.drop (pos + 1) = rest := by
  have hHead : (src.drop pos)[0]? = some c := by
    rw [hDrop]
    rfl
  have hTail : (src.drop pos).drop 1 = rest := by
    rw [hDrop]
    rfl
  rw [List.getElem?_drop, Nat.add_zero] at hHead
  rw [List.drop_drop] at hTail
  exact
    ⟨(List.getElem?_eq_some_iff.mp hHead).1, hHead, hTail⟩

/- What a round does when there is room for an escape. -/
theorem decodeAt_escape
    (flags : Flags)
    {src rest : ByteString}
    {h l : UInt8}
    {pos : Nat}
    (after res : ByteString)
    (hLeft : src.drop pos = Ascii.percent :: h :: l :: rest) :
    src.drop (pos + 3) = rest ∧
      decodeAt flags (src ++ after) src.length pos res =
        if char2hex h < 0 ∨ char2hex l < 0 then
          some (false, res)
        else
          let decoded :=
            UInt8.ofNat
              ((char2hex h).toNat <<< 4 |||
                (char2hex l).toNat)
          if decoded = Ascii.slash then
            if flags.slash then
              decodeAt flags (src ++ after) src.length
                (pos + 3) (res ++ [decoded])
            else
              decodeAt flags (src ++ after) src.length
                (pos + 3) (res ++ [Ascii.percent, h, l])
          else
            decodeAt flags (src ++ after) src.length
              (pos + 3) (res ++ [decoded]) := by
  rcases drop_eq_cons hLeft with ⟨hHere, hFirst, hNext⟩
  rcases drop_eq_cons hNext with ⟨_, hHigh, hNext⟩
  rcases drop_eq_cons hNext with ⟨hIn, hLow, hRest⟩
  have hRoom : ¬ src.length - pos < 3 := by omega
  refine ⟨hRest, ?_⟩
  rw [decodeAt, if_pos hHere]
  simp only [read_append, hFirst, hHigh, hLow, if_neg hRoom,
    Option.bind_eq_bind, Option.bind_some, if_true]
  rfl

/- What a round does with a byte that begins no escape. -/
theorem decodeAt_byte
    (flags : Flags)
    {src rest : ByteString}
    {c : UInt8}
    {pos : Nat}
    (after res : ByteString)
    (hLeft : src.drop pos = c :: rest)
    (hByte : c ≠ Ascii.percent) :
    src.drop (pos + 1) = rest ∧
      decodeAt flags (src ++ after) src.length pos res =
        if c = Ascii.plus ∧ flags.space then
          decodeAt flags (src ++ after) src.length (pos + 1)
            (res ++ [Ascii.space])
        else
          decodeAt flags (src ++ after) src.length (pos + 1)
            (res ++ [c]) := by
  rcases drop_eq_cons hLeft with ⟨hHere, hFirst, hNext⟩
  refine ⟨hNext, ?_⟩
  rw [decodeAt, if_pos hHere]
  simp only [read_append, hFirst, Option.bind_eq_bind,
    Option.bind_some, if_neg hByte]

/- What a round does when there is no room for an escape. -/
theorem decodeAt_short
    (flags : Flags)
    {src left : ByteString}
    {pos : Nat}
    (after res : ByteString)
    (hLeft : src.drop pos = Ascii.percent :: left)
    (hShort : ∀ h l rest, left = h :: l :: rest → False) :
    decodeAt flags (src ++ after) src.length pos res =
      some (false, res) := by
  rcases drop_eq_cons hLeft with ⟨hHere, hFirst, hNext⟩
  have hLength : left.length < 2 := by
    match left, hShort with
    | [], _ => simp
    | [_], _ => simp
    | h :: l :: rest, hShort =>
        exact absurd rfl (hShort h l rest)
  rw [← hNext, List.length_drop] at hLength
  have hRoom : src.length - pos < 3 := by omega
  rw [decodeAt, if_pos hHere]
  simp only [read_append, hFirst, if_pos hRoom,
    Option.bind_eq_bind, Option.bind_some, if_true]
  rfl

/-
  The loop over memory gets to a result, and to the one of
  the loop over the bytes that are left.
-/
theorem decodeAt_eq
    (flags : Flags)
    (src after left res : ByteString)
    (pos : Nat)
    (hLeft : src.drop pos = left) :
    decodeAt flags (src ++ after) src.length pos res =
      some (decodeLoop flags left res) := by
  fun_induction decodeLoop flags left res generalizing pos
    with
  | case1 res =>
      have hEnd : ¬ pos < src.length :=
        Nat.not_lt.mpr (List.drop_eq_nil_iff.mp hLeft)
      rw [decodeAt, if_neg hEnd]
      rfl
  | case2 res h l rest hBad =>
      rw [(decodeAt_escape flags after res hLeft).2,
        if_pos hBad]
  | case3 res h l rest hDigits decoded hSlash hFlag ih =>
      rcases decodeAt_escape flags after res hLeft with
        ⟨hRest, hRound⟩
      rw [hRound, if_neg hDigits, ← ih (pos + 3) hRest]
      exact (if_pos hSlash).trans (if_pos hFlag)
  | case4 res h l rest hDigits decoded hSlash hFlag ih =>
      rcases decodeAt_escape flags after res hLeft with
        ⟨hRest, hRound⟩
      rw [hRound, if_neg hDigits, ← ih (pos + 3) hRest]
      exact (if_pos hSlash).trans (if_neg hFlag)
  | case5 res h l rest hDigits decoded hOther ih =>
      rcases decodeAt_escape flags after res hLeft with
        ⟨hRest, hRound⟩
      rw [hRound, if_neg hDigits, ← ih (pos + 3) hRest]
      exact if_neg hOther
  | case6 left res hShort =>
      exact decodeAt_short flags after res hLeft hShort
  | case7 c left res hByte hPlus ih =>
      rcases decodeAt_byte flags after res hLeft hByte with
        ⟨hNext, hRound⟩
      rw [hRound, if_pos hPlus, ← ih (pos + 1) hNext]
  | case8 c left res hByte hOther ih =>
      rcases decodeAt_byte flags after res hLeft hByte with
        ⟨hNext, hRound⟩
      rw [hRound, if_neg hOther, ← ih (pos + 1) hNext]

end Hlpr

end Inks

------------------------------------------------------------
-- Exactness
------------------------------------------------------------

namespace Inks

namespace Hlpr

/- The bytes that stand for themselves under some flags. -/
def LegalByte
    (flags : Flags)
    (c : UInt8) : Prop :=
  c ≠ Ascii.percent ∧ (flags.space = true → c ≠ Ascii.plus)

/-
  Decoding accepts what can be cut into pieces, gives what
  the pieces stand for, reads nothing past the length and,
  with the slash flag, undoes every legal way of writing.
-/
structure DecodesExactly
    (flags : Flags)
    (src : ByteString) : Prop where
  accepts :
    (decodePercent src flags).1 = true ↔
      ∃ pieces, src = written pieces
  decodes :
    ∀ pieces, src = written pieces →
      (decodePercent src flags).2 = meaning flags pieces
  inBounds :
    ∀ after,
      decodeAt flags (src ++ after) src.length 0 [] =
        some (decodePercent src flags)
  inverts :
    flags.slash = true → ∀ t,
      Spelling (LegalByte flags) flags.space t src →
      decodePercent src flags = (true, t)

theorem decode_percent_exact
    (flags : Flags)
    (src : ByteString) :
    DecodesExactly flags src := by
  constructor
  · rw [decodePercent_ok_iff]
    exact wellFormed_iff_pieces
  · rintro pieces rfl
    rw [decodePercent_pieces]
  · intro after
    exact decodeAt_eq flags src after src [] 0 rfl
  · intro hSlash t hSpelling
    exact
      decodePercent_of_spelling _ hSpelling hSlash id
        (fun _ hLegal => hLegal)

/- Without the slash flag an escaped slash is kept. -/
example :
    decodePercent (text "a%2Fb%2b+") { space := true } =
      (true, text "a%2Fb+ ") := by
  decide

end Hlpr

end Inks
