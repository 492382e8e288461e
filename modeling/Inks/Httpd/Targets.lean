import Inks.Httpd.Spelling
import Inks.Httpd.UriParser
import Inks.Library.Split
import Mathlib.Data.List.TakeWhile

/-
  What the parser makes of a target, field by field, and the
  decoding of a path segment by segment: as long as escapes
  are well formed it is the decoding of the whole path, and
  a malformed escape hides the rest of its segment.

  Key definitions include:
    * `HttpUriParser.decodeSegments`

  Key theorems include:
    * `HttpUriParser.parse_eq`
    * `HttpUriParser.decodeSegments_written`
-/

------------------------------------------------------------
-- Targets
------------------------------------------------------------

namespace Inks

namespace ByteString

/- The text in front of a byte, and the text after it. -/
theorem find_spec
    (s : ByteString)
    (c : UInt8) :
    match s.find c with
    | none => s.takeWhile (· != c) = s ∧
        s.dropWhile (· != c) = []
    | some n => s.takeWhile (· != c) = s.take n ∧
        (s.dropWhile (· != c)).tail = s.drop (n + 1) := by
  have hTake : s.takeWhile (· != c) =
      s.take (s.findIdx (· == c)) := by
    simp [List.takeWhile_eq_take_findIdx_not, bne]
  have hDrop : s.dropWhile (· != c) =
      s.drop (s.findIdx (· == c)) := by
    simp [List.dropWhile_eq_drop_findIdx_not, bne]
  rw [hTake, hDrop]
  cases hFind : s.find c with
  | none =>
      have hEnd :=
        List.findIdx?_eq_none_iff_findIdx_eq.mp hFind
      simp [hEnd]
  | some n =>
      have hIndex :=
        (List.findIdx?_eq_some_iff_findIdx_eq.mp hFind).2
      simp [hIndex]

theorem all_ne
    {s : ByteString}
    {c : UInt8}
    (hNotMem : c ∉ s) :
    ∀ x ∈ s, (x != c) = true := by
  intro x hMem
  rw [bne_iff_ne]
  rintro rfl
  exact hNotMem hMem

end ByteString

namespace HttpUriParser

/- Split at slashes, decode each segment, and join. -/
def decodeSegments
    (rawPath : ByteString) : ByteString :=
  Split.mapParts (fun seg => (Hlpr.decodePath seg).2)
    Ascii.slash rawPath

theorem parsePath_eq
    (uri : HttpUri) :
    parsePath uri =
      (true,
        { uri with
          decodedPath := decodeSegments uri.rawPath }) :=
  rfl

theorem splitTarget_eq
    (tgt : ByteString) :
    splitTarget { target := tgt } =
      { target := tgt
        rawPath := tgt.takeWhile (· != Ascii.question)
        rawQuery :=
          (tgt.dropWhile (· != Ascii.question)).tail } := by
  have hSpec := ByteString.find_spec tgt Ascii.question
  unfold splitTarget
  cases hFind : ByteString.find tgt Ascii.question with
  | none =>
      rw [hFind] at hSpec
      simp [hSpec.1, hSpec.2]
  | some qpos =>
      rw [hFind] at hSpec
      simp [hSpec.1, hSpec.2]

/- Every field that the parser fills. -/
theorem parse_eq
    (tgt : ByteString) :
    parse tgt =
      (true,
        { target := tgt
          rawPath := tgt.takeWhile (· != Ascii.question)
          decodedPath :=
            decodeSegments
              (tgt.takeWhile (· != Ascii.question))
          rawQuery :=
            (tgt.dropWhile (· != Ascii.question)).tail
          queryParams :=
            (tokenize
              (tgt.dropWhile (· != Ascii.question)).tail
              [Ascii.ampersand]).map parseToken }) := by
  have hPath : decodeSegments [] = [] := by decide
  have hQuery : tokenize [] [Ascii.ampersand] = [] := by
    decide
  unfold parse parseI
  rw [splitTarget_eq]
  cases tgt with
  | nil => simp [hPath, hQuery]
  | cons c rest =>
      generalize (c :: rest).takeWhile
        (· != Ascii.question) = rawPath
      generalize ((c :: rest).dropWhile
        (· != Ascii.question)).tail = rawQuery
      cases rawPath <;> cases rawQuery <;>
        simp [parsePath_eq, parseQuery, hPath, hQuery]

/- The two parts of a target with a question mark. -/
theorem parse_query
    {path : ByteString}
    (hPath : Ascii.question ∉ path)
    (query : ByteString) :
    (parse (path ++ Ascii.question :: query)).2.decodedPath =
        decodeSegments path ∧
      (parse
          (path ++ Ascii.question :: query)).2.queryParams =
        (tokenize query [Ascii.ampersand]).map
          parseToken := by
  have hAll := ByteString.all_ne hPath
  rw [parse_eq]
  simp [List.takeWhile_append_of_pos hAll,
    List.dropWhile_append_of_pos hAll]

/- A target without a question mark is a path. -/
theorem parse_path
    {path : ByteString}
    (hPath : Ascii.question ∉ path) :
    (parse path).2.decodedPath = decodeSegments path := by
  have hAll := ByteString.all_ne hPath
  rw [parse_eq, List.takeWhile_eq_self_iff.mpr hAll]

end HttpUriParser

end Inks

------------------------------------------------------------
-- Decoding by Segments
------------------------------------------------------------

namespace Inks

/- The byte that a piece of a path stands for. -/
def Piece.pathByte : Piece → UInt8
| .byte c _ => c
| .escape h l => h.pair l

/- Under the flags of paths it stands for only that. -/
theorem Piece.meaning_path
    (piece : Piece) :
    piece.meaning { slash := true } = [piece.pathByte] := by
  cases piece <;> simp [Piece.meaning, Piece.pathByte]

theorem meaning_path
    (pieces : List Piece) :
    meaning { slash := true } pieces =
      pieces.map Piece.pathByte := by
  induction pieces with
  | nil => rfl
  | cons piece pieces ih =>
      rw [meaning_cons, piece.meaning_path, ih]
      rfl

/- No two hex digits begin the string. -/
def NoDigits
    (src : ByteString) : Prop :=
  ∀ (h l : HexDigit) rest, src ≠ h.char :: l.char :: rest

/- The first malformed escape and what follows it. -/
def MalformedAt
    (left : ByteString) : Prop :=
  ∃ rest, left = Ascii.percent :: rest ∧ NoDigits rest

/- A string begins with a piece or is malformed there. -/
theorem piece_cases
    (src : ByteString) :
    src = [] ∨ MalformedAt src ∨
      ∃ piece rest, src = Piece.written piece ++ rest := by
  cases src with
  | nil => exact Or.inl rfl
  | cons c rest =>
      by_cases hPercent : c = Ascii.percent
      · subst hPercent
        by_cases hBad : NoDigits rest
        · exact Or.inr (Or.inl ⟨rest, rfl, hBad⟩)
        · simp only [NoDigits, ne_eq, not_forall,
            not_not] at hBad
          rcases hBad with ⟨h, l, later, rfl⟩
          exact Or.inr (Or.inr ⟨.escape h l, later, rfl⟩)
      · exact
          Or.inr (Or.inr ⟨.byte c hPercent, rest, rfl⟩)

theorem Piece.written_length_pos
    (piece : Piece) :
    0 < piece.written.length := by
  cases piece <;> simp [Piece.written]

/- The pieces in front of the first malformed escape. -/
theorem exists_cut
    (src : ByteString) :
    ∃ pieces left, src = written pieces ++ left ∧
      (left = [] ∨ MalformedAt left) := by
  induction hLength : src.length using
    Nat.strong_induction_on generalizing src with
  | _ n ih =>
      rcases piece_cases src with
        rfl | hBad | ⟨piece, rest, rfl⟩
      · exact ⟨[], [], rfl, Or.inl rfl⟩
      · exact ⟨[], src, rfl, Or.inr hBad⟩
      · have hPos := piece.written_length_pos
        have hShorter : rest.length < n := by
          rw [← hLength, List.length_append]
          omega
        rcases ih rest.length hShorter rest rfl with
          ⟨pieces, left, rfl, hLeft⟩
        refine ⟨piece :: pieces, left, ?_, hLeft⟩
        rw [written_cons, List.append_assoc]

namespace Hlpr

/- The loop stops at a malformed escape. -/
theorem decodeLoop_malformed
    (flags : Flags)
    {left : ByteString}
    (hBad : MalformedAt left)
    (res : ByteString) :
    decodeLoop flags left res = (false, res) := by
  rcases hBad with ⟨rest, rfl, hDigits⟩
  rw [decodeLoop.eq_def]
  simp only [if_true]
  split
  · rename_i h l later
    rw [if_pos]
    by_contra hGood
    rw [not_or, char2hex_nonneg_iff,
      char2hex_nonneg_iff] at hGood
    exact hDigits ⟨h, hGood.1⟩ ⟨l, hGood.2⟩ later rfl
  · rfl

/- A piece in front of a string is decoded by itself. -/
theorem decodePercent_append
    (flags : Flags)
    (piece : Piece)
    (src : ByteString) :
    (decodePercent (piece.written ++ src) flags).2 =
      piece.meaning flags ++
        (decodePercent src flags).2 := by
  rcases exists_cut src with ⟨pieces, left, rfl, hLeft⟩
  simp only [decodePercent, decodeLoop_piece,
    decodeLoop_written, List.nil_append]
  rcases hLeft with rfl | hBad
  · simp [decodeLoop]
  · simp [decodeLoop_malformed flags hBad]

end Hlpr

namespace HttpUriParser

@[simp] theorem decodeSegments_nil :
    decodeSegments [] = [] := by
  decide

theorem slash_not_digit :
    ¬ IsHexDigit Ascii.slash := by
  decide

/- Decoding by segments takes a path piece by piece. -/
theorem decodeSegments_piece
    (piece : Piece)
    (raw : ByteString) :
    decodeSegments (piece.written ++ raw) =
      piece.pathByte :: decodeSegments raw := by
  by_cases hSlash : piece.written = [Ascii.slash]
  · have hByte : piece.pathByte = Ascii.slash := by
      cases piece <;> simp_all [Piece.written, Piece.pathByte]
    rw [hSlash, hByte, List.singleton_append,
      decodeSegments, Split.mapParts_sep]
    rfl
  · have hFront : Ascii.slash ∉ piece.written := by
      cases piece with
      | byte c hByte =>
          intro hMem
          apply hSlash
          rw [Piece.written, List.mem_singleton] at hMem
          rw [Piece.written, hMem]
      | escape h l =>
          have hHigh := h.ne_of_not_isDigit slash_not_digit
          have hLow := l.ne_of_not_isDigit slash_not_digit
          simp [Piece.written, hHigh, hLow]
          decide
    have hPart :
        ∀ part, (Hlpr.decodePath (piece.written ++ part)).2 =
          [piece.pathByte] ++ (Hlpr.decodePath part).2 := by
      intro part
      rw [← piece.meaning_path]
      exact Hlpr.decodePercent_append _ piece part
    exact
      Split.mapParts_of_prefix
        (f := fun seg => (Hlpr.decodePath seg).2)
        hFront hPart raw

theorem decodeSegments_written
    (pieces : List Piece)
    (raw : ByteString) :
    decodeSegments (written pieces ++ raw) =
      pieces.map Piece.pathByte ++ decodeSegments raw := by
  induction pieces with
  | nil => simp
  | cons piece pieces ih =>
      rw [written_cons, List.append_assoc,
        decodeSegments_piece, ih]
      rfl

/- A malformed escape hides what is left of its segment. -/
theorem decodeSegments_malformed
    {left : ByteString}
    (hBad : MalformedAt left) :
    decodeSegments left =
      decodeSegments
        (left.dropWhile (· != Ascii.slash)) := by
  rcases hBad with ⟨rest, rfl, hDigits⟩
  have hFront : Ascii.slash ∉ [Ascii.percent] := by decide
  have hSegment :
      MalformedAt
        ([Ascii.percent] ++
          rest.takeWhile (· != Ascii.slash)) := by
    refine ⟨_, rfl, ?_⟩
    intro h l later hEq
    have hPrefix :
        h.char :: l.char :: later <+: rest := by
      rw [← hEq]
      exact List.takeWhile_prefix _
    rcases hPrefix with ⟨after, rfl⟩
    exact hDigits h l (later ++ after) rfl
  have hSkip :
      (Hlpr.decodePath
        ([Ascii.percent] ++
          rest.takeWhile (· != Ascii.slash))).2 = [] := by
    rw [Hlpr.decodePath, Hlpr.decodePercent,
      Hlpr.decodeLoop_malformed _ hSegment]
  exact Split.mapParts_of_skip hFront rfl hSkip

end HttpUriParser

end Inks
