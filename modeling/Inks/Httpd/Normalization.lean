import Inks.Foundation.CanonicalPath
import Inks.Httpd.Selection
import Inks.Httpd.Targets

/-
  Whether the decoded path is normalized, as the comment on
  its field says. The parser includes the function for it
  but never calls it, so dots and repeated slashes stay, and
  also those that were written with escapes.

  Key definitions include:
    * `IsNormalized`
    * `marks`
    * `PlainTarget`
    * `HttpRouter.RoutesNormalized`

  Key theorems include:
    * `map_mark_decodeSegments`
    * `isNormalized_iff_plainTarget`
    * `pathNormalize_of_isNormalized`
    * `HttpRouter.routes_normalized_iff`
-/

------------------------------------------------------------
-- Normalized Paths and Plain Targets
------------------------------------------------------------

namespace Inks

/-
  No segment is `.` or `..`, and only the first and the last
  one may be empty.
-/
def PlainSegments
    {T : Type*}
    (dot : T)
    (segments : List (List T)) : Prop :=
  (∀ segment ∈ segments,
      segment ≠ [dot] ∧ segment ≠ [dot, dot]) ∧
    ∀ segment ∈ segments.tail.dropLast, segment ≠ []

def IsNormalized
    (path : ByteString) : Prop :=
  PlainSegments Ascii.dot (path.splitOn Ascii.slash)

/- What matters of a byte of a path. -/
inductive Mark where
| slash
| dot
| other
deriving DecidableEq, Repr

def mark
    (c : UInt8) : Mark :=
  if c = Ascii.slash then
    .slash
  else if c = Ascii.dot then
    .dot
  else
    .other

/- The byte of two hex digits, and what follows them. -/
def escaped : ByteString → Option (UInt8 × ByteString)
| h :: l :: rest =>
    if hDigits : IsHexDigit h ∧ IsHexDigit l then
      some
        (HexDigit.pair ⟨h, hDigits.1⟩ ⟨l, hDigits.2⟩, rest)
    else
      none
| _ => none

theorem length_of_escaped
    {src later : ByteString}
    {c : UInt8}
    (hEscaped : escaped src = some (c, later)) :
    later.length < src.length := by
  unfold escaped at hEscaped
  split at hEscaped
  · split at hEscaped
    · cases hEscaped
      simp only [List.length_cons]
      omega
    · cases hEscaped
  · cases hEscaped

/-
  The slashes and dots in a raw path, written as they are or
  as escapes. What follows a malformed escape is left out up
  to the next slash that is written as it is.
-/
def marks
    (raw : ByteString) : List Mark :=
  match raw with
  | [] => []
  | c :: rest =>
      if c = Ascii.percent then
        match _hEscaped : escaped rest with
        | some (decoded, later) => mark decoded :: marks later
        | none => marks (rest.dropWhile (· != Ascii.slash))
      else
        mark c :: marks rest
termination_by raw.length
decreasing_by
  · have hLt := length_of_escaped _hEscaped
    simp only [List.length_cons]
    omega
  · have hLe :=
      (List.dropWhile_suffix (l := rest)
        (· != Ascii.slash)).length_le
    simp only [List.length_cons]
    omega
  · simp

/-
  The path of a target has no dot segment and no repeated
  slash, however its dots and slashes are written.
-/
def PlainTarget
    (tgt : ByteString) : Prop :=
  PlainSegments .dot
    ((marks (tgt.takeWhile (· != Ascii.question))).splitOn
      .slash)

end Inks

------------------------------------------------------------
-- Marks of the Decoded Path
------------------------------------------------------------

namespace Inks

theorem mark_eq_slash_iff
    (c : UInt8) :
    mark c = .slash ↔ c = Ascii.slash := by
  unfold mark
  split
  · simp_all
  · split <;> simp_all

theorem mark_eq_dot_iff
    (c : UInt8) :
    mark c = .dot ↔ c = Ascii.dot := by
  unfold mark
  split
  · rename_i hSlash
    subst hSlash
    decide
  · split <;> simp_all

theorem escaped_char
    (h l : HexDigit)
    (rest : ByteString) :
    escaped (h.char :: l.char :: rest) =
      some (h.pair l, rest) := by
  unfold escaped
  exact dif_pos ⟨h.isDigit, l.isDigit⟩

theorem escaped_eq_none
    {src : ByteString}
    (hDigits : NoDigits src) :
    escaped src = none := by
  unfold escaped
  split
  · rename_i h l rest
    rw [dif_neg]
    rintro ⟨hHigh, hLow⟩
    exact hDigits ⟨h, hHigh⟩ ⟨l, hLow⟩ rest rfl
  · rfl

@[simp] theorem marks_nil :
    marks [] = [] := by
  rw [marks]

theorem marks_piece
    (piece : Piece)
    (raw : ByteString) :
    marks (piece.written ++ raw) =
      mark piece.pathByte :: marks raw := by
  cases piece with
  | byte c hByte =>
      rw [Piece.written, List.singleton_append, marks,
        if_neg hByte]
      rfl
  | escape h l =>
      rw [Piece.written, List.cons_append, marks,
        if_pos rfl]
      simp only [List.cons_append, List.nil_append]
      split
      · rename_i decoded later hEscaped
        rw [escaped_char] at hEscaped
        cases hEscaped
        rfl
      · rename_i hEscaped
        rw [escaped_char] at hEscaped
        cases hEscaped

theorem dropWhile_percent
    (rest : ByteString) :
    (Ascii.percent :: rest).dropWhile (· != Ascii.slash) =
      rest.dropWhile (· != Ascii.slash) := by
  have hNe : ¬ Ascii.percent = Ascii.slash := by decide
  simp [hNe]

theorem marks_malformed
    {left : ByteString}
    (hBad : MalformedAt left) :
    marks left =
      marks (left.dropWhile (· != Ascii.slash)) := by
  rcases hBad with ⟨rest, rfl, hDigits⟩
  rw [marks, if_pos rfl, dropWhile_percent]
  split
  · rename_i decoded later hEscaped
    rw [escaped_eq_none hDigits] at hEscaped
    cases hEscaped
  · rfl

namespace HttpUriParser

/-
  The decoded path has the marks of the raw path: decoding
  reads off each escape and skips what follows a malformed
  one, and joining puts the literal slashes back.
-/
theorem map_mark_decodeSegments
    (raw : ByteString) :
    (decodeSegments raw).map mark = marks raw := by
  induction hLength : raw.length using
    Nat.strong_induction_on generalizing raw with
  | _ n ih =>
      rcases piece_cases raw with
        rfl | hBad | ⟨piece, rest, rfl⟩
      · simp
      · have hShorter :
            (raw.dropWhile (· != Ascii.slash)).length <
              n := by
          rcases hBad with ⟨rest, rfl, _⟩
          have hLe :=
            (List.dropWhile_suffix (l := rest)
              (· != Ascii.slash)).length_le
          rw [dropWhile_percent, ← hLength, List.length_cons]
          omega
        rw [decodeSegments_malformed hBad,
          marks_malformed hBad]
        exact ih _ hShorter _ rfl
      · have hPos := piece.written_length_pos
        have hShorter : rest.length < n := by
          rw [← hLength, List.length_append]
          omega
        rw [decodeSegments_piece, marks_piece,
          List.map_cons, ih _ hShorter rest rfl]

end HttpUriParser

theorem map_mark_eq_dots_iff
    (segment : ByteString)
    (n : Nat) :
    segment.map mark = List.replicate n .dot ↔
      segment = List.replicate n Ascii.dot := by
  rw [List.eq_replicate_iff, List.eq_replicate_iff,
    List.length_map, List.forall_mem_map]
  simp only [mark_eq_dot_iff]

/- Plain segments are told by their marks. -/
theorem plainSegments_map_mark
    (segments : List ByteString) :
    PlainSegments .dot (segments.map (List.map mark)) ↔
      PlainSegments Ascii.dot segments := by
  have hOne : ∀ segment : ByteString,
      segment.map mark = [.dot] ↔ segment = [Ascii.dot] :=
    fun segment => map_mark_eq_dots_iff segment 1
  have hTwo : ∀ segment : ByteString,
      segment.map mark = [.dot, .dot] ↔
        segment = [Ascii.dot, Ascii.dot] :=
    fun segment => map_mark_eq_dots_iff segment 2
  unfold PlainSegments
  rw [← List.map_tail, ← List.map_dropLast,
    List.forall_mem_map, List.forall_mem_map]
  simp only [ne_eq, hOne, hTwo, List.map_eq_nil_iff]

theorem isNormalized_iff_plainTarget
    (tgt : ByteString) :
    IsNormalized (HttpUriParser.parse tgt).2.decodedPath ↔
      PlainTarget tgt := by
  have hSlash : mark Ascii.slash = .slash := by decide
  have hSep :
      ∀ c, mark c = mark Ascii.slash → c = Ascii.slash := by
    intro c hMark
    rw [hSlash] at hMark
    exact (mark_eq_slash_iff c).mp hMark
  rw [HttpUriParser.parse_eq, PlainTarget, ← hSlash,
    ← HttpUriParser.map_mark_decodeSegments,
    Split.splitOn_map hSep, plainSegments_map_mark]
  rfl

end Inks

------------------------------------------------------------
-- Normal Forms of Normalized Paths
------------------------------------------------------------

namespace Inks

/- Tokens that are not dots all become segments. -/
theorem pathNormalize_of_tokens
    {body : ByteString}
    (hTokens :
      ∀ token ∈ Split.tokens Ascii.slash body,
        token ≠ [Ascii.dot] ∧
          token ≠ [Ascii.dot, Ascii.dot]) :
    pathNormalize Ascii.dot (Ascii.slash :: body)
        Ascii.slash =
      Ascii.slash ::
        [Ascii.slash].intercalate
          (Split.tokens Ascii.slash body) := by
  have hMoves :
      (Split.tokens Ascii.slash body).filterMap
          (PathNormalize.move Ascii.dot) =
        (Split.tokens Ascii.slash body).map
          Directory.Move.down := by
    rw [← List.filterMap_eq_map]
    apply List.filterMap_congr
    intro token hMem
    have hNonempty := (Split.mem_tokens hMem).1
    have hDots := hTokens token hMem
    simp [PathNormalize.move, hNonempty, hDots]
  rw [NormalPath.render_ofPath]
  simp [NormalPath.render, NormalPath.ofPath,
    NormalPath.segments, PathNormalize.moves_eq,
    Split.tokens_sep, hMoves, Directory.walk_down]

/-
  A normalized path from the root is its own normal form, up
  to a slash at its end.
-/
theorem pathNormalize_of_isNormalized
    {path : ByteString}
    (hRoot : path.head? = some Ascii.slash)
    (hPlain : IsNormalized path) :
    (path = [Ascii.slash] ∧
        pathNormalize Ascii.dot path Ascii.slash = path) ∨
      ((pathNormalize Ascii.dot path Ascii.slash).getLast? ≠
          some Ascii.slash ∧
        (path = pathNormalize Ascii.dot path Ascii.slash ∨
          path =
            pathNormalize Ascii.dot path Ascii.slash ++
              [Ascii.slash])) := by
  rcases List.head?_eq_some_iff.mp hRoot with ⟨body, rfl⟩
  rcases List.eq_nil_or_concat'
      (body.splitOn Ascii.slash) with
    hNil | ⟨init, last, hParts⟩
  · exact absurd hNil (List.splitOn_ne_nil _ body)
  rw [IsNormalized, Split.splitOn_sep, hParts] at hPlain
  rcases hPlain with ⟨hDots, hNonempty⟩
  have hInit : ∀ segment ∈ init, segment ≠ [] := by
    simpa using hNonempty
  have hTokens :
      Split.tokens Ascii.slash body =
        init ++ if last = [] then [] else [last] := by
    rw [Split.tokens, hParts, List.filter_append,
      List.filter_eq_self.mpr (by simpa using hInit)]
    cases last <;> simp
  have hNormal :
      pathNormalize Ascii.dot (Ascii.slash :: body)
          Ascii.slash =
        Ascii.slash ::
          [Ascii.slash].intercalate
            (Split.tokens Ascii.slash body) := by
    apply pathNormalize_of_tokens
    intro token hMem
    apply hDots token
    rw [← hParts]
    exact List.mem_cons_of_mem _ (List.mem_filter.mp hMem).1
  have hBody :
      body = [Ascii.slash].intercalate (init ++ [last]) := by
    rw [← hParts, List.intercalate_splitOn]
  have hEnd :
      Split.tokens Ascii.slash body ≠ [] →
        (Ascii.slash :: [Ascii.slash].intercalate
          (Split.tokens Ascii.slash body)).getLast? ≠
            some Ascii.slash := by
    intro hSome
    exact
      Split.getLast?_intercalate_ne hSome
        (fun token => Split.mem_tokens)
  rw [hNormal]
  rw [hTokens] at hEnd ⊢
  by_cases hLast : last = []
  · subst hLast
    rw [if_pos rfl, List.append_nil] at hEnd ⊢
    by_cases hOnly : init = []
    · refine Or.inl ⟨?_, ?_⟩
      · simp [hBody, hOnly]
      · simp [hBody, hOnly]
    · refine Or.inr ⟨hEnd hOnly, Or.inr ?_⟩
      rw [hBody, Split.intercalate_concat hOnly,
        List.cons_append]
  · rw [if_neg hLast] at hEnd ⊢
    refine Or.inr ⟨hEnd (by simp), Or.inl ?_⟩
    rw [← hBody]

namespace HttpRouter

/- A path without the slash at its end, if it has one. -/
def withoutSlash
    (path : ByteString) : ByteString :=
  if 1 < path.length ∧ path.getLast? = some Ascii.slash then
    path.dropLast
  else
    path

/-
  Two paths lead to one handler, up to a slash at the end,
  and whole targets do when both have the slash or neither.
-/
def SameHandler
    (router : HttpRouter)
    (factory : HttpHandlerFactory)
    (t₁ t₂ : ByteString) : Prop :=
  let d₁ := (HttpUriParser.parse t₁).2.decodedPath
  let d₂ := (HttpUriParser.parse t₂).2.decodedPath
  router.findHandler factory (withoutSlash d₁) =
      router.findHandler factory (withoutSlash d₂) ∧
    ((d₁.getLast? = some Ascii.slash ↔
        d₂.getLast? = some Ascii.slash) →
      ∃ handler, Selects router factory t₁ handler ∧
        Selects router factory t₂ handler)

/-
  The decoded paths are normalized, and when they are from
  the root and have one normal form they lead to one
  handler.
-/
def RoutesNormalized
    (router : HttpRouter)
    (factory : HttpHandlerFactory)
    (t₁ t₂ : ByteString) : Prop :=
  let d₁ := (HttpUriParser.parse t₁).2.decodedPath
  let d₂ := (HttpUriParser.parse t₂).2.decodedPath
  IsNormalized d₁ ∧ IsNormalized d₂ ∧
    (d₁.head? = some Ascii.slash →
      d₂.head? = some Ascii.slash →
      pathNormalize Ascii.dot d₁ Ascii.slash =
        pathNormalize Ascii.dot d₂ Ascii.slash →
      SameHandler router factory t₁ t₂)

theorem withoutSlash_concat
    {path : ByteString}
    (hNonempty : path ≠ []) :
    withoutSlash (path ++ [Ascii.slash]) = path := by
  have hPos := List.length_pos_of_ne_nil hNonempty
  unfold withoutSlash
  rw [if_pos]
  · simp
  · simp [hPos]

theorem withoutSlash_of_getLast?
    {path : ByteString}
    (hLast : path.getLast? ≠ some Ascii.slash) :
    withoutSlash path = path := by
  unfold withoutSlash
  rw [if_neg]
  rintro ⟨_, hSlash⟩
  exact hLast hSlash

/-
  Without the slash at its end a normalized path is its
  normal form, and only its end tells whether it has one.
-/
theorem withoutSlash_of_isNormalized
    {path : ByteString}
    (hRoot : path.head? = some Ascii.slash)
    (hPlain : IsNormalized path) :
    withoutSlash path =
      pathNormalize Ascii.dot path Ascii.slash := by
  rcases pathNormalize_of_isNormalized hRoot hPlain with
    ⟨hPath, hNormal⟩ | ⟨hLast, hSame | hSlash⟩
  · rw [hNormal, hPath]
    decide
  · rw [← hSame] at hLast ⊢
    exact withoutSlash_of_getLast? hLast
  · have hNonempty :
        pathNormalize Ascii.dot path Ascii.slash ≠ [] := by
      intro hNil
      rw [hNil] at hSlash
      rw [hSlash] at hNil
      exact absurd hNil (by decide)
    conv_lhs => rw [hSlash]
    exact withoutSlash_concat hNonempty

theorem eq_of_pathNormalize
    {d₁ d₂ : ByteString}
    (hRoot₁ : d₁.head? = some Ascii.slash)
    (hRoot₂ : d₂.head? = some Ascii.slash)
    (hPlain₁ : IsNormalized d₁)
    (hPlain₂ : IsNormalized d₂)
    (hNormal :
      pathNormalize Ascii.dot d₁ Ascii.slash =
        pathNormalize Ascii.dot d₂ Ascii.slash)
    (hEnds :
      d₁.getLast? = some Ascii.slash ↔
        d₂.getLast? = some Ascii.slash) :
    d₁ = d₂ := by
  have hCases₁ := pathNormalize_of_isNormalized hRoot₁ hPlain₁
  have hCases₂ := pathNormalize_of_isNormalized hRoot₂ hPlain₂
  rw [← hNormal] at hCases₂
  generalize pathNormalize Ascii.dot d₁ Ascii.slash = n
    at hCases₁ hCases₂
  rcases hCases₁ with ⟨rfl, rfl⟩ | ⟨hLast₁, h₁⟩
  · rcases hCases₂ with ⟨rfl, _⟩ | ⟨hLast₂, _⟩
    · rfl
    · exact absurd rfl hLast₂
  · rcases hCases₂ with ⟨rfl, rfl⟩ | ⟨_, h₂⟩
    · exact absurd rfl hLast₁
    · rcases h₁ with rfl | rfl <;> rcases h₂ with rfl | rfl
      · rfl
      · exact absurd (hEnds.mpr (by simp)) hLast₁
      · exact absurd (hEnds.mp (by simp)) hLast₁
      · rfl

/-
  The path is decoded but never normalized. So it is
  normalized exactly when the target spells out no dot
  segment and no repeated slash, and what is said of two
  targets with one normal form holds of such targets.
-/
theorem routes_normalized_iff
    (router : HttpRouter)
    (factory : HttpHandlerFactory)
    (t₁ t₂ : ByteString) :
    RoutesNormalized router factory t₁ t₂ ↔
      PlainTarget t₁ ∧ PlainTarget t₂ := by
  rw [← isNormalized_iff_plainTarget,
    ← isNormalized_iff_plainTarget]
  constructor
  · rintro ⟨hPlain₁, hPlain₂, _⟩
    exact ⟨hPlain₁, hPlain₂⟩
  · rintro ⟨hPlain₁, hPlain₂⟩
    refine ⟨hPlain₁, hPlain₂, ?_⟩
    intro hRoot₁ hRoot₂ hNormal
    refine ⟨?_, ?_⟩
    · rw [withoutSlash_of_isNormalized hRoot₁ hPlain₁,
        withoutSlash_of_isNormalized hRoot₂ hPlain₂, hNormal]
    · intro hEnds
      have hSame :=
        eq_of_pathNormalize hRoot₁ hRoot₂ hPlain₁ hPlain₂
          hNormal hEnds
      refine ⟨_, selects_findHandler router factory t₁, ?_⟩
      rw [hSame]
      exact selects_findHandler router factory t₂

/- The longer path has the handler of its first segment. -/
theorem handlerName_escaped_dots :
    (addAll {}
        [(text "/public", text "files"),
          (text "/admin", text "admin")]).handlerName
      (text "/public/../admin") 16 = text "files" := by
  have hFirst :
      ByteString.rfind (text "/public/../admin") Ascii.slash
        16 = some 10 := by
    decide
  have hSecond :
      ByteString.rfind (text "/public/../admin") Ascii.slash
        10 = some 7 := by
    decide
  have hHit :
      (addAll {}
          [(text "/public", text "files"),
            (text "/admin", text "admin")]).routes.lookup
        ((text "/public/../admin").take 7) =
          some (text "files") := by
    decide
  rw [handlerName_round (by decide) (by decide), hFirst]
  simp only [Nat.reduceEqDiff, if_false]
  rw [handlerName_round (by decide) (by decide), hSecond]
  simp only [Nat.reduceEqDiff, if_false]
  rw [handlerName, hHit]

/-
  Escaped dots pass the parser. With both handlers there,
  the path is not normalized, and although it has the normal
  form of the other one it leads to another handler.
-/
theorem routes_normalized_escaped_dots :
    let router :=
      addAll {}
        [(text "/public", text "files"),
          (text "/admin", text "admin")]
    let factory :=
      namedHandlers [text "files", text "admin"]
    ¬ RoutesNormalized router factory
        (text "/public/%2e%2E/admin") (text "/admin") ∧
      pathNormalize Ascii.dot (text "/public/../admin")
          Ascii.slash =
        text "/admin" ∧
      ¬ SameHandler router factory
        (text "/public/%2e%2E/admin") (text "/admin") := by
  intro router factory
  refine ⟨?_, ?_, ?_⟩
  · rintro ⟨hPlain, _⟩
    have hUp :=
      (hPlain.1 (text "..") (by decide)).2
    exact hUp (by decide)
  · rw [NormalPath.render_ofPath]
    decide
  · rintro ⟨hSame, _⟩
    have hUp :
        withoutSlash
            (HttpUriParser.parse
              (text "/public/%2e%2E/admin")).2.decodedPath =
          text "/public/../admin" := by
      decide
    have hDown :
        withoutSlash
            (HttpUriParser.parse
              (text "/admin")).2.decodedPath =
          text "/admin" := by
      decide
    rw [hUp, hDown, findHandler_eq router factory (by decide),
      findHandler_eq router factory (by decide)] at hSame
    have hFiles :
        router.handlerName (text "/public/../admin") 16 =
          text "files" :=
      handlerName_escaped_dots
    have hAdmin :
        router.handlerName (text "/admin") 6 =
          text "admin" := by
      have hHit :
          router.routes.lookup ((text "/admin").take 6) =
            some (text "admin") := by
        decide
      rw [handlerName, hHit]
    have hNames :
        some (namedHandler (text "files")) =
          some (namedHandler (text "admin")) := by
      rw [show (text "/public/../admin").length = 16 from rfl,
        show (text "/admin").length = 6 from rfl, hFiles,
        hAdmin] at hSame
      exact hSame
    have hBody :=
      congrArg
        (Option.map fun handler =>
          (handler.handleGetI { target := [] }).body) hNames
    revert hBody
    decide

end HttpRouter

end Inks
