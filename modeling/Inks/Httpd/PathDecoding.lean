import Inks.Httpd.Selection
import Inks.Httpd.Targets

/-
  Two ways of writing a path, with or without a query, are
  the same path to the router.

  Key definitions include:
    * `PathSpelling`
    * `HttpRouter.RoutesByPath`

  Key theorems include:
    * `PathSpelling.decodeSegments_eq`
    * `HttpRouter.routes_by_path`
-/

------------------------------------------------------------
-- Paths as They Are Written
------------------------------------------------------------

namespace Inks

/-
  The ways to write a path in a target: `%` and `?` are
  always escaped, any other byte may be, and a plus stands
  for itself.
-/
def PathSpelling
    (path src : ByteString) : Prop :=
  Spelling
    (fun c => c ≠ Ascii.percent ∧ c ≠ Ascii.question)
    false path src

namespace PathSpelling

variable {path src : ByteString}

theorem question_notMem
    (hSpelling : PathSpelling path src) :
    Ascii.question ∉ src := by
  apply Spelling.notMem hSpelling
  · intro hLiteral
    exact hLiteral.2 rfl
  · decide
  · decide
  · decide

/- The pieces of the written path are bytes of the path. -/
theorem exists_pieces
    (hSpelling : PathSpelling path src) :
    ∃ pieces, src = written pieces ∧
      pieces.map Piece.pathByte = path := by
  have hLiteral :
      ∀ c, c ≠ Ascii.percent ∧ c ≠ Ascii.question →
        c ≠ Ascii.percent ∧
          (false = true → c ≠ Ascii.plus) := by
    intro c hBoth
    exact ⟨hBoth.1, by simp⟩
  rcases Spelling.exists_pieces { slash := true } hSpelling
      rfl id hLiteral with
    ⟨pieces, hWritten, hMeaning⟩
  rw [meaning_path] at hMeaning
  exact ⟨pieces, hWritten, hMeaning⟩

/- Decoding the whole text at once gives the path. -/
theorem decodePath_eq
    (hSpelling : PathSpelling path src) :
    Hlpr.decodePath src = (true, path) := by
  rcases hSpelling.exists_pieces with ⟨pieces, rfl, rfl⟩
  rw [← meaning_path]
  exact Hlpr.decodePercent_pieces _ pieces

/- Decoding it segment by segment does so as well. -/
theorem decodeSegments_eq
    (hSpelling : PathSpelling path src) :
    HttpUriParser.decodeSegments src = path := by
  rcases hSpelling.exists_pieces with ⟨pieces, rfl, rfl⟩
  have hAll :=
    HttpUriParser.decodeSegments_written pieces []
  simpa using hAll

end PathSpelling

end Inks

------------------------------------------------------------
-- Routing by the Decoded Path
------------------------------------------------------------

namespace Inks

namespace HttpRouter

/-
  A target and another one with a query have the same
  decoded path, it is the given path and what decoding the
  raw path at once gives, and both get to the same handler.
-/
def RoutesByPath
    (router : HttpRouter)
    (factory : HttpHandlerFactory)
    (path e₁ e₂ query : ByteString) : Prop :=
  let plain := HttpUriParser.parse e₁
  let queried :=
    HttpUriParser.parse (e₂ ++ Ascii.question :: query)
  plain.1 = true ∧ queried.1 = true ∧
    plain.2.decodedPath = path ∧
    queried.2.decodedPath = path ∧
    Hlpr.decodePath e₁ = (true, path) ∧
    ∃ handler, Selects router factory e₁ handler ∧
      Selects router factory
        (e₂ ++ Ascii.question :: query) handler

/-
  Neither the way in which a path is written nor a query
  matters, whatever bytes the query is made of.
-/
theorem routes_by_path
    (router : HttpRouter)
    (factory : HttpHandlerFactory)
    {path e₁ e₂ : ByteString}
    (hPlain : PathSpelling path e₁)
    (hQueried : PathSpelling path e₂)
    (query : ByteString) :
    RoutesByPath router factory path e₁ e₂ query := by
  have hPath :
      (HttpUriParser.parse e₁).2.decodedPath = path := by
    rw [HttpUriParser.parse_path hPlain.question_notMem]
    exact hPlain.decodeSegments_eq
  have hPath' :
      (HttpUriParser.parse
          (e₂ ++ Ascii.question :: query)).2.decodedPath =
        path := by
    rw [(HttpUriParser.parse_query
      hQueried.question_notMem query).1]
    exact hQueried.decodeSegments_eq
  have hSelects := selects_findHandler router factory e₁
  have hSelects' :=
    selects_findHandler router factory
      (e₂ ++ Ascii.question :: query)
  rw [hPath] at hSelects
  rw [hPath'] at hSelects'
  exact
    ⟨HttpUriParser.parse_ok _, HttpUriParser.parse_ok _,
      hPath, hPath', hPlain.decodePath_eq, _, hSelects,
      hSelects'⟩

/- The path `/a` as it is, and with an escaped slash. -/
theorem routes_by_path_escaped :
    RoutesByPath rootRouter rootFactory (text "/a")
      (text "/a") (text "%2fa") (text "x=?/&") := by
  have hPlain : PathSpelling (text "/a") (text "/a") :=
    .literal (by decide) (.literal (by decide) .nil)
  have hQueried : PathSpelling (text "/a") (text "%2fa") :=
    .escape_as (h := ⟨0x32, by decide⟩)
      (l := ⟨0x66, by decide⟩) (by decide)
      (.literal (by decide) .nil)
  exact routes_by_path rootRouter rootFactory hPlain
    hQueried _

end HttpRouter

end Inks
