import Inks.Httpd.Escapes
import Inks.Httpd.Router

/-
  What becomes of targets with malformed percent escapes.
  The decoder notices them, but the parser does not pass the
  failure on: `parse_path` only traces it, and `parse_query`
  uses the overload that reports nothing.

  Key definitions include:
    * `WellFormedTarget`
    * `RejectsMalformed`

  Key theorems include:
    * `HttpUriParser.parse_ok`
    * `HttpRouter.rejects_malformed_iff`
-/

------------------------------------------------------------
-- Well-Formed Targets
------------------------------------------------------------

namespace Inks

/-
  The escapes are well formed in the raw path, up to the
  first question mark, and in every key and every value of
  the query after it.
-/
def WellFormedTarget
    (tgt : ByteString) : Prop :=
  WellFormed (tgt.takeWhile (· ≠ Ascii.question)) ∧
    ∀ token ∈
        (tgt.dropWhile (· ≠ Ascii.question)).tail.splitOn
          Ascii.ampersand,
      WellFormed (token.takeWhile (· ≠ Ascii.equals)) ∧
        WellFormed
          (token.dropWhile (· ≠ Ascii.equals)).tail

end Inks

------------------------------------------------------------
-- Acceptance
------------------------------------------------------------

namespace Inks

namespace HttpUriParser

/- The parser accepts every target. -/
theorem parse_ok
    (tgt : ByteString) :
    (parse tgt).1 = true := by
  have hPath :
      ∀ uri : HttpUri,
        (if uri.rawPath.isEmpty then
          (true, uri)
        else
          parsePath uri).1 = true := by
    intro uri
    split <;> rfl
  have hQuery :
      ∀ uri : HttpUri,
        (if uri.rawQuery.isEmpty then
          (true, uri)
        else
          parseQuery uri).1 = true := by
    intro uri
    split <;> rfl
  unfold parse parseI
  split
  · rfl
  · rw [if_pos (hPath _)]
    exact hQuery _

end HttpUriParser

namespace HttpRouter

/- So a request is never answered before it is routed. -/
theorem dispatch_eq
    (router : HttpRouter)
    (factory : HttpHandlerFactory)
    (req : HttpRequest) :
    router.dispatch factory req =
      match router.findHandler factory
          (HttpUriParser.parse req.target).2.decodedPath
        with
      | none =>
          { response :=
              Hlpr.internalServerError req.keepAlive
            handled := false }
      | some handler =>
          { response := handler.handleRequest req
            handled := true } := by
  unfold dispatch
  simp only [HttpUriParser.parse_ok, Bool.not_true]
  rfl

end HttpRouter

end Inks

------------------------------------------------------------
-- Rejection
------------------------------------------------------------

namespace Inks

namespace HttpRouter

/-
  The target of a request is accepted exactly when it is
  well formed, and the request is otherwise answered with
  `bad_request` and reaches no handler.
-/
def RejectsMalformed
    (router : HttpRouter)
    (factory : HttpHandlerFactory)
    (req : HttpRequest) : Prop :=
  ((HttpUriParser.parse req.target).1 = true ↔
      WellFormedTarget req.target) ∧
    (¬ WellFormedTarget req.target →
      router.dispatch factory req =
        { response := Hlpr.badRequest req.keepAlive
          handled := false })

/-
  Requests are rejected as they should be exactly when there
  is nothing to reject.
-/
theorem rejects_malformed_iff
    (router : HttpRouter)
    (factory : HttpHandlerFactory)
    (req : HttpRequest) :
    RejectsMalformed router factory req ↔
      WellFormedTarget req.target := by
  constructor
  · intro hRejects
    exact hRejects.1.mp (HttpUriParser.parse_ok req.target)
  · intro hFormed
    refine ⟨?_, ?_⟩
    · exact
        iff_of_true (HttpUriParser.parse_ok req.target)
          hFormed
    · intro hNot
      exact absurd hFormed hNot

/- A router with one handler, for the root. -/
def rootRouter : HttpRouter :=
  add {} (text "/") (text "root")

def rootFactory : HttpHandlerFactory :=
  HttpHandlerFactory.registerHandler {} (text "root") {}

/-
  The escape in this target has no digits. The target is
  accepted, its path is decoded to the part before, and the
  handler for that is run.
-/
theorem malformed_routed :
    let req : HttpRequest := { target := text "/%zz" }
    (rootRouter.dispatch rootFactory req).handled = true ∧
      ¬ RejectsMalformed rootRouter rootFactory req := by
  constructor
  · rw [dispatch_eq]
    unfold findHandler
    rw [handlerName]
    decide
  · intro hRejects
    have hFormed :=
      (hRejects.1.mp (HttpUriParser.parse_ok _)).1
    have hDecoded :=
      (Hlpr.decodePercent_ok_iff _ {}).mpr hFormed
    revert hDecoded
    decide

end HttpRouter

end Inks
