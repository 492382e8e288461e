import Inks.Httpd.Selection
import Inks.Server.Initializer

/-
  What the handler configuration means. The last entry for a
  path that names a registered handler is its route, and the
  other entries have no effect. So every route has a handler
  to create, and a request is left without one exactly when
  no loaded path matches it.

  Key definitions include:
    * `Initializer.Routes`
    * `Initializer.LastEntry`
    * `Initializer.DecidesRouting`

  Key theorems include:
    * `Initializer.loadEntry_cases`
    * `Initializer.lookup_load_iff`
    * `HttpRouter.handled_eq_false_iff`
    * `Initializer.config_decides_routing`
-/

------------------------------------------------------------
-- Entries
------------------------------------------------------------

namespace Inks

namespace Initializer

/- An entry that makes a route: the others are skipped. -/
def Routes
    (factory : HttpHandlerFactory)
    (entry : Json)
    (path handler : ByteString) : Prop :=
  ∃ members, entry = .object members ∧
    members.lookup (text "path") = some (.string path) ∧
    members.lookup (text "handler") =
      some (.string handler) ∧
    factory.contains handler = true

/- No later entry makes a route for the path. -/
def LastEntry
    (factory : HttpHandlerFactory)
    (entries : List Json)
    (path handler : ByteString) : Prop :=
  ∃ before entry after,
    entries = before ++ entry :: after ∧
      Routes factory entry path handler ∧
      ∀ later ∈ after, ∀ other,
        ¬ Routes factory later path other

/- An entry makes at most one route. -/
theorem Routes.unique
    {factory : HttpHandlerFactory}
    {entry : Json}
    {path path' handler handler' : ByteString}
    (hRoutes : Routes factory entry path handler)
    (hOther : Routes factory entry path' handler') :
    path = path' ∧ handler = handler' := by
  rcases hRoutes with ⟨members, rfl, hPath, hHandler, _⟩
  rcases hOther with ⟨members', hSame, hPath', hHandler', _⟩
  cases hSame
  rw [hPath] at hPath'
  rw [hHandler] at hHandler'
  cases hPath'
  cases hHandler'
  exact ⟨rfl, rfl⟩

/- The string under a key of an object. -/
def stringAt
    (members : List (ByteString × Json))
    (key : ByteString) : Option ByteString :=
  match members.lookup key with
  | some (.string value) => some value
  | _ => none

theorem stringAt_eq_some_iff
    {members : List (ByteString × Json)}
    {key value : ByteString} :
    stringAt members key = some value ↔
      members.lookup key = some (.string value) := by
  unfold stringAt
  split
  · rename_i hLookup
    simp [hLookup]
  · rename_i hOther
    constructor
    · intro hNone
      cases hNone
    · intro hLookup
      exact absurd hLookup (hOther value)

/- The checks of the loop find the string, or they fail. -/
theorem getString_atKey
    (members : List (ByteString × Json))
    (key : ByteString) :
    match stringAt members key with
    | some value =>
        (Json.object members).contains key = true ∧
          ((Json.object members).atKey key).isString = true ∧
          ((Json.object members).atKey key).getString = value
    | none =>
        (Json.object members).contains key = false ∨
          ((Json.object members).atKey key).isString =
            false := by
  unfold stringAt
  cases hLookup : members.lookup key with
  | none =>
      simp [Json.contains, Json.member, hLookup]
  | some value =>
      cases value <;>
        simp [Json.contains, Json.member, Json.atKey,
          Json.isString, Json.getString, hLookup]

/- The loop adds the route of an entry, if it makes one. -/
theorem loadEntry_cases
    (factory : HttpHandlerFactory)
    (entry : Json) :
    (∃ path handler, Routes factory entry path handler ∧
        ∀ router,
          loadEntry factory router entry =
            router.add path handler) ∨
      ((∀ path handler,
          ¬ Routes factory entry path handler) ∧
        ∀ router,
          loadEntry factory router entry = router) := by
  cases entry with
  | object members =>
      have hPathAt := getString_atKey members (text "path")
      have hHandlerAt :=
        getString_atKey members (text "handler")
      have hSkipped :
          (stringAt members (text "path") = none ∨
            stringAt members (text "handler") = none) →
          ∀ path handler,
            ¬ Routes factory (.object members) path
              handler := by
        rintro hNone path handler
          ⟨members', hSame, hPath, hHandler, _⟩
        cases hSame
        rw [stringAt_eq_some_iff.mpr hPath,
          stringAt_eq_some_iff.mpr hHandler] at hNone
        simp at hNone
      cases hPath : stringAt members (text "path") with
      | none =>
          rw [hPath] at hPathAt
          refine Or.inr ⟨hSkipped (Or.inl hPath), ?_⟩
          intro router
          rcases hPathAt with hMissing | hOther
          · simp [loadEntry, Json.isObject, hMissing]
          · simp [loadEntry, Json.isObject, hOther]
      | some path =>
          rw [hPath] at hPathAt
          cases hHandler :
              stringAt members (text "handler") with
          | none =>
              rw [hHandler] at hHandlerAt
              refine Or.inr ⟨hSkipped (Or.inr hHandler), ?_⟩
              intro router
              rcases hHandlerAt with hMissing | hOther
              · simp [loadEntry, Json.isObject, hMissing]
              · simp [loadEntry, Json.isObject, hOther]
          | some handler =>
              rw [hHandler] at hHandlerAt
              by_cases hKnown :
                  factory.contains handler = true
              · refine
                  Or.inl
                    ⟨path, handler,
                      ⟨members, rfl,
                        stringAt_eq_some_iff.mp hPath,
                        stringAt_eq_some_iff.mp hHandler,
                        hKnown⟩, ?_⟩
                intro router
                simp [loadEntry, Json.isObject, hPathAt,
                  hHandlerAt, hKnown]
              · refine Or.inr ⟨?_, ?_⟩
                · rintro path' handler'
                    ⟨members', hSame, _, hHandler', hKnown'⟩
                  cases hSame
                  rw [stringAt_eq_some_iff.mpr hHandler']
                    at hHandler
                  cases hHandler
                  exact hKnown hKnown'
                · intro router
                  simp [loadEntry, Json.isObject, hPathAt,
                    hHandlerAt, hKnown]
  | _ =>
      refine Or.inr ⟨?_, fun router => rfl⟩
      rintro path handler ⟨members, hSame, _⟩
      cases hSame

end Initializer

end Inks

------------------------------------------------------------
-- The Loaded Routes
------------------------------------------------------------

namespace Inks

namespace Initializer

/- The last entry of some entries and one more. -/
theorem lastEntry_concat_iff
    {factory : HttpHandlerFactory}
    {entries : List Json}
    {entry : Json}
    {path handler : ByteString} :
    LastEntry factory (entries ++ [entry]) path handler ↔
      Routes factory entry path handler ∨
        ((∀ other, ¬ Routes factory entry path other) ∧
          LastEntry factory entries path handler) := by
  constructor
  · rintro ⟨before, last, after, hSplit, hRoutes, hLater⟩
    rcases List.eq_nil_or_concat' after with
      rfl | ⟨after', entry', rfl⟩
    · rcases List.append_inj' hSplit rfl with ⟨_, hSame⟩
      cases hSame
      exact Or.inl hRoutes
    · rw [← List.cons_append, ← List.append_assoc]
        at hSplit
      rcases List.append_inj' hSplit rfl with
        ⟨rfl, hSame⟩
      cases hSame
      refine Or.inr ⟨hLater entry (by simp), ?_⟩
      refine ⟨before, last, after', rfl, hRoutes, ?_⟩
      intro later hMem
      exact hLater later (List.mem_append_left _ hMem)
  · rintro (hRoutes |
      ⟨hNone, before, last, after, rfl, hRoutes, hLater⟩)
    · refine ⟨entries, entry, [], rfl, hRoutes, ?_⟩
      intro later hMem
      cases hMem
    · refine
        ⟨before, last, after ++ [entry], by simp, hRoutes,
          ?_⟩
      intro later hMem
      rcases List.mem_append.mp hMem with hOld | hNew
      · exact hLater later hOld
      · rw [List.mem_singleton.mp hNew]
        exact hNone

/- The route of a path is the one of its last entry. -/
theorem lookup_load_iff
    (factory : HttpHandlerFactory)
    (entries : List Json)
    (path handler : ByteString) :
    (entries.foldl (loadEntry factory) {}).routes.lookup
        path = some handler ↔
      LastEntry factory entries path handler := by
  induction entries using List.reverseRecOn with
  | nil =>
      constructor
      · intro hLookup
        cases hLookup
      · rintro ⟨before, entry, after, hSplit, _⟩
        simp at hSplit
  | append_singleton entries entry ih =>
      rw [lastEntry_concat_iff, List.foldl_concat]
      rcases loadEntry_cases factory entry with
        ⟨path', handler', hRoutes, hAdd⟩ | ⟨hNone, hSkip⟩
      · rw [hAdd, HttpRouter.add]
        by_cases hPath : path' = path
        · subst hPath
          rw [AList.lookup_insert]
          constructor
          · intro hSame
            cases hSame
            exact Or.inl hRoutes
          · rintro (hOther | ⟨hNone, _⟩)
            · rw [(hRoutes.unique hOther).2]
            · exact absurd hRoutes (hNone handler')
        · rw [AList.lookup_insert_ne (Ne.symm hPath), ih]
          constructor
          · intro hLast
            refine Or.inr ⟨?_, hLast⟩
            intro other hOther
            exact hPath (hRoutes.unique hOther).1
          · rintro (hOther | ⟨_, hLast⟩)
            · exact absurd (hRoutes.unique hOther).1 hPath
            · exact hLast
      · rw [hSkip, ih]
        constructor
        · intro hLast
          exact Or.inr ⟨hNone path, hLast⟩
        · rintro (hRoutes | ⟨_, hLast⟩)
          · exact absurd hRoutes (hNone path handler)
          · exact hLast

/- An entry without a route is as good as no entry. -/
theorem foldl_loadEntry_skip
    {factory : HttpHandlerFactory}
    {entry : Json}
    (hNone :
      ∀ path handler, ¬ Routes factory entry path handler)
    (before after : List Json)
    (router : HttpRouter) :
    (before ++ entry :: after).foldl (loadEntry factory)
        router =
      (before ++ after).foldl (loadEntry factory) router := by
  rw [List.foldl_append, List.foldl_cons,
    List.foldl_append]
  rcases loadEntry_cases factory entry with
    ⟨path, handler, hRoutes, _⟩ | ⟨_, hSkip⟩
  · exact absurd hRoutes (hNone path handler)
  · rw [hSkip]

end Initializer

end Inks

------------------------------------------------------------
-- Requests Without a Handler
------------------------------------------------------------

namespace Inks

theorem HttpHandlerFactory.contains_iff
    (factory : HttpHandlerFactory)
    (name : ByteString) :
    factory.contains name = true ↔
      (factory.create name).isSome := by
  rw [contains, create, AList.lookup_isSome]
  exact decide_eq_true_iff

namespace HttpRouter

/-
  When every route has a handler to create, the search fails
  exactly when no route matches.
-/
theorem findHandler_eq_none_iff
    {router : HttpRouter}
    {factory : HttpHandlerFactory}
    (hCreated :
      ∀ key name, router.routes.lookup key = some name →
        (factory.create name).isSome)
    (hUnnamed : factory.create [] = none)
    {path : ByteString}
    (hRoot : path.head? = some Ascii.slash) :
    router.findHandler factory path = none ↔
      ∀ key, Matches path key →
        router.routes.lookup key = none := by
  rw [findHandler_eq router factory hRoot]
  rcases router.handlerName_matches hRoot with
    ⟨key, hMatches, hName, _⟩ | ⟨hEmpty, hNone⟩
  · have hSome := hCreated _ _ hName
    constructor
    · intro hMissing
      rw [hMissing] at hSome
      cases hSome
    · intro hNone
      rw [hNone key hMatches] at hName
      cases hName
  · rw [hEmpty]
    exact ⟨fun _ => hNone, fun _ => hUnnamed⟩

theorem handled_eq_false_iff
    (router : HttpRouter)
    (factory : HttpHandlerFactory)
    (req : HttpRequest) :
    (router.dispatch factory req).handled = false ↔
      router.findHandler factory
          (HttpUriParser.parse req.target).2.decodedPath =
        none := by
  rw [dispatch_eq]
  cases router.findHandler factory
      (HttpUriParser.parse req.target).2.decodedPath <;>
    simp

end HttpRouter

namespace Initializer

/-
  Loading succeeds. Every path has the handler of its last
  entry, no other path has one, and each of them can be
  created. A request from the root is left without a handler
  exactly when no loaded path matches. An entry that makes
  no route could as well be left out.
-/
structure DecidesRouting
    (factory : HttpHandlerFactory)
    (entries : List Json) : Prop where
  loaded :
    (parseHttpHandlerConfig factory {}
      (.array entries)).1 = true
  routes :
    ∀ path handler,
      (parseHttpHandlerConfig factory {}
          (.array entries)).2.routes.lookup path =
            some handler ↔
        LastEntry factory entries path handler
  created :
    ∀ path handler,
      (parseHttpHandlerConfig factory {}
          (.array entries)).2.routes.lookup path =
            some handler →
        (factory.create handler).isSome
  unhandled :
    ∀ req : HttpRequest,
      (HttpUriParser.parse
          req.target).2.decodedPath.head? =
            some Ascii.slash →
        (((parseHttpHandlerConfig factory {}
              (.array entries)).2.dispatch factory
                req).handled = false ↔
          ∀ path,
            HttpRouter.Matches
              (HttpUriParser.parse
                req.target).2.decodedPath path →
            (parseHttpHandlerConfig factory {}
              (.array entries)).2.routes.lookup path =
                none)
  skipped :
    ∀ before entry after,
      entries = before ++ entry :: after →
      (∀ path handler,
        ¬ Routes factory entry path handler) →
      parseHttpHandlerConfig factory {} (.array entries) =
        parseHttpHandlerConfig factory {}
          (.array (before ++ after))

theorem config_decides_routing
    {factory : HttpHandlerFactory}
    (hUnnamed : factory.contains [] = false)
    (entries : List Json) :
    DecidesRouting factory entries := by
  have hNone : factory.create [] = none := by
    have hContains := factory.contains_iff []
    simpa [hUnnamed] using hContains
  have hRoutes := lookup_load_iff factory entries
  have hCreated :
      ∀ path handler,
        (entries.foldl (loadEntry factory)
          {}).routes.lookup path = some handler →
            (factory.create handler).isSome := by
    intro path handler hLookup
    rcases (hRoutes path handler).mp hLookup with
      ⟨_, _, _, _, ⟨_, _, _, _, hKnown⟩, _⟩
    exact (factory.contains_iff handler).mp hKnown
  refine
    { loaded := rfl
      routes := hRoutes
      created := hCreated
      unhandled := ?_
      skipped := ?_ }
  · intro req hRoot
    rw [HttpRouter.handled_eq_false_iff]
    exact
      HttpRouter.findHandler_eq_none_iff hCreated hNone
        hRoot
  · rintro before entry after rfl hSkip
    simp only [parseHttpHandlerConfig,
      foldl_loadEntry_skip hSkip]

/- A configuration with entries of every kind. -/
theorem config_decides_routing_echo :
    DecidesRouting
      (HttpHandlerFactory.registerHandler {}
        (text "HTTP_Echo_Handler") {})
      [.object
          [(text "path", .string (text "/echo")),
            (text "handler",
              .string (text "HTTP_Echo_Handler"))],
        .number 1,
        .object
          [(text "path", .string (text "/echo/v1")),
            (text "handler", .string (text "missing"))],
        .object [(text "path", .null)]] :=
  config_decides_routing (by decide) _

end Initializer

end Inks
