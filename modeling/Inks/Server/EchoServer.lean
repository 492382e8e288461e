import Inks.Httpd.Echo
import Inks.Server.HandlerConfig

/-
  The server as it is built: the echo handler is the only
  one that registers itself. What it answers to a message
  is said without routes, from the paths that the handler
  configuration gives to this handler.

  Key definitions include:
    * `registeredHandlers`
    * `EchoServer.echoPaths`
    * `EchoServer.Serves`
    * `EchoServer.answer`

  Key theorems include:
    * `EchoServer.lookup_load`
    * `EchoServer.dispatch_loaded`
-/

------------------------------------------------------------
-- Answers
------------------------------------------------------------

namespace Inks

/- What `REGISTER_HTTP_HANDLER` leaves in the factory. -/
def registeredHandlers
    (message : HttpMessage) : HttpHandlerFactory :=
  HttpHandlerFactory.registerHandler {}
    (text "HTTP_Echo_Handler") (HttpEchoHandler message)

namespace EchoServer

/- The path for which an entry asks for the echo handler. -/
def echoPath
    (entry : Json) : Option ByteString :=
  match entry with
  | .object members =>
      if Initializer.stringAt members (text "handler") =
          some (text "HTTP_Echo_Handler") then
        Initializer.stringAt members (text "path")
      else
        none
  | _ => none

def echoPaths
    (entries : List Json) : List ByteString :=
  entries.filterMap echoPath

/- A decoded path from the root that some path matches. -/
def Serves
    (entries : List Json)
    (path : ByteString) : Prop :=
  path.head? = some Ascii.slash ∧
    ∃ key ∈ echoPaths entries, HttpRouter.Matches path key

instance
    (entries : List Json)
    (path : ByteString) :
    Decidable (Serves entries path) := by
  unfold Serves
  infer_instance

/- What a client is answered. -/
def answer
    (entries : List Json)
    (message : HttpMessage) : HttpResponse :=
  if Serves entries
      (HttpUriParser.parse message.target).2.decodedPath then
    if message.method = .other then
      Hlpr.notImplemented message.keepAlive
    else
      makeEchoResponse message
  else
    Hlpr.internalServerError message.keepAlive

end EchoServer

end Inks

------------------------------------------------------------
-- The Loaded Table
------------------------------------------------------------

namespace Inks

namespace EchoServer

theorem create_registered
    (message : HttpMessage)
    (name : ByteString) :
    (registeredHandlers message).create name =
      if name = text "HTTP_Echo_Handler" then
        some (HttpEchoHandler message)
      else
        none := by
  unfold registeredHandlers HttpHandlerFactory.create
    HttpHandlerFactory.registerHandler
  by_cases hName : name = text "HTTP_Echo_Handler"
  · subst hName
    rw [if_pos rfl]
    exact AList.lookup_insert _
  · rw [if_neg hName]
    exact AList.lookup_insert_ne hName

theorem contains_registered
    (message : HttpMessage)
    (name : ByteString) :
    (registeredHandlers message).contains name = true ↔
      name = text "HTTP_Echo_Handler" := by
  rw [HttpHandlerFactory.contains_iff, create_registered]
  by_cases hName : name = text "HTTP_Echo_Handler" <;>
    simp [hName]

/- An entry makes a route exactly for its echo path. -/
theorem routes_iff
    (message : HttpMessage)
    (entry : Json)
    (path handler : ByteString) :
    Initializer.Routes (registeredHandlers message) entry
        path handler ↔
      echoPath entry = some path ∧
        handler = text "HTTP_Echo_Handler" := by
  constructor
  · rintro ⟨members, rfl, hPath, hHandler, hKnown⟩
    rw [contains_registered] at hKnown
    subst hKnown
    refine ⟨?_, rfl⟩
    simp only [echoPath,
      Initializer.stringAt_eq_some_iff.mpr hHandler,
      if_true]
    exact Initializer.stringAt_eq_some_iff.mpr hPath
  · rintro ⟨hEcho, rfl⟩
    cases entry with
    | object members =>
        simp only [echoPath] at hEcho
        split at hEcho
        · rename_i hHandler
          exact
            ⟨members, rfl,
              Initializer.stringAt_eq_some_iff.mp hEcho,
              Initializer.stringAt_eq_some_iff.mp hHandler,
              (contains_registered message _).mpr rfl⟩
        · cases hEcho
    | _ => cases hEcho

/-
  Every echo path has its route, and no other path has one.
  The order of the entries does not matter, nor how often a
  path is repeated.
-/
theorem lookup_load
    (message : HttpMessage)
    (entries : List Json)
    (path : ByteString) :
    (entries.foldl
        (Initializer.loadEntry (registeredHandlers message))
        {}).routes.lookup path =
      if path ∈ echoPaths entries then
        some (text "HTTP_Echo_Handler")
      else
        none := by
  induction entries using List.reverseRecOn with
  | nil => rfl
  | append_singleton entries entry ih =>
      rw [List.foldl_concat, echoPaths,
        List.filterMap_append]
      rcases Initializer.loadEntry_cases
          (registeredHandlers message) entry with
        ⟨path', handler, hRoutes, hAdd⟩ | ⟨hNone, hSkip⟩
      · rcases (routes_iff message entry path' handler).mp
            hRoutes with
          ⟨hEcho, rfl⟩
        rw [hAdd, HttpRouter.add]
        by_cases hPath : path = path'
        · subst hPath
          rw [AList.lookup_insert]
          simp [hEcho]
        · rw [AList.lookup_insert_ne hPath, ih]
          simp [echoPaths, hEcho, hPath]
      · have hEcho : echoPath entry = none := by
          cases hEcho : echoPath entry with
          | none => rfl
          | some path' =>
              exact
                absurd
                  ((routes_iff message entry path' _).mpr
                    ⟨hEcho, rfl⟩)
                  (hNone path' _)
        rw [hSkip, ih]
        simp [echoPaths, hEcho]

end EchoServer

end Inks

------------------------------------------------------------
-- Requests
------------------------------------------------------------

namespace Inks

theorem HttpEchoHandler.handleRequest_eq
    (message : HttpMessage) :
    (HttpEchoHandler message).handleRequest
        message.toHttpRequest =
      if message.method = .other then
        Hlpr.notImplemented message.keepAlive
      else
        makeEchoResponse message := by
  cases hMethod : message.method <;>
    simp [HttpHandler.handleRequest, hMethod,
      HttpEchoHandler]

namespace EchoServer

/-
  For every array in the handler configuration and every
  message: loading succeeds, the message is echoed when some
  echo path matches its decoded path, other methods are
  refused there, and everything else has no handler.
-/
theorem dispatch_loaded
    (entries : List Json)
    (message : HttpMessage) :
    let loaded :=
      Initializer.parseHttpHandlerConfig
        (registeredHandlers message) {} (.array entries)
    loaded.1 = true ∧
      (loaded.2.dispatch (registeredHandlers message)
        message.toHttpRequest).response =
          answer entries message := by
  refine ⟨rfl, ?_⟩
  have hLookup := lookup_load message entries
  simp only [Initializer.parseHttpHandlerConfig]
  generalize entries.foldl
    (Initializer.loadEntry (registeredHandlers message)) {} =
      router at hLookup
  unfold answer
  rw [HttpRouter.dispatch_eq]
  generalize
    (HttpUriParser.parse message.target).2.decodedPath =
      path
  by_cases hRoot : path.head? = some Ascii.slash
  · have hFound :=
      HttpRouter.findHandler_eq router
        (registeredHandlers message) hRoot
    rw [create_registered] at hFound
    rcases router.handlerName_matches hRoot with
      ⟨key, hMatches, hName, _⟩ | ⟨hEmpty, hNone⟩
    · rw [hLookup] at hName
      split at hName
      · rename_i hKey
        have hServes : Serves entries path :=
          ⟨hRoot, key, hKey, hMatches⟩
        rw [if_pos (Option.some.inj hName).symm] at hFound
        rw [hFound, if_pos hServes]
        exact HttpEchoHandler.handleRequest_eq message
      · cases hName
    · have hNot : ¬ Serves entries path := by
        rintro ⟨_, key, hKey, hMatches⟩
        have hMissing := hNone key hMatches
        rw [hLookup, if_pos hKey] at hMissing
        cases hMissing
      rw [hEmpty, if_neg (by decide)] at hFound
      rw [hFound, if_neg hNot]
  · have hFound :
        router.findHandler (registeredHandlers message)
          path = none := by
      unfold HttpRouter.findHandler
      rw [if_pos (Or.inr hRoot)]
    rw [hFound, if_neg (fun hServes => hRoot hServes.1)]

end EchoServer

end Inks
