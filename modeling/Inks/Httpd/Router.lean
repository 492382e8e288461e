import Inks.Httpd.UriParser
import Inks.Library.Table

/-
  The router: handlers by name in a factory, names by path
  in the routing table, and the search for the longest path
  that is registered.

  Key definitions include:
    * `HttpHandler`
    * `HttpHandlerFactory`
    * `HttpRouter.findHandler`
    * `HttpRouter.dispatch`
-/

------------------------------------------------------------
-- Handlers
------------------------------------------------------------

namespace Inks

/- A handler is the functions that it implements. -/
structure HttpHandler where
  handleGetI : HttpRequest → HttpResponse :=
    fun req => Hlpr.notImplemented req.keepAlive
  handlePostI : HttpRequest → HttpResponse :=
    fun req => Hlpr.notImplemented req.keepAlive
  handlePutI : HttpRequest → HttpResponse :=
    fun req => Hlpr.notImplemented req.keepAlive
  handleDeleteI : HttpRequest → HttpResponse :=
    fun req => Hlpr.notImplemented req.keepAlive

def HttpHandler.handleRequest
    (handler : HttpHandler)
    (req : HttpRequest) : HttpResponse :=
  match req.method with
  | .get => handler.handleGetI req
  | .post => handler.handlePostI req
  | .put => handler.handlePutI req
  | .delete => handler.handleDeleteI req
  | .other => Hlpr.notImplemented req.keepAlive

/- The handler that each name creates. -/
structure HttpHandlerFactory where
  creators : Table ByteString HttpHandler := ∅

namespace HttpHandlerFactory

def registerHandler
    (factory : HttpHandlerFactory)
    (name : ByteString)
    (fn : HttpHandler) : HttpHandlerFactory :=
  { creators := factory.creators.insert name fn }

def unregisterHandler
    (factory : HttpHandlerFactory)
    (name : ByteString) : HttpHandlerFactory :=
  { creators := factory.creators.erase name }

def contains
    (factory : HttpHandlerFactory)
    (name : ByteString) : Bool :=
  name ∈ factory.creators

def create
    (factory : HttpHandlerFactory)
    (name : ByteString) : Option HttpHandler :=
  factory.creators.lookup name

end HttpHandlerFactory

end Inks

------------------------------------------------------------
-- Routing
------------------------------------------------------------

namespace Inks

structure HttpRouter where
  -- Handler names by path.
  routes : Table ByteString ByteString := ∅

/- What becomes of a request. -/
structure Dispatched where
  response : HttpResponse
  -- Ghost: whether a handler was run.
  handled : Bool
deriving DecidableEq, Repr

namespace HttpRouter

def add
    (router : HttpRouter)
    (path : ByteString)
    (name : ByteString) : HttpRouter :=
  { routes := router.routes.insert path name }

/-
  The loop of `find_handler`: the name for the first `len`
  bytes of the path, or else for the path up to the slash
  before, down to the root. The name is empty without any.
-/
def handlerName
    (router : HttpRouter)
    (path : ByteString)
    (len : Nat) : ByteString :=
  match router.routes.lookup (path.take len) with
  | some name => name
  | none =>
      if len = 1 then
        []
      else
        match _hSlash :
            ByteString.rfind path Ascii.slash len with
        | none => []
        | some lastSlash =>
            if lastSlash = 0 then
              router.handlerName path 1
            else
              router.handlerName path lastSlash
termination_by len
decreasing_by
  · have hLt := ByteString.rfind_lt _hSlash
    omega
  · exact ByteString.rfind_lt _hSlash

def findHandler
    (router : HttpRouter)
    (factory : HttpHandlerFactory)
    (path : ByteString) : Option HttpHandler :=
  if path.isEmpty ∨ path.head? ≠ some Ascii.slash then
    none
  else
    factory.create (router.handlerName path path.length)

def dispatch
    (router : HttpRouter)
    (factory : HttpHandlerFactory)
    (req : HttpRequest) : Dispatched :=
  let parsed := HttpUriParser.parse req.target
  if !parsed.1 then
    { response := Hlpr.badRequest req.keepAlive
      handled := false }
  else
    match router.findHandler factory
        parsed.2.decodedPath with
    | none =>
        { response :=
            Hlpr.internalServerError req.keepAlive
          handled := false }
    | some handler =>
        { response := handler.handleRequest req
          handled := true }

end HttpRouter

end Inks
