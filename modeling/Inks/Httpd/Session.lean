import Inks.Httpd.Router
import Inks.Library.Run

/-
  The sessions of the server, one for each connection, and
  the event loop that runs their handlers. An exception that
  leaves a handler leaves `ioc.run()`, and `main` with it.

  Buffers and the parser of a session are left out: a read
  completes with a whole request or with an error.

  Key definitions include:
    * `HttpSession`
    * `HttpSession.handleRequestReceived`
    * `HttpSession.handleWritingFinished`
    * `HttpServer`
    * `HttpServer.step`
-/

------------------------------------------------------------
-- Sessions
------------------------------------------------------------

namespace Inks

/- Whether a socket has a peer, or is open at all. -/
inductive Socket where
| connected
| disconnected
| closed
deriving DecidableEq, Repr

/- How a read or a write of a session can fail. -/
inductive IoError where
| endOfStream
| connectionReset
| timeout
| other
deriving DecidableEq, Repr

inductive Operation where
| reading
| writing (keepAlive : Bool)
deriving DecidableEq, Repr

/- The exceptions of `remote_endpoint`. -/
inductive SystemError where
| notConnected
| badDescriptor
deriving DecidableEq, Repr

structure HttpSession where
  socket : Socket := .connected
  -- The operation that is outstanding.
  operation : Option Operation := none
deriving DecidableEq, Repr

namespace HttpSession

/- The overload without an error code, which throws. -/
def remoteEndpoint
    (s : HttpSession) : Except SystemError Unit :=
  match s.socket with
  | .connected => .ok ()
  | .disconnected => .error .notConnected
  | .closed => .error .badDescriptor

def handleRequestReading
    (s : HttpSession) : HttpSession :=
  { s with operation := some .reading }

def run
    (s : HttpSession) : HttpSession :=
  s.handleRequestReading

/- The peer is asked for, for the log, before closing. -/
def close
    (s : HttpSession) : Except SystemError HttpSession := do
  s.remoteEndpoint
  return { s with socket := .closed }

/- Answer a request; this always succeeds. -/
def handleRequest
    (s : HttpSession)
    (router : HttpRouter)
    (factory : HttpHandlerFactory)
    (req : HttpRequest) : Bool × HttpSession :=
  let res := (router.dispatch factory req).response
  (true,
    { s with operation := some (.writing res.keepAlive) })

def handleRequestReceived
    (s : HttpSession)
    (router : HttpRouter)
    (factory : HttpHandlerFactory)
    (result : Except IoError HttpRequest) :
    Except SystemError HttpSession :=
  match result with
  | .error _ => s.close
  | .ok req => do
      s.remoteEndpoint
      let handled := s.handleRequest router factory req
      if !handled.1 then
        handled.2.close
      else
        return handled.2

def handleWritingFinished
    (s : HttpSession)
    (ec : Option IoError)
    (keepAlive : Bool) : Except SystemError HttpSession :=
  match ec with
  | some _ => s.close
  | none =>
      if !keepAlive then
        s.close
      else
        return s.handleRequestReading

/- The peer has reset the connection. -/
def disconnect
    (s : HttpSession) : HttpSession :=
  match s.socket with
  | .connected => { s with socket := .disconnected }
  | _ => s

/-
  The outstanding operation completes. On a timeout the
  stream has closed the socket before its handler runs, and
  after a reset there is no peer any more.
-/
def complete
    (s : HttpSession)
    (ec : Option IoError) : HttpSession :=
  let s := { s with operation := none }
  match ec with
  | some .timeout => { s with socket := .closed }
  | some .connectionReset => s.disconnect
  | _ => s

end HttpSession

end Inks

------------------------------------------------------------
-- The Server
------------------------------------------------------------

namespace Inks

structure HttpServer where
  -- Whether `ioc.run()` has not been left by an exception.
  up : Bool := true
  -- Whether the acceptor is open.
  acceptor : Bool := true
  sessions : List HttpSession := []
deriving DecidableEq, Repr

/-
  What the event loop runs: an accept, a read or a write of
  a session completes. A peer can reset its connection at
  any time.
-/
inductive ServerEvent where
| accepted (ec : Option IoError)
| disconnect (i : Nat)
| received (i : Nat) (result : Except IoError HttpRequest)
| written (i : Nat) (ec : Option IoError)

/- The error of a read. -/
def readError
    (result : Except IoError HttpRequest) :
    Option IoError :=
  match result with
  | .error ec => some ec
  | .ok _ => none

namespace HttpServer

/- The handler of `accept`. -/
def accept
    (server : HttpServer)
    (ec : Option IoError) : HttpServer :=
  match ec with
  | some _ => { server with acceptor := false }
  | none =>
      { server with
        sessions :=
          server.sessions ++ [HttpSession.run {}] }

/- What becomes of the server when a handler is done. -/
def finish
    (server : HttpServer)
    (i : Nat)
    (result : Except SystemError HttpSession) :
    HttpServer :=
  match result with
  | .ok s => { server with sessions := server.sessions.set i s }
  | .error _ => { server with up := false }

def received
    (server : HttpServer)
    (router : HttpRouter)
    (factory : HttpHandlerFactory)
    (i : Nat)
    (result : Except IoError HttpRequest) : HttpServer :=
  match server.sessions[i]? with
  | none => server
  | some s =>
      match s.operation with
      | some .reading =>
          server.finish i
            ((s.complete (readError result)
              ).handleRequestReceived router factory
                result)
      | _ => server

def written
    (server : HttpServer)
    (i : Nat)
    (ec : Option IoError) : HttpServer :=
  match server.sessions[i]? with
  | none => server
  | some s =>
      match s.operation with
      | some (.writing keepAlive) =>
          server.finish i
            ((s.complete ec).handleWritingFinished ec
              keepAlive)
      | _ => server

def step
    (router : HttpRouter)
    (factory : HttpHandlerFactory)
    (server : HttpServer)
    (event : ServerEvent) : HttpServer :=
  if !server.up then
    server
  else
    match event with
    | .accepted ec =>
        if server.acceptor then
          server.accept ec
        else
          server
    | .disconnect i =>
        { server with
          sessions :=
            server.sessions.modify i
              HttpSession.disconnect }
    | .received i result =>
        server.received router factory i result
    | .written i ec => server.written i ec

end HttpServer

end Inks
