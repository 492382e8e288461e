import Inks.Httpd.Session
import Inks.Library.Framing

/-
  A session with its buffer and its parser, and the stream
  of bytes that its peer sends. Reading is done by a reader
  that is given with the connection; the handlers are those
  of the session.

  Key definitions include:
    * `Action`
    * `HttpConnection`
    * `HttpConnection.handleRequestReceived`
    * `HttpConnection.handleWritingFinished`
    * `HttpConnection.step`

  Key theorems include:
    * `HttpConnection.toSession_handleRequestReceived`
    * `HttpConnection.toSession_handleWritingFinished`
-/

------------------------------------------------------------
-- Connections
------------------------------------------------------------

namespace Inks

/- What a session does, seen from outside. -/
inductive Action where
| readStarted
| dispatched (req : HttpRequest)
| writeStarted (res : HttpResponse)
| writeFinished
| closed
deriving DecidableEq, Repr

/- The parsers of requests have states in `P`. -/
structure HttpConnection
    (P : Type) where
  socket : Socket := .connected
  buff : ByteString := []
  parser : P
  -- The operations that are outstanding.
  outstanding : List Operation := []
  -- What the peer sends and was not read yet.
  incoming : ByteString := []
  -- Whether an exception has left a handler.
  failed : Bool := false
  -- Ghost: all that was done.
  trace : List Action := []
deriving DecidableEq, Repr

namespace HttpConnection

variable {P : Type}

/- The session without its buffer and its parser. -/
def toSession
    (c : HttpConnection P) : HttpSession where
  socket := c.socket
  operation := c.outstanding.head?

def resetParser
    (beast : Framing.Reader UInt8 P HttpRequest)
    (c : HttpConnection P) : HttpConnection P :=
  { c with parser := beast.fresh }

/- A read first looks at the bytes that are buffered. -/
def handleRequestReading
    (beast : Framing.Reader UInt8 P HttpRequest)
    (c : HttpConnection P) : HttpConnection P :=
  let fed := beast.feed (c.parser, c.buff) []
  { c with
    parser := fed.1
    buff := fed.2
    outstanding := c.outstanding ++ [.reading]
    trace := c.trace ++ [.readStarted] }

def run
    (beast : Framing.Reader UInt8 P HttpRequest)
    (c : HttpConnection P) : HttpConnection P :=
  c.handleRequestReading beast

def close
    (c : HttpConnection P) :
    Except SystemError (HttpConnection P) := do
  c.toSession.remoteEndpoint
  return { c with
    socket := .closed
    trace := c.trace ++ [.closed] }

def handleRequest
    (beast : Framing.Reader UInt8 P HttpRequest)
    (router : HttpRouter)
    (factory : HttpHandlerFactory)
    (c : HttpConnection P)
    (req : HttpRequest) : Bool × HttpConnection P :=
  let res := (router.dispatch factory req).response
  (true,
    { c with
      parser := beast.release c.parser
      outstanding :=
        c.outstanding ++ [.writing res.keepAlive]
      trace :=
        c.trace ++ [.dispatched req, .writeStarted res] })

/- When a read succeeds the parser has a message. -/
def handleRequestReceived
    (beast : Framing.Reader UInt8 P HttpRequest)
    (router : HttpRouter)
    (factory : HttpHandlerFactory)
    (c : HttpConnection P)
    (ec : Option IoError) :
    Except SystemError (HttpConnection P) :=
  match ec with
  | some _ => c.close
  | none =>
      match beast.message c.parser with
      | none => return c
      | some req => do
          c.toSession.remoteEndpoint
          let handled :=
            c.handleRequest beast router factory req
          if !handled.1 then
            handled.2.close
          else
            return handled.2

/- The parser is replaced, and the buffer is kept. -/
def handleWritingFinished
    (beast : Framing.Reader UInt8 P HttpRequest)
    (c : HttpConnection P)
    (ec : Option IoError)
    (keepAlive : Bool) :
    Except SystemError (HttpConnection P) :=
  match ec with
  | some _ => c.close
  | none =>
      if !keepAlive then
        c.close
      else
        return (c.resetParser beast).handleRequestReading
          beast

end HttpConnection

end Inks

------------------------------------------------------------
-- Steps
------------------------------------------------------------

namespace Inks

/-
  What the event loop runs: some bytes arrive for a read, a
  read completes, or a write completes.
-/
inductive ConnectionEvent where
| arrived (more : Nat)
| received (ec : Option IoError)
| written (keepAlive : Bool) (ec : Option IoError)
deriving DecidableEq, Repr

def ConnectionEvent.error :
    ConnectionEvent → Option IoError
| .arrived _ => none
| .received ec => ec
| .written _ ec => ec

namespace HttpConnection

variable {P : Type}

/- A socket read takes at least one byte, if there is one. -/
def arrive
    (beast : Framing.Reader UInt8 P HttpRequest)
    (c : HttpConnection P)
    (more : Nat) : HttpConnection P :=
  let fed :=
    beast.feed (c.parser, c.buff)
      (c.incoming.take (more + 1))
  { c with
    parser := fed.1
    buff := fed.2
    incoming := c.incoming.drop (more + 1) }

/- An operation completes. -/
def complete
    (c : HttpConnection P)
    (op : Operation)
    (actions : List Action) : HttpConnection P :=
  { c with
    outstanding := c.outstanding.erase op
    trace := c.trace ++ actions }

/- What becomes of the connection when a handler is done. -/
def finish
    (c : HttpConnection P)
    (result : Except SystemError (HttpConnection P)) :
    HttpConnection P :=
  match result with
  | .ok c => c
  | .error _ => { c with failed := true }

/-
  A read goes on until there is a message, and completes
  with it or with an error.
-/
def step
    (beast : Framing.Reader UInt8 P HttpRequest)
    (router : HttpRouter)
    (factory : HttpHandlerFactory)
    (c : HttpConnection P)
    (event : ConnectionEvent) : HttpConnection P :=
  if c.failed then
    c
  else
    match event with
    | .arrived more =>
        if .reading ∈ c.outstanding ∧
            (beast.message c.parser).isNone ∧
            !c.incoming.isEmpty then
          c.arrive beast more
        else
          c
    | .received ec =>
        if .reading ∈ c.outstanding ∧
            (ec.isSome ∨
              (beast.message c.parser).isSome) then
          c.finish
            ((c.complete .reading []).handleRequestReceived
              beast router factory ec)
        else
          c
    | .written keepAlive ec =>
        if .writing keepAlive ∈ c.outstanding then
          c.finish
            ((c.complete (.writing keepAlive)
              (if ec.isNone then [.writeFinished] else [])
              ).handleWritingFinished beast ec keepAlive)
        else
          c

theorem step_arrived
    (beast : Framing.Reader UInt8 P HttpRequest)
    (router : HttpRouter)
    (factory : HttpHandlerFactory)
    {c : HttpConnection P}
    (hFailed : c.failed = false)
    (more : Nat) :
    step beast router factory c (.arrived more) =
      if .reading ∈ c.outstanding ∧
          (beast.message c.parser).isNone ∧
          !c.incoming.isEmpty then
        c.arrive beast more
      else
        c := by
  simp only [step, hFailed, Bool.false_eq_true, if_false]

theorem step_received
    (beast : Framing.Reader UInt8 P HttpRequest)
    (router : HttpRouter)
    (factory : HttpHandlerFactory)
    {c : HttpConnection P}
    (hFailed : c.failed = false)
    (ec : Option IoError) :
    step beast router factory c (.received ec) =
      if .reading ∈ c.outstanding ∧
          (ec.isSome ∨ (beast.message c.parser).isSome) then
        c.finish
          ((c.complete .reading []).handleRequestReceived
            beast router factory ec)
      else
        c := by
  simp only [step, hFailed, Bool.false_eq_true, if_false]

theorem step_written
    (beast : Framing.Reader UInt8 P HttpRequest)
    (router : HttpRouter)
    (factory : HttpHandlerFactory)
    {c : HttpConnection P}
    (hFailed : c.failed = false)
    (keepAlive : Bool)
    (ec : Option IoError) :
    step beast router factory c (.written keepAlive ec) =
      if .writing keepAlive ∈ c.outstanding then
        c.finish
          ((c.complete (.writing keepAlive)
            (if ec.isNone then [.writeFinished] else [])
            ).handleWritingFinished beast ec keepAlive)
      else
        c := by
  simp only [step, hFailed, Bool.false_eq_true, if_false]

/- A session is constructed for a connection, and run. -/
def start
    (beast : Framing.Reader UInt8 P HttpRequest)
    (incoming : ByteString) : HttpConnection P :=
  run beast { parser := beast.fresh, incoming := incoming }

end HttpConnection

end Inks

------------------------------------------------------------
-- Handlers of the Session
------------------------------------------------------------

namespace Inks

namespace HttpConnection

variable {P : Type}
variable (beast : Framing.Reader UInt8 P HttpRequest)

/-
  Without the buffer and the parser the handlers are those
  of the session, when no operation is outstanding.
-/
theorem toSession_handleRequestReading
    {c : HttpConnection P}
    (hNone : c.outstanding = []) :
    (c.handleRequestReading beast).toSession =
      c.toSession.handleRequestReading := by
  simp [handleRequestReading, toSession, hNone,
    HttpSession.handleRequestReading]

theorem toSession_close
    (c : HttpConnection P) :
    c.close.map toSession = c.toSession.close := by
  cases hSocket : c.socket <;>
    simp [close, toSession, hSocket, HttpSession.close,
      HttpSession.remoteEndpoint, Except.map, bind,
      Except.bind, pure, Except.pure]

theorem toSession_handleRequest
    (router : HttpRouter)
    (factory : HttpHandlerFactory)
    {c : HttpConnection P}
    (hNone : c.outstanding = [])
    (req : HttpRequest) :
    (c.handleRequest beast router factory req).2.toSession =
      (c.toSession.handleRequest router factory req).2 := by
  simp [handleRequest, toSession, hNone,
    HttpSession.handleRequest]

/- A read that succeeds passes on the parser's message. -/
theorem toSession_handleRequestReceived
    (router : HttpRouter)
    (factory : HttpHandlerFactory)
    {c : HttpConnection P}
    (hNone : c.outstanding = [])
    {req : HttpRequest}
    (hMessage : beast.message c.parser = some req) :
    (c.handleRequestReceived beast router factory none).map
        toSession =
      c.toSession.handleRequestReceived router factory
        (.ok req) := by
  have hHandled :=
    toSession_handleRequest beast router factory hNone req
  cases hSocket : c.socket <;>
    simp_all [handleRequestReceived, toSession,
      HttpSession.handleRequestReceived,
      HttpSession.remoteEndpoint, handleRequest,
      HttpSession.handleRequest, Except.map, bind,
      Except.bind, pure, Except.pure]

theorem toSession_handleRequestReceived_error
    (router : HttpRouter)
    (factory : HttpHandlerFactory)
    (c : HttpConnection P)
    (ec : IoError) :
    (c.handleRequestReceived beast router factory
        (some ec)).map toSession =
      c.toSession.handleRequestReceived router factory
        (.error ec) :=
  c.toSession_close

theorem toSession_handleWritingFinished
    {c : HttpConnection P}
    (hNone : c.outstanding = [])
    (ec : Option IoError)
    (keepAlive : Bool) :
    (c.handleWritingFinished beast ec keepAlive).map
        toSession =
      c.toSession.handleWritingFinished ec keepAlive := by
  cases ec with
  | some e => exact c.toSession_close
  | none =>
      cases keepAlive with
      | false => exact c.toSession_close
      | true =>
          have hReading :=
            toSession_handleRequestReading beast
              (c := c.resetParser beast) hNone
          exact congrArg Except.ok hReading

end HttpConnection

end Inks
