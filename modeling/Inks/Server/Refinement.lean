import Inks.Library.Simulation
import Inks.Server.Service

/-
  The two models of the server agree. A server whose sessions
  have buffers, parsers and streams of bytes is, in each run
  and step by step, the server that is told when a request
  has come in and knows nothing of its bytes.

  Key definitions include:
    * `Service.serverEvents`
    * `Service.Refines`

  Key theorems include:
    * `Service.simulates_server`
    * `Service.refines_server`
-/

------------------------------------------------------------
-- Handlers of a Session
------------------------------------------------------------

namespace Inks

namespace HttpConnection

variable {P : Type}
variable {c after : HttpConnection P}

/- What becomes of a session when a handler is done. -/
def settle
    (c : HttpConnection P) :
    Except SystemError (HttpConnection P) →
      HttpConnection P
| .ok after => after
| .error _ => { c with failed := true }

/- One operation at a time, and no exception so far. -/
structure Orderly
    (c : HttpConnection P) : Prop where
  single : c.outstanding.length ≤ 1
  sound : c.failed = false

@[simp] theorem disconnect_frame
    (c : HttpConnection P) :
    c.disconnect.outstanding = c.outstanding ∧
      c.disconnect.parser = c.parser ∧
      c.disconnect.failed = c.failed := by
  unfold disconnect
  cases c.socket <;> simp

@[simp] theorem strike_frame
    (c : HttpConnection P)
    (ec : Option IoError) :
    (c.strike ec).outstanding = c.outstanding ∧
      (c.strike ec).parser = c.parser ∧
      (c.strike ec).failed = c.failed := by
  unfold strike
  split <;> simp

theorem toSession_disconnect
    (c : HttpConnection P) :
    c.disconnect.toSession = c.toSession.disconnect := by
  cases hSocket : c.socket <;>
    simp [disconnect, HttpSession.disconnect, toSession,
      hSocket]

/- An operation that completes, with what its error means. -/
theorem toSession_strike
    {op : Operation}
    (hOutstanding : c.outstanding = [op])
    (ec : Option IoError)
    (actions : List Action) :
    ((c.strike ec).complete op actions).toSession =
      c.toSession.complete ec := by
  have hDisconnect :
      (c.disconnect.complete op actions).toSession =
        HttpSession.disconnect
          { c.toSession with operation := none } := by
    cases hSocket : c.socket <;>
      simp [complete, disconnect, HttpSession.disconnect,
        toSession, hSocket, hOutstanding]
  rcases ec with _ | _ | _ | _ | _ <;>
    simp [strike, HttpSession.complete, hDisconnect]
  all_goals simp [complete, toSession, hOutstanding]

theorem orderly_of_close
    (hOrderly : Orderly c)
    (hClose : c.close = .ok after) :
    Orderly after := by
  cases hSocket : c.socket <;>
    simp [close, toSession, hSocket, pure, Except.pure,
      HttpSession.remoteEndpoint, bind, Except.bind]
      at hClose
  subst hClose
  exact ⟨hOrderly.single, hOrderly.sound⟩

variable (beast : Framing.Reader UInt8 P HttpRequest)
variable (router : HttpRouter)
variable (factory : HttpHandlerFactory)

theorem orderly_of_received
    (hNone : c.outstanding = [])
    (hSound : c.failed = false)
    {ec : Option IoError}
    (hReceived :
      c.handleRequestReceived beast router factory ec =
        .ok after) :
    Orderly after := by
  have hOrderly : Orderly c := ⟨by simp [hNone], hSound⟩
  cases ec with
  | some ec => exact orderly_of_close hOrderly hReceived
  | none =>
      cases hMessage : beast.message c.parser with
      | none =>
          simp [handleRequestReceived, hMessage, pure,
            Except.pure] at hReceived
          exact hReceived ▸ hOrderly
      | some req =>
          cases hSocket : c.socket <;>
            simp [handleRequestReceived, hMessage,
              toSession, hSocket, handleRequest,
              HttpSession.remoteEndpoint, bind,
              Except.bind, pure, Except.pure] at hReceived
          subst hReceived
          exact ⟨by simp [hNone], hSound⟩

theorem orderly_of_written
    (hNone : c.outstanding = [])
    (hSound : c.failed = false)
    {ec : Option IoError}
    {keepAlive : Bool}
    (hWritten :
      c.handleWritingFinished beast ec keepAlive =
        .ok after) :
    Orderly after := by
  have hOrderly : Orderly c := ⟨by simp [hNone], hSound⟩
  cases ec with
  | some ec => exact orderly_of_close hOrderly hWritten
  | none =>
      cases keepAlive with
      | false => exact orderly_of_close hOrderly hWritten
      | true =>
          simp [handleWritingFinished, pure, Except.pure]
            at hWritten
          subst hWritten
          exact
            ⟨by simp [handleRequestReading, resetParser,
              hNone], hSound⟩

/- A handler that runs, with the exception it may throw. -/
theorem happen_of_step
    {event : ConnectionEvent}
    (hAwaits : c.Awaits event)
    {struck : HttpConnection P}
    {result : Except SystemError (HttpConnection P)}
    (hStep :
      step beast router factory (c.strike event.error) event =
        struck.finish result)
    (hResult :
      ∀ after, result = .ok after → Orderly after) :
    c.happen beast router factory (.completed event) =
      c.settle result := by
  simp only [happen, if_pos hAwaits, hStep]
  cases result with
  | error e => simp [finish, settle]
  | ok after =>
      have hSound := (hResult after rfl).sound
      simp [finish, settle, hSound]

end HttpConnection

end Inks

------------------------------------------------------------
-- One Event of a Session
------------------------------------------------------------

namespace Inks

namespace HttpConnection

variable {P : Type}
variable {c : HttpConnection P}
variable (beast : Framing.Reader UInt8 P HttpRequest)
variable (router : HttpRouter)
variable (factory : HttpHandlerFactory)

/- An orderly session only has the operation that it has. -/
theorem Orderly.outstanding_eq
    (hOrderly : Orderly c)
    {op : Operation}
    (hMem : op ∈ c.outstanding) :
    c.outstanding = [op] := by
  rcases hOutstanding : c.outstanding with _ | ⟨first, later⟩
  · rw [hOutstanding] at hMem
    cases hMem
  · have hSingle := hOrderly.single
    rw [hOutstanding, List.length_cons] at hSingle
    have hNil : later = [] :=
      List.length_eq_zero_iff.mp (by omega)
    rw [hOutstanding, hNil, List.mem_singleton] at hMem
    rw [hNil, hMem]

/- The handler of a read runs on the session struck. -/
theorem happen_received
    (hOrderly : Orderly c)
    (hReading : .reading ∈ c.outstanding)
    {ec : Option IoError}
    (hReady :
      ec.isSome ∨ (beast.message c.parser).isSome) :
    c.happen beast router factory
        (.completed (.received ec)) =
      c.settle
        (((c.strike ec).complete .reading []
          ).handleRequestReceived beast router factory
            ec) := by
  have hOne := hOrderly.outstanding_eq hReading
  have hFrame := c.strike_frame ec
  have hAwaits : c.Awaits (.received ec) := hReading
  have hStep :=
    step_received beast router factory
      (hFrame.2.2.trans hOrderly.sound) ec
  rw [hFrame.1, hFrame.2.1, if_pos ⟨hReading, hReady⟩]
    at hStep
  apply happen_of_step beast router factory hAwaits hStep
  intro after hOk
  apply orderly_of_received beast router factory _ _ hOk
  · simp [complete, hOne]
  · exact hFrame.2.2.trans hOrderly.sound

theorem happen_written
    (hOrderly : Orderly c)
    {keepAlive : Bool}
    (hWriting : .writing keepAlive ∈ c.outstanding)
    (ec : Option IoError) :
    c.happen beast router factory
        (.completed (.written keepAlive ec)) =
      c.settle
        (((c.strike ec).complete (.writing keepAlive)
          (if ec.isNone then [.writeFinished] else [])
          ).handleWritingFinished beast ec keepAlive) := by
  have hOne := hOrderly.outstanding_eq hWriting
  have hFrame := c.strike_frame ec
  have hAwaits : c.Awaits (.written keepAlive ec) :=
    hWriting
  have hStep :=
    step_written beast router factory
      (hFrame.2.2.trans hOrderly.sound) keepAlive ec
  rw [hFrame.1, if_pos hWriting] at hStep
  apply happen_of_step beast router factory hAwaits hStep
  intro after hOk
  apply orderly_of_written beast _ _ hOk
  · simp [complete, hOne]
  · exact hFrame.2.2.trans hOrderly.sound

/- Bytes that arrive are seen by the parser only. -/
theorem happen_arrived
    (hOrderly : Orderly c)
    (more : Nat) :
    c.happen beast router factory
        (.completed (.arrived more)) = c ∨
      c.happen beast router factory
        (.completed (.arrived more)) =
          c.arrive beast more := by
  have hSound : (c.arrive beast more).failed = false :=
    hOrderly.sound
  have hStep :
      step beast router factory
          (c.strike (ConnectionEvent.arrived more).error)
          (.arrived more) = c ∨
        step beast router factory
            (c.strike (ConnectionEvent.arrived more).error)
            (.arrived more) = c.arrive beast more := by
    simp only [ConnectionEvent.error, strike,
      step_arrived beast router factory hOrderly.sound]
    split
    · exact Or.inr rfl
    · exact Or.inl rfl
  by_cases hReading : c.Awaits (.arrived more)
  · simp only [happen, if_pos hReading]
    rcases hStep with hStep | hStep
    · simp [hStep, hOrderly.sound]
    · simp [hStep, hSound]
  · simp [happen, hReading]

theorem orderly_arrived
    (hOrderly : Orderly c)
    (more : Nat) :
    (c.happen beast router factory
        (.completed (.arrived more))).toSession =
        c.toSession ∧
      Orderly
        (c.happen beast router factory
          (.completed (.arrived more))) := by
  rcases happen_arrived beast router factory hOrderly more
    with hSame | hArrive
  · rw [hSame]
    exact ⟨rfl, hOrderly⟩
  · rw [hArrive]
    exact ⟨rfl, hOrderly.single, hOrderly.sound⟩

/- A read or a write that cannot complete does not. -/
theorem happen_idle
    (hOrderly : Orderly c)
    {event : ConnectionEvent}
    (hIdle :
      ¬ c.Awaits event ∨
        (event = .received none ∧
          beast.message c.parser = none)) :
    c.happen beast router factory (.completed event) =
      c := by
  unfold happen
  by_cases hAwaits : c.Awaits event
  · rcases hIdle with hNot | ⟨rfl, hNone⟩
    · exact absurd hAwaits hNot
    · simp only [if_pos hAwaits, ConnectionEvent.error,
        strike,
        step_received beast router factory hOrderly.sound,
        hNone]
      simp [hOrderly.sound]
  · simp only [if_neg hAwaits]

end HttpConnection

end Inks

------------------------------------------------------------
-- The Server without Buffers
------------------------------------------------------------

namespace Inks

namespace Service

variable {P : Type}

/- What the server is told of an event of a session. -/
def sessionEvents
    (beast : Framing.Reader UInt8 P HttpRequest)
    (c : HttpConnection P)
    (i : Nat) : SessionEvent → List ServerEvent
| .disconnected => [.disconnect i]
| .completed (.arrived _) => []
| .completed (.received (some ec)) =>
    if .reading ∈ c.outstanding then
      [.received i (.error ec)]
    else
      []
| .completed (.received none) =>
    match beast.message c.parser with
    | none => []
    | some req =>
        if .reading ∈ c.outstanding then
          [.received i (.ok req)]
        else
          []
| .completed (.written keepAlive ec) =>
    if .writing keepAlive ∈ c.outstanding then
      [.written i ec]
    else
      []

def serverEvents
    (beast : Framing.Reader UInt8 P HttpRequest)
    (service : Service P)
    (event : ServiceEvent) : List ServerEvent :=
  if !service.running then
    []
  else
    match event with
    | .accepted (.error ec) => [.accepted (some ec)]
    | .accepted (.ok _) => [.accepted none]
    | .session i event =>
        match service.sessions[i]? with
        | none => []
        | some c => sessionEvents beast c i event
    | .signalled => []

/-
  The server has the sessions of the service, and it is down
  exactly when an exception has left one of their handlers.
  It knows nothing of signals.
-/
structure Refines
    (service : Service P)
    (server : HttpServer) : Prop where
  sessions :
    server.sessions =
      service.sessions.map HttpConnection.toSession
  running :
    service.running = true →
      server.up = true ∧ server.acceptor = service.acceptor
  failed :
    server.up = false ↔
      ∃ c ∈ service.sessions, c.failed = true
  single :
    ∀ c ∈ service.sessions, c.outstanding.length ≤ 1

theorem set_of_getElem?
    {α : Type}
    {xs : List α}
    {i : Nat}
    {x : α}
    (hGet : xs[i]? = some x) :
    xs.set i x = xs := by
  rcases List.getElem?_eq_some_iff.mp hGet with ⟨hLt, rfl⟩
  exact List.set_getElem_self hLt

theorem modify_of_getElem?
    {α : Type}
    {xs : List α}
    {i : Nat}
    {x : α}
    (hGet : xs[i]? = some x)
    (f : α → α) :
    xs.modify i f = xs.set i (f x) := by
  rcases List.getElem?_eq_some_iff.mp hGet with ⟨hLt, rfl⟩
  apply List.ext_getElem?
  intro j
  rw [List.getElem?_modify, List.getElem?_set]
  by_cases hSame : i = j
  · subst hSame
    simp [hLt]
  · simp [hSame]

variable {service : Service P} {server : HttpServer}

theorem Refines.orderly
    (hRefines : Refines service server)
    (hRunning : service.running = true)
    {c : HttpConnection P}
    (hMem : c ∈ service.sessions) :
    c.Orderly := by
  refine ⟨hRefines.single c hMem, ?_⟩
  have hUp := (hRefines.running hRunning).1
  by_contra hFailed
  have hDown :=
    hRefines.failed.mpr
      ⟨c, hMem, by simpa using hFailed⟩
  rw [hUp] at hDown
  cases hDown

/- The server has a session where the service has one. -/
theorem Refines.seen
    (hRefines : Refines service server)
    {i : Nat}
    {c : HttpConnection P}
    (hMember : service.sessions[i]? = some c) :
    server.sessions[i]? = some c.toSession := by
  rw [hRefines.sessions, List.getElem?_map, hMember]
  rfl

/- A session changes, and the server's session with it. -/
theorem Refines.set
    (hRefines : Refines service server)
    (hRunning : service.running = true)
    (i : Nat)
    {after : HttpConnection P}
    (hAfter : after.Orderly) :
    Refines
      { service with
        running := !after.failed
        sessions := service.sessions.set i after }
      { server with
        sessions :=
          server.sessions.set i after.toSession } := by
  have hUp := hRefines.running hRunning
  refine ⟨?_, fun _ => hUp, ?_, ?_⟩
  · simp [hRefines.sessions, List.map_set]
  · rw [hUp.1]
    constructor
    · intro hDown
      cases hDown
    · rintro ⟨c, hMem, hFailed⟩
      rcases List.mem_or_eq_of_mem_set hMem with
        hOld | rfl
      · have hSound := (hRefines.orderly hRunning hOld).sound
        rw [hSound] at hFailed
        cases hFailed
      · rw [hAfter.sound] at hFailed
        cases hFailed
  · intro c hMem
    rcases List.mem_or_eq_of_mem_set hMem with hOld | rfl
    · exact hRefines.single c hOld
    · exact hAfter.single

/- A session changes in what the server does not see. -/
theorem Refines.hidden
    (hRefines : Refines service server)
    (hRunning : service.running = true)
    {i : Nat}
    {c after : HttpConnection P}
    (hMember : service.sessions[i]? = some c)
    (hAfter : after.Orderly)
    (hSame : after.toSession = c.toSession) :
    Refines
      { service with
        running := !after.failed
        sessions := service.sessions.set i after }
      server := by
  have hSet := hRefines.set hRunning i hAfter
  rw [hSame, set_of_getElem? (hRefines.seen hMember)] at hSet
  exact hSet

/- A handler has run, or an exception has left it. -/
theorem Refines.settle
    (hRefines : Refines service server)
    (hRunning : service.running = true)
    {i : Nat}
    {c : HttpConnection P}
    (hMember : service.sessions[i]? = some c)
    {result : Except SystemError (HttpConnection P)}
    (hResult :
      ∀ after, result = .ok after → after.Orderly) :
    Refines
      { service with
        running := !(c.settle result).failed
        sessions :=
          service.sessions.set i (c.settle result) }
      (server.finish i
        (result.map HttpConnection.toSession)) := by
  cases result with
  | ok after =>
      exact hRefines.set hRunning i (hResult after rfl)
  | error e =>
      have hLt := (List.getElem?_eq_some_iff.mp hMember).1
      have hSame :
          (c.settle (.error e)).toSession = c.toSession :=
        rfl
      have hSessions :
          (service.sessions.set i
              (c.settle (.error e))).map
              HttpConnection.toSession =
            service.sessions.map
              HttpConnection.toSession := by
        rw [List.map_set, hSame]
        apply set_of_getElem?
        rw [List.getElem?_map, hMember]
        rfl
      refine ⟨?_, ?_, ?_, ?_⟩
      · exact hRefines.sessions.trans hSessions.symm
      · intro hStill
        cases hStill
      · refine ⟨fun _ => ?_, fun _ => rfl⟩
        exact ⟨_, List.mem_set hLt _, rfl⟩
      · intro other hMem
        rcases List.mem_or_eq_of_mem_set hMem with
          hOld | rfl
        · exact hRefines.single other hOld
        · exact
            hRefines.single c
              (List.mem_of_getElem? hMember)

end Service

end Inks

------------------------------------------------------------
-- Simulation
------------------------------------------------------------

namespace Inks

namespace Service

variable {P : Type}
variable {beast : Framing.Reader UInt8 P HttpRequest}
variable {router : HttpRouter} {factory : HttpHandlerFactory}
variable {service : Service P} {server : HttpServer}

theorem session_of_member
    {i : Nat}
    {c : HttpConnection P}
    (hMember : service.sessions[i]? = some c)
    (event : SessionEvent) :
    service.session beast router factory i event =
      { service with
        running :=
          !(c.happen beast router factory event).failed
        sessions :=
          service.sessions.set i
            (c.happen beast router factory event) } := by
  simp [session, hMember]

/- A session loses its peer. -/
theorem Refines.disconnect
    (hRefines : Refines service server)
    (hRunning : service.running = true)
    {i : Nat}
    {c : HttpConnection P}
    (hMember : service.sessions[i]? = some c) :
    Refines
      (service.session beast router factory i .disconnected)
      (HttpServer.step router factory server
        (.disconnect i)) := by
  have hOrderly :=
    hRefines.orderly hRunning (List.mem_of_getElem? hMember)
  have hFrame := c.disconnect_frame
  have hAfter : c.disconnect.Orderly :=
    ⟨hFrame.1 ▸ hOrderly.single,
      hFrame.2.2.trans hOrderly.sound⟩
  have hSeen := hRefines.seen hMember
  have hSet := hRefines.set hRunning i hAfter
  rw [HttpConnection.toSession_disconnect] at hSet
  have hServer :
      HttpServer.step router factory server
          (.disconnect i) =
        { server with
          sessions :=
            server.sessions.set i
              c.toSession.disconnect } := by
    simp [HttpServer.step, (hRefines.running hRunning).1,
      modify_of_getElem? hSeen]
  rw [session_of_member hMember, hServer]
  exact hSet

/- A read completes with a request or with an error. -/
theorem Refines.received
    (hRefines : Refines service server)
    (hRunning : service.running = true)
    {i : Nat}
    {c : HttpConnection P}
    (hMember : service.sessions[i]? = some c)
    (hReading : .reading ∈ c.outstanding)
    (result : Except IoError HttpRequest)
    (hReady :
      ∀ req, result = .ok req →
        beast.message c.parser = some req) :
    Refines
      (service.session beast router factory i
        (.completed (.received (readError result))))
      (HttpServer.step router factory server
        (.received i result)) := by
  have hOrderly :=
    hRefines.orderly hRunning (List.mem_of_getElem? hMember)
  have hOne := hOrderly.outstanding_eq hReading
  have hSeen := hRefines.seen hMember
  have hServer :
      HttpServer.step router factory server
          (.received i result) =
        server.finish i
          ((c.toSession.complete (readError result)
            ).handleRequestReceived router factory
              result) := by
    simp only [HttpServer.step, HttpServer.received, hSeen,
      (hRefines.running hRunning).1, Bool.not_true,
      Bool.false_eq_true, if_false]
    simp [HttpConnection.toSession, hOne]
  have hFrame := c.strike_frame (readError result)
  have hNone :
      ((c.strike (readError result)).complete .reading []
        ).outstanding = [] := by
    simp [HttpConnection.complete, hOne]
  have hSome :
      (readError result).isSome ∨
        (beast.message c.parser).isSome := by
    cases result with
    | error ec => exact Or.inl rfl
    | ok req => exact Or.inr (by simp [hReady req rfl])
  have hHandler :
      (((c.strike (readError result)).complete .reading []
          ).handleRequestReceived beast router factory
            (readError result)).map
              HttpConnection.toSession =
        (c.toSession.complete (readError result)
          ).handleRequestReceived router factory result := by
    rw [← HttpConnection.toSession_strike hOne _ []]
    cases result with
    | error ec =>
        exact
          HttpConnection.toSession_handleRequestReceived_error
            beast router factory _ ec
    | ok req =>
        apply HttpConnection.toSession_handleRequestReceived
          beast router factory hNone
        exact
          (congrArg beast.message hFrame.2.1).trans
            (hReady req rfl)
  rw [session_of_member hMember, hServer, ← hHandler,
    HttpConnection.happen_received beast router factory
      hOrderly hReading hSome]
  apply hRefines.settle hRunning hMember
  intro after hOk
  exact
    HttpConnection.orderly_of_received beast router factory
      hNone (hFrame.2.2.trans hOrderly.sound) hOk

theorem Refines.written
    (hRefines : Refines service server)
    (hRunning : service.running = true)
    {i : Nat}
    {c : HttpConnection P}
    (hMember : service.sessions[i]? = some c)
    {keepAlive : Bool}
    (hWriting : .writing keepAlive ∈ c.outstanding)
    (ec : Option IoError) :
    Refines
      (service.session beast router factory i
        (.completed (.written keepAlive ec)))
      (HttpServer.step router factory server
        (.written i ec)) := by
  have hOrderly :=
    hRefines.orderly hRunning (List.mem_of_getElem? hMember)
  have hOne := hOrderly.outstanding_eq hWriting
  have hSeen := hRefines.seen hMember
  have hServer :
      HttpServer.step router factory server
          (.written i ec) =
        server.finish i
          ((c.toSession.complete ec).handleWritingFinished
            ec keepAlive) := by
    simp only [HttpServer.step, HttpServer.written, hSeen,
      (hRefines.running hRunning).1, Bool.not_true,
      Bool.false_eq_true, if_false]
    simp [HttpConnection.toSession, hOne]
  have hNone :
      ((c.strike ec).complete (.writing keepAlive)
          (if ec.isNone then [.writeFinished] else [])
        ).outstanding = [] := by
    simp [HttpConnection.complete, hOne]
  rw [session_of_member hMember, hServer,
    ← HttpConnection.toSession_strike hOne ec
      (if ec.isNone then [.writeFinished] else []),
    ← HttpConnection.toSession_handleWritingFinished beast
      hNone,
    HttpConnection.happen_written beast router factory
      hOrderly hWriting]
  apply hRefines.settle hRunning hMember
  intro after hOk
  exact
    HttpConnection.orderly_of_written beast hNone
      ((c.strike_frame ec).2.2.trans hOrderly.sound) hOk

/- One event of a session. -/
theorem Refines.session
    (hRefines : Refines service server)
    (hRunning : service.running = true)
    {i : Nat}
    {c : HttpConnection P}
    (hMember : service.sessions[i]? = some c)
    (event : SessionEvent) :
    Refines
      (service.session beast router factory i event)
      (Transition.run (HttpServer.step router factory) server
        (sessionEvents beast c i event)) := by
  have hOrderly :=
    hRefines.orderly hRunning (List.mem_of_getElem? hMember)
  have hIdle (event : ConnectionEvent)
      (hNothing :
        ¬ c.Awaits event ∨
          (event = .received none ∧
            beast.message c.parser = none)) :
      Refines
        (service.session beast router factory i
          (.completed event)) server := by
    rw [session_of_member hMember,
      HttpConnection.happen_idle beast router factory
        hOrderly hNothing]
    exact hRefines.hidden hRunning hMember hOrderly rfl
  cases event with
  | disconnected =>
      exact hRefines.disconnect hRunning hMember
  | completed event =>
      cases event with
      | arrived more =>
          have hArrived :=
            HttpConnection.orderly_arrived beast router
              factory hOrderly more
          rw [session_of_member hMember]
          exact
            hRefines.hidden hRunning hMember hArrived.2
              hArrived.1
      | written keepAlive ec =>
          by_cases hWriting :
              .writing keepAlive ∈ c.outstanding
          · simp only [sessionEvents, if_pos hWriting]
            exact
              hRefines.written hRunning hMember hWriting ec
          · simp only [sessionEvents, if_neg hWriting]
            exact hIdle _ (Or.inl hWriting)
      | received ec =>
          by_cases hReading : .reading ∈ c.outstanding
          · cases ec with
            | some ec =>
                simp only [sessionEvents, if_pos hReading]
                apply hRefines.received hRunning hMember
                  hReading (.error ec)
                intro req hOk
                cases hOk
            | none =>
                cases hMessage : beast.message c.parser with
                | none =>
                    simp only [sessionEvents, hMessage]
                    exact hIdle _ (Or.inr ⟨rfl, hMessage⟩)
                | some req =>
                    simp only [sessionEvents, hMessage,
                      if_pos hReading]
                    apply hRefines.received hRunning hMember
                      hReading (.ok req)
                    intro other hOk
                    cases hOk
                    exact hMessage
          · have hQuiet :
                sessionEvents beast c i
                  (.completed (.received ec)) = [] := by
              cases ec <;>
                simp only [sessionEvents, if_neg hReading]
              split <;> rfl
            rw [hQuiet]
            exact hIdle (.received ec) (Or.inl hReading)

/- A peer is accepted, or the acceptor fails. -/
theorem Refines.accepted
    (hRefines : Refines service server)
    (hRunning : service.running = true)
    (peer : Except IoError ByteString) :
    Refines
      (step beast router factory service (.accepted peer))
      (Transition.run (HttpServer.step router factory) server
        (serverEvents beast service (.accepted peer))) := by
  have hUp := hRefines.running hRunning
  cases hOpen : service.acceptor with
  | false =>
      have hClosed : server.acceptor = false :=
        hUp.2.trans hOpen
      cases peer <;>
        simpa [step, serverEvents, hRunning, hOpen,
          Transition.run, HttpServer.step, hClosed, hUp.1]
          using hRefines
  | true =>
      have hServer : server.acceptor = true :=
        hUp.2.trans hOpen
      cases peer with
      | error ec =>
          simp only [step, serverEvents, hRunning, hOpen,
            Bool.not_true, Bool.false_eq_true, if_false,
            if_true, accept, close, Transition.run,
            List.foldl_cons, List.foldl_nil,
            HttpServer.step, hServer, hUp.1,
            HttpServer.accept]
          exact
            ⟨hRefines.sessions, fun _ => ⟨rfl, rfl⟩,
              hUp.1 ▸ hRefines.failed, hRefines.single⟩
      | ok incoming =>
          have hStart :
              (HttpConnection.start beast incoming).Orderly :=
            ⟨Nat.le_refl 1, rfl⟩
          simp only [step, serverEvents, hRunning, hOpen,
            Bool.not_true, Bool.false_eq_true, if_false,
            if_true, accept, Transition.run,
            List.foldl_cons, List.foldl_nil,
            HttpServer.step, hServer, hUp.1,
            HttpServer.accept]
          refine ⟨?_, fun _ => ⟨rfl, rfl⟩, ?_, ?_⟩
          · rw [List.map_append, hRefines.sessions]
            rfl
          · have hFailed := hUp.1 ▸ hRefines.failed
            simp only [List.mem_append, List.mem_singleton,
              or_and_right, exists_or, ← hFailed,
              exists_eq_left, hStart.sound]
            simp
          · intro c hMem
            rcases List.mem_append.mp hMem with hOld | hNew
            · exact hRefines.single c hOld
            · rw [List.mem_singleton.mp hNew]
              exact hStart.single

/- A signal ends the loop, and the server is not told. -/
theorem Refines.signalled
    (hRefines : Refines service server) :
    Refines service.terminate server := by
  have hSessions :
      service.terminate.sessions = service.sessions := by
    unfold terminate close
    split <;> rfl
  refine ⟨?_, ?_, ?_, ?_⟩
  · exact hSessions ▸ hRefines.sessions
  · intro hStill
    cases hStill
  · exact hSessions ▸ hRefines.failed
  · exact hSessions ▸ hRefines.single

theorem simulates_server :
    Transition.Simulates (step beast router factory)
      (HttpServer.step router factory) (serverEvents beast)
      Refines := by
  intro service server event hRefines
  cases hRunning : service.running with
  | false =>
      simpa [step, serverEvents, hRunning] using hRefines
  | true =>
      cases event with
      | accepted peer =>
          exact hRefines.accepted hRunning peer
      | signalled =>
          simpa [step, serverEvents, hRunning]
            using hRefines.signalled
      | session i event =>
          simp only [step, serverEvents, hRunning,
            Bool.not_true, Bool.false_eq_true, if_false]
          cases hMember : service.sessions[i]? with
          | none =>
              simp only [Service.session, hMember]
              exact hRefines
          | some c =>
              exact hRefines.session hRunning hMember event

/-
  In every run the service does what the server does that is
  told of each accept, of each peer that is lost, of each
  request that has come in and of each write that completes:
  its sessions are the same, and they go down together.
-/
theorem refines_server
    (beast : Framing.Reader UInt8 P HttpRequest)
    (router : HttpRouter)
    (factory : HttpHandlerFactory)
    (events : List ServiceEvent) :
    Refines
      (Transition.run (step beast router factory) {} events)
      (Transition.run (HttpServer.step router factory) {}
        (Transition.trace (step beast router factory)
          (serverEvents beast) {} events)) := by
  apply simulates_server.run
  refine ⟨rfl, fun _ => ⟨rfl, rfl⟩, ?_, ?_⟩ <;> simp

end Service

end Inks
