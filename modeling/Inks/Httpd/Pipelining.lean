import Inks.Httpd.Connection

/-
  Keep-alive and pipelining. The requests on a connection
  are served one after the other, whether their bytes come
  one by one or several requests share a read: the parser is
  replaced between requests, and the buffer is kept.

  Key definitions include:
    * `HttpConnection.serve`
    * `HttpConnection.Phase`
    * `HttpConnection.Pipelined`

  Key theorems include:
    * `HttpConnection.phase_step`
    * `HttpConnection.pipelining_in_order`
-/

------------------------------------------------------------
-- Serving Requests
------------------------------------------------------------

namespace Inks

namespace HttpConnection

/- What is done for one request, once it is being read. -/
def exchange
    (router : HttpRouter)
    (factory : HttpHandlerFactory)
    (req : HttpRequest) : List Action :=
  let res := (router.dispatch factory req).response
  [.readStarted, .dispatched req, .writeStarted res,
    .writeFinished]

/-
  What is done for some requests, in order, up to the first
  response that does not keep the connection.
-/
def serve
    (router : HttpRouter)
    (factory : HttpHandlerFactory) :
    List HttpRequest → List Action
| [] => [.readStarted]
| req :: later =>
    let res := (router.dispatch factory req).response
    exchange router factory req ++
      if res.keepAlive then
        serve router factory later
      else
        [.closed]

/- Some requests that all keep the connection. -/
def KeepAlive
    (router : HttpRouter)
    (factory : HttpHandlerFactory)
    (reqs : List HttpRequest) : Prop :=
  ∀ req ∈ reqs,
    (router.dispatch factory req).response.keepAlive = true

theorem serve_append
    {router : HttpRouter}
    {factory : HttpHandlerFactory}
    {served : List HttpRequest}
    (hServed : KeepAlive router factory served)
    (later : List HttpRequest) :
    serve router factory (served ++ later) =
      served.flatMap (exchange router factory) ++
        serve router factory later := by
  induction served with
  | nil => rfl
  | cons req served ih =>
      have hFirst := hServed req List.mem_cons_self
      have hRest : KeepAlive router factory served :=
        fun other hMem =>
          hServed other (List.mem_cons_of_mem req hMem)
      rw [List.cons_append, serve, if_pos hFirst,
        ih hRest, List.flatMap_cons, List.append_assoc]

theorem readStarted_prefix_serve
    (router : HttpRouter)
    (factory : HttpHandlerFactory)
    (reqs : List HttpRequest) :
    [Action.readStarted] <+: serve router factory reqs := by
  cases reqs with
  | nil => exact List.prefix_refl _
  | cons req later => exact ⟨_, rfl⟩

end HttpConnection

end Inks

------------------------------------------------------------
-- Phases of a Connection
------------------------------------------------------------

namespace Inks

namespace HttpConnection

variable {P : Type}

/- The bytes of some messages. -/
def stream
    (messages : List (ByteString × HttpRequest)) :
    ByteString :=
  messages.flatMap Prod.fst

def requests
    (messages : List (ByteString × HttpRequest)) :
    List HttpRequest :=
  messages.map Prod.snd

/-
  Where a connection is when some requests were served and
  the messages of the others are still to be taken. While it
  reads, a fresh parser has seen what was read behind the
  last request. While it writes, the buffer and what is to
  come make up the messages behind the current one.
-/
inductive Phase
    (beast : Framing.Reader UInt8 P HttpRequest)
    (router : HttpRouter)
    (factory : HttpHandlerFactory)
    (served : List HttpRequest) :
    List (ByteString × HttpRequest) →
      HttpConnection P → Prop
| reading
    {rest : List (ByteString × HttpRequest)}
    {c : HttpConnection P}
    (chunks : List ByteString)
    (hParser : (c.parser, c.buff) = beast.readAll chunks)
    (hStream :
      chunks.flatten ++ c.incoming = stream rest)
    (hOutstanding : c.outstanding = [.reading])
    (hSocket : c.socket = .connected)
    (hFailed : c.failed = false)
    (hTrace :
      c.trace =
        served.flatMap (exchange router factory) ++
          [.readStarted]) :
    Phase beast router factory served rest c
| writing
    {bytes : ByteString}
    {req : HttpRequest}
    {rest : List (ByteString × HttpRequest)}
    {c : HttpConnection P}
    (hStream : c.buff ++ c.incoming = stream rest)
    (hOutstanding :
      c.outstanding =
        [.writing
          (router.dispatch factory req).response.keepAlive])
    (hSocket : c.socket = .connected)
    (hFailed : c.failed = false)
    (hTrace :
      c.trace =
        served.flatMap (exchange router factory) ++
          [.readStarted, .dispatched req,
            .writeStarted
              (router.dispatch factory req).response]) :
    Phase beast router factory served
      ((bytes, req) :: rest) c
| closed
    {bytes : ByteString}
    {req : HttpRequest}
    {rest : List (ByteString × HttpRequest)}
    {c : HttpConnection P}
    (hLast :
      (router.dispatch factory req).response.keepAlive =
        false)
    (hOutstanding : c.outstanding = [])
    (hFailed : c.failed = false)
    (hTrace :
      c.trace =
        served.flatMap (exchange router factory) ++
          exchange router factory req ++ [.closed]) :
    Phase beast router factory served
      ((bytes, req) :: rest) c

/-
  What a step gets on with: either something is done, or
  there are fewer bytes to come.
-/
def Advances
    (c c' : HttpConnection P) : Prop :=
  (c.trace.length < c'.trace.length ∧
      c'.incoming = c.incoming) ∨
    (c'.trace = c.trace ∧
      c'.incoming.length < c.incoming.length)

end HttpConnection

end Inks

------------------------------------------------------------
-- Steps of a Phase
------------------------------------------------------------

namespace Inks

namespace HttpConnection

variable {P : Type}
variable {beast : Framing.Reader UInt8 P HttpRequest}
variable {router : HttpRouter} {factory : HttpHandlerFactory}

/- The reader takes exactly these messages off a stream. -/
def Framed
    (beast : Framing.Reader UInt8 P HttpRequest)
    (messages : List (ByteString × HttpRequest)) : Prop :=
  ∀ message ∈ messages,
    beast.Frames message.1 message.2

/-
  A connection is in a phase when some of the messages were
  served, and their responses all keep it.
-/
def InPhase
    (beast : Framing.Reader UInt8 P HttpRequest)
    (router : HttpRouter)
    (factory : HttpHandlerFactory)
    (messages : List (ByteString × HttpRequest))
    (c : HttpConnection P) : Prop :=
  ∃ front rest, messages = front ++ rest ∧
    KeepAlive router factory (requests front) ∧
    Phase beast router factory (requests front) rest c

/- While reading, the parser has the next message or not. -/
theorem message_cases
    (hFresh : beast.message beast.fresh = none)
    {rest : List (ByteString × HttpRequest)}
    (hFramed : Framed beast rest)
    {c : HttpConnection P}
    {chunks : List ByteString}
    (hParser : (c.parser, c.buff) = beast.readAll chunks)
    (hStream :
      chunks.flatten ++ c.incoming = stream rest) :
    (beast.message c.parser = none ∧
        (rest ≠ [] → c.incoming ≠ [])) ∨
      ∃ bytes req later, rest = (bytes, req) :: later ∧
        beast.message c.parser = some req ∧
        c.buff ++ c.incoming = stream later := by
  have hState : c.parser = (beast.readAll chunks).1 ∧
      c.buff = (beast.readAll chunks).2 :=
    ⟨congrArg Prod.fst hParser, congrArg Prod.snd hParser⟩
  cases rest with
  | nil =>
      have hNil : chunks.flatten = [] :=
        (List.append_eq_nil_iff.mp hStream).1
      rw [beast.readAll_of_flatten_eq_nil hNil] at hState
      refine Or.inl ⟨?_, fun hNe => absurd rfl hNe⟩
      rw [hState.1]
      exact hFresh
  | cons message later =>
      have hFrames := hFramed message List.mem_cons_self
      rw [hState.1, hState.2]
      rcases Framing.Reader.readAll_cases hFrames hStream with
        ⟨hNone, hMore⟩ | ⟨hSome, hLater⟩
      · exact Or.inl ⟨hNone, fun _ => hMore⟩
      · exact
          Or.inr
            ⟨message.1, message.2, later, rfl, hSome,
              hLater⟩

/- The handler of a read that succeeds. -/
theorem handleRequestReceived_of_message
    (router : HttpRouter)
    (factory : HttpHandlerFactory)
    {c : HttpConnection P}
    (hSocket : c.socket = .connected)
    {req : HttpRequest}
    (hMessage : beast.message c.parser = some req) :
    c.handleRequestReceived beast router factory none =
      .ok (c.handleRequest beast router factory req).2 := by
  simp [handleRequestReceived, hMessage, toSession, hSocket,
    HttpSession.remoteEndpoint, handleRequest, bind,
    Except.bind, pure, Except.pure]

theorem close_of_connected
    {c : HttpConnection P}
    (hSocket : c.socket = .connected) :
    c.close =
      .ok
        { c with
          socket := .closed
          trace := c.trace ++ [.closed] } := by
  simp [close, toSession, hSocket, pure, Except.pure,
    HttpSession.remoteEndpoint, bind, Except.bind]

/-
  While reading, bytes arrive for the parser, or the message
  that it has is dispatched.
-/
theorem step_reading
    (hFresh : beast.message beast.fresh = none)
    {served : List HttpRequest}
    {rest : List (ByteString × HttpRequest)}
    (hFramed : Framed beast rest)
    {c : HttpConnection P}
    {chunks : List ByteString}
    (hParser : (c.parser, c.buff) = beast.readAll chunks)
    (hStream :
      chunks.flatten ++ c.incoming = stream rest)
    (hOutstanding : c.outstanding = [.reading])
    (hSocket : c.socket = .connected)
    (hFailed : c.failed = false)
    (hTrace :
      c.trace =
        served.flatMap (exchange router factory) ++
          [.readStarted])
    {event : ConnectionEvent}
    (hClean : event.error = none) :
    step beast router factory c event = c ∨
      (Advances c (step beast router factory c event) ∧
        Phase beast router factory served rest
          (step beast router factory c event)) := by
  cases event with
  | written keepAlive ec =>
      rw [step_written _ _ _ hFailed]
      simp [hOutstanding]
  | arrived more =>
      rw [step_arrived _ _ _ hFailed]
      by_cases hMore : .reading ∈ c.outstanding ∧
          (beast.message c.parser).isNone ∧
          !c.incoming.isEmpty
      · rw [if_pos hMore]
        have hIncoming : c.incoming ≠ [] := by
          simpa using hMore.2.2
        have hPos := List.length_pos_of_ne_nil hIncoming
        refine Or.inr ⟨Or.inr ⟨rfl, ?_⟩, ?_⟩
        · simp only [arrive, List.length_drop]
          omega
        · refine
            .reading
              (chunks ++ [c.incoming.take (more + 1)])
              ?_ ?_ hOutstanding hSocket hFailed hTrace
          · rw [beast.readAll_concat, ← hParser]
            rfl
          · rw [List.flatten_concat, List.append_assoc,
              ← hStream]
            simp [arrive]
      · rw [if_neg hMore]
        exact Or.inl rfl
  | received ec =>
      have hEc : ec = none := hClean
      subst hEc
      rw [step_received _ _ _ hFailed]
      rcases message_cases hFresh hFramed hParser hStream
        with ⟨hNone, _⟩ |
          ⟨bytes, req, later, rfl, hSome, hLater⟩
      · simp [hNone]
      · rw [if_pos (by simp [hOutstanding, hSome])]
        have hHandler :=
          handleRequestReceived_of_message router factory
            (c := c.complete .reading []) hSocket hSome
        rw [hHandler]
        refine Or.inr ⟨Or.inl ⟨?_, rfl⟩, ?_⟩
        · simp [finish, handleRequest, complete]
        · refine
            .writing hLater ?_ hSocket hFailed ?_
          · simp [finish, handleRequest, complete,
              hOutstanding]
          · simp [finish, handleRequest, complete, hTrace]

/-
  When a response is written, its connection is closed, or
  the buffer goes on as what a fresh parser sees first.
-/
theorem step_writing
    {front : List (ByteString × HttpRequest)}
    (hKept : KeepAlive router factory (requests front))
    {bytes : ByteString}
    {req : HttpRequest}
    {rest : List (ByteString × HttpRequest)}
    {c : HttpConnection P}
    (hStream : c.buff ++ c.incoming = stream rest)
    (hOutstanding :
      c.outstanding =
        [.writing
          (router.dispatch factory req).response.keepAlive])
    (hSocket : c.socket = .connected)
    (hFailed : c.failed = false)
    (hTrace :
      c.trace =
        (requests front).flatMap (exchange router factory) ++
          [.readStarted, .dispatched req,
            .writeStarted
              (router.dispatch factory req).response])
    {event : ConnectionEvent}
    (hClean : event.error = none) :
    step beast router factory c event = c ∨
      (Advances c (step beast router factory c event) ∧
        InPhase beast router factory
          (front ++ (bytes, req) :: rest)
          (step beast router factory c event)) := by
  cases event with
  | arrived more =>
      rw [step_arrived _ _ _ hFailed]
      simp [hOutstanding]
  | received ec =>
      rw [step_received _ _ _ hFailed]
      simp [hOutstanding]
  | written keepAlive ec =>
      have hEc : ec = none := hClean
      subst hEc
      rw [step_written _ _ _ hFailed]
      by_cases hMine : .writing keepAlive ∈ c.outstanding
      · rw [if_pos hMine]
        rw [hOutstanding, List.mem_singleton,
          Operation.writing.injEq] at hMine
        subst hMine
        cases hKeep :
            (router.dispatch factory
              req).response.keepAlive with
        | false =>
            have hClose :=
              close_of_connected
                (c := c.complete (.writing false)
                  [.writeFinished]) hSocket
            simp only [handleWritingFinished, Bool.not_false,
              if_true, Option.isNone_none, hClose, finish]
            refine Or.inr ⟨Or.inl ⟨?_, rfl⟩, ?_⟩
            · simp [complete]
            · refine ⟨front, _, rfl, hKept, ?_⟩
              refine .closed hKeep ?_ hFailed ?_
              · simp [complete, hOutstanding, hKeep]
              · simp [complete, hTrace, exchange]
        | true =>
            simp only [handleWritingFinished, Bool.not_true,
              Bool.false_eq_true, if_false, finish, pure,
              Except.pure]
            refine Or.inr ⟨Or.inl ⟨?_, rfl⟩, ?_⟩
            · simp [handleRequestReading, resetParser,
                complete]
            · refine
                ⟨front ++ [(bytes, req)], rest, by simp,
                  ?_, ?_⟩
              · intro other hMem
                rw [requests, List.map_append,
                  List.mem_append] at hMem
                rcases hMem with hOld | hNew
                · exact hKept other hOld
                · rw [List.mem_singleton.mp hNew]
                  exact hKeep
              · refine
                  .reading [c.buff] ?_ ?_ ?_ hSocket hFailed
                    ?_
                · exact (beast.readAll_singleton _).symm
                · rw [List.flatten_singleton]
                  exact hStream
                · simp [handleRequestReading, resetParser,
                    complete, hOutstanding, hKeep]
                · simp [handleRequestReading, resetParser,
                    complete, hTrace, requests, exchange]
      · rw [if_neg hMine]
        exact Or.inl rfl

/- Nothing is done on a connection that was closed. -/
theorem step_closed
    {c : HttpConnection P}
    (hOutstanding : c.outstanding = [])
    (event : ConnectionEvent) :
    step beast router factory c event = c := by
  unfold step
  split
  · rfl
  · cases event <;> simp [hOutstanding]

/- A step is idle, or it advances to a phase. -/
theorem phase_step
    (hFresh : beast.message beast.fresh = none)
    {messages : List (ByteString × HttpRequest)}
    (hFramed : Framed beast messages)
    {c : HttpConnection P}
    (hPhase : InPhase beast router factory messages c)
    {event : ConnectionEvent}
    (hClean : event.error = none) :
    step beast router factory c event = c ∨
      (Advances c (step beast router factory c event) ∧
        InPhase beast router factory messages
          (step beast router factory c event)) := by
  rcases hPhase with ⟨front, rest, rfl, hKept, hPhase⟩
  have hRest : Framed beast rest :=
    fun message hMem =>
      hFramed message (List.mem_append_right front hMem)
  cases hPhase with
  | reading chunks hParser hStream hOutstanding hSocket
      hFailed hTrace =>
      rcases step_reading hFresh hRest hParser hStream
          hOutstanding hSocket hFailed hTrace hClean with
        hIdle | ⟨hAdvances, hNext⟩
      · exact Or.inl hIdle
      · exact
          Or.inr
            ⟨hAdvances, front, rest, rfl, hKept, hNext⟩
  | writing hStream hOutstanding hSocket hFailed hTrace =>
      exact
        step_writing hKept hStream hOutstanding hSocket
          hFailed hTrace hClean
  | closed hLast hOutstanding hFailed hTrace =>
      exact Or.inl (step_closed hOutstanding event)

/- The session begins to read the first request. -/
theorem inPhase_start
    (messages : List (ByteString × HttpRequest)) :
    InPhase beast router factory messages
      (start beast (stream messages)) := by
  refine ⟨[], messages, rfl, ?_, ?_⟩
  · intro req hMem
    cases hMem
  · refine .reading [[]] ?_ ?_ rfl rfl rfl rfl
    · exact (beast.readAll_singleton []).symm
    · rfl

end HttpConnection

end Inks

------------------------------------------------------------
-- Runs of a Connection
------------------------------------------------------------

namespace Inks

namespace HttpConnection

variable {P : Type}
variable {beast : Framing.Reader UInt8 P HttpRequest}
variable {router : HttpRouter} {factory : HttpHandlerFactory}

/- The events of a run without any error. -/
def Clean
    (events : List ConnectionEvent) : Prop :=
  ∀ event ∈ events, event.error = none

/- No event without an error has any effect. -/
def Settled
    (beast : Framing.Reader UInt8 P HttpRequest)
    (router : HttpRouter)
    (factory : HttpHandlerFactory)
    (c : HttpConnection P) : Prop :=
  ∀ event : ConnectionEvent, event.error = none →
    step beast router factory c event = c

/- The bytes to be read and the actions to be done. -/
def remaining
    (router : HttpRouter)
    (factory : HttpHandlerFactory)
    (reqs : List HttpRequest)
    (c : HttpConnection P) : Nat :=
  c.incoming.length +
    ((serve router factory reqs).length - c.trace.length)

/-
  What a connection does is what serving its requests takes,
  as far as it got, with one operation at a time. Each event
  that has an effect brings it nearer to the end, and it has
  done all of it when no event has an effect any more.
-/
structure Pipelined
    (beast : Framing.Reader UInt8 P HttpRequest)
    (router : HttpRouter)
    (factory : HttpHandlerFactory)
    (reqs : List HttpRequest)
    (c : HttpConnection P) : Prop where
  inOrder : c.trace <+: serve router factory reqs
  oneAtATime : c.outstanding.length ≤ 1
  running : c.failed = false
  nearer :
    ∀ event : ConnectionEvent, event.error = none →
      step beast router factory c event = c ∨
        remaining router factory reqs
            (step beast router factory c event) <
          remaining router factory reqs c
  finished :
    Settled beast router factory c →
      c.trace = serve router factory reqs

theorem serve_front
    {front : List (ByteString × HttpRequest)}
    (hKept : KeepAlive router factory (requests front))
    (rest : List (ByteString × HttpRequest)) :
    serve router factory (requests (front ++ rest)) =
      (requests front).flatMap (exchange router factory) ++
        serve router factory (requests rest) := by
  rw [requests, List.map_append]
  exact serve_append hKept _

/- In each phase the connection is as far as it should. -/
theorem trace_of_inPhase
    {messages : List (ByteString × HttpRequest)}
    {c : HttpConnection P}
    (hPhase : InPhase beast router factory messages c) :
    c.trace <+:
      serve router factory (requests messages) := by
  rcases hPhase with ⟨front, rest, rfl, hKept, hPhase⟩
  rw [serve_front hKept]
  cases hPhase with
  | reading chunks hParser hStream hOutstanding hSocket
      hFailed hTrace =>
      rw [hTrace, List.prefix_append_right_inj]
      exact readStarted_prefix_serve router factory _
  | writing hStream hOutstanding hSocket hFailed hTrace =>
      rw [hTrace, List.prefix_append_right_inj]
      exact ⟨_, rfl⟩
  | closed hLast hOutstanding hFailed hTrace =>
      rw [hTrace, List.append_assoc,
        List.prefix_append_right_inj]
      simp [requests, serve, hLast]

theorem outstanding_of_inPhase
    {messages : List (ByteString × HttpRequest)}
    {c : HttpConnection P}
    (hPhase : InPhase beast router factory messages c) :
    c.outstanding.length ≤ 1 ∧ c.failed = false := by
  rcases hPhase with ⟨front, rest, rfl, hKept, hPhase⟩
  cases hPhase <;> simp_all

/- An advance brings a connection nearer to the end. -/
theorem remaining_lt
    {messages : List (ByteString × HttpRequest)}
    {c c' : HttpConnection P}
    (hAdvances : Advances c c')
    (hPhase : InPhase beast router factory messages c') :
    remaining router factory (requests messages) c' <
      remaining router factory (requests messages) c := by
  have hLe := (trace_of_inPhase hPhase).length_le
  unfold remaining
  rcases hAdvances with ⟨hDone, hSame⟩ | ⟨hSame, hRead⟩
  · rw [hSame]
    omega
  · rw [hSame]
    omega

/- A write that is outstanding can complete. -/
theorem not_settled_of_writing
    {c : HttpConnection P}
    {keepAlive : Bool}
    (hOutstanding : c.outstanding = [.writing keepAlive])
    (hSocket : c.socket = .connected)
    (hFailed : c.failed = false) :
    ¬ Settled beast router factory c := by
  intro hSettled
  have hStep := hSettled (.written keepAlive none) rfl
  rw [step_written _ _ _ hFailed,
    if_pos (by simp [hOutstanding])] at hStep
  have hSame := congrArg outstanding hStep
  cases keepAlive with
  | false =>
      have hClose :=
        close_of_connected
          (c := c.complete (.writing false)
            [.writeFinished]) hSocket
      simp only [handleWritingFinished, Bool.not_false,
        if_true, Option.isNone_none, hClose, finish]
        at hSame
      simp [complete, hOutstanding] at hSame
  | true =>
      simp [handleWritingFinished, finish, complete, pure,
        Except.pure, handleRequestReading, resetParser,
        hOutstanding] at hSame

/- A read can go on as long as there are bytes to come. -/
theorem not_settled_of_incoming
    {c : HttpConnection P}
    (hOutstanding : c.outstanding = [.reading])
    (hFailed : c.failed = false)
    (hNone : beast.message c.parser = none)
    (hMore : c.incoming ≠ []) :
    ¬ Settled beast router factory c := by
  intro hSettled
  have hStep := hSettled (.arrived 0) rfl
  rw [step_arrived _ _ _ hFailed,
    if_pos (by simp [hOutstanding, hNone, hMore])] at hStep
  have hSame := congrArg (List.length ∘ incoming) hStep
  have hPos := List.length_pos_of_ne_nil hMore
  simp only [Function.comp_apply, arrive, List.length_drop]
    at hSame
  omega

/- A read that has a message can complete. -/
theorem not_settled_of_message
    {c : HttpConnection P}
    (hOutstanding : c.outstanding = [.reading])
    (hSocket : c.socket = .connected)
    (hFailed : c.failed = false)
    {req : HttpRequest}
    (hSome : beast.message c.parser = some req) :
    ¬ Settled beast router factory c := by
  intro hSettled
  have hStep := hSettled (.received none) rfl
  rw [step_received _ _ _ hFailed,
    if_pos (by simp [hOutstanding, hSome]),
    handleRequestReceived_of_message router factory
      (c := c.complete .reading []) hSocket hSome] at hStep
  have hSame := congrArg outstanding hStep
  simp [finish, handleRequest, complete, hOutstanding]
    at hSame

/-
  When nothing has an effect any more, the last response was
  written: a message that is left would be read.
-/
theorem trace_of_settled
    (hFresh : beast.message beast.fresh = none)
    {messages : List (ByteString × HttpRequest)}
    (hFramed : Framed beast messages)
    {c : HttpConnection P}
    (hPhase : InPhase beast router factory messages c)
    (hSettled : Settled beast router factory c) :
    c.trace = serve router factory (requests messages) := by
  rcases hPhase with ⟨front, rest, rfl, hKept, hPhase⟩
  have hRest : Framed beast rest :=
    fun message hMem =>
      hFramed message (List.mem_append_right front hMem)
  rw [serve_front hKept]
  cases hPhase with
  | closed hLast hOutstanding hFailed hTrace =>
      rw [hTrace, List.append_assoc]
      simp [requests, serve, hLast]
  | writing hStream hOutstanding hSocket hFailed hTrace =>
      exact absurd hSettled
        (not_settled_of_writing hOutstanding hSocket hFailed)
  | reading chunks hParser hStream hOutstanding hSocket
      hFailed hTrace =>
      rcases message_cases hFresh hRest hParser hStream with
        ⟨hNone, hMore⟩ |
          ⟨bytes, req, later, rfl, hSome, hLater⟩
      · by_cases hEmpty : rest = []
        · subst hEmpty
          exact hTrace
        · exact absurd hSettled
            (not_settled_of_incoming hOutstanding hFailed
              hNone (hMore hEmpty))
      · exact absurd hSettled
          (not_settled_of_message hOutstanding hSocket
            hFailed hSome)

theorem pipelining_in_order
    (hFresh : beast.message beast.fresh = none)
    (router : HttpRouter)
    (factory : HttpHandlerFactory)
    {messages : List (ByteString × HttpRequest)}
    (hFramed : Framed beast messages)
    {events : List ConnectionEvent}
    (hClean : Clean events) :
    Pipelined beast router factory (requests messages)
      (Transition.run (step beast router factory)
        (start beast (stream messages)) events) := by
  have hPhase :
      InPhase beast router factory messages
        (Transition.run (step beast router factory)
          (start beast (stream messages)) events) := by
    apply Transition.invariant_of_along
      (C := fun _ event => event.error = none)
      (inPhase_start messages)
    · intro c event hBefore hError
      rcases phase_step hFresh hFramed hBefore hError with
        hIdle | ⟨_, hNext⟩
      · rw [hIdle]
        exact hBefore
      · exact hNext
    · intro past event hPrefix
      exact hClean event (hPrefix.subset (by simp))
  have hOne := outstanding_of_inPhase hPhase
  refine
    { inOrder := trace_of_inPhase hPhase
      oneAtATime := hOne.1
      running := hOne.2
      nearer := ?_
      finished := trace_of_settled hFresh hFramed hPhase }
  intro event hError
  rcases phase_step hFresh hFramed hPhase hError with
    hIdle | ⟨hAdvances, hNext⟩
  · exact Or.inl hIdle
  · exact Or.inr (remaining_lt hAdvances hNext)

/-
  Requests without header fields: one line, and an empty one
  behind it.
-/
def plainRequest
    (bytes : ByteString) : Option HttpRequest :=
  if text "\r\n\r\n" <:+ bytes then
    match
        (bytes.take (bytes.length - 4)).splitOn
          Ascii.space with
    | [_, target, version] =>
        some
          { target := target
            keepAlive := version == text "HTTP/1.1" }
    | _ => none
  else
    none

def plainRequests : List (ByteString × HttpRequest) :=
  [(text "GET /a HTTP/1.1\r\n\r\n",
      { target := text "/a" }),
    (text "GET /b HTTP/1.0\r\n\r\n",
      { target := text "/b", keepAlive := false }),
    (text "GET /c HTTP/1.1\r\n\r\n",
      { target := text "/c" })]

/-
  Three requests, of which the second ends the connection.
  The first read takes more than one of them.
-/
theorem pipelining_in_order_plain :
    Pipelined (Framing.bytewise plainRequest) {} {}
      (requests plainRequests)
      (Transition.run
        (step (Framing.bytewise plainRequest) {} {})
        (start (Framing.bytewise plainRequest)
          (stream plainRequests))
        [.arrived 25, .received none, .written true none,
          .arrived 80, .received none,
          .written false none]) := by
  apply pipelining_in_order
  · decide
  · intro message hMem
    apply Framing.frames_bytewise
    · revert message
      decide +kernel
    · revert message
      decide +kernel
  · unfold Clean
    decide

end HttpConnection

end Inks
