import Inks.Httpd.Pipelining
import Inks.Library.EventLoop

/-
  The server at work: the event loop of `main` with the
  acceptor and any number of sessions, each with its buffer,
  its parser and the bytes of its peer. Peers can be lost at
  any time, and reads and writes can fail in any way. The
  loop ends with a signal or with an exception.

  Key definitions include:
    * `HttpConnection.happen`
    * `Service`
    * `Service.step`
    * `Service.alone`

  Key theorems include:
    * `Service.isolated`
    * `Service.client_answered`
-/

------------------------------------------------------------
-- Sessions that Fail
------------------------------------------------------------

namespace Inks

/- What can happen to a session. -/
inductive SessionEvent where
| disconnected
| completed (event : ConnectionEvent)
deriving DecidableEq, Repr

namespace HttpConnection

variable {P : Type}

/- The operation that an event is about is outstanding. -/
def Awaits
    (c : HttpConnection P) : ConnectionEvent → Prop
| .arrived _ => .reading ∈ c.outstanding
| .received _ => .reading ∈ c.outstanding
| .written keepAlive _ => .writing keepAlive ∈ c.outstanding

instance
    (c : HttpConnection P)
    (event : ConnectionEvent) :
    Decidable (c.Awaits event) := by
  cases event <;> unfold Awaits <;> infer_instance

/- The peer has reset the connection. -/
def disconnect
    (c : HttpConnection P) : HttpConnection P :=
  match c.socket with
  | .connected => { c with socket := .disconnected }
  | _ => c

/-
  What an error means for the socket: the stream closes it
  on a timeout, and after a reset there is no peer.
-/
def strike
    (c : HttpConnection P)
    (ec : Option IoError) : HttpConnection P :=
  match ec with
  | some .timeout => { c with socket := .closed }
  | some .connectionReset => c.disconnect
  | _ => c

/- An exception leaves the session where it was. -/
def happen
    (beast : Framing.Reader UInt8 P HttpRequest)
    (router : HttpRouter)
    (factory : HttpHandlerFactory)
    (c : HttpConnection P) :
    SessionEvent → HttpConnection P
| .disconnected => c.disconnect
| .completed event =>
    if c.Awaits event then
      let after :=
        step beast router factory (c.strike event.error)
          event
      if after.failed then
        { c with failed := true }
      else
        after
    else
      c

end HttpConnection

end Inks

------------------------------------------------------------
-- The Event Loop
------------------------------------------------------------

namespace Inks

structure Service
    (P : Type) where
  -- Whether `ioc.run()` goes on.
  running : Bool := true
  -- Whether the acceptor is open. It then accepts.
  acceptor : Bool := true
  sessions : List (HttpConnection P) := []
deriving DecidableEq, Repr

/-
  What the event loop runs. A peer that is accepted comes
  with the bytes that it is going to send.
-/
inductive ServiceEvent where
| accepted (peer : Except IoError ByteString)
| session (i : Nat) (event : SessionEvent)
| signalled

namespace Service

variable {P : Type}

/- `HTTP_Acceptor::close` -/
def close
    (service : Service P) : Service P :=
  if service.acceptor then
    { service with acceptor := false }
  else
    service

/- The handler of `HTTP_Acceptor::accept`. -/
def accept
    (beast : Framing.Reader UInt8 P HttpRequest)
    (service : Service P)
    (peer : Except IoError ByteString) : Service P :=
  match peer with
  | .error _ => service.close
  | .ok incoming =>
      { service with
        sessions :=
          service.sessions ++
            [HttpConnection.start beast incoming] }

/- A handler of a session runs, and may throw. -/
def session
    (beast : Framing.Reader UInt8 P HttpRequest)
    (router : HttpRouter)
    (factory : HttpHandlerFactory)
    (service : Service P)
    (i : Nat)
    (event : SessionEvent) : Service P :=
  match service.sessions[i]? with
  | none => service
  | some c =>
      let after := c.happen beast router factory event
      { service with
        running := !after.failed
        sessions := service.sessions.set i after }

/- The handler of `term_act` in `main`. -/
def terminate
    (service : Service P) : Service P :=
  { service.close with running := false }

def step
    (beast : Framing.Reader UInt8 P HttpRequest)
    (router : HttpRouter)
    (factory : HttpHandlerFactory)
    (service : Service P)
    (event : ServiceEvent) : Service P :=
  if !service.running then
    service
  else
    match event with
    | .accepted peer =>
        if service.acceptor then
          service.accept beast peer
        else
          service
    | .session i event =>
        service.session beast router factory i event
    | .signalled => service.terminate

/- The events without those of other sessions and signals. -/
def alone
    (i : Nat)
    (events : List ServiceEvent) : List ServiceEvent :=
  events.filter fun event =>
    match event with
    | .accepted _ => true
    | .session j _ => j = i
    | .signalled => false

end Service

end Inks

------------------------------------------------------------
-- Isolation
------------------------------------------------------------

namespace Inks

namespace Service

variable {P : Type}
variable (beast : Framing.Reader UInt8 P HttpRequest)
variable (router : HttpRouter)
variable (factory : HttpHandlerFactory)

/- The sessions are the members of an event loop. -/
def toLoop
    (service : Service P) : EventLoop (HttpConnection P) where
  up := service.running
  listening := service.acceptor
  members := service.sessions

def rules :
    EventLoop.Rules (HttpConnection P) SessionEvent where
  f := HttpConnection.happen beast router factory
  fails := HttpConnection.failed

def loopEvent :
    ServiceEvent →
      EventLoop.Event (HttpConnection P) SessionEvent
| .accepted (.ok incoming) =>
    .joined (HttpConnection.start beast incoming)
| .accepted (.error _) => .deaf
| .session i event => .happened i event
| .signalled => .halted

theorem toLoop_close
    (service : Service P) :
    service.close.toLoop =
      { service.toLoop with listening := false } := by
  cases hOpen : service.acceptor <;>
    simp [close, toLoop, hOpen]

theorem toLoop_session
    (service : Service P)
    (i : Nat)
    (event : SessionEvent) :
    (service.session beast router factory i event).toLoop =
      service.toLoop.happen (rules beast router factory) i
        event := by
  unfold session EventLoop.happen toLoop
  cases service.sessions[i]? <;> rfl

theorem toLoop_step
    (service : Service P)
    (event : ServiceEvent) :
    (step beast router factory service event).toLoop =
      EventLoop.step (rules beast router factory)
        service.toLoop (loopEvent beast event) := by
  cases hRunning : service.running with
  | false => simp [step, EventLoop.step, toLoop, hRunning]
  | true =>
      have hUp : service.toLoop.up = true := hRunning
      simp only [step, hRunning, Bool.not_true,
        Bool.false_eq_true, if_false]
      cases event with
      | accepted peer =>
          cases peer with
          | error ec =>
              rw [loopEvent, EventLoop.step_deaf hUp]
              cases hOpen : service.acceptor with
              | true => exact service.toLoop_close
              | false =>
                  simp [toLoop, hOpen]
          | ok incoming =>
              rw [loopEvent, EventLoop.step_joined hUp]
              cases hOpen : service.acceptor <;>
                simp [toLoop, hOpen, accept]
      | session i event =>
          simp only [EventLoop.step, hUp, loopEvent,
            Bool.not_true, Bool.false_eq_true, if_false]
          exact toLoop_session beast router factory service i
            event
      | signalled =>
          simp only [EventLoop.step, hUp, loopEvent,
            terminate]
          have hClose := service.toLoop_close
          simp_all [toLoop]

/- A run of the service, as a run of its event loop. -/
theorem toLoop_run
    (service : Service P)
    (events : List ServiceEvent) :
    (Transition.run (step beast router factory) service
        events).toLoop =
      Transition.run
        (EventLoop.step (rules beast router factory))
        service.toLoop (events.map (loopEvent beast)) := by
  induction events using List.reverseRecOn with
  | nil => rfl
  | append_singleton events event ih =>
      rw [Transition.run_concat, List.map_append,
        List.map_singleton, Transition.run_concat,
        toLoop_step, ih]

theorem concerns_loopEvent
    (i : Nat)
    (events : List ServiceEvent) :
    EventLoop.alone i (events.map (loopEvent beast)) =
      (alone i events).map (loopEvent beast) := by
  unfold EventLoop.alone alone
  rw [List.filter_map]
  congr 1
  apply List.filter_congr
  intro event _
  rcases event with (_ | _) | _ | _ <;> rfl

theorem signalled_mem_iff
    (events : List ServiceEvent) :
    (.halted ∈ events.map (loopEvent beast)) ↔
      .signalled ∈ events := by
  rw [List.mem_map]
  constructor
  · rintro ⟨event, hMem, hEvent⟩
    rcases event with (_ | _) | _ | _ <;>
      simp [loopEvent] at hEvent
    exact hMem
  · intro hMem
    exact ⟨.signalled, hMem, rfl⟩

/-
  The process runs on exactly as long as there is no signal
  and every session, with the events of its own peer alone,
  keeps it running. Until then each session is just what it
  would be without the events of all others.
-/
theorem isolated
    (events : List ServiceEvent) :
    let after (events : List ServiceEvent) :=
      Transition.run (step beast router factory)
        ({} : Service P) events
    ((after events).running = true ↔
        .signalled ∉ events ∧
          ∀ i, (after (alone i events)).running = true) ∧
      ((after events).running = true →
        ∀ i,
          (after events).sessions[i]? =
            (after (alone i events)).sessions[i]?) := by
  intro after
  have hRun (events : List ServiceEvent) :
      (after events).toLoop =
        Transition.run
          (EventLoop.step (rules beast router factory)) {}
          (events.map (loopEvent beast)) :=
    toLoop_run beast router factory {} events
  have hUp (events : List ServiceEvent) :
      (after events).running = (after events).toLoop.up :=
    rfl
  have hMember (events : List ServiceEvent) :
      (after events).sessions =
        (after events).toLoop.members :=
    rfl
  constructor
  · rw [hUp, hRun, EventLoop.up_iff_alone,
      signalled_mem_iff]
    simp only [concerns_loopEvent, hUp, hRun]
  · intro hRunning i
    rw [hUp, hRun] at hRunning
    rw [hMember, hMember, hRun, hRun,
      EventLoop.alone_of_up hRunning i, concerns_loopEvent]

end Service

end Inks

------------------------------------------------------------
-- Answers to One Client
------------------------------------------------------------

namespace Inks

/- What happens to a session without any error. -/
def SessionEvent.Clean :
    SessionEvent → Prop
| .disconnected => False
| .completed event => event.error = none

namespace HttpConnection

variable {P : Type}
variable {beast : Framing.Reader UInt8 P HttpRequest}
variable {router : HttpRouter} {factory : HttpHandlerFactory}

theorem inPhase_happen
    (hFresh : beast.message beast.fresh = none)
    {messages : List (ByteString × HttpRequest)}
    (hFramed : Framed beast messages)
    {c : HttpConnection P}
    (hPhase : InPhase beast router factory messages c)
    {event : SessionEvent}
    (hClean : event.Clean) :
    InPhase beast router factory messages
      (c.happen beast router factory event) := by
  cases event with
  | disconnected => cases hClean
  | completed event =>
      have hError : event.error = none := hClean
      unfold happen
      simp only [hError, strike]
      split
      · have hNext :
            InPhase beast router factory messages
              (step beast router factory c event) := by
          rcases phase_step hFresh hFramed hPhase hError with
            hIdle | ⟨_, hNext⟩
          · rw [hIdle]
            exact hPhase
          · exact hNext
        rw [(outstanding_of_inPhase hNext).2]
        exact hNext
      · exact hPhase

theorem pipelined_of_inPhase
    (hFresh : beast.message beast.fresh = none)
    {messages : List (ByteString × HttpRequest)}
    (hFramed : Framed beast messages)
    {c : HttpConnection P}
    (hPhase : InPhase beast router factory messages c) :
    Pipelined beast router factory (requests messages) c := by
  have hOne := outstanding_of_inPhase hPhase
  refine
    { inOrder := trace_of_inPhase hPhase
      oneAtATime := hOne.1
      running := hOne.2
      nearer := ?_
      finished := trace_of_settled hFresh hFramed hPhase }
  intro event hError
  rcases phase_step hFresh hFramed hPhase hError with
    hIdle | ⟨hAdvances, hNext⟩
  · exact Or.inl hIdle
  · exact Or.inr (remaining_lt hAdvances hNext)

end HttpConnection

namespace Service

variable {P : Type}
variable {beast : Framing.Reader UInt8 P HttpRequest}

/-
  A client whose connection has no errors has its requests
  answered in order, whatever becomes of other clients, of
  the acceptor and of the process.
-/
theorem client_answered
    (hFresh : beast.message beast.fresh = none)
    (router : HttpRouter)
    (factory : HttpHandlerFactory)
    {messages : List (ByteString × HttpRequest)}
    (hFramed : HttpConnection.Framed beast messages)
    {service : Service P}
    (hRunning : service.running = true)
    (hOpen : service.acceptor = true)
    {events : List ServiceEvent}
    (hClean :
      ∀ event,
        .session service.sessions.length event ∈ events →
          event.Clean) :
    ∃ c,
      (Transition.run (step beast router factory) service
          (.accepted
              (.ok (HttpConnection.stream messages)) ::
            events)).sessions[service.sessions.length]? =
          some c ∧
        HttpConnection.Pipelined beast router factory
          (HttpConnection.requests messages) c := by
  let accepted :=
    step beast router factory service
      (.accepted (.ok (HttpConnection.stream messages)))
  have hAccepted :
      accepted.sessions =
        service.sessions ++
          [HttpConnection.start beast
            (HttpConnection.stream messages)] := by
    simp [accepted, step, hRunning, hOpen, accept]
  have hMember :
      ∃ c,
        accepted.toLoop.members[service.sessions.length]? =
            some c ∧
          HttpConnection.InPhase beast router factory
            messages c := by
    refine ⟨_, ?_, HttpConnection.inPhase_start messages⟩
    change accepted.sessions[service.sessions.length]? = _
    simp [hAccepted]
  have hStep (c : HttpConnection P) (event : SessionEvent)
      (hPhase :
        HttpConnection.InPhase beast router factory messages
          c)
      (hEvent : event.Clean) :
      HttpConnection.InPhase beast router factory messages
        ((rules beast router factory).f c event) :=
    HttpConnection.inPhase_happen hFresh hFramed hPhase
      hEvent
  have hOwn (event : SessionEvent)
      (hMem :
        .happened service.sessions.length event ∈
          events.map (loopEvent beast)) :
      event.Clean := by
    rcases List.mem_map.mp hMem with
      ⟨other, hOther, hEvent⟩
    rcases other with (_ | _) | ⟨i, _⟩ | _ <;>
      simp [loopEvent] at hEvent
    rcases hEvent with ⟨rfl, rfl⟩
    exact hClean _ hOther
  have hRun :=
    EventLoop.member_invariant (rules beast router factory)
      hStep hMember (events.map (loopEvent beast)) hOwn
  rw [← toLoop_run] at hRun
  rcases hRun with ⟨c, hSession, hPhase⟩
  exact ⟨c, hSession,
    HttpConnection.pipelined_of_inPhase hFresh hFramed
      hPhase⟩

/-
  A client that sends three requests, while another one is
  lost and the acceptor fails.
-/
theorem client_answered_plain :
    ∃ c,
      (Transition.run
          (step (Framing.bytewise
            HttpConnection.plainRequest) {} {})
          ({} : Service ByteString)
          [.accepted
              (.ok (HttpConnection.stream
                HttpConnection.plainRequests)),
            .accepted (.ok []),
            .session 0 (.completed (.arrived 25)),
            .session 1 .disconnected,
            .accepted (.error .other),
            .session 0 (.completed (.received none)),
            .session 1
              (.completed (.received (some .endOfStream)))
            ]).sessions[0]? = some c ∧
        HttpConnection.Pipelined
          (Framing.bytewise HttpConnection.plainRequest) {}
          {}
          (HttpConnection.requests
            HttpConnection.plainRequests) c := by
  have hFramed :
      HttpConnection.Framed
        (Framing.bytewise HttpConnection.plainRequest)
        HttpConnection.plainRequests := by
    intro message hMem
    apply Framing.frames_bytewise
    · revert message
      decide +kernel
    · revert message
      decide +kernel
  apply client_answered (by decide) {} {} hFramed rfl rfl
  intro event hMem
  simp at hMem
  rcases hMem with rfl | rfl <;> rfl

end Service

end Inks
