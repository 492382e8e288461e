import Inks.Httpd.Session

/-
  Whether one client can bring the server down. All error
  paths go through `close`, which asks for the peer of the
  socket, and a successful read does so too. This throws
  when the peer has gone or the socket is closed.

  Key definitions include:
    * `HttpServer.Contained`
    * `HttpServer.PeerPresent`

  Key theorems include:
    * `HttpServer.contained_iff`
-/

------------------------------------------------------------
-- Statements
------------------------------------------------------------

namespace Inks

namespace HttpServer

/- No exception has left the event loop. -/
def Up
    (server : HttpServer) : Prop :=
  server.up = true

/-
  After the handler of session `i` the server is up, and the
  other sessions and the acceptor are as they were.
-/
def OnlyAffects
    (i : Nat)
    (server t : HttpServer) : Prop :=
  t.up = true ∧ t.acceptor = server.acceptor ∧
    ∀ j, j ≠ i → t.sessions[j]? = server.sessions[j]?

/- Every completion only affects its own session. -/
def Contained
    (router : HttpRouter)
    (factory : HttpHandlerFactory)
    (server : HttpServer)
    (event : ServerEvent) : Prop :=
  match event with
  | .received i _ | .written i _ =>
      OnlyAffects i server
        (step router factory server event)
  | _ => True

/- The socket still has its peer after the completion. -/
def KeepsPeer
    (s : HttpSession)
    (ec : Option IoError) : Prop :=
  s.socket = .connected ∧
    ec ≠ some .timeout ∧ ec ≠ some .connectionReset

/-
  Every completion whose handler asks for the peer finds it:
  all but a successful write on a connection that is kept.
-/
def PeerPresent
    (server : HttpServer) : ServerEvent → Prop
| .received i result =>
    ∀ s, server.sessions[i]? = some s →
      s.operation = some .reading →
      KeepsPeer s (readError result)
| .written i ec =>
    ∀ s, server.sessions[i]? = some s →
      ∀ keepAlive,
        s.operation = some (.writing keepAlive) →
        (ec = none ∧ keepAlive = true) ∨ KeepsPeer s ec
| _ => True

end HttpServer

end Inks

------------------------------------------------------------
-- Handlers
------------------------------------------------------------

namespace Inks

namespace HttpSession

theorem complete_connected_iff
    (s : HttpSession)
    (ec : Option IoError) :
    (s.complete ec).socket = .connected ↔
      HttpServer.KeepsPeer s ec := by
  unfold complete disconnect HttpServer.KeepsPeer
  cases ec with
  | none => simp
  | some error =>
      cases error <;> cases s.socket <;> simp

theorem remoteEndpoint_isOk_iff
    (s : HttpSession) :
    s.remoteEndpoint.isOk = true ↔
      s.socket = .connected := by
  unfold remoteEndpoint
  cases s.socket <;> simp [Except.isOk, Except.toBool]

theorem close_isOk_iff
    (s : HttpSession) :
    s.close.isOk = true ↔ s.socket = .connected := by
  rw [← remoteEndpoint_isOk_iff]
  unfold close
  cases s.remoteEndpoint with
  | ok _ => simp [Except.isOk, Except.toBool, bind,
      Except.bind, pure, Except.pure]
  | error _ => simp [Except.isOk, Except.toBool, bind,
      Except.bind]

theorem handleRequestReceived_isOk_iff
    (s : HttpSession)
    (router : HttpRouter)
    (factory : HttpHandlerFactory)
    (result : Except IoError HttpRequest) :
    (s.handleRequestReceived router factory
        result).isOk = true ↔
      s.socket = .connected := by
  cases result with
  | error _ => exact close_isOk_iff s
  | ok req =>
      rw [← remoteEndpoint_isOk_iff]
      unfold handleRequestReceived handleRequest
      cases s.remoteEndpoint with
      | ok _ => simp [Except.isOk, Except.toBool, bind,
          Except.bind, pure, Except.pure]
      | error _ => simp [Except.isOk, Except.toBool, bind,
          Except.bind]

theorem handleWritingFinished_isOk_iff
    (s : HttpSession)
    (ec : Option IoError)
    (keepAlive : Bool) :
    (s.handleWritingFinished ec keepAlive).isOk = true ↔
      (ec = none ∧ keepAlive = true) ∨
        s.socket = .connected := by
  unfold handleWritingFinished
  cases ec with
  | some _ => simpa using close_isOk_iff s
  | none =>
      cases keepAlive with
      | true => simp [Except.isOk, Except.toBool, pure,
          Except.pure]
      | false => simpa using close_isOk_iff s

end HttpSession

namespace HttpServer

/- A handler only affects its session unless it throws. -/
theorem onlyAffects_finish_iff
    {server : HttpServer}
    (hUp : server.up = true)
    (i : Nat)
    (result : Except SystemError HttpSession) :
    OnlyAffects i server (server.finish i result) ↔
      result.isOk = true := by
  unfold finish OnlyAffects
  cases result with
  | error _ => simp [Except.isOk, Except.toBool]
  | ok s =>
      simp only [hUp, Except.isOk, Except.toBool, true_and,
        iff_true]
      intro j hNe
      exact List.getElem?_set_ne hNe.symm

theorem onlyAffects_self
    {server : HttpServer}
    (hUp : server.up = true)
    (i : Nat) :
    OnlyAffects i server server :=
  ⟨hUp, rfl, fun _ _ => rfl⟩

theorem received_contained_iff
    {server : HttpServer}
    (hUp : server.up = true)
    (router : HttpRouter)
    (factory : HttpHandlerFactory)
    (i : Nat)
    (result : Except IoError HttpRequest) :
    OnlyAffects i server
        (server.received router factory i result) ↔
      PeerPresent server (.received i result) := by
  cases hSession : server.sessions[i]? with
  | none =>
      simp [received, PeerPresent, hSession,
        onlyAffects_self hUp]
  | some s =>
      simp only [received, PeerPresent, hSession,
        Option.some.injEq, forall_eq']
      cases hOperation : s.operation with
      | none => simp [onlyAffects_self hUp]
      | some operation =>
          cases operation with
          | writing keepAlive =>
              simp [onlyAffects_self hUp]
          | reading =>
              rw [onlyAffects_finish_iff hUp,
                HttpSession.handleRequestReceived_isOk_iff,
                HttpSession.complete_connected_iff]
              simp

theorem written_contained_iff
    {server : HttpServer}
    (hUp : server.up = true)
    (i : Nat)
    (ec : Option IoError) :
    OnlyAffects i server (server.written i ec) ↔
      PeerPresent server (.written i ec) := by
  cases hSession : server.sessions[i]? with
  | none =>
      simp [written, PeerPresent, hSession,
        onlyAffects_self hUp]
  | some s =>
      simp only [written, PeerPresent, hSession,
        Option.some.injEq, forall_eq']
      cases hOperation : s.operation with
      | none => simp [onlyAffects_self hUp]
      | some operation =>
          cases operation with
          | reading =>
              simp [onlyAffects_self hUp]
          | writing keepAlive =>
              rw [onlyAffects_finish_iff hUp,
                HttpSession.handleWritingFinished_isOk_iff,
                HttpSession.complete_connected_iff]
              simp

theorem contained_step_iff
    {server : HttpServer}
    (hUp : server.up = true)
    (router : HttpRouter)
    (factory : HttpHandlerFactory)
    (event : ServerEvent) :
    Contained router factory server event ↔
      PeerPresent server event := by
  cases event with
  | accepted ec => simp [Contained, PeerPresent]
  | disconnect i => simp [Contained, PeerPresent]
  | received i result =>
      simp only [Contained, step, hUp, Bool.not_true]
      exact received_contained_iff hUp router factory i
        result
  | written i ec =>
      simp only [Contained, step, hUp, Bool.not_true]
      exact written_contained_iff hUp i ec

theorem up_step
    {server : HttpServer}
    (hUp : server.up = true)
    (router : HttpRouter)
    (factory : HttpHandlerFactory)
    (event : ServerEvent)
    (hPeer : PeerPresent server event) :
    (step router factory server event).up = true := by
  have hContained :=
    (contained_step_iff hUp router factory event).mpr hPeer
  cases event with
  | received i result => exact hContained.1
  | written i ec => exact hContained.1
  | disconnect i => simp [step, hUp]
  | accepted ec =>
      simp only [step, hUp, Bool.not_true]
      cases server.acceptor with
      | false => exact hUp
      | true => cases ec <;> exact hUp

end HttpServer

end Inks

------------------------------------------------------------
-- When the Server Stays Up
------------------------------------------------------------

namespace Inks

namespace HttpServer

/-
  No handler throws, and each only affects its own session,
  exactly in the runs in which every completion whose
  handler asks for the peer finds it: no read or write ends
  by a timeout or a reset, and no peer has gone when a read
  succeeds or a connection is to be closed.
-/
theorem contained_iff
    (router : HttpRouter)
    (factory : HttpHandlerFactory)
    (events : List ServerEvent) :
    Transition.Along (step router factory)
        (Contained router factory) {} events ↔
      Transition.Along (step router factory)
        PeerPresent {} events := by
  have hStep :
      ∀ (server : HttpServer) event, Up server →
        PeerPresent server event →
        Up (step router factory server event) := by
    intro server event hUp hPeer
    exact up_step hUp router factory event hPeer
  have hIff :
      ∀ (server : HttpServer) event, Up server →
        (Contained router factory server event ↔
          PeerPresent server event) := by
    intro server event hUp
    exact contained_step_iff hUp router factory event
  have hInit : Up {} := rfl
  exact Transition.along_iff_along hInit hStep hIff events

/-
  A client connects and sends nothing for 30 seconds. The
  read times out, `close` throws, and the server is down.
-/
theorem not_contained :
    ¬ Transition.Along (step {} {}) (Contained {} {}) {}
      [.accepted none, .received 0 (.error .timeout)] := by
  intro hAlong
  rw [Transition.along_cons_iff,
    Transition.along_cons_iff] at hAlong
  have hUp := hAlong.2.1.1
  revert hUp
  decide

end HttpServer

end Inks
