import Inks.Server.Refinement

/-
  What a session does, whatever its peer sends and whichever
  errors there are: it reads, dispatches one request, writes
  the answer to it, and then reads again or closes. There is
  one operation outstanding until the session is closed, and
  then none that would keep it alive.

  Key definitions include:
    * `HttpConnection.Last`
    * `HttpConnection.Follows`
    * `Service.Follow`

  Key theorems include:
    * `HttpConnection.Follows.happen`
    * `Service.sessions_follow`
-/

------------------------------------------------------------
-- The Protocol of a Session
------------------------------------------------------------

namespace Inks

namespace HttpConnection

variable {P : Type}

/-
  What a session does last before it closes: it read to an
  error, wrote to an error, or wrote an answer that does not
  keep the connection.
-/
inductive Last
    (router : HttpRouter)
    (factory : HttpHandlerFactory) : List Action → Prop
| read :
    Last router factory [.readStarted]
| write
    (req : HttpRequest) :
    Last router factory
      [.readStarted, .dispatched req,
        .writeStarted
          (router.dispatch factory req).response]
| done
    (req : HttpRequest)
    (hLast :
      (router.dispatch factory req).response.keepAlive =
        false) :
    Last router factory (exchange router factory req)

/-
  Some requests were served and their answers kept the
  connection. Then a request is being read, or answered, or
  the session is closed.
-/
inductive Follows
    (router : HttpRouter)
    (factory : HttpHandlerFactory)
    (c : HttpConnection P) : Prop
| reading
    (served : List HttpRequest)
    (hKept : KeepAlive router factory served)
    (hOutstanding : c.outstanding = [.reading])
    (hSocket : c.socket ≠ .closed)
    (hTrace :
      c.trace =
        served.flatMap (exchange router factory) ++
          [.readStarted])
| writing
    (served : List HttpRequest)
    (req : HttpRequest)
    (hKept : KeepAlive router factory served)
    (hOutstanding :
      c.outstanding =
        [.writing
          (router.dispatch factory req).response.keepAlive])
    (hSocket : c.socket ≠ .closed)
    (hTrace :
      c.trace =
        served.flatMap (exchange router factory) ++
          [.readStarted, .dispatched req,
            .writeStarted
              (router.dispatch factory req).response])
| closed
    (served : List HttpRequest)
    (last : List Action)
    (hKept : KeepAlive router factory served)
    (hOutstanding : c.outstanding = [])
    (hSocket : c.socket = .closed)
    (hLast : Last router factory last)
    (hTrace :
      c.trace =
        served.flatMap (exchange router factory) ++ last ++
          [.closed])

variable {router : HttpRouter} {factory : HttpHandlerFactory}
variable {c after : HttpConnection P}

/- Neither bytes nor a lost peer matter to the protocol. -/
theorem Follows.congr
    (hFollows : Follows router factory c)
    (hOutstanding : after.outstanding = c.outstanding)
    (hTrace : after.trace = c.trace)
    (hSocket : after.socket = .closed ↔ c.socket = .closed) :
    Follows router factory after := by
  cases hFollows with
  | reading served hKept hOne hOpen hDone =>
      exact
        .reading served hKept (hOutstanding.trans hOne)
          (mt hSocket.mp hOpen) (hTrace.trans hDone)
  | writing served req hKept hOne hOpen hDone =>
      exact
        .writing served req hKept (hOutstanding.trans hOne)
          (mt hSocket.mp hOpen) (hTrace.trans hDone)
  | closed served last hKept hOne hClosed hLast hDone =>
      exact
        .closed served last hKept (hOutstanding.trans hOne)
          (hSocket.mpr hClosed) hLast (hTrace.trans hDone)

theorem Follows.single
    (hFollows : Follows router factory c) :
    c.outstanding.length ≤ 1 := by
  cases hFollows with
  | reading _ _ hOne _ _ => simp [hOne]
  | writing _ _ _ hOne _ _ => simp [hOne]
  | closed _ _ _ hOne _ _ _ => simp [hOne]

theorem Follows.disconnect
    (hFollows : Follows router factory c) :
    Follows router factory c.disconnect := by
  apply hFollows.congr c.disconnect_frame.1
  · unfold HttpConnection.disconnect
    split <;> rfl
  · cases hSocket : c.socket <;>
      simp [HttpConnection.disconnect, hSocket]

theorem follows_start
    (beast : Framing.Reader UInt8 P HttpRequest)
    (incoming : ByteString) :
    Follows router factory (start beast incoming) :=
  .reading [] (by intro req hMem; cases hMem) rfl
    (by simp [start, run, handleRequestReading]) rfl

end HttpConnection

end Inks

------------------------------------------------------------
-- One Event
------------------------------------------------------------

namespace Inks

namespace HttpConnection

variable {P : Type}
variable (beast : Framing.Reader UInt8 P HttpRequest)
variable {router : HttpRouter} {factory : HttpHandlerFactory}
variable {c after : HttpConnection P}

theorem ok_of_close
    (hClose : c.close = .ok after) :
    c.socket = .connected ∧
      after =
        { c with
          socket := .closed
          trace := c.trace ++ [.closed] } := by
  cases hSocket : c.socket <;>
    simp [close, toSession, hSocket, pure, Except.pure,
      HttpSession.remoteEndpoint, bind, Except.bind]
      at hClose
  exact ⟨rfl, hClose.symm⟩

/- An exception changes nothing that can be seen. -/
theorem Follows.settle
    (hFollows : Follows router factory c)
    {result : Except SystemError (HttpConnection P)}
    (hOk :
      ∀ after, result = .ok after →
        Follows router factory after) :
    Follows router factory (c.settle result) := by
  cases result with
  | ok after => exact hOk after rfl
  | error e => exact hFollows.congr rfl rfl Iff.rfl

/- A read ends with an error, or its request is answered. -/
theorem follows_received
    {served : List HttpRequest}
    (hKept : KeepAlive router factory served)
    (hNone : c.outstanding = [])
    (hTrace :
      c.trace =
        served.flatMap (exchange router factory) ++
          [.readStarted])
    {ec : Option IoError}
    (hReady :
      ec.isSome ∨ (beast.message c.parser).isSome)
    (hOk :
      c.handleRequestReceived beast router factory ec =
        .ok after) :
    Follows router factory after := by
  cases ec with
  | some ec =>
      rcases ok_of_close hOk with ⟨_, rfl⟩
      exact
        .closed served _ hKept hNone rfl .read
          (by simp [hTrace])
  | none =>
      rcases hReady with hSome | hSome
      · cases hSome
      rcases Option.isSome_iff_exists.mp hSome with
        ⟨req, hMessage⟩
      cases hSocket : c.socket <;>
        simp [handleRequestReceived, hMessage, toSession,
          hSocket, handleRequest, pure, Except.pure,
          HttpSession.remoteEndpoint, bind, Except.bind]
          at hOk
      subst hOk
      exact
        .writing served req hKept (by simp [hNone])
          (by simp) (by simp [hTrace])

/- A write ends with an error, or the answer is out. -/
theorem follows_written
    {served : List HttpRequest}
    {req : HttpRequest}
    (hKept : KeepAlive router factory served)
    (hNone : c.outstanding = [])
    {ec : Option IoError}
    (hSocket : ec = none → c.socket ≠ .closed)
    (hTrace :
      c.trace =
        served.flatMap (exchange router factory) ++
          [.readStarted, .dispatched req,
            .writeStarted
              (router.dispatch factory req).response] ++
          if ec.isNone then [.writeFinished] else [])
    (hOk :
      c.handleWritingFinished beast ec
          (router.dispatch factory req).response.keepAlive =
        .ok after) :
    Follows router factory after := by
  cases ec with
  | some ec =>
      rcases ok_of_close hOk with ⟨_, rfl⟩
      exact
        .closed served _ hKept hNone rfl (.write req)
          (by simp [hTrace])
  | none =>
      cases hKeep :
          (router.dispatch factory req).response.keepAlive
        with
      | false =>
          rw [hKeep] at hOk
          rcases ok_of_close hOk with ⟨_, rfl⟩
          exact
            .closed served _ hKept hNone rfl (.done req hKeep)
              (by simp [hTrace, exchange])
      | true =>
          rw [hKeep] at hOk
          simp only [handleWritingFinished, pure,
            Except.pure, Bool.not_true, Bool.false_eq_true,
            if_false, Except.ok.injEq] at hOk
          subst hOk
          refine
            .reading (served ++ [req]) ?_ ?_ (hSocket rfl) ?_
          · intro other hMem
            rcases List.mem_append.mp hMem with hOld | hNew
            · exact hKept other hOld
            · rw [List.mem_singleton.mp hNew]
              exact hKeep
          · simp [handleRequestReading, resetParser, hNone]
          · simp [handleRequestReading, resetParser, hTrace,
              exchange]

@[simp] theorem strike_trace
    (c : HttpConnection P)
    (ec : Option IoError) :
    (c.strike ec).trace = c.trace := by
  unfold strike disconnect
  split
  · rfl
  · split <;> rfl
  · rfl

theorem Follows.happen_failed
    (hFollows : Follows router factory c)
    (hFailed : c.failed = true)
    (event : ConnectionEvent) :
    Follows router factory
      (c.happen beast router factory (.completed event)) := by
  have hStruck := (c.strike_frame event.error).2.2.trans hFailed
  simp only [happen, step, hStruck, if_true]
  split
  · exact hFollows.congr rfl rfl Iff.rfl
  · exact hFollows

/- Whatever happens to it, a session keeps to the protocol. -/
theorem Follows.happen
    (hFollows : Follows router factory c)
    (event : SessionEvent) :
    Follows router factory
      (c.happen beast router factory event) := by
  rcases event with _ | event
  · exact hFollows.disconnect
  cases hFailed : c.failed with
  | true => exact hFollows.happen_failed beast hFailed event
  | false =>
      have hOrderly : c.Orderly := ⟨hFollows.single, hFailed⟩
      cases event with
      | arrived more =>
          rcases happen_arrived beast router factory
              hOrderly more with hSame | hArrive
          · rw [hSame]
            exact hFollows
          · rw [hArrive]
            exact hFollows.congr rfl rfl Iff.rfl
      | received ec =>
          by_cases hReading : .reading ∈ c.outstanding
          · by_cases hReady :
                ec.isSome ∨ (beast.message c.parser).isSome
            · rw [happen_received beast router factory
                hOrderly hReading hReady]
              apply hFollows.settle
              intro after hOk
              have hOne := hOrderly.outstanding_eq hReading
              cases hFollows with
              | reading served hKept _ _ hTrace =>
                  apply follows_received beast hKept _ _ _ hOk
                  · simp [complete, hOne]
                  · simp [complete, hTrace]
                  · simpa [complete] using hReady
              | writing _ _ _ hOther _ _ =>
                  simp [hOther] at hReading
              | closed _ _ _ hOther _ _ _ =>
                  simp [hOther] at hReading
            · have hIdle :
                  ec = none ∧
                    beast.message c.parser = none := by
                simpa [not_or] using hReady
              rw [happen_idle beast router factory hOrderly
                (Or.inr ⟨by rw [hIdle.1], hIdle.2⟩)]
              exact hFollows
          · have hNot : ¬ c.Awaits (.received ec) := hReading
            rw [happen_idle beast router factory hOrderly
              (Or.inl hNot)]
            exact hFollows
      | written keepAlive ec =>
          by_cases hWriting :
              .writing keepAlive ∈ c.outstanding
          · rw [happen_written beast router factory hOrderly
              hWriting]
            apply hFollows.settle
            intro after hOk
            have hOne := hOrderly.outstanding_eq hWriting
            cases hFollows with
            | reading _ _ hOther _ _ =>
                simp [hOther] at hWriting
            | closed _ _ _ hOther _ _ _ =>
                simp [hOther] at hWriting
            | writing served req hKept hOther hSocket
                hTrace =>
                rw [hOther, List.mem_singleton,
                  Operation.writing.injEq] at hWriting
                subst hWriting
                apply follows_written beast hKept _ _ _ hOk
                · simp [complete, hOne]
                · rintro rfl
                  exact hSocket
                · simp [complete, hTrace]
          · have hNot : ¬ c.Awaits (.written keepAlive ec) :=
              hWriting
            rw [happen_idle beast router factory hOrderly
              (Or.inl hNot)]
            exact hFollows

end HttpConnection

end Inks

------------------------------------------------------------
-- Runs
------------------------------------------------------------

namespace Inks

namespace Service

variable {P : Type}

/- All sessions keep to the protocol. -/
def Follow
    (router : HttpRouter)
    (factory : HttpHandlerFactory)
    (service : Service P) : Prop :=
  ∀ c ∈ service.sessions,
    HttpConnection.Follows router factory c

theorem follow_run
    (beast : Framing.Reader UInt8 P HttpRequest)
    (router : HttpRouter)
    (factory : HttpHandlerFactory)
    (events : List ServiceEvent) :
    Follow router factory
      (Transition.run (step beast router factory)
        ({} : Service P) events) := by
  have hJoined (c : HttpConnection P)
      (hMem : .joined c ∈ events.map (loopEvent beast)) :
      HttpConnection.Follows router factory c := by
    rcases List.mem_map.mp hMem with ⟨event, _, hEvent⟩
    rcases event with (_ | incoming) | _ | _ <;>
      simp [loopEvent] at hEvent
    exact hEvent ▸ HttpConnection.follows_start beast incoming
  have hRun :=
    EventLoop.members_invariant (rules beast router factory)
      (fun c event hFollows => hFollows.happen beast event)
      (events.map (loopEvent beast)) hJoined
  have hSame :=
    toLoop_run beast router factory ({} : Service P) events
  intro c hMem
  apply hRun c
  change c ∈
    (Transition.run
      (EventLoop.step (rules beast router factory))
      ({} : Service P).toLoop
      (events.map (loopEvent beast))).members
  rw [← hSame]
  exact hMem

/-
  In every run, with any bytes, any errors and any number of
  sessions, each session keeps to the protocol: an answer is
  written for the request that was just read, nothing is
  read before it is out, and a session that is closed has no
  operation that would keep it alive.
-/
theorem sessions_follow
    (beast : Framing.Reader UInt8 P HttpRequest)
    (router : HttpRouter)
    (factory : HttpHandlerFactory)
    (events : List ServiceEvent) :
    Transition.Always (step beast router factory)
      (Follow router factory) ({} : Service P) events := by
  intro past _
  exact follow_run beast router factory past

end Service

end Inks
