import Inks.Library.Pipe
import Inks.Process.Lines

/-
  A child and the pipes behind its output. What a pipe takes
  of a write depends on what happened in it before, and a
  child whose write does not get in waits. A stream without a
  callback is never read, so all that the child writes to it
  has to get into the pipe; the scheduler starts its jobs in
  this way. With a callback nothing has to.

  Key definitions include:
    * `PipedOutput`
    * `PipedChild.step`
    * `PipedChild.Fits`

  Key theorems include:
    * `LineStream.drains`
    * `PipedChild.Inv.step`
    * `PipedChild.ends_iff_fits`
-/

------------------------------------------------------------
-- The Child
------------------------------------------------------------

namespace Inks

/- What the child has written is in the pipe. -/
def LineStream.receive
    (s : LineStream)
    (data : ByteString) : LineStream :=
  { s with unread := s.unread ++ data }

/-
  The output of a child, and what happened in its two pipes.
  In the streams `unread` is what the pipes hold.
-/
structure PipedOutput where
  streams : ProcessOutput
  uses : Output → List (PipeUse UInt8) := fun _ => []

namespace PipedOutput

/- What `spawn` does, with the callbacks that are set. -/
def spawn
    (callbacks : Output → Bool) : PipedOutput where
  streams :=
    ProcessOutput.handleStderr
      (ProcessOutput.handleStdout
        { stdout := { unread := [], cb := callbacks .stdout }
          stderr :=
            { unread := [], cb := callbacks .stderr } })

/- The part of a write that the pipe takes gets into it. -/
def write
    (pipes : Output → Pipe UInt8)
    (p : PipedOutput)
    (o : Output)
    (data : ByteString) : PipedOutput where
  streams :=
    p.streams.modify o
      (LineStream.receive · ((pipes o).gets (p.uses o) data))
  uses :=
    Function.update p.uses o
      ((pipes o).wrote (p.uses o) data)

/- How much a change of a stream takes out of its pipe. -/
def drained
    (before after : LineStream) : Nat :=
  before.unread.length - after.unread.length

def step
    (p : PipedOutput)
    (event : OutputEvent) : PipedOutput where
  streams := p.streams.step event
  uses o :=
    PipeUse.took (p.uses o)
      (drained (p.streams.get o) ((p.streams.step event).get o))

end PipedOutput

structure PipedChild where
  -- The writes that the child will still do, and where.
  writes : List (Output × ByteString)
  output : PipedOutput

inductive PipeEvent where
| wrote
| arrived (output : Output) (more : Nat)
| succeeded (output : Output)
| failed (output : Output) (ec : ReadError)
deriving DecidableEq, Repr

namespace PipedChild

def spawn
    (callbacks : Output → Bool)
    (writes : List (Output × ByteString)) : PipedChild where
  writes := writes
  output := PipedOutput.spawn callbacks

/- The child goes on with what the pipe does not take yet. -/
def write
    (pipes : Output → Pipe UInt8)
    (s : PipedChild) : PipedChild :=
  match s.writes with
  | [] => s
  | (o, data) :: later =>
      let left := (pipes o).left (s.output.uses o) data
      { writes :=
          if left = [] then later else (o, left) :: later
        output := s.output.write pipes o data }

/- A pipe is at its end when the child is. -/
def step
    (pipes : Output → Pipe UInt8)
    (s : PipedChild) : PipeEvent → PipedChild
| .wrote => s.write pipes
| .arrived o more =>
    { s with output := s.output.step (.arrived o more) }
| .succeeded o =>
    { s with output := s.output.step (.succeeded o) }
| .failed o ec =>
    if ec = .eof ∧ s.writes ≠ [] then
      s
    else
      { s with output := s.output.step (.failed o ec) }

/- Those of some writes that go to an output. -/
def writesTo
    (o : Output) :
    List (Output × ByteString) → List ByteString
| [] => []
| (other, data) :: later =>
    if other = o then
      data :: writesTo o later
    else
      writesTo o later

/- All that nobody reads fits into its pipe. -/
def Fits
    (pipes : Output → Pipe UInt8)
    (callbacks : Output → Bool)
    (writes : List (Output × ByteString)) : Prop :=
  ∀ o, callbacks o = false →
    (pipes o).Fits (writesTo o writes)

end PipedChild

end Inks

------------------------------------------------------------
-- One Stream
------------------------------------------------------------

namespace Inks

namespace LineStream

variable {s : LineStream}

theorem lineRead_frame
    (s : LineStream)
    (eachLine : Bool)
    (ec : Option ReadError)
    (len : UInt64) :
    (s.lineRead eachLine ec len).pipe = s.pipe ∧
      (s.lineRead eachLine ec len).cb = s.cb ∧
      (s.lineRead eachLine ec len).unread = s.unread ∧
      (s.lineRead eachLine ec len).streambuf =
        s.streambuf.drop len.toNat := by
  cases eachLine <;> simp [lineRead, call]

theorem succeed_frame
    (s : LineStream) :
    s.succeed.pipe = s.pipe ∧ s.succeed.cb = s.cb ∧
      s.succeed.unread = s.unread ∧
      s.succeed.streambuf.length ≤ s.streambuf.length := by
  unfold succeed
  cases s.reads with
  | nil => simp
  | cons eachLine reads =>
      simp only
      split
      · simp
      · have hFrame := fun len =>
          lineRead_frame { s with reads := reads } eachLine
            none len
        simp [hFrame]

theorem fail_frame
    (s : LineStream)
    (ec : ReadError) :
    (s.fail ec).pipe = s.pipe ∧ (s.fail ec).cb = s.cb ∧
      (s.fail ec).unread = s.unread ∧
      (s.fail ec).streambuf.length ≤
        s.streambuf.length := by
  unfold fail
  split
  · cases s.reads with
    | nil => simp
    | cons eachLine reads =>
        have hFrame :=
          lineRead_frame
            { s with reads := reads, ended := true }
            eachLine (some ec) 0
        simp [hFrame]
  · simp

/- Without a read nothing happens to a stream. -/
theorem silent_frame
    (hReads : s.reads = []) :
    (∀ more, s.arrive more = s) ∧ s.succeed = s ∧
      ∀ ec, s.fail ec = s := by
  refine ⟨?_, ?_, ?_⟩
  · intro more
    simp [arrive, hReads]
  · simp [succeed, hReads]
  · intro ec
    simp [fail, CanFail, hReads]

theorem arrive_unread
    (s : LineStream)
    (more : Nat) :
    (s.arrive more).unread =
      s.unread.drop
        (PipedOutput.drained s (s.arrive more)) := by
  unfold PipedOutput.drained arrive
  dsimp only
  split
  · rw [List.length_drop, List.drop_eq_drop_iff]
    omega
  · simp

theorem Sound.receive
    (hSound : s.Sound)
    (data : ByteString) :
    (s.receive data).Sound where
  callback := hSound.callback
  armed := hSound.armed
  late := hSound.late
  size := hSound.size

/-
  The reads of a stream with a callback make room in its
  pipe: after all the lines in the buffer a byte is read. The
  induction is on the buffer, which each line leaves shorter.
-/
theorem drains
    (hSound : s.Sound)
    (hPipe : s.pipe = true)
    (hUnread : s.unread ≠ [])
    (hRoom :
      s.streambuf.length + s.unread.length < maxSize) :
    ∃ n,
      ((succeed^[n] s).arrive 0).unread.length <
        s.unread.length := by
  have hPos := List.length_pos_of_ne_nil hUnread
  generalize hLength : s.streambuf.length = length
  induction length using Nat.strong_induction_on
    generalizing s with
  | _ length ih =>
      have hReads := (hSound.armed hPipe).2
      by_cases hMem : Ascii.newline ∈ s.streambuf
      · rcases List.exists_cons_of_ne_nil hReads with
          ⟨eachLine, reads, hCons⟩
        rcases List.eq_append_cons_of_mem hMem with
          ⟨line, rest, hLine, hFirst⟩
        rcases succeed_eq hSound hCons hLine hFirst with
          ⟨len, _, hNext⟩
        have hFrame := s.succeed_frame
        have hBuf : s.succeed.streambuf = rest := by
          rw [hNext]
          exact (handleOutput_frame _).2.2.1
        have hShorter :
            s.succeed.streambuf.length < length := by
          rw [hBuf, ← hLength, hLine]
          simp only [List.length_append, List.length_cons]
          omega
        rcases ih _ hShorter hSound.succeed
            (hFrame.1.trans hPipe)
            (by rw [hFrame.2.2.1]; exact hUnread)
            (by rw [hFrame.2.2.1]; omega)
            (by rw [hFrame.2.2.1]; exact hPos) rfl with
          ⟨n, hLess⟩
        rw [hFrame.2.2.1] at hLess
        exact ⟨n + 1, hLess⟩
      · refine ⟨0, ?_⟩
        have hRead : min (0 + 1)
            (maxSize - s.streambuf.length) = 1 := by omega
        simp only [Function.iterate_zero, id_eq, arrive,
          hRead]
        rw [if_pos ⟨hPipe, hReads, hMem⟩]
        simp only [List.length_drop]
        omega

end LineStream

end Inks

------------------------------------------------------------
-- The Invariant
------------------------------------------------------------

namespace Inks

namespace LineStream

/-
  A stream to which the writes `total` go, of which those in
  `rest` are still to come. Nobody reads it without a
  callback, so its writes have got in one after the other.
-/
structure Piped
    (pipe : Pipe UInt8)
    (callback : Bool)
    (total rest : List ByteString)
    (uses : List (PipeUse UInt8))
    (s : LineStream) : Prop where
  opened : s.pipe = true
  cb : s.cb = callback
  held : PipeUse.held uses = s.unread
  load :
    s.streambuf.length + s.unread.length +
        rest.flatten.length ≤
      total.flatten.length
  silent :
    callback = false →
      s.reads = [] ∧
        ∃ k, (pipe.alone)^[k] ([], total) = (uses, rest)
  sound : callback = true → s.Sound

variable {pipe : Pipe UInt8} {callback : Bool}
variable {total rest : List ByteString}
variable {uses : List (PipeUse UInt8)} {s : LineStream}

theorem Piped.receive
    {data : ByteString}
    {later : List ByteString}
    (hPiped :
      Piped pipe callback total (data :: later) uses s) :
    Piped pipe callback total
      (pipe.rest uses (data :: later))
      (pipe.wrote uses data)
      (s.receive (pipe.gets uses data)) := by
  refine ⟨hPiped.opened, hPiped.cb, ?_, ?_, ?_, ?_⟩
  · rw [Pipe.held_wrote, hPiped.held]
    rfl
  · have hLoad := hPiped.load
    have hRest :=
      congrArg List.length
        (pipe.gets_append_flatten_rest uses data later)
    rw [List.length_append] at hRest
    simp only [LineStream.receive, List.length_append]
    omega
  · intro hNone
    rcases hPiped.silent hNone with ⟨hReads, k, hTurns⟩
    refine ⟨hReads, k + 1, ?_⟩
    rw [Function.iterate_succ_apply', hTurns]
    rfl
  · intro hSome
    exact (hPiped.sound hSome).receive _

/- What a read does to a stream, if anything is read. -/
theorem Piped.read
    {after : LineStream}
    (hPiped : Piped pipe callback total rest uses s)
    (hPipe : after.pipe = s.pipe)
    (hCb : after.cb = s.cb)
    (hUnread :
      after.unread =
        s.unread.drop (PipedOutput.drained s after))
    (hLoad :
      after.streambuf.length + after.unread.length ≤
        s.streambuf.length + s.unread.length)
    (hSilent : s.reads = [] → after = s)
    (hSound : s.Sound → after.Sound) :
    Piped pipe callback total rest
      (PipeUse.took uses (PipedOutput.drained s after))
      after := by
  refine ⟨hPipe.trans hPiped.opened, hCb.trans hPiped.cb,
    ?_, ?_, ?_, ?_⟩
  · rw [PipeUse.held_took, hPiped.held, ← hUnread]
  · have hBefore := hPiped.load
    omega
  · intro hNone
    rcases hPiped.silent hNone with ⟨hReads, hTurns⟩
    rw [hSilent hReads, PipedOutput.drained, Nat.sub_self,
      PipeUse.took_zero]
    exact ⟨hReads, hTurns⟩
  · intro hSome
    exact hSound (hPiped.sound hSome)

/- A change that reads nothing takes nothing out. -/
theorem unread_of_same
    {after : LineStream}
    (hSame : after.unread = s.unread) :
    after.unread =
      s.unread.drop (PipedOutput.drained s after) := by
  rw [PipedOutput.drained, hSame, Nat.sub_self,
    List.drop_zero]

theorem Piped.stays
    (hPiped : Piped pipe callback total rest uses s) :
    Piped pipe callback total rest
      (PipeUse.took uses (PipedOutput.drained s s)) s :=
  hPiped.read rfl rfl (unread_of_same rfl) (Nat.le_refl _)
    (fun _ => rfl) id

theorem Piped.arrive
    (hPiped : Piped pipe callback total rest uses s)
    (more : Nat) :
    Piped pipe callback total rest
      (PipeUse.took uses
        (PipedOutput.drained s (s.arrive more)))
      (s.arrive more) := by
  rcases s.arrive_frame more with
    ⟨hPipe, hCb, _, _, _, _, hBytes⟩
  have hLength := congrArg List.length hBytes
  rw [List.length_append, List.length_append] at hLength
  apply hPiped.read hPipe hCb
  · exact s.arrive_unread more
  · omega
  · intro hReads
    exact (silent_frame hReads).1 more
  · intro hSound
    exact hSound.arrive more

theorem Piped.succeed
    (hPiped : Piped pipe callback total rest uses s) :
    Piped pipe callback total rest
      (PipeUse.took uses (PipedOutput.drained s s.succeed))
      s.succeed := by
  rcases s.succeed_frame with ⟨hPipe, hCb, hSame, hBuf⟩
  apply hPiped.read hPipe hCb
  · exact unread_of_same hSame
  · rw [hSame]
    omega
  · intro hReads
    exact (silent_frame hReads).2.1
  · exact Sound.succeed

theorem Piped.fail
    (hPiped : Piped pipe callback total rest uses s)
    (ec : ReadError) :
    Piped pipe callback total rest
      (PipeUse.took uses (PipedOutput.drained s (s.fail ec)))
      (s.fail ec) := by
  rcases s.fail_frame ec with ⟨hPipe, hCb, hSame, hBuf⟩
  apply hPiped.read hPipe hCb
  · exact unread_of_same hSame
  · rw [hSame]
    omega
  · intro hReads
    exact (silent_frame hReads).2.2 ec
  · intro hSound
    exact hSound.fail ec

end LineStream

namespace PipedChild

variable {pipes : Output → Pipe UInt8}
variable {callbacks : Output → Bool}
variable {total : List (Output × ByteString)}
variable {s : PipedChild}

def Inv
    (pipes : Output → Pipe UInt8)
    (callbacks : Output → Bool)
    (total : List (Output × ByteString))
    (s : PipedChild) : Prop :=
  ∀ o,
    LineStream.Piped (pipes o) (callbacks o)
      (writesTo o total) (writesTo o s.writes)
      (s.output.uses o) (s.output.streams.get o)

theorem inv_spawn
    (pipes : Output → Pipe UInt8)
    (callbacks : Output → Bool)
    (writes : List (Output × ByteString)) :
    Inv pipes callbacks writes
      (spawn callbacks writes) := by
  intro o
  have hStream :
      (spawn callbacks writes).output.streams.get o =
        LineStream.handleOutput
          { unread := [], cb := callbacks o } := by
    cases o <;> rfl
  have hWrites : (spawn callbacks writes).writes = writes :=
    rfl
  rw [hStream, hWrites]
  cases hCallback : callbacks o with
  | false =>
      exact
        { opened := rfl
          cb := rfl
          held := rfl
          load := by
            simp [LineStream.handleOutput]
          silent := fun _ => ⟨rfl, 0, rfl⟩
          sound := by
            intro hSome
            cases hSome }
  | true =>
      exact
        { opened := rfl
          cb := rfl
          held := rfl
          load := by
            simp [LineStream.handleOutput,
              LineStream.handleStream]
          silent := by
            intro hNone
            cases hNone
          sound := by
            intro _
            apply LineStream.Sound.handleOutput <;> simp }

/- What gets in gets into its own pipe. -/
theorem Inv.write
    (hInv : Inv pipes callbacks total s) :
    Inv pipes callbacks total (s.write pipes) := by
  unfold PipedChild.write
  rcases hWrites : s.writes with _ | ⟨⟨o, data⟩, later⟩
  · exact hInv
  · intro other
    have hHere := hInv other
    rw [hWrites, writesTo] at hHere
    simp only [PipedOutput.write, ProcessOutput.get_modify]
    by_cases hSame : o = other
    · subst hSame
      rw [if_pos rfl] at hHere ⊢
      rw [Function.update_self]
      have hThere := hHere.receive
      rw [Pipe.rest_cons] at hThere
      split at hThere
      · next hNone =>
          rw [if_pos hNone]
          exact hThere
      · next hSome =>
          rw [if_neg hSome, writesTo, if_pos rfl]
          exact hThere
    · rw [if_neg hSame] at hHere
      rw [if_neg (Ne.symm hSame),
        Function.update_of_ne (Ne.symm hSame)]
      split
      · exact hHere
      · rw [writesTo, if_neg hSame]
        exact hHere

/- One of the streams is read, and the other stays. -/
theorem Inv.read
    (hInv : Inv pipes callbacks total s)
    {event : OutputEvent}
    (o : Output)
    {f : LineStream → LineStream}
    (hEvent :
      ∀ p : ProcessOutput, p.step event = p.modify o f)
    (hRead :
      ∀ {pipe callback total rest uses} {t : LineStream},
        LineStream.Piped pipe callback total rest uses t →
          LineStream.Piped pipe callback total rest
            (PipeUse.took uses
              (PipedOutput.drained t (f t)))
            (f t)) :
    Inv pipes callbacks total
      { s with output := s.output.step event } := by
  intro other
  simp only [PipedOutput.step, hEvent,
    ProcessOutput.get_modify]
  split
  · next hSame =>
      subst hSame
      exact hRead (hInv other)
  · exact (hInv other).stays

theorem Inv.step
    (hInv : Inv pipes callbacks total s)
    (event : PipeEvent) :
    Inv pipes callbacks total (s.step pipes event) := by
  cases event with
  | wrote => exact hInv.write
  | arrived o more =>
      exact
        hInv.read o (fun _ => rfl) (fun hPiped =>
          hPiped.arrive more)
  | succeeded o =>
      exact
        hInv.read o (fun _ => rfl) (fun hPiped =>
          hPiped.succeed)
  | failed o ec =>
      by_cases hEarly : ec = .eof ∧ s.writes ≠ []
      · simp only [PipedChild.step, if_pos hEarly]
        exact hInv
      · simp only [PipedChild.step, if_neg hEarly]
        exact
          hInv.read o (fun _ => rfl) (fun hPiped =>
            hPiped.fail ec)

theorem Inv.run
    (hInv : Inv pipes callbacks total s)
    (events : List PipeEvent) :
    Inv pipes callbacks total
      (Transition.run (PipedChild.step pipes) s events) :=
  (Transition.always_of_step hInv
    (fun _ event hInv => hInv.step event) events).last

end PipedChild

end Inks

------------------------------------------------------------
-- The End of the Child
------------------------------------------------------------

namespace Inks

namespace PipedChild

variable {pipes : Output → Pipe UInt8}
variable {callbacks : Output → Bool}
variable {total : List (Output × ByteString)}
variable {s : PipedChild}

/- Lines that are delivered, one after the other. -/
theorem run_succeeded
    (pipes : Output → Pipe UInt8)
    (s : PipedChild)
    (o : Output)
    (n : Nat) :
    let t :=
      Transition.run (step pipes) s
        (List.replicate n (.succeeded o))
    t.writes = s.writes ∧
      t.output.streams.get o =
        LineStream.succeed^[n] (s.output.streams.get o) := by
  induction n generalizing s with
  | zero => exact ⟨rfl, rfl⟩
  | succ n ih =>
      rw [List.replicate_succ]
      rcases ih (s.step pipes (.succeeded o)) with
        ⟨hWrites, hStream⟩
      refine ⟨hWrites, hStream.trans ?_⟩
      rw [Function.iterate_succ_apply]
      cases o <;> rfl

/-
  A stream that has a callback is read until nothing is left
  in its pipe. The induction is on what the pipe holds.
-/
theorem Inv.drained
    (hInv : Inv pipes callbacks total s)
    {o : Output}
    (hCallback : callbacks o = true)
    (hSize :
      (writesTo o total).flatten.length <
        LineStream.maxSize) :
    ∃ events,
      let t :=
        Transition.run (PipedChild.step pipes) s events
      t.writes = s.writes ∧
        (t.output.streams.get o).unread = [] := by
  generalize hLength :
    (s.output.streams.get o).unread.length = length
  induction length using Nat.strong_induction_on
    generalizing s with
  | _ length ih =>
      by_cases hUnread :
          (s.output.streams.get o).unread = []
      · exact ⟨[], rfl, hUnread⟩
      · have hHere := hInv o
        have hLoad := hHere.load
        rcases LineStream.drains (hHere.sound hCallback)
            hHere.opened hUnread (by omega) with ⟨n, hLess⟩
        let round : List PipeEvent :=
          List.replicate n (.succeeded o) ++ [.arrived o 0]
        let t :=
          Transition.run (PipedChild.step pipes) s round
        rcases run_succeeded pipes s o n with
          ⟨hWrites, hStream⟩
        have hSame : t.writes = s.writes := by
          simp only [t, round, Transition.run_concat]
          exact hWrites
        have hShorter :
            (t.output.streams.get o).unread.length <
              length := by
          simp only [t, round, Transition.run_concat,
            PipedChild.step, PipedOutput.step,
            ProcessOutput.step, ProcessOutput.get_modify,
            if_true, hStream]
          rw [← hLength]
          exact hLess
        rcases ih _ hShorter (hInv.run round) rfl with
          ⟨events, hThere, hEmpty⟩
        refine ⟨round ++ events, ?_⟩
        rw [Transition.run_append]
        exact ⟨hThere.trans hSame, hEmpty⟩

/- Something of the next write gets into its pipe. -/
theorem Inv.gets
    (hFits : Fits pipes callbacks total)
    (hSize :
      ∀ o, callbacks o = true →
        (writesTo o total).flatten.length <
          LineStream.maxSize)
    (hInv : Inv pipes callbacks total s)
    {o : Output}
    {data : ByteString}
    {later : List (Output × ByteString)}
    (hWrites : s.writes = (o, data) :: later)
    (hData : data ≠ []) :
    ∃ events,
      let t :=
        Transition.run (PipedChild.step pipes) s events
      t.writes = s.writes ∧
        (pipes o).gets (t.output.uses o) data ≠ [] := by
  cases hCallback : callbacks o with
  | false =>
      have hHere := hInv o
      rw [hWrites, writesTo, if_pos rfl] at hHere
      rcases (hHere.silent hCallback).2 with ⟨k, hTurns⟩
      exact
        ⟨[], rfl,
          (hFits o hCallback).gets_ne_nil hTurns hData⟩
  | true =>
      rcases hInv.drained hCallback (hSize o hCallback) with
        ⟨events, hSame, hEmpty⟩
      have hHeld := (hInv.run events o).held
      rw [hEmpty] at hHeld
      exact ⟨events, hSame, Pipe.gets_ne_nil hHeld hData⟩

/- What is left of the first write, whichever its pipe is. -/
theorem writes_write
    {o : Output}
    {data : ByteString}
    {later : List (Output × ByteString)}
    (hWrites : s.writes = (o, data) :: later) :
    (s.write pipes).writes.map Prod.snd =
      (pipes o).rest (s.output.uses o)
        (data :: later.map Prod.snd) := by
  rw [PipedChild.write, hWrites, Pipe.rest_cons]
  simp only
  split <;> rfl

/-
  A child whose output fits can always get to its end. The
  induction is on what it still has to write.
-/
theorem Inv.ends
    (hFits : Fits pipes callbacks total)
    (hSize :
      ∀ o, callbacks o = true →
        (writesTo o total).flatten.length <
          LineStream.maxSize)
    (hInv : Inv pipes callbacks total s) :
    ∃ events,
      (Transition.run (PipedChild.step pipes) s
        events).writes = [] := by
  generalize hLoad : Pipe.load (s.writes.map Prod.snd) = n
  induction n using Nat.strong_induction_on
    generalizing s with
  | _ n ih =>
      rcases hWrites : s.writes with _ | ⟨⟨o, data⟩, later⟩
      · exact ⟨[], hWrites⟩
      · have hGoes :
            ∃ events,
              let t :=
                Transition.run (PipedChild.step pipes) s
                  events
              t.writes = s.writes ∧
                (data = [] ∨
                  (pipes o).gets (t.output.uses o) data ≠
                    []) := by
          by_cases hData : data = []
          · exact ⟨[], rfl, Or.inl hData⟩
          · rcases hInv.gets hFits hSize hWrites hData with
              ⟨events, hSame, hGets⟩
            exact ⟨events, hSame, Or.inr hGets⟩
        rcases hGoes with ⟨events, hSame, hGoes⟩
        have hLess :=
          Pipe.load_rest_lt (later.map Prod.snd) hGoes
        rw [← writes_write (hSame.trans hWrites)] at hLess
        rw [hWrites, List.map_cons] at hLoad
        rw [hLoad] at hLess
        rcases ih _ hLess ((hInv.run events).step .wrote)
            rfl with ⟨more, hEnd⟩
        refine ⟨events ++ [.wrote] ++ more, ?_⟩
        rw [Transition.run_append, Transition.run_concat]
        exact hEnd

/-
  How many bytes fit depends on how they are written. With
  no more than a pipe is sure to take they do, and with more
  than it ever holds they do not.
-/
theorem fits_between
    {sure most : Nat}
    (hBetween :
      ∀ o, callbacks o = false →
        (pipes o).Between sure most) :
    ((∀ o, callbacks o = false →
          (writesTo o total).flatten.length ≤ sure) →
        Fits pipes callbacks total) ∧
      (Fits pipes callbacks total →
        ∀ o, callbacks o = false →
          (writesTo o total).flatten.length ≤ most) := by
  constructor
  · intro hSize o hNone
    exact (hBetween o hNone).fits (hSize o hNone)
  · intro hFits o hNone
    exact (hBetween o hNone).length_le (hFits o hNone)

/-
  A child comes to its end, and is never stuck on its way to
  it, exactly when what it writes to each output that is not
  read gets into the pipe. Otherwise it waits for ever: no
  event that is still to come can help it.
-/
theorem ends_iff_fits
    (pipes : Output → Pipe UInt8)
    (callbacks : Output → Bool)
    {writes : List (Output × ByteString)}
    (hSize :
      ∀ o, callbacks o = true →
        (writesTo o writes).flatten.length <
          LineStream.maxSize) :
    let after (events : List PipeEvent) :=
      Transition.run (step pipes) (spawn callbacks writes)
        events
    ((∃ events, (after events).writes = []) ↔
        Fits pipes callbacks writes) ∧
      ((∀ past, ∃ future,
          (after (past ++ future)).writes = []) ↔
        Fits pipes callbacks writes) := by
  intro after
  have hInv (events : List PipeEvent) :
      Inv pipes callbacks writes (after events) :=
    (inv_spawn pipes callbacks writes).run events
  have hOnly :
      (∃ events, (after events).writes = []) →
        Fits pipes callbacks writes := by
    rintro ⟨events, hEnd⟩ o hNone
    have hHere := hInv events o
    rw [hEnd] at hHere
    rcases (hHere.silent hNone).2 with ⟨k, hTurns⟩
    exact ⟨k, by rw [hTurns]; rfl⟩
  have hAlways :
      Fits pipes callbacks writes →
        ∀ past, ∃ future,
          (after (past ++ future)).writes = [] := by
    intro hFits past
    rcases (hInv past).ends hFits hSize with
      ⟨future, hEnd⟩
    refine ⟨future, ?_⟩
    have hSplit :
        after (past ++ future) =
          Transition.run (step pipes) (after past)
            future :=
      Transition.run_append _ _ past future
    rw [hSplit]
    exact hEnd
  refine ⟨⟨hOnly, ?_⟩, ⟨?_, hAlways⟩⟩
  · intro hFits
    rcases hAlways hFits [] with ⟨future, hEnd⟩
    exact ⟨future, hEnd⟩
  · intro hEnds
    rcases hEnds [] with ⟨future, hEnd⟩
    exact hOnly ⟨future, hEnd⟩

/-
  A job that writes to both outputs, one of which is read,
  with pipes for two bytes.
-/
theorem ends_iff_fits_small :
    let pipes : Output → Pipe UInt8 :=
      fun _ => Pipe.counting 2 Nat.two_pos
    let callbacks : Output → Bool := (· = .stdout)
    let writes : List (Output × ByteString) :=
      [(.stdout, [72, 105, 10]), (.stderr, [63])]
    let after (events : List PipeEvent) :=
      Transition.run (step pipes) (spawn callbacks writes)
        events
    ((∃ events, (after events).writes = []) ↔
        Fits pipes callbacks writes) ∧
      ((∀ past, ∃ future,
          (after (past ++ future)).writes = []) ↔
        Fits pipes callbacks writes) := by
  apply ends_iff_fits
  intro o _
  cases o <;> simp [writesTo, LineStream.maxSize, UInt64.size]

end PipedChild

end Inks
