import Inks.Foundation.Bytes
import Inks.Library.Run

/-
  The output of a subprocess: two pipes, each with a buffer
  and a callback for its lines, and the loop that reads up
  to the next newline and then starts over.

  Key definitions include:
    * `LineStream`
    * `LineStream.handleStream`, `LineStream.lineRead`
    * `ProcessOutput`
    * `ProcessOutput.step`
-/

------------------------------------------------------------
-- One Stream
------------------------------------------------------------

namespace Inks

/- The reasons for which a read can fail. -/
inductive ReadError where
| eof
| operationAborted
-- The buffer is full and has no newline in it.
| notFound
| other
deriving DecidableEq, Repr

/- A call of a line callback: where it points, how far. -/
structure LineCall where
  buffered : ByteString
  len : UInt64
deriving DecidableEq, Repr

/- The bytes that a callback is given. -/
def LineCall.line
    (call : LineCall) : ByteString :=
  call.buffered.take call.len.toNat

structure LineStream where
  -- Whether the handler has the pipe.
  pipe : Bool := true
  -- What the child writes and was not read yet.
  unread : ByteString
  streambuf : ByteString := []
  -- Whether the callback is set.
  cb : Bool := true
  -- The outstanding reads: whether each has a callback.
  reads : List Bool := []
  -- Ghost: the calls of the callback.
  calls : List LineCall := []
  -- Ghost: a read has failed.
  ended : Bool := false
  -- Ghost: the calls and the reads after that.
  late : Nat := 0
deriving DecidableEq, Repr

namespace LineStream

/- The maximal size of a `streambuf`. -/
def maxSize : Nat := UInt64.size - 1

def lines
    (s : LineStream) : List ByteString :=
  s.calls.map LineCall.line

/- Read up to the next newline, with a copy of a callback. -/
def handleStream
    (s : LineStream)
    (eachLine : Bool) : LineStream :=
  { s with
    reads := s.reads ++ [eachLine]
    late := if s.ended then s.late + 1 else s.late }

/- `handle_stdout` and `handle_stderr`. -/
def handleOutput
    (s : LineStream) : LineStream :=
  if !s.pipe ∨ !s.cb then
    s
  else
    s.handleStream s.cb

def call
    (s : LineStream)
    (len : UInt64) : LineStream :=
  { s with
    calls :=
      s.calls ++ [{ buffered := s.streambuf, len := len }]
    late := if s.ended then s.late + 1 else s.late }

/-
  The handler of a read. It never looks at its error code,
  and the length of a failed read is 0.
-/
def lineRead
    (s : LineStream)
    (eachLine : Bool)
    (_ec : Option ReadError)
    (len : UInt64) : LineStream :=
  let s := if eachLine then s.call (len - 1) else s
  let s :=
    { s with streambuf := s.streambuf.drop len.toNat }
  s.handleOutput

/- The part of `terminate` that is about this stream. -/
def close
    (s : LineStream) : LineStream :=
  { s with cb := false, pipe := false }

/- Some bytes are read, as long as there is no newline. -/
def arrive
    (s : LineStream)
    (more : Nat) : LineStream :=
  let n := min (more + 1) (maxSize - s.streambuf.length)
  if s.pipe ∧ s.reads ≠ [] ∧
      Ascii.newline ∉ s.streambuf then
    { s with
      unread := s.unread.drop n
      streambuf := s.streambuf ++ s.unread.take n }
  else
    s

/- A read completes with the first newline. -/
def succeed
    (s : LineStream) : LineStream :=
  match s.reads with
  | [] => s
  | eachLine :: reads =>
      match ByteString.find s.streambuf Ascii.newline with
      | none => s
      | some n =>
          lineRead { s with reads := reads } eachLine none
            (UInt64.ofNat (n + 1))

/- Whether a read can fail in some way. -/
def CanFail
    (s : LineStream)
    (ec : ReadError) : Prop :=
  s.reads ≠ [] ∧ Ascii.newline ∉ s.streambuf ∧
    match ec with
    | .eof => s.pipe = true ∧ s.unread = []
    | .operationAborted => s.pipe = false
    | .notFound => maxSize ≤ s.streambuf.length
    | .other => s.pipe = true

instance
    (s : LineStream)
    (ec : ReadError) :
    Decidable (s.CanFail ec) := by
  unfold CanFail
  cases ec <;> infer_instance

def fail
    (s : LineStream)
    (ec : ReadError) : LineStream :=
  if s.CanFail ec then
    match s.reads with
    | [] => s
    | eachLine :: reads =>
        lineRead { s with reads := reads, ended := true }
          eachLine (some ec) 0
  else
    s

end LineStream

end Inks

------------------------------------------------------------
-- Both Streams
------------------------------------------------------------

namespace Inks

structure ProcessOutput where
  stdout : LineStream
  stderr : LineStream
deriving DecidableEq, Repr

/- Which of the streams of a process. -/
inductive Output where
| stdout
| stderr
deriving DecidableEq, Repr

/- What happens to the output of a process. -/
inductive OutputEvent where
| arrived (output : Output) (more : Nat)
| succeeded (output : Output)
| failed (output : Output) (ec : ReadError)
| terminate
deriving DecidableEq, Repr

namespace ProcessOutput

def get
    (p : ProcessOutput) : Output → LineStream
| .stdout => p.stdout
| .stderr => p.stderr

def modify
    (p : ProcessOutput)
    (output : Output)
    (f : LineStream → LineStream) : ProcessOutput :=
  match output with
  | .stdout => { p with stdout := f p.stdout }
  | .stderr => { p with stderr := f p.stderr }

def handleStdout
    (p : ProcessOutput) : ProcessOutput :=
  p.modify .stdout LineStream.handleOutput

def handleStderr
    (p : ProcessOutput) : ProcessOutput :=
  p.modify .stderr LineStream.handleOutput

/- What `spawn` does for a child with this output. -/
def spawn
    (stdout stderr : ByteString) : ProcessOutput :=
  handleStderr
    (handleStdout
      { stdout := { unread := stdout }
        stderr := { unread := stderr } })

def terminate
    (p : ProcessOutput) : ProcessOutput where
  stdout := p.stdout.close
  stderr := p.stderr.close

def step
    (p : ProcessOutput) : OutputEvent → ProcessOutput
| .arrived output more =>
    p.modify output (LineStream.arrive · more)
| .succeeded output => p.modify output LineStream.succeed
| .failed output ec =>
    p.modify output (LineStream.fail · ec)
| .terminate => p.terminate

end ProcessOutput

end Inks
