import Inks.Library.Split
import Inks.Process.Output

/-
  Lines of output. As long as reads succeed the callback
  gets line after line. The handler of a read does not look
  at its error: at the end of the output, and when a read is
  aborted, the callback is called with a length that wraps
  around, and at the end the next read is issued, which
  fails again.

  Key definitions include:
    * `LineStream.DeliversLines`
    * `ProcessOutput.ReadsSucceed`

  Key theorems include:
    * `LineStream.succeed_eq`
    * `LineStream.Sound.late_fail`
    * `ProcessOutput.delivers_lines_iff`
-/

------------------------------------------------------------
-- Lines
------------------------------------------------------------

namespace Inks

namespace LineStream

/- The lines of an output that end with a newline. -/
def terminatedLines
    (output : ByteString) : List ByteString :=
  (output.splitOn Ascii.newline).dropLast

/-
  No event but the end of the output has any effect, and the
  buffer can take more.
-/
def Settled
    (s : LineStream) : Prop :=
  s.pipe = true ∧ s.streambuf.length < maxSize ∧
    (∀ more, s.arrive more = s) ∧ s.succeed = s

/-
  The callback has got the first lines of the output, each
  exactly once, and the others are still in the buffer or to
  be read; no length is past the end of the buffer; after
  the end nothing is called and no read issued. When nothing
  happens any more, all the lines were delivered.
-/
structure DeliversLines
    (output : ByteString)
    (s : LineStream) : Prop where
  inOrder :
    output.splitOn Ascii.newline =
      s.lines ++
        (s.streambuf ++ s.unread).splitOn Ascii.newline
  lengths :
    ∀ call ∈ s.calls,
      call.len.toNat ≤ call.buffered.length
  quiet : s.late = 0
  complete :
    s.Settled → s.lines = terminatedLines output

/-
  The callback of a read is set, an open pipe is read from,
  and what comes after a failed read is late.
-/
structure Sound
    (s : LineStream) : Prop where
  callback : ∀ eachLine ∈ s.reads, eachLine = true
  armed : s.pipe = true → s.cb = true ∧ s.reads ≠ []
  late : s.ended = true → 0 < s.late
  size : s.streambuf.length ≤ maxSize

end LineStream

end Inks

------------------------------------------------------------
-- Single Steps
------------------------------------------------------------

namespace Inks

namespace LineStream

/- Issuing a read changes nothing else. -/
@[simp] theorem handleOutput_frame
    (s : LineStream) :
    s.handleOutput.pipe = s.pipe ∧
      s.handleOutput.unread = s.unread ∧
      s.handleOutput.streambuf = s.streambuf ∧
      s.handleOutput.cb = s.cb ∧
      s.handleOutput.calls = s.calls ∧
      s.handleOutput.ended = s.ended := by
  unfold handleOutput
  split <;> simp [handleStream]

theorem le_late_handleOutput
    (s : LineStream) :
    s.late ≤ s.handleOutput.late := by
  unfold handleOutput
  split
  · exact Nat.le_refl _
  · simp only [handleStream]
    split <;> omega

theorem late_handleOutput
    {s : LineStream}
    (hEnded : s.ended = false) :
    s.handleOutput.late = s.late := by
  unfold handleOutput
  split
  · rfl
  · simp [handleStream, hEnded]

/- A read that is issued has a callback. -/
theorem reads_handleOutput
    {s : LineStream}
    (hReads : ∀ eachLine ∈ s.reads, eachLine = true) :
    (∀ eachLine ∈ s.handleOutput.reads, eachLine = true) ∧
      (s.pipe = true → s.cb = true →
        s.handleOutput.reads ≠ []) := by
  unfold handleOutput
  split
  · rename_i hNone
    refine ⟨hReads, ?_⟩
    intro hPipe hCb
    simp [hPipe, hCb] at hNone
  · rename_i hSome
    rw [not_or] at hSome
    have hCb : s.cb = true := by
      simpa using hSome.2
    refine ⟨?_, ?_⟩
    · intro eachLine hMem
      rcases List.mem_append.mp hMem with hOld | hNew
      · exact hReads eachLine hOld
      · rw [List.mem_singleton.mp hNew]
        exact hCb
    · simp [handleStream]

/- The length up to a newline does not wrap around. -/
theorem toNat_length
    {n : Nat}
    (hSize : n + 1 ≤ maxSize) :
    (UInt64.ofNat (n + 1)).toNat = n + 1 ∧
      (UInt64.ofNat (n + 1) - 1).toNat = n := by
  unfold maxSize UInt64.size at hSize
  have hOne : (UInt64.ofNat (n + 1)).toNat = n + 1 := by
    rw [UInt64.toNat_ofNat']
    omega
  refine ⟨hOne, ?_⟩
  rw [UInt64.toNat_sub, hOne]
  simp only [UInt64.toNat_one]
  omega

/- A read that succeeds delivers the line that it found. -/
theorem succeed_eq
    {s : LineStream}
    (hSound : s.Sound)
    {reads : List Bool}
    {line rest : ByteString}
    {eachLine : Bool}
    (hReads : s.reads = eachLine :: reads)
    (hLine : s.streambuf = line ++ Ascii.newline :: rest)
    (hFirst : Ascii.newline ∉ line) :
    ∃ len : UInt64, len.toNat = line.length ∧
      s.succeed =
        handleOutput
          { s with
            streambuf := rest
            reads := reads
            calls :=
              s.calls ++
                [{ buffered := s.streambuf, len := len }]
            late :=
              if s.ended then s.late + 1 else s.late } := by
  have hSize := hSound.size
  rw [hLine, List.length_append, List.length_cons] at hSize
  rcases toNat_length (n := line.length) (by omega) with
    ⟨hLength, hLen⟩
  have hCallback : eachLine = true :=
    hSound.callback eachLine (by simp [hReads])
  refine ⟨UInt64.ofNat (line.length + 1) - 1, hLen, ?_⟩
  unfold succeed
  rw [hReads, hLine, ByteString.find_append hFirst]
  simp only [lineRead, hCallback, if_true, call, hLength]
  have hDrop :
      (line ++ Ascii.newline :: rest).drop
        (line.length + 1) = rest := by
    simp
  rw [hDrop]

/- A read that fails calls the callback all the same. -/
theorem late_fail
    {s : LineStream}
    (hSound : s.Sound)
    {ec : ReadError}
    (hFails : s.CanFail ec) :
    0 < (s.fail ec).late := by
  unfold fail
  rw [if_pos hFails]
  cases hReads : s.reads with
  | nil => exact absurd hReads hFails.1
  | cons eachLine reads =>
      have hCallback : eachLine = true :=
        hSound.callback eachLine (by simp [hReads])
      simp only [lineRead, hCallback, if_true, call]
      refine Nat.lt_of_lt_of_le ?_ (le_late_handleOutput _)
      exact Nat.succ_pos s.late

/- Bytes go from the pipe to the end of the buffer. -/
theorem arrive_frame
    (s : LineStream)
    (more : Nat) :
    (s.arrive more).pipe = s.pipe ∧
      (s.arrive more).cb = s.cb ∧
      (s.arrive more).reads = s.reads ∧
      (s.arrive more).calls = s.calls ∧
      (s.arrive more).ended = s.ended ∧
      (s.arrive more).late = s.late ∧
      (s.arrive more).streambuf ++ (s.arrive more).unread =
        s.streambuf ++ s.unread := by
  unfold arrive
  dsimp only
  split <;> simp

end LineStream

end Inks

------------------------------------------------------------
-- Soundness
------------------------------------------------------------

namespace Inks

namespace LineStream

/- The reads stay sound when the next one is issued. -/
theorem Sound.handleOutput
    {s : LineStream}
    (hCallback : ∀ eachLine ∈ s.reads, eachLine = true)
    (hCb : s.pipe = true → s.cb = true)
    (hLate : s.ended = true → 0 < s.late)
    (hSize : s.streambuf.length ≤ maxSize) :
    s.handleOutput.Sound := by
  rcases s.handleOutput_frame with
    ⟨hPipe, _, hBuf, hSame, _, hEnded⟩
  rcases reads_handleOutput hCallback with
    ⟨hReads, hSome⟩
  exact
    { callback := hReads
      armed := by
        intro hOpen
        rw [hPipe] at hOpen
        rw [hSame]
        exact ⟨hCb hOpen, hSome hOpen (hCb hOpen)⟩
      late := by
        intro hOver
        rw [hEnded] at hOver
        exact
          Nat.lt_of_lt_of_le (hLate hOver)
            s.le_late_handleOutput
      size := by
        rw [hBuf]
        exact hSize }

theorem Sound.arrive
    {s : LineStream}
    (hSound : s.Sound)
    (more : Nat) :
    (s.arrive more).Sound := by
  rcases s.arrive_frame more with
    ⟨hPipe, hCb, hReads, _, hEnded, hLate, _⟩
  exact
    { callback := by
        rw [hReads]
        exact hSound.callback
      armed := by
        rw [hPipe, hCb, hReads]
        exact hSound.armed
      late := by
        rw [hEnded, hLate]
        exact hSound.late
      size := by
        have hSize := hSound.size
        unfold LineStream.arrive
        dsimp only
        split
        · rw [List.length_append, List.length_take]
          omega
        · exact hSize }

theorem Sound.lineRead
    {s : LineStream}
    {eachLine : Bool}
    (hEach : eachLine = true)
    (hCallback : ∀ other ∈ s.reads, other = true)
    (hCb : s.pipe = true → s.cb = true)
    (hSize : s.streambuf.length ≤ maxSize)
    (ec : Option ReadError)
    (len : UInt64) :
    (s.lineRead eachLine ec len).Sound := by
  subst hEach
  unfold LineStream.lineRead
  simp only [if_true, call]
  refine Sound.handleOutput hCallback hCb ?_ ?_
  · intro hEnded
    have hOver : s.ended = true := hEnded
    simp [hOver]
  · simp only [List.length_drop]
    omega

theorem Sound.succeed
    {s : LineStream}
    (hSound : s.Sound) :
    s.succeed.Sound := by
  unfold LineStream.succeed
  cases hReads : s.reads with
  | nil => exact hSound
  | cons eachLine reads =>
      have hAll := hSound.callback
      rw [hReads] at hAll
      simp only
      split
      · exact hSound
      · apply Sound.lineRead
        · exact hAll eachLine List.mem_cons_self
        · intro other hMem
          exact hAll other (List.mem_cons_of_mem _ hMem)
        · exact fun hPipe => (hSound.armed hPipe).1
        · exact hSound.size

theorem Sound.fail
    {s : LineStream}
    (hSound : s.Sound)
    (ec : ReadError) :
    (s.fail ec).Sound := by
  unfold LineStream.fail
  split
  · cases hReads : s.reads with
    | nil => exact hSound
    | cons eachLine reads =>
        have hAll := hSound.callback
        rw [hReads] at hAll
        apply Sound.lineRead
        · exact hAll eachLine List.mem_cons_self
        · intro other hMem
          exact hAll other (List.mem_cons_of_mem _ hMem)
        · exact fun hPipe => (hSound.armed hPipe).1
        · exact hSound.size
  · exact hSound

theorem Sound.close
    {s : LineStream}
    (hSound : s.Sound) :
    s.close.Sound :=
  { callback := hSound.callback
    armed := fun hPipe => nomatch hPipe
    late := hSound.late
    size := hSound.size }

end LineStream

end Inks

------------------------------------------------------------
-- Delivery
------------------------------------------------------------

namespace Inks

namespace LineStream

variable {output : ByteString} {s : LineStream}

/- Without a newline in the buffer no read succeeds. -/
theorem succeed_of_notMem
    (hNone : Ascii.newline ∉ s.streambuf) :
    s.succeed = s := by
  unfold succeed
  rw [ByteString.find_eq_none hNone]
  cases s.reads <;> rfl

/- With one, a read does. -/
theorem succeed_ne
    (hSound : s.Sound)
    (hReads : s.reads ≠ [])
    (hMem : Ascii.newline ∈ s.streambuf) :
    s.succeed ≠ s := by
  rcases List.exists_cons_of_ne_nil hReads with
    ⟨eachLine, reads, hCons⟩
  rcases List.eq_append_cons_of_mem hMem with
    ⟨line, rest, hLine, hFirst⟩
  rcases succeed_eq hSound hCons hLine hFirst with
    ⟨len, _, hNext⟩
  intro hSame
  rw [hNext] at hSame
  have hCalls := congrArg (List.length ∘ calls) hSame
  simp at hCalls

/-
  When nothing happens any more, all the output was read and
  the buffer has no newline left.
-/
theorem lines_of_settled
    (hSound : s.Sound)
    (hOrder :
      output.splitOn Ascii.newline =
        s.lines ++
          (s.streambuf ++ s.unread).splitOn Ascii.newline)
    (hSettled : s.Settled) :
    s.lines = terminatedLines output := by
  rcases hSettled with ⟨hPipe, hRoom, hArrive, hSucceed⟩
  have hReads := (hSound.armed hPipe).2
  have hNone : Ascii.newline ∉ s.streambuf := by
    intro hMem
    exact succeed_ne hSound hReads hMem hSucceed
  have hUnread : s.unread = [] := by
    have hStep := hArrive 0
    unfold arrive at hStep
    rw [if_pos ⟨hPipe, hReads, hNone⟩] at hStep
    have hSame := congrArg (List.length ∘ unread) hStep
    simp only [Function.comp_apply, List.length_drop]
      at hSame
    apply List.eq_nil_of_length_eq_zero
    omega
  rw [terminatedLines, hOrder, hUnread, List.append_nil,
    List.splitOn_eq_singleton hNone]
  simp

theorem DeliversLines.arrive
    (hDelivers : s.DeliversLines output)
    (hSound : s.Sound)
    (more : Nat) :
    (s.arrive more).DeliversLines output := by
  rcases s.arrive_frame more with
    ⟨_, _, _, hCalls, _, hLate, hBytes⟩
  have hOrder :
      output.splitOn Ascii.newline =
        (s.arrive more).lines ++
          ((s.arrive more).streambuf ++
            (s.arrive more).unread).splitOn
              Ascii.newline := by
    rw [hBytes, lines, hCalls]
    exact hDelivers.inOrder
  exact
    { inOrder := hOrder
      lengths := by
        rw [hCalls]
        exact hDelivers.lengths
      quiet := by
        rw [hLate]
        exact hDelivers.quiet
      complete := lines_of_settled (hSound.arrive more) hOrder }

/- The callback gets the next line, and it fits. -/
theorem DeliversLines.succeed
    (hDelivers : s.DeliversLines output)
    (hSound : s.Sound) :
    s.succeed.DeliversLines output := by
  by_cases hMem : Ascii.newline ∈ s.streambuf
  · cases hReads : s.reads with
    | nil =>
        unfold LineStream.succeed
        rw [hReads]
        exact hDelivers
    | cons eachLine reads =>
        rcases List.eq_append_cons_of_mem hMem with
          ⟨line, rest, hLine, hFirst⟩
        rcases succeed_eq hSound hReads hLine hFirst with
          ⟨len, hLen, hNext⟩
        have hEnded : s.ended = false := by
          by_contra hOver
          have hLate := hSound.late (by simpa using hOver)
          rw [hDelivers.quiet] at hLate
          cases hLate
        have hOrder :
            output.splitOn Ascii.newline =
              s.succeed.lines ++
                (s.succeed.streambuf ++
                  s.succeed.unread).splitOn
                    Ascii.newline := by
          rw [hDelivers.inOrder, hLine, List.append_assoc,
            List.cons_append,
            List.splitOn_append_cons_self_of_not_mem hFirst,
            hNext]
          simp [lines, LineCall.line, hLen, hLine]
        refine
          { inOrder := hOrder
            lengths := ?_
            quiet := ?_
            complete :=
              lines_of_settled hSound.succeed hOrder }
        · intro call hCall
          rw [hNext, (handleOutput_frame _).2.2.2.2.1,
            List.mem_append] at hCall
          rcases hCall with hOld | hNew
          · exact hDelivers.lengths call hOld
          · rw [List.mem_singleton.mp hNew, hLen, hLine]
            simp
        · rw [hNext, late_handleOutput]
          · simp [hEnded, hDelivers.quiet]
          · exact hEnded
  · rw [succeed_of_notMem hMem]
    exact hDelivers

theorem DeliversLines.close
    (hDelivers : s.DeliversLines output) :
    s.close.DeliversLines output :=
  { inOrder := hDelivers.inOrder
    lengths := hDelivers.lengths
    quiet := hDelivers.quiet
    complete := fun hSettled => nomatch hSettled.1 }

theorem fail_of_not_canFail
    {ec : ReadError}
    (hNot : ¬ s.CanFail ec) :
    s.fail ec = s := by
  unfold fail
  rw [if_neg hNot]

end LineStream

end Inks

------------------------------------------------------------
-- Runs
------------------------------------------------------------

namespace Inks

namespace ProcessOutput

/- The callbacks of both streams get their lines. -/
def DeliversLines
    (output : Output → ByteString)
    (p : ProcessOutput) : Prop :=
  ∀ o, (p.get o).DeliversLines (output o)

/- The event is not an error of an outstanding read. -/
def ReadsSucceed
    (p : ProcessOutput) : OutputEvent → Prop
| .failed o ec => ¬ (p.get o).CanFail ec
| _ => True

def Sound
    (p : ProcessOutput) : Prop :=
  ∀ o, (p.get o).Sound

@[simp] theorem get_modify
    (p : ProcessOutput)
    (o other : Output)
    (f : LineStream → LineStream) :
    (p.modify o f).get other =
      if other = o then f (p.get o) else p.get other := by
  cases o <;> cases other <;> rfl

@[simp] theorem get_terminate
    (p : ProcessOutput)
    (o : Output) :
    p.terminate.get o = (p.get o).close := by
  cases o <;> rfl

/- What a change of one stream keeps. -/
theorem forall_modify
    {P : Output → LineStream → Prop}
    {p : ProcessOutput}
    (hAll : ∀ o, P o (p.get o))
    (o : Output)
    {f : LineStream → LineStream}
    (hNew : P o (f (p.get o))) :
    ∀ other, P other ((p.modify o f).get other) := by
  intro other
  rw [get_modify]
  split
  · rename_i hSame
    subst hSame
    exact hNew
  · exact hAll other

theorem Sound.step
    {p : ProcessOutput}
    (hSound : p.Sound)
    (event : OutputEvent) :
    (p.step event).Sound := by
  cases event with
  | arrived o more =>
      exact
        forall_modify (P := fun _ => LineStream.Sound)
          hSound o ((hSound o).arrive more)
  | succeeded o =>
      exact
        forall_modify (P := fun _ => LineStream.Sound)
          hSound o (hSound o).succeed
  | failed o ec =>
      exact
        forall_modify (P := fun _ => LineStream.Sound)
          hSound o ((hSound o).fail ec)
  | terminate =>
      intro o
      rw [ProcessOutput.step, get_terminate]
      exact (hSound o).close

/- A step delivers lines exactly when no read fails. -/
theorem deliversLines_step_iff
    {output : Output → ByteString}
    {p : ProcessOutput}
    (hSound : p.Sound)
    (hDelivers : p.DeliversLines output)
    (event : OutputEvent) :
    (p.step event).DeliversLines output ↔
      p.ReadsSucceed event := by
  cases event with
  | arrived o more =>
      refine ⟨fun _ => trivial, fun _ => ?_⟩
      exact
        forall_modify
          (P := fun o s => s.DeliversLines (output o))
          hDelivers o ((hDelivers o).arrive (hSound o) more)
  | succeeded o =>
      refine ⟨fun _ => trivial, fun _ => ?_⟩
      exact
        forall_modify
          (P := fun o s => s.DeliversLines (output o))
          hDelivers o ((hDelivers o).succeed (hSound o))
  | terminate =>
      refine ⟨fun _ => trivial, fun _ => ?_⟩
      intro o
      rw [step, get_terminate]
      exact (hDelivers o).close
  | failed o ec =>
      constructor
      · intro hNext hFails
        have hLate := LineStream.late_fail (hSound o) hFails
        have hQuiet := (hNext o).quiet
        rw [step, get_modify, if_pos rfl] at hQuiet
        rw [hQuiet] at hLate
        cases hLate
      · intro hNot
        apply forall_modify
          (P := fun o s => s.DeliversLines (output o))
          hDelivers o
        rw [LineStream.fail_of_not_canFail hNot]
        exact hDelivers o

theorem spawn_get
    (output : Output → ByteString)
    (o : Output) :
    (spawn (output .stdout) (output .stderr)).get o =
      { unread := output o
        reads := [true] } := by
  cases o <;> rfl

theorem sound_spawn
    (output : Output → ByteString) :
    (spawn (output .stdout) (output .stderr)).Sound := by
  intro o
  rw [spawn_get]
  exact
    { callback := by simp
      armed := by simp
      late := by simp
      size := by simp }

theorem deliversLines_spawn
    (output : Output → ByteString) :
    (spawn (output .stdout)
      (output .stderr)).DeliversLines output := by
  intro o
  have hSound := sound_spawn output o
  rw [spawn_get] at hSound ⊢
  exact
    { inOrder := rfl
      lengths := by simp
      quiet := rfl
      complete := LineStream.lines_of_settled hSound rfl }

/-
  Lines are delivered as they should throughout a run
  exactly when no outstanding read fails in it.
-/
theorem delivers_lines_iff
    (output : Output → ByteString)
    (events : List OutputEvent) :
    Transition.Always step (DeliversLines output)
        (spawn (output .stdout) (output .stderr)) events ↔
      Transition.Along step ReadsSucceed
        (spawn (output .stdout) (output .stderr)) events :=
  Transition.always_iff_along (sound_spawn output)
    (deliversLines_spawn output)
    (fun _ event hSound => hSound.step event)
    (fun _ event hSound hDelivers =>
      deliversLines_step_iff hSound hDelivers event)
    events

/-
  A child prints one line and ends. At the end of its output
  the callback is called once more, with 2^64 - 1 bytes.
-/
theorem delivers_lines_end :
    ¬ Transition.Always step
      (DeliversLines fun o =>
        match o with
        | .stdout => text "done\n"
        | .stderr => [])
      (spawn (text "done\n") [])
      [.arrived .stdout 4, .succeeded .stdout,
        .failed .stdout .eof] := by
  intro hAlways
  have hLast := hAlways.last .stdout
  have hQuiet := hLast.quiet
  revert hQuiet
  decide

end ProcessOutput

end Inks
