import Inks.Process.Pipes

/-
  A child and the pipe behind its input. A call that writes
  to the pipe blocks the event loop until everything is in
  it, so nobody reads the output of the child meanwhile. The
  call comes back when the child, with the output that its
  pipes take, ends or takes enough of its input.

  Key definitions include:
    * `ChildSetup`
    * `FedChild`
    * `FedChild.step`
    * `ChildAlone.Takes`

  Key theorems include:
    * `FedChild.reads_as_sent`
    * `FedChild.write_returns_between`
-/

------------------------------------------------------------
-- The Child
------------------------------------------------------------

namespace Inks

/- What a child does next with its three streams. -/
inductive ChildAct
    (κ : Type*) where
| ends
-- It does nothing any more, and does not end either.
| hangs
-- It reads a byte, or finds the end of its input.
| reads (next : Option UInt8 → κ)
| writes (output : Output) (data : ByteString) (next : κ)

def ChildAct.hasEnded
    {κ : Type*} : ChildAct κ → Bool
| .ends => true
| _ => false

/-
  A child that goes from state to state, for ever if it
  likes, and what it finds around itself.
-/
structure ChildSetup
    (κ : Type*) where
  act : κ → ChildAct κ
  stdin : Pipe UInt8
  outputs : Output → Pipe UInt8
  -- Whether the process that has spawned it ignores the
  -- signal that comes when nobody reads a pipe. `main` does.
  ignoresSigpipe : Bool

/- The child goes on with what a pipe does not take yet. -/
def ChildSetup.goOn
    {κ : Type*}
    (w : ChildSetup κ)
    (o : Output)
    (left : ByteString)
    (next : κ) : ChildAct κ :=
  if left = [] then
    w.act next
  else
    .writes o left next

/- The state of a `bp::opstream`. -/
inductive Opstream where
| good
| bad
deriving DecidableEq, Repr

/- A call of `write_stdin` that is under way. -/
structure StdinWrite where
  -- What it still has to write, as the stream divides it.
  pieces : List ByteString
  len : Nat
deriving DecidableEq, Repr

structure FedChild
    (κ : Type*) where
  doing : ChildAct κ
  output : PipedOutput
  -- Whether the pipe is the input of the child. If not, it
  -- has no input, and both ends of the pipe are here.
  interactive : Bool
  stdin : Option Opstream := some .good
  input : List (PipeUse UInt8) := []
  writing : Option StdinWrite := none
  -- Whether a signal has ended the process of the handler.
  killed : Bool := false
  -- Ghost: what the calls have returned.
  results : List Int := []
  -- Ghost: what was given to a good stream.
  sent : ByteString := []
  -- Ghost: what the child has read.
  taken : ByteString := []
  -- Ghost: the child has found the end of its input.
  sawEnd : Bool := false

/- What the thread of the event loop does. -/
inductive HandlerCall where
| writeStdin (pieces : List ByteString)
| closeStdin
| output (event : OutputEvent)
deriving DecidableEq, Repr

inductive FedEvent where
| moved
| wrote
| called (call : HandlerCall)
deriving DecidableEq, Repr

end Inks

------------------------------------------------------------
-- Events
------------------------------------------------------------

namespace Inks

namespace FedChild

variable {κ : Type*}

/- What `spawn` does, with the callbacks that are set. -/
def spawn
    (w : ChildSetup κ)
    (interactive : Bool)
    (callbacks : Output → Bool)
    (start : κ) : FedChild κ where
  doing := w.act start
  output := PipedOutput.spawn callbacks
  interactive := interactive

/- What the pipe behind the input holds. -/
def held
    (s : FedChild κ) : ByteString :=
  PipeUse.held s.input

/- The child does what comes next in it, if it can. -/
def move
    (w : ChildSetup κ)
    (s : FedChild κ) : FedChild κ :=
  match s.doing with
  | .ends => s
  | .hangs => s
  | .reads next =>
      if s.interactive then
        match s.held with
        | b :: _ =>
            { s with
              doing := w.act (next (some b))
              input := PipeUse.took s.input 1
              taken := s.taken ++ [b] }
        | [] =>
            if s.stdin = none then
              { s with
                doing := w.act (next none)
                sawEnd := true }
            else
              s
      else
        { s with
          doing := w.act (next none)
          sawEnd := true }
  | .writes o data next =>
      let left := (w.outputs o).left (s.output.uses o) data
      { s with
        doing := w.goOn o left next
        output := s.output.write w.outputs o data }

/-
  The call of `write_stdin` that is under way goes on. What
  the pipe does not take of a piece has to wait. Without a
  reader there is a signal, and if that is ignored the write
  fails. The call does not look at the stream after that,
  and returns the length.
-/
def write
    (w : ChildSetup κ)
    (s : FedChild κ) : FedChild κ :=
  match s.writing with
  | none => s
  | some ⟨[], len⟩ =>
      { s with
        writing := none
        results := s.results ++ [(len : Int)] }
  | some ⟨piece :: pieces, len⟩ =>
      if piece ≠ [] ∧ s.interactive ∧ s.doing.hasEnded then
        if w.ignoresSigpipe then
          { s with
            stdin := s.stdin.map fun _ => .bad
            writing := some ⟨[], len⟩ }
        else
          { s with killed := true }
      else
        { s with
          input := w.stdin.wrote s.input piece
          writing :=
            some
              ⟨w.stdin.rest s.input (piece :: pieces),
                len⟩ }

/- A stream that is bad writes nothing. -/
def writeStdin
    (s : FedChild κ)
    (pieces : List ByteString) : FedChild κ :=
  match s.stdin with
  | none => { s with results := s.results ++ [-1] }
  | some .good =>
      { s with
        writing := some ⟨pieces, pieces.flatten.length⟩
        sent := s.sent ++ pieces.flatten }
  | some .bad =>
      { s with
        writing := some ⟨[], pieces.flatten.length⟩ }

def closeStdin
    (s : FedChild κ) : FedChild κ :=
  { s with stdin := none }

def terminate
    (s : FedChild κ) : FedChild κ :=
  { s with
    doing := .ends
    output := s.output.step .terminate
    stdin := none }

/- The output is at its end when the child is. -/
def call
    (s : FedChild κ) : HandlerCall → FedChild κ
| .writeStdin pieces => s.writeStdin pieces
| .closeStdin => s.closeStdin
| .output .terminate => s.terminate
| .output (.failed o ec) =>
    if ec = .eof ∧ !s.doing.hasEnded then
      s
    else
      { s with output := s.output.step (.failed o ec) }
| .output event => { s with output := s.output.step event }

/- A call that is under way blocks the event loop. -/
def step
    (w : ChildSetup κ)
    (s : FedChild κ)
    (event : FedEvent) : FedChild κ :=
  if s.killed then
    s
  else
    match event with
    | .moved => s.move w
    | .wrote => s.write w
    | .called call =>
        if s.writing.isSome then
          s
        else
          s.call call

/- What the call that is under way has to write still. -/
def unwritten
    (s : FedChild κ) : ByteString :=
  match s.writing with
  | none => []
  | some w => w.pieces.flatten

end FedChild

end Inks

------------------------------------------------------------
-- Runs of a Handler
------------------------------------------------------------

namespace Inks

namespace FedChild

variable {κ : Type*} {w : ChildSetup κ} {s : FedChild κ}

/-
  Where everything is that was given to the calls. A stream
  goes bad only when its child has ended, and a child finds
  the end of its input only behind the last byte.
-/
structure Inv
    (w : ChildSetup κ)
    (s : FedChild κ) : Prop where
  alive : w.ignoresSigpipe = true → s.killed = false
  size :
    ∀ sure most, w.stdin.Between sure most →
      s.held.length ≤ most
  calling : s.writing ≠ none → s.stdin ≠ none
  bad :
    s.stdin = some .bad →
      s.interactive = true ∧ s.doing.hasEnded = true
  whole :
    ¬ (s.interactive = true ∧ s.doing.hasEnded = true) →
      s.taken ++ s.held ++ s.unwritten = s.sent
  inOrder : s.taken ++ s.held <+: s.sent
  sawEnd :
    s.interactive = true → s.sawEnd = true →
      s.stdin = none ∧ s.held = [] ∧ s.taken = s.sent
  unread : s.interactive = false → s.taken = []

theorem inv_spawn
    (w : ChildSetup κ)
    (interactive : Bool)
    (callbacks : Output → Bool)
    (start : κ) :
    Inv w (spawn w interactive callbacks start) where
  alive _ := rfl
  size _ _ _ := Nat.zero_le _
  calling := by simp [spawn]
  bad := by simp [spawn]
  whole _ := rfl
  inOrder := List.prefix_rfl
  sawEnd := by simp [spawn]
  unread := by simp [spawn]

theorem unwritten_of_idle
    (hIdle : s.writing = none) :
    s.unwritten = [] := by
  rw [unwritten, hIdle]

/- What a child that goes on can do. -/
inductive Moves
    (s : FedChild κ) : FedChild κ → Prop where
| stays : Moves s s
| writes
    (doing : ChildAct κ)
    (output : PipedOutput)
    (hGoes : s.doing.hasEnded = false) :
    Moves s { s with doing := doing, output := output }
| reads
    (doing : ChildAct κ)
    (b : UInt8)
    (held : ByteString)
    (hGoes : s.doing.hasEnded = false)
    (hInteractive : s.interactive = true)
    (hHeld : s.held = b :: held) :
    Moves s
      { s with
        doing := doing
        input := PipeUse.took s.input 1
        taken := s.taken ++ [b] }
| finds
    (doing : ChildAct κ)
    (hGoes : s.doing.hasEnded = false)
    (hClosed :
      s.interactive = true → s.held = [] ∧ s.stdin = none) :
    Moves s { s with doing := doing, sawEnd := true }

theorem moves_move
    (w : ChildSetup κ)
    (s : FedChild κ) :
    Moves s (s.move w) := by
  unfold FedChild.move
  cases hDoing : s.doing with
  | ends => exact .stays
  | hangs => exact .stays
  | reads next =>
      have hGoes : s.doing.hasEnded = false := by
        rw [hDoing]
        rfl
      simp only
      split
      · next hInteractive =>
          cases hHeld : s.held with
          | nil =>
              simp only
              split
              · next hClosed =>
                  exact
                    .finds _ hGoes fun _ => ⟨hHeld, hClosed⟩
              · exact .stays
          | cons b held =>
              exact .reads _ b held hGoes hInteractive hHeld
      · next hNot =>
          exact
            .finds _ hGoes fun hInteractive =>
              absurd hInteractive hNot
  | writes o data next =>
      refine .writes _ _ ?_
      rw [hDoing]
      rfl

/- A stream whose child has not ended is not bad. -/
theorem Inv.not_bad
    (hInv : Inv w s)
    (hGoes : s.doing.hasEnded = false) :
    s.stdin ≠ some .bad := by
  intro hBad
  have hEnded := (hInv.bad hBad).2
  rw [hGoes] at hEnded
  cases hEnded

theorem Inv.moves
    {t : FedChild κ}
    (hInv : Inv w s)
    (hMoves : Moves s t) :
    Inv w t := by
  cases hMoves with
  | stays => exact hInv
  | writes doing output hGoes =>
      refine
        { hInv with
          bad := ?_
          whole := ?_ }
      · intro hBad
        exact absurd hBad (hInv.not_bad hGoes)
      · intro _
        exact hInv.whole (by simp [hGoes])
  | reads doing b held hGoes hInteractive hHeld =>
      have hWhole := hInv.whole (by simp [hGoes])
      rw [hHeld] at hWhole
      have hRest :
          PipeUse.held (PipeUse.took s.input 1) = held := by
        rw [PipeUse.held_took, ← FedChild.held, hHeld]
        rfl
      have hMore :
          s.taken ++ [b] ++ held ++ s.unwritten = s.sent := by
        simpa using hWhole
      refine
        { alive := hInv.alive
          size := ?_
          calling := hInv.calling
          bad := ?_
          whole := ?_
          inOrder := ?_
          sawEnd := ?_
          unread := ?_ }
      · intro sure most hBetween
        have hSize := hInv.size sure most hBetween
        rw [hHeld] at hSize
        rw [FedChild.held, hRest]
        exact Nat.le_of_succ_le hSize
      · intro hBad
        exact absurd hBad (hInv.not_bad hGoes)
      · intro _
        rw [FedChild.held, hRest]
        exact hMore
      · rw [FedChild.held, hRest]
        exact ⟨s.unwritten, hMore⟩
      · intro _ hSaw
        have hNone := (hInv.sawEnd hInteractive hSaw).2.1
        rw [hHeld] at hNone
        cases hNone
      · intro hNot
        have hTrue : s.interactive = false := hNot
        rw [hInteractive] at hTrue
        cases hTrue
  | finds doing hGoes hClosed =>
      have hWhole := hInv.whole (by simp [hGoes])
      refine
        { hInv with
          bad := ?_
          whole := ?_
          sawEnd := ?_ }
      · intro hBad
        exact absurd hBad (hInv.not_bad hGoes)
      · intro _
        exact hWhole
      · intro hInteractive _
        rcases hClosed hInteractive with ⟨hHeld, hNone⟩
        have hIdle : s.writing = none := by
          by_contra hBusy
          exact hInv.calling hBusy hNone
        rw [hHeld, unwritten_of_idle hIdle, List.append_nil,
          List.append_nil] at hWhole
        exact ⟨hNone, hHeld, hWhole⟩

/- Nothing is lost between a write and its pipe. -/
theorem held_write
    (w : ChildSetup κ)
    (s : FedChild κ)
    (piece : ByteString)
    (pieces : List ByteString) :
    PipeUse.held (w.stdin.wrote s.input piece) ++
        (w.stdin.rest s.input (piece :: pieces)).flatten =
      s.held ++ (piece :: pieces).flatten := by
  rw [Pipe.held_wrote, List.append_assoc,
    Pipe.gets_append_flatten_rest]
  rfl

/- While a call is under way no child has found the end. -/
theorem Inv.not_saw
    (hInv : Inv w s)
    (hStdin : s.stdin ≠ none)
    (hInteractive : s.interactive = true) :
    s.sawEnd ≠ true := by
  intro hSaw
  exact hStdin (hInv.sawEnd hInteractive hSaw).1

/- What the pipe takes of a piece is behind what is in it. -/
theorem Inv.puts
    (hInv : Inv w s)
    {piece : ByteString}
    {pieces : List ByteString}
    {len : Nat}
    (hWriting : s.writing = some ⟨piece :: pieces, len⟩)
    (hGoes :
      ¬ (piece ≠ [] ∧ s.interactive = true ∧
        s.doing.hasEnded = true)) :
    Inv w
      { s with
        input := w.stdin.wrote s.input piece
        writing :=
          some
            ⟨w.stdin.rest s.input (piece :: pieces),
              len⟩ } := by
  have hStdin : s.stdin ≠ none :=
    hInv.calling (by simp [hWriting])
  have hMore
      (hWhole :
        s.taken ++ s.held ++ s.unwritten = s.sent) :
      s.taken ++
            PipeUse.held (w.stdin.wrote s.input piece) ++
          (w.stdin.rest s.input (piece :: pieces)).flatten =
        s.sent := by
    rw [List.append_assoc, held_write w s piece pieces,
      ← List.append_assoc, ← hWhole, unwritten, hWriting]
  refine
    { alive := hInv.alive
      size := ?_
      calling := fun _ => hStdin
      bad := hInv.bad
      whole := fun hLives => hMore (hInv.whole hLives)
      inOrder := ?_
      sawEnd := fun hInteractive hSaw =>
        absurd hSaw (hInv.not_saw hStdin hInteractive)
      unread := hInv.unread }
  · intro sure most hBetween
    exact
      Pipe.length_held_wrote hBetween
        (hInv.size sure most hBetween) piece
  · by_cases hEnded :
        s.interactive = true ∧ s.doing.hasEnded = true
    · have hPiece : piece = [] := by
        by_contra hSome
        exact hGoes ⟨hSome, hEnded⟩
      subst hPiece
      rw [Pipe.wrote_of_gets_eq_nil List.take_nil]
      exact hInv.inOrder
    · exact ⟨_, hMore (hInv.whole hEnded)⟩

theorem Inv.write
    (hInv : Inv w s) :
    Inv w (s.write w) := by
  unfold FedChild.write
  split
  · exact hInv
  · next len hWriting =>
      refine
        { hInv with
          calling := by simp
          whole := ?_ }
      intro hLives
      have hWhole := hInv.whole hLives
      rw [unwritten, hWriting] at hWhole
      exact hWhole
  · next piece pieces len hWriting =>
      have hStdin : s.stdin ≠ none :=
        hInv.calling (by simp [hWriting])
      split
      · next hBroken =>
          split
          · exact
              { hInv with
                calling := by simp [hStdin]
                bad := fun _ => hBroken.2
                whole := fun hLives =>
                  absurd hBroken.2 hLives
                sawEnd := fun hInteractive hSaw =>
                  absurd hSaw
                    (hInv.not_saw hStdin hInteractive) }
          · next hSignal =>
              exact
                { hInv with
                  alive := fun hIgnores =>
                    absurd hIgnores hSignal
                  whole := fun hLives =>
                    absurd hBroken.2 hLives }
      · next hGoes => exact hInv.puts hWriting hGoes

theorem Inv.call
    (hInv : Inv w s)
    (hIdle : s.writing = none)
    (call : HandlerCall) :
    Inv w (s.call call) := by
  have hWhole := hInv.whole
  rw [unwritten_of_idle hIdle] at hWhole
  have hOutput (output : PipedOutput) :
      Inv w { s with output := output } :=
    { hInv with whole := hInv.whole }
  cases call with
  | writeStdin pieces =>
      simp only [FedChild.call, FedChild.writeStdin]
      split
      · exact { hInv with whole := hInv.whole }
      · next hGood =>
          refine
            { hInv with
              calling := by simp [hGood]
              whole := ?_
              inOrder :=
                hInv.inOrder.trans (List.prefix_append _ _)
              sawEnd := ?_ }
          · intro hGoes
            have hBefore := hWhole hGoes
            rw [List.append_nil] at hBefore
            change s.taken ++ s.held ++ _ = _
            rw [unwritten, hBefore]
          · intro hInteractive hSaw
            have hNone := (hInv.sawEnd hInteractive hSaw).1
            rw [hGood] at hNone
            cases hNone
      · next hBad =>
          exact
            { hInv with
              calling := by simp [hBad]
              whole := hWhole }
  | closeStdin =>
      exact
        { hInv with
          calling := fun hBusy => absurd hIdle hBusy
          bad := by simp [FedChild.call, closeStdin]
          whole := hInv.whole
          sawEnd := fun hInteractive hSaw =>
            ⟨rfl, (hInv.sawEnd hInteractive hSaw).2⟩ }
  | output event =>
      cases event with
      | failed o ec =>
          simp only [FedChild.call]
          split
          · exact hInv
          · exact hOutput _
      | terminate =>
          refine
            { hInv with
              calling := fun hBusy => absurd hIdle hBusy
              bad := by simp [FedChild.call, terminate]
              whole := ?_
              sawEnd := fun hInteractive hSaw =>
                ⟨rfl, (hInv.sawEnd hInteractive hSaw).2⟩ }
          intro hGoes
          apply hInv.whole
          rintro ⟨hInteractive, _⟩
          exact hGoes ⟨hInteractive, rfl⟩
      | _ => exact hOutput _

theorem Inv.step
    (hInv : Inv w s)
    (event : FedEvent) :
    Inv w (s.step w event) := by
  unfold FedChild.step
  split
  · exact hInv
  · cases event with
    | moved => exact hInv.moves (moves_move w s)
    | wrote => exact hInv.write
    | called call =>
        simp only
        split
        · exact hInv
        · next hIdle =>
            exact hInv.call (by simpa using hIdle) call

theorem Inv.run
    (hInv : Inv w s)
    (events : List FedEvent) :
    Inv w
      (Transition.run (FedChild.step w) s events) :=
  (Transition.always_of_step hInv
    (fun _ event hInv => hInv.step event) events).last

end FedChild

end Inks
------------------------------------------------------------
-- The Child Alone
------------------------------------------------------------

namespace Inks

/- A child with its input, and nobody that does anything. -/
structure ChildAlone
    (κ : Type*) where
  doing : ChildAct κ
  uses : Output → List (PipeUse UInt8)
  input : ByteString

namespace ChildAlone

variable {κ : Type*}

/- It waits where it finds no input, or no room. -/
def next
    (w : ChildSetup κ)
    (a : ChildAlone κ) : ChildAlone κ :=
  match a.doing with
  | .ends => a
  | .hangs => a
  | .reads next =>
      match a.input with
      | [] => a
      | b :: input =>
          { a with
            doing := w.act (next (some b))
            input := input }
  | .writes o data next =>
      { a with
        doing :=
          w.goOn o ((w.outputs o).left (a.uses o) data) next
        uses :=
          Function.update a.uses o
            ((w.outputs o).wrote (a.uses o) data) }

/- It has ended, or there is no more than that to read. -/
def Has
    (bound : Nat)
    (a : ChildAlone κ) : Prop :=
  a.doing.hasEnded = true ∨ a.input.length ≤ bound

/- Sooner or later it is so. -/
def Takes
    (w : ChildSetup κ)
    (bound : Nat)
    (a : ChildAlone κ) : Prop :=
  ∃ n, ((next w)^[n] a).Has bound

/-
  A child on its own gets to this state, up to the input
  that it does not read any more when it has ended.
-/
def Leads
    (w : ChildSetup κ)
    (start a : ChildAlone κ) : Prop :=
  ∃ k, (next w)^[k] start = a ∨
    ((next w)^[k] start).doing.hasEnded = true ∧
      a.doing.hasEnded = true

variable {w : ChildSetup κ} {start a : ChildAlone κ}
variable {bound : Nat}

theorem next_of_ended
    (hEnded : a.doing.hasEnded = true) :
    a.next w = a := by
  unfold next
  cases hDoing : a.doing <;>
    simp [hDoing, ChildAct.hasEnded] at hEnded
  rfl

theorem Has.next
    (hHas : a.Has bound) :
    (a.next w).Has bound := by
  rcases hHas with hEnded | hInput
  · rw [next_of_ended hEnded]
    exact Or.inl hEnded
  · right
    unfold ChildAlone.next
    cases a.doing with
    | ends => exact hInput
    | hangs => exact hInput
    | writes o data next => exact hInput
    | reads next =>
        simp only
        split
        · exact hInput
        · next hCons =>
            rw [hCons] at hInput
            exact Nat.le_of_succ_le hInput

theorem Takes.next
    (hTakes : a.Takes w bound) :
    (a.next w).Takes w bound := by
  rcases hTakes with ⟨n, hHas⟩
  cases n with
  | zero => exact ⟨0, Has.next hHas⟩
  | succ n => exact ⟨n, hHas⟩

theorem Takes.iterate
    (hTakes : a.Takes w bound)
    (k : Nat) :
    ((ChildAlone.next w)^[k] a).Takes w bound := by
  induction k with
  | zero => exact hTakes
  | succ k ih =>
      rw [Function.iterate_succ_apply']
      exact ih.next

theorem leads_refl
    (w : ChildSetup κ)
    (a : ChildAlone κ) :
    a.Leads w a :=
  ⟨0, Or.inl rfl⟩

theorem Leads.next
    (hLeads : start.Leads w a) :
    start.Leads w (a.next w) := by
  rcases hLeads with ⟨k, rfl | ⟨hThere, hEnded⟩⟩
  · exact
      ⟨k + 1, Or.inl (Function.iterate_succ_apply' _ _ _)⟩
  · rw [next_of_ended hEnded]
    exact ⟨k, Or.inr ⟨hThere, hEnded⟩⟩

/- What has ended has ended with any input. -/
theorem Leads.of_ended
    {b : ChildAlone κ}
    (hLeads : start.Leads w a)
    (hEnded : a.doing.hasEnded = true)
    (hSame : b.doing = a.doing) :
    start.Leads w b := by
  rcases hLeads with ⟨k, rfl | ⟨hThere, _⟩⟩
  · exact ⟨k, Or.inr ⟨hEnded, by rw [hSame, hEnded]⟩⟩
  · exact ⟨k, Or.inr ⟨hThere, by rw [hSame, hEnded]⟩⟩

theorem Leads.takes
    (hLeads : start.Leads w a)
    (hTakes : start.Takes w bound) :
    a.Takes w bound := by
  rcases hLeads with ⟨k, rfl | ⟨_, hEnded⟩⟩
  · exact hTakes.iterate k
  · exact ⟨0, Or.inl hEnded⟩

theorem Leads.takes_of_has
    (hLeads : start.Leads w a)
    (hHas : a.Has bound) :
    start.Takes w bound := by
  rcases hLeads with ⟨k, rfl | ⟨hThere, _⟩⟩
  · exact ⟨k, hHas⟩
  · exact ⟨k, Or.inl hThere⟩

end ChildAlone

end Inks

------------------------------------------------------------
-- A Call under Way
------------------------------------------------------------

namespace Inks

namespace FedChild

variable {κ : Type*} {w : ChildSetup κ} {s : FedChild κ}

/-
  The reader of the pipe with what is in it and some more.
  If the pipe is not the input of the child nobody reads it.
-/
def alone
    (s : FedChild κ)
    (data : ByteString) : ChildAlone κ where
  doing := if s.interactive then s.doing else .hangs
  uses :=
    if s.interactive then s.output.uses else fun _ => []
  input := s.held ++ data

/-
  On its own the reader ends, or it leaves no more than that
  of what is in the pipe and of the data.
-/
def Takes
    (w : ChildSetup κ)
    (bound : Nat)
    (s : FedChild κ)
    (data : ByteString) : Prop :=
  (s.alone data).Takes w bound

theorem alone_ended
    {data : ByteString}
    (hEnded : (s.alone data).doing.hasEnded = true) :
    s.interactive = true ∧ s.doing.hasEnded = true := by
  unfold alone at hEnded
  cases hInteractive : s.interactive with
  | false =>
      simp [hInteractive, ChildAct.hasEnded] at hEnded
  | true =>
      simp only [hInteractive, if_true] at hEnded
      exact ⟨rfl, hEnded⟩

theorem doing_alone
    (hInteractive : s.interactive = true)
    (data : ByteString) :
    (s.alone data).doing = s.doing := by
  simp [alone, hInteractive]

/-
  During a call the child does what it does on its own, or
  it waits for input that is still to be written.
-/
theorem alone_move
    (hStdin : s.stdin ≠ none)
    (data : ByteString) :
    (s.move w).alone data = (s.alone data).next w ∨
      s.held = [] ∧
        (s.move w).alone data = s.alone data := by
  cases hInteractive : s.interactive with
  | false =>
      left
      have hAlone :
          (s.alone data).next w = s.alone data := by
        simp [alone, ChildAlone.next, hInteractive]
      rw [hAlone]
      unfold FedChild.move
      cases s.doing <;>
        simp [alone, held, hInteractive]
  | true =>
      unfold FedChild.move
      cases hDoing : s.doing with
      | ends =>
          left
          simp [alone, ChildAlone.next, hInteractive, hDoing]
      | hangs =>
          left
          simp [alone, ChildAlone.next, hInteractive, hDoing]
      | reads next =>
          cases hHeld : s.held with
          | nil =>
              right
              simp [hInteractive, hStdin]
          | cons b rest =>
              left
              have hRest :
                  PipeUse.held (PipeUse.took s.input 1) =
                    rest := by
                rw [PipeUse.held_took, ← FedChild.held,
                  hHeld]
                rfl
              have hInput :
                  (s.alone data).input =
                    b :: (rest ++ data) := by
                simp [alone, hHeld]
              have hReads :
                  (s.alone data).doing = .reads next := by
                rw [doing_alone hInteractive, hDoing]
              unfold ChildAlone.next
              simp only [hReads, hInput, hInteractive,
                if_true]
              simp [alone, held, hInteractive, hRest]
      | writes o data next =>
          left
          simp [alone, ChildAlone.next, PipedOutput.write,
            held, hInteractive, hDoing]

/- A call that is under way, with what it has to write. -/
structure Calling
    (results : List Int)
    (len : Nat)
    (pieces : List ByteString)
    (s : FedChild κ) : Prop where
  alive : s.killed = false
  stdin : s.stdin ≠ none
  results : s.results = results
  writing : s.writing = some ⟨pieces, len⟩

variable {results : List Int} {len : Nat}
variable {piece : ByteString} {pieces : List ByteString}

theorem step_wrote
    (hCalling : Calling results len pieces s) :
    s.step w .wrote = s.write w := by
  simp [FedChild.step, hCalling.alive]

theorem Calling.returned
    (hCalling : Calling results len [] s) :
    (s.step w .wrote).results =
      results ++ [(len : Int)] := by
  rw [step_wrote hCalling, FedChild.write, hCalling.writing]
  simp only
  rw [hCalling.results]

/- Without a reader the rest of the call is given up. -/
theorem Calling.fails
    (hSigpipe : w.ignoresSigpipe = true)
    (hCalling : Calling results len (piece :: pieces) s)
    (hPiece : piece ≠ [])
    (hEnded :
      s.interactive = true ∧ s.doing.hasEnded = true) :
    Calling results len [] (s.step w .wrote) ∧
      (s.step w .wrote).interactive = s.interactive ∧
      (s.step w .wrote).doing = s.doing := by
  have hStep :
      s.step w .wrote =
        { s with
          stdin := s.stdin.map fun _ => .bad
          writing := some ⟨[], len⟩ } := by
    rw [step_wrote hCalling, FedChild.write,
      hCalling.writing]
    simp only [if_pos (And.intro hPiece hEnded),
      if_pos hSigpipe]
  rw [hStep]
  exact
    ⟨⟨hCalling.alive, by simp [hCalling.stdin],
      hCalling.results, rfl⟩, rfl, rfl⟩

/- What the pipe takes is no longer to be written. -/
theorem Calling.goes
    (hCalling : Calling results len (piece :: pieces) s)
    (hGoes :
      ¬ (piece ≠ [] ∧ s.interactive = true ∧
        s.doing.hasEnded = true)) :
    let left := w.stdin.rest s.input (piece :: pieces)
    Calling results len left (s.step w .wrote) ∧
      (s.step w .wrote).alone left.flatten =
        s.alone (piece :: pieces).flatten := by
  have hStep :
      s.step w .wrote =
        { s with
          input := w.stdin.wrote s.input piece
          writing :=
            some
              ⟨w.stdin.rest s.input (piece :: pieces),
                len⟩ } := by
    rw [step_wrote hCalling, FedChild.write,
      hCalling.writing]
    simp only [if_neg hGoes]
  rw [hStep]
  refine
    ⟨⟨hCalling.alive, hCalling.stdin, hCalling.results,
      rfl⟩, ?_⟩
  have hHeld := held_write w s piece pieces
  simp only [alone, FedChild.held] at hHeld ⊢
  rw [hHeld]

/- A move of the child is none of the call. -/
theorem Calling.moved
    (hCalling : Calling results len pieces s) :
    Calling results len pieces (s.step w .moved) ∧
      s.step w .moved = s.move w := by
  have hStep : s.step w .moved = s.move w := by
    simp [FedChild.step, hCalling.alive]
  have hMoves := moves_move w s
  rw [hStep]
  generalize s.move w = t at hMoves
  rcases hCalling with ⟨hAlive, hStdin, hResults, hWriting⟩
  cases hMoves <;>
    exact ⟨⟨hAlive, hStdin, hResults, hWriting⟩, rfl⟩

/- What a call returned stays on record. -/
theorem results_prefix_step
    (w : ChildSetup κ)
    (s : FedChild κ)
    (event : FedEvent) :
    s.results <+: (s.step w event).results := by
  unfold FedChild.step
  split
  · exact List.prefix_rfl
  · cases event with
    | moved =>
        have hMoves := moves_move w s
        generalize s.move w = t at hMoves
        cases hMoves <;> exact List.prefix_rfl
    | wrote =>
        simp only [FedChild.write]
        repeat' split
        all_goals simp
    | called call =>
        simp only
        split
        · exact List.prefix_rfl
        · cases call with
          | writeStdin pieces =>
              simp only [FedChild.call, FedChild.writeStdin]
              split <;> simp
          | closeStdin => exact List.prefix_rfl
          | output event =>
              cases event with
              | failed o ec =>
                  simp only [FedChild.call]
                  split <;> exact List.prefix_rfl
              | _ => exact List.prefix_rfl

theorem results_prefix_run
    (w : ChildSetup κ)
    (s : FedChild κ)
    (events : List FedEvent) :
    s.results <+:
      (Transition.run (step w) s events).results := by
  induction events using List.reverseRecOn with
  | nil => exact List.prefix_rfl
  | append_singleton events event ih =>
      rw [Transition.run_concat]
      exact ih.trans (results_prefix_step w _ event)

/-
  A call that is under way, seen from its beginning: where
  the reader gets to on its own does not change.
-/
def Underway
    (w : ChildSetup κ)
    (start : ChildAlone κ)
    (results : List Int)
    (len : Nat)
    (s : FedChild κ) : Prop :=
  ∃ pieces,
    Calling results len pieces s ∧
      start.Leads w (s.alone pieces.flatten)

variable {start : ChildAlone κ} {sure most : Nat}

/-
  The call goes on, or it returns. Then the reader has ended,
  or all that it leaves is in the pipe.
-/
theorem Underway.wrote
    (hSigpipe : w.ignoresSigpipe = true)
    (hSize : s.held.length ≤ most)
    (hUnderway : Underway w start results len s) :
    Underway w start results len (s.step w .wrote) ∨
      (s.step w .wrote).results =
          results ++ [(len : Int)] ∧
        start.Takes w most := by
  rcases hUnderway with
    ⟨_ | ⟨piece, pieces⟩, hCalling, hLeads⟩
  · refine Or.inr ⟨hCalling.returned, ?_⟩
    apply hLeads.takes_of_has
    right
    simpa [alone] using hSize
  · left
    by_cases hBroken :
        piece ≠ [] ∧ s.interactive = true ∧
          s.doing.hasEnded = true
    · rcases hBroken with ⟨hPiece, hEnded⟩
      rcases hCalling.fails hSigpipe hPiece hEnded with
        ⟨hThere, hInteractive, hDoing⟩
      refine ⟨[], hThere, hLeads.of_ended ?_ ?_⟩
      · rw [doing_alone hEnded.1]
        exact hEnded.2
      · rw [doing_alone (hInteractive.trans hEnded.1),
          doing_alone hEnded.1, hDoing]
    · rcases hCalling.goes (w := w) hBroken with
        ⟨hThere, hSame⟩
      exact ⟨_, hThere, hSame ▸ hLeads⟩

theorem Underway.moved
    (hUnderway : Underway w start results len s) :
    Underway w start results len (s.step w .moved) := by
  rcases hUnderway with ⟨pieces, hCalling, hLeads⟩
  rcases hCalling.moved (w := w) with ⟨hThere, hStep⟩
  refine ⟨pieces, hThere, ?_⟩
  rw [hStep]
  rcases alone_move (w := w) hCalling.stdin
      pieces.flatten with hNext | ⟨_, hSame⟩
  · rw [hNext]
    exact hLeads.next
  · rw [hSame]
    exact hLeads

theorem Underway.step
    (hSigpipe : w.ignoresSigpipe = true)
    (hSize : s.held.length ≤ most)
    (hUnderway : Underway w start results len s)
    (event : FedEvent) :
    Underway w start results len (s.step w event) ∨
      results ++ [(len : Int)] <+:
          (s.step w event).results ∧
        start.Takes w most := by
  cases event with
  | moved => exact Or.inl hUnderway.moved
  | wrote =>
      rcases hUnderway.wrote hSigpipe hSize with
        hNext | ⟨hDone, hTakes⟩
      · exact Or.inl hNext
      · exact Or.inr ⟨hDone ▸ List.prefix_rfl, hTakes⟩
  | called call =>
      have hBlocked : s.step w (.called call) = s := by
        rcases hUnderway with ⟨_, hCalling, _⟩
        simp [FedChild.step, hCalling.alive,
          hCalling.writing]
      rw [hBlocked]
      exact Or.inl hUnderway

/- Up to any moment, the call goes on or has returned. -/
theorem Underway.run
    (hSigpipe : w.ignoresSigpipe = true)
    (hBetween : w.stdin.Between sure most)
    (hInv : Inv w s)
    (hUnderway : Underway w start results len s)
    (events : List FedEvent) :
    let t := Transition.run (FedChild.step w) s events
    Underway w start results len t ∨
      results ++ [(len : Int)] <+: t.results ∧
        start.Takes w most := by
  induction events using List.reverseRecOn with
  | nil => exact Or.inl hUnderway
  | append_singleton events event ih =>
      rw [Transition.run_concat]
      rcases ih with hNow | ⟨hDone, hTakes⟩
      · exact
          hNow.step hSigpipe
            ((hInv.run events).size sure most hBetween) event
      · refine Or.inr ⟨?_, hTakes⟩
        exact hDone.trans (results_prefix_step w _ event)

end FedChild

end Inks

------------------------------------------------------------
-- The Return of a Call
------------------------------------------------------------

namespace Inks

namespace FedChild

variable {κ : Type*} {w : ChildSetup κ} {s : FedChild κ}
variable {results : List Int} {len : Nat}
variable {piece : ByteString} {pieces : List ByteString}
variable {sure most : Nat}

/- The next piece of a call has to wait for its reader. -/
structure Waits
    (w : ChildSetup κ)
    (piece : ByteString)
    (s : FedChild κ) : Prop where
  some : piece ≠ []
  goes :
    ¬ (s.interactive = true ∧ s.doing.hasEnded = true)
  full : w.stdin.gets s.input piece = []

/-
  A call writes what the pipe takes. The induction is on the
  pieces that it has to write still.
-/
theorem Calling.fills
    (hSigpipe : w.ignoresSigpipe = true)
    (hCalling : Calling results len pieces s) :
    ∃ n,
      let t :=
        Transition.run (FedChild.step w) s
          (List.replicate n .wrote)
      t.results = results ++ [(len : Int)] ∨
        ∃ piece later,
          Calling results len (piece :: later) t ∧
            t.alone (piece :: later).flatten =
              s.alone pieces.flatten ∧
            t.Waits w piece := by
  generalize hLoad : Pipe.load pieces = n
  induction n using Nat.strong_induction_on
    generalizing s pieces with
  | _ n ih =>
      rcases pieces with _ | ⟨piece, later⟩
      · exact ⟨1, Or.inl hCalling.returned⟩
      · by_cases hBroken :
            piece ≠ [] ∧ s.interactive = true ∧
              s.doing.hasEnded = true
        · rcases hCalling.fails hSigpipe hBroken.1
              hBroken.2 with ⟨hThere, _⟩
          exact ⟨2, Or.inl hThere.returned⟩
        · by_cases hGoes :
              piece = [] ∨ w.stdin.gets s.input piece ≠ []
          · rcases hCalling.goes (w := w) hBroken with
              ⟨hThere, hSame⟩
            have hLess := Pipe.load_rest_lt later hGoes
            rw [hLoad] at hLess
            rcases ih _ hLess hThere rfl with ⟨m, hAfter⟩
            rw [hSame] at hAfter
            refine ⟨m + 1, ?_⟩
            rw [List.replicate_succ]
            exact hAfter
          · rw [not_or, not_not] at hGoes
            refine
              ⟨0, Or.inr ⟨piece, later, hCalling, rfl, ?_⟩⟩
            exact
              { some := hGoes.1
                goes := fun hEnded =>
                  hBroken ⟨hGoes.1, hEnded⟩
                full := hGoes.2 }

/- While a call has to wait there is something to read. -/
theorem Waits.held_ne_nil
    (hWaits : s.Waits w piece) :
    s.held ≠ [] := by
  intro hEmpty
  exact Pipe.gets_ne_nil hEmpty hWaits.some hWaits.full

/- What there is does not fit, and the child goes on. -/
theorem Waits.not_has
    (hBetween : w.stdin.Between sure most)
    (hWaits : s.Waits w piece)
    (later : List ByteString) :
    ¬ (s.alone (piece :: later).flatten).Has sure := by
  rintro (hEnded | hInput)
  · exact hWaits.goes (alone_ended hEnded)
  · have hRoom :
        (PipeUse.held s.input).length + piece.length ≤
          sure := by
      simp only [alone, List.flatten_cons,
        List.length_append] at hInput
      have hLess := hInput
      unfold held at hLess
      omega
    have hLeft := Pipe.left_of_sure hBetween hRoom
    rw [Pipe.left_of_gets_eq_nil hWaits.full] at hLeft
    exact hWaits.some hLeft

/-
  A call comes back when the reader takes enough. The
  induction is on the steps that the reader still needs for
  it: when a piece has to wait, it takes one of them.
-/
theorem Calling.returns
    (hSigpipe : w.ignoresSigpipe = true)
    (hBetween : w.stdin.Between sure most)
    (hCalling : Calling results len pieces s)
    (hTakes : s.Takes w sure pieces.flatten) :
    ∃ events,
      results ++ [(len : Int)] <+:
        (Transition.run (FedChild.step w) s
          events).results := by
  rcases hTakes with ⟨n, hHas⟩
  induction n generalizing s pieces with
  | zero =>
      rcases hCalling.fills hSigpipe with
        ⟨m, hDone | ⟨piece, later, _, hSame, hWaits⟩⟩
      · exact ⟨_, by rw [hDone]⟩
      · rw [← hSame] at hHas
        exact (hWaits.not_has hBetween later hHas).elim
  | succ n ih =>
      rcases hCalling.fills hSigpipe with
        ⟨m, hDone | ⟨piece, later, hThere, hSame, hWaits⟩⟩
      · exact ⟨_, by rw [hDone]⟩
      · rcases hThere.moved (w := w) with ⟨hMoved, hStep⟩
        rcases alone_move (w := w) hThere.stdin
            (piece :: later).flatten with
          hNext | ⟨hEmpty, _⟩
        · rw [Function.iterate_succ_apply, ← hSame, ← hNext,
            ← hStep] at hHas
          rcases ih hMoved hHas with ⟨events, hDone⟩
          refine
            ⟨List.replicate m .wrote ++ .moved :: events,
              ?_⟩
          rw [Transition.run_append]
          exact hDone
        · exact (hWaits.held_ne_nil hEmpty).elim

/- From any later moment on the call still comes back. -/
theorem Underway.returns
    (hSigpipe : w.ignoresSigpipe = true)
    (hBetween : w.stdin.Between sure most)
    (hInv : Inv w s)
    {start : ChildAlone κ}
    (hUnderway : Underway w start results len s)
    (hTakes : start.Takes w sure)
    (past : List FedEvent) :
    ∃ future,
      results ++ [(len : Int)] <+:
        (Transition.run (FedChild.step w) s
          (past ++ future)).results := by
  simp only [Transition.run_append]
  rcases hUnderway.run hSigpipe hBetween hInv past with
    ⟨rest, hThere, hLeads⟩ | ⟨hDone, _⟩
  · exact
      hThere.returns hSigpipe hBetween (hLeads.takes hTakes)
  · exact ⟨[], hDone⟩

/- A call that has come back was taken by its reader. -/
theorem Underway.takes_of_returned
    (hSigpipe : w.ignoresSigpipe = true)
    (hBetween : w.stdin.Between sure most)
    (hInv : Inv w s)
    {start : ChildAlone κ}
    (hUnderway : Underway w start results len s)
    {events : List FedEvent}
    (hReturned :
      results ++ [(len : Int)] <+:
        (Transition.run (FedChild.step w) s
          events).results) :
    start.Takes w most := by
  rcases hUnderway.run hSigpipe hBetween hInv events with
    ⟨_, hThere, _⟩ | ⟨_, hTakes⟩
  · rw [hThere.results] at hReturned
    have hLength := hReturned.length_le
    simp only [List.length_append, List.length_singleton]
      at hLength
    omega
  · exact hTakes

end FedChild

end Inks

------------------------------------------------------------
-- Main Results
------------------------------------------------------------

namespace Inks

namespace FedChild

variable {κ : Type*} {sure most : Nat}

/- What a call of `write_stdin` returns, if it returns. -/
def resultOf
    (s : FedChild κ)
    (pieces : List ByteString) : Int :=
  if s.stdin = none then -1 else pieces.flatten.length

/- A call begins, or there is no stream and it is over. -/
theorem called_cases
    {w : ChildSetup κ}
    {s : FedChild κ}
    (hInv : Inv w s)
    (hSigpipe : w.ignoresSigpipe = true)
    (hIdle : s.writing = none)
    (pieces : List ByteString) :
    let t := s.step w (.called (.writeStdin pieces))
    s.stdin = none ∧
        t.results = s.results ++ [s.resultOf pieces] ∨
      s.stdin ≠ none ∧
        ∃ left,
          Calling s.results pieces.flatten.length left t ∧
            (s.stdin = some .good ∧
                t.alone left.flatten =
                  s.alone pieces.flatten ∨
              s.stdin = some .bad ∧
                (t.alone left.flatten).doing.hasEnded =
                  true) := by
  intro t
  have hAlive := hInv.alive hSigpipe
  have hStep : t = s.writeStdin pieces := by
    simp [t, step, call, hIdle, hAlive]
  rw [hStep, writeStdin]
  rcases hStdin : s.stdin with _ | _ | _
  · left
    simp [resultOf, hStdin]
  · right
    refine ⟨by simp, pieces, ?_, Or.inl ⟨rfl, rfl⟩⟩
    exact ⟨hAlive, by simp, rfl, rfl⟩
  · right
    have hEnded := hInv.bad hStdin
    refine ⟨by simp, [], ?_, Or.inr ⟨rfl, ?_⟩⟩
    · exact ⟨hAlive, by simp, rfl, rfl⟩
    · rw [doing_alone (s := { s with
        stdin := some .bad
        writing := some ⟨[], _⟩ }) hEnded.1]
      exact hEnded.2

/-
  A call of `write_stdin` comes back, with what it returns,
  or it blocks the event loop for ever. Which of the two
  depends on who is faster only as far as the bytes that the
  pipe can hold do: the call comes back from every moment on
  when the reader ends or leaves no more than the pipe takes
  in any case, and at all only when it ends or leaves no more
  than the pipe can ever hold.
-/
theorem write_returns_between
    {w : ChildSetup κ}
    (hSigpipe : w.ignoresSigpipe = true)
    (hBetween : w.stdin.Between sure most)
    (interactive : Bool)
    (callbacks : Output → Bool)
    (start : κ)
    {events : List FedEvent}
    {s : FedChild κ}
    (hRun :
      s =
        Transition.run (step w)
          (spawn w interactive callbacks start) events)
    (hIdle : s.writing = none)
    (pieces : List ByteString) :
    let Returned (events : List FedEvent) :=
      s.results ++ [s.resultOf pieces] <+:
        (Transition.run (step w) s
          (.called (.writeStdin pieces) :: events)).results
    ((s.stdin = some .good →
          s.Takes w sure pieces.flatten) →
        ∀ past, ∃ future, Returned (past ++ future)) ∧
      ((∃ events, Returned events) →
        s.stdin = some .good →
          s.Takes w most pieces.flatten) := by
  intro Returned
  have hInv : Inv w s := by
    rw [hRun]
    exact
      (inv_spawn w interactive callbacks start).run events
  let t := s.step w (.called (.writeStdin pieces))
  have hAfter (events : List FedEvent) :
      Returned events ↔
        s.results ++ [s.resultOf pieces] <+:
          (Transition.run (step w) t events).results :=
    Iff.rfl
  have hInvT : Inv w t := hInv.step _
  rcases called_cases hInv hSigpipe hIdle pieces with
    ⟨hNone, hDone⟩ | ⟨hSome, left, hCalling, hStream⟩
  · constructor
    · intro _ past
      refine ⟨[], ?_⟩
      rw [hAfter, ← hDone]
      exact results_prefix_run w t _
    · intro _ hGood
      rw [hNone] at hGood
      cases hGood
  · have hResult :
        s.resultOf pieces = (pieces.flatten.length : Int) :=
      if_neg hSome
    simp only [hAfter, hResult]
    have hUnderway :
        Underway w (t.alone left.flatten) s.results
          pieces.flatten.length t :=
      ⟨left, hCalling, ChildAlone.leads_refl w _⟩
    constructor
    · intro hTakes past
      apply hUnderway.returns hSigpipe hBetween hInvT
      rcases hStream with ⟨hGood, hSame⟩ | ⟨_, hEnded⟩
      · rw [hSame]
        exact hTakes hGood
      · exact ⟨0, Or.inl hEnded⟩
    · rintro ⟨events, hReturned⟩ hGood
      have hTakes :=
        hUnderway.takes_of_returned hSigpipe hBetween hInvT
          hReturned
      rcases hStream with ⟨_, hSame⟩ | ⟨hBad, _⟩
      · rw [hSame] at hTakes
        exact hTakes
      · rw [hGood] at hBad
        cases hBad

/- Three bytes for a child that reads and never stops. -/
theorem write_returns_between_small :
    let pipe : Pipe UInt8 := Pipe.counting 2 Nat.two_pos
    let w : ChildSetup Unit :=
      { act := fun _ => .reads fun _ => ()
        stdin := pipe
        outputs := fun _ => pipe
        ignoresSigpipe := true }
    let s := spawn w true (fun _ => false) ()
    let pieces : List ByteString := [[72, 105], [10]]
    let Returned (events : List FedEvent) :=
      s.results ++ [s.resultOf pieces] <+:
        (Transition.run (step w) s
          (.called (.writeStdin pieces) :: events)).results
    ((s.stdin = some .good →
          s.Takes w 2 pieces.flatten) →
        ∀ past, ∃ future, Returned (past ++ future)) ∧
      ((∃ events, Returned events) →
        s.stdin = some .good →
          s.Takes w 2 pieces.flatten) := by
  intro pipe w s pieces
  exact
    write_returns_between rfl
      (Pipe.counting_between 2 Nat.two_pos) true
      (fun _ => false) ()
      (Transition.run_nil (step w) s).symm rfl pieces

end FedChild

end Inks
