import Inks.Foundation.BackoffDelays
import Inks.Process.Killer

/-
  How long ending a process takes, and when it escalates.
  Whatever the process does, a call ends after a bounded
  number of signals, checks and sleeps, and it sends the
  final signal only when four polite ones with three sleeps
  in between have not ended the process.

  Key definitions include:
    * `ProcessKiller.terminate`
    * `ProcessKiller.rounds`
    * `ProcessKiller.PhaseLog`
    * `ProcessKiller.Escalates`

  Key theorems include:
    * `ProcessKiller.phase_log`
    * `ProcessKiller.delays_sum_le`
    * `ProcessKiller.elegantKill_escalates`
-/

------------------------------------------------------------
-- Statements
------------------------------------------------------------

namespace Inks

namespace ProcessKiller

/- The result of `elegant_kill` is not looked at. -/
def terminate
    (target : Target)
    (termRng killRng : Rng)
    (log : Log) : Log :=
  (elegantKill target termRng killRng log).2

def Operation.delay : Operation → Option UInt32
| .sleepFor delay => some delay
| .kill _ => none

def sleeps
    (log : Log) : List UInt32 :=
  log.filterMap Operation.delay

/- The seconds that are slept in all. -/
def seconds
    (delays : List UInt32) : Nat :=
  (delays.map UInt32.toNat).sum

/- The signals and the sleeps, without the checks. -/
def acts
    (log : Log) : Log :=
  log.filter (· ≠ .kill .none)

/- A signal, and after each delay the same signal again. -/
def rounds
    (signal : Signal) : List UInt32 → Log
| [] => [.kill signal]
| delay :: delays =>
    .kill signal :: .sleepFor delay :: rounds signal delays

/-
  What a phase with some delays does: its signal, and once
  more after each sleep, until an attempt succeeds or the
  delays have run out.
-/
structure PhaseLog
    (signal : Signal)
    (delays : List UInt32)
    (run : Bool × Log) : Prop where
  slept : sleeps run.2 <+: delays
  order : acts run.2 = rounds signal (sleeps run.2)
  short : run.2.length ≤ 3 * (sleeps run.2).length + 2
  all : run.1 = false → sleeps run.2 = delays

/-
  A call has an end in operations and in seconds. The final
  signals all come after four polite ones, each of the three
  sleeps there between two of them.
-/
structure Escalates
    (log : Log) : Prop where
  operations : log.length ≤ 23
  slept : seconds (sleeps log) ≤ 14
  polite : log.count (.kill .sigterm) ≤ 4
  final : log.count (.kill .sigkill) ≤ 4
  last :
    .kill .sigkill ∈ log →
      ∃ before after delays slept,
        log = before ++ after ∧
          .kill .sigkill ∉ before ∧
          .kill .sigterm ∉ after ∧
          acts before = rounds .sigterm delays ∧
          delays.length = 3 ∧
          acts after = rounds .sigkill slept

end ProcessKiller

end Inks

------------------------------------------------------------
-- Phases
------------------------------------------------------------

namespace Inks

namespace ProcessKiller

@[simp] theorem sleeps_append
    (log later : Log) :
    sleeps (log ++ later) = sleeps log ++ sleeps later :=
  List.filterMap_append

@[simp] theorem sleeps_kill
    (signal : Signal)
    (log : Log) :
    sleeps (.kill signal :: log) = sleeps log := rfl

@[simp] theorem sleeps_sleepFor
    (delay : UInt32)
    (log : Log) :
    sleeps (.sleepFor delay :: log) =
      delay :: sleeps log := rfl

@[simp] theorem sleeps_nil :
    sleeps [] = [] := rfl

@[simp] theorem acts_cons
    (op : Operation)
    (log : Log) :
    acts (op :: log) =
      if op = .kill .none then
        acts log
      else
        op :: acts log := by
  by_cases hCheck : op = .kill .none <;> simp [acts, hCheck]

@[simp] theorem acts_nil :
    acts [] = [] := rfl

theorem count_rounds
    (signal : Signal)
    (delays : List UInt32) :
    (rounds signal delays).count (.kill signal) =
      delays.length + 1 := by
  induction delays with
  | nil => simp [rounds]
  | cons delay delays ih => simp [rounds, ih]

theorem eq_of_mem_rounds
    {signal other : Signal}
    {delays : List UInt32}
    (hMem : .kill other ∈ rounds signal delays) :
    other = signal := by
  induction delays with
  | nil => simpa [rounds] using hMem
  | cons delay delays ih =>
      simp only [rounds, List.mem_cons, reduceCtorEq,
        false_or, Operation.kill.injEq] at hMem
      exact hMem.elim id ih

/- One attempt more than sleeps. -/
theorem PhaseLog.tried
    {signal : Signal}
    {delays : List UInt32}
    {run : Bool × Log}
    (hPhase : PhaseLog signal delays run)
    (hSignal : signal ≠ .none) :
    run.2.count (.kill signal) =
      (sleeps run.2).length + 1 := by
  rw [← count_rounds signal, ← hPhase.order, acts,
    List.count_filter (by simpa using hSignal)]

/- A phase sends one signal only. -/
theorem PhaseLog.only
    {signal other : Signal}
    {delays : List UInt32}
    {run : Bool × Log}
    (hPhase : PhaseLog signal delays run)
    (hOther : other ≠ signal)
    (hCheck : other ≠ .none) :
    .kill other ∉ run.2 := by
  intro hMem
  have hActs : .kill other ∈ acts run.2 :=
    List.mem_filter.mpr ⟨hMem, by simpa using hCheck⟩
  rw [hPhase.order] at hActs
  exact hOther (eq_of_mem_rounds hActs)

/- An attempt that does not fail at once also checks. -/
theorem attempt_cases
    (target : Target)
    (signal : Signal)
    (log : Log) :
    attempt target signal log =
        (false, log ++ [.kill signal]) ∨
      ∃ done,
        attempt target signal log =
          (done, log ++ [.kill signal, .kill .none]) := by
  cases hAlive : target.aliveAt log.length with
  | false => exact Or.inl (attempt_of_dead hAlive signal)
  | true =>
      cases hPermitted : target.permitted with
      | false =>
          exact
            Or.inl
              (attempt_of_not_permitted hPermitted signal
                log)
      | true =>
          exact
            Or.inr
              ⟨_, attempt_of_alive hAlive hPermitted signal⟩

/- A phase that is over after its first attempt. -/
theorem phaseLog_attempt
    {signal : Signal}
    (hSignal : signal ≠ .none)
    {done : Bool}
    {delays : List UInt32}
    (hLast : done = false → delays = [])
    {added : Log}
    (hAdded :
      added = [.kill signal] ∨
        added = [.kill signal, .kill .none]) :
    PhaseLog signal delays (done, added) := by
  rcases hAdded with rfl | rfl
  · constructor
    · simp
    · simp [hSignal, rounds]
    · simp
    · intro hFalse
      simp [hLast hFalse]
  · constructor
    · simp
    · simp [hSignal, rounds]
    · simp
    · intro hFalse
      simp [hLast hFalse]

/- A failed attempt and a sleep in front of a phase. -/
theorem PhaseLog.retry
    {signal : Signal}
    (hSignal : signal ≠ .none)
    {delay : UInt32}
    {delays : List UInt32}
    {done : Bool}
    {added front : Log}
    (hFront :
      front = [.kill signal] ∨
        front = [.kill signal, .kill .none])
    (hRest : PhaseLog signal delays (done, added)) :
    PhaseLog signal (delay :: delays)
      (done, front ++ .sleepFor delay :: added) := by
  have hOrder := hRest.order
  have hShort := hRest.short
  simp only at hOrder hShort
  rcases hFront with rfl | rfl
  · constructor
    · simpa using hRest.slept
    · simp [hSignal, rounds, hOrder]
    · simp
      omega
    · intro hFalse
      simpa using hRest.all hFalse
  · constructor
    · simpa using hRest.slept
    · simp [hSignal, rounds, hOrder]
    · simp
      omega
    · intro hFalse
      simpa using hRest.all hFalse

theorem phase_log
    (target : Target)
    {signal : Signal}
    (hSignal : signal ≠ .none)
    (delays : List UInt32)
    (log : Log) :
    ∃ added,
      (phase target signal delays log).2 = log ++ added ∧
        PhaseLog signal delays
          ((phase target signal delays log).1, added) := by
  induction delays generalizing log with
  | nil =>
      rw [phase_nil]
      rcases attempt_cases target signal log with
        hFailed | ⟨done, hTried⟩
      · rw [hFailed]
        exact
          ⟨_, rfl,
            phaseLog_attempt hSignal (fun _ => rfl)
              (Or.inl rfl)⟩
      · rw [hTried]
        exact
          ⟨_, rfl,
            phaseLog_attempt hSignal (fun _ => rfl)
              (Or.inr rfl)⟩
  | cons delay delays ih =>
      rw [phase_cons]
      rcases attempt_cases target signal log with
        hFailed | ⟨done, hTried⟩
      · rw [hFailed, if_neg (by simp)]
        rcases ih (log ++ [.kill signal] ++
            [.sleepFor delay]) with
          ⟨added, hLog, hRest⟩
        refine
          ⟨[.kill signal] ++ .sleepFor delay :: added, ?_,
            hRest.retry hSignal (Or.inl rfl)⟩
        rw [hLog]
        simp
      · rw [hTried]
        cases done with
        | true =>
            rw [if_pos rfl]
            exact
              ⟨_, rfl,
                phaseLog_attempt hSignal (by simp)
                  (Or.inr rfl)⟩
        | false =>
            rw [if_neg (by simp)]
            rcases ih (log ++ [.kill signal, .kill .none] ++
                [.sleepFor delay]) with
              ⟨added, hLog, hRest⟩
            refine
              ⟨[.kill signal, .kill .none] ++
                  .sleepFor delay :: added, ?_,
                hRest.retry hSignal (Or.inr rfl)⟩
            rw [hLog]
            simp

end ProcessKiller

end Inks

------------------------------------------------------------
-- Delays
------------------------------------------------------------

namespace Inks

namespace ProcessKiller

theorem seconds_append
    (delays later : List UInt32) :
    seconds (delays ++ later) =
      seconds delays + seconds later := by
  simp [seconds]

theorem seconds_le_of_prefix
    {front delays : List UInt32}
    (hPrefix : front <+: delays) :
    seconds front ≤ seconds delays := by
  rcases hPrefix with ⟨rest, rfl⟩
  rw [seconds_append]
  exact Nat.le_add_right _ _

/- The delays of a phase: at most 1, 2 and 4 seconds. -/
theorem delays_sum_le
    (rng : Rng) :
    seconds
      (exponentialBackoff 1 3 4294967295 true rng).values ≤
        7 := by
  have hLength := length_delays rng
  have hValue :=
    fun (i : Nat) (hIndex : i < (3 : UInt32).toNat) =>
      Backoff.exists_jittered_value 1 4294967295 rng hIndex
  rcases hValue 0 (by decide) with ⟨a, hA, hLeA⟩
  rcases hValue 1 (by decide) with ⟨b, hB, hLeB⟩
  rcases hValue 2 (by decide) with ⟨c, hC, hLeC⟩
  generalize
    (exponentialBackoff 1 3 4294967295 true rng).values =
      delays at hLength hA hB hC
  have hDelays : delays = [a, b, c] := by
    match delays, hLength with
    | [x, y, z], _ => simp_all
  have hOne : Backoff.shiftedDelay 1 4294967295 0 = 1 := by
    decide
  have hTwo : Backoff.shiftedDelay 1 4294967295 1 = 2 := by
    decide
  have hFour : Backoff.shiftedDelay 1 4294967295 2 = 4 := by
    decide
  rw [hDelays]
  simp only [seconds, List.map_cons, List.map_nil,
    List.sum_cons, List.sum_nil]
  omega

/- What the retries of one phase of the source do. -/
theorem retrySignal_log
    (target : Target)
    {signal : Signal}
    (hSignal : signal ≠ .none)
    (rng : Rng)
    (log : Log) :
    ∃ delays added,
      delays.length = 3 ∧ seconds delays ≤ 7 ∧
        (retrySignal target signal rng log).2 =
          log ++ added ∧
        PhaseLog signal delays
          ((retrySignal target signal rng log).1,
            added) := by
  rcases phase_log target hSignal
      (exponentialBackoff 1 3 4294967295 true rng).values
      log with
    ⟨added, hLog, hPhase⟩
  rw [← retrySignal_eq] at hLog hPhase
  exact
    ⟨_, added, length_delays rng, delays_sum_le rng, hLog,
      hPhase⟩

end ProcessKiller

end Inks

------------------------------------------------------------
-- Escalation
------------------------------------------------------------

namespace Inks

namespace ProcessKiller

/- The bounds of a phase with the three delays. -/
theorem PhaseLog.bounds
    {signal : Signal}
    {delays : List UInt32}
    {done : Bool}
    {added : Log}
    (hPhase : PhaseLog signal delays (done, added))
    (hSignal : signal ≠ .none)
    (hLength : delays.length = 3)
    (hSeconds : seconds delays ≤ 7) :
    added.length ≤ 11 ∧ seconds (sleeps added) ≤ 7 ∧
      added.count (.kill signal) ≤ 4 := by
  have hSlept := hPhase.slept.length_le
  have hTried := hPhase.tried hSignal
  have hShort := hPhase.short
  have hPrefix := seconds_le_of_prefix hPhase.slept
  simp only at hSlept hTried hShort hPrefix
  omega

/- A call whose polite phase was the last one. -/
theorem escalates_of_term
    {added : Log}
    (hOnly : .kill .sigkill ∉ added)
    (hLength : added.length ≤ 11)
    (hSeconds : seconds (sleeps added) ≤ 7)
    (hPolite : added.count (.kill .sigterm) ≤ 4) :
    Escalates (.kill .none :: added) := by
  constructor
  · simp
    omega
  · simp
    omega
  · simpa using hPolite
  · simp [List.count_eq_zero.mpr hOnly]
  · simp [hOnly]

/- A call that had both phases. -/
theorem escalates_of_both
    {delays delays' : List UInt32}
    {done : Bool}
    {added added' : Log}
    (hTerm : PhaseLog .sigterm delays (false, added))
    (hKill : PhaseLog .sigkill delays' (done, added'))
    (hLength : delays.length = 3)
    (hLength' : delays'.length = 3)
    (hSeconds : seconds delays ≤ 7)
    (hSeconds' : seconds delays' ≤ 7) :
    Escalates ((.kill .none :: added) ++ added') := by
  have hBounds := hTerm.bounds (by simp) hLength hSeconds
  have hBounds' :=
    hKill.bounds (by simp) hLength' hSeconds'
  have hNoKill : .kill .sigkill ∉ added :=
    hTerm.only (by simp) (by simp)
  have hNoTerm : .kill .sigterm ∉ added' :=
    hKill.only (by simp) (by simp)
  have hAll : sleeps added = delays := hTerm.all rfl
  constructor
  · simp
    omega
  · simp [seconds_append]
    omega
  · simp [List.count_eq_zero.mpr hNoTerm, hBounds.2.2]
  · simp [List.count_eq_zero.mpr hNoKill]
    omega
  · intro _
    refine
      ⟨.kill .none :: added, added', delays, sleeps added',
        rfl, ?_, hNoTerm, ?_, hLength, hKill.order⟩
    · simp [hNoKill]
    · rw [acts_cons, if_pos rfl, hTerm.order, hAll]

/-
  Ending a process never hangs and never escalates early:
  for every process and every draw of the random delays, a
  call takes at most 23 operations and sleeps at most 14
  seconds, and a SIGKILL comes only after four SIGTERMs with
  a sleep between any two of them, and none comes after it.
-/
theorem elegantKill_escalates
    (target : Target)
    (termRng killRng : Rng) :
    Escalates (terminate target termRng killRng []) := by
  have hFirst :
      alive target [] =
        ((alive target []).1, [.kill .none]) := rfl
  have hTermSignal : Signal.sigterm ≠ .none := by
    simp
  have hKillSignal : Signal.sigkill ≠ .none := by
    simp
  rcases retrySignal_log target hTermSignal termRng
      [.kill .none] with
    ⟨delays, added, hLength, hSeconds, hLog, hTerm⟩
  have hBounds := hTerm.bounds (by simp) hLength hSeconds
  have hOnly : .kill .sigkill ∉ added :=
    hTerm.only (by simp) (by simp)
  unfold terminate elegantKill
  rw [hFirst]
  cases (alive target []).1 with
  | false => constructor <;> simp [seconds]
  | true =>
      simp only [Bool.not_true, Bool.false_eq_true,
        if_false]
      cases hDone :
          (retrySignal target .sigterm termRng
            [.kill .none]).1 with
      | true =>
          rw [if_pos rfl, hLog]
          exact
            escalates_of_term hOnly hBounds.1 hBounds.2.1
              hBounds.2.2
      | false =>
          rw [if_neg (by simp), hLog]
          rcases retrySignal_log target hKillSignal killRng
              ([.kill .none] ++ added) with
            ⟨delays', added', hLength', hSeconds', hLog',
              hKill⟩
          rw [hDone] at hTerm
          rw [hLog']
          exact
            escalates_of_both hTerm hKill hLength hLength'
              hSeconds hSeconds'

end ProcessKiller

end Inks
