import Inks.Foundation.Retry

/-
  Ending a process: a phase of polite signals and a phase of
  final ones, each with a check after every signal.

  The process may end at any moment of the call. A moment is
  the number of operations (signals, checks and sleeps) that
  are done by then, so the operation at that place in the
  log is the first one to meet no process.

  Key definitions include:
    * `ProcessKiller.kill`
    * `ProcessKiller.elegantKill`
    * `ProcessKiller.Recognised`
    * `ProcessKiller.Seen`

  Key theorems include:
    * `ProcessKiller.phase_outcome`
    * `ProcessKiller.phase_of_dead`
    * `ProcessKiller.elegantKill_recognised_iff`
-/

------------------------------------------------------------
-- Signals
------------------------------------------------------------

namespace Inks

namespace ProcessKiller

inductive Signal where
| none
| sigterm
| sigkill
deriving DecidableEq, Repr

inductive Operation where
| kill (signal : Signal)
| sleepFor (delay : UInt32)
deriving DecidableEq, Repr

/- A process, whether the caller may signal it, its end. -/
structure Target where
  permitted : Bool := true
  death : Option Nat := none
deriving DecidableEq, Repr

/- What `kill` returns, or the number it leaves in `errno`. -/
inductive KillResult where
| ok
| eperm
| esrch
deriving DecidableEq, Repr

namespace Target

def aliveAt
    (target : Target)
    (moment : Nat) : Bool :=
  match target.death with
  | .none => true
  | some death => moment < death

end Target

abbrev Log :=
  List Operation

def kill
    (target : Target)
    (signal : Signal)
    (log : Log) : KillResult × Log :=
  let result :=
    if !target.aliveAt log.length then
      .esrch
    else if target.permitted then
      .ok
    else
      .eperm
  (result, log ++ [.kill signal])

def alive
    (target : Target)
    (log : Log) : Bool × Log :=
  let (result, log) := kill target .none log
  (result == .ok || result == .eperm, log)

/- The function that each phase retries. -/
def attempt
    (target : Target)
    (signal : Signal)
    (log : Log) : Bool × Log :=
  let (result, log) := kill target signal log
  if result == .ok then
    let (isAlive, log) := alive target log
    (!isAlive, log)
  else
    (false, log)

def sleepFor
    (delay : UInt32)
    (log : Log) : Log :=
  log ++ [.sleepFor delay]

/- The retries of one phase, with the default arguments. -/
def retrySignal
    (target : Target)
    (signal : Signal)
    (rng : Rng)
    (log : Log) : Bool × Log :=
  exponentialRetry 1 3 (attempt target signal) 4294967295
    true rng sleepFor log

def elegantKill
    (target : Target)
    (termRng killRng : Rng)
    (log : Log) : Bool × Log :=
  let (isAlive, log) := alive target log
  if !isAlive then
    (false, log)
  else
    let (done, log) :=
      retrySignal target .sigterm termRng log
    if done then
      (true, log)
    else
      retrySignal target .sigkill killRng log

end ProcessKiller

end Inks

------------------------------------------------------------
-- Attempts
------------------------------------------------------------

namespace Inks

namespace ProcessKiller

theorem Target.aliveAt_of_death
    {target : Target}
    {death : Nat}
    (hDeath : target.death = some death)
    (moment : Nat) :
    target.aliveAt moment = decide (moment < death) := by
  rw [aliveAt, hDeath]

/- A signal to a process that has ended fails. -/
theorem attempt_of_dead
    {target : Target}
    {log : Log}
    (hDead : target.aliveAt log.length = false)
    (signal : Signal) :
    attempt target signal log =
      (false, log ++ [.kill signal]) := by
  simp [attempt, kill, hDead]

/- So does one that the caller may not send. -/
theorem attempt_of_not_permitted
    {target : Target}
    (hNot : target.permitted = false)
    (signal : Signal)
    (log : Log) :
    attempt target signal log =
      (false, log ++ [.kill signal]) := by
  cases hAlive : target.aliveAt log.length <;>
    simp [attempt, kill, hAlive, hNot]

/- Otherwise the check decides, one operation later. -/
theorem attempt_of_alive
    {target : Target}
    {log : Log}
    (hAlive : target.aliveAt log.length = true)
    (hPermitted : target.permitted = true)
    (signal : Signal) :
    attempt target signal log =
      (!target.aliveAt (log.length + 1),
        log ++ [.kill signal, .kill .none]) := by
  cases hNext : target.aliveAt (log.length + 1) <;>
    simp [attempt, alive, kill, hAlive, hPermitted, hNext]

end ProcessKiller

end Inks

------------------------------------------------------------
-- Phases
------------------------------------------------------------

namespace Inks

namespace ProcessKiller

/- A first attempt and one after each delay. -/
def phase
    (target : Target)
    (signal : Signal)
    (delays : List UInt32)
    (log : Log) : Bool × Log :=
  if (attempt target signal log).1 then
    (true, (attempt target signal log).2)
  else
    retryAfter (attempt target signal) sleepFor delays
      (attempt target signal log).2

theorem retrySignal_eq
    (target : Target)
    (signal : Signal)
    (rng : Rng)
    (log : Log) :
    retrySignal target signal rng log =
      phase target signal
        (exponentialBackoff 1 3 4294967295 true rng).values
        log :=
  exponentialRetry_eq _ _ _ _ _ _ _ _

theorem length_delays
    (rng : Rng) :
    (exponentialBackoff 1 3 4294967295 true
      rng).values.length = 3 :=
  length_exponentialBackoff 1 3 4294967295 true rng

theorem phase_nil
    (target : Target)
    (signal : Signal)
    (log : Log) :
    phase target signal [] log =
      attempt target signal log := by
  unfold phase
  cases hAttempt : attempt target signal log with
  | mk done later => cases done <;> simp [retryAfter]

theorem phase_cons
    (target : Target)
    (signal : Signal)
    (delay : UInt32)
    (delays : List UInt32)
    (log : Log) :
    phase target signal (delay :: delays) log =
      if (attempt target signal log).1 then
        (true, (attempt target signal log).2)
      else
        phase target signal delays
          ((attempt target signal log).2 ++
            [.sleepFor delay]) := by
  simp [phase, retryAfter, sleepFor]
  rfl

/- A phase only adds to the log, its own signals and checks. -/
theorem notMem_phase
    {target : Target}
    {signal other : Signal}
    (hOther : other ≠ signal)
    (hSignal : other ≠ .none)
    (delays : List UInt32)
    {log : Log}
    (hLog : Operation.kill other ∉ log) :
    Operation.kill other ∉
      (phase target signal delays log).2 := by
  have hAttempt :
      ∀ log : Log, Operation.kill other ∉ log →
        Operation.kill other ∉
          (attempt target signal log).2 := by
    intro log hLog
    cases hAlive : target.aliveAt log.length with
    | false =>
        rw [attempt_of_dead hAlive]
        simp [hLog, hOther]
    | true =>
        cases hPermitted : target.permitted with
        | false =>
            rw [attempt_of_not_permitted hPermitted]
            simp [hLog, hOther]
        | true =>
            rw [attempt_of_alive hAlive hPermitted]
            simp [hLog, hOther, hSignal]
  induction delays generalizing log with
  | nil =>
      rw [phase_nil]
      exact hAttempt log hLog
  | cons delay delays ih =>
      rw [phase_cons]
      split
      · exact hAttempt log hLog
      · apply ih
        simpa using hAttempt log hLog

/- After the end of the process every attempt fails. -/
theorem phase_of_dead
    {target : Target}
    {death : Nat}
    (hDeath : target.death = some death)
    (signal : Signal)
    (delays : List UInt32)
    {log : Log}
    (hDead : death ≤ log.length) :
    (phase target signal delays log).1 = false ∧
      death < (phase target signal delays log).2.length := by
  have hGone : target.aliveAt log.length = false := by
    simp [Target.aliveAt_of_death hDeath]
    omega
  induction delays generalizing log with
  | nil =>
      rw [phase_nil, attempt_of_dead hGone]
      simp
      omega
  | cons delay delays ih =>
      rw [phase_cons, attempt_of_dead hGone]
      apply ih
      · simp
        omega
      · simp [Target.aliveAt_of_death hDeath]
        omega

/- Without permission the checks are never reached. -/
theorem phase_of_not_permitted
    {target : Target}
    (hNot : target.permitted = false)
    (signal : Signal)
    (delays : List UInt32)
    (log : Log) :
    (phase target signal delays log).1 = false ∧
      (phase target signal delays log).2.length =
        log.length + 2 * delays.length + 1 := by
  induction delays generalizing log with
  | nil =>
      rw [phase_nil, attempt_of_not_permitted hNot]
      simp
  | cons delay delays ih =>
      rw [phase_cons, attempt_of_not_permitted hNot]
      have hRest :=
        ih (log ++ [.kill signal] ++ [.sleepFor delay])
      refine ⟨hRest.1, ?_⟩
      simp only [Bool.false_eq_true, if_false]
      rw [hRest.2]
      simp
      omega

/-
  Whether a phase of `n` retries from a place of the log on
  sees a death: right after a signal, before its check.
-/
def SeenFrom
    (start n death : Nat) : Prop :=
  ∃ k ≤ n, death = start + 3 * k + 1

/-
  The outcomes of a phase: it sees the death, it misses it,
  or the process outlives it.
-/
inductive PhaseOutcome
    (start n death : Nat)
    (run : Bool × Log) : Prop where
| seen
    (hSeen : SeenFrom start n death)
    (hResult : run.1 = true)
    (hLength : run.2.length = death + 1)
| missed
    (hMissed : ¬ SeenFrom start n death)
    (hWithin : death ≤ start + 3 * n + 1)
    (hResult : run.1 = false)
    (hLength : death < run.2.length)
| outlived
    (hAfter : start + 3 * n + 1 < death)
    (hResult : run.1 = false)
    (hLength : run.2.length = start + 3 * n + 2)

/- The retries of a phase are a phase of their own. -/
theorem PhaseOutcome.of_retries
    {start n death : Nat}
    {run : Bool × Log}
    (hLater : start + 3 < death)
    (hOutcome : PhaseOutcome (start + 3) n death run) :
    PhaseOutcome start (n + 1) death run := by
  cases hOutcome with
  | seen hSeen hResult hLength =>
      rcases hSeen with ⟨k, hk, hDeath⟩
      exact .seen ⟨k + 1, by omega, by omega⟩
        hResult hLength
  | missed hMissed hWithin hResult hLength =>
      refine .missed ?_ (by omega) hResult hLength
      intro hSeen
      rcases hSeen with ⟨k, hk, hDeath⟩
      exact hMissed ⟨k - 1, by omega, by omega⟩
  | outlived hAfter hResult hLength =>
      exact .outlived (by omega) hResult (by omega)

theorem attempt_of_death
    {target : Target}
    {log : Log}
    {death : Nat}
    (hPermitted : target.permitted = true)
    (hDeath : target.death = some death)
    (hAlive : log.length < death)
    (signal : Signal) :
    attempt target signal log =
      (decide (death ≤ log.length + 1),
        log ++ [.kill signal, .kill .none]) := by
  have hHere : target.aliveAt log.length = true := by
    simpa [Target.aliveAt_of_death hDeath] using hAlive
  have hNext :
      (!target.aliveAt (log.length + 1)) =
        decide (death ≤ log.length + 1) := by
    simp [Target.aliveAt_of_death hDeath, ← decide_not]
  rw [attempt_of_alive hHere hPermitted, hNext]

/- What a phase does to a process that it may signal. -/
theorem phase_outcome
    {target : Target}
    {death : Nat}
    (hPermitted : target.permitted = true)
    (hDeath : target.death = some death)
    (signal : Signal)
    (delays : List UInt32)
    {log : Log}
    (hAlive : log.length < death) :
    PhaseOutcome log.length delays.length death
      (phase target signal delays log) := by
  have hAttempt :=
    fun (log : Log) (hAlive : log.length < death) =>
      attempt_of_death hPermitted hDeath hAlive signal
  induction delays generalizing log with
  | nil =>
      rw [phase_nil, hAttempt log hAlive]
      by_cases hGone : death ≤ log.length + 1
      · exact .seen ⟨0, by simp, by omega⟩
          (by simpa using hGone) (by simp; omega)
      · exact .outlived (by simp; omega)
          (by simpa using hGone) (by simp)
  | cons delay delays ih =>
      rw [phase_cons, hAttempt log hAlive]
      by_cases hGone : death ≤ log.length + 1
      · rw [decide_eq_true hGone, if_pos rfl]
        exact .seen ⟨0, by omega, by omega⟩ rfl
          (by simp; omega)
      · rw [decide_eq_false hGone, if_neg (by simp)]
        have hLength :
            (log ++
              [Operation.kill signal, .kill .none] ++
              [Operation.sleepFor delay]).length =
                log.length + 3 := by
          simp
        by_cases hLater : log.length + 3 < death
        · rw [← hLength] at hLater
          have hRest := ih hLater
          rw [hLength] at hRest hLater
          exact hRest.of_retries hLater
        · -- The process ends between two attempts.
          rw [← hLength, Nat.not_lt] at hLater
          have hDead :=
            phase_of_dead hDeath signal delays hLater
          rw [hLength] at hLater
          refine .missed ?_ (by simp; omega) hDead.1 hDead.2
          intro hSeen
          rcases hSeen with ⟨k, _, hMoment⟩
          omega

/- A process without an end outlives every phase. -/
theorem phase_of_immortal
    {target : Target}
    (hPermitted : target.permitted = true)
    (hDeath : target.death = .none)
    (signal : Signal)
    (delays : List UInt32)
    (log : Log) :
    (phase target signal delays log).1 = false := by
  have hAlive :
      ∀ moment, target.aliveAt moment = true := by
    simp [Target.aliveAt, hDeath]
  have hAttempt :
      ∀ log : Log, (attempt target signal log).1 = false := by
    intro log
    rw [attempt_of_alive (hAlive _) hPermitted, hAlive]
    rfl
  induction delays generalizing log with
  | nil => rw [phase_nil, hAttempt]
  | cons delay delays ih =>
      rw [phase_cons, hAttempt, if_neg (by simp), ih]

end ProcessKiller

end Inks

------------------------------------------------------------
-- The Phases of the Source
------------------------------------------------------------

namespace Inks

namespace ProcessKiller

theorem retrySignal_of_dead
    {target : Target}
    {death : Nat}
    (hDeath : target.death = some death)
    (signal : Signal)
    (rng : Rng)
    {log : Log}
    (hDead : death ≤ log.length) :
    (retrySignal target signal rng log).1 = false ∧
      death <
        (retrySignal target signal rng log).2.length := by
  rw [retrySignal_eq]
  exact phase_of_dead hDeath signal _ hDead

theorem retrySignal_of_not_permitted
    {target : Target}
    (hNot : target.permitted = false)
    (signal : Signal)
    (rng : Rng)
    (log : Log) :
    (retrySignal target signal rng log).1 = false ∧
      (retrySignal target signal rng log).2.length =
        log.length + 7 := by
  have hPhase :=
    phase_of_not_permitted hNot signal
      (exponentialBackoff 1 3 4294967295 true rng).values
      log
  rw [← retrySignal_eq, length_delays] at hPhase
  exact hPhase

theorem retrySignal_outcome
    {target : Target}
    {death : Nat}
    (hPermitted : target.permitted = true)
    (hDeath : target.death = some death)
    (signal : Signal)
    (rng : Rng)
    {log : Log}
    (hAlive : log.length < death) :
    PhaseOutcome log.length 3 death
      (retrySignal target signal rng log) := by
  have hPhase :=
    phase_outcome hPermitted hDeath signal
      (exponentialBackoff 1 3 4294967295 true rng).values
      hAlive
  rw [← retrySignal_eq, length_delays] at hPhase
  exact hPhase

theorem retrySignal_of_immortal
    {target : Target}
    (hPermitted : target.permitted = true)
    (hDeath : target.death = .none)
    (signal : Signal)
    (rng : Rng)
    (log : Log) :
    (retrySignal target signal rng log).1 = false := by
  rw [retrySignal_eq]
  exact phase_of_immortal hPermitted hDeath signal _ log

/- The first phase sends no final signal. -/
theorem sigkill_notMem_termPhase
    (target : Target)
    (rng : Rng) :
    Operation.kill .sigkill ∉
      (retrySignal target .sigterm rng
        [.kill .none]).2 := by
  rw [retrySignal_eq]
  apply notMem_phase
  · decide
  · decide
  · decide

end ProcessKiller

end Inks

------------------------------------------------------------
-- Recognition
------------------------------------------------------------

namespace Inks

namespace ProcessKiller

/- The process had ended at the last operation of a call. -/
def Died
    (target : Target)
    (log : Log) : Prop :=
  ∃ death, target.death = some death ∧ death < log.length

def Operation.isSignal : Operation → Bool
| .kill .sigterm => true
| .kill .sigkill => true
| _ => false

/- The log of the first phase, after the first check. -/
def termLog
    (target : Target)
    (termRng : Rng) : Log :=
  (retrySignal target .sigterm termRng [.kill .none]).2

/- What a call promises about the end of the process. -/
structure Recognised
    (target : Target)
    (termRng : Rng)
    (run : Bool × Log) : Prop where
  result : run.1 = true ↔ Died target run.2
  stops :
    ∀ death, target.death = some death →
      (run.2.drop death).countP Operation.isSignal ≤ 1
  no_sigkill :
    ∀ death, target.death = some death →
      death < (termLog target termRng).length →
        .kill .sigkill ∉ run.2

/-
  The process outlives the last operation of the call, or it
  may be signalled and ends right after a signal to it,
  before the check of that attempt.
-/
def Seen
    (target : Target) : Prop :=
  ∀ death, target.death = some death →
    if target.permitted then
      22 < death ∨ SeenFrom 1 3 death ∨ SeenFrom 12 3 death
    else
      14 < death

/- The promise for a run whose phases are known. -/
theorem Recognised.of_seen
    {target : Target}
    {termRng : Rng}
    {run : Bool × Log}
    {death : Nat}
    (hDeath : target.death = some death)
    (hResult : run.1 = true)
    (hLength : run.2.length = death + 1)
    (hSigkill :
      death < (termLog target termRng).length →
        .kill .sigkill ∉ run.2) :
    Recognised target termRng run := by
  refine ⟨?_, ?_, ?_⟩
  · exact iff_of_true hResult ⟨death, hDeath, by omega⟩
  · intro other hOther
    have hSame : other = death :=
      Option.some.inj (hOther.symm.trans hDeath)
    have hCount :=
      (run.2.drop death).countP_le_length
        (p := Operation.isSignal)
    rw [List.length_drop, hLength] at hCount
    rw [hSame]
    omega
  · intro other hOther
    have hSame : other = death :=
      Option.some.inj (hOther.symm.trans hDeath)
    rw [hSame]
    exact hSigkill

theorem Recognised.of_outlived
    {target : Target}
    {termRng : Rng}
    {run : Bool × Log}
    (hResult : run.1 = false)
    (hAfter :
      ∀ death, target.death = some death →
        run.2.length ≤ death ∧
          (termLog target termRng).length ≤ death) :
    Recognised target termRng run := by
  refine ⟨?_, ?_, ?_⟩
  · apply iff_of_false (by simp [hResult])
    intro hDied
    rcases hDied with ⟨death, hDeath, hLt⟩
    have hLe := (hAfter death hDeath).1
    omega
  · intro death hDeath
    rw [List.drop_eq_nil_of_le (hAfter death hDeath).1]
    simp
  · intro death hDeath hLt
    have hLe := (hAfter death hDeath).2
    omega

theorem not_recognised_of_missed
    {target : Target}
    {termRng : Rng}
    {run : Bool × Log}
    {death : Nat}
    (hDeath : target.death = some death)
    (hResult : run.1 = false)
    (hLength : death < run.2.length) :
    ¬ Recognised target termRng run := by
  intro hPromise
  have hTrue :=
    hPromise.result.mpr ⟨death, hDeath, hLength⟩
  rw [hResult] at hTrue
  exact absurd hTrue (by decide)

/- A call on a process that is alive at its start. -/
theorem elegantKill_of_alive
    {target : Target}
    (hAlive : target.aliveAt 0 = true)
    (termRng killRng : Rng) :
    elegantKill target termRng killRng [] =
      if (retrySignal target .sigterm termRng
          [.kill .none]).1 then
        (true, termLog target termRng)
      else
        retrySignal target .sigkill killRng
          (termLog target termRng) := by
  have hCheck :
      alive target [] = (true, [.kill .none]) := by
    cases hPermitted : target.permitted <;>
      simp [alive, kill, hAlive, hPermitted]
  simp [elegantKill, hCheck, termLog]

/- A caller without permission never sees the end. -/
theorem recognised_iff_of_not_permitted
    {target : Target}
    (hAlive : target.aliveAt 0 = true)
    (hNot : target.permitted = false)
    (termRng killRng : Rng) :
    Recognised target termRng
        (elegantKill target termRng killRng []) ↔
      Seen target := by
  have hTerm :=
    retrySignal_of_not_permitted hNot .sigterm termRng
      [.kill .none]
  have hKill :=
    retrySignal_of_not_permitted hNot .sigkill killRng
      (termLog target termRng)
  have hTermLength :
      (termLog target termRng).length = 8 := hTerm.2
  rw [hTermLength] at hKill
  rw [elegantKill_of_alive hAlive, hTerm.1,
    if_neg (by simp)]
  cases hDeath : target.death with
  | none =>
      apply iff_of_true
      · apply Recognised.of_outlived hKill.1
        simp [hDeath]
      · simp [Seen, hDeath]
  | some death =>
      have hSeen : Seen target ↔ 14 < death := by
        simp [Seen, hDeath, hNot]
      rw [hSeen]
      constructor
      · intro hPromise
        by_contra hWithin
        exact not_recognised_of_missed hDeath hKill.1
          (by omega) hPromise
      · intro hAfter
        apply Recognised.of_outlived hKill.1
        intro other hOther
        rw [← Option.some.inj (hDeath.symm.trans hOther)]
        omega

/- The second phase, after a first one that saw no end. -/
theorem recognised_iff_of_sigkill
    {target : Target}
    {termRng : Rng}
    {death : Nat}
    (hPermitted : target.permitted = true)
    (hDeath : target.death = some death)
    (hAfter : 11 < death)
    (hLength : (termLog target termRng).length = 12)
    (killRng : Rng) :
    Recognised target termRng
        (retrySignal target .sigkill killRng
          (termLog target termRng)) ↔
      22 < death ∨ SeenFrom 12 3 death := by
  by_cases hGone : death ≤ 12
  · have hDead :=
      retrySignal_of_dead hDeath .sigkill killRng
        (hLength ▸ hGone)
    apply iff_of_false
    · exact not_recognised_of_missed hDeath hDead.1 hDead.2
    · intro hSeen
      rcases hSeen with hLate | ⟨k, _, hMoment⟩ <;> omega
  · have hAlive :
        (termLog target termRng).length < death := by
      omega
    have hOutcome :=
      retrySignal_outcome hPermitted hDeath .sigkill
        killRng hAlive
    rw [hLength] at hOutcome
    cases hOutcome with
    | seen hSeen hResult hEnd =>
        apply iff_of_true _ (Or.inr hSeen)
        exact Recognised.of_seen hDeath hResult hEnd
          (by omega)
    | missed hMissed hWithin hResult hEnd =>
        apply iff_of_false
        · exact not_recognised_of_missed hDeath hResult hEnd
        · intro hSeen
          rcases hSeen with hLate | hSeen
          · omega
          · exact hMissed hSeen
    | outlived hLate hResult hEnd =>
        apply iff_of_true _ (Or.inl hLate)
        apply Recognised.of_outlived hResult
        intro other hOther
        rw [← Option.some.inj (hDeath.symm.trans hOther)]
        omega

/- An end that the first phase misses goes unnoticed. -/
theorem elegantKill_of_missed
    {target : Target}
    {death : Nat}
    (hAlive : 0 < death)
    (hPermitted : target.permitted = true)
    (hDeath : target.death = some death)
    (hWithin : death ≤ 11)
    (hMissed : ¬ SeenFrom 1 3 death)
    (termRng killRng : Rng) :
    (elegantKill target termRng killRng []).1 = false ∧
      death <
        (elegantKill target termRng killRng
          []).2.length := by
  have hHere : target.aliveAt 0 = true := by
    simpa [Target.aliveAt_of_death hDeath] using hAlive
  have hTerm :
      (retrySignal target .sigterm termRng
          [.kill .none]).1 = false ∧
        death <
          (retrySignal target .sigterm termRng
            [.kill .none]).2.length := by
    by_cases hChecked :
        [Operation.kill .none].length < death
    · have hOutcome :=
        retrySignal_outcome hPermitted hDeath .sigterm
          termRng hChecked
      cases hOutcome with
      | seen hSeen hResult hLength =>
          exact absurd hSeen hMissed
      | missed hNot hLe hResult hLength =>
          exact ⟨hResult, hLength⟩
      | outlived hAfter hResult hLength =>
          simp only [List.length_singleton] at hAfter
          omega
    · exact retrySignal_of_dead hDeath .sigterm termRng
        (Nat.not_lt.mp hChecked)
  rw [elegantKill_of_alive hHere, hTerm.1,
    if_neg (by simp)]
  exact retrySignal_of_dead hDeath .sigkill killRng
    (Nat.le_of_lt hTerm.2)

theorem recognised_iff_of_death
    {target : Target}
    {death : Nat}
    (hAlive : 0 < death)
    (hPermitted : target.permitted = true)
    (hDeath : target.death = some death)
    (termRng killRng : Rng) :
    Recognised target termRng
        (elegantKill target termRng killRng []) ↔
      22 < death ∨ SeenFrom 1 3 death ∨
        SeenFrom 12 3 death := by
  have hHere : target.aliveAt 0 = true := by
    simpa [Target.aliveAt_of_death hDeath] using hAlive
  have hLate :
      22 < death ∨ SeenFrom 12 3 death → 11 < death := by
    intro hSeen
    rcases hSeen with hLt | ⟨k, _, hMoment⟩ <;> omega
  by_cases hMissed : death ≤ 11 ∧ ¬ SeenFrom 1 3 death
  · have hRun :=
      elegantKill_of_missed hAlive hPermitted hDeath
        hMissed.1 hMissed.2 termRng killRng
    apply iff_of_false
    · exact not_recognised_of_missed hDeath hRun.1 hRun.2
    · intro hSeen
      rcases hSeen with hLt | hSeen | hSeen
      · omega
      · exact hMissed.2 hSeen
      · have hLt := hLate (Or.inr hSeen)
        omega
  · have hChecked :
        [Operation.kill .none].length < death := by
      by_contra hEarly
      apply hMissed
      simp only [List.length_singleton] at hEarly
      refine ⟨by omega, ?_⟩
      intro hSeen
      rcases hSeen with ⟨k, _, hMoment⟩
      omega
    have hOutcome :=
      retrySignal_outcome hPermitted hDeath .sigterm
        termRng hChecked
    rw [elegantKill_of_alive hHere]
    cases hOutcome with
    | seen hSeen hResult hLength =>
        rw [hResult, if_pos rfl]
        apply iff_of_true _ (Or.inr (Or.inl hSeen))
        refine Recognised.of_seen hDeath rfl hLength ?_
        intro _
        exact sigkill_notMem_termPhase target termRng
    | missed hNot hWithin hResult hLength =>
        exact absurd ⟨hWithin, hNot⟩ hMissed
    | outlived hAfter hResult hLength =>
        simp only [List.length_singleton] at hAfter
        rw [hResult, if_neg (by simp),
          recognised_iff_of_sigkill hPermitted hDeath
            (by omega) hLength]
        constructor
        · tauto
        · intro hSeen
          rcases hSeen with hLt | ⟨k, _, hMoment⟩ | hSeen
          · exact Or.inl hLt
          · omega
          · exact Or.inr hSeen

/- When a call recognises the end of the process. -/
theorem elegantKill_recognised_iff
    {target : Target}
    (hAlive : target.aliveAt 0 = true)
    (termRng killRng : Rng) :
    Recognised target termRng
        (elegantKill target termRng killRng []) ↔
      Seen target := by
  cases hPermitted : target.permitted with
  | false =>
      exact recognised_iff_of_not_permitted hAlive
        hPermitted termRng killRng
  | true =>
      cases hDeath : target.death with
      | none =>
          apply iff_of_true
          · apply Recognised.of_outlived
            · have hTerm :=
                retrySignal_of_immortal hPermitted hDeath
                  .sigterm termRng [.kill .none]
              rw [elegantKill_of_alive hAlive, hTerm,
                if_neg (by simp)]
              exact retrySignal_of_immortal hPermitted
                hDeath _ _ _
            · simp [hDeath]
          · simp [Seen, hDeath]
      | some death =>
          have hLt : 0 < death := by
            simpa [Target.aliveAt_of_death hDeath] using hAlive
          rw [recognised_iff_of_death hLt hPermitted hDeath]
          simp [Seen, hDeath, hPermitted]

theorem recognised_after_first_signal :
    Recognised { death := some 2 } highestDraws
      (elegantKill { death := some 2 } highestDraws
        highestDraws []) := by
  apply (elegantKill_recognised_iff (by decide)
    highestDraws highestDraws).mpr
  intro death hDeath
  cases hDeath
  exact Or.inr (Or.inl ⟨0, by decide, rfl⟩)

/- A process that ends during the first sleep. -/
theorem death_in_sleep_not_recognised :
    Target.aliveAt { death := some 4 } 0 = true ∧
      (elegantKill { death := some 4 } highestDraws
        highestDraws []).1 = false ∧
      Died { death := some 4 }
        (elegantKill { death := some 4 } highestDraws
          highestDraws []).2 ∧
      ¬ Recognised { death := some 4 } highestDraws
        (elegantKill { death := some 4 } highestDraws
          highestDraws []) := by
  have hMissed : ¬ SeenFrom 1 3 4 := by
    intro hSeen
    rcases hSeen with ⟨k, _, hMoment⟩
    omega
  have hRun :
      (elegantKill { death := some 4 } highestDraws
          highestDraws []).1 = false ∧
        4 <
          (elegantKill { death := some 4 } highestDraws
            highestDraws []).2.length :=
    elegantKill_of_missed (by decide) rfl rfl (by decide)
      hMissed highestDraws highestDraws
  refine ⟨by decide, hRun.1, ⟨4, rfl, hRun.2⟩, ?_⟩
  exact not_recognised_of_missed rfl hRun.1 hRun.2

end ProcessKiller

end Inks
