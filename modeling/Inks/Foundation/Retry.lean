import Inks.Foundation.Backoff
import Mathlib.Data.List.Basic
import Mathlib.Data.Nat.Find

/-
  The attempts that `exponentialRetry` makes.

  Key definitions include:
    * `retryAfter`
    * `Retry.attempts`
    * `Retry.Promised`

  Key theorems include:
    * `exponentialRetry_eq`
    * `Retry.exponentialRetry_promised`
-/

------------------------------------------------------------
-- Retries by Delays
------------------------------------------------------------

namespace Inks

variable {S : Type*}

/- The loop of retries over the list of its delays. -/
def retryAfter
    (func : S → Bool × S)
    (sleepFor : UInt32 → S → S) :
    List UInt32 → S → Bool × S
| [], s => (false, s)
| delay :: delays, s =>
    let (done, s) := func (sleepFor delay s)
    if done then
      (true, s)
    else
      retryAfter func sleepFor delays s

theorem retryLoop_eq
    (func : S → Bool × S)
    (sleepFor : UInt32 → S → S)
    (it : ExponentialBackoffIterator)
    (s : S) :
    retryLoop func sleepFor it s =
      retryAfter func sleepFor it.values s := by
  induction it, s using retryLoop.induct func sleepFor with
  | case1 it s hDone =>
      rw [retryLoop, dif_pos hDone,
        ExponentialBackoffIterator.values, dif_pos hDone,
        retryAfter]
  | case2 it s hMore slept later hCall =>
      rw [retryLoop, dif_neg hMore,
        ExponentialBackoffIterator.values, dif_neg hMore,
        retryAfter]
      simp only [slept] at hCall
      simp [hCall]
  | case3 it s hMore slept done later hCall hFalse ih =>
      rw [retryLoop, dif_neg hMore,
        ExponentialBackoffIterator.values, dif_neg hMore,
        retryAfter]
      simp only [slept] at hCall
      simp [hCall, hFalse, ih]

theorem exponentialRetry_eq
    (base maxRetries : UInt32)
    (func : S → Bool × S)
    (capped : UInt32)
    (jitter : Bool)
    (rng : Rng)
    (sleepFor : UInt32 → S → S)
    (s : S) :
    exponentialRetry base maxRetries func capped jitter rng
        sleepFor s =
      if (func s).1 then
        (true, (func s).2)
      else
        retryAfter func sleepFor
          (exponentialBackoff base maxRetries capped jitter
            rng).values
          (func s).2 := by
  rw [exponentialRetry]
  simp only [retryLoop_eq]

end Inks

------------------------------------------------------------
-- Attempts
------------------------------------------------------------

namespace Inks

namespace Retry

inductive Action where
| call
| sleep (delay : UInt32)
deriving DecidableEq, Repr

/- A function whose outcomes are given in advance. -/
def func
    (outcomes : Nat → Bool)
    (log : List Action) : Bool × List Action :=
  (outcomes (log.count .call), log ++ [.call])

def sleepFor
    (delay : UInt32)
    (log : List Action) : List Action :=
  log ++ [.sleep delay]

/- Each delay is slept before another call. -/
def retries
    (delays : List UInt32) : List Action :=
  delays.flatMap (fun delay => [.sleep delay, .call])

/- A first call and `n` retries. -/
def attempts
    (delays : List UInt32)
    (n : Nat) : List Action :=
  .call :: retries (delays.take n)

/- The index of the first true outcome. -/
def FirstTrue
    (outcomes : Nat → Bool)
    (j : Nat) : Prop :=
  outcomes j = true ∧ ∀ i < j, outcomes i = false

@[simp] theorem count_retries
    (delays : List UInt32) :
    (retries delays).count .call = delays.length := by
  induction delays with
  | nil => rfl
  | cons delay delays ih =>
      have hRest :
          retries (delay :: delays) =
            [.sleep delay, .call] ++ retries delays := rfl
      rw [hRest, List.count_append, ih, List.length_cons,
        Nat.add_comm]
      rfl

theorem count_attempts
    (delays : List UInt32)
    (n : Nat) :
    (attempts delays n).count .call =
      min n delays.length + 1 := by
  unfold attempts
  rw [List.count_cons_self, count_retries, List.length_take]

/- One turn of the loop. -/
theorem retryAfter_cons
    (outcomes : Nat → Bool)
    (delay : UInt32)
    (delays : List UInt32)
    (log : List Action) :
    retryAfter (func outcomes) sleepFor (delay :: delays)
        log =
      if outcomes (log.count .call) then
        (true, log ++ [.sleep delay, .call])
      else
        retryAfter (func outcomes) sleepFor delays
          (log ++ [.sleep delay, .call]) := by
  simp [retryAfter, func, sleepFor]

theorem count_turn
    (delay : UInt32)
    (log : List Action) :
    (log ++ [Action.sleep delay, Action.call]).count .call =
      log.count .call + 1 := by
  simp

/- Without a true outcome the delays are used up. -/
theorem retryAfter_of_false
    {outcomes : Nat → Bool}
    {delays : List UInt32}
    {log : List Action}
    (hFalse :
      ∀ i < delays.length,
        outcomes (log.count .call + i) = false) :
    retryAfter (func outcomes) sleepFor delays log =
      (false, log ++ retries delays) := by
  induction delays generalizing log with
  | nil => simp [retryAfter, retries]
  | cons delay delays ih =>
      have hHere : outcomes (log.count .call) = false :=
        hFalse 0 (by simp)
      rw [retryAfter_cons, hHere, if_neg (by simp), ih]
      · simp [retries]
      · intro i hIndex
        have hNext := hFalse (i + 1) (by simpa using hIndex)
        rw [count_turn, Nat.add_right_comm]
        exact hNext

/- A true outcome within the delays ends the loop. -/
theorem retryAfter_of_true
    {outcomes : Nat → Bool}
    {delays : List UInt32}
    {log : List Action}
    {n : Nat}
    (hIndex : n < delays.length)
    (hBefore :
      ∀ i < n, outcomes (log.count .call + i) = false)
    (hTrue : outcomes (log.count .call + n) = true) :
    retryAfter (func outcomes) sleepFor delays log =
      (true, log ++ retries (delays.take (n + 1))) := by
  induction delays generalizing log n with
  | nil => simp at hIndex
  | cons delay delays ih =>
      rw [retryAfter_cons]
      cases n with
      | zero =>
          have hHere : outcomes (log.count .call) = true :=
            hTrue
          rw [hHere, if_pos rfl]
          simp [retries]
      | succ n =>
          have hHere : outcomes (log.count .call) = false :=
            hBefore 0 (by omega)
          rw [hHere, if_neg (by simp), ih (n := n)]
          · simp [retries]
          · simpa using hIndex
          · intro i hi
            rw [count_turn, Nat.add_right_comm]
            exact hBefore (i + 1) (by omega)
          · rw [count_turn, Nat.add_right_comm]
            exact hTrue

end Retry

end Inks

------------------------------------------------------------
-- The Promise
------------------------------------------------------------

namespace Inks

namespace Retry

/-
  What a run over given delays does: a call, then a delay
  and a call for each retry, up to the first true outcome.
-/
structure Promised
    (outcomes : Nat → Bool)
    (maxRetries : Nat)
    (delays : List UInt32)
    (run : Bool × List Action) : Prop where
  delays_length : delays.length = maxRetries
  log :
    ∀ j, FirstTrue outcomes j →
      run.2 = attempts delays (min j maxRetries)
  calls :
    ∀ j, FirstTrue outcomes j →
      run.2.count .call = min j maxRetries + 1
  log_of_none :
    (∀ i, outcomes i = false) →
      run.2 = attempts delays maxRetries
  calls_of_none :
    (∀ i, outcomes i = false) →
      run.2.count .call = maxRetries + 1
  no_more :
    ∀ i, outcomes i = true → run.2.count .call ≤ i + 1
  result :
    run.1 = true ↔
      ∃ j ≤ maxRetries, FirstTrue outcomes j

/- The run of a function whose first true outcome is early. -/
theorem run_of_early
    {base maxRetries capped : UInt32}
    {jitter : Bool}
    {rng : Rng}
    {outcomes : Nat → Bool}
    {j : Nat}
    (hFirst : FirstTrue outcomes j)
    (hEarly : j ≤ maxRetries.toNat) :
    exponentialRetry base maxRetries (func outcomes) capped
        jitter rng sleepFor [] =
      (true,
        attempts
          (exponentialBackoff base maxRetries capped jitter
            rng).values j) := by
  rw [exponentialRetry_eq]
  cases j with
  | zero =>
      have hTrue : outcomes 0 = true := hFirst.1
      simp [func, hTrue, attempts, retries]
  | succ j =>
      have hZero : outcomes 0 = false := hFirst.2 0 (by omega)
      have hRun :
          retryAfter (func outcomes) sleepFor
              (exponentialBackoff base maxRetries capped
                jitter rng).values [.call] =
            (true,
              [.call] ++
                retries
                  ((exponentialBackoff base maxRetries
                    capped jitter rng).values.take
                      (j + 1))) := by
        apply retryAfter_of_true
        · rw [length_exponentialBackoff]
          omega
        · intro i hi
          have hBefore := hFirst.2 (1 + i) (by omega)
          simpa using hBefore
        · simpa [Nat.add_comm] using hFirst.1
      simp only [func, List.count_nil, hZero, List.nil_append]
      rw [if_neg (by simp)]
      exact hRun

/- The run of a function without an early true outcome. -/
theorem run_of_late
    {base maxRetries capped : UInt32}
    {jitter : Bool}
    {rng : Rng}
    {outcomes : Nat → Bool}
    (hLate : ∀ i ≤ maxRetries.toNat, outcomes i = false) :
    exponentialRetry base maxRetries (func outcomes) capped
        jitter rng sleepFor [] =
      (false,
        attempts
          (exponentialBackoff base maxRetries capped jitter
            rng).values maxRetries.toNat) := by
  have hZero : outcomes 0 = false := hLate 0 (by omega)
  have hLength :=
    length_exponentialBackoff base maxRetries capped jitter
      rng
  have hRun :
      retryAfter (func outcomes) sleepFor
          (exponentialBackoff base maxRetries capped
            jitter rng).values [.call] =
        (false,
          [.call] ++
            retries
              (exponentialBackoff base maxRetries capped
                jitter rng).values) := by
    apply retryAfter_of_false
    intro i hi
    have hHere := hLate (1 + i) (by omega)
    simpa using hHere
  rw [exponentialRetry_eq]
  simp only [func, List.count_nil, hZero, List.nil_append]
  rw [if_neg (by simp), attempts, ← hLength,
    List.take_length]
  exact hRun

theorem FirstTrue.le_of_true
    {outcomes : Nat → Bool}
    {j k : Nat}
    (hFirst : FirstTrue outcomes j)
    (hTrue : outcomes k = true) :
    j ≤ k := by
  by_contra hLt
  have hFalse := hFirst.2 k (by omega)
  rw [hTrue] at hFalse
  exact absurd hFalse (by decide)

/- There is a first true outcome or none at all. -/
theorem exists_firstTrue
    {outcomes : Nat → Bool}
    {i : Nat}
    (hTrue : outcomes i = true) :
    ∃ j, FirstTrue outcomes j := by
  have hSome : ∃ j, outcomes j = true := ⟨i, hTrue⟩
  refine ⟨Nat.find hSome, Nat.find_spec hSome, ?_⟩
  intro k hLt
  simpa using Nat.find_min hSome hLt

theorem exponentialRetry_promised
    (base maxRetries capped : UInt32)
    (jitter : Bool)
    (rng : Rng)
    (outcomes : Nat → Bool) :
    Promised outcomes maxRetries.toNat
      (exponentialBackoff base maxRetries capped jitter
        rng).values
      (exponentialRetry base maxRetries (func outcomes)
        capped jitter rng sleepFor []) := by
  have hLength :=
    length_exponentialBackoff base maxRetries capped jitter
      rng
  have hFirstRun :
      ∀ j, FirstTrue outcomes j →
        exponentialRetry base maxRetries (func outcomes)
            capped jitter rng sleepFor [] =
          (decide (j ≤ maxRetries.toNat),
            attempts
              (exponentialBackoff base maxRetries capped
                jitter rng).values
              (min j maxRetries.toNat)) := by
    intro j hFirst
    by_cases hEarly : j ≤ maxRetries.toNat
    · rw [run_of_early hFirst hEarly,
        Nat.min_eq_left hEarly, decide_eq_true hEarly]
    · rw [run_of_late, Nat.min_eq_right (by omega),
        decide_eq_false hEarly]
      intro i hi
      exact hFirst.2 i (by omega)
  have hNoneRun :
      (∀ i, outcomes i = false) →
        exponentialRetry base maxRetries (func outcomes)
            capped jitter rng sleepFor [] =
          (false,
            attempts
              (exponentialBackoff base maxRetries capped
                jitter rng).values maxRetries.toNat) :=
    fun hNone => run_of_late (fun i _ => hNone i)
  have hCalls :
      ∀ j, FirstTrue outcomes j →
        (exponentialRetry base maxRetries (func outcomes)
          capped jitter rng sleepFor []).2.count .call =
          min j maxRetries.toNat + 1 := by
    intro j hFirst
    rw [hFirstRun j hFirst, count_attempts, hLength]
    omega
  refine ⟨hLength, ?_, hCalls, ?_, ?_, ?_, ?_⟩
  · intro j hFirst
    rw [hFirstRun j hFirst]
  · intro hNone
    rw [hNoneRun hNone]
  · intro hNone
    rw [hNoneRun hNone, count_attempts, hLength,
      Nat.min_self]
  · intro i hTrue
    rcases exists_firstTrue hTrue with ⟨j, hFirst⟩
    have hLe := hFirst.le_of_true hTrue
    rw [hCalls j hFirst]
    omega
  · constructor
    · intro hRun
      by_cases hSome : ∃ i, outcomes i = true
      · rcases hSome with ⟨i, hTrue⟩
        rcases exists_firstTrue hTrue with ⟨j, hFirst⟩
        rw [hFirstRun j hFirst] at hRun
        exact ⟨j, by simpa using hRun, hFirst⟩
      · have hNone : ∀ i, outcomes i = false := by
          simpa using hSome
        rw [hNoneRun hNone] at hRun
        simp at hRun
    · intro hSome
      rcases hSome with ⟨j, hEarly, hFirst⟩
      rw [hFirstRun j hFirst]
      simpa using hEarly

end Retry

end Inks
