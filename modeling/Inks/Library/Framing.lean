import Mathlib.Data.List.Induction

/-
  Messages on a stream. A reader is an incremental parser
  over a buffer: it takes bytes off the buffer until it has
  a message, and what follows the message stays buffered.

  Key definitions include:
    * `Framing.Reader`
    * `Framing.Reader.readAll`
    * `Framing.Reader.Frames`
    * `Framing.bytewise`

  Key theorems include:
    * `Framing.Reader.readAll_cases`
    * `Framing.frames_bytewise`
-/

------------------------------------------------------------
-- Readers
------------------------------------------------------------

namespace Framing

/-
  Parsers with states in `P` of messages in `M`. What `put`
  is given are the buffered bytes, and what it returns are
  the bytes that it leaves in the buffer.
-/
structure Reader
    (B P M : Type*) where
  fresh : P
  put : P → List B → P × List B
  message : P → Option M
  -- The parser when its message has been taken from it.
  release : P → P

namespace Reader

variable {B P M : Type*}

/-
  New bytes go behind the buffered ones, and a parser
  without a message is given all of them, if there are any.
-/
def feed
    (reader : Reader B P M)
    (state : P × List B)
    (chunk : List B) : P × List B :=
  if (reader.message state.1).isSome ∨
      (state.2 ++ chunk).isEmpty then
    (state.1, state.2 ++ chunk)
  else
    reader.put state.1 (state.2 ++ chunk)

/- A fresh parser and its buffer after some reads. -/
def readAll
    (reader : Reader B P M)
    (chunks : List (List B)) : P × List B :=
  chunks.foldl reader.feed (reader.fresh, [])

/-
  The bytes are one message: however they are cut into
  reads, a fresh parser has the message as soon as it has
  seen all of them, and leaves what follows in the buffer.
-/
structure Frames
    (reader : Reader B P M)
    (bytes : List B)
    (m : M) : Prop where
  early :
    ∀ chunks : List (List B), chunks.flatten <+: bytes →
      chunks.flatten ≠ bytes →
      reader.message (reader.readAll chunks).1 = none
  whole :
    ∀ (chunks : List (List B)) (later : List B),
      chunks.flatten = bytes ++ later →
      reader.message (reader.readAll chunks).1 = some m ∧
        (reader.readAll chunks).2 = later

theorem readAll_concat
    (reader : Reader B P M)
    (chunks : List (List B))
    (chunk : List B) :
    reader.readAll (chunks ++ [chunk]) =
      reader.feed (reader.readAll chunks) chunk := by
  simp [readAll]

/- What a fresh parser makes of a buffer. -/
theorem readAll_singleton
    (reader : Reader B P M)
    (buff : List B) :
    reader.readAll [buff] =
      reader.feed (reader.fresh, buff) [] := by
  simp [readAll, feed]

/- Without any bytes the parser stays fresh. -/
theorem readAll_of_flatten_eq_nil
    (reader : Reader B P M)
    {chunks : List (List B)}
    (hNil : chunks.flatten = []) :
    reader.readAll chunks = (reader.fresh, []) := by
  induction chunks with
  | nil => rfl
  | cons chunk chunks ih =>
      rw [List.flatten_cons, List.append_eq_nil_iff] at hNil
      have hFeed :
          reader.feed (reader.fresh, []) chunk =
            (reader.fresh, []) := by
        simp [feed, hNil.1]
      have hRest := ih hNil.2
      unfold readAll at hRest ⊢
      rw [List.foldl_cons, hFeed, hRest]

/-
  On a stream that begins with a message, either the parser
  does not have it yet and some of its bytes are to come, or
  it has it and the buffer goes on behind it.
-/
theorem readAll_cases
    {reader : Reader B P M}
    {bytes : List B}
    {m : M}
    (hFrames : reader.Frames bytes m)
    {chunks : List (List B)}
    {incoming later : List B}
    (hStream :
      chunks.flatten ++ incoming = bytes ++ later) :
    (reader.message (reader.readAll chunks).1 = none ∧
        incoming ≠ []) ∨
      (reader.message (reader.readAll chunks).1 = some m ∧
        (reader.readAll chunks).2 ++ incoming = later) := by
  rcases List.append_eq_append_iff.mp hStream with
    ⟨missing, hBytes, hIncoming⟩ |
      ⟨extra, hChunks, hLater⟩
  · by_cases hMissing : missing = []
    · subst hMissing
      rcases hFrames.whole chunks [] (by simp [hBytes]) with
        ⟨hMessage, hLeft⟩
      refine Or.inr ⟨hMessage, ?_⟩
      rw [hLeft, hIncoming]
      rfl
    · refine Or.inl ⟨hFrames.early chunks ?_ ?_, ?_⟩
      · rw [hBytes]
        exact List.prefix_append _ _
      · intro hAll
        rw [← hAll] at hBytes
        exact hMissing (List.self_eq_append_right.mp hBytes)
      · rw [hIncoming]
        simp [hMissing]
  · rcases hFrames.whole chunks extra hChunks with
      ⟨hMessage, hLeft⟩
    refine Or.inr ⟨hMessage, ?_⟩
    rw [hLeft, hLater]

end Reader

end Framing

------------------------------------------------------------
-- Readers That Take Byte After Byte
------------------------------------------------------------

namespace Framing

variable {B M : Type*}

/- Take bytes until those taken are a message. -/
def putBytes
    (complete : List B → Option M)
    (taken : List B) : List B → List B × List B
| [] => (taken, [])
| b :: later =>
    if (complete (taken ++ [b])).isSome then
      (taken ++ [b], later)
    else
      putBytes complete (taken ++ [b]) later

/- The reader of the messages that a function tells. -/
def bytewise
    (complete : List B → Option M) :
    Reader B (List B) M where
  fresh := []
  put := putBytes complete
  message := complete
  release := id

/-
  What was taken and what is left make up the stream, and
  nothing is taken behind a message.
-/
structure Taken
    (complete : List B → Option M)
    (stream : List B)
    (state : List B × List B) : Prop where
  stream_eq : state.1 ++ state.2 = stream
  first : ∀ before, before <+: state.1 → before ≠ state.1 →
    complete before = none
  left : state.2 ≠ [] → (complete state.1).isSome

theorem taken_putBytes
    {complete : List B → Option M}
    {taken : List B}
    (hFirst : ∀ before, before <+: taken →
      before ≠ taken → complete before = none)
    (hTaken : complete taken = none)
    (later : List B) :
    Taken complete (taken ++ later)
      (putBytes complete taken later) := by
  induction later generalizing taken with
  | nil =>
      exact
        { stream_eq := rfl
          first := hFirst
          left := fun hLeft => absurd rfl hLeft }
  | cons b later ih =>
      have hBefore : ∀ before, before <+: taken ++ [b] →
          before ≠ taken ++ [b] →
          complete before = none := by
        intro before hPrefix hNe
        rcases List.prefix_concat_iff.mp hPrefix with
          hEq | hShort
        · exact absurd hEq hNe
        · by_cases hAll : before = taken
          · rw [hAll]
            exact hTaken
          · exact hFirst before hShort hAll
      unfold putBytes
      by_cases hDone : (complete (taken ++ [b])).isSome
      · rw [if_pos hDone]
        exact
          { stream_eq := by simp
            first := hBefore
            left := fun _ => hDone }
      · rw [if_neg hDone]
        have hRest := ih hBefore (by simpa using hDone)
        rw [List.append_assoc] at hRest
        exact hRest

theorem taken_feed
    {complete : List B → Option M}
    {stream : List B}
    {state : List B × List B}
    (hTaken : Taken complete stream state)
    (chunk : List B) :
    Taken complete (stream ++ chunk)
      ((bytewise complete).feed state chunk) := by
  rw [← hTaken.stream_eq, List.append_assoc]
  unfold Reader.feed
  split
  · rename_i hStay
    exact
      { stream_eq := rfl
        first := hTaken.first
        left := by
          intro hLeft
          rcases hStay with hDone | hEmpty
          · exact hDone
          · exact absurd (List.isEmpty_iff.mp hEmpty) hLeft }
  · rename_i hPut
    rw [not_or] at hPut
    exact
      taken_putBytes hTaken.first
        (Option.not_isSome_iff_eq_none.mp hPut.1) _

theorem taken_readAll
    (complete : List B → Option M)
    (chunks : List (List B)) :
    Taken complete chunks.flatten
      ((bytewise complete).readAll chunks) := by
  induction chunks using List.reverseRecOn with
  | nil =>
      exact
        { stream_eq := rfl
          first := by
            intro before hPrefix hNe
            exact absurd (List.prefix_nil.mp hPrefix) hNe
          left := fun hLeft => absurd rfl hLeft }
  | append_singleton chunks chunk ih =>
      rw [Reader.readAll_concat, List.flatten_concat]
      exact taken_feed ih chunk

/-
  Bytes are a message of this reader when the function tells
  so of them and of no shorter beginning.
-/
theorem frames_bytewise
    {complete : List B → Option M}
    {bytes : List B}
    {m : M}
    (hWhole : complete bytes = some m)
    (hFirst :
      ∀ n < bytes.length, complete (bytes.take n) = none) :
    (bytewise complete).Frames bytes m := by
  have hBefore : ∀ before, before <+: bytes →
      before ≠ bytes → complete before = none := by
    intro before hPrefix hNe
    rw [List.prefix_iff_eq_take.mp hPrefix]
    apply hFirst
    apply Nat.lt_of_le_of_ne hPrefix.length_le
    intro hLength
    exact hNe (hPrefix.eq_of_length hLength)
  refine { early := ?_, whole := ?_ }
  · intro chunks hPrefix hNe
    have hTaken := taken_readAll complete chunks
    have hShort : ((bytewise complete).readAll chunks).1 <+:
        chunks.flatten := ⟨_, hTaken.stream_eq⟩
    apply hBefore _ (hShort.trans hPrefix)
    intro hEq
    apply hNe
    exact hPrefix.eq_of_length_le
      (hEq ▸ hShort.length_le)
  · intro chunks later hStream
    have hTaken := taken_readAll complete chunks
    rw [hStream] at hTaken
    rcases List.append_eq_append_iff.mp hTaken.stream_eq with
      ⟨missing, hBytes, hLeft⟩ | ⟨extra, hTook, hLater⟩
    · by_cases hMissing : missing = []
      · subst hMissing
        rw [List.append_nil] at hBytes
        rw [hLeft, ← hBytes]
        exact ⟨hWhole, rfl⟩
      · have hSome := hTaken.left (by simp [hLeft, hMissing])
        rw [hBefore] at hSome
        · cases hSome
        · rw [hBytes]
          exact List.prefix_append _ _
        · intro hEq
          rw [hEq] at hBytes
          exact hMissing (List.self_eq_append_right.mp hBytes)
    · by_cases hExtra : extra = []
      · subst hExtra
        rw [List.append_nil] at hTook
        rw [hLater, hTook]
        exact ⟨hWhole, rfl⟩
      · have hNone := hTaken.first bytes
        rw [hTook] at hNone
        rw [hNone (List.prefix_append _ _)] at hWhole
        · cases hWhole
        · intro hEq
          exact hExtra (List.self_eq_append_right.mp hEq)

end Framing
