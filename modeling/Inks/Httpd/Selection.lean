import Inks.Httpd.Rejection
import Mathlib.Data.List.Induction

/-
  Which handler a request reaches. The router visits the
  path itself, then the path up to each of its slashes from
  the last one to the first, and then the root, and takes
  the first of them that is registered. This is the longest
  registered key that matches whole segments.

  Key definitions include:
    * `HttpRouter.answer`, `HttpRouter.Selects`
    * `HttpRouter.addAll`, `HttpRouter.lastAdd`
    * `HttpRouter.Matches`
    * `HttpRouter.LongestMatch`

  Key theorems include:
    * `HttpRouter.handlerName_cases`
    * `HttpRouter.matches_iff_stop`
    * `HttpRouter.handlerName_matches`
    * `HttpRouter.find_handler_longest`
-/

------------------------------------------------------------
-- Selection
------------------------------------------------------------

namespace Inks

namespace HttpRouter

/- What a request gets from a handler, or without any. -/
def answer
    (handler : Option HttpHandler)
    (req : HttpRequest) : Dispatched :=
  match handler with
  | none =>
      { response := Hlpr.internalServerError req.keepAlive
        handled := false }
  | some handler =>
      { response := handler.handleRequest req
        handled := true }

/- Every request for a target gets to a handler. -/
def Selects
    (router : HttpRouter)
    (factory : HttpHandlerFactory)
    (tgt : ByteString)
    (handler : Option HttpHandler) : Prop :=
  ∀ req : HttpRequest, req.target = tgt →
    router.dispatch factory req = answer handler req

/- The handler only depends on the decoded path. -/
theorem selects_findHandler
    (router : HttpRouter)
    (factory : HttpHandlerFactory)
    (tgt : ByteString) :
    Selects router factory tgt
      (router.findHandler factory
        (HttpUriParser.parse tgt).2.decodedPath) := by
  rintro req rfl
  rw [dispatch_eq]
  cases router.findHandler factory
      (HttpUriParser.parse req.target).2.decodedPath <;>
    rfl

end HttpRouter

end Inks

------------------------------------------------------------
-- Visited Lengths
------------------------------------------------------------

namespace Inks

namespace ByteString

/- The last position of a byte, and no later one. -/
theorem rfind_spec
    (s : ByteString)
    (c : UInt8)
    (len : Nat) :
    match s.rfind c len with
    | none => ∀ n < len, s[n]? ≠ some c
    | some n => n < len ∧ s[n]? = some c ∧
        ∀ m, n < m → m < len → s[m]? ≠ some c := by
  induction len with
  | zero => simp [rfind]
  | succ len ih =>
      unfold rfind
      by_cases hHere : s[len]? = some c
      · rw [if_pos hHere]
        refine ⟨Nat.lt_succ_self len, hHere, ?_⟩
        intro m hGt hLt
        omega
      · rw [if_neg hHere]
        cases hFound : s.rfind c len with
        | none =>
            rw [hFound] at ih
            intro n hLt
            rcases Nat.lt_succ_iff_lt_or_eq.mp hLt with
              hLt | rfl
            · exact ih n hLt
            · exact hHere
        | some n =>
            rw [hFound] at ih
            rcases ih with ⟨hLt, hByte, hLast⟩
            refine ⟨by omega, hByte, ?_⟩
            intro m hGt hLe
            rcases Nat.lt_succ_iff_lt_or_eq.mp hLe with
              hLe | rfl
            · exact hLast m hGt hLe
            · exact hHere

end ByteString

namespace HttpRouter

/-
  The lengths at which the search looks, from a length on:
  that one, and below it every slash and the root.
-/
def Stop
    (path : ByteString)
    (len n : Nat) : Prop :=
  n = len ∨
    (0 < n ∧ n < len ∧
      (n = 1 ∨ path[n]? = some Ascii.slash))

/- Below a stop the search goes on to the next one. -/
theorem stop_next
    {path : ByteString}
    {len lastSlash n : Nat}
    (hLast : lastSlash < len)
    (hSlash : path[lastSlash]? = some Ascii.slash)
    (hNone :
      ∀ m, lastSlash < m → m < len →
        path[m]? ≠ some Ascii.slash)
    (hLen : len ≠ 1) :
    Stop path len n ↔
      n = len ∨
        Stop path
          (if lastSlash = 0 then 1 else lastSlash) n := by
  unfold Stop
  by_cases hZero : lastSlash = 0
  · subst hZero
    rw [if_pos rfl]
    constructor
    · rintro (hEq | ⟨hPos, hLt, hOne | hByte⟩)
      · exact Or.inl hEq
      · exact Or.inr (Or.inl hOne)
      · exact absurd hByte (hNone n hPos hLt)
    · rintro (hEq | hOne | ⟨hPos, hLt, _⟩)
      · exact Or.inl hEq
      · exact Or.inr ⟨by omega, by omega, Or.inl hOne⟩
      · omega
  · rw [if_neg hZero]
    constructor
    · rintro (hEq | ⟨hPos, hLt, hOne | hByte⟩)
      · exact Or.inl hEq
      · by_cases hEq : n = lastSlash
        · exact Or.inr (Or.inl hEq)
        · exact
            Or.inr
              (Or.inr ⟨hPos, by omega, Or.inl hOne⟩)
      · have hLe : ¬ lastSlash < n :=
          fun hGt => hNone n hGt hLt hByte
        by_cases hEq : n = lastSlash
        · exact Or.inr (Or.inl hEq)
        · exact
            Or.inr
              (Or.inr ⟨hPos, by omega, Or.inr hByte⟩)
    · rintro (hEq | rfl | ⟨hPos, hLt, hByte⟩)
      · exact Or.inl hEq
      · exact Or.inr ⟨by omega, hLast, Or.inr hSlash⟩
      · exact Or.inr ⟨hPos, by omega, hByte⟩

/- One round of the search, when nothing is registered. -/
theorem handlerName_round
    {router : HttpRouter}
    {path : ByteString}
    {len : Nat}
    (hNone : router.routes.lookup (path.take len) = none)
    (hLen : len ≠ 1) :
    router.handlerName path len =
      match path.rfind Ascii.slash len with
      | none => []
      | some lastSlash =>
          if lastSlash = 0 then
            router.handlerName path 1
          else
            router.handlerName path lastSlash := by
  rw [handlerName, hNone]
  simp only [if_neg hLen]
  split <;> rename_i hFound <;> rw [hFound]

/- The round goes on with the next prefix to look at. -/
theorem handlerName_next
    (router : HttpRouter)
    {path : ByteString}
    (hRoot : path[0]? = some Ascii.slash)
    {len : Nat}
    (hPos : 0 < len)
    (hNone : router.routes.lookup (path.take len) = none)
    (hLen : len ≠ 1) :
    ∃ next, 0 < next ∧ next < len ∧
      router.handlerName path len =
        router.handlerName path next ∧
      ∀ n, Stop path len n ↔ n = len ∨ Stop path next n := by
  have hSpec := ByteString.rfind_spec path Ascii.slash len
  have hRound := handlerName_round hNone hLen
  cases hFound : path.rfind Ascii.slash len with
  | none =>
      rw [hFound] at hSpec
      exact absurd hRoot (hSpec 0 hPos)
  | some lastSlash =>
      rw [hFound] at hSpec hRound
      rcases hSpec with ⟨hLast, hSlash, hLater⟩
      refine
        ⟨if lastSlash = 0 then 1 else lastSlash,
          ?_, ?_, ?_, ?_⟩
      · split <;> omega
      · split <;> omega
      · by_cases hZero : lastSlash = 0 <;>
          simp [hRound, hZero]
      · intro n
        exact stop_next hLast hSlash hLater hLen

/-
  The name that the search comes to is the one registered
  for the longest visited prefix, and it is empty when none
  of them is registered.
-/
theorem handlerName_cases
    (router : HttpRouter)
    {path : ByteString}
    (hRoot : path[0]? = some Ascii.slash)
    {len : Nat}
    (hPos : 0 < len) :
    (∃ n name, Stop path len n ∧
        router.routes.lookup (path.take n) = some name ∧
        router.handlerName path len = name ∧
        ∀ m, Stop path len m → n < m →
          router.routes.lookup (path.take m) = none) ∨
      (router.handlerName path len = [] ∧
        ∀ m, Stop path len m →
          router.routes.lookup (path.take m) = none) := by
  induction len using Nat.strong_induction_on with
  | _ len ih =>
      cases hHere : router.routes.lookup (path.take len) with
      | some name =>
          refine Or.inl ⟨len, name, Or.inl rfl, hHere, ?_, ?_⟩
          · rw [handlerName, hHere]
          · rintro m (rfl | ⟨_, hLt, _⟩) hGt
            · omega
            · omega
      | none =>
          by_cases hLen : len = 1
          · refine Or.inr ⟨?_, ?_⟩
            · rw [handlerName, hHere, if_pos hLen]
            · rintro m (rfl | ⟨hLow, hHigh, _⟩)
              · exact hHere
              · omega
          · rcases router.handlerName_next hRoot hPos hHere
                hLen with
              ⟨next, hNext, hLt, hRound, hStop⟩
            rw [hRound]
            rcases ih next hLt hNext with
              ⟨n, name, hHit, hName, hResult, hLonger⟩ |
                ⟨hResult, hNone⟩
            · refine Or.inl
                ⟨n, name, (hStop n).mpr (Or.inr hHit),
                  hName, hResult, ?_⟩
              intro m hVisited hGt
              rcases (hStop m).mp hVisited with
                rfl | hVisited
              · exact hHere
              · exact hLonger m hVisited hGt
            · refine Or.inr ⟨hResult, ?_⟩
              intro m hVisited
              rcases (hStop m).mp hVisited with
                rfl | hVisited
              · exact hHere
              · exact hNone m hVisited

end HttpRouter

end Inks

------------------------------------------------------------
-- Route Tables
------------------------------------------------------------

namespace Inks

namespace HttpRouter

/- The table that a sequence of `add` calls builds. -/
def addAll
    (router : HttpRouter)
    (adds : List (ByteString × ByteString)) : HttpRouter :=
  adds.foldl
    (fun router call => router.add call.1 call.2) router

/- The name of the last call for a path. -/
def lastAdd
    (adds : List (ByteString × ByteString))
    (path : ByteString) : Option ByteString :=
  ((adds.filter (fun call => call.1 == path)).getLast?).map
    Prod.snd

theorem addAll_concat
    (router : HttpRouter)
    (adds : List (ByteString × ByteString))
    (call : ByteString × ByteString) :
    router.addAll (adds ++ [call]) =
      (router.addAll adds).add call.1 call.2 := by
  simp [addAll]

theorem lastAdd_concat
    (adds : List (ByteString × ByteString))
    (call : ByteString × ByteString)
    (path : ByteString) :
    lastAdd (adds ++ [call]) path =
      if call.1 = path then
        some call.2
      else
        lastAdd adds path := by
  unfold lastAdd
  rw [List.filter_append]
  by_cases hPath : call.1 = path <;> simp [hPath]

theorem lookup_addAll
    (adds : List (ByteString × ByteString))
    (path : ByteString) :
    (addAll {} adds).routes.lookup path =
      lastAdd adds path := by
  induction adds using List.reverseRecOn with
  | nil => rfl
  | append_singleton adds call ih =>
      rw [lastAdd_concat, addAll_concat, add]
      by_cases hPath : call.1 = path
      · subst hPath
        rw [if_pos rfl]
        exact AList.lookup_insert _
      · rw [if_neg hPath, ← ih]
        exact AList.lookup_insert_ne (Ne.symm hPath)

end HttpRouter

end Inks

------------------------------------------------------------
-- Longest Matches
------------------------------------------------------------

namespace Inks

namespace HttpRouter

/-
  A key matches a path when it is the path, or a part of it
  in front of a slash, or the root.
-/
def Matches
    (path key : ByteString) : Prop :=
  key ≠ [] ∧
    (key = path ∨
      (key <+: path ∧
        path[key.length]? = some Ascii.slash) ∨
      key = [Ascii.slash])

instance
    (path key : ByteString) :
    Decidable (Matches path key) := by
  unfold Matches
  infer_instance

/- A matching key that is registered, and none is longer. -/
def LongestMatch
    (adds : List (ByteString × ByteString))
    (path key : ByteString) : Prop :=
  Matches path key ∧ (lastAdd adds key).isSome ∧
    ∀ other, Matches path other →
      (lastAdd adds other).isSome →
      other.length ≤ key.length

/- The search looks at exactly the keys that match. -/
theorem matches_iff_stop
    {path : ByteString}
    (hRoot : path[0]? = some Ascii.slash)
    (key : ByteString) :
    Matches path key ↔
      ∃ n, Stop path path.length n ∧ key = path.take n ∧
        key.length = n := by
  have hPos : 0 < path.length :=
    (List.getElem?_eq_some_iff.mp hRoot).1
  have hTake : path.take 1 = [Ascii.slash] := by
    cases path with
    | nil => simp at hRoot
    | cons c rest => simpa using hRoot
  constructor
  · rintro ⟨hNonempty, rfl | ⟨hPrefix, hByte⟩ | rfl⟩
    · exact ⟨key.length, Or.inl rfl, by simp, rfl⟩
    · have hLt : key.length < path.length :=
        (List.getElem?_eq_some_iff.mp hByte).1
      have hKey : 0 < key.length :=
        List.length_pos_of_ne_nil hNonempty
      exact
        ⟨key.length, Or.inr ⟨hKey, hLt, Or.inr hByte⟩,
          List.prefix_iff_eq_take.mp hPrefix, rfl⟩
    · refine ⟨1, ?_, hTake.symm, rfl⟩
      by_cases hOne : 1 = path.length
      · exact Or.inl hOne
      · exact Or.inr ⟨Nat.one_pos, by omega, Or.inl rfl⟩
  · rintro ⟨n, hStop, rfl, hLength⟩
    rcases hStop with rfl | ⟨hLow, hHigh, hOne | hByte⟩
    · refine ⟨?_, Or.inl (by simp)⟩
      exact List.ne_nil_of_length_pos (by omega)
    · subst hOne
      refine ⟨?_, Or.inr (Or.inr hTake)⟩
      exact List.ne_nil_of_length_pos (by omega)
    · refine ⟨?_, Or.inr (Or.inl ⟨?_, ?_⟩)⟩
      · exact List.ne_nil_of_length_pos (by omega)
      · exact List.take_prefix n path
      · rw [hLength]
        exact hByte

/-
  The search picks the handler that was added last for the
  longest registered key that matches, and there is one such
  key when any matches. When none does it finds no handler,
  unless one is registered under the empty name.
-/
def PicksLongest
    (adds : List (ByteString × ByteString))
    (factory : HttpHandlerFactory)
    (path : ByteString) : Prop :=
  (∀ key name, LongestMatch adds path key →
      lastAdd adds key = some name →
      (addAll {} adds).findHandler factory path =
        factory.create name) ∧
    ((∃ key, Matches path key ∧ (lastAdd adds key).isSome) →
      ∃ key, LongestMatch adds path key) ∧
    ((∀ key, Matches path key → lastAdd adds key = none) →
      factory.create [] = none →
      (addAll {} adds).findHandler factory path = none)

/- A path from the root has a handler by its name. -/
theorem findHandler_eq
    (router : HttpRouter)
    (factory : HttpHandlerFactory)
    {path : ByteString}
    (hRoot : path.head? = some Ascii.slash) :
    router.findHandler factory path =
      factory.create
        (router.handlerName path path.length) := by
  unfold findHandler
  cases path with
  | nil => simp at hRoot
  | cons c rest =>
      rw [if_neg]
      rintro (hEmpty | hOther)
      · simp at hEmpty
      · exact hOther hRoot

/- A path from the root begins with a slash. -/
theorem getElem?_root
    {path : ByteString}
    (hRoot : path.head? = some Ascii.slash) :
    path[0]? = some Ascii.slash := by
  rw [← List.head?_eq_getElem?]
  exact hRoot

/-
  Either the search finds the name of the longest match, or
  no key that matches is registered and it finds no name.
-/
theorem handlerName_matches
    (router : HttpRouter)
    {path : ByteString}
    (hRoot : path.head? = some Ascii.slash) :
    (∃ key, Matches path key ∧
        router.routes.lookup key =
          some (router.handlerName path path.length) ∧
        ∀ other, Matches path other →
          (router.routes.lookup other).isSome →
          other.length ≤ key.length) ∨
      (router.handlerName path path.length = [] ∧
        ∀ key, Matches path key →
          router.routes.lookup key = none) := by
  have hFirst := getElem?_root hRoot
  have hPos : 0 < path.length :=
    (List.getElem?_eq_some_iff.mp hFirst).1
  rcases router.handlerName_cases hFirst hPos with
    ⟨n, name, hStop, hName, hResult, hLonger⟩ |
      ⟨hResult, hNone⟩
  · have hLength : (path.take n).length = n := by
      rcases hStop with rfl | ⟨_, hLt, _⟩
      · simp
      · rw [List.length_take]
        omega
    refine Or.inl ⟨path.take n, ?_, ?_, ?_⟩
    · exact
        (matches_iff_stop hFirst _).mpr
          ⟨n, hStop, rfl, hLength⟩
    · rw [hResult, hName]
    · intro other hMatches hRegistered
      rcases (matches_iff_stop hFirst other).mp hMatches with
        ⟨m, hVisited, rfl, hOther⟩
      by_contra hGt
      rw [hLength, hOther, Nat.not_le] at hGt
      rw [hLonger m hVisited hGt] at hRegistered
      cases hRegistered
  · refine Or.inr ⟨hResult, ?_⟩
    intro key hMatches
    rcases (matches_iff_stop hFirst key).mp hMatches with
      ⟨m, hVisited, rfl, _⟩
    exact hNone m hVisited

/- The same in terms of the calls that built the table. -/
theorem handlerName_addAll
    (adds : List (ByteString × ByteString))
    {path : ByteString}
    (hRoot : path.head? = some Ascii.slash) :
    (∃ key, LongestMatch adds path key ∧
        lastAdd adds key =
          some ((addAll {} adds).handlerName path
            path.length)) ∨
      ((addAll {} adds).handlerName path path.length = [] ∧
        ∀ key, Matches path key →
          lastAdd adds key = none) := by
  have hSearch := handlerName_matches (addAll {} adds) hRoot
  simp only [lookup_addAll] at hSearch
  rcases hSearch with
    ⟨key, hMatches, hName, hLongest⟩ | hNone
  · refine Or.inl ⟨key, ⟨hMatches, ?_, hLongest⟩, hName⟩
    rw [hName]
    rfl
  · exact Or.inr hNone

/- Two longest matches are the same part of the path. -/
theorem LongestMatch.unique
    {adds : List (ByteString × ByteString)}
    {path key other : ByteString}
    (hRoot : path.head? = some Ascii.slash)
    (hKey : LongestMatch adds path key)
    (hOther : LongestMatch adds path other) :
    key = other := by
  have hFirst := getElem?_root hRoot
  have hSame : key.length = other.length :=
    Nat.le_antisymm (hOther.2.2 key hKey.1 hKey.2.1)
      (hKey.2.2 other hOther.1 hOther.2.1)
  rcases (matches_iff_stop hFirst key).mp hKey.1 with
    ⟨n, _, hTake, hLength⟩
  rcases (matches_iff_stop hFirst other).mp hOther.1 with
    ⟨m, _, hTake', hLength'⟩
  rw [hTake, hTake', ← hLength, ← hLength', hSame]

theorem find_handler_longest
    (adds : List (ByteString × ByteString))
    (factory : HttpHandlerFactory)
    {path : ByteString}
    (hRoot : path.head? = some Ascii.slash) :
    PicksLongest adds factory path := by
  unfold PicksLongest
  rw [findHandler_eq _ factory hRoot]
  rcases handlerName_addAll adds hRoot with
    ⟨key, hLongest, hName⟩ | ⟨hEmpty, hNone⟩
  · refine ⟨?_, ?_, ?_⟩
    · intro other name hOther hLast
      rw [hOther.unique hRoot hLongest, hName] at hLast
      rw [Option.some.inj hLast]
    · intro _
      exact ⟨key, hLongest⟩
    · intro hNone _
      rw [hNone key hLongest.1] at hName
      cases hName
  · refine ⟨?_, ?_, ?_⟩
    · intro other name hOther hLast
      rw [hNone other hOther.1] at hLast
      cases hLast
    · rintro ⟨other, hMatches, hRegistered⟩
      rw [hNone other hMatches] at hRegistered
      cases hRegistered
    · intro _ hUnnamed
      rw [hEmpty]
      exact hUnnamed

/- A handler whose answer tells its name. -/
def namedHandler
    (name : ByteString) : HttpHandler where
  handleGetI := fun req =>
    { status := .notFound
      keepAlive := req.keepAlive
      contentType := text "text/plain"
      body := name }

def namedHandlers
    (names : List ByteString) : HttpHandlerFactory :=
  names.foldl
    (fun factory name =>
      factory.registerHandler name (namedHandler name)) {}

/- A trailing slash and a longer name for a nested path. -/
theorem find_handler_longest_nested :
    PicksLongest
      [(text "/api", text "old"), (text "/api/v1", text "v1"),
        (text "/api", text "api")]
      (namedHandlers [text "old", text "v1", text "api"])
      (text "/api/v1//users/") :=
  find_handler_longest _ _ (by decide)

end HttpRouter

end Inks
