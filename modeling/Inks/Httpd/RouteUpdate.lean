import Inks.Httpd.Selection

/-
  What one more route changes. A new route takes over the
  requests whose path its key matches, as far as no longer
  key that matches is registered. The answer to every other
  request stays as it is.

  Key definitions include:
    * `HttpRouter.Takes`

  Key theorems include:
    * `HttpRouter.handlerName_add`
    * `HttpRouter.dispatch_add`
-/

------------------------------------------------------------
-- One More Route
------------------------------------------------------------

namespace Inks

namespace HttpRouter

/- A key for which no longer match is registered. -/
def Takes
    (router : HttpRouter)
    (key path : ByteString) : Prop :=
  path.head? = some Ascii.slash ∧
    Matches path key ∧
    ∀ other ∈ router.routes.keys,
      Matches path other → other.length ≤ key.length

instance
    (router : HttpRouter)
    (key path : ByteString) :
    Decidable (router.Takes key path) := by
  unfold Takes
  infer_instance

/- Keys of one length that match a path are the same. -/
theorem matches_unique
    {path key other : ByteString}
    (hRoot : path.head? = some Ascii.slash)
    (hKey : Matches path key)
    (hOther : Matches path other)
    (hLength : key.length = other.length) :
    key = other := by
  have hFirst := getElem?_root hRoot
  rcases (matches_iff_stop hFirst key).mp hKey with
    ⟨n, _, hTake, hStop⟩
  rcases (matches_iff_stop hFirst other).mp hOther with
    ⟨m, _, hTake', hStop'⟩
  rw [hTake, hTake', ← hStop, ← hStop', hLength]

theorem lookup_add
    (router : HttpRouter)
    (key name other : ByteString) :
    (router.add key name).routes.lookup other =
      if other = key then
        some name
      else
        router.routes.lookup other := by
  unfold add
  by_cases hKey : other = key
  · subst hKey
    rw [if_pos rfl]
    exact AList.lookup_insert _
  · rw [if_neg hKey]
    exact AList.lookup_insert_ne hKey

theorem isSome_lookup_iff
    (router : HttpRouter)
    (key : ByteString) :
    (router.routes.lookup key).isSome ↔
      key ∈ router.routes.keys :=
  AList.lookup_isSome.trans AList.mem_keys

/- The name of a longest match, or no name without any. -/
theorem handlerName_of_longest
    {router : HttpRouter}
    {path key name : ByteString}
    (hRoot : path.head? = some Ascii.slash)
    (hMatches : Matches path key)
    (hName : router.routes.lookup key = some name)
    (hLongest :
      ∀ other, Matches path other →
        (router.routes.lookup other).isSome →
        other.length ≤ key.length) :
    router.handlerName path path.length = name := by
  rcases router.handlerName_matches hRoot with
    ⟨found, hFound, hLookup, hLonger⟩ | ⟨_, hNone⟩
  · have hLength : found.length = key.length := by
      apply Nat.le_antisymm
      · exact hLongest found hFound (by simp [hLookup])
      · exact hLonger key hMatches (by simp [hName])
    rw [matches_unique hRoot hFound hMatches hLength, hName]
      at hLookup
    exact (Option.some.inj hLookup).symm
  · rw [hNone key hMatches] at hName
    cases hName

theorem handlerName_add
    (router : HttpRouter)
    (key name : ByteString)
    {path : ByteString}
    (hRoot : path.head? = some Ascii.slash) :
    (router.add key name).handlerName path path.length =
      if router.Takes key path then
        name
      else
        router.handlerName path path.length := by
  by_cases hTakes : router.Takes key path
  · rw [if_pos hTakes]
    rcases hTakes with ⟨_, hMatches, hLongest⟩
    apply handlerName_of_longest hRoot hMatches
    · rw [lookup_add, if_pos rfl]
    · intro other hOther hRegistered
      rw [lookup_add] at hRegistered
      split at hRegistered
      · next hSame => rw [hSame]
      · exact
          hLongest other
            ((router.isSome_lookup_iff other).mp hRegistered)
            hOther
  · rw [if_neg hTakes]
    rcases router.handlerName_matches hRoot with
      ⟨found, hFound, hLookup, hLonger⟩ | ⟨hNone, hEmpty⟩
    · -- The key does not match, or the one found is longer.
      have hNotTaken :
          ¬ (Matches path key ∧ found.length ≤ key.length) := by
        rintro ⟨hMatches, hLe⟩
        refine hTakes ⟨hRoot, hMatches, ?_⟩
        intro other hMem hOther
        exact
          (hLonger other hOther
            ((router.isSome_lookup_iff other).mpr hMem)).trans
            hLe
      have hNe : found ≠ key := by
        rintro rfl
        exact hNotTaken ⟨hFound, Nat.le_refl _⟩
      apply handlerName_of_longest hRoot hFound
      · rw [lookup_add, if_neg hNe, hLookup]
      · intro other hOther hRegistered
        rw [lookup_add] at hRegistered
        split at hRegistered
        · next hSame =>
            subst hSame
            by_contra hGt
            exact hNotTaken ⟨hOther, by omega⟩
        · exact hLonger other hOther hRegistered
    · have hUnmatched : ¬ Matches path key := by
        intro hMatches
        refine hTakes ⟨hRoot, hMatches, ?_⟩
        intro other hMem hOther
        have hSome :=
          (router.isSome_lookup_iff other).mpr hMem
        rw [hEmpty other hOther] at hSome
        cases hSome
      rw [hNone]
      rcases (router.add key name).handlerName_matches hRoot
        with ⟨found, hFound, hLookup, _⟩ | ⟨hSame, _⟩
      · have hNe : found ≠ key := by
          rintro rfl
          exact hUnmatched hFound
        rw [lookup_add, if_neg hNe, hEmpty found hFound]
          at hLookup
        cases hLookup
      · exact hSame

/-
  A new route changes the answers to the requests that it
  takes over, and of these it decides the handler alone.
-/
theorem dispatch_add
    (router : HttpRouter)
    (factory : HttpHandlerFactory)
    (key name : ByteString)
    (req : HttpRequest) :
    (router.add key name).dispatch factory req =
      if router.Takes key
          (HttpUriParser.parse req.target).2.decodedPath
      then
        answer (factory.create name) req
      else
        router.dispatch factory req := by
  rw [selects_findHandler _ factory req.target req rfl,
    selects_findHandler _ factory req.target req rfl]
  generalize
    (HttpUriParser.parse req.target).2.decodedPath = path
  by_cases hRoot : path.head? = some Ascii.slash
  · rw [findHandler_eq _ factory hRoot,
      findHandler_eq _ factory hRoot,
      handlerName_add router key name hRoot]
    split <;> rfl
  · have hTakes : ¬ router.Takes key path :=
      fun hTakes => hRoot hTakes.1
    rw [if_neg hTakes, findHandler, findHandler,
      if_pos (Or.inr hRoot), if_pos (Or.inr hRoot)]

/- A route in between takes over what is below it. -/
example :
    let router := ({} : HttpRouter).add (text "/") (text "a")
    router.Takes (text "/b") (text "/b/c") ∧
      ¬ router.Takes (text "/b") (text "/bc") ∧
      ¬ (router.add (text "/b/c") (text "d")).Takes
        (text "/b") (text "/b/c/e") := by
  decide

end HttpRouter

end Inks
