import Inks.Httpd.Targets
import Inks.Httpd.Rejection

/-
  Parsing a query gives back the pairs that were written in
  it, in whichever way they were written.

  Key definitions include:
    * `KeySpelling`, `ValueSpelling`
    * `PairText`
    * `QueryText`

  Key theorems include:
    * `tokenize_append`
    * `HttpUriParser.parseToken_of_pairText`
    * `HttpUriParser.parse_query_text`
-/

------------------------------------------------------------
-- Queries as They Are Written
------------------------------------------------------------

namespace Inks

/-
  The ways to write a key: `%`, `&`, `+` and `=` are always
  escaped, any other byte may be, and a space may be a plus.
-/
def KeySpelling
    (key src : ByteString) : Prop :=
  Spelling
    (fun c => c ∉ [Ascii.percent, Ascii.ampersand,
      Ascii.plus, Ascii.equals])
    true key src

/- In a value an equals sign may stand for itself. -/
def ValueSpelling
    (value src : ByteString) : Prop :=
  Spelling
    (fun c => c ∉ [Ascii.percent, Ascii.ampersand,
      Ascii.plus])
    true value src

/- A pair as a token; the key alone may stand for a flag. -/
inductive PairText :
    ByteString × ByteString → ByteString → Prop where
| both
    {key value keySrc valueSrc : ByteString}
    (hKey : KeySpelling key keySrc)
    (hValue : ValueSpelling value valueSrc) :
    PairText (key, value)
      (keySrc ++ Ascii.equals :: valueSrc)
| flag
    {key keySrc : ByteString}
    (hNonempty : key ≠ [])
    (hKey : KeySpelling key keySrc) :
    PairText (key, []) keySrc

/-
  Pairs with ampersands between them, one or more, and any
  number of them at both ends.
-/
inductive QueryText :
    List (ByteString × ByteString) → ByteString → Prop where
| nil : QueryText [] []
| ampersand
    {pairs : List (ByteString × ByteString)}
    {query : ByteString}
    (hRest : QueryText pairs query) :
    QueryText pairs (Ascii.ampersand :: query)
| last
    {pair : ByteString × ByteString}
    {token : ByteString}
    (hPair : PairText pair token) :
    QueryText [pair] token
| cons
    {pair : ByteString × ByteString}
    {pairs : List (ByteString × ByteString)}
    {token query : ByteString}
    (hPair : PairText pair token)
    (hRest : QueryText pairs query) :
    QueryText (pair :: pairs)
      (token ++ Ascii.ampersand :: query)

end Inks

------------------------------------------------------------
-- Tokens
------------------------------------------------------------

namespace Inks

/- A delimiter in front yields no token. -/
theorem tokenize_delimiter
    (delim : UInt8)
    (input : ByteString) :
    tokenize (delim :: input) [delim] =
      tokenize input [delim] := by
  unfold tokenize
  rw [List.splitOnP_cons_eq_if_modifyHead]
  simp

theorem not_delimiter
    {delim : UInt8}
    {token : ByteString}
    (hToken : delim ∉ token) :
    ∀ c ∈ token, [delim].contains c = false := by
  intro c hMem
  have hNe : c ≠ delim := by
    rintro rfl
    exact hToken hMem
  simp [hNe]

/- What stands in front of a delimiter is a token. -/
theorem tokenize_append
    {delim : UInt8}
    {token : ByteString}
    (hToken : delim ∉ token)
    (hNonempty : token ≠ [])
    (input : ByteString) :
    tokenize (token ++ delim :: input) [delim] =
      token :: tokenize input [delim] := by
  unfold tokenize
  rw [List.splitOnP_append_cons_of_forall_mem
    (not_delimiter hToken) delim (by simp),
    List.filter_cons_of_pos (by simpa using hNonempty)]

theorem tokenize_single
    {delim : UInt8}
    {token : ByteString}
    (hToken : delim ∉ token)
    (hNonempty : token ≠ []) :
    tokenize token [delim] = [token] := by
  unfold tokenize
  rw [List.splitOnP_eq_singleton (not_delimiter hToken)]
  simp [hNonempty]

end Inks

------------------------------------------------------------
-- Parsing What Was Written
------------------------------------------------------------

namespace Inks

/- The bytes that may stand for themselves in a value. -/
theorem legal_of_notMem
    {c : UInt8}
    {escaped : List UInt8}
    (hPercent : Ascii.percent ∈ escaped)
    (hPlus : Ascii.plus ∈ escaped)
    (hNotMem : c ∉ escaped) :
    c ≠ Ascii.percent ∧ (true = true → c ≠ Ascii.plus) := by
  constructor
  · rintro rfl
    exact hNotMem hPercent
  · rintro _ rfl
    exact hNotMem hPlus

theorem KeySpelling.decodeQuery_eq
    {key src : ByteString}
    (hKey : KeySpelling key src) :
    Hlpr.decodeQueryOrClear src = key := by
  have hDecoded :=
    Hlpr.decodePercent_of_spelling
      { slash := true, space := true } hKey rfl id
      (fun _ h => legal_of_notMem (by simp) (by simp) h)
  rw [Hlpr.decodeQueryOrClear, Hlpr.decodeQuery, hDecoded]
  rfl

theorem ValueSpelling.decodeQuery_eq
    {value src : ByteString}
    (hValue : ValueSpelling value src) :
    Hlpr.decodeQueryOrClear src = value := by
  have hDecoded :=
    Hlpr.decodePercent_of_spelling
      { slash := true, space := true } hValue rfl id
      (fun _ h => legal_of_notMem (by simp) (by simp) h)
  rw [Hlpr.decodeQueryOrClear, Hlpr.decodeQuery, hDecoded]
  rfl

theorem KeySpelling.equals_notMem
    {key src : ByteString}
    (hKey : KeySpelling key src) :
    Ascii.equals ∉ src :=
  Spelling.notMem hKey (by simp) (by decide) (by decide)
    (by decide)

theorem KeySpelling.ampersand_notMem
    {key src : ByteString}
    (hKey : KeySpelling key src) :
    Ascii.ampersand ∉ src :=
  Spelling.notMem hKey (by simp) (by decide) (by decide)
    (by decide)

theorem ValueSpelling.ampersand_notMem
    {value src : ByteString}
    (hValue : ValueSpelling value src) :
    Ascii.ampersand ∉ src :=
  Spelling.notMem hValue (by simp) (by decide) (by decide)
    (by decide)

namespace PairText

variable {pair : ByteString × ByteString}
variable {token : ByteString}

theorem ampersand_notMem
    (hPair : PairText pair token) :
    Ascii.ampersand ∉ token := by
  cases hPair with
  | both hKey hValue =>
      intro hMem
      rcases List.mem_append.mp hMem with hMem | hMem
      · exact hKey.ampersand_notMem hMem
      · rcases List.mem_cons.mp hMem with hEq | hMem
        · exact absurd hEq (by decide)
        · exact hValue.ampersand_notMem hMem
  | flag _ hKey => exact hKey.ampersand_notMem

/- A written pair is never dropped as an empty token. -/
theorem ne_nil
    (hPair : PairText pair token) :
    token ≠ [] := by
  cases hPair with
  | both _ _ => simp
  | flag hNonempty hKey =>
      intro hEmpty
      exact hNonempty (Spelling.eq_nil_iff hKey |>.mp hEmpty)

end PairText

namespace HttpUriParser

/- A token is split at its first equals sign. -/
theorem parseToken_of_pairText
    {pair : ByteString × ByteString}
    {token : ByteString}
    (hPair : PairText pair token) :
    parseToken token = pair := by
  cases hPair with
  | both hKey hValue =>
      rw [parseToken,
        ByteString.find_append hKey.equals_notMem]
      simp [hKey.decodeQuery_eq, hValue.decodeQuery_eq]
  | flag _ hKey =>
      rw [parseToken,
        ByteString.find_eq_none hKey.equals_notMem]
      simp [hKey.decodeQuery_eq]

theorem parseTokens_of_queryText
    {pairs : List (ByteString × ByteString)}
    {query : ByteString}
    (hQuery : QueryText pairs query) :
    (tokenize query [Ascii.ampersand]).map parseToken =
      pairs := by
  induction hQuery with
  | nil => decide
  | ampersand _ ih => rw [tokenize_delimiter, ih]
  | last hPair =>
      rw [tokenize_single hPair.ampersand_notMem
        hPair.ne_nil, List.map_singleton,
        parseToken_of_pairText hPair]
  | cons hPair _ ih =>
      rw [tokenize_append hPair.ampersand_notMem
        hPair.ne_nil, List.map_cons, ih,
        parseToken_of_pairText hPair]

/-
  Whatever stands in front of the first question mark, the
  parameters are the pairs that the query was written for.
-/
theorem parse_query_text
    {path query : ByteString}
    {pairs : List (ByteString × ByteString)}
    (hPath : Ascii.question ∉ path)
    (hQuery : QueryText pairs query) :
    (parse (path ++ Ascii.question :: query)).1 = true ∧
      (parse
          (path ++ Ascii.question :: query)).2.queryParams =
        pairs := by
  refine ⟨parse_ok _, ?_⟩
  rw [(parse_query hPath query).2]
  exact parseTokens_of_queryText hQuery

/- The query `&k=+&&f`, with a space and with a flag. -/
theorem parse_query_text_flag :
    let tgt :=
      text "/s" ++ Ascii.question :: Ascii.ampersand ::
        ((text "k" ++ Ascii.equals :: text "+") ++
          Ascii.ampersand :: Ascii.ampersand :: text "f")
    (parse tgt).1 = true ∧
      (parse tgt).2.queryParams =
        [(text "k", text " "), (text "f", [])] := by
  have hKey : KeySpelling (text "k") (text "k") :=
    .literal (by decide) .nil
  have hValue : ValueSpelling (text " ") (text "+") :=
    .plus rfl .nil
  have hFlag : KeySpelling (text "f") (text "f") :=
    .literal (by decide) .nil
  exact parse_query_text (by decide)
    (.ampersand
      (.cons (.both hKey hValue)
        (.ampersand (.last (.flag (by decide) hFlag)))))

end HttpUriParser

end Inks
