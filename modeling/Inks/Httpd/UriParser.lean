import Inks.Httpd.Helper

/-
  The parser of request targets: a path, then possibly a
  query after the first question mark.

  Key definitions include:
    * `HttpUri`
    * `HttpUriParser.parse`
-/

namespace Inks

structure HttpUri where
  target : ByteString := []
  rawPath : ByteString := []
  decodedPath : ByteString := []
  rawQuery : ByteString := []
  queryParams : List (ByteString × ByteString) := []
deriving DecidableEq, Repr

namespace HttpUriParser

/-
  Decode the path segment by segment. A segment that cannot
  be decoded is only traced, and what was decoded of it up
  to the malformed escape is kept.
-/
def parsePath
    (uri : HttpUri) : Bool × HttpUri :=
  let segments := uri.rawPath.splitOn Ascii.slash
  let segments :=
    segments.map fun seg => (Hlpr.decodePath seg).2
  (true,
    { uri with
      decodedPath :=
        [Ascii.slash].intercalate segments })

/- A key and a value; without `=` the value is empty. -/
def parseToken
    (token : ByteString) : ByteString × ByteString :=
  match ByteString.find token Ascii.equals with
  | none => (Hlpr.decodeQueryOrClear token, [])
  | some epos =>
      (Hlpr.decodeQueryOrClear (token.take epos),
        Hlpr.decodeQueryOrClear (token.drop (epos + 1)))

def parseQuery
    (uri : HttpUri) : Bool × HttpUri :=
  let tokens := tokenize uri.rawQuery [Ascii.ampersand]
  (true,
    { uri with
      queryParams :=
        uri.queryParams ++ tokens.map parseToken })

/- The raw path and the raw query of a target. -/
def splitTarget
    (uri : HttpUri) : HttpUri :=
  match ByteString.find uri.target Ascii.question with
  | none => { uri with rawPath := uri.target }
  | some qpos =>
      { uri with
        rawPath := uri.target.take qpos
        rawQuery := uri.target.drop (qpos + 1) }

def parseI
    (uri : HttpUri) : Bool × HttpUri :=
  if uri.target.isEmpty then
    (true, uri)
  else
    let uri := splitTarget uri
    let path :=
      if uri.rawPath.isEmpty then
        (true, uri)
      else
        parsePath uri
    if path.1 then
      if path.2.rawQuery.isEmpty then
        (true, path.2)
      else
        parseQuery path.2
    else
      (false, path.2)

/- Whether a target is accepted, and what it parses to. -/
def parse
    (tgt : ByteString) : Bool × HttpUri :=
  parseI { target := tgt }

end HttpUriParser

end Inks
