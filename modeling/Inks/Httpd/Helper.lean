import Inks.Foundation.Bytes

/-
  What the HTTP code shares: percent decoding and the stock
  responses.

  Key definitions include:
    * `HttpRequest`, `HttpResponse`
    * `Hlpr.decodePercent`
    * `Hlpr.decodePath`, `Hlpr.decodeQuery`
    * `Hlpr.stockResponse`
-/

------------------------------------------------------------
-- Messages
------------------------------------------------------------

namespace Inks

inductive Verb where
| get
| post
| put
| delete
| other
deriving DecidableEq, Repr

/- A request; its header fields and body are left out. -/
structure HttpRequest where
  method : Verb := .get
  target : ByteString
  keepAlive : Bool := true
deriving DecidableEq, Repr

inductive HttpStatus where
| ok
| badRequest
| notFound
| notImplemented
| internalServerError
deriving DecidableEq, Repr

structure HttpResponse where
  status : HttpStatus
  version : Nat := 11
  keepAlive : Bool
  server : ByteString := text "inks"
  contentType : ByteString
  body : ByteString
deriving DecidableEq, Repr

end Inks

------------------------------------------------------------
-- Percent Decoding
------------------------------------------------------------

namespace Inks

namespace Hlpr

/- `HLPR_FLAG_SLASH` and `HLPR_FLAG_SPACE`. -/
structure Flags where
  slash : Bool := false
  space : Bool := false
deriving DecidableEq, Repr

/-
  The loop of `decode_percent`, from the bytes that are left
  and the result so far. On failure the result keeps what
  was decoded before the malformed escape.
-/
def decodeLoop
    (flags : Flags) :
    ByteString → ByteString → Bool × ByteString
| [], res => (true, res)
| c :: src, res =>
    if c = Ascii.percent then
      match src with
      | h :: l :: rest =>
          if char2hex h < 0 ∨ char2hex l < 0 then
            (false, res)
          else
            let decoded :=
              UInt8.ofNat
                ((char2hex h).toNat <<< 4 |||
                  (char2hex l).toNat)
            if decoded = Ascii.slash then
              if flags.slash then
                decodeLoop flags rest (res ++ [decoded])
              else
                decodeLoop flags rest (res ++ [c, h, l])
            else
              decodeLoop flags rest (res ++ [decoded])
      | _ => (false, res)
    else if c = Ascii.plus ∧ flags.space then
      decodeLoop flags src (res ++ [Ascii.space])
    else
      decodeLoop flags src (res ++ [c])

/- Whether decoding succeeds, and its result. -/
def decodePercent
    (src : ByteString)
    (flags : Flags) : Bool × ByteString :=
  decodeLoop flags src []

def decodePath
    (src : ByteString)
    (flags : Flags := { slash := true }) :
    Bool × ByteString :=
  decodePercent src flags

/- The overload that clears its result on failure. -/
def decodePathOrClear
    (src : ByteString)
    (flags : Flags := { slash := true }) : ByteString :=
  if (decodePath src flags).1 then
    (decodePath src flags).2
  else
    []

def decodeQuery
    (src : ByteString)
    (flags : Flags := { slash := true, space := true }) :
    Bool × ByteString :=
  decodePercent src flags

/- The overload that clears its result on failure. -/
def decodeQueryOrClear
    (src : ByteString)
    (flags : Flags := { slash := true, space := true }) :
    ByteString :=
  if (decodeQuery src flags).1 then
    (decodeQuery src flags).2
  else
    []

end Hlpr

end Inks

------------------------------------------------------------
-- Stock Responses
------------------------------------------------------------

namespace Inks

namespace Hlpr

def stockResponse
    (status : HttpStatus)
    (keepAlive : Bool)
    (body : ByteString := []) : HttpResponse where
  status := status
  keepAlive := keepAlive
  contentType := text "text/plain; charset=utf-8"
  body := body

/- A stock response whose body defaults to a phrase. -/
def phraseResponse
    (status : HttpStatus)
    (phrase : String)
    (keepAlive : Bool)
    (body : ByteString) : HttpResponse :=
  stockResponse status keepAlive
    (if body.isEmpty then text phrase else body)

def badRequest
    (keepAlive : Bool)
    (body : ByteString := []) : HttpResponse :=
  phraseResponse .badRequest "Bad Request" keepAlive body

def notFound
    (keepAlive : Bool)
    (body : ByteString := []) : HttpResponse :=
  phraseResponse .notFound "Not Found" keepAlive body

def notImplemented
    (keepAlive : Bool)
    (body : ByteString := []) : HttpResponse :=
  phraseResponse .notImplemented "Not Implemented"
    keepAlive body

def internalServerError
    (keepAlive : Bool)
    (body : ByteString := []) : HttpResponse :=
  phraseResponse .internalServerError
    "Internal Server Error" keepAlive body

end Hlpr

end Inks
