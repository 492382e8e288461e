import Inks.Httpd.Router

/-
  The part of the initializer that loads the handlers: it
  walks over the array of the handler configuration and adds
  a route for each entry that names a registered handler.

  Key definitions include:
    * `Json`
    * `Initializer.loadEntry`
    * `Initializer.parseHttpHandlerConfig`
-/

------------------------------------------------------------
-- JSON Values
------------------------------------------------------------

namespace Inks

/- A JSON value. The keys of an object are different. -/
inductive Json where
| null
| boolean (value : Bool)
| number (value : Rat)
| string (value : ByteString)
| array (elements : List Json)
| object (members : List (ByteString × Json))

namespace Json

def isObject : Json → Bool
| .object _ => true
| _ => false

def isString : Json → Bool
| .string _ => true
| _ => false

/- The member of an object with a key. -/
def member
    (j : Json)
    (key : ByteString) : Option Json :=
  match j with
  | .object members => members.lookup key
  | _ => none

def contains
    (j : Json)
    (key : ByteString) : Bool :=
  (j.member key).isSome

/- A missing member would throw, but none is asked for. -/
def atKey
    (j : Json)
    (key : ByteString) : Json :=
  (j.member key).getD .null

/- The value of a string; no other value is asked for it. -/
def getString : Json → ByteString
| .string value => value
| _ => []

end Json

end Inks

------------------------------------------------------------
-- The Handler Configuration
------------------------------------------------------------

namespace Inks

namespace Initializer

/- One round of the loop; an entry may be skipped. -/
def loadEntry
    (factory : HttpHandlerFactory)
    (router : HttpRouter)
    (i : Json) : HttpRouter :=
  if !i.isObject then
    router
  else if !i.contains (text "path") ∨
      !(i.atKey (text "path")).isString ∨
      !i.contains (text "handler") ∨
      !(i.atKey (text "handler")).isString then
    router
  else
    let path := (i.atKey (text "path")).getString
    let handler := (i.atKey (text "handler")).getString
    if !factory.contains handler then
      router
    else
      router.add path handler

/- Whether the configuration is loaded, and the routes. -/
def parseHttpHandlerConfig
    (factory : HttpHandlerFactory)
    (router : HttpRouter)
    (arr : Json) : Bool × HttpRouter :=
  match arr with
  | .array entries =>
      (true, entries.foldl (loadEntry factory) router)
  | _ => (false, router)

end Initializer

end Inks
