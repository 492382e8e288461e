import Inks.Foundation.Bytes
import Mathlib.Logic.Function.Basic

/-
  The cURL client. One easy handle serves all requests, and
  it keeps every option that is set: pointers among them
  refer to memory of the call that set them. What libcurl
  itself decides is an argument: which values it refuses,
  whether it can allocate, what it receives and how a
  transfer ends.

  Key definitions include:
    * `CurlRequest`, `CurlResponse`
    * `CurlOption`, `CurlValue`
    * `CurlClient`
    * `CurlClient.setupHeaders`
    * `CurlClient.send`
-/

------------------------------------------------------------
-- Requests and Responses
------------------------------------------------------------

namespace Inks

inductive CurlHttpMethod where
| get
| post
deriving DecidableEq, Repr

structure CurlRequest where
  method : CurlHttpMethod
  target : ByteString
  headers : List ByteString := []
  body : ByteString := []
  connectTimeout : Int := 10
  transferTimeout : Int := 30
  followRedirects : Bool := true
  verifySslPeer : Bool := true
  verifySslHost : Bool := true
  userAgent : ByteString := text "inks"
deriving DecidableEq, Repr

structure CurlResponse where
  status : Int := 0
  headers : List ByteString := []
  body : ByteString := []
deriving DecidableEq, Repr

def CurlResponse.clear
    (_resp : CurlResponse) : CurlResponse :=
  {}

/- What a C function reads of a string. -/
def cStr
    (s : ByteString) : ByteString :=
  s.takeWhile (· ≠ 0)

end Inks

------------------------------------------------------------
-- The Easy Handle
------------------------------------------------------------

namespace Inks

inductive CurlOption where
| httpGet
| post
| url
| connectTimeout
| timeout
| followLocation
| sslVerifyPeer
| sslVerifyHost
| userAgent
| headerFunction
| headerData
| writeFunction
| writeData
| httpHeader
| postFields
| postFieldSize
| errorBuffer
deriving DecidableEq, Repr

/-
  Whether libcurl takes the value of an option in a call in
  which it refuses some. Callbacks, and the pointers that are
  handed to them, it always takes.
-/
def CurlOption.taken
    (refused : List CurlOption)
    (option : CurlOption) : Bool :=
  match option with
  | .headerFunction => true
  | .headerData => true
  | .writeFunction => true
  | .writeData => true
  | .errorBuffer => true
  | _ => option ∉ refused

/- Memory of a call that an option can point to. -/
inductive CurlPlace where
| responseHeaders
| responseBody
| requestBody
| errorBuffer
deriving DecidableEq, Repr

inductive CurlWriter where
| headerWriter
| bodyWriter
deriving DecidableEq, Repr

/- A string is copied when it is set, a pointer is not. -/
inductive CurlValue where
| long (n : Int)
| string (s : ByteString)
| function (writer : CurlWriter)
| place (place : CurlPlace) (call : Nat)
| slist (list : Option Nat)
deriving DecidableEq, Repr

structure CurlSlist where
  strings : List ByteString
  freed : Bool := false
deriving DecidableEq, Repr

structure CurlClient where
  -- Whether `curl_easy_init` returned a handle.
  curl : Bool
  -- The options set since the last reset.
  options : CurlOption → Option CurlValue := fun _ => none
  -- What libcurl refuses in the latest call of `send`.
  refused : List CurlOption := []
  -- Ghost: every list that `curl_slist_append` began.
  lists : List CurlSlist := []
  -- Ghost: the number of the latest call of `send`.
  calls : Nat := 0

/- What libcurl finds under an option. -/
inductive CurlSeen where
| long (n : Int)
| string (s : ByteString)
| function (writer : CurlWriter)
| place (place : CurlPlace)
| strings (strings : List ByteString)
| dangling
deriving DecidableEq, Repr

/- What libcurl gets from the network, in pieces. -/
inductive CurlChunk where
| header (buff : ByteString)
| body (buff : ByteString)
deriving DecidableEq, Repr

/- What is up to libcurl in one call of `send`. -/
structure CurlTransfer where
  -- The options whose values it does not take: a string
  -- that is too long, a number out of range, no memory.
  refused : List CurlOption := []
  -- Whether each call of `curl_slist_append` succeeds.
  appends : List Bool := []
  chunks : List CurlChunk := []
  performed : Bool := true
  responseCode : Option Int := some 200
deriving DecidableEq, Repr

end Inks

------------------------------------------------------------
-- Member Functions
------------------------------------------------------------

namespace Inks

def headerWriter
    (buff : ByteString)
    (headers : List ByteString) : Nat × List ByteString :=
  (buff.length, headers ++ [buff])

def bodyWriter
    (buff : ByteString)
    (body : ByteString) : Nat × ByteString :=
  (buff.length, body ++ buff)

namespace CurlClient

/- The constructor, when `curl_easy_init` may fail. -/
def new
    (initialized : Bool) : CurlClient where
  curl := initialized

/-
  Set an option. The result of `curl_easy_setopt` is not
  looked at, so a refused value goes unnoticed.
-/
def setopt
    (c : CurlClient)
    (option : CurlOption)
    (value : CurlValue) : CurlClient :=
  if option.taken c.refused then
    { c with
      options := Function.update c.options option value }
  else
    c

def setoptIf
    (c : CurlClient)
    (condition : Bool)
    (option : CurlOption)
    (value : CurlValue) : CurlClient :=
  if condition then c.setopt option value else c

def easyReset
    (c : CurlClient) : CurlClient :=
  { c with options := fun _ => none }

def setupCommonOptions
    (c : CurlClient)
    (req : CurlRequest) : CurlClient :=
  let c := c.setopt .url (.string (cStr req.target))
  let c :=
    c.setopt .connectTimeout (.long req.connectTimeout)
  let c := c.setopt .timeout (.long req.transferTimeout)
  let c :=
    c.setoptIf req.followRedirects .followLocation (.long 1)
  let c :=
    c.setoptIf req.verifySslPeer .sslVerifyPeer (.long 1)
  let c :=
    c.setoptIf req.verifySslHost .sslVerifyHost (.long 1)
  let c :=
    c.setoptIf (!req.userAgent.isEmpty) .userAgent
      (.string (cStr req.userAgent))
  let c :=
    c.setopt .headerFunction (.function .headerWriter)
  let c :=
    c.setopt .headerData (.place .responseHeaders c.calls)
  let c :=
    c.setopt .writeFunction (.function .bodyWriter)
  c.setopt .writeData (.place .responseBody c.calls)

/-
  A list that is not null is extended in place, and without
  memory it is left as it is and null is returned.
-/
def slistAppend
    (lists : List CurlSlist)
    (list : Option Nat)
    (s : ByteString)
    (succeeds : Bool) : Option Nat × List CurlSlist :=
  if succeeds then
    match list with
    | none =>
        (some lists.length, lists ++ [{ strings := [s] }])
    | some n =>
        (some n,
          lists.modify n fun l =>
            { l with strings := l.strings ++ [s] })
  else
    (none, lists)

/-
  The loop of `setup_headers`. The old list is released, so
  when null takes its place it is not freed by anyone.
-/
def appendHeaders
    (lists : List CurlSlist)
    (ptr : Option Nat) :
    List ByteString → List Bool →
      Option Nat × List CurlSlist
| [], _ => (ptr, lists)
| h :: headers, appends =>
    let newList :=
      slistAppend lists ptr (cStr h)
        (appends.headD true)
    appendHeaders newList.2 newList.1 headers appends.tail

def setupHeaders
    (c : CurlClient)
    (req : CurlRequest)
    (appends : List Bool) : Option Nat × CurlClient :=
  let built := appendHeaders c.lists none req.headers appends
  (built.1,
    { c with lists := built.2 }.setopt .httpHeader
      (.slist built.1))

/- The deleter of the pointer to the header fields. -/
def slistFreeAll
    (c : CurlClient)
    (list : Option Nat) : CurlClient :=
  match list with
  | none => c
  | some n =>
      { c with
        lists :=
          c.lists.modify n
            (fun l => { l with freed := true }) }

/- The options as libcurl finds them in this call. -/
def see
    (c : CurlClient) : CurlValue → CurlSeen
| .long n => .long n
| .string s => .string s
| .function writer => .function writer
| .place place call =>
    if call = c.calls then .place place else .dangling
| .slist none => .strings []
| .slist (some n) =>
    match c.lists[n]? with
    | some l =>
        if l.freed then .dangling else .strings l.strings
    | none => .dangling

def seen
    (c : CurlClient)
    (option : CurlOption) : Option CurlSeen :=
  (c.options option).map c.see

/- A piece goes to the writer that is set for its kind. -/
def deliver
    (resp : CurlResponse) : CurlChunk → CurlResponse
| .header buff =>
    { resp with
      headers := (headerWriter buff resp.headers).2 }
| .body buff =>
    { resp with body := (bodyWriter buff resp.body).2 }

/- Whether it succeeds, the response, and what ran. -/
def performRequest
    (c : CurlClient)
    (resp : CurlResponse)
    (transfer : CurlTransfer) :
    Bool × CurlResponse × CurlClient :=
  let c := c.setopt .errorBuffer (.place .errorBuffer c.calls)
  let resp := transfer.chunks.foldl deliver resp
  if !transfer.performed then
    (false, resp, c)
  else
    match transfer.responseCode with
    | none => (false, resp, c)
    | some code => (true, { resp with status := code }, c)

/- What a call of `send` returns and leaves. -/
structure Sent where
  result : Bool
  resp : CurlResponse
  -- Ghost: the options of the transfer, if there was one.
  seen : Option (CurlOption → Option CurlSeen)
  client : CurlClient

def send
    (c : CurlClient)
    (req : CurlRequest)
    (resp : CurlResponse)
    (transfer : CurlTransfer) : Sent :=
  let c :=
    { c with
      calls := c.calls + 1
      refused := transfer.refused }
  if !c.curl then
    { result := false
      resp := resp
      seen := none
      client := c }
  else
    let c := c.easyReset
    let resp := resp.clear
    let c :=
      match req.method with
      | .get => c.setopt .httpGet (.long 1)
      | .post => c.setopt .post (.long 1)
    let c := c.setupCommonOptions req
    let hdr := c.setupHeaders req transfer.appends
    let c := hdr.2
    let c :=
      match req.method with
      | .get => c
      | .post =>
          (c.setopt .postFields
            (.place .requestBody c.calls)).setopt
              .postFieldSize (.long req.body.length)
    let performed := c.performRequest resp transfer
    { result := performed.1
      resp := performed.2.1
      seen := some performed.2.2.seen
      client := performed.2.2.slistFreeAll hdr.1 }

end CurlClient

end Inks
