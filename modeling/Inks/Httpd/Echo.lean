import Inks.Httpd.Router
import Inks.Library.Printing

/-
  The echo handler. It reports a request line by line, with
  the path and the query as they were decoded, so that parts
  of the report can look like any other part. The report can
  still be read back: the lines in front hold no line break,
  and the parts decoded are those of the target above them.

  Key definitions include:
    * `HttpMessage`
    * `HttpMessage.report`
    * `makeEchoResponse`
    * `HttpEchoHandler`

  Key theorems include:
    * `HttpMessage.readable_head`
    * `makeEchoResponse_injective`
-/

------------------------------------------------------------
-- Messages
------------------------------------------------------------

namespace Inks

namespace Ascii

def colon : UInt8 := 0x3A

end Ascii

/- The verb that a method names, if the handlers know it. -/
def stringToVerb
    (s : ByteString) : Verb :=
  if s = text "GET" then
    .get
  else if s = text "POST" then
    .post
  else if s = text "PUT" then
    .put
  else if s = text "DELETE" then
    .delete
  else
    .other

/- A name and a value, as Beast's parser lets them pass. -/
structure HttpField where
  nameString : ByteString
  value : ByteString
  name_token :
    Ascii.colon ∉ nameString ∧ Ascii.newline ∉ nameString
  value_line : Ascii.newline ∉ value
deriving DecidableEq

/- A whole request, as Beast's parser releases it. -/
structure HttpMessage extends HttpRequest where
  methodString : ByteString
  fields : List HttpField
  body : ByteString
  method_eq : method = stringToVerb methodString
  method_line : Ascii.newline ∉ methodString
  target_line : Ascii.newline ∉ target
deriving DecidableEq

end Inks

------------------------------------------------------------
-- Echoes
------------------------------------------------------------

namespace Inks

namespace HttpMessage

/- What stands in front of every line of the report. -/
def inks : ByteString :=
  text "[inks]"

def newline : ByteString :=
  [Ascii.newline]

/- One round of the loop over the query parameters. -/
def queryParamLine
    (param : ByteString × ByteString) : ByteString :=
  inks ++ text "     " ++ param.1 ++ text " = " ++ param.2 ++
    newline

/- One round of the loop over the header fields. -/
def fieldLine
    (field : HttpField) : ByteString :=
  inks ++ text "     " ++ field.nameString ++ text ": " ++
    field.value ++ newline

/- What is written about the decoded target. -/
def uriLines
    (uri : HttpUri) : ByteString :=
  inks ++ text "   Path: " ++ uri.decodedPath ++ newline ++
    (if !uri.rawQuery.isEmpty then
      inks ++ text "   Query: " ++ uri.rawQuery ++ newline
    else
      []) ++
    (if !uri.queryParams.isEmpty then
      inks ++ text "   Query params:" ++ newline ++
        uri.queryParams.flatMap queryParamLine
    else
      [])

/- The stream of `make_echo_response`. -/
def report
    (req : HttpMessage) : ByteString :=
  let uri := (HttpUriParser.parse req.target).2
  inks ++ text " Parsed HTTP request:" ++ newline ++
    inks ++ text "   Method: " ++ req.methodString ++
    newline ++
    inks ++ text "   Target: " ++ req.target ++ newline ++
    uriLines uri ++
    inks ++ text "   Headers:\n" ++
    req.fields.flatMap fieldLine ++
    inks ++ text "   Body:" ++ newline ++ req.body ++
    newline ++
    inks ++ text " End."

end HttpMessage

def makeEchoResponse
    (req : HttpMessage) : HttpResponse where
  status := .ok
  keepAlive := req.keepAlive
  contentType := text "text/plain; charset=utf-8"
  body := req.report

/-
  The handler, for one message: `HttpRequest` does not hold
  the parts of it that are echoed besides the target.
-/
def HttpEchoHandler
    (message : HttpMessage) : HttpHandler where
  handleGetI := fun _ => makeEchoResponse message
  handlePostI := fun _ => makeEchoResponse message
  handlePutI := fun _ => makeEchoResponse message
  handleDeleteI := fun _ => makeEchoResponse message

end Inks

------------------------------------------------------------
-- Reading Reports
------------------------------------------------------------

namespace Inks

namespace HttpMessage

/- The end of the header fields. -/
def bodyMark : ByteString :=
  inks ++ text "   Body:" ++ newline

/- The report up to the target. -/
def printLines
    (lines : ByteString × ByteString) : ByteString :=
  inks ++ text " Parsed HTTP request:" ++ newline ++
    inks ++ text "   Method: " ++ (lines.1 ++ newline) ++
    (inks ++ text "   Target: " ++ (lines.2 ++ newline))

/- What follows the target, up to the header fields. -/
def targetLines
    (target : ByteString) : ByteString :=
  uriLines (HttpUriParser.parse target).2 ++
    (inks ++ text "   Headers:\n")

/- The report up to the body. -/
def printHead
    (head : (ByteString × ByteString) × List HttpField) :
    ByteString :=
  printLines head.1 ++ targetLines head.1.2 ++
    (head.2.flatMap fieldLine ++ bodyMark)

theorem report_eq
    (req : HttpMessage) :
    req.report =
      printHead
          ((req.methodString, req.target), req.fields) ++
        (req.body ++ (newline ++ inks ++ text " End.")) := by
  unfold report printHead printLines targetLines bodyMark
  simp only [List.append_assoc]

/- No line break stands in a method or in a target. -/
def OneLine
    (lines : ByteString × ByteString) : Prop :=
  Ascii.newline ∉ lines.1 ∧ Ascii.newline ∉ lines.2

theorem readable_lines :
    Printing.Readable OneLine printLines :=
  ((Printing.readable_line Ascii.newline).behind _).pair
    ((Printing.readable_line Ascii.newline).behind _)

/- A field is a name up to a colon, and a line behind it. -/
theorem readable_field :
    Printing.Readable (fun _ => True) fieldLine := by
  intro field other rest rest' _ _ hSame
  have hColon : text ": " = [Ascii.colon] ++ text " " := by
    decide
  have hParts :=
    ((Printing.readable_line Ascii.colon).behind
      (inks ++ text "     ")).pair
      ((Printing.readable_line Ascii.newline).behind
        (text " "))
  have hRead :=
    hParts (field.nameString, field.value)
      (other.nameString, other.value) rest rest'
      ⟨field.name_token.1, field.value_line⟩
      ⟨other.name_token.1, other.value_line⟩
      (by
        simpa [fieldLine, hColon, newline] using hSame)
  rcases hRead with ⟨hPair, hRest⟩
  refine ⟨?_, hRest⟩
  cases field
  cases other
  simpa using hPair

/- The mark in front of the body begins no header field. -/
theorem fieldLine_ne_bodyMark
    (field : HttpField)
    (rest rest' : ByteString) :
    fieldLine field ++ rest ≠ bodyMark ++ rest' := by
  have hFront :
      (inks ++ text "     ") ++
          (field.nameString ++ text ": " ++ field.value ++
            newline ++ rest) ≠
        bodyMark ++ rest' :=
    Printing.append_ne_append 10 (by decide) (by decide)
      (by decide) _ rest'
  simpa [fieldLine] using hFront

theorem readable_head :
    Printing.Readable
      (fun head : (ByteString × ByteString) ×
          List HttpField =>
        OneLine head.1 ∧ ∀ field ∈ head.2, True)
      printHead :=
  (readable_lines.followed fun lines =>
    targetLines lines.2).pair
      (readable_field.many fun field rest rest' _ =>
        fieldLine_ne_bodyMark field rest rest')

end HttpMessage

/-
  An echo tells the whole request: its method, its target,
  its header fields in order, its body and whether it keeps
  the connection. It does so whatever the path and the query
  decode to, and whatever the body holds.
-/
theorem makeEchoResponse_injective :
    Function.Injective makeEchoResponse := by
  intro req other hSame
  have hReport : req.report = other.report :=
    congrArg HttpResponse.body hSame
  have hKeep : req.keepAlive = other.keepAlive :=
    congrArg HttpResponse.keepAlive hSame
  rw [HttpMessage.report_eq, HttpMessage.report_eq]
    at hReport
  rcases HttpMessage.readable_head _ _ _ _
      ⟨⟨req.method_line, req.target_line⟩, by simp⟩
      ⟨⟨other.method_line, other.target_line⟩, by simp⟩
      hReport with
    ⟨hHead, hBack⟩
  have hBody : req.body = other.body :=
    List.append_cancel_right hBack
  have hMethod : req.method = other.method := by
    rw [req.method_eq, other.method_eq]
    simp_all
  rcases req with ⟨⟨_, _, _⟩, _, _, _, _, _, _⟩
  rcases other with ⟨⟨_, _, _⟩, _, _, _, _, _, _⟩
  simp_all

end Inks
