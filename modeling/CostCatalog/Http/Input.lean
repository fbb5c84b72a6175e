import CostCatalog.Http.Message
import CostCatalog.Http.Query
import CostCatalog.Text.Blank
import CostCatalog.Wire.Envelope

/-!
# Messages in requests

How a message is read from a request: from the query, or from a JSON body. A body that is no JSON is
refused before anything else is looked at; every other violation waits until the service knows that
it has a store to work on.
-/

namespace CostCatalog.Http

open Wire (Checked ErrorDetail Message Step Violation)

/-- A body as a message is read from it. -/
inductive Content where
  | empty
  | json (v : Json)
  /-- Something that does not claim to be JSON. -/
  | other

/-- Whether a content type claims to be JSON: `application/json`, or a type of `application` whose
name ends in `+json`, whatever parameters follow. -/
def claimsJson (contentType : String) : Bool :=
  let essence := (Text.trim (contentType.toList.takeWhile (· != ';'))).map Char.toLower
  match splitAt '/' essence with
  | [main, sub] =>
    main == "application".toList &&
      (sub == "json".toList || "+json".toList.reverse.isPrefixOf sub.reverse)
  | _ => false

/-- The content of a body, or why one that should be JSON cannot be read. A mark of the byte order in
front does not count. -/
def Request.content (r : Request) : Except Json.ReadError Content :=
  if r.body = "" then .ok .empty
  else if !claimsJson r.contentType then .ok .other
  else
    let chars := match r.body.toList with
      | '\uFEFF' :: cs => cs
      | cs => cs
    match Json.parse (String.ofList chars) with
    | .ok v => .ok (.json v)
    | .error e => .error e

/-- The violation of a body that is no JSON from a position on. -/
def notJson (position : Nat) : Violation := ⟨[.field "body", .item position], .notJson⟩

/-- The message in a body. -/
def Content.message {α : Type} [Message α] (c : Content) : Checked α :=
  let found : Checked α := match c with
    | .empty => Checked.flaw .missing
    | .json v => Message.checkBody v
    | .other => Checked.flaw .notBody
  found.under (.field "body")

/-- The message in a query. -/
def Request.queryMessage {α : Type} [Message α] (r : Request) : Checked α :=
  (Message.read (queryFields r.query)).under (.field "query")

/-- The parts of a request in which a message can stand. -/
def messageParts : List String := ["body", "query", "path"]

/-- The way to a value in words: its steps with points between them, the part of the request left
out unless it is all there is. -/
def fieldPath (path : List Step) : String :=
  let words := path.map Step.text
  match words with
  | part :: rest@(_ :: _) => ".".intercalate (if messageParts.contains part then rest else words)
  | words => ".".intercalate words

/-- A violation as a response tells it. -/
def errorDetail (v : Violation) : ErrorDetail := ⟨fieldPath v.path, v.flaw.message⟩

end CostCatalog.Http
