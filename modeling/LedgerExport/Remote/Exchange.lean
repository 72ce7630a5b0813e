import LedgerExport.Call
import LedgerExport.Program
import LedgerExport.Remote.Request
import LedgerExport.Text.Blank

/-!
# Exchanges

How a call is answered over a connection. Every call but a listing is one request and its reply. A
listing asks for one page after the other, each time with the token of the page before, and ends
with the first page that has no token; when a page cannot be had, the listing fails.
-/

namespace LedgerExport.Remote

open Text

/-- What the pages of a listing have given so far. -/
structure Pages where
  /-- The objects, in order. -/
  objects : List ObjectSummary
  /-- The token of the page that comes next; the first page has none. -/
  token : Option String
deriving DecidableEq, Repr

/-- No page yet. -/
def Pages.none : Pages := ⟨[], .none⟩

/-- The objects of a page that have a key. A size that is missing or negative counts as zero. -/
def Page.summaries (page : Page) : List ObjectSummary :=
  page.objects.filterMap fun
    | (some key, size) => some ⟨key, (size.getD 0).toNat⟩
    -- An object without a key cannot be asked for again.
    | (.none, _) => .none

/-- How an exchange goes on after a reply. -/
inductive Turn (c : Call) where
  /-- With the request for the next page. -/
  | more (pages : Pages)
  /-- Not at all, with the answer to the call. -/
  | answer (a : c.Answer)

/-- The names in a call that have to be there for its request to have a URL. The names of a bucket
and of an object do not count if they consist of blank characters. -/
def addressNames : Call → List String
  | .list bucket .. => [trimmed bucket]
  | .get bucket key => [trimmed bucket, trimmed key]
  | .copy bucket _ destination => [trimmed bucket, trimmed destination]
  | .delete bucket key => [trimmed bucket, trimmed key]
  | .probe bucket key => [trimmed bucket, trimmed key]
  | .describe ledger exportId => [ledger, exportId]
  | .submit r => [r.ledger]

/-- The request for a call. -/
def requestFor (pages : Pages) : Call → Request
  | .list bucket keyPrefix delimiter => .list bucket keyPrefix delimiter pages.token
  | .get bucket key => .get bucket key
  | .copy bucket source destination => .copy bucket destination (copySource bucket source)
  | .delete bucket key => .delete bucket key
  | .probe bucket key => .head bucket key
  | .describe ledger exportId => .describe ledger exportId
  | .submit r => .start r.ledger (.ofRequest r)

/-- The request for a call, unless a name that would be a part of its URL is empty. -/
def request? (pages : Pages) (c : Call) : Option Request :=
  if "" ∈ addressNames c then none else some (requestFor pages c)

/-- The answer to a call that fails for a reason. -/
def failed (reason : String) : (c : Call) → c.Answer
  | .list bucket keyPrefix _ => .error (.request .list bucket keyPrefix reason)
  | .get bucket key => .error (.request .get bucket key reason)
  | .copy bucket source _ => .error (.request .copy bucket source reason)
  | .delete bucket key => .error (.request .delete bucket key reason)
  | .probe bucket key => .error (.request .head bucket key reason)
  | .describe .. => .error (.request reason)
  | .submit _ => .error (.request reason)

/-- The answer to a call for which no request can be made. -/
def nameless (c : Call) : c.Answer := failed "a name in the request is empty" c

/-- The word for the status of an export that is described without one. -/
def noStatus : String := "no value was set"

/-- How the exchange goes on after a request was carried out. -/
def accepted (pages : Pages) (content : Content) : (c : Call) → Turn c
  | .list bucket keyPrefix delimiter =>
    match content.page with
    | .none => .answer (failed "the page cannot be read" (.list bucket keyPrefix delimiter))
    | some page =>
      -- Pages come in the order of their keys, so they are joined as they come.
      let objects := pages.objects ++ page.summaries
      match page.nextToken with
      | some token => .more ⟨objects, some token⟩
      | .none => .answer (.ok objects)
  | .get bucket key =>
    match content.body with
    | some body => .answer (.ok body)
    | .none => .answer (.error (.request .readBody bucket key "the connection broke"))
  | .copy .. => .answer (.ok ())
  | .delete .. => .answer (.ok ())
  | .probe .. => .answer (.ok true)
  | .describe .. =>
    .answer (.ok (.found (.ofText (content.status.getD noStatus))))
  | .submit _ => .answer (.ok content.exportId)

/-- The name of an error in the code that a service gives for it. An address that follows a colon
and a namespace that ends with a number sign are not a part of the name. -/
def errorName (code : String) : String :=
  let withoutAddress := code.toList.takeWhile (· ≠ ':')
  match withoutAddress.dropWhile (· ≠ '#') with
  -- Without a namespace the whole code is the name.
  | [] => .ofList withoutAddress
  | _ :: name => .ofList name

/-- The answer to a call whose request was refused. -/
def refused (http : Nat) (code : Option String) : (c : Call) → c.Answer
  | .get bucket key =>
    if code = some "NoSuchKey" then .error (.notFound bucket key)
    else failed (refusal http code) (.get bucket key)
  | .copy bucket source destination =>
    if code = some "NoSuchKey" then .error (.notFound bucket source)
    else failed (refusal http code) (.copy bucket source destination)
  | .probe bucket key =>
    if http = 404 then .ok false else failed (refusal http code) (.probe bucket key)
  | .describe ledger exportId =>
    if code.map errorName = some "ResourceNotFoundException" then .ok .unknown
    else failed (refusal http code) (.describe ledger exportId)
  | c => failed (refusal http code) c

/-- Whether an error document refuses the request for a call even under a status of success. A
page, a copy and a deletion are answered by documents, in whose place it may come; the body of an
object is whatever comes, a probe is answered by the status alone, and an export by parts that an
error document lacks. -/
def heedsErrorDocument : Call → Bool
  | .list .. | .copy .. | .delete .. => true
  | .get .. | .probe .. | .describe .. | .submit _ => false

/-- How an exchange goes on after a reply. -/
def receive (c : Call) (pages : Pages) : Reply → Turn c
  | .accepted content => accepted pages content c
  | .refused http code => .answer (refused http code c)
  | .errorDocument http code =>
    if heedsErrorDocument c then .answer (refused http (some code) c)
    else accepted pages (.ofErrorDocument code) c

/-- A connection whose replies are known beforehand. -/
structure Connection where
  /-- The replies to come. -/
  replies : List Reply
  /-- The requests that have been sent, in order. -/
  sent : List Request

namespace Connection

/-- Answers a call from the pages so far on, with the given replies. When they are used up, the
next request is refused. -/
def exchange (c : Call) (pages : Pages) (sent : List Request) :
    List Reply → c.Answer × Connection
  | [] =>
    match request? pages c with
    | none => (nameless c, ⟨[], sent⟩)
    | some request => (refused 500 none c, ⟨[], sent ++ [request]⟩)
  | reply :: replies =>
    match request? pages c with
    | none => (nameless c, ⟨reply :: replies, sent⟩)
    | some request =>
      match receive c pages reply with
      | .answer a => (a, ⟨replies, sent ++ [request]⟩)
      | .more pages => exchange c pages (sent ++ [request]) replies

/-- Answers a call. -/
def respond : Responder Connection := fun c conn => exchange c .none conn.sent conn.replies

end Connection

end LedgerExport.Remote
