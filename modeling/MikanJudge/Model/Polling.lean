import MikanJudge.Lib.Url
import MikanJudge.Model.Routes

/-!
# Polling a verdict (`templates/`)

A page that shows a pending verdict asks for it again, at the URL its template
spells in `hx-get`; the fragment it gets takes the place of the old one, with
the URL of its own template. The browser reads the URL and sends its path, and
the router matches that (`pollRoute`). `pollsFrom` is the sequence of the
requests from one URL on.
-/

namespace MikanJudge

open MikanJudge.Lib

/-- `{{ key }}`, of a text. -/
def ctxText (ctx : Ctx) (key : String) : String :=
  match ctx.lookup key with
  | some (.str s) => s
  | _ => ""

def ctxTrue (ctx : Ctx) (key : String) : Bool :=
  match ctx.lookup key with
  | some (.bool b) => b
  | _ => false

/-- The URL of a verdict area: `hx-get`, while the verdict is pending. -/
def Response.pollUrl : Response → Option String
  | .html template ctx =>
    if !ctxTrue ctx "is_pending" then none
    else if template = "contests/submissions/detail.html" then
      some ("/contests/" ++ ctxText ctx "contest_id" ++ "/submissions/" ++ ctxText ctx "id" ++ "/poll")
    else if template = "submissions/detail.html" ∨ template = "submissions/poll.html" then
      some ("/submissions/" ++ ctxText ctx "id" ++ "/poll")
    else none
  | _ => none

/-! ## Reading the URL -/

def utf8Bytes (s : String) : List UInt8 := s.toUTF8.data.toList

namespace Uuid

/-- The number that hexadecimal digits of either case spell. -/
def hexNumber (ds : List Char) : Option Nat :=
  ds.foldlM (fun n c => (Url.hexValue c.toNat).map (16 * n + ·)) 0

def parseSimple (ds : List Char) : Option Uuid :=
  if ds.length = 32 then
    (hexNumber ds).bind fun n => if h : n < 2 ^ 128 then some ⟨n, h⟩ else none
  else none

def parseHyphenated (cs : List Char) : Option Uuid :=
  let groups := cs.splitOn '-'
  if groups.map List.length = [8, 4, 4, 4, 12] then parseSimple groups.flatten else none

/-- `Uuid::parse_str`: the digits alone, with hyphens, in braces, and as a URN. -/
def parse (s : String) : Option Uuid :=
  let cs := s.toList
  if cs.length = 32 then parseSimple cs
  else if cs.length = 36 then parseHyphenated cs
  else if cs.length = 38 ∧ cs.head? = some '{' ∧ cs.getLast? = some '}' then
    parseHyphenated cs.tail.dropLast
  else if cs.length = 45 ∧ cs.take 9 = "urn:uuid:".toList then parseHyphenated (cs.drop 9)
  else none

end Uuid

/-- `Path`, of one parameter: percent-decoded, and text. -/
def pathParam (seg : List UInt8) : Option String :=
  String.fromUTF8? ⟨(Url.percentDecode seg).toArray⟩

/-- The route of the URL of a poll, of the path as it is sent: literal segments
are matched as they are, parameters are not empty. A request whose parameters
cannot be read gets no further than the router. -/
def pollRoute (url : String) : Option Route :=
  match (Url.pathSegments (utf8Bytes url)).map Url.percentEncode with
  | [contests, contestId, submissions, id, poll] =>
    if contests = utf8Bytes "contests" ∧ contestId ≠ [] ∧ submissions = utf8Bytes "submissions" ∧
        id ≠ [] ∧ poll = utf8Bytes "poll" then do
      let contestId ← pathParam contestId
      let id ← (pathParam id).bind Uuid.parse
      return .contestSubmissionPoll contestId id
    else none
  | [submissions, id, poll] =>
    if submissions = utf8Bytes "submissions" ∧ id ≠ [] ∧ poll = utf8Bytes "poll" then do
      let id ← (pathParam id).bind Uuid.parse
      return .submissionsPoll id
    else none
  | _ => none

/-! ## The polls -/

/-- A poll: the route of its URL, if it is that of a poll, and the answer. -/
structure Poll where
  route : Option Route
  answer : Option Response

/-- The polls from a URL on, each with what it finds: the next one goes to the URL
that comes with the answer. -/
def pollsFrom (ext : Externals) (app : AppState) : String → List (Db × Visit) → List Poll
  | _, [] => []
  | url, m :: ms =>
    match pollRoute url with
    | none => [⟨none, none⟩]
    | some route =>
      let answer := route.respond ext app m.1 m.2
      ⟨some route, answer⟩ ::
        (answer.bind Response.pollUrl).elim [] fun url => pollsFrom ext app url ms

end MikanJudge
