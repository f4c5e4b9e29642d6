import ServiceCall.Call.Error
import ServiceCall.Call.Route
import ServiceCall.Json.Printer
import ServiceCall.Text.Quoted
import ServiceCall.Time.Instant
import ServiceCall.Trace.Context

/-!
# Requests

A request describes one call: what to send and how the call is to be made. It is drafted step by
step in any order and checked as a whole at the end. Of several things wrong with a draft, the
first in the order of the checks is reported.
-/

namespace ServiceCall

structure RequestDraft where
  method : Http.Method
  route : String
  params : List String
  /-- The last JSON body, or why it could not be written. -/
  json : Option (Except String Bytes)
  raw : Option Bytes
  headers : List (String × String)
  query : List (String × String)
  cookies : List (String × String)
  timeout : Option Duration
  deadline : Option Instant
  retryEnabled : Bool
  propagate : Bool
  traceParent : Option String
  decodeStatuses : List Http.Status

structure Request where
  site : Site
  /-- The route with its parameters. -/
  url : String
  query : List (String × String)
  headers : Http.Headers
  body : Option Bytes
  /-- The budget of each attempt, if it is not the standard one. -/
  timeout : Option Duration
  deadline : Option Instant
  retryEnabled : Bool
  /-- Whether attempts tell the server of their trace. -/
  propagate : Bool
  traceParent : Option TraceContext
  decodeStatuses : List Http.Status

namespace RequestDraft

def new (method : Http.Method) (route : String) : RequestDraft where
  method
  route
  params := []
  json := none
  raw := none
  headers := []
  query := []
  cookies := []
  timeout := none
  deadline := none
  retryEnabled := true
  propagate := true
  traceParent := none
  decodeStatuses := []

/-! ## Setters -/

def addParam (d : RequestDraft) (value : String) : RequestDraft :=
  { d with params := d.params ++ [value] }

def setJson (d : RequestDraft) (value : Json) : RequestDraft :=
  { d with json := some (.ok (Bytes.ofString value.text)) }

/-- Sets a JSON body that cannot be written. -/
def setUnwritable (d : RequestDraft) (reason : String) : RequestDraft :=
  { d with json := some (.error reason) }

def setBody (d : RequestDraft) (body : Bytes) : RequestDraft := { d with raw := some body }

def addHeader (d : RequestDraft) (name value : String) : RequestDraft :=
  { d with headers := d.headers ++ [(name, value)] }

def addQuery (d : RequestDraft) (key value : String) : RequestDraft :=
  { d with query := d.query ++ [(key, value)] }

def addCookie (d : RequestDraft) (name value : String) : RequestDraft :=
  { d with cookies := d.cookies ++ [(name, value)] }

def setTimeout (d : RequestDraft) (timeout : Duration) : RequestDraft :=
  { d with timeout := some timeout }

def setDeadline (d : RequestDraft) (deadline : Instant) : RequestDraft :=
  { d with deadline := some deadline }

def withoutRetry (d : RequestDraft) : RequestDraft := { d with retryEnabled := false }

def withoutPropagation (d : RequestDraft) : RequestDraft := { d with propagate := false }

/-- Continues a trace that is given in its written form. -/
def setTraceParent (d : RequestDraft) (text : String) : RequestDraft :=
  { d with traceParent := some text }

/-- Has the body of answers with this status decoded. -/
def addDecodeStatus (d : RequestDraft) (status : Http.Status) : RequestDraft :=
  { d with decodeStatuses := d.decodeStatuses ++ [status] }

/-! ## Checks -/

def body (d : RequestDraft) : Except CallError (Option Bytes) :=
  match d.json, d.raw with
  | some _, some _ => .error (.usage "both a JSON body and a raw body were set")
  | some (.ok bytes), none => .ok (some bytes)
  | some (.error reason), none => .error (.serialization reason)
  | none, raw => .ok raw

def url (d : RequestDraft) : Except CallError String :=
  match Route.expand? d.route d.params with
  | some url => .ok url
  | none =>
    .error (.usage ("route " ++ Text.quoted d.route ++ " has " ++
      toString (Route.placeholders d.route.toList) ++ " placeholder(s) but " ++
      toString d.params.length ++ " parameter(s) were given"))

def nameProblem : String := "invalid HTTP header name"

def valueProblem : String := "failed to parse header value"

def appendHeader (h : Http.Headers) (field : String × String) :
    Except CallError Http.Headers :=
  match Http.HeaderName.ofString? field.1 with
  | none =>
    .error (.usage ("Invalid header name " ++ Text.quoted field.1 ++ ": " ++ nameProblem))
  | some name =>
    match Http.HeaderValue.ofString? field.2 with
    | none =>
      .error (.usage ("Invalid value for header " ++ name.text ++ ": " ++ valueProblem))
    | some value => .ok (h.append name value)

def cookieText (d : RequestDraft) : String :=
  "; ".intercalate (d.cookies.map fun (name, value) => name ++ "=" ++ value)

def jsonContentType : Http.HeaderValue := .ofVisible "application/json; charset=utf-8"

def builtHeaders (d : RequestDraft) : Except CallError Http.Headers := do
  let headers ← d.headers.foldlM appendHeader .empty
  let headers ←
    if d.cookies.isEmpty then .ok headers
    else
      match Http.HeaderValue.ofString? d.cookieText with
      | none => .error (.usage ("Invalid cookie: " ++ valueProblem))
      | some value => .ok (headers.insert .cookie value)
  if d.json.isSome && !headers.contains .contentType then
    return headers.insert .contentType jsonContentType
  else return headers

def parent (d : RequestDraft) : Except CallError (Option TraceContext) :=
  match d.traceParent with
  | none => .ok none
  | some text =>
    match TraceContext.parse? text with
    | some context => .ok (some context)
    | none => .error (.usage ("Invalid traceparent: " ++ Text.quoted text))

def build (d : RequestDraft) : Except CallError Request := do
  let body ← d.body
  let url ← d.url
  let headers ← d.builtHeaders
  let traceParent ← d.parent
  return {
    site := ⟨d.method, d.route⟩
    url
    query := d.query
    headers
    body
    timeout := d.timeout
    deadline := d.deadline
    retryEnabled := d.retryEnabled
    propagate := d.propagate
    traceParent
    decodeStatuses := d.decodeStatuses }

end RequestDraft

namespace Request

/-- A request with nothing but a route, which is its address as well, and perhaps a JSON body. -/
def short (method : Http.Method) (route : String) (body : Option Json) :
    Except CallError Request :=
  (body.elim (RequestDraft.new method route) (RequestDraft.new method route).setJson).build

def get (route : String) : Except CallError Request := short .get route none

def post (route : String) (body : Json) : Except CallError Request := short .post route (some body)

def put (route : String) (body : Json) : Except CallError Request := short .put route (some body)

def patch (route : String) (body : Json) : Except CallError Request :=
  short .patch route (some body)

def delete (route : String) : Except CallError Request := short .delete route none

/-- Whether an answer with this status carries a payload to decode: every success but 204, and
what the request asks for. -/
def decodes (r : Request) (status : Http.Status) : Bool :=
  (status.isSuccess && status ≠ .noContent) || r.decodeStatuses.contains status

end Request

end ServiceCall
