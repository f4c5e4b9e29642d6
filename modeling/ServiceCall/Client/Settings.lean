import ServiceCall.Call.Request
import ServiceCall.Pool.Permits
import ServiceCall.Retry.Cooldown
import ServiceCall.Retry.Predicate
import ServiceCall.Retry.Schedule
import ServiceCall.Url.Parse

/-!
# Clients

The settings of a client and what is checked when it is built from them.
-/

namespace ServiceCall

structure Settings where
  name : String
  baseUrl : Option String
  authToken : Option String
  /-- The header that carries the bare token. -/
  authHeader : Option String
  acceptType : Option String
  /-- The time for all attempts of a call; zero means no limit. -/
  timeout : Duration
  maxConnectionsPerHost : Nat
  connectTimeout : Duration
  poolIdleTimeout : Duration
  cooldownWindow : Duration
  expectedStatuses : ExpectedStatuses
  connectionTelemetry : Bool
  schedule : Schedule
  predicate : RetryPredicate
  defaultHeaders : Http.Headers

structure Client where
  name : String
  baseUrl : Option Url
  defaultHeaders : Http.Headers
  timeout : Option Duration
  maxConnectionsPerHost : Nat
  connectTimeout : Duration
  poolIdleTimeout : Duration
  cooldownWindow : Duration
  expectedStatuses : ExpectedStatuses
  connectionTelemetry : Bool
  schedule : Schedule
  predicate : RetryPredicate

namespace Settings

def standard : Settings where
  name := "http-client"
  baseUrl := none
  authToken := none
  authHeader := none
  acceptType := none
  timeout := .ofSecs 30
  maxConnectionsPerHost := 10
  connectTimeout := .ofSecs 5
  poolIdleTimeout := .ofSecs 90
  cooldownWindow := Cooldown.standardWindow
  expectedStatuses := .standard
  connectionTelemetry := false
  schedule := .standard
  predicate := .retryable
  defaultHeaders := .empty

/-- The settings that a short configuration has room for; the others are the standard ones. -/
def basic (s : Settings) : Settings :=
  { standard with
    name := s.name
    baseUrl := s.baseUrl
    authToken := s.authToken
    authHeader := s.authHeader
    acceptType := s.acceptType
    timeout := s.timeout
    maxConnectionsPerHost := s.maxConnectionsPerHost }

/-- Adds a header to all requests, in place of an earlier one of that name. -/
def addDefaultHeader (s : Settings) (name value : String) : Except CallError Settings := do
  match Http.HeaderName.ofString? name with
  | none => .error (.configuration ("Invalid header name: " ++ RequestDraft.nameProblem))
  | some name =>
    match Http.HeaderValue.ofString? value with
    | none => .error (.configuration ("Invalid header value: " ++ RequestDraft.valueProblem))
    | some value => return { s with defaultHeaders := s.defaultHeaders.insert name value }

/-- The base address, which has to be one of the web. -/
def checkedBase (s : Settings) : Except CallError (Option Url) :=
  match s.baseUrl with
  | none => .ok none
  | some text =>
    match Url.parse text with
    | .error problem => .error (.invalidUrl problem)
    | .ok url =>
      if url.isWeb then .ok (some url)
      else .error (.configuration ("Unsupported base URL scheme: " ++ url.scheme))

def withAccept (s : Settings) (h : Http.Headers) : Except CallError Http.Headers :=
  match s.acceptType with
  | none => .ok h
  | some accept =>
    match Http.HeaderValue.ofString? accept with
    | none => .error (.configuration ("Invalid accept type: " ++ RequestDraft.valueProblem))
    | some value => .ok (h.insert .accept value)

/-- The header that carries the token, and its text. -/
def tokenField (s : Settings) (token : String) : Except CallError (Http.HeaderName × String) :=
  match s.authHeader with
  | none => .ok (.authorization, "Bearer " ++ token)
  | some header =>
    match Http.HeaderName.ofString? header with
    | none =>
      .error (.configuration ("Invalid auth header name: " ++ RequestDraft.nameProblem))
    | some name => .ok (name, token)

def withToken (s : Settings) (h : Http.Headers) : Except CallError Http.Headers :=
  match s.authToken with
  | none => .ok h
  | some token => do
    let (name, text) ← s.tokenField token
    match Http.HeaderValue.ofString? text with
    | none => .error (.configuration ("Invalid auth token: " ++ RequestDraft.valueProblem))
    | some value => return h.insert name { value with sensitive := true }

def build (s : Settings) : Except CallError Client := do
  let baseUrl ← s.checkedBase
  if s.maxConnectionsPerHost = 0 then
    .error (.configuration "max_connections_per_host must be at least 1")
  let headers ← s.withAccept s.defaultHeaders
  let headers ← s.withToken headers
  return {
    name := s.name
    baseUrl
    defaultHeaders := headers
    timeout := if s.timeout.isZero then none else some s.timeout
    maxConnectionsPerHost := s.maxConnectionsPerHost
    connectTimeout := s.connectTimeout
    poolIdleTimeout := s.poolIdleTimeout
    cooldownWindow := s.cooldownWindow
    expectedStatuses := s.expectedStatuses
    connectionTelemetry := s.connectionTelemetry
    schedule := s.schedule
    predicate := s.predicate }

end Settings

namespace Client

def debugText (c : Client) : String :=
  let base := match c.baseUrl with
    | some url => "Some(" ++ Text.quoted url.text ++ ")"
    | none => "None"
  "Client \x7b name: " ++ Text.quoted c.name ++ ", base_url: " ++ base ++ ", .. \x7d"

end Client

end ServiceCall
