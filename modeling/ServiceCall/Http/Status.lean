/-!
# Response status

The status codes 100 to 999, the phrases that go with the registered ones, and what a status
means for the call that got it.
-/

namespace ServiceCall.Http

structure Status where
  code : Nat
  lower : 100 ≤ code := by decide
  upper : code ≤ 999 := by decide
  deriving DecidableEq

namespace Status

instance : Repr Status := ⟨fun s _ => repr s.code⟩

def ofNat? (n : Nat) : Option Status :=
  if h : 100 ≤ n ∧ n ≤ 999 then some ⟨n, h.1, h.2⟩ else none

def ok : Status := ⟨200, by decide, by decide⟩
def noContent : Status := ⟨204, by decide, by decide⟩
def unauthorized : Status := ⟨401, by decide, by decide⟩
def forbidden : Status := ⟨403, by decide, by decide⟩
def notFound : Status := ⟨404, by decide, by decide⟩
def tooManyRequests : Status := ⟨429, by decide, by decide⟩

instance : Inhabited Status := ⟨ok⟩

def isSuccess (s : Status) : Bool := 200 ≤ s.code && s.code ≤ 299

def isServerError (s : Status) : Bool := 500 ≤ s.code && s.code ≤ 599

def reason? : Nat → Option String
  | 100 => some "Continue"
  | 101 => some "Switching Protocols"
  | 102 => some "Processing"
  | 103 => some "Early Hints"
  | 200 => some "OK"
  | 201 => some "Created"
  | 202 => some "Accepted"
  | 203 => some "Non Authoritative Information"
  | 204 => some "No Content"
  | 205 => some "Reset Content"
  | 206 => some "Partial Content"
  | 207 => some "Multi-Status"
  | 208 => some "Already Reported"
  | 226 => some "IM Used"
  | 300 => some "Multiple Choices"
  | 301 => some "Moved Permanently"
  | 302 => some "Found"
  | 303 => some "See Other"
  | 304 => some "Not Modified"
  | 305 => some "Use Proxy"
  | 307 => some "Temporary Redirect"
  | 308 => some "Permanent Redirect"
  | 400 => some "Bad Request"
  | 401 => some "Unauthorized"
  | 402 => some "Payment Required"
  | 403 => some "Forbidden"
  | 404 => some "Not Found"
  | 405 => some "Method Not Allowed"
  | 406 => some "Not Acceptable"
  | 407 => some "Proxy Authentication Required"
  | 408 => some "Request Timeout"
  | 409 => some "Conflict"
  | 410 => some "Gone"
  | 411 => some "Length Required"
  | 412 => some "Precondition Failed"
  | 413 => some "Payload Too Large"
  | 414 => some "URI Too Long"
  | 415 => some "Unsupported Media Type"
  | 416 => some "Range Not Satisfiable"
  | 417 => some "Expectation Failed"
  | 418 => some "I'm a teapot"
  | 421 => some "Misdirected Request"
  | 422 => some "Unprocessable Entity"
  | 423 => some "Locked"
  | 424 => some "Failed Dependency"
  | 425 => some "Too Early"
  | 426 => some "Upgrade Required"
  | 428 => some "Precondition Required"
  | 429 => some "Too Many Requests"
  | 431 => some "Request Header Fields Too Large"
  | 451 => some "Unavailable For Legal Reasons"
  | 500 => some "Internal Server Error"
  | 501 => some "Not Implemented"
  | 502 => some "Bad Gateway"
  | 503 => some "Service Unavailable"
  | 504 => some "Gateway Timeout"
  | 505 => some "HTTP Version Not Supported"
  | 506 => some "Variant Also Negotiates"
  | 507 => some "Insufficient Storage"
  | 508 => some "Loop Detected"
  | 510 => some "Not Extended"
  | 511 => some "Network Authentication Required"
  | _ => none

def text (s : Status) : String :=
  toString s.code ++ " " ++ (reason? s.code).getD "<unknown status code>"

/-- What a status asks of the call. -/
inductive Class where
  | success
  /-- The distinguished empty answer. -/
  | noContent
  /-- Trouble at the server that may pass. -/
  | retryable
  /-- Anything else: another attempt would not help. -/
  | terminal
  deriving DecidableEq, Repr

def toClass (s : Status) : Class :=
  if s = noContent then .noContent
  else if s.isSuccess then .success
  else if s.isServerError then .retryable
  else .terminal

end Status

end ServiceCall.Http
