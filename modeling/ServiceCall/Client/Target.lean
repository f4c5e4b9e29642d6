import ServiceCall.Client.Settings
import ServiceCall.Http.Uri
import ServiceCall.Metrics.Event

/-!
# Where a request goes

A route that is an address of its own is sent there; any other is glued to the base address with
one slash between them. Query parameters of the request follow those of the address.
-/

namespace ServiceCall

structure Target where
  uri : Http.Uri
  host : String
  /-- What connections and permits are kept by. -/
  poolKey : String
  deriving DecidableEq, Repr

/-- The base and the route with a single slash between them. -/
def joinUrl (base : Url) (route : String) : String :=
  String.ofList (Text.dropTrailing (· = '/') base.text.toList ++
    '/' :: route.toList.dropWhile (· = '/'))

namespace Client

/-- The address of a request, without its query parameters. -/
def address (c : Client) (r : Request) : Except CallError Url :=
  match Url.parse r.url with
  | .ok url => .ok url
  | .error .relative =>
    match c.baseUrl with
    | none =>
      .error (.configuration
        ("No base URL configured for relative route " ++ Text.quoted r.url))
    | some base => (Url.parse (joinUrl base r.url)).mapError .invalidUrl
  | .error problem => .error (.invalidUrl problem)

def target (c : Client) (r : Request) : Except CallError Target := do
  let url := (← c.address r).withPairs r.query
  if !url.isWeb then .error (.usage ("Unsupported URL scheme: " ++ url.text))
  match Http.Uri.parse url.text with
  | .error problem =>
    .error (.usage ("Invalid URI " ++ url.text ++ ": " ++ problem.message))
  | .ok uri =>
    return { uri, host := uri.destination, poolKey := url.scheme ++ "://" ++ uri.destination }

def tags (c : Client) (r : Request) (host : String) : List Tag :=
  [⟨"client", c.name⟩, ⟨"route", r.site.route⟩, ⟨"method", r.site.method.name⟩, ⟨"host", host⟩]

end Client

end ServiceCall
