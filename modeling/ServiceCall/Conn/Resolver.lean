import ServiceCall.Url.Host

/-!
# Looking up names

Addresses that are registered for a name, in any case, are used instead of asking the system.
-/

namespace ServiceCall

structure SocketAddress where
  host : Url.Host
  port : Nat
  deriving DecidableEq, Repr

namespace SocketAddress

/-- An address in four decimal bytes without leading zeros. -/
def ipv4? (cs : List Char) : Option Nat :=
  match (Text.splitChars '.' cs).mapM Url.decimalByte? with
  | some [a, b, c, d] => some (((a * 256 + b) * 256 + c) * 256 + d)
  | _ => none

def host? (cs : List Char) : Option Url.Host :=
  match Url.bracketed? cs with
  | some host => host.toOption
  | none => (ipv4? cs).map .ipv4

/-- An address and a port, with a colon between them. -/
def ofString? (s : String) : Option SocketAddress := do
  let port := s.toList.reverse.takeWhile (· ≠ ':')
  let host ← host? (s.toList.take (s.length - port.length - 1))
  let port ← (Text.digitsNumber? port.reverse).filter (· < 65536)
  return ⟨host, port⟩

def text (a : SocketAddress) : String := a.host.text ++ ":" ++ toString a.port

end SocketAddress

/-- The addresses registered for each name, which is in lower case. -/
structure Overrides where
  table : List (String × List SocketAddress)
  deriving DecidableEq, Repr

namespace Overrides

def empty : Overrides := ⟨[]⟩

def add (o : Overrides) (host : String) (addresses : List SocketAddress) : Overrides :=
  let host := Text.lower host
  if o.table.any (·.1 = host) then
    ⟨o.table.map fun (name, known) =>
      if name = host then (name, known ++ addresses) else (name, known)⟩
  else ⟨o.table ++ [(host, addresses)]⟩

def register (o : Overrides) (host : String) (address : SocketAddress) : Overrides :=
  o.add host [address]

def lookup? (o : Overrides) (name : String) : Option (List SocketAddress) :=
  o.table.lookup (Text.lower name)

/-- The addresses of a name, or why there are none. Asking `system` is an action, taken only for
names that are not registered. -/
def resolve {m : Type → Type} [Monad m] [MonadExcept String m] (o : Overrides)
    (system : String → m (List SocketAddress)) (name : String) : m (List SocketAddress) := do
  let addresses ← match o.lookup? name with
    | some addresses => pure addresses
    | none => system name
  if addresses.isEmpty then throw ("no addresses resolved for " ++ name)
  else return addresses

end Overrides

end ServiceCall
