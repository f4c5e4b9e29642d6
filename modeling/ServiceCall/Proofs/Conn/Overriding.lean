import ServiceCall.Conn.Resolver
import ServiceCall.Proofs.Text.Letters
import Mathlib.Data.List.Induction

/-!
# Names with registered addresses

What the table of overrides has under a name after any registrations, and what a lookup of the
name makes of it. To ask the system is an action of an arbitrary monad, so an answer that is
`pure` was given without asking.
-/

namespace ServiceCall.Overrides

/-! ## One registration -/

theorem lookup_map_add (table : List (String × List SocketAddress)) (host name : String)
    (addresses : List SocketAddress) :
    (table.map fun entry =>
      (entry.1, if entry.1 = host then entry.2 ++ addresses else entry.2)).lookup name =
        (table.lookup name).map fun known => if name = host then known ++ addresses else known := by
  induction table with
  | nil => rfl
  | cons entry table ih =>
    obtain ⟨key, known⟩ := entry
    rw [List.map_cons, List.lookup_cons, List.lookup_cons, ih]
    by_cases hkey : name = key
    · subst hkey
      simp
    · simp [beq_false_of_ne hkey]

section

variable {o : Overrides} {host name : String}

theorem any_host_iff (o : Overrides) (host : String) :
    o.table.any (·.1 = host) = true ↔ (o.table.lookup host).isSome = true := by
  rw [List.any_eq_true, List.lookup_isSome_iff]
  simp only [decide_eq_true_eq, beq_iff_eq, @eq_comm _ host]

theorem table_add_of_known {known : List SocketAddress} (hknown : o.lookup? host = some known)
    (addresses : List SocketAddress) :
    (o.add host addresses).table = o.table.map fun entry =>
      (entry.1, if entry.1 = Text.lower host then entry.2 ++ addresses else entry.2) := by
  have hany : o.table.any (·.1 = Text.lower host) = true := by
    rw [any_host_iff, ← lookup?, hknown]
    rfl
  unfold add
  rw [if_pos hany]
  refine List.map_congr_left fun entry _ => ?_
  dsimp only
  split <;> rfl

theorem table_add_of_new (hnew : o.lookup? host = none) (addresses : List SocketAddress) :
    (o.add host addresses).table = o.table ++ [(Text.lower host, addresses)] := by
  have hnot : ¬ o.table.any (·.1 = Text.lower host) = true := by
    rw [any_host_iff, ← lookup?, hnew]
    exact Bool.false_ne_true
  unfold add
  rw [if_neg hnot]

theorem lookup?_congr (o : Overrides) (hsame : Text.SameLetters host name) :
    o.lookup? host = o.lookup? name := by
  unfold lookup?
  rw [(Text.lower_eq_lower_iff host name).mpr hsame]

/-- What is added for a host comes after what the table has under it. -/
theorem lookup?_add_self (o : Overrides) (host : String) (addresses : List SocketAddress) :
    (o.add host addresses).lookup? host = some ((o.lookup? host).getD [] ++ addresses) := by
  cases hhost : o.lookup? host with
  | some known =>
    rw [lookup?, table_add_of_known hhost, lookup_map_add, ← lookup?, hhost]
    simp
  | none =>
    rw [lookup?, table_add_of_new hhost, List.lookup_append, ← lookup?, hhost]
    simp

theorem lookup?_add_of_other (o : Overrides) (hother : ¬ Text.SameLetters host name)
    (addresses : List SocketAddress) :
    (o.add host addresses).lookup? name = o.lookup? name := by
  have hname : Text.lower name ≠ Text.lower host :=
    fun heq => hother ((Text.lower_eq_lower_iff _ _).mp heq.symm)
  unfold lookup?
  cases hhost : o.lookup? host with
  | some known =>
    rw [table_add_of_known hhost, lookup_map_add]
    simp [hname]
  | none =>
    rw [table_add_of_new hhost, List.lookup_append]
    simp [List.lookup_cons, beq_false_of_ne hname]

end

/-! ## All registrations -/

/-- One registration after the other. -/
def registered (registrations : List (String × SocketAddress)) : Overrides :=
  registrations.foldl (fun o registration => o.register registration.1 registration.2) empty

/-- The addresses that were registered for a name in any case, in that order. -/
def addressesFor (registrations : List (String × SocketAddress)) (name : String) :
    List SocketAddress :=
  registrations.filterMap fun registration =>
    if Text.SameLetters registration.1 name then some registration.2 else none

theorem addressesFor_append (registrations more : List (String × SocketAddress)) (name : String) :
    addressesFor (registrations ++ more) name =
      addressesFor registrations name ++ addressesFor more name :=
  List.filterMap_append

theorem addressesFor_eq_nil_iff (registrations : List (String × SocketAddress)) (name : String) :
    addressesFor registrations name = [] ↔
      ∀ registration ∈ registrations, ¬ Text.SameLetters registration.1 name := by
  unfold addressesFor
  rw [List.filterMap_eq_nil_iff]
  refine forall₂_congr fun registration _ => ?_
  split <;> simp [*]

theorem lookup?_registered (registrations : List (String × SocketAddress)) (name : String) :
    (registered registrations).lookup? name =
      if addressesFor registrations name = [] then none
      else some (addressesFor registrations name) := by
  induction registrations using List.reverseRecOn with
  | nil => rfl
  | append_singleton registrations registration ih =>
    have hnext : registered (registrations ++ [registration]) =
        (registered registrations).add registration.1 [registration.2] := by
      unfold registered
      rw [List.foldl_append]
      rfl
    rw [hnext, addressesFor_append]
    -- The last registration adds to what those before it have left, or is for another host.
    by_cases hsame : Text.SameLetters registration.1 name
    · have hlast : addressesFor [registration] name = [registration.2] := by
        simp [addressesFor, hsame]
      rw [← lookup?_congr _ hsame, lookup?_add_self, lookup?_congr _ hsame, ih, hlast]
      split <;> simp [*]
    · have hlast : addressesFor [registration] name = [] := by
        simp [addressesFor, hsame]
      rw [lookup?_add_of_other _ hsame, ih, hlast, List.append_nil]

/-! ## Lookups -/

section

variable {m : Type → Type} [Monad m] [MonadExcept String m] {o : Overrides} {name : String}

theorem resolve_of_some [LawfulMonad m] {addresses : List SocketAddress}
    (hknown : o.lookup? name = some addresses) (hne : addresses ≠ [])
    (system : String → m (List SocketAddress)) : o.resolve system name = pure addresses := by
  unfold resolve
  rw [hknown]
  simp [hne]

theorem resolve_of_none (hnone : o.lookup? name = none)
    (system : String → m (List SocketAddress)) :
    o.resolve system name = system name >>= fun addresses =>
      if addresses = [] then throw ("no addresses resolved for " ++ name) else pure addresses := by
  unfold resolve
  rw [hnone]
  simp

end

/-- A name that was registered in any case has the addresses of its registrations, in their order,
and nobody is asked. For any other name the system is asked, and an answer without addresses is a
failure. -/
theorem resolve_registered {m : Type → Type} [Monad m] [LawfulMonad m] [MonadExcept String m]
    (registrations : List (String × SocketAddress)) (system : String → m (List SocketAddress))
    (name : String) :
    ((∃ registration ∈ registrations, Text.SameLetters registration.1 name) →
      (registered registrations).resolve system name = pure (addressesFor registrations name)) ∧
    ((∀ registration ∈ registrations, ¬ Text.SameLetters registration.1 name) →
      (registered registrations).resolve system name = system name >>= fun addresses =>
        if addresses = [] then throw ("no addresses resolved for " ++ name)
        else pure addresses) := by
  have hlookup := lookup?_registered registrations name
  constructor
  · rintro ⟨registration, hmem, hsame⟩
    have hne : addressesFor registrations name ≠ [] := fun hnil =>
      (addressesFor_eq_nil_iff registrations name).mp hnil registration hmem hsame
    rw [if_neg hne] at hlookup
    exact resolve_of_some hlookup hne system
  · intro hother
    have hnil := (addressesFor_eq_nil_iff registrations name).mpr hother
    rw [if_pos hnil] at hlookup
    exact resolve_of_none hlookup system

/-- Two hosts, one of them in two spellings. -/
def spelled : List (String × SocketAddress) :=
  [("api.Test", ⟨.ipv4 1, 80⟩), ("db.test", ⟨.ipv4 2, 80⟩), ("API.test", ⟨.ipv4 3, 81⟩)]

/-- A system that knows one name and keeps a list of what it was asked. -/
def noting (name : String) : ExceptT String (StateM (List String)) (List SocketAddress) := do
  modify (· ++ [name])
  return if name = "other.test" then [⟨.ipv4 4, 0⟩] else []

theorem resolve_registered_of_spelled :
    (∃ registration ∈ spelled, Text.SameLetters registration.1 "Api.TEST") ∧
      ((registered spelled).resolve noting "Api.TEST").run.run [] =
        (.ok [⟨.ipv4 1, 80⟩, ⟨.ipv4 3, 81⟩], []) ∧
      (∀ registration ∈ spelled, ¬ Text.SameLetters registration.1 "other.test") ∧
      ((registered spelled).resolve noting "other.test").run.run [] =
        (.ok [⟨.ipv4 4, 0⟩], ["other.test"]) ∧
      (∀ registration ∈ spelled, ¬ Text.SameLetters registration.1 "api") ∧
      ((registered spelled).resolve noting "api").run.run [] =
        (.error "no addresses resolved for api", ["api"]) := by
  have hsame : ∃ registration ∈ spelled, Text.SameLetters registration.1 "Api.TEST" := by decide
  have hother : ∀ registration ∈ spelled, ¬ Text.SameLetters registration.1 "other.test" := by
    decide
  have hpart : ∀ registration ∈ spelled, ¬ Text.SameLetters registration.1 "api" := by decide
  refine ⟨hsame, ?_, hother, ?_, hpart, ?_⟩
  · rw [(resolve_registered spelled noting "Api.TEST").1 hsame]
    rfl
  · rw [(resolve_registered spelled noting "other.test").2 hother]
    rfl
  · rw [(resolve_registered spelled noting "api").2 hpart]
    rfl

end ServiceCall.Overrides
