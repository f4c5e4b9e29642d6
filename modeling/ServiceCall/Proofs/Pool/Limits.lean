import ServiceCall.Proofs.Client.Building
import ServiceCall.Proofs.Pool.Prompt

/-!
# Limits of clients

What a caller that asks for a permit is told. A destination that is new needs a semaphore, and none
can be made with more than `Permits.maxLimit` permits; a semaphore refuses callers once it is
closed. A client can be built with every limit but zero.
-/

namespace ServiceCall

namespace Settings

theorem limit_of_build {s : Settings} {client : Client} (hbuild : s.build = .ok client) :
    client.maxConnectionsPerHost = s.maxConnectionsPerHost := by
  obtain ⟨base, -, hbuild⟩ := exists_of_bind_ok hbuild
  dsimp only at hbuild
  split at hbuild
  · cases hbuild
  · obtain ⟨h, -, hbuild⟩ := exists_of_bind_ok hbuild
    obtain ⟨h', -, hbuild⟩ := exists_of_bind_ok hbuild
    cases hbuild
    rfl

theorem limit_pos_of_build {s : Settings} {client : Client} (hbuild : s.build = .ok client) :
    0 < client.maxConnectionsPerHost := by
  rw [limit_of_build hbuild]
  exact (s.exists_build_iff.mp ⟨client, hbuild⟩).connections

/-- The standard settings but for the limit. -/
def limited (limit : Nat) : Settings := { standard with maxConnectionsPerHost := limit }

theorem exists_build_limited {limit : Nat} (hpos : 0 < limit) :
    ∃ client, (limited limit).build = .ok client ∧ client.maxConnectionsPerHost = limit := by
  have hvalid : (limited limit).Valid := ⟨nofun, hpos, nofun, nofun⟩
  obtain ⟨client, hbuild⟩ := (exists_build_iff _).mpr hvalid
  exact ⟨client, hbuild, limit_of_build hbuild⟩

end Settings

/-- What a caller that asks for a permit is told. -/
inductive Admission where
  /-- It has the semaphore of its destination. -/
  | found
  | granted
  | waiting
  | failed (error : CallError)
  /-- There is no such semaphore. -/
  | crashed
  deriving DecidableEq, Repr

namespace Admission

def ofTicket : Option Ticket → Admission
  | none => .found
  | some .granted => .granted
  | some .waiting => .waiting

def Accepted (a : Admission) : Prop := a = .granted ∨ a = .waiting

theorem accepted_ofTicket {ticket : Option Ticket} (h : ticket ≠ none) :
    (ofTicket ticket).Accepted := by
  match ticket with
  | none => exact absurd rfl h
  | some .granted => exact Or.inl rfl
  | some .waiting => exact Or.inr rfl

theorem eq_of_ofTicket_eq_waiting {ticket : Option Ticket} (h : ofTicket ticket = .waiting) :
    ticket = some .waiting := by
  match ticket with
  | none => cases h
  | some .granted => cases h
  | some .waiting => rfl

end Admission

/-- The table, with the numbers of the semaphores that are closed. -/
structure ClosableLimiter where
  limiter : Limiter
  closed : List Nat
  deriving DecidableEq, Repr

namespace ClosableLimiter

def ofLimit (limit : Nat) : ClosableLimiter := ⟨.ofLimit limit, []⟩

def closedError : CallError := .configuration "connection limiter closed"

/-- A caller looks up its destination. Idle destinations are forgotten before a semaphore is made,
so they are also forgotten if none can be made. -/
def lookUp (c : ClosableLimiter) (key : String) (id : Nat) : Admission × ClosableLimiter :=
  let l := c.limiter
  if l.semaphores.any (·.serves (Text.lower key)) || l.permits.canAcquire then
    (.found, { c with limiter := l.ask key id })
  else
    (.crashed, { c with limiter := { l with semaphores := l.semaphores.map .kept } })

/-- The caller has a semaphore that is closed. -/
def isClosedFor (c : ClosableLimiter) (id : Nat) : Bool :=
  c.closed.any fun i => c.limiter.semaphores[i]?.any (id ∈ ·.callers)

def ticket? (c : ClosableLimiter) (id : Nat) : Option Ticket :=
  c.limiter.semaphores.findSome? (·.queue.tickets.lookup id)

/-- How it stands with a caller. -/
def poll (c : ClosableLimiter) (id : Nat) : Admission :=
  if c.ticket? id = some .waiting ∧ c.isClosedFor id then .failed closedError
  else .ofTicket (c.ticket? id)

/-- A caller that has a semaphore asks it for a permit. -/
def enter (c : ClosableLimiter) (id : Nat) : Admission × ClosableLimiter :=
  if c.isClosedFor id then (.failed closedError, { c with limiter := c.limiter.drop id })
  else
    let c := { c with limiter := c.limiter.join id }
    (c.poll id, c)

/-- A prompt caller asks for a permit to a destination. -/
def acquire (c : ClosableLimiter) (key : String) (id : Nat) : Admission × ClosableLimiter :=
  match c.lookUp key id with
  | (.found, c) => c.enter id
  | crashed => crashed

/-- The table can come about: the steps of all callers may come in any order. -/
inductive Reached (limit : Nat) : ClosableLimiter → Prop
  | new : Reached limit (.ofLimit limit)
  | lookedUp {c} (key id) (hr : Reached limit c) (h : ∀ s ∈ c.limiter.semaphores, id ∉ s.callers) :
      Reached limit (c.lookUp key id).2
  | entered {c} (id) (hr : Reached limit c) (h : ∃ s ∈ c.limiter.semaphores, id ∈ s.clones) :
      Reached limit (c.enter id).2
  | left {c} (id) (hr : Reached limit c) (h : ∃ s ∈ c.limiter.semaphores, id ∈ s.queue.ids) :
      Reached limit { c with limiter := c.limiter.leave id }
  | dropped {c} (id) (hr : Reached limit c) (h : ∃ s ∈ c.limiter.semaphores, id ∈ s.clones) :
      Reached limit { c with limiter := c.limiter.drop id }

section

variable {limit : Nat} {c : ClosableLimiter} {id : Nat}

/-! ## Open semaphores -/

theorem isClosedFor_eq_false (hopen : c.closed = []) (id : Nat) : c.isClosedFor id = false := by
  rw [isClosedFor, hopen, List.any_nil]

theorem poll_eq (hopen : c.closed = []) (id : Nat) : c.poll id = .ofTicket (c.ticket? id) := by
  simp [poll, isClosedFor_eq_false hopen]

theorem ticket?_ne_none {s : Semaphore} (hs : s ∈ c.limiter.semaphores) (hid : id ∈ s.queue.ids) :
    c.ticket? id ≠ none := by
  intro hnone
  exact Queue.lookup_eq_none_iff.mp (List.findSome?_eq_none_iff.mp hnone s hs) hid

theorem accepted_poll (hopen : c.closed = []) {s : Semaphore} (hs : s ∈ c.limiter.semaphores)
    (hid : id ∈ s.queue.ids) : (c.poll id).Accepted := by
  rw [poll_eq hopen]
  exact Admission.accepted_ofTicket (ticket?_ne_none hs hid)

theorem enter_eq (hopen : c.closed = []) (id : Nat) :
    c.enter id = (poll { c with limiter := c.limiter.join id } id,
      { c with limiter := c.limiter.join id }) := by
  rw [enter, isClosedFor_eq_false hopen]
  rfl

theorem accepted_enter (hopen : c.closed = []) {s : Semaphore} (hs : s ∈ c.limiter.semaphores)
    (hid : id ∈ s.clones) : (c.enter id).1.Accepted := by
  have hqueue : id ∈ (s.join id).queue.ids := by
    simp [Semaphore.join, hid]
  rw [enter_eq hopen]
  exact accepted_poll hopen (List.mem_map_of_mem hs) hqueue

/-- Who waits does so because somebody has a permit. -/
theorem exists_granted_of_waiting (h : c.limiter.Sound) (hpos : 0 < c.limiter.limit)
    (hwaits : c.ticket? id = some .waiting) :
    ∃ s ∈ c.limiter.semaphores, id ∈ s.queue.ids ∧ ∃ id', (id', .granted) ∈ s.queue.tickets := by
  obtain ⟨s, hs, hlookup⟩ := List.exists_of_findSome?_eq_some hwaits
  obtain ⟨before, after, htickets, -⟩ := List.lookup_eq_some_iff.mp hlookup
  have hmem : (id, .waiting) ∈ s.queue.tickets := by simp [htickets]
  have hgranted : 0 < s.queue.granted := by
    have hcount := (h.balanced s hs).count
    have hfree := (h.balanced s hs).full id hmem
    omega
  obtain ⟨⟨id', ticket⟩, hmem', heq⟩ := List.countP_pos_iff.mp hgranted
  obtain rfl : ticket = .granted := of_decide_eq_true heq
  exact ⟨s, hs, List.mem_map_of_mem hmem, id', hmem'⟩

/-- Nobody has a ticket at a semaphore that the table does not have. -/
theorem ticket?_eq (h : c.limiter.Sound) (id : Nat) :
    c.ticket? id = c.limiter.permits.ticket? id := by
  have hnone : ∀ s ∈ c.limiter.semaphores, s.listed = false → s.queue.tickets = [] := by
    intro s hs hlisted
    by_contra htickets
    have hcallers : s.callers ≠ [] := by simp [Semaphore.callers, Queue.ids, htickets]
    rw [h.listed s hs hcallers] at hlisted
    cases hlisted
  unfold ticket? Permits.ticket? Limiter.permits
  dsimp only
  generalize c.limiter.semaphores = semaphores at hnone
  induction semaphores with
  | nil => rfl
  | cons s semaphores ih =>
    have hrest := ih fun s' hs' => hnone s' (List.mem_cons_of_mem _ hs')
    rw [List.findSome?_cons, hrest]
    cases hlisted : s.listed with
    | true => rw [List.filter_cons_of_pos hlisted, List.map_cons, List.findSome?_cons]
    | false =>
      rw [hnone s (List.mem_cons_self ..) hlisted, List.filter_cons_of_neg (by simp [hlisted])]
      rfl

/-! ## Which tables come about -/

/-- What steps keep: no semaphore is closed, and none is there that could not be made. -/
structure Sound (limit : Nat) (c : ClosableLimiter) : Prop where
  allOpen : c.closed = []
  counted : limit ≤ Permits.maxLimit → ∃ acts, Limiter.Run limit acts c.limiter
  empty : Permits.maxLimit < limit → c.limiter = .ofLimit limit

theorem lookUp_of_le (hlimit : c.limiter.limit ≤ Permits.maxLimit) (key : String) (id : Nat) :
    c.lookUp key id = (.found, { c with limiter := c.limiter.ask key id }) := by
  have hcan : c.limiter.permits.canAcquire = true := decide_eq_true hlimit
  simp [lookUp, hcan]

theorem lookUp_of_lt (hlimit : Permits.maxLimit < limit) (hempty : c.limiter = .ofLimit limit)
    (key : String) (id : Nat) : c.lookUp key id = (.crashed, c) := by
  have hcan : (Limiter.ofLimit limit).permits.canAcquire = false :=
    decide_eq_false (Nat.not_le.mpr hlimit)
  obtain ⟨_, closed⟩ := c
  obtain rfl := hempty
  simp [lookUp, hcan]
  rfl

theorem acquire_of_le (hlimit : c.limiter.limit ≤ Permits.maxLimit) (key : String) (id : Nat) :
    c.acquire key id = enter { c with limiter := c.limiter.ask key id } id := by
  rw [acquire, lookUp_of_le hlimit]

/-- Prompt callers are told what the permits say. -/
theorem acquire_of_settled (hopen : c.closed = []) {acts : List Limiter.Act}
    (hrun : Limiter.Run limit acts c.limiter) (hlimit : limit ≤ Permits.maxLimit)
    (hsettled : c.limiter.Settled) (key : String) (hid : c.limiter.permits.ticket? id = none) :
    (c.acquire key id).1 = .ofTicket ((c.limiter.permits.acquire key id).ticket? id) ∧
      (c.acquire key id).2.limiter.permits = c.limiter.permits.acquire key id := by
  have hpermits := (hsettled.ask_join key id).2
  obtain ⟨acts', hrun'⟩ := hsettled.run_ask_join hrun key hid
  let joined : ClosableLimiter := { c with limiter := (c.limiter.ask key id).join id }
  have hacquire : c.acquire key id = (joined.poll id, joined) := by
    rw [acquire_of_le (hrun.limit_eq.symm ▸ hlimit)]
    exact enter_eq (c := { c with limiter := c.limiter.ask key id }) hopen id
  have hticket : joined.ticket? id = (c.limiter.permits.acquire key id).ticket? id :=
    hpermits ▸ ticket?_eq hrun'.sound id
  rw [hacquire, poll_eq (c := joined) hopen, hticket]
  exact ⟨rfl, hpermits⟩

theorem acquire_of_lt (hlimit : Permits.maxLimit < limit) (hempty : c.limiter = .ofLimit limit)
    (key : String) (id : Nat) : c.acquire key id = (.crashed, c) := by
  rw [acquire, lookUp_of_lt hlimit hempty]

/-- A step of the callers can be one more of a run, and callers cannot do it without semaphores. -/
theorem Sound.step {l' : Limiter} {act : Limiter.Act} (h : c.Sound limit)
    (hstep : Limiter.Step c.limiter act l') (hhas : c.limiter.semaphores ≠ []) :
    Sound limit { c with limiter := l' } where
  allOpen := h.allOpen
  counted hlimit := by
    obtain ⟨acts, hrun⟩ := h.counted hlimit
    exact ⟨_, hrun.snoc hstep⟩
  empty hlimit := by
    rw [h.empty hlimit] at hhas
    exact absurd rfl hhas

theorem Sound.lookUp (h : c.Sound limit) (hid : ∀ s ∈ c.limiter.semaphores, id ∉ s.callers)
    (key : String) : (c.lookUp key id).2.Sound limit := by
  by_cases hlimit : limit ≤ Permits.maxLimit
  · obtain ⟨acts, hrun⟩ := h.counted hlimit
    rw [lookUp_of_le (hrun.limit_eq.symm ▸ hlimit)]
    exact ⟨h.allOpen, fun _ => ⟨_, hrun.snoc (.asked key id hid)⟩, fun hlt => by omega⟩
  · -- The caller crashes, and there was nothing to forget.
    rw [lookUp_of_lt (Nat.not_le.mp hlimit) (h.empty (Nat.not_le.mp hlimit))]
    exact h

theorem Reached.sound (h : c.Reached limit) : c.Sound limit := by
  have hhas : ∀ {c : ClosableLimiter} {P : Semaphore → Prop},
      (∃ s ∈ c.limiter.semaphores, P s) → c.limiter.semaphores ≠ [] :=
    fun ⟨_, hs, _⟩ => List.ne_nil_of_mem hs
  induction h with
  | new => exact ⟨rfl, fun _ => ⟨[], .nil⟩, fun _ => rfl⟩
  | lookedUp key id _ hid ih => exact ih.lookUp hid key
  | entered id _ hid ih =>
    rw [enter_eq ih.allOpen]
    exact ih.step (.joined id hid) (hhas hid)
  | left id _ hid ih => exact ih.step (.left id hid) (hhas hid)
  | dropped id _ hid ih => exact ih.step (.dropped id hid) (hhas hid)

end

/-- With a limit up to which permits can be counted, no caller of a client that was built fails or
crashes: each gets a permit or waits, and it waits only while somebody has one. With any higher
limit, each of them crashes. -/
theorem acquire_accepted {s : Settings} {client : Client} (hbuild : s.build = .ok client)
    {c : ClosableLimiter} (h : c.Reached client.maxConnectionsPerHost) :
    (client.maxConnectionsPerHost ≤ Permits.maxLimit →
      (∀ key id, (c.acquire key id).1.Accepted ∧ (c.lookUp key id).1 = .found) ∧
      (∀ s ∈ c.limiter.semaphores, ∀ id ∈ s.clones, (c.enter id).1.Accepted) ∧
      (∀ s ∈ c.limiter.semaphores, ∀ id ∈ s.queue.ids, (c.poll id).Accepted) ∧
      (∀ id, c.poll id = .waiting → ∃ s ∈ c.limiter.semaphores, id ∈ s.queue.ids ∧
        ∃ id', (id', .granted) ∈ s.queue.tickets) ∧
      (c.limiter.Settled → ∀ key id, c.limiter.permits.ticket? id = none →
        (c.acquire key id).1 = .ofTicket ((c.limiter.permits.acquire key id).ticket? id) ∧
          (c.acquire key id).2.limiter.permits = c.limiter.permits.acquire key id)) ∧
    (Permits.maxLimit < client.maxConnectionsPerHost →
      ∀ key id, c.acquire key id = (.crashed, c)) := by
  have hsound := h.sound
  have hopen := hsound.allOpen
  constructor
  · intro hlimit
    obtain ⟨acts, hrun⟩ := hsound.counted hlimit
    have hcounted : c.limiter.limit ≤ Permits.maxLimit := hrun.limit_eq.symm ▸ hlimit
    refine ⟨?_, ?_, ?_, ?_, ?_⟩
    · intro key id
      obtain ⟨s, hs, hserves⟩ := Limiter.exists_serves_withKey c.limiter (Text.lower key)
      have hid : id ∈ (s.cloned (Text.lower key) id).clones := by simp [Semaphore.cloned, hserves]
      rw [acquire_of_le hcounted, lookUp_of_le hcounted]
      exact ⟨accepted_enter hopen (List.mem_map_of_mem hs) hid, rfl⟩
    · exact fun s hs id hid => accepted_enter hopen hs hid
    · exact fun s hs id hid => accepted_poll hopen hs hid
    · intro id hwaits
      rw [poll_eq hopen] at hwaits
      have hpos : 0 < c.limiter.limit := hrun.limit_eq.symm ▸ Settings.limit_pos_of_build hbuild
      exact exists_granted_of_waiting hrun.sound hpos (Admission.eq_of_ofTicket_eq_waiting hwaits)
    · exact fun hsettled key id => acquire_of_settled hopen hrun hlimit hsettled key
  · exact fun hlimit => acquire_of_lt hlimit (hsound.empty hlimit)

/-- One caller has the only permit to a destination. -/
def busy : ClosableLimiter := ⟨⟨1, [⟨⟨"http://api:80", 0, [(0, .granted)]⟩, true, []⟩]⟩, []⟩

theorem reached_busy : busy.Reached 1 := by
  have h₁ := (@Reached.new 1).lookedUp "http://api:80" 0 (by decide)
  have h₂ := h₁.entered 0 (by decide)
  rwa [show Prod.snd (enter _ 0) = busy by decide] at h₂

theorem acquire_accepted_of_busy :
    ∃ client, (Settings.limited 1).build = .ok client ∧
      busy.Reached client.maxConnectionsPerHost ∧ client.maxConnectionsPerHost ≤ Permits.maxLimit ∧
      busy.limiter.Settled ∧ busy.limiter.permits.ticket? 1 = none ∧
      (busy.acquire "http://API:80" 1).1.Accepted ∧
      (busy.acquire "http://API:80" 1).1 = .waiting := by
  obtain ⟨client, hbuild, hlimit⟩ := @Settings.exists_build_limited 1 (by decide)
  have hreached : busy.Reached client.maxConnectionsPerHost := hlimit ▸ reached_busy
  have hcounted : client.maxConnectionsPerHost ≤ Permits.maxLimit := hlimit ▸ (by decide)
  have hsettled : busy.limiter.Settled := List.forall_mem_singleton.mpr rfl
  obtain ⟨haccepted, -⟩ := (acquire_accepted hbuild hreached).1 hcounted
  exact ⟨client, hbuild, hreached, hcounted, hsettled, by decide, (haccepted _ _).1, by decide⟩

/-- A limit that a client can be built with is one too high for its permits. -/
theorem limit_too_high :
    ¬ ∀ (s : Settings) (client : Client) (c : ClosableLimiter), s.build = .ok client →
      c.Reached client.maxConnectionsPerHost → ∀ key id, (c.acquire key id).1.Accepted := by
  intro hclaim
  obtain ⟨client, hbuild, hlimit⟩ :=
    @Settings.exists_build_limited (Permits.maxLimit + 1) (by decide)
  have hhigh : Permits.maxLimit < client.maxConnectionsPerHost := hlimit ▸ (by decide)
  have haccepted := hclaim _ client _ hbuild .new "k" 0
  rw [acquire_of_lt hhigh rfl] at haccepted
  rcases haccepted with h | h <;> cases h

end ClosableLimiter

end ServiceCall
