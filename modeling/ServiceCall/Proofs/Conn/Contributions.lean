import ServiceCall.Proofs.Conn.Chronicle
import Mathlib.Algebra.BigOperators.Group.Finset.Piecewise
import Mathlib.Algebra.Order.BigOperators.Group.Finset

/-!
# What each connection adds to the count

The estimate of idle connections is one signed number that all connections change on their own.
It is the sum of what each of them has added and taken back, and none ever takes back more than it
has added, so the number is never negative and a scrape hides nothing.
-/

namespace ServiceCall

namespace ConnEvent

def writesOrDrops : ConnEvent → Bool
  | .wrote .. | .closed _ => true
  | .received .. | .released .. => false

/-- A stream that is dropped is neither dropped again nor written to. -/
def Sealed (events : List ConnEvent) : Prop :=
  events.Pairwise fun event later => event = .closed later.conn → later.writesOrDrops = false

instance (events : List ConnEvent) : Decidable (Sealed events) :=
  inferInstanceAs (Decidable (events.Pairwise _))

theorem Sealed.not_mem {events : List ConnEvent} {event : ConnEvent}
    (h : Sealed (events ++ [event])) (hevent : event.writesOrDrops = true) :
    .closed event.conn ∉ events := by
  intro hclosed
  have hlast := (List.pairwise_append.mp h).2.2 _ hclosed event (List.mem_singleton_self _) rfl
  rw [hevent] at hlast
  cases hlast

end ConnEvent

/-! ## One connection -/

namespace Usage

/-- How an event changes the number of idle connections. -/
def change (u : Usage) : ConnEvent → Int
  | .wrote _ t => (u.wrote t).2
  | .received .. => 0
  | .released _ obtainedAt t => (u.released obtainedAt t).2
  | .closed _ => u.closingChange

@[simp] theorem change_unused (event : ConnEvent) : unused.change event = 0 := by
  cases event <;> rfl

/-- What a connection can have added. While its stream is open it has added itself if it is idle.
Later it may add itself once more, and that is for good. -/
structure Adds (u : Usage) (isOpen : Prop) (added : Int) : Prop where
  apart : u.Apart
  zero_or_one : added = 0 ∨ added = 1
  resting : added = 1 → u.inUse = false
  idle : isOpen → (added = 1 ↔ u.idle = true)

variable {u : Usage} {isOpen : Prop} {added : Int}

theorem adds_unused (isOpen : Prop) : unused.Adds isOpen 0 where
  apart := by simp [Apart, unused]
  zero_or_one := Or.inl rfl
  resting := by simp
  idle := by simp [unused]

/-- What was added is taken back when an idle connection is used or dropped. -/
theorem Adds.taken_back (h : u.Adds isOpen added) (ho : isOpen) :
    added + (if u.idle then -1 else 0) = 0 := by
  have hidle := h.idle ho
  rcases h.zero_or_one with rfl | rfl <;> simp_all

theorem Adds.wrote (h : u.Adds isOpen added) (ho : isOpen) (t : Instant) (isOpen' : Prop) :
    (u.wrote t).1.Adds isOpen' (added + (u.wrote t).2) := by
  have hidle := idle_wrote h.apart t
  rw [change_wrote h.apart, h.taken_back ho]
  exact ⟨by simp [Apart, hidle], Or.inl rfl, by simp, by simp [hidle]⟩

theorem Adds.received (h : u.Adds isOpen added) (t : Instant) :
    (u.received t).Adds isOpen added where
  apart := by simpa [Apart] using h.apart
  zero_or_one := h.zero_or_one
  resting := by simpa using h.resting
  idle := by simpa using h.idle

theorem Adds.released (h : u.Adds isOpen added) (obtainedAt t : Instant) :
    (u.released obtainedAt t).1.Adds isOpen (added + (u.released obtainedAt t).2) := by
  by_cases hserves : u.ServesSince obtainedAt
  · -- It is in use, so it has nothing in the count.
    have huse := ((servesSince_iff ..).mp hserves).1
    have hzero : added = 0 := h.zero_or_one.resolve_right fun hone => by
      simp [h.resting hone] at huse
    rw [released_of_serves hserves, hzero]
    exact ⟨by simp [Apart], Or.inr rfl, by simp, by simp⟩
  · rw [released_of_not_serves hserves, Int.add_zero]
    exact h

theorem Adds.closed (h : u.Adds isOpen added) (ho : isOpen) :
    u.Adds False (added + u.closingChange) := by
  unfold closingChange
  rw [h.taken_back ho]
  exact ⟨h.apart, Or.inl rfl, by simp, by simp⟩

end Usage

/-! ## All connections -/

namespace Fleet

/-- What the events of one connection add to the estimate, less what they take back. -/
def contribution (f : Fleet) (conn : Nat) : List ConnEvent → Int
  | [] => 0
  | event :: later =>
    (if event.conn = conn then (f.step event).gauges.avail - f.gauges.avail else 0) +
      (f.step event).contribution conn later

theorem avail_step (f : Fleet) (event : ConnEvent) :
    (f.step event).gauges.avail = f.gauges.avail + (f.usage event.conn).change event := by
  cases event <;> rfl

theorem contribution_concat (f : Fleet) (conn : Nat) (events : List ConnEvent)
    (event : ConnEvent) :
    f.contribution conn (events ++ [event]) = f.contribution conn events +
      if event.conn = conn then ((f.after events).usage conn).change event else 0 := by
  induction events generalizing f with
  | nil =>
    have hstep := f.avail_step event
    simp only [List.nil_append, contribution, after_nil]
    split
    · rename_i hconn
      rw [hconn] at hstep
      omega
    · rfl
  | cons first events ih =>
    rw [List.cons_append, contribution, contribution, ih, Int.add_assoc]
    rfl

section

variable {n conn : Nat} {events : List ConnEvent}

theorem usage_after_of_le (h : n ≤ conn) (events : List ConnEvent) :
    ((ofSize n).after events).usage conn = .unused := by
  apply usage_of_length_le
  rw [length_usages_after, ofSize, List.length_replicate]
  omega

/-- Only the connections that there are add anything. -/
theorem contribution_of_le (h : n ≤ conn) (events : List ConnEvent) :
    (ofSize n).contribution conn events = 0 := by
  induction events using List.reverseRecOn with
  | nil => rfl
  | append_singleton events event ih =>
    simp [contribution_concat, ih, usage_after_of_le h]

/-- The estimate is what all connections have added. -/
theorem avail_eq_sum (n : Nat) (events : List ConnEvent) :
    ((ofSize n).after events).gauges.avail =
      ∑ conn ∈ Finset.range n, (ofSize n).contribution conn events := by
  induction events using List.reverseRecOn with
  | nil => simp [contribution, ofSize, Gauges.zero]
  | append_singleton events event ih =>
    simp only [after_concat, avail_step, contribution_concat, Finset.sum_add_distrib, ← ih,
      Finset.sum_ite_eq, Finset.mem_range]
    split
    · rfl
    · rename_i hlt
      rw [usage_after_of_le (by omega), Usage.change_unused]

theorem adds_of_sealed (hconn : conn < n) (h : ConnEvent.Sealed events) :
    (((ofSize n).after events).usage conn).Adds (.closed conn ∉ events)
      ((ofSize n).contribution conn events) := by
  induction events using List.reverseRecOn with
  | nil =>
    rw [after_nil, usage_ofSize]
    exact Usage.adds_unused _
  | append_singleton events event ih =>
    have hadds := ih (List.pairwise_append.mp h).1
    rw [contribution_concat, after_concat]
    by_cases hown : event.conn = conn
    · subst hown
      have hlt : event.conn < ((ofSize n).after events).usages.length := by
        simpa [length_usages_after, ofSize] using hconn
      rw [if_pos rfl, usage_step _ hlt rfl]
      cases event with
      | wrote conn t => exact hadds.wrote (h.not_mem rfl) t _
      | received conn t => simpa [Usage.told, Usage.change, ConnEvent.conn] using hadds.received t
      | released conn obtainedAt t =>
        simpa [Usage.told, Usage.change, ConnEvent.conn] using hadds.released obtainedAt t
      | closed conn =>
        simpa [Usage.told, Usage.change, ConnEvent.conn] using hadds.closed (h.not_mem rfl)
    · have hopen : .closed conn ∉ events ++ [event] ↔ .closed conn ∉ events := by
        have hne : .closed conn ≠ event := by
          rintro rfl
          exact hown rfl
        simp [hne]
      rw [if_neg hown, usage_step_of_ne _ hown, Int.add_zero, hopen]
      exact hadds

theorem contribution_zero_or_one (h : ConnEvent.Sealed events) (conn : Nat) :
    (ofSize n).contribution conn events = 0 ∨ (ofSize n).contribution conn events = 1 := by
  by_cases hconn : conn < n
  · exact (adds_of_sealed hconn h).zero_or_one
  · exact Or.inl (contribution_of_le (by omega) events)

end

/-- After every event each connection has added nothing or one to the estimate. So the estimate,
which is the sum of that, is never negative, and a scrape reports it as it is. -/
theorem avail_never_negative {n : Nat} {events before : List ConnEvent}
    (h : ConnEvent.Sealed events) (hbefore : before <+: events) :
    let gauges := ((ofSize n).after before).gauges
    (∀ conn, (ofSize n).contribution conn before = 0 ∨ (ofSize n).contribution conn before = 1) ∧
      gauges.avail = ∑ conn ∈ Finset.range n, (ofSize n).contribution conn before ∧
      0 ≤ gauges.avail ∧ gauges.avail ≤ n ∧
      (gauges.snapshot.availEstimate : Int) = gauges.avail := by
  intro gauges
  have hadds := contribution_zero_or_one (n := n) (List.Pairwise.sublist hbefore.sublist h)
  have hsum : gauges.avail = _ := avail_eq_sum n before
  have hnonneg : 0 ≤ gauges.avail := by
    rw [hsum]
    apply Finset.sum_nonneg
    intro conn _
    rcases hadds conn with hzero | hone <;> omega
  have hle : gauges.avail ≤ n := by
    have hone : ∀ conn ∈ Finset.range n, (ofSize n).contribution conn before ≤ 1 := by
      intro conn _
      rcases hadds conn with hzero | hone <;> omega
    simpa [hsum] using Finset.sum_le_card_nsmul _ _ _ hone
  refine ⟨hadds, hsum, hnonneg, hle, ?_⟩
  unfold Gauges.snapshot
  exact Int.toNat_of_nonneg hnonneg

/-- One connection is released twice, used again and dropped. Another one is dropped in use, read
from after that, and released twice, the first time under a name that it does not know. -/
def contended : List ConnEvent :=
  [.wrote 0 ⟨0⟩, .received 0 ⟨5⟩, .released 0 ⟨0⟩ ⟨9⟩, .wrote 1 ⟨2⟩, .released 0 ⟨0⟩ ⟨10⟩,
    .closed 1, .received 1 ⟨7⟩, .released 1 ⟨0⟩ ⟨8⟩, .released 1 ⟨2⟩ ⟨8⟩, .wrote 0 ⟨12⟩, .closed 0]

theorem avail_never_negative_of_contended :
    ConnEvent.Sealed contended ∧ contended.take 9 <+: contended ∧
      (∀ conn, (ofSize 2).contribution conn (contended.take 9) = 0 ∨
        (ofSize 2).contribution conn (contended.take 9) = 1) ∧
      ((ofSize 2).after (contended.take 9)).gauges.avail = 2 ∧
      0 ≤ ((ofSize 2).after contended).gauges.avail ∧
      (((ofSize 2).after contended).gauges.snapshot.availEstimate : Int) =
        ((ofSize 2).after contended).gauges.avail := by
  have hsealed : ConnEvent.Sealed contended := by decide
  have hbefore : contended.take 9 <+: contended := List.take_prefix 9 contended
  obtain ⟨hadds, -⟩ := avail_never_negative (n := 2) hsealed hbefore
  obtain ⟨-, -, hnonneg, -, hshown⟩ :=
    avail_never_negative (n := 2) hsealed (List.prefix_refl contended)
  exact ⟨hsealed, hbefore, hadds, by decide, hnonneg, hshown⟩

end Fleet

end ServiceCall
