import ServiceCall.Pool.Gauges
import ServiceCall.Proofs.Number.Whole
import ServiceCall.Proofs.Results
import Mathlib.Data.Set.Card
import Mathlib.Order.Bounds.Basic

/-!
# In flight between scrapes

A request is in flight as long as its guard is held. A scrape tells how many guards are held, and
the most that were held at one moment since the scrape before. The running maximum does not start
from zero but from those that are held then, so that moment counts as well.
-/

namespace ServiceCall

inductive GaugeEvent where
  | entered
  /-- A guard is dropped; guards are numbered in the order in which they were taken. -/
  | left (guard : Nat)
  /-- So many more connections idle. -/
  | idled (change : Int)
  | scraped
  /-- A scrape whose values are pushed with these tags. -/
  | reported (tags : List Tag)
  deriving DecidableEq

namespace GaugeEvent

variable {events before : List GaugeEvent} {event : GaugeEvent} {guard : Nat}

/-! ## Guards that are held -/

def taken (events : List GaugeEvent) : Nat := events.count .entered

/-- The guard was taken and has not been dropped since. -/
def Holds (events : List GaugeEvent) (guard : Nat) : Prop :=
  ∃ before after, events = before ++ .entered :: after ∧ taken before = guard ∧
    .left guard ∉ after

theorem holds_concat : Holds (events ++ [event]) guard ↔
    event = .entered ∧ taken events = guard ∨ Holds events guard ∧ event ≠ .left guard := by
  constructor
  · rintro ⟨before, after, heq, htaken, hleft⟩
    rcases concat_eq_append_cons heq with ⟨rfl, rfl, hlast⟩ | ⟨after, rfl, rfl⟩
    · exact Or.inl ⟨hlast, htaken⟩
    · simp only [List.mem_append, List.mem_singleton, not_or] at hleft
      exact Or.inr ⟨⟨before, after, rfl, htaken, hleft.1⟩, Ne.symm hleft.2⟩
  · rintro (⟨rfl, htaken⟩ | ⟨⟨before, after, rfl, htaken, hleft⟩, hevent⟩)
    · exact ⟨events, [], rfl, htaken, by simp⟩
    · exact ⟨before, after ++ [event], by simp, htaken, by simp [hleft, hevent.symm]⟩

theorem Holds.lt_taken (h : Holds events guard) : guard < taken events := by
  obtain ⟨before, after, rfl, rfl, -⟩ := h
  simp [taken, List.count_append]

theorem finite_holds (events : List GaugeEvent) : {guard | Holds events guard}.Finite :=
  (Set.finite_lt_nat (taken events)).subset fun _ h => h.lt_taken

noncomputable def heldCount (events : List GaugeEvent) : Nat := {guard | Holds events guard}.ncard

theorem heldCount_entered (events : List GaugeEvent) :
    heldCount (events ++ [.entered]) = heldCount events + 1 := by
  have hnew : {guard | Holds (events ++ [.entered]) guard} =
      insert (taken events) {guard | Holds events guard} := by
    ext guard
    simp [holds_concat, eq_comm]
  unfold heldCount
  rw [hnew]
  exact Set.ncard_insert_of_notMem (fun h => Nat.lt_irrefl _ h.lt_taken) (finite_holds events)

theorem heldCount_left (h : Holds events guard) :
    heldCount (events ++ [.left guard]) + 1 = heldCount events := by
  have hnew : {other | Holds (events ++ [.left guard]) other} =
      {other | Holds events other} \ {guard} := by
    ext other
    simp [holds_concat, eq_comm]
  unfold heldCount
  rw [hnew]
  exact Set.ncard_sdiff_singleton_add_one h (finite_holds events)

theorem heldCount_concat (hentered : event ≠ .entered)
    (hleft : ∀ guard, Holds events guard → event ≠ .left guard) :
    heldCount (events ++ [event]) = heldCount events := by
  unfold heldCount
  congr 1
  ext guard
  simp only [Set.mem_ofPred_eq, holds_concat, hentered, false_and, false_or]
  exact ⟨And.left, fun h => ⟨h, hleft guard h⟩⟩

/-! ## Since the last scrape -/

def reads : GaugeEvent → Bool
  | .scraped | .reported _ => true
  | .entered | .left _ | .idled _ => false

/-- These events led to a moment since the last scrape; that of the scrape is the first one. -/
def Since (events before : List GaugeEvent) : Prop :=
  ∃ after, events = before ++ after ∧ ∀ event ∈ after, event.reads = false

/-- The numbers of guards that were held at the moments since the last scrape. -/
def heldSince (events : List GaugeEvent) : Set Nat :=
  {k | ∃ before, Since events before ∧ k = heldCount before}

theorem since_concat :
    Since (events ++ [event]) before ↔
      before = events ++ [event] ∨ event.reads = false ∧ Since events before := by
  constructor
  · rintro ⟨after, heq, hafter⟩
    rcases List.eq_nil_or_concat' after with rfl | ⟨after, last, rfl⟩
    · exact Or.inl (by simpa using heq.symm)
    · rw [← List.append_assoc] at heq
      obtain ⟨rfl, hlast⟩ := List.append_inj' heq rfl
      cases hlast
      simp only [List.mem_append, List.mem_singleton] at hafter
      exact Or.inr ⟨hafter _ (Or.inr rfl), after, rfl, fun e he => hafter e (Or.inl he)⟩
  · rintro (rfl | ⟨hreads, after, rfl, hafter⟩)
    · exact ⟨[], by simp, by simp⟩
    · refine ⟨after ++ [event], by simp, ?_⟩
      simpa [or_imp, forall_and, hreads] using hafter

theorem heldSince_of_reads (h : event.reads = true) :
    heldSince (events ++ [event]) = {heldCount (events ++ [event])} := by
  ext k
  simp [heldSince, since_concat, h]

theorem heldSince_concat (h : event.reads = false) :
    heldSince (events ++ [event]) = insert (heldCount (events ++ [event])) (heldSince events) := by
  ext k
  simp [heldSince, since_concat, h]

theorem heldCount_mem_heldSince (events : List GaugeEvent) : heldCount events ∈ heldSince events :=
  ⟨events, ⟨[], by simp, by simp⟩, rfl⟩

end GaugeEvent

/-! ## The gauges -/

namespace GuardedGauges

open GaugeEvent (taken Holds heldCount heldSince Since)

def step (g : GuardedGauges) : GaugeEvent → GuardedGauges
  | .entered => g.enter
  | .left guard => g.leave guard
  | .idled change => { g with gauges := g.gauges.addAvail change }
  | .scraped | .reported _ => { g with gauges := g.gauges.scraped }

/-- What an event gives back, and what it pushes. -/
def reply (g : GuardedGauges) : GaugeEvent → Option Snapshot × List MetricEvent
  | .scraped => (some g.gauges.snapshot, [])
  | .reported tags => (some g.gauges.snapshot, g.gauges.snapshot.events tags)
  | .entered | .left _ | .idled _ => (none, [])

def after (events : List GaugeEvent) : GuardedGauges := events.foldl step .new

@[simp] theorem after_nil : after [] = .new := rfl

@[simp] theorem after_concat (events : List GaugeEvent) (event : GaugeEvent) :
    after (events ++ [event]) = (after events).step event := by
  simp [after]

variable {events : List GaugeEvent} {event : GaugeEvent} {g : GuardedGauges} {guard : Nat}

/-- The gauges know which guards are held, how many, and the most there were. -/
structure Follows (g : GuardedGauges) (events : List GaugeEvent) : Prop where
  length : g.held.length = taken events
  holds : ∀ guard, g.held[guard]? = some true ↔ Holds events guard
  inFlight : g.gauges.inFlight = heldCount events
  peak : ∃ peak : Nat, g.gauges.inFlightMax = peak ∧ IsGreatest (heldSince events) peak

theorem follows_new : new.Follows [] where
  length := rfl
  holds guard := by simp [new, Holds]
  inFlight := by simp [new, Gauges.zero, heldCount, Holds]
  peak := by
    refine ⟨0, rfl, ?_⟩
    have honly : heldSince [] = {0} := by
      ext k
      simp [heldSince, Since, heldCount, Holds]
    rw [honly]
    exact isGreatest_singleton

/-- Only an event that takes a guard can raise the maximum. -/
theorem Follows.peak_concat (h : g.Follows events) (hreads : event.reads = false)
    (hle : heldCount (events ++ [event]) ≤ heldCount events) :
    ∃ peak : Nat, g.gauges.inFlightMax = peak ∧ IsGreatest (heldSince (events ++ [event])) peak := by
  obtain ⟨peak, hmax, hpeak⟩ := h.peak
  refine ⟨peak, hmax, ?_⟩
  have hbelow : heldCount (events ++ [event]) ≤ peak :=
    Nat.le_trans hle (hpeak.2 (GaugeEvent.heldCount_mem_heldSince events))
  rw [GaugeEvent.heldSince_concat hreads, ← Nat.max_eq_right hbelow]
  exact hpeak.insert _

theorem Follows.entered (h : g.Follows events) : g.enter.Follows (events ++ [.entered]) where
  length := by simp [enter, taken, List.count_append, h.length]
  holds guard := by
    have hnew : taken events = guard ↔ guard = g.held.length := by rw [h.length, eq_comm]
    rw [GaugeEvent.holds_concat, ← h.holds, hnew]
    simp only [enter, List.getElem?_append, List.getElem?_singleton]
    rcases Nat.lt_trichotomy guard g.held.length with hlt | heq | hgt
    · simp [hlt, Nat.ne_of_lt hlt]
    · simp [heq]
    · simp [Nat.not_lt_of_lt hgt, Nat.ne_of_gt hgt]
      omega
  inFlight := by
    have hold := h.inFlight
    rw [GaugeEvent.heldCount_entered]
    simp only [enter, Gauges.enter]
    omega
  peak := by
    obtain ⟨peak, hmax, hpeak⟩ := h.peak
    have hold := h.inFlight
    refine ⟨max (heldCount (events ++ [.entered])) peak, ?_, ?_⟩
    · rw [GaugeEvent.heldCount_entered]
      simp only [enter, Gauges.enter]
      omega
    · rw [GaugeEvent.heldSince_concat rfl]
      exact hpeak.insert _

/-- Nothing happens to the guards that are held. -/
theorem Follows.of_unheld (h : g.Follows events) (hentered : event ≠ .entered)
    (hleft : ∀ guard, Holds events guard → event ≠ .left guard) {gauges : Gauges}
    (hsame : gauges.inFlight = g.gauges.inFlight)
    (hpeak : ∃ peak : Nat, gauges.inFlightMax = peak ∧
      IsGreatest (heldSince (events ++ [event])) peak) :
    Follows ⟨gauges, g.held⟩ (events ++ [event]) where
  length := by simp [taken, List.count_append, h.length, hentered]
  holds guard := by
    simp only [GaugeEvent.holds_concat, h.holds, hentered, false_and, false_or]
    exact ⟨fun hholds => ⟨hholds, hleft guard hholds⟩, And.left⟩
  inFlight := by rw [hsame, h.inFlight, GaugeEvent.heldCount_concat hentered hleft]
  peak := hpeak

theorem Follows.left (h : g.Follows events) (guard : Nat) :
    (g.leave guard).Follows (events ++ [.left guard]) := by
  unfold leave
  split
  · rename_i hheld
    have hcount := GaugeEvent.heldCount_left ((h.holds guard).mp hheld)
    have hold := h.inFlight
    refine ⟨?_, ?_, ?_, ?_⟩
    · simp [taken, List.count_append, h.length]
    · intro other
      rw [GaugeEvent.holds_concat, ← h.holds, List.getElem?_set]
      by_cases hsame : guard = other
      · subst hsame
        simp
      · simp [hsame]
    · simp only [Gauges.leave]
      omega
    · exact h.peak_concat rfl (by omega)
  · rename_i hheld
    have hleft : ∀ other, Holds events other → GaugeEvent.left guard ≠ .left other := by
      rintro other hother ⟨⟩
      exact hheld ((h.holds guard).mpr hother)
    have hcount := GaugeEvent.heldCount_concat (by simp) hleft
    exact h.of_unheld (by simp) hleft rfl (h.peak_concat rfl (Nat.le_of_eq hcount))

theorem Follows.idled (h : g.Follows events) (change : Int) :
    (g.step (.idled change)).Follows (events ++ [.idled change]) := by
  have hcount : heldCount (events ++ [.idled change]) = heldCount events :=
    GaugeEvent.heldCount_concat (by simp) (by simp)
  exact h.of_unheld (by simp) (by simp) rfl (h.peak_concat rfl (Nat.le_of_eq hcount))

/-- The maximum starts anew from the guards that are held now. -/
theorem Follows.scraped (h : g.Follows events) (hreads : event.reads = true) :
    Follows ⟨g.gauges.scraped, g.held⟩ (events ++ [event]) := by
  have hentered : event ≠ .entered := by
    rintro rfl
    cases hreads
  have hleft : ∀ guard, Holds events guard → event ≠ .left guard := by
    rintro guard - rfl
    cases hreads
  have hcount := GaugeEvent.heldCount_concat hentered hleft
  refine h.of_unheld hentered hleft rfl ⟨heldCount (events ++ [event]), ?_, ?_⟩
  · have hold := h.inFlight
    simp only [Gauges.scraped]
    omega
  · rw [GaugeEvent.heldSince_of_reads hreads]
    exact isGreatest_singleton

theorem Follows.step (h : g.Follows events) (event : GaugeEvent) :
    (g.step event).Follows (events ++ [event]) := by
  cases event with
  | entered => exact h.entered
  | left guard => exact h.left guard
  | idled change => exact h.idled change
  | scraped => exact h.scraped rfl
  | reported tags => exact h.scraped rfl

theorem follows_after (events : List GaugeEvent) : (after events).Follows events := by
  induction events using List.reverseRecOn with
  | nil => exact follows_new
  | append_singleton events event ih =>
    rw [after_concat]
    exact ih.step event

theorem Follows.snapshot (h : g.Follows events) :
    g.gauges.snapshot.inFlight = heldCount events ∧
      IsGreatest (heldSince events) g.gauges.snapshot.inFlightMax := by
  obtain ⟨peak, hmax, hpeak⟩ := h.peak
  have hle : heldCount events ≤ peak := hpeak.2 (GaugeEvent.heldCount_mem_heldSince events)
  have hold := h.inFlight
  have hsnapshot : g.gauges.snapshot.inFlightMax = peak := by
    simp only [Gauges.snapshot]
    omega
  refine ⟨?_, hsnapshot ▸ hpeak⟩
  simp only [Gauges.snapshot]
  omega

/-- Whatever happened before, a scrape tells how many guards are held and the most that were held
at one moment since the scrape before, that moment included. A report tells the same and pushes it,
in numbers that are exact below `2 ^ 53`. -/
theorem in_flight_since_scrape (events : List GaugeEvent) (tags : List Tag) :
    ∃ s : Snapshot, (after events).reply .scraped = (some s, []) ∧
      (after events).reply (.reported tags) = (some s,
        [⟨"http_client.pool.in_flight", .gauge (.ofInt s.inFlight), tags⟩,
          ⟨"http_client.pool.in_flight_max", .gauge (.ofInt s.inFlightMax), tags⟩,
          ⟨"http_client.pool.avail_estimate", .gauge (.ofInt s.availEstimate), tags⟩]) ∧
      s.inFlight = heldCount events ∧
      IsGreatest (heldSince events) s.inFlightMax ∧
      s.inFlight ≤ s.inFlightMax ∧
      ∀ n ∈ [s.inFlight, s.inFlightMax, s.availEstimate],
        n < 2 ^ 53 → (Binary64.ofInt n).IsWhole n := by
  obtain ⟨hinFlight, hmax⟩ := (follows_after events).snapshot
  refine ⟨(after events).gauges.snapshot, rfl, rfl, hinFlight, hmax, ?_, ?_⟩
  · rw [hinFlight]
    exact hmax.2 (GaugeEvent.heldCount_mem_heldSince events)
  · exact fun n _ hlt => Binary64.isWhole_ofInt hlt

/-- Two guards were held before the scrape, one at its moment, two after it and one in the end. -/
theorem in_flight_since_scrape_of_three :
    let events := [.entered, .entered, .left 1, .scraped, .entered, .left 0]
    (after events).reply .scraped = (some ⟨1, 2, 0⟩, []) ∧ heldCount events = 1 ∧
      IsGreatest (heldSince events) 2 ∧ (Binary64.ofInt 2).IsWhole 2 := by
  intro events
  have hreply : (after events).reply .scraped = (some ⟨1, 2, 0⟩, []) := by decide
  obtain ⟨s, hscraped, -, hinFlight, hmax, -, hexact⟩ := in_flight_since_scrape events []
  obtain rfl : ⟨1, 2, 0⟩ = s := by simpa [hreply] using hscraped
  exact ⟨hreply, hinFlight.symm, hmax, hexact 2 (by simp) (by decide)⟩

end GuardedGauges

end ServiceCall
