import ServiceCall.Conn.Usage
import ServiceCall.Proofs.Results
import Mathlib.Data.Set.Card

/-!
# The count of idle connections

The estimate of idle connections counts a connection from when it is given back until it is
written to or dropped. One that is given back only after it was dropped stays in the count for
good.
-/

namespace ServiceCall

/-! ## One connection -/

namespace Usage

/-- A connection that waits in the pool is not in use. -/
def Apart (u : Usage) : Prop := u.idle = true → u.inUse = false

theorem startsLease_of_idle {u : Usage} (h : u.Apart) (hi : u.idle = true) :
    u.startsLease = true := by
  simp [startsLease, h hi]

theorem idle_wrote {u : Usage} (h : u.Apart) (t : Instant) : (u.wrote t).1.idle = false := by
  cases hi : u.idle with
  | true => simp [wrote, startsLease_of_idle h hi, begun]
  | false =>
    simp only [wrote]
    split
    · rfl
    · exact hi

theorem change_wrote {u : Usage} (h : u.Apart) (t : Instant) :
    (u.wrote t).2 = if u.idle then -1 else 0 := by
  cases hi : u.idle with
  | true => simp [wrote, startsLease_of_idle h hi, hi]
  | false => simp [wrote, hi]

@[simp] theorem idle_received (u : Usage) (t : Instant) : (u.received t).idle = u.idle := by
  unfold received
  split <;> rfl

@[simp] theorem inUse_received (u : Usage) (t : Instant) : (u.received t).inUse = u.inUse := by
  unfold received
  split <;> rfl

/-- It is in use, and this is when its lease began. -/
def ServesSince (u : Usage) (obtainedAt : Instant) : Prop :=
  u.current?.map (·.obtainedAt) = some obtainedAt

theorem servesSince_iff (u : Usage) (obtainedAt : Instant) :
    u.ServesSince obtainedAt ↔
      u.inUse = true ∧ u.lease.map (·.obtainedAt) = some obtainedAt := by
  unfold ServesSince current?
  split <;> simp_all

theorem released_of_serves {u : Usage} {obtainedAt : Instant} (h : u.ServesSince obtainedAt)
    (t : Instant) :
    u.released obtainedAt t = ({ u with inUse := false, idle := true, idleSince := some t }, 1) := by
  obtain ⟨huse, hlease⟩ := (servesSince_iff ..).mp h
  simp [released, huse, hlease]

theorem released_of_not_serves {u : Usage} {obtainedAt : Instant}
    (h : ¬ u.ServesSince obtainedAt) (t : Instant) : u.released obtainedAt t = (u, 0) := by
  rw [servesSince_iff, not_and_or] at h
  unfold released
  rw [if_pos]
  simpa using h

end Usage

/-! ## Connections -/

namespace ConnEvent

def conn : ConnEvent → Nat
  | .wrote conn _ => conn
  | .received conn _ => conn
  | .released conn _ _ => conn
  | .closed conn => conn

/-- It is an event of the stream that carries the connection, and not of the attempt that holds
it. -/
def ofStream : ConnEvent → Bool
  | .released .. => false
  | _ => true

/-- A stream that is dropped is gone: it is not dropped again, written to or read from. -/
def Orderly (events : List ConnEvent) : Prop :=
  events.Pairwise fun event later => event = .closed later.conn → later.ofStream = false

instance (events : List ConnEvent) : Decidable (Orderly events) :=
  inferInstanceAs (Decidable (events.Pairwise _))

end ConnEvent

namespace Fleet

/-- The connections after the events, which come first things first. -/
def after (f : Fleet) (events : List ConnEvent) : Fleet := events.foldl step f

@[simp] theorem after_nil (f : Fleet) : f.after [] = f := rfl

@[simp] theorem after_concat (f : Fleet) (events : List ConnEvent) (event : ConnEvent) :
    f.after (events ++ [event]) = (f.after events).step event := by
  simp [after]

theorem usage_ofSize (n conn : Nat) : (ofSize n).usage conn = .unused := by
  simp [ofSize, usage, List.getD_eq_getElem?_getD, List.getElem?_replicate]
  split <;> rfl

theorem usage_put (f : Fleet) (c : Nat) (step : Usage × Int) (conn : Nat) :
    (f.put c step).usage conn =
      if c = conn ∧ conn < f.usages.length then step.1 else f.usage conn := by
  simp only [put, usage, List.getD_eq_getElem?_getD, List.getElem?_set]
  by_cases hc : c = conn
  · subst hc
    by_cases hlt : c < f.usages.length <;> simp [hlt]
  · simp [hc]

theorem usage_of_length_le {f : Fleet} {conn : Nat} (h : ¬ conn < f.usages.length) :
    f.usage conn = .unused := by
  rw [usage, List.getD_eq_getElem?_getD, List.getElem?_eq_none (Nat.le_of_not_lt h)]
  rfl

theorem usage_step_of_ne (f : Fleet) {event : ConnEvent} {conn : Nat} (h : event.conn ≠ conn) :
    (f.step event).usage conn = f.usage conn := by
  cases event <;> exact (usage_put ..).trans (if_neg fun hc => h hc.1)

/-! ## What counts -/

/-- The event gives the connection back: it names the lease that is being served. -/
def GivesBack (f : Fleet) (conn : Nat) (event : ConnEvent) : Prop :=
  ∃ obtainedAt t, event = .released conn obtainedAt t ∧ (f.usage conn).ServesSince obtainedAt

/-- One of the events gave the connection back, and these came after it. -/
def GivenBack (f : Fleet) (events : List ConnEvent) (conn : Nat) (later : List ConnEvent) : Prop :=
  ∃ before event, events = before ++ event :: later ∧ (f.after before).GivesBack conn event

/-- The connection was given back, and has neither been written to nor dropped since. -/
def Counted (f : Fleet) (events : List ConnEvent) (conn : Nat) : Prop :=
  ∃ later, f.GivenBack events conn later ∧ (∀ t, .wrote conn t ∉ later) ∧ .closed conn ∉ later

/-- The connection was given back, has not been written to since, and was never dropped. -/
def Available (f : Fleet) (events : List ConnEvent) (conn : Nat) : Prop :=
  ∃ later, f.GivenBack events conn later ∧ (∀ t, .wrote conn t ∉ later) ∧ .closed conn ∉ events

theorem GivenBack.suffix {f : Fleet} {events later : List ConnEvent} {conn : Nat}
    (h : f.GivenBack events conn later) : later <:+ events := by
  obtain ⟨before, event, rfl, -⟩ := h
  exact (List.suffix_cons ..).trans (List.suffix_append ..)

theorem available_iff (f : Fleet) (events : List ConnEvent) (conn : Nat) :
    f.Available events conn ↔ f.Counted events conn ∧ .closed conn ∉ events := by
  constructor
  · rintro ⟨later, hback, hwrote, hclosed⟩
    exact ⟨⟨later, hback, hwrote, fun h => hclosed (hback.suffix.subset h)⟩, hclosed⟩
  · rintro ⟨⟨later, hback, hwrote, -⟩, hclosed⟩
    exact ⟨later, hback, hwrote, hclosed⟩

/-- The connection was given back only after it was dropped. -/
def Stranded (f : Fleet) (events : List ConnEvent) (conn : Nat) : Prop :=
  ∃ before event later, events = before ++ event :: later ∧
    (f.after before).GivesBack conn event ∧ .closed conn ∈ before

theorem Stranded.append {f : Fleet} {events : List ConnEvent} {conn : Nat}
    (h : f.Stranded events conn) (more : List ConnEvent) : f.Stranded (events ++ more) conn := by
  obtain ⟨before, event, later, rfl, hback, hclosed⟩ := h
  exact ⟨before, event, later ++ more, by simp, hback, hclosed⟩

theorem Stranded.counted {f : Fleet} {events : List ConnEvent} {conn : Nat}
    (h : f.Stranded events conn) (ho : ConnEvent.Orderly events) : f.Counted events conn := by
  obtain ⟨before, event, later, rfl, hback, hclosed⟩ := h
  have hgone : ∀ last ∈ later, last.conn = conn → last.ofStream = false := by
    rintro last hlast rfl
    exact (List.pairwise_append.mp ho).2.2 _ hclosed last (List.mem_cons_of_mem _ hlast) rfl
  refine ⟨later, ⟨before, event, rfl, hback⟩, ?_, ?_⟩
  · intro t hwrote
    cases hgone _ hwrote rfl
  · intro hclosed'
    cases hgone _ hclosed' rfl

/-- What counts is available, or it was dropped too early. -/
theorem counted_iff (f : Fleet) {events : List ConnEvent} (h : ConnEvent.Orderly events)
    (conn : Nat) :
    f.Counted events conn ↔ f.Available events conn ∨ f.Stranded events conn := by
  constructor
  · intro hcounted
    by_cases hclosed : .closed conn ∈ events
    · obtain ⟨later, ⟨before, event, rfl, hback⟩, -, hopen⟩ := hcounted
      refine Or.inr ⟨before, event, later, rfl, hback, ?_⟩
      obtain ⟨_, _, rfl, -⟩ := hback
      simpa [hopen] using hclosed
    · exact Or.inl ((available_iff ..).mpr ⟨hcounted, hclosed⟩)
  · rintro (havailable | hstranded)
    · exact ((available_iff ..).mp havailable).1
    · exact hstranded.counted h

theorem GivenBack.append {f : Fleet} {events later : List ConnEvent} {conn : Nat}
    (h : f.GivenBack events conn later) (more : List ConnEvent) :
    f.GivenBack (events ++ more) conn (later ++ more) := by
  obtain ⟨before, event, rfl, hback⟩ := h
  exact ⟨before, event, by simp, hback⟩

theorem givenBack_concat {f : Fleet} {events later : List ConnEvent} {event : ConnEvent}
    {conn : Nat} (h : f.GivenBack (events ++ [event]) conn later) :
    (f.after events).GivesBack conn event ∧ later = [] ∨
      ∃ later', later = later' ++ [event] ∧ f.GivenBack events conn later' := by
  obtain ⟨before, first, heq, hback⟩ := h
  rcases concat_eq_append_cons heq with ⟨rfl, rfl, rfl⟩ | ⟨later', rfl, rfl⟩
  · exact Or.inl ⟨hback, rfl⟩
  · exact Or.inr ⟨later', rfl, before, first, rfl, hback⟩

/-- Whether a connection counts changes when it is given back, written to or dropped. -/
theorem counted_concat (f : Fleet) (events : List ConnEvent) (event : ConnEvent) (conn : Nat) :
    f.Counted (events ++ [event]) conn ↔
      (f.after events).GivesBack conn event ∨
        f.Counted events conn ∧ (∀ t, event ≠ .wrote conn t) ∧ event ≠ .closed conn := by
  constructor
  · rintro ⟨later, hback, hwrote, hclosed⟩
    rcases givenBack_concat hback with ⟨hback', -⟩ | ⟨later', rfl, hback'⟩
    · exact Or.inl hback'
    · simp only [List.mem_append, List.mem_singleton, not_or] at hwrote hclosed
      exact Or.inr ⟨⟨later', hback', fun t => (hwrote t).1, hclosed.1⟩,
        fun t ht => (hwrote t).2 ht.symm, fun hc => hclosed.2 hc.symm⟩
  · rintro (hback | ⟨⟨later, hback, hwrote, hclosed⟩, hw, hc⟩)
    · exact ⟨[], ⟨events, event, rfl, hback⟩, by simp, by simp⟩
    · refine ⟨later ++ [event], hback.append [event], ?_, ?_⟩
      · intro t
        simpa [hwrote t, eq_comm] using hw t
      · simpa [hclosed, eq_comm] using hc

theorem not_counted_nil (f : Fleet) (conn : Nat) : ¬ f.Counted [] conn := by
  rintro ⟨later, ⟨before, event, heq, -⟩, -⟩
  simp at heq

/-! ## One event -/

section

variable {f : Fleet} {conn : Nat}

theorem GivesBack.lt_length {event : ConnEvent} (h : f.GivesBack conn event) :
    conn < f.usages.length := by
  obtain ⟨obtainedAt, t, -, hserves⟩ := h
  by_contra hlt
  rw [usage_of_length_le hlt] at hserves
  cases hserves

theorem idle_step_wrote (h : (f.usage conn).Apart) (t : Instant) :
    ((f.step (.wrote conn t)).usage conn).idle = false := by
  simp only [step, usage_put]
  split
  · exact Usage.idle_wrote h t
  · rename_i hlt
    rw [usage_of_length_le (fun h => hlt ⟨trivial, h⟩)]
    rfl

theorem usage_step_received (f : Fleet) (conn : Nat) (t : Instant) :
    ((f.step (.received conn t)).usage conn).idle = (f.usage conn).idle ∧
      ((f.step (.received conn t)).usage conn).inUse = (f.usage conn).inUse := by
  simp only [step, usage_put]
  split <;> simp

theorem step_of_gives_back {event : ConnEvent} (h : f.GivesBack conn event) :
    ((f.step event).usage conn).idle = true ∧ ((f.step event).usage conn).inUse = false ∧
      (f.step event).gauges.avail = f.gauges.avail + 1 := by
  have hlt := h.lt_length
  obtain ⟨obtainedAt, t, rfl, hserves⟩ := h
  simp only [step, usage_put, hlt, and_self, if_true, Usage.released_of_serves hserves, true_and]
  rfl

theorem step_of_not_gives_back {obtainedAt t : Instant}
    (h : ¬ f.GivesBack conn (.released conn obtainedAt t)) :
    (f.step (.released conn obtainedAt t)).usage conn = f.usage conn ∧
      (f.step (.released conn obtainedAt t)).gauges.avail = f.gauges.avail := by
  have hserves : ¬ (f.usage conn).ServesSince obtainedAt :=
    fun hserves => h ⟨obtainedAt, t, rfl, hserves⟩
  simp only [step, usage_put, Usage.released_of_not_serves hserves, ite_self, true_and]
  exact Int.add_zero _

theorem usage_step_closed : (f.step (.closed conn)).usage conn = f.usage conn := by
  simp only [step, usage_put, ite_self]

end

/-! ## Any order of events -/

/-- What holds of connections that were new at first, after the events. Whether one counts can be
seen from its use, unless it was dropped while it did not count. -/
structure Tracked (n : Nat) (events : List ConnEvent) : Prop where
  apart : ∀ conn, (((ofSize n).after events).usage conn).Apart
  count : ∀ conn, .closed conn ∉ events ∨ (ofSize n).Counted events conn →
    ((ofSize n).Counted events conn ↔ (((ofSize n).after events).usage conn).idle = true)
  finite : {conn | (ofSize n).Counted events conn}.Finite
  avail : ((ofSize n).after events).gauges.avail =
    {conn | (ofSize n).Counted events conn}.ncard

theorem tracked_nil (n : Nat) : Tracked n [] where
  apart conn := by
    rw [after_nil, usage_ofSize]
    exact fun _ => rfl
  count conn _ := by
    rw [after_nil, usage_ofSize]
    simp [not_counted_nil, Usage.unused]
  finite := by simp [not_counted_nil]
  avail := by simp [not_counted_nil, ofSize, Gauges.zero]

theorem eq_of_agree {β : Type} {old new : Set β} {a : β} (h : ∀ b ≠ a, b ∈ new ↔ b ∈ old)
    (ha : a ∈ new ↔ a ∈ old) : new = old := by
  ext b
  by_cases hb : b = a
  · rw [hb, ha]
  · exact h b hb

section

variable {n : Nat} {events : List ConnEvent} {event : ConnEvent} {conn : Nat}

theorem counted_concat_of_ne (f : Fleet) (h : event.conn ≠ conn) :
    f.Counted (events ++ [event]) conn ↔ f.Counted events conn := by
  rw [counted_concat]
  constructor
  · rintro (⟨obtainedAt, t, rfl, -⟩ | ⟨hcounted, -, -⟩)
    · exact absurd rfl h
    · exact hcounted
  · intro hcounted
    refine Or.inr ⟨hcounted, ?_, ?_⟩
    · rintro t rfl
      exact h rfl
    · rintro rfl
      exact h rfl

/-- How an event of a connection changes whether that one counts, and the count. -/
inductive Changes (n : Nat) (events : List ConnEvent) (event : ConnEvent) (change : Int) : Prop
  | same (hc : (ofSize n).Counted (events ++ [event]) event.conn ↔
      (ofSize n).Counted events event.conn) (h : change = 0)
  | gained (hc : (ofSize n).Counted (events ++ [event]) event.conn)
      (hold : ¬ (ofSize n).Counted events event.conn) (h : change = 1)
  | lost (hc : ¬ (ofSize n).Counted (events ++ [event]) event.conn)
      (hold : (ofSize n).Counted events event.conn) (h : change = -1)

theorem Changes.ncard {change : Int} (h : Changes n events event change)
    (hfinite : {conn | (ofSize n).Counted events conn}.Finite) :
    {conn | (ofSize n).Counted (events ++ [event]) conn}.Finite ∧
      ({conn | (ofSize n).Counted (events ++ [event]) conn}.ncard : Int) =
        {conn | (ofSize n).Counted events conn}.ncard + change := by
  have hother : ∀ conn ≠ event.conn, conn ∈ {conn | (ofSize n).Counted (events ++ [event]) conn} ↔
      conn ∈ {conn | (ofSize n).Counted events conn} :=
    fun conn hne => counted_concat_of_ne _ (Ne.symm hne)
  cases h with
  | same hc hchange =>
    rw [eq_of_agree hother hc, hchange, Int.add_zero]
    exact ⟨hfinite, rfl⟩
  | gained hc hold hchange =>
    have hnew : {conn | (ofSize n).Counted (events ++ [event]) conn} =
        insert event.conn {conn | (ofSize n).Counted events conn} :=
      eq_of_agree (fun conn hne => (hother conn hne).trans (by simp [hne])) (by simpa using hc)
    have hcard : (insert event.conn {conn | (ofSize n).Counted events conn}).ncard =
        {conn | (ofSize n).Counted events conn}.ncard + 1 :=
      Set.ncard_insert_of_notMem hold hfinite
    rw [hnew, hchange]
    exact ⟨hfinite.insert _, by omega⟩
  | lost hc hold hchange =>
    have hnew : {conn | (ofSize n).Counted (events ++ [event]) conn} =
        {conn | (ofSize n).Counted events conn} \ {event.conn} :=
      eq_of_agree (fun conn hne => (hother conn hne).trans (by simp [hne])) (by simpa using hc)
    have hcard : ({conn | (ofSize n).Counted events conn} \ {event.conn}).ncard + 1 =
        {conn | (ofSize n).Counted events conn}.ncard :=
      Set.ncard_sdiff_singleton_add_one hold hfinite
    rw [hnew, hchange]
    exact ⟨hfinite.sdiff, by omega⟩

/-- An event changes what is known of its own connection only, so only that is to be checked. -/
theorem Tracked.concat {change : Int} (h : Tracked n events)
    (hapart : (((ofSize n).after (events ++ [event])).usage event.conn).Apart)
    (hcount : .closed event.conn ∉ events ++ [event] ∨
        (ofSize n).Counted (events ++ [event]) event.conn →
      ((ofSize n).Counted (events ++ [event]) event.conn ↔
        (((ofSize n).after (events ++ [event])).usage event.conn).idle = true))
    (havail : ((ofSize n).after (events ++ [event])).gauges.avail =
      ((ofSize n).after events).gauges.avail + change)
    (hchanges : Changes n events event change) : Tracked n (events ++ [event]) := by
  have husage : ∀ conn, event.conn ≠ conn →
      ((ofSize n).after (events ++ [event])).usage conn =
        ((ofSize n).after events).usage conn := by
    intro conn hne
    rw [after_concat, usage_step_of_ne _ hne]
  obtain ⟨hfinite, hcard⟩ := hchanges.ncard h.finite
  refine ⟨?_, ?_, hfinite, ?_⟩
  · intro conn
    by_cases hc : event.conn = conn
    · exact hc ▸ hapart
    · rw [husage conn hc]
      exact h.apart conn
  · intro conn hknown
    by_cases hc : event.conn = conn
    · subst hc
      exact hcount hknown
    · rw [husage conn hc, counted_concat_of_ne _ hc] at *
      exact h.count conn (hknown.imp_left fun hopen hclosed =>
        hopen (List.mem_append_left _ hclosed))
  · rw [havail, h.avail, hcard]

/-- An event that ends the wait of a connection in the pool, if it waits there. -/
theorem Tracked.lost (h : Tracked n events) (hconn : event.conn = conn)
    (hopen : .closed conn ∉ events) (hnot : ¬ (ofSize n).Counted (events ++ [event]) conn) :
    Changes n events event (if (((ofSize n).after events).usage conn).idle then -1 else 0) := by
  subst hconn
  have hiff := h.count event.conn (Or.inl hopen)
  cases hidle : (((ofSize n).after events).usage event.conn).idle with
  | true => exact .lost hnot (hiff.mpr hidle) rfl
  | false =>
    have hold : ¬ (ofSize n).Counted events event.conn := by simp [hiff, hidle]
    exact .same (iff_of_false hnot hold) rfl

theorem Tracked.wrote (h : Tracked n events) (hopen : .closed conn ∉ events) (t : Instant) :
    Tracked n (events ++ [.wrote conn t]) := by
  have hnot : ¬ (ofSize n).Counted (events ++ [.wrote conn t]) conn := by
    rw [counted_concat]
    rintro (⟨obtainedAt, t', heq, -⟩ | ⟨-, hwrote, -⟩)
    · cases heq
    · exact hwrote t rfl
  have hidle : (((ofSize n).after (events ++ [.wrote conn t])).usage conn).idle = false := by
    rw [after_concat]
    exact idle_step_wrote (h.apart conn) t
  refine h.concat ?_ ?_ ?_ (h.lost rfl hopen hnot)
  · intro hi
    cases hidle.symm.trans hi
  · intro _
    exact iff_of_false hnot (by rw [ConnEvent.conn, hidle]; simp)
  · rw [after_concat, ConnEvent.conn, ← Usage.change_wrote (h.apart conn) t]
    rfl

theorem Tracked.closed (h : Tracked n events) (hopen : .closed conn ∉ events) :
    Tracked n (events ++ [.closed conn]) := by
  have hnot : ¬ (ofSize n).Counted (events ++ [.closed conn]) conn := by
    rw [counted_concat]
    rintro (⟨obtainedAt, t', heq, -⟩ | ⟨-, -, hclosed⟩)
    · cases heq
    · exact hclosed rfl
  refine h.concat ?_ ?_ ?_ (h.lost rfl hopen hnot)
  · rw [after_concat, ConnEvent.conn, usage_step_closed]
    exact h.apart conn
  · rintro (hopen | hcounted)
    · simp [ConnEvent.conn] at hopen
    · exact absurd hcounted hnot
  · rw [after_concat]
    rfl

theorem Tracked.received (h : Tracked n events) (t : Instant) :
    Tracked n (events ++ [.received conn t]) := by
  have hsame : (ofSize n).Counted (events ++ [.received conn t]) conn ↔
      (ofSize n).Counted events conn := by
    rw [counted_concat]
    simp [GivesBack]
  obtain ⟨hidle, huse⟩ := usage_step_received ((ofSize n).after events) conn t
  refine h.concat ?_ ?_ ?_ (.same hsame rfl)
  · rw [after_concat]
    intro hi
    exact huse.trans (h.apart conn (hidle.symm.trans hi))
  · intro hknown
    rw [after_concat]
    simp only [ConnEvent.conn, hsame, List.mem_append, List.mem_singleton, reduceCtorEq,
      or_false] at hknown ⊢
    rw [h.count conn hknown, hidle]
  · rw [after_concat]
    rfl

theorem Tracked.released (h : Tracked n events) (obtainedAt t : Instant) :
    Tracked n (events ++ [.released conn obtainedAt t]) := by
  by_cases hback : ((ofSize n).after events).GivesBack conn (.released conn obtainedAt t)
  · have hcounted : (ofSize n).Counted (events ++ [.released conn obtainedAt t]) conn :=
      (counted_concat ..).mpr (Or.inl hback)
    -- It was in use, so it was not idle and did not count.
    have hnot : ¬ (ofSize n).Counted events conn := by
      intro hold
      obtain ⟨_, _, -, hserves⟩ := hback
      have hidle := (h.count conn (Or.inr hold)).mp hold
      have huse := ((Usage.servesSince_iff ..).mp hserves).1
      rw [h.apart conn hidle] at huse
      cases huse
    obtain ⟨hidle, huse, havail⟩ := step_of_gives_back hback
    refine h.concat ?_ ?_ ?_ (.gained hcounted hnot rfl)
    · rw [after_concat]
      exact fun _ => huse
    · intro _
      rw [after_concat]
      exact iff_of_true hcounted hidle
    · rw [after_concat, havail]
  · have hsame : (ofSize n).Counted (events ++ [.released conn obtainedAt t]) conn ↔
        (ofSize n).Counted events conn := by
      rw [counted_concat]
      simp [hback]
    obtain ⟨husage, havail⟩ := step_of_not_gives_back hback
    refine h.concat ?_ ?_ ?_ (.same hsame rfl)
    · rw [after_concat, ConnEvent.conn, husage]
      exact h.apart conn
    · intro hknown
      rw [after_concat]
      simp only [ConnEvent.conn, hsame, List.mem_append, List.mem_singleton, reduceCtorEq,
        or_false] at hknown ⊢
      rw [h.count conn hknown, husage]
    · rw [after_concat, havail, Int.add_zero]

theorem tracked_of_orderly (n : Nat) {events : List ConnEvent} (h : ConnEvent.Orderly events) :
    Tracked n events := by
  induction events using List.reverseRecOn with
  | nil => exact tracked_nil n
  | append_singleton events event ih =>
    obtain ⟨hbefore, -, hlast⟩ := List.pairwise_append.mp h
    have hopen : event.ofStream = true → .closed event.conn ∉ events := by
      intro hstream hclosed
      have := hlast _ hclosed event (List.mem_singleton_self _) rfl
      rw [hstream] at this
      cases this
    have htracked := ih hbefore
    cases event with
    | wrote conn t => exact htracked.wrote (hopen rfl) t
    | received conn t => exact htracked.received t
    | released conn obtainedAt t => exact htracked.released obtainedAt t
    | closed conn => exact htracked.closed (hopen rfl)

theorem avail_eq (n : Nat) (h : ConnEvent.Orderly events) :
    ((ofSize n).after events).gauges.snapshot.availEstimate =
      {conn | (ofSize n).Available events conn}.ncard +
        {conn | (ofSize n).Stranded events conn}.ncard ∧
    {conn | (ofSize n).Stranded events conn}.Finite := by
  have htracked := tracked_of_orderly n h
  have hunion : {conn | (ofSize n).Counted events conn} =
      {conn | (ofSize n).Available events conn} ∪ {conn | (ofSize n).Stranded events conn} := by
    ext conn
    exact counted_iff _ h conn
  have hdisjoint : Disjoint {conn | (ofSize n).Available events conn}
      {conn | (ofSize n).Stranded events conn} := by
    rw [Set.disjoint_left]
    rintro conn ⟨-, -, -, hopen⟩ ⟨before, event, later, rfl, -, hclosed⟩
    exact hopen (List.mem_append_left _ hclosed)
  have hfinite := htracked.finite
  rw [hunion, Set.finite_union] at hfinite
  refine ⟨?_, hfinite.2⟩
  rw [← Set.ncard_union_eq hdisjoint hfinite.1 hfinite.2, ← hunion]
  simp [Gauges.snapshot, htracked.avail]

theorem length_usages_after (f : Fleet) (events : List ConnEvent) :
    (f.after events).usages.length = f.usages.length := by
  induction events using List.reverseRecOn with
  | nil => rfl
  | append_singleton events event ih =>
    rw [after_concat, ← ih]
    cases event <;> exact List.length_set

theorem available_eq_empty (h : ∀ conn < n, .closed conn ∈ events) :
    {conn | (ofSize n).Available events conn} = ∅ := by
  refine Set.eq_empty_iff_forall_notMem.mpr ?_
  rintro conn ⟨later, ⟨before, event, rfl, hback⟩, -, hopen⟩
  have hlt := hback.lt_length
  rw [length_usages_after] at hlt
  exact hopen (h conn (by simpa [ofSize] using hlt))

end

/-- The estimate is the number of available connections and of those that were given back only
after they were dropped. Each of these counts ever after, and once every stream is dropped they
are all that counts; only without them is the estimate right. -/
theorem availEstimate_after (n : Nat) (events : List ConnEvent) (h : ConnEvent.Orderly events) :
    ((ofSize n).after events).gauges.snapshot.availEstimate =
        {conn | (ofSize n).Available events conn}.ncard +
          {conn | (ofSize n).Stranded events conn}.ncard ∧
      (((ofSize n).after events).gauges.snapshot.availEstimate =
          {conn | (ofSize n).Available events conn}.ncard ↔
        ∀ conn, ¬ (ofSize n).Stranded events conn) ∧
      ((∀ conn < n, .closed conn ∈ events) →
        ((ofSize n).after events).gauges.snapshot.availEstimate =
          {conn | (ofSize n).Stranded events conn}.ncard) ∧
      ∀ conn more, (ofSize n).Stranded events conn →
        (ofSize n).Stranded (events ++ more) conn := by
  obtain ⟨havail, hfinite⟩ := avail_eq n h
  refine ⟨havail, ?_, ?_, fun conn more hstranded => hstranded.append more⟩
  · rw [havail, Nat.add_eq_left, Set.ncard_eq_zero hfinite]
    exact Set.eq_empty_iff_forall_notMem
  · intro hclosed
    rw [havail, available_eq_empty hclosed, Set.ncard_empty, Nat.zero_add]

/-- An answer is read to its end on a connection whose stream is dropped meanwhile. -/
def droppedInUse : List ConnEvent :=
  [.wrote 0 ⟨0⟩, .received 0 ⟨5⟩, .closed 0, .released 0 ⟨0⟩ ⟨9⟩]

theorem availEstimate_after_droppedInUse :
    ConnEvent.Orderly droppedInUse ∧ (∀ conn < 1, .closed conn ∈ droppedInUse) ∧
      ((ofSize 1).after droppedInUse).gauges.snapshot.availEstimate = 1 ∧
      {conn | (ofSize 1).Stranded droppedInUse conn}.ncard = 1 := by
  have horderly : ConnEvent.Orderly droppedInUse := by decide
  have hclosed : ∀ conn < 1, .closed conn ∈ droppedInUse := by decide
  have hone : ((ofSize 1).after droppedInUse).gauges.snapshot.availEstimate = 1 := by decide
  obtain ⟨-, -, hall, -⟩ := availEstimate_after 1 droppedInUse horderly
  exact ⟨horderly, hclosed, hone, (hall hclosed).symm.trans hone⟩

/-- The estimate is not just the number of available connections: here it is one, and the only
connection is gone. -/
theorem availEstimate_ne_available :
    ¬ ∀ (n : Nat) (events : List ConnEvent), ConnEvent.Orderly events →
      ((ofSize n).after events).gauges.snapshot.availEstimate =
        {conn | (ofSize n).Available events conn}.ncard := by
  intro h
  have hcount := h 1 droppedInUse (by decide)
  rw [available_eq_empty (by decide), Set.ncard_empty] at hcount
  revert hcount
  decide

end Fleet

end ServiceCall
