import ServiceCall.Proofs.Conn.Leases

/-!
# The chronicle of a connection

The use of a connection tells of its current lease and overwrites what it knew of the one before.
A chronicle keeps every lease with what became of it. All that the use tells can be read off the
chronicle.
-/

namespace ServiceCall

namespace ConnEvent

/-- When it happened. Nobody looks at the clock when a stream is dropped. -/
def at? : ConnEvent → Option Instant
  | .wrote _ t | .received _ t | .released _ _ t => some t
  | .closed _ => none

def ofConn (conn : Nat) (events : List ConnEvent) : List ConnEvent :=
  events.filter (·.conn = conn)

def instants (events : List ConnEvent) : List Instant := events.filterMap at?

/-- The clock never goes back from one event to the next. -/
def Timely (events : List ConnEvent) : Prop := (instants events).Pairwise (· ≤ ·)

instance (events : List ConnEvent) : Decidable (Timely events) :=
  inferInstanceAs (Decidable ((instants events).Pairwise _))

theorem ofConn_append (conn : Nat) (events more : List ConnEvent) :
    ofConn conn (events ++ more) = ofConn conn events ++ ofConn conn more :=
  List.filter_append ..

theorem instants_concat (events : List ConnEvent) (event : ConnEvent) :
    instants (events ++ [event]) = instants events ++ event.at?.toList := by
  unfold instants
  rw [List.filterMap_append]
  cases h : event.at? <;> simp [h]

theorem Timely.of_append {events more : List ConnEvent} (h : Timely (events ++ more)) :
    Timely events := by
  unfold Timely instants at *
  rw [List.filterMap_append] at h
  exact (List.pairwise_append.mp h).1

/-- The last event comes after all that happened before. -/
theorem Timely.le_at {events : List ConnEvent} {event : ConnEvent} {t : Instant}
    (h : Timely (events ++ [event])) (ht : event.at? = some t) :
    ∀ earlier ∈ instants events, earlier ≤ t := by
  intro earlier hmem
  unfold Timely at h
  rw [instants_concat, ht] at h
  exact (List.pairwise_append.mp h).2.2 earlier hmem t (List.mem_singleton_self t)

end ConnEvent

/-! ## One lease and what became of it -/

structure Tenure where
  obtainedAt : Instant
  /-- The last write before the response began. -/
  wroteAt : Instant
  /-- The response began. -/
  firstByteAt : Option Instant
  /-- The connection was given back. -/
  releasedAt : Option Instant
  deriving DecidableEq

namespace Tenure

def beginning (t : Instant) : Tenure := ⟨t, t, none, none⟩

/-- A write now belongs to the next request. -/
def isOver (l : Tenure) : Bool := l.releasedAt.isSome || l.firstByteAt.isSome

/-- The leases, the newest first, after one more event. A release that does not name the lease in
use is ignored. -/
def note : List Tenure → ConnEvent → List Tenure
  | [], .wrote _ t => [beginning t]
  | [], _ => []
  | l :: earlier, .wrote _ t =>
    if l.isOver then beginning t :: l :: earlier else { l with wroteAt := t } :: earlier
  | l :: earlier, .received _ t =>
    (if l.isOver then l else { l with firstByteAt := some t }) :: earlier
  | l :: earlier, .released _ obtainedAt t =>
    (if l.releasedAt.isNone && l.obtainedAt = obtainedAt then { l with releasedAt := some t }
      else l) :: earlier
  | l :: earlier, .closed _ => l :: earlier

/-- All leases of a connection that was new at first, the newest first, after its events. -/
def chronicle (events : List ConnEvent) : List Tenure := events.foldl note []

@[simp] theorem chronicle_nil : chronicle [] = [] := rfl

@[simp] theorem chronicle_concat (events : List ConnEvent) (event : ConnEvent) :
    chronicle (events ++ [event]) = note (chronicle events) event := by
  simp [chronicle]

/-! ## One event -/

/-- How the newest lease can change at a moment. -/
inductive Turns (l : Tenure) (t : Instant) : Tenure → Prop
  | wrote (h : l.isOver = false) : Turns l t { l with wroteAt := t }
  | answered (h : l.isOver = false) : Turns l t { l with firstByteAt := some t }
  | released : Turns l t { l with releasedAt := some t }

/-- How the leases can change with an event. -/
inductive Grows : List Tenure → ConnEvent → List Tenure → Prop
  | same {past : List Tenure} {event : ConnEvent} : Grows past event past
  | begun {past : List Tenure} {conn : Nat} {t : Instant} :
    Grows past (.wrote conn t) (beginning t :: past)
  | turned {l l' : Tenure} {earlier : List Tenure} {event : ConnEvent} {t : Instant}
    (ht : event.at? = some t) (h : l.Turns t l') : Grows (l :: earlier) event (l' :: earlier)

theorem note_grows (past : List Tenure) (event : ConnEvent) :
    Grows past event (note past event) := by
  cases past with
  | nil =>
    cases event with
    | wrote conn t => exact .begun
    | received conn t => exact .same
    | released conn obtainedAt t => exact .same
    | closed conn => exact .same
  | cons l earlier =>
    cases event with
    | wrote conn t =>
      simp only [note]
      split
      · exact .begun
      · rename_i h
        exact .turned rfl (.wrote (by simpa using h))
    | received conn t =>
      simp only [note]
      split
      · exact .same
      · rename_i h
        exact .turned rfl (.answered (by simpa using h))
    | released conn obtainedAt t =>
      simp only [note]
      split
      · exact .turned rfl .released
      · exact .same
    | closed conn => exact .same

theorem chronicle_grows (events : List ConnEvent) (event : ConnEvent) :
    Grows (chronicle events) event (chronicle (events ++ [event])) := by
  rw [chronicle_concat]
  exact note_grows ..

/-! ## A lease goes on -/

/-- What does not change any more in a lease. -/
structure Continues (l l' : Tenure) : Prop where
  obtainedAt : l'.obtainedAt = l.obtainedAt
  answered : ∀ t, l.firstByteAt = some t → l'.firstByteAt = some t ∧ l'.wroteAt = l.wroteAt

theorem Continues.refl (l : Tenure) : l.Continues l := ⟨rfl, fun _ h => ⟨h, rfl⟩⟩

theorem Continues.trans {l l' l'' : Tenure} (h : l.Continues l') (h' : l'.Continues l'') :
    l.Continues l'' where
  obtainedAt := h'.obtainedAt.trans h.obtainedAt
  answered t ht := by
    obtain ⟨hfirst, hwrote⟩ := h.answered t ht
    obtain ⟨hfirst', hwrote'⟩ := h'.answered t hfirst
    exact ⟨hfirst', hwrote'.trans hwrote⟩

theorem Turns.continues {l l' : Tenure} {t : Instant} (h : l.Turns t l') : l.Continues l' := by
  have hanswered : l.isOver = false → l.firstByteAt = none := by simp [isOver]
  cases h with
  | wrote h => exact ⟨rfl, fun t ht => by simp [hanswered h] at ht⟩
  | answered h => exact ⟨rfl, fun t ht => by simp [hanswered h] at ht⟩
  | released => exact ⟨rfl, fun _ ht => ⟨ht, rfl⟩⟩

/-- The leases began with one of these writes. -/
def BegunBy (newer : List Tenure) (events : List ConnEvent) : Prop :=
  ∀ l ∈ newer, ∃ conn, .wrote conn l.obtainedAt ∈ events

/-- Later leases come on top, and what lies below does not change. -/
theorem Grows.exists_append {l : Tenure} {newer earlier past' : List Tenure}
    {events : List ConnEvent} {event : ConnEvent}
    (h : Grows (newer ++ l :: earlier) event past') (hnewer : BegunBy newer events) :
    ∃ newer' l', past' = newer' ++ l' :: earlier ∧ l.Continues l' ∧
      BegunBy newer' (events ++ [event]) := by
  have hkept : BegunBy newer (events ++ [event]) := by
    intro m hm
    obtain ⟨conn, hwrote⟩ := hnewer m hm
    exact ⟨conn, List.mem_append_left _ hwrote⟩
  generalize heq : newer ++ l :: earlier = past at h
  cases h with
  | same => exact ⟨newer, l, heq.symm, .refl l, hkept⟩
  | @begun _ conn t =>
    refine ⟨beginning t :: newer, l, congrArg _ heq.symm, .refl l, ?_⟩
    intro m hm
    rcases List.mem_cons.mp hm with rfl | hm
    · exact ⟨conn, List.mem_append_right _ (List.mem_singleton_self _)⟩
    · exact hkept m hm
  | turned ht hturns =>
    cases newer with
    | nil =>
      cases heq
      exact ⟨[], _, rfl, hturns.continues, nofun⟩
    | cons _ newer =>
      cases heq
      refine ⟨_ :: newer, l, rfl, .refl l, ?_⟩
      intro m hm
      rcases List.mem_cons.mp hm with rfl | hm
      · rw [hturns.continues.obtainedAt]
        exact hkept _ List.mem_cons_self
      · exact hkept m (List.mem_cons_of_mem _ hm)

theorem exists_chronicle_append {events : List ConnEvent} {l : Tenure} {earlier : List Tenure}
    (h : chronicle events = l :: earlier) (more : List ConnEvent) :
    ∃ newer l', chronicle (events ++ more) = newer ++ l' :: earlier ∧ l.Continues l' ∧
      BegunBy newer more := by
  induction more using List.reverseRecOn with
  | nil => exact ⟨[], l, by simpa using h, .refl l, nofun⟩
  | append_singleton more event ih =>
    obtain ⟨newer, l', heq, hl', hnewer⟩ := ih
    have hgrows := chronicle_grows (events ++ more) event
    rw [heq] at hgrows
    obtain ⟨newer', l'', heq', hl'', hnewer'⟩ := hgrows.exists_append hnewer
    rw [← List.append_assoc]
    exact ⟨newer', l'', heq', hl'.trans hl'', hnewer'⟩

section

variable {events more : List ConnEvent} {l newest : Tenure} {earlier older : List Tenure}

/-- If no lease has begun since, then the newest one has gone on. -/
theorem continues_of_length_eq (hbefore : chronicle events = l :: earlier)
    (hafter : chronicle (events ++ more) = newest :: older)
    (hlength : (chronicle events).length = (chronicle (events ++ more)).length) :
    l.Continues newest ∧ older = earlier := by
  obtain ⟨newer, l', heq, hcontinues, -⟩ := exists_chronicle_append hbefore more
  rw [hbefore, heq, List.length_append, List.length_cons, List.length_cons] at hlength
  have hnone : newer = [] := List.eq_nil_of_length_eq_zero (by omega)
  rw [hnone, List.nil_append, hafter] at heq
  cases heq
  exact ⟨hcontinues, rfl⟩

/-- If a lease has begun since, then the newest one began with a write since. -/
theorem exists_wrote_of_length_lt (hbefore : chronicle events = l :: earlier)
    (hafter : chronicle (events ++ more) = newest :: older)
    (hlength : (chronicle events).length < (chronicle (events ++ more)).length) :
    ∃ conn, .wrote conn newest.obtainedAt ∈ more := by
  obtain ⟨newer, l', heq, -, hnewer⟩ := exists_chronicle_append hbefore more
  cases newer with
  | nil =>
    rw [hbefore, heq] at hlength
    simp at hlength
  | cons first newer =>
    rw [hafter] at heq
    cases heq
    exact hnewer _ List.mem_cons_self

end

/-! ## Everything in order -/

def instants (l : Tenure) : List Instant :=
  l.obtainedAt :: l.wroteAt :: (l.firstByteAt.toList ++ l.releasedAt.toList)

structure InOrder (l : Tenure) : Prop where
  wrote : l.obtainedAt ≤ l.wroteAt
  answered : ∀ t, l.firstByteAt = some t → l.wroteAt ≤ t

/-- Each lease is in order, and it began when the ones before it had nothing to tell any more. -/
structure Chronological (past : List Tenure) : Prop where
  inOrder : ∀ l ∈ past, l.InOrder
  follows : past.Pairwise fun l earlier => ∀ t ∈ earlier.instants, t ≤ l.obtainedAt

theorem Turns.mem_instants {l l' : Tenure} {now t : Instant} (h : l.Turns now l')
    (ht : t ∈ l'.instants) : t ∈ l.instants ∨ t = now := by
  cases h with
  | wrote | answered | released =>
    simp only [instants, List.mem_cons, List.mem_append, Option.mem_toList,
      Option.some.injEq] at ht ⊢
    grind

theorem Grows.mem_instants {past past' : List Tenure} {event : ConnEvent} {l : Tenure}
    {t : Instant} (h : Grows past event past') (hl : l ∈ past') (ht : t ∈ l.instants) :
    (∃ l ∈ past, t ∈ l.instants) ∨ event.at? = some t := by
  cases h with
  | same => exact Or.inl ⟨l, hl, ht⟩
  | begun =>
    rcases List.mem_cons.mp hl with rfl | hl
    · simp [instants, beginning] at ht
      simp [ht, ConnEvent.at?]
    · exact Or.inl ⟨l, hl, ht⟩
  | turned hnow hturns =>
    rcases List.mem_cons.mp hl with rfl | hl
    · rcases hturns.mem_instants ht with hold | rfl
      · exact Or.inl ⟨_, List.mem_cons_self, hold⟩
      · exact Or.inr hnow
    · exact Or.inl ⟨l, List.mem_cons_of_mem _ hl, ht⟩

/-- The chronicle knows of no other instants than those of the events. -/
theorem mem_instants_of_mem_chronicle {events : List ConnEvent} {l : Tenure} {t : Instant}
    (hl : l ∈ chronicle events) (ht : t ∈ l.instants) : t ∈ ConnEvent.instants events := by
  induction events using List.reverseRecOn generalizing l with
  | nil => simp at hl
  | append_singleton events event ih =>
    rw [ConnEvent.instants_concat, List.mem_append]
    rcases (chronicle_grows events event).mem_instants hl ht with ⟨l', hl', ht'⟩ | hnow
    · exact Or.inl (ih hl' ht')
    · exact Or.inr (by simp [hnow])

theorem Turns.inOrder {l l' : Tenure} {t : Instant} (h : l.Turns t l') (hl : l.InOrder)
    (hle : ∀ earlier ∈ l.instants, earlier ≤ t) : l'.InOrder := by
  have hnone : l.isOver = false → l.firstByteAt = none := by simp [isOver]
  have hobtained : l.obtainedAt ≤ t := hle _ (by simp [instants])
  have hwrote : l.wroteAt ≤ t := hle _ (by simp [instants])
  cases h with
  | wrote h => exact ⟨hobtained, fun first hfirst => by simp [hnone h] at hfirst⟩
  | answered h => exact ⟨hl.wrote, fun first hfirst => by cases hfirst; exact hwrote⟩
  | released => exact ⟨hl.wrote, hl.answered⟩

theorem Chronological.grows {past past' : List Tenure} {event : ConnEvent}
    (h : Chronological past) (hg : Grows past event past')
    (hle : ∀ t, event.at? = some t → ∀ l ∈ past, ∀ earlier ∈ l.instants, earlier ≤ t) :
    Chronological past' := by
  cases hg with
  | same => exact h
  | @begun _ _ t =>
    refine ⟨?_, List.pairwise_cons.mpr ⟨hle t rfl, h.follows⟩⟩
    intro l hl
    rcases List.mem_cons.mp hl with rfl | hl
    · exact ⟨Int.le_refl _, nofun⟩
    · exact h.inOrder l hl
  | @turned l l' earlier _ t ht hturns =>
    obtain ⟨hnewest, hrest⟩ := List.pairwise_cons.mp h.follows
    refine ⟨?_, List.pairwise_cons.mpr ⟨?_, hrest⟩⟩
    · intro m hm
      rcases List.mem_cons.mp hm with rfl | hm
      · exact hturns.inOrder (h.inOrder l List.mem_cons_self) (hle t ht l List.mem_cons_self)
      · exact h.inOrder m (List.mem_cons_of_mem _ hm)
    · rw [hturns.continues.obtainedAt]
      exact hnewest

theorem chronological {events : List ConnEvent} (h : ConnEvent.Timely events) :
    Chronological (chronicle events) := by
  induction events using List.reverseRecOn with
  | nil => exact ⟨by simp, .nil⟩
  | append_singleton events event ih =>
    refine (ih h.of_append).grows (chronicle_grows events event) ?_
    intro t ht l hl earlier hearlier
    exact h.le_at ht earlier (mem_instants_of_mem_chronicle hl hearlier)

theorem obtainedAt_le {events more : List ConnEvent} {l newest : Tenure}
    {earlier older : List Tenure} (h : ConnEvent.Timely (events ++ more))
    (hbefore : chronicle events = l :: earlier)
    (hafter : chronicle (events ++ more) = newest :: older) :
    l.obtainedAt ≤ newest.obtainedAt := by
  obtain ⟨newer, l', heq, hcontinues, -⟩ := exists_chronicle_append hbefore more
  rw [hafter] at heq
  rw [← hcontinues.obtainedAt]
  cases newer with
  | nil =>
    cases heq
    exact Int.le_refl _
  | cons first newer =>
    cases heq
    have hfollows := (hafter ▸ chronological h).follows
    have hmem : l' ∈ newer ++ l' :: earlier := by simp
    exact (List.pairwise_cons.mp hfollows).1 l' hmem _ List.mem_cons_self

/-- What the connection tells of a lease when these came before it. -/
def lease (l : Tenure) (earlier : List Tenure) : Lease where
  obtainedAt := l.obtainedAt
  reused := !earlier.isEmpty
  idleSince := earlier.head?.bind (·.releasedAt)
  wroteAt := some l.wroteAt
  firstByteAt := l.firstByteAt

end Tenure

open Tenure (chronicle)

def ConnEvent.leasesBegun (conn : Nat) (events : List ConnEvent) : Nat :=
  (chronicle (ofConn conn events)).length

/-! ## The use of a connection -/

namespace Usage

/-- What a connection tells when this is its chronicle. -/
def ofChronicle : List Tenure → Usage
  | [] => unused
  | l :: earlier =>
    { uses := earlier.length + 1
      inUse := l.releasedAt.isNone
      idle := l.releasedAt.isSome
      idleSince := (l :: earlier).findSome? (·.releasedAt)
      lease := some (l.lease earlier) }

def told (u : Usage) : ConnEvent → Usage
  | .wrote _ t => (u.wrote t).1
  | .received _ t => u.received t
  | .released _ obtainedAt t => (u.released obtainedAt t).1
  | .closed _ => u

theorem told_ofChronicle (past : List Tenure) (event : ConnEvent) :
    (ofChronicle past).told event = ofChronicle (Tenure.note past event) := by
  cases past with
  | nil => cases event <;> rfl
  | cons l earlier =>
    obtain ⟨obtainedAt, wroteAt, firstByteAt, releasedAt⟩ := l
    cases event with
    | wrote conn t =>
      cases releasedAt <;> cases firstByteAt <;> rfl
    | received conn t =>
      cases releasedAt <;> cases firstByteAt <;> rfl
    | released conn named t =>
      cases releasedAt with
      | some t' => rfl
      | none =>
        by_cases h : obtainedAt = named <;>
          simp [told, released, ofChronicle, Tenure.note, Tenure.lease, h]
    | closed conn => rfl

@[simp] theorem uses_ofChronicle (past : List Tenure) :
    (ofChronicle past).uses = past.length := by
  cases past <;> rfl

theorem not_inUse_and_idle (past : List Tenure) :
    ¬ ((ofChronicle past).inUse = true ∧ (ofChronicle past).idle = true) := by
  cases past with
  | nil => simp [ofChronicle, unused]
  | cons l earlier => cases hl : l.releasedAt <;> simp [ofChronicle, hl]

theorem lease_isSome_of_inUse {past : List Tenure} (h : (ofChronicle past).inUse = true) :
    (ofChronicle past).lease.isSome = true := by
  cases past with
  | nil => cases h
  | cons l earlier => rfl

theorem lease_ofChronicle {past : List Tenure} {lease : Lease} :
    (ofChronicle past).lease = some lease ↔
      ∃ l earlier, past = l :: earlier ∧ lease = l.lease earlier := by
  cases past with
  | nil => simp [ofChronicle, unused]
  | cons l earlier =>
    constructor
    · intro h
      exact ⟨l, earlier, rfl, (Option.some.inj h).symm⟩
    · rintro ⟨l', earlier', heq, rfl⟩
      cases heq
      rfl

theorem current?_ofChronicle {past : List Tenure} {lease : Lease} :
    (ofChronicle past).current? = some lease ↔
      ∃ l earlier, past = l :: earlier ∧ l.releasedAt = none ∧ lease = l.lease earlier := by
  rw [current?_eq_some, lease_ofChronicle]
  constructor
  · rintro ⟨hinUse, l, earlier, rfl, rfl⟩
    exact ⟨l, earlier, rfl, Option.isNone_iff_eq_none.mp hinUse, rfl⟩
  · rintro ⟨l, earlier, rfl, hnone, rfl⟩
    exact ⟨Option.isNone_iff_eq_none.mpr hnone, l, earlier, rfl, rfl⟩

end Usage

namespace Fleet

theorem lt_length_of_current? {f : Fleet} {conn : Nat} {lease : Lease}
    (h : (f.usage conn).current? = some lease) : conn < f.usages.length := by
  by_contra hlt
  rw [usage_of_length_le hlt] at h
  cases h

theorem lt_of_current? {n conn : Nat} {events : List ConnEvent} {lease : Lease}
    (h : (((ofSize n).after events).usage conn).current? = some lease) : conn < n := by
  have hlt := lt_length_of_current? h
  rw [length_usages_after] at hlt
  simpa [ofSize] using hlt

theorem usage_step (f : Fleet) {conn : Nat} (hconn : conn < f.usages.length)
    {event : ConnEvent} (h : event.conn = conn) :
    (f.step event).usage conn = (f.usage conn).told event := by
  subst h
  cases event <;> exact (usage_put ..).trans (if_pos ⟨rfl, hconn⟩)

/-- The use of a connection tells no more and no less than this of its chronicle. -/
theorem usage_after {n conn : Nat} (hconn : conn < n) (events : List ConnEvent) :
    ((ofSize n).after events).usage conn =
      .ofChronicle (chronicle (ConnEvent.ofConn conn events)) := by
  induction events using List.reverseRecOn with
  | nil => exact usage_ofSize n conn
  | append_singleton events event ih =>
    rw [after_concat, ConnEvent.ofConn_append]
    by_cases h : event.conn = conn
    · have hlt : conn < ((ofSize n).after events).usages.length := by
        rw [length_usages_after]
        simpa [ofSize] using hconn
      have hown : ConnEvent.ofConn conn [event] = [event] := by simp [ConnEvent.ofConn, h]
      rw [usage_step _ hlt h, hown, Tenure.chronicle_concat, ih, Usage.told_ofChronicle]
    · have hother : ConnEvent.ofConn conn [event] = [] := by simp [ConnEvent.ofConn, h]
      rw [usage_step_of_ne _ h, hother, List.append_nil, ih]

/-- The lease that is being served is the newest one. -/
theorem exists_tenure_of_current? {n conn : Nat} {events : List ConnEvent} {lease : Lease}
    (h : (((ofSize n).after events).usage conn).current? = some lease) :
    ∃ l earlier, chronicle (ConnEvent.ofConn conn events) = l :: earlier ∧
      l.releasedAt = none ∧ lease = l.lease earlier := by
  rwa [usage_after (lt_of_current? h), Usage.current?_ofChronicle] at h

end Fleet

end ServiceCall
