import ServiceCall.Proofs.Conn.Chronicle

/-!
# The timeline of a lease

As long as the clock never goes back, what a connection tells of a lease is in order: it came back
to the pool, was obtained, written and answered, and what has happened within a lease is not
overwritten. So no span that a record measures between these moments is cut off at zero.
-/

namespace ServiceCall

namespace Lease

/-- The moments of the lease are in order. -/
structure InOrder (l : Lease) : Prop where
  wrote : ∃ t, l.wroteAt = some t ∧ l.obtainedAt ≤ t ∧
    ∀ first, l.firstByteAt = some first → t ≤ first
  idle : ∀ t, l.idleSince = some t → t ≤ l.obtainedAt
  fresh : l.reused = false → l.idleSince = none

/-- What does not change any more within a lease. -/
structure Continues (l l' : Lease) : Prop extends l.Same l' where
  answered : ∀ t, l.firstByteAt = some t → l'.firstByteAt = some t ∧ l'.wroteAt = l.wroteAt

def instants (l : Lease) : List Instant :=
  l.obtainedAt :: (l.idleSince.toList ++ l.wroteAt.toList ++ l.firstByteAt.toList)

end Lease

/-- The span, if there is one, reaches exactly from the one moment to the other. -/
def Duration.Spans (span : Option Duration) (start finish : Option Instant) : Prop :=
  ∀ d, span = some d → ∃ t t', start = some t ∧ finish = some t' ∧ t.after d = t'

namespace ConnRecord

variable {lease : Lease} (host : String) (requestedAt : Instant) (timings : ConnectTimings)

theorem exists_of_idleFor {d : Duration}
    (h : (classify host requestedAt lease timings).idleFor = some d) :
    ∃ t, lease.idleSince = some t ∧ d = lease.obtainedAt.since t := by
  simp only [classify] at h
  split at h
  · obtain ⟨t, ht, rfl⟩ := Option.map_eq_some_iff.mp h
    exact ⟨t, ht, rfl⟩
  · cases h

theorem exists_of_requestSend {d : Duration}
    (h : (classify host requestedAt lease timings).requestSend = some d) :
    ∃ t, lease.wroteAt = some t ∧ d = t.since lease.obtainedAt := by
  obtain ⟨t, ht, rfl⟩ := Option.map_eq_some_iff.mp h
  exact ⟨t, ht, rfl⟩

theorem exists_of_firstByte {d : Duration}
    (h : (classify host requestedAt lease timings).firstByte = some d) :
    ∃ wrote first, lease.wroteAt = some wrote ∧ lease.firstByteAt = some first ∧
      d = first.since wrote := by
  obtain ⟨first, hfirst, h⟩ := Option.bind_eq_some_iff.mp h
  obtain ⟨wrote, hwrote, h⟩ := Option.bind_eq_some_iff.mp h
  cases h
  exact ⟨wrote, first, hwrote, hfirst, rfl⟩

/-- No span that is measured between moments of the lease is cut off. -/
theorem spans_classify (h : lease.InOrder) (hclock : ∀ t ∈ lease.instants, t.OnClock) :
    let r := classify host requestedAt lease timings
    Duration.Spans r.idleFor lease.idleSince (some lease.obtainedAt) ∧
      Duration.Spans r.requestSend (some lease.obtainedAt) lease.wroteAt ∧
      Duration.Spans r.firstByte lease.wroteAt lease.firstByteAt := by
  have hobtained : lease.obtainedAt.OnClock := hclock _ (by simp [Lease.instants])
  obtain ⟨wrote, hwrote, hobtainedLe, hfirstLe⟩ := h.wrote
  have hwroteOn : wrote.OnClock := hclock _ (by simp [Lease.instants, hwrote])
  refine ⟨?_, ?_, ?_⟩
  · intro d hd
    obtain ⟨t, ht, rfl⟩ := exists_of_idleFor host requestedAt timings hd
    have hon : t.OnClock := hclock _ (by simp [Lease.instants, ht])
    exact ⟨t, _, ht, rfl, Instant.after_since_of_onClock (h.idle t ht) hobtained hon⟩
  · intro d hd
    obtain ⟨t, ht, rfl⟩ := exists_of_requestSend host requestedAt timings hd
    obtain rfl : wrote = t := Option.some.inj (hwrote.symm.trans ht)
    exact ⟨_, wrote, rfl, ht, Instant.after_since_of_onClock hobtainedLe hwroteOn hobtained⟩
  · intro d hd
    obtain ⟨t, first, ht, hfirst, rfl⟩ := exists_of_firstByte host requestedAt timings hd
    obtain rfl : wrote = t := Option.some.inj (hwrote.symm.trans ht)
    have hon : first.OnClock := hclock _ (by simp [Lease.instants, hfirst])
    exact ⟨wrote, first, ht, hfirst,
      Instant.after_since_of_onClock (hfirstLe first hfirst) hon hwroteOn⟩

end ConnRecord

namespace Tenure

variable {l l' : Tenure} {earlier : List Tenure}

theorem Continues.lease (h : l.Continues l') : (l.lease earlier).Continues (l'.lease earlier) where
  obtainedAt := h.obtainedAt
  reused := rfl
  idleSince := rfl
  answered t ht := by
    obtain ⟨hfirst, hwrote⟩ := h.answered t ht
    exact ⟨hfirst, congrArg some hwrote⟩

theorem mem_of_idleSince {t : Instant} (h : (l.lease earlier).idleSince = some t) :
    ∃ previous ∈ earlier, t ∈ previous.instants := by
  obtain ⟨previous, hhead, ht⟩ := Option.bind_eq_some_iff.mp h
  exact ⟨previous, List.mem_of_mem_head? hhead, by simp [instants, ht]⟩

theorem Chronological.lease_inOrder (h : Chronological (l :: earlier)) :
    (l.lease earlier).InOrder where
  wrote :=
    have hl := h.inOrder l List.mem_cons_self
    ⟨l.wroteAt, rfl, hl.wrote, hl.answered⟩
  idle t ht := by
    obtain ⟨previous, hprevious, hmem⟩ := mem_of_idleSince ht
    exact (List.pairwise_cons.mp h.follows).1 previous hprevious t hmem
  fresh hfresh := by
    have hnil : earlier = [] := by simpa [lease] using hfresh
    rw [hnil]
    rfl

theorem exists_of_mem_lease_instants {t : Instant} (h : t ∈ (l.lease earlier).instants) :
    ∃ m ∈ l :: earlier, t ∈ m.instants := by
  simp only [Lease.instants, List.mem_cons, List.mem_append, Option.mem_toList] at h
  rcases h with hobtained | (hidle | hwrote) | hfirst
  · exact ⟨l, List.mem_cons_self, by simp [instants, hobtained, lease]⟩
  · obtain ⟨previous, hprevious, hmem⟩ := mem_of_idleSince hidle
    exact ⟨previous, List.mem_cons_of_mem _ hprevious, hmem⟩
  · cases hwrote
    exact ⟨l, List.mem_cons_self, by simp [instants]⟩
  · have hmem : l.firstByteAt = some t := hfirst
    exact ⟨l, List.mem_cons_self, by simp [instants, hmem]⟩

end Tenure

namespace Fleet

open ConnEvent (ofConn leasesBegun)

/-- As long as the clock does not go back between the events of a connection, it is never both in
use and idle, it counts its leases, and each one is in order and keeps what it was told first. -/
theorem leases_in_order (n conn : Nat) (hconn : conn < n) (events : List ConnEvent)
    (h : ConnEvent.Timely (ofConn conn events)) :
    let u := ((ofSize n).after events).usage conn
    ¬ (u.inUse = true ∧ u.idle = true) ∧ u.uses = leasesBegun conn events ∧
      (u.inUse = true → u.lease.isSome = true) ∧
      ∀ lease, u.lease = some lease →
        lease.InOrder ∧ (lease.reused = true ↔ 1 < leasesBegun conn events) ∧
        (∀ before later old, events = before ++ later →
          leasesBegun conn before = leasesBegun conn events →
          (((ofSize n).after before).usage conn).lease = some old → old.Continues lease) ∧
        ((∀ t ∈ ConnEvent.instants (ofConn conn events), t.OnClock) →
          ∀ host requestedAt timings,
            let r := ConnRecord.classify host requestedAt lease timings
            Duration.Spans r.idleFor lease.idleSince (some lease.obtainedAt) ∧
              Duration.Spans r.requestSend (some lease.obtainedAt) lease.wroteAt ∧
              Duration.Spans r.firstByte lease.wroteAt lease.firstByteAt) := by
  intro u
  have hu : u = .ofChronicle _ := usage_after hconn events
  have hchronological := Tenure.chronological h
  rw [hu]
  refine ⟨Usage.not_inUse_and_idle _, Usage.uses_ofChronicle _, Usage.lease_isSome_of_inUse, ?_⟩
  intro lease hlease
  obtain ⟨l, earlier, hpast, rfl⟩ := Usage.lease_ofChronicle.mp hlease
  have hordered : (l.lease earlier).InOrder := (hpast ▸ hchronological).lease_inOrder
  refine ⟨hordered, ?_, ?_, ?_⟩
  · simp [leasesBegun, hpast, Tenure.lease, List.length_pos_iff]
  · rintro before later old rfl hbegun hold
    rw [usage_after hconn] at hold
    obtain ⟨l₀, earlier₀, hbefore, rfl⟩ := Usage.lease_ofChronicle.mp hold
    unfold leasesBegun at hbegun
    rw [ConnEvent.ofConn_append] at hpast hbegun
    obtain ⟨hcontinues, rfl⟩ := Tenure.continues_of_length_eq hbefore hpast hbegun
    exact hcontinues.lease
  · intro hclock host requestedAt timings
    refine ConnRecord.spans_classify host requestedAt timings hordered ?_
    intro t ht
    obtain ⟨m, hm, hmem⟩ := Tenure.exists_of_mem_lease_instants ht
    exact hclock t (Tenure.mem_instants_of_mem_chronicle (hpast ▸ hm) hmem)

/-- The second request takes the connection over, so the release of the first comes too late. The
third finds it in the pool. -/
def takenOver : List ConnEvent :=
  [.wrote 0 ⟨0⟩, .wrote 0 ⟨2⟩, .received 0 ⟨9⟩, .wrote 0 ⟨12⟩, .received 0 ⟨15⟩,
    .released 0 ⟨0⟩ ⟨16⟩, .released 0 ⟨12⟩ ⟨20⟩, .wrote 0 ⟨30⟩, .received 0 ⟨41⟩]

theorem leases_in_order_of_takenOver :
    let lease : Lease := ⟨⟨30⟩, true, some ⟨20⟩, some ⟨30⟩, some ⟨41⟩⟩
    ConnEvent.Timely (ofConn 0 takenOver) ∧
      (((ofSize 1).after takenOver).usage 0).lease = some lease ∧
      leasesBegun 0 takenOver = 3 ∧ lease.InOrder ∧
      Duration.Spans (ConnRecord.classify "svc" ⟨25⟩ lease default).idleFor (some ⟨20⟩)
        (some ⟨30⟩) := by
  intro lease
  have htimely : ConnEvent.Timely (ofConn 0 takenOver) := by decide
  have hlease : (((ofSize 1).after takenOver).usage 0).lease = some lease := by decide
  have hclock : ∀ t ∈ ConnEvent.instants (ofConn 0 takenOver), t.OnClock := by decide
  obtain ⟨-, huses, -, hall⟩ := leases_in_order 1 0 (by decide) takenOver htimely
  obtain ⟨hordered, -, -, hspans⟩ := hall lease hlease
  have hthree : (((ofSize 1).after takenOver).usage 0).uses = 3 := by decide
  exact ⟨htimely, hlease, huses.symm.trans hthree, hordered,
    (hspans hclock "svc" ⟨25⟩ default).1⟩

end Fleet

end ServiceCall
