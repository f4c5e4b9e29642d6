import ServiceCall.Proofs.Conn.Timeline

/-!
# New, idle and starved

An attempt gets its connection in one of three ways, and its record says in which. The history of
the connection decides: this is its first lease, or what became of the lease before tells. A
connection that was taken over, or given back only after the attempt had asked, is never reported
idle because of some earlier rest.
-/

namespace ServiceCall

inductive Origin where
  | new
  | idle
  | starved
  deriving DecidableEq

/-- Whether the connection was reused, idle, starved. -/
def Origin.flags : Origin → Bool × Bool × Bool
  | new => (false, false, false)
  | idle => (true, true, false)
  | starved => (true, false, true)

def ConnRecord.HasOrigin (r : ConnRecord) (o : Origin) : Prop :=
  (r.reused, r.wasIdle, r.starved) = o.flags

instance (r : ConnRecord) (o : Origin) : Decidable (r.HasOrigin o) :=
  inferInstanceAs (Decidable (_ = _))

/-- How an attempt that asked at the moment got its lease, if these were the leases before, the
newest first. -/
inductive Origin.OfHistory (requestedAt : Instant) : List Tenure → Origin → Prop
  | new : OfHistory requestedAt [] .new
  | idle {previous : Tenure} {older : List Tenure} {t : Instant}
    (h : previous.releasedAt = some t) (hle : t ≤ requestedAt) :
    OfHistory requestedAt (previous :: older) .idle
  /-- The connection was taken over, or it came back only later. -/
  | starved {previous : Tenure} {older : List Tenure}
    (h : ∀ t, previous.releasedAt = some t → requestedAt < t) :
    OfHistory requestedAt (previous :: older) .starved

theorem Origin.exists_ofHistory (requestedAt : Instant) (earlier : List Tenure) :
    ∃ o, OfHistory requestedAt earlier o := by
  cases earlier with
  | nil => exact ⟨.new, .new⟩
  | cons previous older =>
    cases hreleased : previous.releasedAt with
    | none => exact ⟨.starved, .starved (by simp [hreleased])⟩
    | some t =>
      by_cases hle : t ≤ requestedAt
      · exact ⟨.idle, .idle hreleased hle⟩
      · refine ⟨.starved, .starved ?_⟩
        intro t' ht'
        obtain rfl : t = t' := Option.some.inj (hreleased.symm.trans ht')
        exact (Instant.not_le ..).mp hle

namespace ConnRecord

variable {requestedAt : Instant} {l : Tenure} {earlier : List Tenure} {o o' : Origin}

theorem HasOrigin.unique {r : ConnRecord} (h : r.HasOrigin o) (h' : r.HasOrigin o') : o = o' := by
  have hflags : o.flags = o'.flags := h.symm.trans h'
  cases o <;> cases o' <;> first | rfl | cases hflags

variable (host : String) (timings : ConnectTimings)

theorem hasOrigin_of_history (h : Origin.OfHistory requestedAt earlier o) :
    (classify host requestedAt (l.lease earlier) timings).HasOrigin o := by
  cases h with
  | new => rfl
  | idle h hle => simp [HasOrigin, Origin.flags, classify, Tenure.lease, h, hle]
  | @starved previous older h =>
    have hnot : previous.releasedAt.any (· ≤ requestedAt) = false := by
      cases hreleased : previous.releasedAt with
      | none => rfl
      | some t => simpa using (Instant.not_le ..).mpr (h t hreleased)
    simp [HasOrigin, Origin.flags, classify, Tenure.lease, hnot]

/-- The record tells of the history of the connection and of nothing else. -/
theorem hasOrigin_iff :
    (classify host requestedAt (l.lease earlier) timings).HasOrigin o ↔
      Origin.OfHistory requestedAt earlier o := by
  constructor
  · intro h
    obtain ⟨o', hhistory⟩ := Origin.exists_ofHistory requestedAt earlier
    rwa [h.unique (hasOrigin_of_history host timings hhistory)]
  · exact hasOrigin_of_history host timings

variable {lease : Lease}

theorem wait_le (host : String) (requestedAt : Instant) (lease : Lease)
    (timings : ConnectTimings) :
    (classify host requestedAt lease timings).wait ≤ lease.obtainedAt.since requestedAt := by
  unfold classify
  dsimp only
  split
  · exact Nat.le_refl _
  · exact Nat.sub_le _ _

theorem after_wait_le (host : String) (timings : ConnectTimings)
    (h : requestedAt ≤ lease.obtainedAt) :
    requestedAt.after (classify host requestedAt lease timings).wait ≤ lease.obtainedAt := by
  have hwait : _ ≤ (lease.obtainedAt.nanos - requestedAt.nanos).toNat :=
    Nat.le_trans (wait_le host requestedAt lease timings) (Instant.nanos_since_le ..)
  rw [Instant.le_iff] at h ⊢
  rw [Instant.nanos_after]
  omega

theorem delayed_iff :
    (classify host requestedAt lease timings).delayed = true ↔
      10000000 < (classify host requestedAt lease timings).wait.nanos := decide_eq_true_iff

theorem phases_of_reused
    (h : (classify host requestedAt lease timings).reused = true) :
    let r := classify host requestedAt lease timings
    r.dns = none ∧ r.dial = none ∧ r.tls = none := by
  have hreused : lease.reused = true := h
  simp [classify, hreused]

/-- How long it was idle is told of a lease that was given back before the attempt asked. -/
theorem idleFor_eq_some_iff {d : Duration} :
    (classify host requestedAt (l.lease earlier) timings).idleFor = some d ↔
      ∃ previous older t, earlier = previous :: older ∧ previous.releasedAt = some t ∧
        t ≤ requestedAt ∧ d = l.obtainedAt.since t := by
  cases earlier with
  | nil => simp [classify, Tenure.lease]
  | cons previous older =>
    cases hreleased : previous.releasedAt with
    | none => simp [classify, Tenure.lease, hreleased]
    | some t =>
      by_cases hle : t ≤ requestedAt
      · simp [classify, Tenure.lease, hreleased, hle, eq_comm]
      · simp [classify, Tenure.lease, hreleased, hle]

theorem idleFor_isSome_iff :
    (classify host requestedAt (l.lease earlier) timings).idleFor.isSome = true ↔
      Origin.OfHistory requestedAt earlier .idle := by
  rw [Option.isSome_iff_exists]
  constructor
  · rintro ⟨d, hd⟩
    obtain ⟨previous, older, t, rfl, hreleased, hle, -⟩ :=
      (idleFor_eq_some_iff host timings).mp hd
    exact .idle hreleased hle
  · rintro (_ | ⟨hreleased, hle⟩)
    exact ⟨_, (idleFor_eq_some_iff host timings).mpr ⟨_, _, _, rfl, hreleased, hle, rfl⟩⟩

theorem wait_le_of_idleFor {d : Duration}
    (h : (classify host requestedAt (l.lease earlier) timings).idleFor = some d) :
    (classify host requestedAt (l.lease earlier) timings).wait ≤ d := by
  obtain ⟨previous, older, t, rfl, -, hle, rfl⟩ := (idleFor_eq_some_iff host timings).mp h
  exact Nat.le_trans (wait_le ..) (Instant.since_le_since hle)

end ConnRecord

namespace Fleet

open ConnEvent (ofConn)

/-- The record of a lease that is being served falls into exactly one class, and the leases before
it decide which. It is new if there was none, idle if the last one was given back before the
attempt asked, and starved if that one was given back later or never. -/
theorem origin_of_lease {n conn : Nat} {events : List ConnEvent} {lease : Lease}
    {requestedAt : Instant}
    (hlease : (((ofSize n).after events).usage conn).current? = some lease)
    (hasked : requestedAt ≤ lease.obtainedAt) (host : String) (timings : ConnectTimings) :
    let r := ConnRecord.classify host requestedAt lease timings
    ∃ l earlier, Tenure.chronicle (ofConn conn events) = l :: earlier ∧
      l.obtainedAt = lease.obtainedAt ∧ l.releasedAt = none ∧
      (∃! o, r.HasOrigin o) ∧ (∀ o, r.HasOrigin o ↔ Origin.OfHistory requestedAt earlier o) ∧
      (r.idleFor.isSome = true ↔ r.HasOrigin .idle) ∧
      (∀ d, r.idleFor = some d → r.wait ≤ d ∧
        ∃ previous older t, earlier = previous :: older ∧ previous.releasedAt = some t ∧
          d = lease.obtainedAt.since t ∧
          ((∀ t ∈ ConnEvent.instants (ofConn conn events), t.OnClock) →
            t.after d = lease.obtainedAt)) ∧
      (r.reused = true → r.dns = none ∧ r.dial = none ∧ r.tls = none) ∧
      requestedAt.after r.wait ≤ lease.obtainedAt ∧
      (r.delayed = true ↔ 10000000 < r.wait.nanos) := by
  intro r
  obtain ⟨l, earlier, hpast, hinUse, rfl⟩ := exists_tenure_of_current? hlease
  have horigin : ∀ o, r.HasOrigin o ↔ Origin.OfHistory requestedAt earlier o :=
    fun o => ConnRecord.hasOrigin_iff host timings
  obtain ⟨o, hhistory⟩ := Origin.exists_ofHistory requestedAt earlier
  refine ⟨l, earlier, hpast, rfl, hinUse, ?_, horigin, ?_, ?_, ?_, ?_, ?_⟩
  · exact ⟨o, (horigin o).mpr hhistory, fun o' ho' => ho'.unique ((horigin o).mpr hhistory)⟩
  · rw [horigin]
    exact ConnRecord.idleFor_isSome_iff host timings
  · intro d hd
    refine ⟨ConnRecord.wait_le_of_idleFor host timings hd, ?_⟩
    obtain ⟨previous, older, t, rfl, hreleased, hle, rfl⟩ :=
      (ConnRecord.idleFor_eq_some_iff host timings).mp hd
    refine ⟨previous, older, t, rfl, hreleased, rfl, fun hclock => ?_⟩
    have hon : ∀ m ∈ l :: previous :: older, ∀ t ∈ m.instants, t.OnClock := by
      intro m hm t ht
      exact hclock t (Tenure.mem_instants_of_mem_chronicle (hpast ▸ hm) ht)
    refine Instant.after_since_of_onClock (Int.le_trans hle hasked) ?_ ?_
    · exact hon l List.mem_cons_self _ (by simp [Tenure.instants])
    · exact hon previous (by simp) t (by simp [Tenure.instants, hreleased])
  · exact ConnRecord.phases_of_reused host timings
  · exact ConnRecord.after_wait_le host timings hasked
  · exact ConnRecord.delayed_iff host timings

/-- Of two attempts that could have got the third lease, one asked after the connection had come
back to the pool, the other while the lease before was being served. -/
theorem origin_of_lease_of_takenOver :
    let lease : Lease := ⟨⟨30⟩, true, some ⟨20⟩, some ⟨30⟩, some ⟨41⟩⟩
    let record := fun requestedAt => ConnRecord.classify "svc" requestedAt lease default
    let earlier := (Tenure.chronicle (ofConn 0 takenOver)).tail
    (((ofSize 1).after takenOver).usage 0).current? = some lease ∧
      Origin.OfHistory ⟨25⟩ earlier .idle ∧ (record ⟨25⟩).wait ≤ .ofNanos 10 ∧
      Origin.OfHistory ⟨15⟩ earlier .starved ∧ (record ⟨15⟩).idleFor = none := by
  intro lease record earlier
  have hlease : (((ofSize 1).after takenOver).usage 0).current? = some lease := by decide
  have hlate : (⟨25⟩ : Instant) ≤ lease.obtainedAt := by decide
  have hearly : (⟨15⟩ : Instant) ≤ lease.obtainedAt := by decide
  obtain ⟨_, rested, hrested, -, -, -, horigin, -, hidle, -⟩ :=
    origin_of_lease hlease hlate "svc" default
  obtain ⟨_, pressed, hpressed, -, -, -, horigin', -⟩ :=
    origin_of_lease hlease hearly "svc" default
  have htail : earlier = rested := congrArg List.tail hrested
  have htail' : earlier = pressed := congrArg List.tail hpressed
  refine ⟨hlease, ?_, (hidle (.ofNanos 10) (by decide)).1, ?_, by decide⟩
  · rw [htail]
    exact (horigin .idle).mp (by decide)
  · rw [htail']
    exact (horigin' .starved).mp (by decide)

end Fleet

end ServiceCall
