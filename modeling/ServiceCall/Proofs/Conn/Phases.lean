import ServiceCall.Proofs.Conn.Origins

/-!
# Where the time goes

Each phase of a record is measured from where the one before it ended. So as long as the moments
are in order, the phases of an attempt add up to the time from its asking to the first byte of the
answer, and connecting takes as long as its parts. In any order, no phase is longer than the
interval that it is measured in.
-/

namespace ServiceCall

/-! ## No longer than the interval -/

/-- The span, if there is one, is no longer than from the one moment to the other, and zero if
that is backwards. -/
def Duration.Fits (span : Option Duration) (start finish : Option Instant) : Prop :=
  ∀ d, span = some d → ∃ t t', start = some t ∧ finish = some t' ∧
    d.nanos ≤ (t'.nanos - t.nanos).toNat

theorem Duration.Fits.of_le {a b : Duration} {start finish : Option Instant}
    (h : Fits (some b) start finish) (hle : a ≤ b) : Fits (some a) start finish := by
  rintro d ⟨⟩
  obtain ⟨t, t', hstart, hfinish, hb⟩ := h b rfl
  exact ⟨t, t', hstart, hfinish, Nat.le_trans hle hb⟩

theorem Instant.fits_since (t earlier : Instant) :
    Duration.Fits (some (t.since earlier)) (some earlier) (some t) := by
  rintro d ⟨⟩
  exact ⟨earlier, t, rfl, rfl, nanos_since_le t earlier⟩

namespace ConnectMarks

variable (m : ConnectMarks) (startedAt finishedAt : Instant) (secure : Bool)

theorem fits_dial :
    Duration.Fits (m.timings startedAt finishedAt secure).dial (some startedAt) m.reachedAt := by
  intro d hd
  obtain ⟨t, ht, rfl⟩ := Option.map_eq_some_iff.mp hd
  rw [ht]
  exact (t.fits_since startedAt).of_le (Nat.sub_le _ _) _ rfl

theorem fits_tls :
    Duration.Fits (m.timings startedAt finishedAt secure).tls m.reachedAt (some finishedAt) := by
  intro d hd
  simp only [timings, Option.ite_none_right_eq_some, Option.map_eq_some_iff] at hd
  obtain ⟨-, t, ht, rfl⟩ := hd
  rw [ht]
  exact finishedAt.fits_since t _ rfl

theorem fits_total :
    Duration.Fits (some (m.timings startedAt finishedAt secure).total) (some startedAt)
      (some finishedAt) := finishedAt.fits_since startedAt

end ConnectMarks

namespace ConnRecord

section

variable (host : String) (requestedAt : Instant) (lease : Lease) (timings : ConnectTimings)

theorem fits_wait :
    Duration.Fits (some (classify host requestedAt lease timings).wait) (some requestedAt)
      (some lease.obtainedAt) :=
  (lease.obtainedAt.fits_since requestedAt).of_le (wait_le ..)

theorem fits_idleFor :
    Duration.Fits (classify host requestedAt lease timings).idleFor lease.idleSince
      (some lease.obtainedAt) := by
  intro d hd
  obtain ⟨t, ht, rfl⟩ := exists_of_idleFor host requestedAt timings hd
  rw [ht]
  exact lease.obtainedAt.fits_since t _ rfl

theorem fits_requestSend :
    Duration.Fits (classify host requestedAt lease timings).requestSend (some lease.obtainedAt)
      lease.wroteAt := by
  intro d hd
  obtain ⟨t, ht, rfl⟩ := exists_of_requestSend host requestedAt timings hd
  rw [ht]
  exact t.fits_since lease.obtainedAt _ rfl

theorem fits_firstByte :
    Duration.Fits (classify host requestedAt lease timings).firstByte lease.wroteAt
      lease.firstByteAt := by
  intro d hd
  obtain ⟨wrote, first, hwrote, hfirst, rfl⟩ := exists_of_firstByte host requestedAt timings hd
  rw [hwrote, hfirst]
  exact first.fits_since wrote _ rfl

end

/-! ## The sum of the phases -/

/-- What a phase adds to the sum; one that does not apply adds nothing. -/
def nanosOf (phase : Option Duration) : Nat := (phase.getD .zero).nanos

@[simp] theorem nanosOf_some (d : Duration) : nanosOf (some d) = d.nanos := rfl

@[simp] theorem nanosOf_none : nanosOf none = 0 := rfl

/-- The time spent on connecting. -/
def connecting (r : ConnRecord) : Nat := nanosOf r.dns + nanosOf r.dial + nanosOf r.tls

/-- The time spent on all phases up to the first byte. -/
def spent (r : ConnRecord) : Nat :=
  r.wait.nanos + r.connecting + nanosOf r.requestSend + nanosOf r.firstByte

/-- The attempt used the connection for its request and got an answer. -/
structure Answered (requestedAt : Instant) (lease : Lease) (wroteAt firstByteAt : Instant) :
    Prop where
  wrote : lease.wroteAt = some wroteAt
  first : lease.firstByteAt = some firstByteAt
  inOrder : [requestedAt, lease.obtainedAt, wroteAt, firstByteAt].IsChain (· ≤ ·)
  onClock : requestedAt.OnClock ∧ firstByteAt.OnClock

/-- Connecting began after the attempt had asked and was over when it got the connection, and the
name was looked up before the host was reached. -/
structure DialedFor (requestedAt : Instant) (lease : Lease) (m : ConnectMarks)
    (startedAt reachedAt finishedAt : Instant) : Prop where
  fresh : lease.reused = false
  reached : m.reachedAt = some reachedAt
  inOrder : [requestedAt, startedAt, reachedAt, finishedAt, lease.obtainedAt].IsChain (· ≤ ·)
  lookup : ∀ d, m.lookup = some d → d ≤ reachedAt.since startedAt

section

variable {host : String} {requestedAt startedAt reachedAt finishedAt wroteAt firstByteAt : Instant}
  {lease : Lease} {m : ConnectMarks} {timings : ConnectTimings}

theorem Answered.spent_eq (h : Answered requestedAt lease wroteAt firstByteAt) :
    let r := classify host requestedAt lease timings
    r.spent = r.wait.nanos + r.connecting + (wroteAt.since lease.obtainedAt).nanos +
      (firstByteAt.since wroteAt).nanos := by
  simp [spent, classify, h.wrote, h.first]

theorem Answered.nanos_le (h : Answered requestedAt lease wroteAt firstByteAt) :
    requestedAt.nanos ≤ lease.obtainedAt.nanos ∧ lease.obtainedAt.nanos ≤ wroteAt.nanos ∧
      wroteAt.nanos ≤ firstByteAt.nanos := by
  simpa [Instant.le_iff] using h.inOrder

theorem Answered.sub_le (h : Answered requestedAt lease wroteAt firstByteAt) :
    firstByteAt.nanos - requestedAt.nanos ≤ Duration.maxNanos :=
  Instant.sub_le_of_onClock h.onClock.2 h.onClock.1

theorem Answered.nanos_eq (h : Answered requestedAt lease wroteAt firstByteAt) :
    ((lease.obtainedAt.since requestedAt).nanos + (wroteAt.since lease.obtainedAt).nanos +
      (firstByteAt.since wroteAt).nanos : Int) = firstByteAt.nanos - requestedAt.nanos := by
  have hfits := h.sub_le
  obtain ⟨hobtained, hwrote, hfirst⟩ := h.nanos_le
  rw [Instant.nanos_since ((Instant.le_iff ..).mpr hobtained) (by omega),
    Instant.nanos_since ((Instant.le_iff ..).mpr hwrote) (by omega),
    Instant.nanos_since ((Instant.le_iff ..).mpr hfirst) (by omega)]
  omega

theorem DialedFor.nanos_le (h : DialedFor requestedAt lease m startedAt reachedAt finishedAt) :
    requestedAt.nanos ≤ startedAt.nanos ∧ startedAt.nanos ≤ reachedAt.nanos ∧
      reachedAt.nanos ≤ finishedAt.nanos ∧ finishedAt.nanos ≤ lease.obtainedAt.nanos := by
  simpa [Instant.le_iff] using h.inOrder

theorem DialedFor.connecting_eq (h : DialedFor requestedAt lease m startedAt reachedAt finishedAt)
    (secure : Bool) :
    (classify host requestedAt lease (m.timings startedAt finishedAt secure)).connecting =
      (reachedAt.since startedAt).nanos +
        if secure then (finishedAt.since reachedAt).nanos else 0 := by
  have hlookup : nanosOf m.lookup ≤ (reachedAt.since startedAt).nanos := by
    cases hm : m.lookup with
    | none => exact Nat.zero_le _
    | some d => exact h.lookup d hm
  unfold nanosOf at hlookup
  cases secure <;>
    simp [connecting, classify, ConnectMarks.timings, h.fresh, h.reached, nanosOf] <;> omega

/-- Connecting lies between asking and getting the connection, so nothing is cut off. -/
theorem DialedFor.nanos_eq (h : DialedFor requestedAt lease m startedAt reachedAt finishedAt)
    (ha : Answered requestedAt lease wroteAt firstByteAt) :
    (finishedAt.since startedAt).nanos ≤ (lease.obtainedAt.since requestedAt).nanos ∧
      ((reachedAt.since startedAt).nanos + (finishedAt.since reachedAt).nanos : Int) =
        (finishedAt.since startedAt).nanos ∧
      ((finishedAt.since reachedAt).nanos : Int) = finishedAt.nanos - reachedAt.nanos := by
  have hfits := ha.sub_le
  obtain ⟨hstarted, hreached, hfinished, hobtained⟩ := h.nanos_le
  obtain ⟨hasked, hwrote, hfirst⟩ := ha.nanos_le
  have hwhole := Instant.nanos_since ((Instant.le_iff ..).mpr hasked) (by omega)
  have hreach := Instant.nanos_since ((Instant.le_iff ..).mpr hreached) (by omega)
  have hkeys := Instant.nanos_since ((Instant.le_iff ..).mpr hfinished) (by omega)
  have htotal := Instant.nanos_since
    ((Instant.le_iff ..).mpr (Int.le_trans hreached hfinished)) (by omega)
  omega

/-- Looking up, reaching and agreeing on keys is all there is to connecting. -/
theorem DialedFor.connecting_secure (host : String)
    (h : DialedFor requestedAt lease m startedAt reachedAt finishedAt)
    (ha : Answered requestedAt lease wroteAt firstByteAt) :
    let timings := m.timings startedAt finishedAt true
    (classify host requestedAt lease timings).connecting = timings.total.nanos := by
  intro timings
  obtain ⟨-, hparts, -⟩ := h.nanos_eq ha
  have hconnecting : (classify host requestedAt lease timings).connecting =
      (reachedAt.since startedAt).nanos + (finishedAt.since reachedAt).nanos :=
    h.connecting_eq true
  have htotal : timings.total = finishedAt.since startedAt := rfl
  rw [hconnecting, htotal]
  omega

theorem spent_of_dialed (host : String)
    (h : DialedFor requestedAt lease m startedAt reachedAt finishedAt)
    (ha : Answered requestedAt lease wroteAt firstByteAt) (secure : Bool) :
    ((classify host requestedAt lease (m.timings startedAt finishedAt secure)).spent : Int) =
      firstByteAt.nanos - requestedAt.nanos -
        if secure then 0 else finishedAt.nanos - reachedAt.nanos := by
  have hsum := ha.nanos_eq
  obtain ⟨hle, hparts, hkeys⟩ := h.nanos_eq ha
  have hwait : (classify host requestedAt lease (m.timings startedAt finishedAt secure)).wait.nanos =
      (lease.obtainedAt.since requestedAt).nanos - (finishedAt.since startedAt).nanos := by
    simp [classify, ConnectMarks.timings, h.fresh]
  rw [ha.spent_eq, h.connecting_eq, hwait]
  cases secure <;> simp only [if_true, if_false, Bool.false_eq_true] <;> omega

theorem spent_of_reused (h : lease.reused = true)
    (ha : Answered requestedAt lease wroteAt firstByteAt) :
    (classify host requestedAt lease timings).connecting = 0 ∧
      ((classify host requestedAt lease timings).spent : Int) =
        firstByteAt.nanos - requestedAt.nanos := by
  have hnone : (classify host requestedAt lease timings).connecting = 0 := by
    simp [connecting, classify, h]
  have hwait : (classify host requestedAt lease timings).wait =
      lease.obtainedAt.since requestedAt := by
    simp [classify, h]
  have hsum := ha.nanos_eq
  refine ⟨hnone, ?_⟩
  rw [ha.spent_eq, hnone, hwait]
  omega

end

/-- As long as the moments are in order, the phases of an attempt add up to the time from asking to
the first byte, except that the agreement on keys is no phase of a plain connection. In any order,
no phase is longer than the interval that it is measured in. -/
theorem phases_add_up (host : String) (requestedAt : Instant) (lease : Lease) (m : ConnectMarks)
    (startedAt finishedAt : Instant) :
    let timings := m.timings startedAt finishedAt
    let record := fun secure => classify host requestedAt lease (timings secure)
    (∀ reachedAt wroteAt firstByteAt,
      DialedFor requestedAt lease m startedAt reachedAt finishedAt →
      Answered requestedAt lease wroteAt firstByteAt →
        ((record true).spent : Int) = firstByteAt.nanos - requestedAt.nanos ∧
        (record true).connecting = (timings true).total.nanos ∧
        ((record false).spent : Int) =
          (record true).spent - (finishedAt.nanos - reachedAt.nanos) ∧
        ∀ secure, (record secure).dial.isSome = true ∧ (record secure).tls.isSome = secure) ∧
    (∀ wroteAt firstByteAt, lease.reused = true →
      Answered requestedAt lease wroteAt firstByteAt → ∀ secure,
        (record secure).connecting = 0 ∧
        ((record secure).spent : Int) = firstByteAt.nanos - requestedAt.nanos) ∧
    ∀ secure,
      Duration.Fits (timings secure).dial (some startedAt) m.reachedAt ∧
      Duration.Fits (timings secure).tls m.reachedAt (some finishedAt) ∧
      Duration.Fits (some (timings secure).total) (some startedAt) (some finishedAt) ∧
      Duration.Fits (some (record secure).wait) (some requestedAt) (some lease.obtainedAt) ∧
      Duration.Fits (record secure).idleFor lease.idleSince (some lease.obtainedAt) ∧
      Duration.Fits (record secure).requestSend (some lease.obtainedAt) lease.wroteAt ∧
      Duration.Fits (record secure).firstByte lease.wroteAt lease.firstByteAt := by
  intro timings record
  refine ⟨?_, ?_, ?_⟩
  · intro reachedAt wroteAt firstByteAt h ha
    have hsecure : ((record true).spent : Int) = firstByteAt.nanos - requestedAt.nanos := by
      simpa using spent_of_dialed host h ha true
    have hplain : ((record false).spent : Int) = firstByteAt.nanos - requestedAt.nanos -
        (finishedAt.nanos - reachedAt.nanos) := by
      simpa using spent_of_dialed host h ha false
    refine ⟨hsecure, h.connecting_secure host ha, by rw [hsecure, hplain], ?_⟩
    intro secure
    cases secure <;> simp [record, timings, classify, ConnectMarks.timings, h.fresh, h.reached]
  · intro wroteAt firstByteAt hreused ha secure
    exact spent_of_reused hreused ha
  · intro secure
    exact ⟨m.fits_dial startedAt finishedAt secure, m.fits_tls startedAt finishedAt secure,
      m.fits_total startedAt finishedAt secure, fits_wait host requestedAt lease _,
      fits_idleFor host requestedAt lease _, fits_requestSend host requestedAt lease _,
      fits_firstByte host requestedAt lease _⟩

/-- A secure connection is dialed for the first attempt, and a plain one as well; a later attempt
finds it in the pool. -/
theorem phases_add_up_of_dialed :
    let m : ConnectMarks := ⟨some (.ofNanos 5), some ⟨20⟩⟩
    let first : Lease := ⟨⟨52⟩, false, none, some ⟨53⟩, some ⟨90⟩⟩
    let later : Lease := ⟨⟨152⟩, true, some ⟨100⟩, some ⟨153⟩, some ⟨170⟩⟩
    DialedFor ⟨0⟩ first m ⟨2⟩ ⟨20⟩ ⟨50⟩ ∧ Answered ⟨0⟩ first ⟨53⟩ ⟨90⟩ ∧
      Answered ⟨150⟩ later ⟨153⟩ ⟨170⟩ ∧
      ((classify "svc" ⟨0⟩ first (m.timings ⟨2⟩ ⟨50⟩ true)).spent : Int) = 90 ∧
      (classify "svc" ⟨0⟩ first (m.timings ⟨2⟩ ⟨50⟩ true)).connecting = 48 ∧
      ((classify "svc" ⟨0⟩ first (m.timings ⟨2⟩ ⟨50⟩ false)).spent : Int) = 60 ∧
      ((classify "svc" ⟨150⟩ later (m.timings ⟨2⟩ ⟨50⟩ true)).spent : Int) = 20 := by
  intro m first later
  have hdialed : DialedFor ⟨0⟩ first m ⟨2⟩ ⟨20⟩ ⟨50⟩ :=
    ⟨rfl, rfl, by decide, by rintro d ⟨⟩; decide⟩
  have hfirst : Answered ⟨0⟩ first ⟨53⟩ ⟨90⟩ := ⟨rfl, rfl, by decide, by decide⟩
  have hlater : Answered ⟨150⟩ later ⟨153⟩ ⟨170⟩ := ⟨rfl, rfl, by decide, by decide⟩
  obtain ⟨hsum, -, -⟩ := phases_add_up "svc" ⟨0⟩ first m ⟨2⟩ ⟨50⟩
  obtain ⟨hsecure, hconnecting, hplain, -⟩ := hsum ⟨20⟩ ⟨53⟩ ⟨90⟩ hdialed hfirst
  obtain ⟨-, hreused, -⟩ := phases_add_up "svc" ⟨150⟩ later m ⟨2⟩ ⟨50⟩
  obtain ⟨-, hspent⟩ := hreused ⟨153⟩ ⟨170⟩ rfl hlater true
  rw [hsecure] at hplain
  exact ⟨hdialed, hfirst, hlater, hsecure, hconnecting, hplain, hspent⟩

end ConnRecord

end ServiceCall
