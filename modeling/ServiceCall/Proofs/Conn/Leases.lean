import ServiceCall.Conn.Record
import ServiceCall.Proofs.Conn.IdleCount

/-!
# What a lease tells of the past

A lease that begins after a connection was given back says so: it is one of a connection in use
before, and since when the connection was idle. An attempt that asked before reads in its record
that it was starved.
-/

namespace ServiceCall

/-! ## Leases that begin and go on -/

/-- The same lease, but for when it was written and answered. -/
structure Lease.Same (a b : Lease) : Prop where
  obtainedAt : b.obtainedAt = a.obtainedAt
  reused : b.reused = a.reused
  idleSince : b.idleSince = a.idleSince

namespace Usage

variable {u : Usage} {lease : Lease} {t since : Instant}

theorem current?_eq_some : u.current? = some lease ↔ u.inUse = true ∧ u.lease = some lease := by
  unfold current?
  split <;> simp_all

theorem current?_wrote (h : (u.wrote t).1.current? = some lease) :
    lease.obtainedAt = t ∧ lease.reused = decide (0 < u.uses) ∧
        lease.idleSince = (if u.idle then u.idleSince else none) ∨
      ∃ before, u.current? = some before ∧ before.Same lease := by
  obtain ⟨hinUse, hlease⟩ := current?_eq_some.mp h
  by_cases hstarts : u.startsLease = true
  · left
    simp only [wrote, hstarts, if_true, begun, Option.map_some, Option.isNone_none] at hlease
    cases hlease
    exact ⟨rfl, rfl, rfl⟩
  · right
    simp only [wrote, hstarts] at hlease hinUse
    obtain ⟨before, hbefore, rfl⟩ := Option.map_eq_some_iff.mp hlease
    refine ⟨before, current?_eq_some.mpr ⟨hinUse, hbefore⟩, ?_⟩
    split <;> exact ⟨rfl, rfl, rfl⟩

theorem current?_received (h : (u.received t).current? = some lease) :
    ∃ before, u.current? = some before ∧ before.Same lease := by
  obtain ⟨hinUse, hlease⟩ := current?_eq_some.mp h
  rw [inUse_received] at hinUse
  simp only [received, hinUse] at hlease
  obtain ⟨before, hbefore, rfl⟩ := Option.map_eq_some_iff.mp hlease
  refine ⟨before, current?_eq_some.mpr ⟨hinUse, hbefore⟩, ?_⟩
  split <;> exact ⟨rfl, rfl, rfl⟩

theorem released_cases (u : Usage) (obtainedAt t : Instant) :
    (u.released obtainedAt t).1 = u ∨
      (u.released obtainedAt t).1 =
        { u with inUse := false, idle := true, idleSince := some t } := by
  unfold released
  split
  · exact Or.inl rfl
  · exact Or.inr rfl

theorem uses_le_wrote (u : Usage) (t : Instant) : u.uses ≤ (u.wrote t).1.uses := by
  unfold wrote
  dsimp only
  split
  · exact Nat.le_succ _
  · exact Nat.le_refl _

theorem idle_of_wrote (h : (u.wrote t).1.idle = true) : u.idle = true := by
  unfold wrote at h
  dsimp only at h
  split at h
  · cases h
  · exact h

@[simp] theorem idleSince_wrote (u : Usage) (t : Instant) :
    (u.wrote t).1.idleSince = u.idleSince := by
  unfold wrote
  dsimp only
  split <;> rfl

@[simp] theorem idleSince_received (u : Usage) (t : Instant) :
    (u.received t).idleSince = u.idleSince := by
  unfold received
  split <;> rfl

@[simp] theorem uses_received (u : Usage) (t : Instant) : (u.received t).uses = u.uses := by
  unfold received
  split <;> rfl

/-! ## What stays true of a connection -/

/-- A connection in use is not idle, and has been used. -/
def Coherent (u : Usage) : Prop := u.inUse = true → u.idle = false ∧ 0 < u.uses

/-- It has not been given back before the moment, as far as it tells. -/
structure Recent (since : Instant) (u : Usage) : Prop where
  idle : u.idle = true → ∀ t, u.idleSince = some t → since ≤ t
  lease : ∀ lease, u.current? = some lease → ∀ t, lease.idleSince = some t → since ≤ t

/-- It does not tell of a first lease any more. -/
structure Worn (u : Usage) : Prop where
  uses : 0 < u.uses
  lease : ∀ lease, u.current? = some lease → lease.reused = true

theorem coherent_unused : unused.Coherent := nofun

theorem recent_unused (since : Instant) : unused.Recent since := ⟨nofun, nofun⟩

theorem Coherent.wrote (h : u.Coherent) (t : Instant) : (u.wrote t).1.Coherent := by
  intro hinUse
  by_cases hstarts : u.startsLease = true
  · simp [Usage.wrote, hstarts, begun]
  · have hsame : (u.wrote t).1.inUse = u.inUse ∧ (u.wrote t).1.idle = u.idle ∧
        (u.wrote t).1.uses = u.uses := by simp [Usage.wrote, hstarts]
    rw [hsame.1] at hinUse
    rw [hsame.2.1, hsame.2.2]
    exact h hinUse

theorem Coherent.received (h : u.Coherent) (t : Instant) : (u.received t).Coherent := by
  intro hinUse
  rw [idle_received, uses_received]
  rw [inUse_received] at hinUse
  exact h hinUse

theorem Coherent.released (h : u.Coherent) (obtainedAt t : Instant) :
    (u.released obtainedAt t).1.Coherent := by
  rcases released_cases u obtainedAt t with hsame | hgone
  · rwa [hsame]
  · rw [hgone]
    exact nofun

theorem Recent.wrote (h : u.Recent since) (t : Instant) : (u.wrote t).1.Recent since where
  idle hidle t' ht' := by
    rw [idleSince_wrote] at ht'
    exact h.idle (idle_of_wrote hidle) t' ht'
  lease lease hlease t' ht' := by
    rcases current?_wrote hlease with ⟨-, -, hnew⟩ | ⟨before, hbefore, hsame⟩
    · rw [hnew] at ht'
      split at ht'
      · rename_i hidle
        exact h.idle hidle t' ht'
      · cases ht'
    · exact h.lease before hbefore t' (hsame.idleSince ▸ ht')

theorem Recent.received (h : u.Recent since) (t : Instant) : (u.received t).Recent since where
  idle hidle t' ht' := by
    rw [idle_received] at hidle
    rw [idleSince_received] at ht'
    exact h.idle hidle t' ht'
  lease lease hlease t' ht' := by
    obtain ⟨before, hbefore, hsame⟩ := current?_received hlease
    exact h.lease before hbefore t' (hsame.idleSince ▸ ht')

theorem Recent.released (h : u.Recent since) (hle : since ≤ t) (obtainedAt : Instant) :
    (u.released obtainedAt t).1.Recent since := by
  rcases released_cases u obtainedAt t with hsame | hgone
  · rwa [hsame]
  · rw [hgone]
    refine ⟨fun _ t' ht' => ?_, nofun⟩
    cases ht'
    exact hle

theorem Worn.wrote (h : u.Worn) (t : Instant) : (u.wrote t).1.Worn where
  uses := Nat.lt_of_lt_of_le h.uses (uses_le_wrote u t)
  lease lease hlease := by
    rcases current?_wrote hlease with ⟨-, hnew, -⟩ | ⟨before, hbefore, hsame⟩
    · rw [hnew]
      exact decide_eq_true h.uses
    · rw [hsame.reused]
      exact h.lease before hbefore

theorem Worn.received (h : u.Worn) (t : Instant) : (u.received t).Worn where
  uses := by
    rw [uses_received]
    exact h.uses
  lease lease hlease := by
    obtain ⟨before, hbefore, hsame⟩ := current?_received hlease
    rw [hsame.reused]
    exact h.lease before hbefore

theorem Worn.released (h : u.Worn) (obtainedAt t : Instant) :
    (u.released obtainedAt t).1.Worn := by
  rcases released_cases u obtainedAt t with hsame | hgone
  · rwa [hsame]
  · rw [hgone]
    exact ⟨h.uses, nofun⟩

/-- What can become of the use of a connection. -/
inductive Goes (now : Instant) (u : Usage) : Usage → Prop
  | same : Goes now u u
  | wrote : Goes now u (u.wrote now).1
  | received : Goes now u (u.received now)
  | released (obtainedAt) : Goes now u (u.released obtainedAt now).1

theorem Coherent.goes {u' : Usage} (h : u.Coherent) (hg : u.Goes t u') : u'.Coherent := by
  cases hg with
  | same => exact h
  | wrote => exact h.wrote t
  | received => exact h.received t
  | released obtainedAt => exact h.released obtainedAt t

theorem Recent.goes {u' : Usage} (h : u.Recent since) (hle : since ≤ t) (hg : u.Goes t u') :
    u'.Recent since := by
  cases hg with
  | same => exact h
  | wrote => exact h.wrote t
  | received => exact h.received t
  | released obtainedAt => exact h.released hle obtainedAt

theorem Worn.goes {u' : Usage} (h : u.Worn) (hg : u.Goes t u') : u'.Worn := by
  cases hg with
  | same => exact h
  | wrote => exact h.wrote t
  | received => exact h.received t
  | released obtainedAt => exact h.released obtainedAt t

/-! ## An answer that is being read -/

/-- The lease that an answer is read under goes on, or a write after the answer had begun was
taken for the next request. -/
def Serves (u : Usage) (lease : Lease) : Prop :=
  ∃ c, u.current? = some c ∧
    (c.obtainedAt = lease.obtainedAt ∨ c.reused = true ∧ c.idleSince = none)

theorem serves_current (h : u.current? = some lease) : u.Serves lease := ⟨lease, h, Or.inl rfl⟩

theorem exists_current?_wrote {c : Lease} (h : u.current? = some c) (t : Instant) :
    ∃ c', (u.wrote t).1.current? = some c' := by
  obtain ⟨hinUse, hlease⟩ := current?_eq_some.mp h
  unfold wrote
  dsimp only
  split
  · exact ⟨_, rfl⟩
  · simp [current?, hinUse, hlease]

theorem exists_current?_received {c : Lease} (h : u.current? = some c) (t : Instant) :
    ∃ c', (u.received t).current? = some c' := by
  obtain ⟨hinUse, hlease⟩ := current?_eq_some.mp h
  simp [received, current?, hinUse, hlease]

theorem Serves.of_same {u' : Usage} {before c : Lease} (h : u.Serves lease)
    (hbefore : u.current? = some before) (hc : u'.current? = some c) (hsame : before.Same c) :
    u'.Serves lease := by
  obtain ⟨c', hc', hcase⟩ := h
  rw [hbefore] at hc'
  cases hc'
  rw [← hsame.obtainedAt, ← hsame.reused, ← hsame.idleSince] at hcase
  exact ⟨c, hc, hcase⟩

theorem Serves.wrote (h : u.Serves lease) (hu : u.Coherent) (t : Instant) :
    (u.wrote t).1.Serves lease := by
  obtain ⟨before, hbefore, -⟩ := id h
  obtain ⟨hidle, huses⟩ := hu (current?_eq_some.mp hbefore).1
  obtain ⟨c, hc⟩ := exists_current?_wrote hbefore t
  rcases current?_wrote hc with ⟨-, hreused, hsince⟩ | ⟨before', hbefore', hsame⟩
  · refine ⟨c, hc, Or.inr ⟨?_, ?_⟩⟩
    · rw [hreused]
      exact decide_eq_true huses
    · rw [hsince, hidle]
      rfl
  · exact h.of_same hbefore' hc hsame

theorem Serves.received (h : u.Serves lease) (t : Instant) : (u.received t).Serves lease := by
  obtain ⟨before, hbefore, -⟩ := id h
  obtain ⟨c, hc⟩ := exists_current?_received hbefore t
  obtain ⟨before', hbefore', hsame⟩ := current?_received hc
  exact h.of_same hbefore' hc hsame

/-- A connection that is given back after the moment tells of nothing before. -/
theorem Serves.released (h : u.Serves lease) (hu : u.Coherent) (hle : since ≤ t) :
    (u.released lease.obtainedAt t).1.Recent since ∧ (u.released lease.obtainedAt t).1.Worn := by
  obtain ⟨c, hc, hcase⟩ := h
  obtain ⟨hinUse, hlease⟩ := current?_eq_some.mp hc
  obtain ⟨hidle, huses⟩ := hu hinUse
  by_cases hserves : u.ServesSince lease.obtainedAt
  · rw [released_of_serves hserves]
    refine ⟨⟨fun _ t' ht' => ?_, nofun⟩, ⟨huses, nofun⟩⟩
    cases ht'
    exact hle
  · rw [released_of_not_serves hserves]
    have hother : c.reused = true ∧ c.idleSince = none := by
      refine hcase.resolve_left fun hsame => hserves ?_
      rw [servesSince_iff, hlease, Option.map_some, hsame]
      exact ⟨hinUse, rfl⟩
    refine ⟨⟨fun h => ?_, fun l hl t' ht' => ?_⟩, ⟨huses, fun l hl => ?_⟩⟩
    · rw [hidle] at h
      cases h
    · rw [hc] at hl
      cases hl
      rw [hother.2] at ht'
      cases ht'
    · rw [hc] at hl
      cases hl
      exact hother.1

end Usage

/-! ## Records -/

namespace ConnRecord

/-- The connection was idle for exactly as long as the attempt waited: it came back to the pool at
the moment at which the attempt asked. -/
def cameAsAsked (r : ConnRecord) : Bool := r.idleFor = some r.wait

/-- The record tells of no wait for another request. -/
def IsPlain (r : ConnRecord) : Prop := r.starved = false ∧ r.cameAsAsked = false

/-- The record of a connection that was in use when the attempt asked is not plain. -/
theorem not_isPlain_of_recent {host : String} {requestedAt since : Instant} {lease : Lease}
    {timings : ConnectTimings} (hreused : lease.reused = true)
    (hsince : ∀ t, lease.idleSince = some t → since ≤ t) (hle : requestedAt ≤ since) :
    ¬ (classify host requestedAt lease timings).IsPlain := by
  rintro ⟨hstarved, hcame⟩
  cases hidle : lease.idleSince with
  | none => simp [classify, hreused, hidle] at hstarved
  | some t =>
    by_cases hbefore : t ≤ requestedAt
    · have hsame : t = requestedAt := by
        have hafter := hsince t hidle
        rw [Instant.le_iff] at hbefore hafter hle
        exact Instant.ext (by omega)
      rw [hsame] at hbefore
      simp [classify, cameAsAsked, hreused, hidle, hsame, hbefore] at hcame
    · simp [classify, hreused, hidle, hbefore] at hstarved

end ConnRecord

end ServiceCall
