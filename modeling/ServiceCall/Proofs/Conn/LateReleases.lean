import ServiceCall.Proofs.Conn.Chronicle

/-!
# Releases that come too late

A release names its lease by the moment at which that lease began. If the connection was given back
already, or the next request began to write later, then it changes nothing. A lease that began at
the very same reading of the clock answers to the same name, and ends too early.
-/

namespace ServiceCall

open ConnEvent (ofConn leasesBegun)

namespace Usage

variable {u : Usage} {obtainedAt : Instant}

theorem servesSince_iff_exists :
    u.ServesSince obtainedAt ↔
      ∃ current, u.current? = some current ∧ current.obtainedAt = obtainedAt :=
  Option.map_eq_some_iff

theorem not_servesSince_released (u : Usage) (obtainedAt t : Instant) :
    ¬ (u.released obtainedAt t).1.ServesSince obtainedAt := by
  by_cases h : u.ServesSince obtainedAt
  · rw [released_of_serves h, servesSince_iff]
    exact fun hserves => Bool.false_ne_true hserves.1
  · rwa [released_of_not_serves h]

/-- Only a write can begin a lease. -/
theorem ServesSince.of_told {event : ConnEvent} (h : (u.told event).ServesSince obtainedAt)
    (hevent : ∀ conn t, event ≠ .wrote conn t) : u.ServesSince obtainedAt := by
  cases event with
  | wrote conn t => exact absurd rfl (hevent conn t)
  | received conn t =>
    obtain ⟨current, hcurrent, hobtained⟩ := servesSince_iff_exists.mp h
    obtain ⟨before, hbefore, hsame⟩ := current?_received hcurrent
    exact servesSince_iff_exists.mpr ⟨before, hbefore, hsame.obtainedAt.symm.trans hobtained⟩
  | released conn named t =>
    rcases released_cases u named t with hsame | hgone
    · exact hsame ▸ h
    · simp [told, hgone, servesSince_iff] at h
  | closed conn => exact h

end Usage

namespace Fleet

variable {f : Fleet} {conn : Nat}

/-! ## A release that changes nothing -/

theorem put_usage (f : Fleet) (conn : Nat) : f.put conn (f.usage conn, 0) = f := by
  obtain ⟨usages, gauges⟩ := f
  have hsame : usages.set conn (usages.getD conn .unused) = usages := by
    apply List.ext_getElem?
    intro i
    rw [List.getElem?_set]
    split
    · rename_i h
      subst h
      rw [List.getD_eq_getElem?_getD]
      by_cases hlt : conn < usages.length <;> simp [hlt]
    · rfl
  show Fleet.mk (usages.set conn (usages.getD conn .unused)) (gauges.addAvail 0) = _
  rw [hsame, Gauges.addAvail, Int.add_zero]

theorem step_released_eq_self_iff {obtainedAt t : Instant} :
    f.step (.released conn obtainedAt t) = f ↔ ¬ (f.usage conn).ServesSince obtainedAt := by
  constructor
  · intro hsame hserves
    obtain ⟨-, -, havail⟩ := step_of_gives_back ⟨obtainedAt, t, rfl, hserves⟩
    rw [hsame] at havail
    omega
  · intro h
    show f.put conn ((f.usage conn).released obtainedAt t) = f
    rw [Usage.released_of_not_serves h, put_usage]

theorem usage_step_cases (f : Fleet) (event : ConnEvent) (conn : Nat) :
    (f.step event).usage conn = f.usage conn ∨
      event.conn = conn ∧ (f.step event).usage conn = (f.usage conn).told event := by
  by_cases h : event.conn = conn
  · by_cases hlt : conn < f.usages.length
    · exact Or.inr ⟨h, usage_step f hlt h⟩
    · left
      have hlt' : ¬ conn < (f.step event).usages.length := by
        have hlength := length_usages_after f [event]
        rwa [show (f.step event).usages.length = _ from hlength]
      rw [usage_of_length_le hlt, usage_of_length_le hlt']
  · exact Or.inl (usage_step_of_ne f h)

/-- A lease in use that no write can have begun was in use before. -/
theorem servesSince_of_after {obtainedAt : Instant} {more : List ConnEvent}
    (h : ((f.after more).usage conn).ServesSince obtainedAt)
    (hmore : ∀ t, .wrote conn t ∉ more) : (f.usage conn).ServesSince obtainedAt := by
  induction more using List.reverseRecOn with
  | nil => exact h
  | append_singleton more event ih =>
    simp only [List.mem_append, List.mem_singleton, not_or] at hmore
    refine ih ?_ fun t => (hmore t).1
    rw [after_concat] at h
    rcases usage_step_cases (f.after more) event conn with hsame | ⟨hconn, htold⟩
    · rwa [hsame] at h
    · rw [htold] at h
      refine h.of_told ?_
      rintro c t rfl
      exact (hmore t).2 (congrArg (ConnEvent.wrote · t) hconn.symm)

theorem not_servesSince_step_released (f : Fleet) (conn : Nat) (obtainedAt t : Instant) :
    ¬ ((f.step (.released conn obtainedAt t)).usage conn).ServesSince obtainedAt := by
  by_cases hlt : conn < f.usages.length
  · rw [usage_step f hlt rfl]
    exact Usage.not_servesSince_released _ _ _
  · intro hserves
    obtain ⟨lease, hlease, -⟩ := Usage.servesSince_iff_exists.mp hserves
    have hlength := length_usages_after f [.released conn obtainedAt t]
    exact hlt (hlength ▸ lt_length_of_current? hlease)

/-! ## The lease that is in use later -/

section

variable {n conn : Nat} {before later : List ConnEvent} {lease current : Lease}

theorem obtainedAt_le_of_later
    (hsaved : (((ofSize n).after before).usage conn).current? = some lease)
    (hcurrent : (((ofSize n).after (before ++ later)).usage conn).current? = some current)
    (h : ConnEvent.Timely (ofConn conn (before ++ later))) :
    lease.obtainedAt ≤ current.obtainedAt := by
  obtain ⟨l, earlier, hbefore, -, rfl⟩ := exists_tenure_of_current? hsaved
  obtain ⟨newest, older, hafter, -, rfl⟩ := exists_tenure_of_current? hcurrent
  rw [ConnEvent.ofConn_append] at h hafter
  exact Tenure.obtainedAt_le h hbefore hafter

theorem wrote_mem_of_begun
    (hsaved : (((ofSize n).after before).usage conn).current? = some lease)
    (hcurrent : (((ofSize n).after (before ++ later)).usage conn).current? = some current)
    (hbegun : leasesBegun conn before < leasesBegun conn (before ++ later)) :
    .wrote conn current.obtainedAt ∈ later := by
  obtain ⟨l, earlier, hbefore, -, rfl⟩ := exists_tenure_of_current? hsaved
  obtain ⟨newest, older, hafter, -, rfl⟩ := exists_tenure_of_current? hcurrent
  unfold leasesBegun at hbegun
  rw [ConnEvent.ofConn_append] at hafter hbegun
  obtain ⟨c, hwrote⟩ := Tenure.exists_wrote_of_length_lt hbefore hafter hbegun
  obtain ⟨hlater, hconn⟩ := List.mem_filter.mp hwrote
  obtain rfl : c = conn := of_decide_eq_true hconn
  exact hlater

end

/-- As long as the clock does not go back, the release of a saved lease changes nothing exactly if
the lease in use began later. This is so if another one has begun and no write since came at the
reading of the clock at which the saved one began. Releasing a lease twice is releasing it once. -/
theorem late_release_ignored {n conn : Nat} {before later : List ConnEvent} {lease : Lease}
    (hsaved : (((ofSize n).after before).usage conn).current? = some lease)
    (h : ConnEvent.Timely (ofConn conn (before ++ later))) :
    let f := (ofSize n).after (before ++ later)
    (∀ t, f.step (.released conn lease.obtainedAt t) = f ↔
      ∀ current, (f.usage conn).current? = some current →
        lease.obtainedAt < current.obtainedAt) ∧
    (leasesBegun conn before < leasesBegun conn (before ++ later) →
      .wrote conn lease.obtainedAt ∉ later →
        ∀ t, f.step (.released conn lease.obtainedAt t) = f) ∧
    ∀ t more t', (∀ t, .wrote conn t ∉ more) →
      let once := (f.step (.released conn lease.obtainedAt t)).after more
      once.step (.released conn lease.obtainedAt t') = once := by
  intro f
  refine ⟨?_, ?_, ?_⟩
  · intro t
    rw [step_released_eq_self_iff, Usage.servesSince_iff_exists]
    constructor
    · intro hnot current hcurrent
      have hle : lease.obtainedAt ≤ current.obtainedAt :=
        obtainedAt_le_of_later hsaved hcurrent h
      have hne : current.obtainedAt ≠ lease.obtainedAt :=
        fun heq => hnot ⟨current, hcurrent, heq⟩
      exact Instant.lt_of_le_of_ne hle hne.symm
    · rintro hlater ⟨current, hcurrent, hobtained⟩
      have hlt := hlater current hcurrent
      rw [hobtained] at hlt
      exact Int.lt_irrefl _ hlt
  · intro hbegun hwrote t
    rw [step_released_eq_self_iff, Usage.servesSince_iff_exists]
    rintro ⟨current, hcurrent, hobtained⟩
    exact hwrote (hobtained ▸ wrote_mem_of_begun hsaved hcurrent hbegun)
  · intro t more t' hmore once
    apply step_released_eq_self_iff.mpr
    intro hserves
    exact not_servesSince_step_released _ _ _ _ (servesSince_of_after hserves hmore)

/-- A request writes, and its answer begins. -/
def answeredAt (t : Instant) : List ConnEvent := [.wrote 0 ⟨0⟩, .received 0 t]

def answered (t : Instant) : Lease := ⟨⟨0⟩, false, none, some ⟨0⟩, some t⟩

theorem late_release_ignored_of_takeover :
    let f := (ofSize 1).after (answeredAt ⟨5⟩ ++ [.wrote 0 ⟨8⟩])
    (((ofSize 1).after (answeredAt ⟨5⟩)).usage 0).current? = some (answered ⟨5⟩) ∧
      leasesBegun 0 (answeredAt ⟨5⟩) < leasesBegun 0 (answeredAt ⟨5⟩ ++ [.wrote 0 ⟨8⟩]) ∧
      (∀ t, f.step (.released 0 ⟨0⟩ t) = f) ∧
      (f.usage 0).current? = some ⟨⟨8⟩, true, none, some ⟨8⟩, none⟩ := by
  intro f
  have hsaved :
      (((ofSize 1).after (answeredAt ⟨5⟩)).usage 0).current? = some (answered ⟨5⟩) := by decide
  have hbegun : leasesBegun 0 (answeredAt ⟨5⟩) <
      leasesBegun 0 (answeredAt ⟨5⟩ ++ [.wrote 0 ⟨8⟩]) := by decide
  have htimely : ConnEvent.Timely (ofConn 0 (answeredAt ⟨5⟩ ++ [.wrote 0 ⟨8⟩])) := by decide
  obtain ⟨-, hlate, -⟩ := late_release_ignored hsaved htimely
  exact ⟨hsaved, hbegun, hlate hbegun (by decide), by decide⟩

/-- That another lease has begun is not enough: at one reading of the clock an answer begins, the
next request writes, and the release of the first lease ends the second one. -/
theorem late_release_disturbs :
    ¬ ∀ (n conn : Nat) (before later : List ConnEvent) (lease : Lease) (t : Instant),
      (((ofSize n).after before).usage conn).current? = some lease →
      ConnEvent.Timely (ofConn conn (before ++ later ++ [.released conn lease.obtainedAt t])) →
      leasesBegun conn before < leasesBegun conn (before ++ later) →
        ((ofSize n).after (before ++ later)).step (.released conn lease.obtainedAt t) =
          (ofSize n).after (before ++ later) := by
  intro h
  have hsame := h 1 0 (answeredAt ⟨0⟩) [.wrote 0 ⟨0⟩] (answered ⟨0⟩) ⟨0⟩
    (by decide) (by decide) (by decide)
  revert hsame
  decide

end Fleet

end ServiceCall
