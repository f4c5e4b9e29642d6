import ServiceCall.Call.Run

/-!
# Worlds that keep time

What runs may rely on: a clock that does not go back, waits that last, and, in an ideal world,
timers that fire exactly when they are due. A script of how each attempt would end by itself is
such an ideal world.
-/

namespace ServiceCall

variable {σ : Type}

namespace World

/-- The clock never goes back, and a wait is not over early. -/
structure Forward (w : World σ) : Prop where
  random : ∀ s, w.now s ≤ w.now (w.random s).2
  attempt : ∀ c a s, w.now s ≤ w.now (w.attempt c a s).2
  sleep : ∀ d s, (w.now s).after d ≤ w.now (w.sleep d s)

/-- Timers fire exactly when they are due, and time passes only in attempts and waits. -/
structure Punctual (w : World σ) : Prop where
  random : ∀ s, w.now (w.random s).2 = w.now s
  attempt : ∀ c a s, w.now s ≤ w.now (w.attempt c a s).2
  sleep : ∀ d s, w.now (w.sleep d s) = (w.now s).after d
  /-- Nothing but the cut-off of an attempt that has one cuts it off, and it does so then. -/
  cutOff : ∀ c a s record, (w.attempt c a s).1 = .cutOff record →
    ∃ t, a.cutoff = some t ∧ (w.now s ≤ t → w.now (w.attempt c a s).2 = t)
  inTime : ∀ c a s t, a.cutoff = some t → w.now s ≤ t → w.now (w.attempt c a s).2 ≤ t
  cooldown : ∀ s, w.cooldown (w.random s).2 = w.cooldown s

theorem Punctual.forward {w : World σ} (h : w.Punctual) : w.Forward where
  random s := by rw [h.random]; exact Int.le_refl _
  attempt := h.attempt
  sleep d s := by rw [h.sleep]; exact Int.le_refl _

end World

/-! ## Scripts -/

/-- How each attempt, by its number, would end by itself, and how long it would take. -/
abbrev Script := Nat → Ending × Duration

namespace Script

structure Moment where
  now : Instant
  drawn : Nat
  deriving DecidableEq, Repr

def Moment.origin : Moment := ⟨⟨0⟩, 0⟩

/-- The end of an attempt that begins now: by itself, unless it is cut off before that. -/
def play (script : Script) (a : Attempt) (now : Instant) : Ending × Instant :=
  let (ending, duration) := script a.number
  match a.cutoff with
  | none => (ending, now.after duration)
  | some t =>
    if now.after duration ≤ t then (ending, now.after duration)
    else (.cutOff ending.record?, if now ≤ t then t else now)

/-- The ideal world of a script, in which the cool-down at each moment is what others make it. -/
def world (script : Script) (cooldown : Instant → Cooldown) : World Moment where
  now m := m.now
  cooldown m := cooldown m.now
  random m := (m.drawn, { m with drawn := m.drawn + 1 })
  attempt _ a m := ((script.play a m.now).1, { m with now := (script.play a m.now).2 })
  sleep d m := { m with now := m.now.after d }

theorem play_of_no_cutoff {script : Script} {a : Attempt} (h : a.cutoff = none) (now : Instant) :
    script.play a now = ((script a.number).1, now.after (script a.number).2) := by
  simp [play, h]

theorem play_in_time {script : Script} {a : Attempt} {now t : Instant} (h : a.cutoff = some t)
    (hle : now.after (script a.number).2 ≤ t) :
    script.play a now = ((script a.number).1, now.after (script a.number).2) := by
  simp [play, h, hle]

theorem play_late {script : Script} {a : Attempt} {now t : Instant} (h : a.cutoff = some t)
    (hlate : ¬ now.after (script a.number).2 ≤ t) :
    script.play a now =
      (.cutOff (script a.number).1.record?, if now ≤ t then t else now) := by
  simp [play, h, hlate]

/-- An attempt ends by itself, if that is not later than its cut-off, or is cut off. -/
theorem play_cases (script : Script) (a : Attempt) (now : Instant) :
    (∀ t, a.cutoff = some t → now.after (script a.number).2 ≤ t) ∧
        script.play a now = ((script a.number).1, now.after (script a.number).2) ∨
      ∃ t record, a.cutoff = some t ∧
        script.play a now = (.cutOff record, if now ≤ t then t else now) := by
  cases h : a.cutoff with
  | none => exact Or.inl ⟨by simp, play_of_no_cutoff h now⟩
  | some t =>
    by_cases hle : now.after (script a.number).2 ≤ t
    · exact Or.inl ⟨by simpa using hle, play_in_time h hle⟩
    · exact Or.inr ⟨t, _, rfl, play_late h hle⟩

theorem le_play (script : Script) (a : Attempt) (now : Instant) : now ≤ (script.play a now).2 := by
  cases h : a.cutoff with
  | none => rw [play_of_no_cutoff h]; exact Instant.le_after ..
  | some t =>
    by_cases hle : now.after (script a.number).2 ≤ t
    · rw [play_in_time h hle]; exact Instant.le_after ..
    · rw [play_late h hle]
      dsimp only
      split
      · assumption
      · exact Int.le_refl _

theorem play_le {script : Script} {a : Attempt} {now t : Instant} (h : a.cutoff = some t)
    (hnow : now ≤ t) : (script.play a now).2 ≤ t := by
  by_cases hle : now.after (script a.number).2 ≤ t
  · rw [play_in_time h hle]; exact hle
  · rw [play_late h hle, if_pos hnow]; exact Int.le_refl _

theorem play_cutOff {script : Script} {a : Attempt} {now : Instant} {record : Option ConnRecord}
    (hs : ∀ n record, (script n).1 ≠ .cutOff record)
    (h : (script.play a now).1 = .cutOff record) :
    ∃ t, a.cutoff = some t ∧ (now ≤ t → (script.play a now).2 = t) := by
  cases hc : a.cutoff with
  | none => rw [play_of_no_cutoff hc] at h; exact absurd h (hs _ _)
  | some t =>
    by_cases hle : now.after (script a.number).2 ≤ t
    · rw [play_in_time hc hle] at h; exact absurd h (hs _ _)
    · refine ⟨t, rfl, ?_⟩
      intro hnow
      rw [play_late hc hle, if_pos hnow]

theorem world_punctual (script : Script) (cooldown : Instant → Cooldown)
    (h : ∀ n record, (script n).1 ≠ .cutOff record) : (script.world cooldown).Punctual where
  random _ := rfl
  attempt _ a m := le_play script a m.now
  sleep _ _ := rfl
  cutOff _ _ _ _ hcut := play_cutOff h hcut
  inTime _ _ _ _ ht hle := play_le ht hle
  cooldown _ := rfl

/-- Every attempt gets an empty answer with the status for its number, after 100 ms. -/
def ofStatuses (status : Nat → Http.Status) : Script := fun n =>
  (.answered ⟨status n, .empty, []⟩ none (.ofMillis 100), .ofMillis 100)

/-- A server that is not available at first. -/
def recovering : Script := .ofStatuses fun n => if n = 1 then ⟨503, by decide, by decide⟩ else .ok

/-- A server that is never available. -/
def unavailable : Script := .ofStatuses fun _ => ⟨503, by decide, by decide⟩

theorem ofStatuses_punctual (status : Nat → Http.Status) (cooldown : Instant → Cooldown) :
    ((ofStatuses status).world cooldown).Punctual :=
  world_punctual _ _ fun _ _ => by simp [ofStatuses]

end Script

/-! ## A call to try things on -/

namespace Settings

/-- Standard settings with a wait of a second before each of up to three retries. -/
def patient : Settings := { standard with schedule := .steady (.ofSecs 1) 3 }

def plainClient (s : Settings) : Client where
  name := s.name
  baseUrl := none
  defaultHeaders := s.defaultHeaders
  timeout := if s.timeout.isZero then none else some s.timeout
  maxConnectionsPerHost := s.maxConnectionsPerHost
  connectTimeout := s.connectTimeout
  poolIdleTimeout := s.poolIdleTimeout
  cooldownWindow := s.cooldownWindow
  expectedStatuses := s.expectedStatuses
  connectionTelemetry := s.connectionTelemetry
  schedule := s.schedule
  predicate := s.predicate

end Settings

def Request.plain : Request where
  site := ⟨.get, "/"⟩
  url := "http://site.test/"
  query := []
  headers := .empty
  body := none
  timeout := none
  deadline := none
  retryEnabled := true
  propagate := false
  traceParent := none
  decodeStatuses := []

def Target.plain : Target where
  uri := ⟨some "http", some "site.test", "/", none⟩
  host := "site.test:80"
  poolKey := "http://site.test:80"

def Call.plain (client : Client) : Call :=
  .startAt client .plain .plain ⟨0⟩ (.root (.ofTraceDraw 0) (.ofSpanDraw 0))

end ServiceCall
