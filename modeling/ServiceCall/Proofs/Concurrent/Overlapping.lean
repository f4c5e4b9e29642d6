import ServiceCall.Proofs.Concurrent.Accounts

/-!
# Attempts that overlap

An attempt gives its permit back when it has read its answer to the end, and stays in flight until
it ends. In between the next attempt may be in flight with its permit, so the gauge can exceed the
number of permits by as many attempts as linger like that.
-/

namespace ServiceCall

namespace Concurrent

variable {α : Type} {client : Client} {s₀ s s' s₁ : State α} {entry : Entry}
  {entries : List Entry} {key : String} {now : Instant}

/-! ## With and without a permit -/

/-- An attempt has given its permit back, and has not ended. -/
def Stage.lingers : Stage α → Bool
  | .answered .. | .noted .. => true
  | _ => false

def State.holding (s : State α) : Nat := s.callers.countP (·.stage.permitted)

def State.lingering (s : State α) : Nat := s.callers.countP (·.stage.lingers)

/-- All calls go to one destination. -/
def State.Single (key : String) (s : State α) : Prop := ∀ m ∈ s.callers, m.key = key

theorem State.single_of_keys {n : Nat} (h : s.callers.map Caller.key = List.replicate n key) :
    s.Single key := by
  intro m hm
  have hkey := List.mem_map_of_mem (f := Caller.key) hm
  rw [h] at hkey
  exact List.eq_of_mem_replicate hkey

theorem countP_inFlight (callers : List (Caller α)) :
    callers.countP (·.stage.inFlight) =
      callers.countP (·.stage.permitted) + callers.countP (·.stage.lingers) := by
  induction callers with
  | nil => rfl
  | cons m callers ih =>
    simp only [List.countP_cons, ih]
    cases m.stage <;> simp [Stage.inFlight, Stage.permitted, Stage.lingers] <;> omega

theorem Run.inFlight_eq (h : Run client (.initial client now) entries s) :
    s.traffic.gauges.inFlight = s.holding + s.lingering := by
  have ht := h.tracks (Traffic.tracks_quiet (.ofWindow client.cooldownWindow) _)
  have hgauge := ht.inFlight
  rw [countP_roster] at hgauge
  simp only [any_inFlight, countP_inFlight] at hgauge
  exact hgauge

theorem Run.holding_le (h : Run client (.initial client now) entries s) (hone : s.Single key) :
    s.holding ≤ client.maxConnectionsPerHost := by
  have ht := h.tracks (Traffic.tracks_quiet (.ofWindow client.cooldownWindow) _)
  have hout := ht.out_le key
  rw [ht.out_eq, countP_roster] at hout
  simp only [any_permitted] at hout
  refine Nat.le_trans (Nat.le_of_eq ?_) hout
  apply List.countP_congr
  intro m hm
  simp [hone m hm]

theorem Step.single (h : Step client s entry s') (hone : s'.Single key) : s.Single key := by
  intro m hm
  obtain ⟨i, hi⟩ := List.mem_iff_getElem?.mp hm
  by_cases hown : ∃ act, entry = .acted i act
  · obtain ⟨act, rfl⟩ := hown
    obtain ⟨c, decode, stage, stage', t, hm, -, hm', -⟩ := h.of_acted
    rw [hi] at hm
    cases hm
    have hkey := hone _ (List.mem_of_getElem? hm')
    exact hkey
  · have hm' := h.caller_of_other hi fun act hact => hown ⟨act, hact⟩
    exact hone m (List.mem_of_getElem? hm')

theorem Run.single (h : Run client s₁ entries s) (hone : s.Single key) : s₁.Single key := by
  induction h with
  | nil => exact hone
  | snoc hr hs ih => exact ih (hs.single hone)

/-! ## The gauge in a step -/

theorem Does.gauges_cases {c : Call} {decode : Decoder α} {t t' : Traffic}
    {stage stage' : Stage α} {act : Act} (h : Does c decode now t stage act stage' t') :
    act = .sent ∧ t'.gauges = t.gauges.enter ∨
      act ≠ .sent ∧ (t'.gauges = t.gauges ∨ t'.gauges = t.gauges.leave) := by
  cases h with
  | sent hg => exact Or.inl ⟨rfl, rfl⟩
  | left draw hl =>
    refine Or.inr ⟨by simp, ?_⟩
    unfold Traffic.finish
    split
    · exact Or.inl rfl
    · dsimp only
      split
      · exact Or.inl rfl
      · exact Or.inr rfl
  | _ => exact Or.inr ⟨by simp, Or.inl rfl⟩

/-- A request is handed over to the transport. -/
def Entry.isSent : Entry → Bool
  | .acted _ .sent => true
  | _ => false

/-- Only a request that is handed over raises the gauge, and only a scrape lowers its maximum. -/
theorem Step.gauges_cases (h : Step client s entry s') :
    (entry.isSent = true ∧ s'.traffic.gauges = s.traffic.gauges.enter) ∨
      (entry = .scraped ∧ s'.traffic.gauges = s.traffic.gauges.scraped) ∨
      entry.isSent = false ∧ entry ≠ .scraped ∧
        s'.traffic.gauges.inFlight ≤ s.traffic.gauges.inFlight ∧
        s'.traffic.gauges.inFlightMax = s.traffic.gauges.inFlightMax := by
  cases h with
  | scraped => exact Or.inr (Or.inl ⟨rfl, rfl⟩)
  | @acted i m act stage t hm hd =>
    rcases hd.gauges_cases with ⟨rfl, hgauges⟩ | ⟨hact, hgauges⟩
    · exact Or.inl ⟨rfl, hgauges⟩
    · have hsent : (Entry.acted i act).isSent = false := by
        cases act <;> simp [Entry.isSent] at hact ⊢
      refine Or.inr (Or.inr ⟨hsent, by simp, ?_⟩)
      rcases hgauges with hgauges | hgauges
      · rw [hgauges]
        exact ⟨Int.le_refl _, rfl⟩
      · rw [hgauges, Gauges.leave]
        exact ⟨by dsimp only; omega, rfl⟩
  | _ => exact Or.inr (Or.inr ⟨rfl, by simp, Int.le_refl _, rfl⟩)

/-! ## The maximum -/

/-- The run to `s` goes through `s₁`, and the gauges have not been scraped since. -/
def Since (client : Client) (s₀ : State α) (entries : List Entry) (s s₁ : State α) : Prop :=
  ∃ before after, entries = before ++ after ∧ .scraped ∉ after ∧
    Run client s₀ before s₁ ∧ Run client s₁ after s

theorem Since.refl (h : Run client s₀ entries s) : Since client s₀ entries s s :=
  ⟨entries, [], by simp, by simp, h, .nil⟩

theorem Since.snoc (h : Since client s₀ entries s s₁) (hs : Step client s entry s')
    (hentry : entry ≠ .scraped) : Since client s₀ (entries ++ [entry]) s' s₁ := by
  obtain ⟨before, after, rfl, hafter, hr, hr'⟩ := h
  refine ⟨before, after ++ [entry], by simp, ?_, hr, .snoc hr' hs⟩
  simp [hafter, hentry.symm]

theorem Run.max_mono (h : Run client s₁ entries s) (hscraped : .scraped ∉ entries) :
    s₁.traffic.gauges.inFlightMax ≤ s.traffic.gauges.inFlightMax := by
  induction h with
  | nil => exact Int.le_refl _
  | snoc hr hs ih =>
    simp only [List.mem_append, List.mem_singleton, not_or] at hscraped
    have hbefore := ih hscraped.1
    rcases hs.gauges_cases with ⟨-, hg⟩ | ⟨rfl, -⟩ | ⟨-, -, -, hsame⟩
    · simp only [hg, Gauges.enter]
      omega
    · exact absurd rfl hscraped.2
    · omega

theorem Run.inFlight_le_max (h : Run client (.initial client now) entries s) :
    s.traffic.gauges.inFlight ≤ s.traffic.gauges.inFlightMax := by
  induction h with
  | nil => exact Int.le_refl _
  | snoc hr hs ih =>
    rcases hs.gauges_cases with ⟨-, hg⟩ | ⟨-, hg⟩ | ⟨-, -, hlower, hsame⟩
    · simp only [hg, Gauges.enter]
      omega
    · simp only [hg, Gauges.scraped]
      omega
    · omega

theorem Since.inFlight_le (h : Since client (.initial client now) entries s s₁) :
    s₁.traffic.gauges.inFlight ≤ s.traffic.gauges.inFlightMax := by
  obtain ⟨before, after, rfl, hafter, hr, hr'⟩ := h
  exact Int.le_trans hr.inFlight_le_max (hr'.max_mono hafter)

/-- The maximum is what the gauge was at some moment since the last scrape. -/
theorem Run.exists_peak (h : Run client (.initial client now) entries s) :
    ∃ s₁, Since client (.initial client now) entries s s₁ ∧
      s.traffic.gauges.inFlightMax = s₁.traffic.gauges.inFlight := by
  induction h with
  | nil => exact ⟨_, .refl .nil, rfl⟩
  | @snoc entries s entry s' hr hs ih =>
    obtain ⟨s₁, hsince, hmax⟩ := ih
    rcases hs.gauges_cases with ⟨hsent, hg⟩ | ⟨rfl, hg⟩ | ⟨-, hentry, -, hsame⟩
    · by_cases hhigher : s.traffic.gauges.inFlightMax ≤ s'.traffic.gauges.inFlight
      · refine ⟨s', .refl (.snoc hr hs), ?_⟩
        simp only [hg, Gauges.enter] at hhigher ⊢
        omega
      · refine ⟨s₁, hsince.snoc hs ?_, ?_⟩
        · rintro rfl
          simp [Entry.isSent] at hsent
        · simp only [hg, Gauges.enter] at hhigher ⊢
          omega
    · refine ⟨s', .refl (.snoc hr hs), ?_⟩
      have hnonneg := hr.inFlight_eq
      simp only [hg, Gauges.scraped]
      omega
    · exact ⟨s₁, hsince.snoc hs hentry, hsame.trans hmax⟩

/-! ## Attempts that do not overlap -/

/-- Whenever a request is handed over in the run to `s`, no attempt lingers. -/
def Apart (client : Client) (s₀ : State α) (entries : List Entry) (s : State α) : Prop :=
  ∀ before entry after s₁, entries = before ++ entry :: after → entry.isSent = true →
    Run client s₀ (before ++ [entry]) s₁ → Run client s₁ after s → s₁.lingering = 0

theorem Apart.earlier {after : List Entry} (h : Apart client s₀ (entries ++ after) s)
    (hr : Run client s₁ after s) : Apart client s₀ entries s₁ := by
  intro before entry rest s₂ heq hsent hbefore hrest
  exact h before entry (rest ++ after) s₂ (by simp [heq]) hsent hbefore (hrest.append hr)

theorem Run.inFlight_le (h : Run client (.initial client now) entries s) (hone : s.Single key)
    (hapart : Apart client (.initial client now) entries s) :
    s.traffic.gauges.inFlight ≤ client.maxConnectionsPerHost := by
  induction h with
  | nil => exact Int.natCast_nonneg _
  | @snoc entries s entry s' hr hs ih =>
    have hbefore := ih (hs.single hone) (hapart.earlier (.snoc .nil hs))
    rcases hs.gauges_cases with ⟨hsent, -⟩ | ⟨-, hg⟩ | ⟨-, -, hlower, -⟩
    · have hnone := hapart entries entry [] s' rfl hsent (.snoc hr hs) .nil
      have hsum := (Run.snoc hr hs).inFlight_eq
      have hholding := (Run.snoc hr hs).holding_le hone
      omega
    · simpa only [hg, Gauges.scraped] using hbefore
    · omega

/-! ## What a scrape reports -/

theorem Run.snapshot_inFlight (h : Run client (.initial client now) entries s) :
    s.traffic.gauges.snapshot.inFlight = s.holding + s.lingering := by
  have hgauge := h.inFlight_eq
  simp only [Gauges.snapshot]
  omega

theorem Run.snapshot_inFlightMax (h : Run client (.initial client now) entries s) :
    s.traffic.gauges.snapshot.inFlightMax = s.traffic.gauges.inFlightMax := by
  have hgauge := h.inFlight_eq
  have hmax := h.inFlight_le_max
  simp only [Gauges.snapshot]
  omega

/-- A scrape reports the attempts that hold a permit, which are never more than the permits, and
those that have given theirs back and not ended; as maximum it reports the largest such sum since
the last scrape. So both keep within the permits if no attempt lingers when a request is handed
over. -/
theorem in_flight_scraped (h : Run client (.initial client now) entries s)
    (hone : s.Single key) :
    s.traffic.gauges.snapshot.inFlight = s.holding + s.lingering ∧
      s.holding ≤ client.maxConnectionsPerHost ∧
      (∃ s₁, Since client (.initial client now) entries s s₁ ∧
        s₁.holding ≤ client.maxConnectionsPerHost ∧
        s.traffic.gauges.snapshot.inFlightMax = s₁.holding + s₁.lingering) ∧
      (∀ s₁, Since client (.initial client now) entries s s₁ →
        s₁.holding + s₁.lingering ≤ s.traffic.gauges.snapshot.inFlightMax) ∧
      (Apart client (.initial client now) entries s →
        s.traffic.gauges.snapshot.inFlight ≤ client.maxConnectionsPerHost ∧
        s.traffic.gauges.snapshot.inFlightMax ≤ client.maxConnectionsPerHost) := by
  have hmax := h.snapshot_inFlightMax
  obtain ⟨s₁, hsince, hpeak⟩ := h.exists_peak
  obtain ⟨before, after, rfl, hafter, hr, hr'⟩ := hsince
  have hone₁ := hr'.single hone
  have hsum₁ := hr.inFlight_eq
  refine ⟨h.snapshot_inFlight, h.holding_le hone,
    ⟨s₁, ⟨before, after, rfl, hafter, hr, hr'⟩, hr.holding_le hone₁, by omega⟩, ?_, ?_⟩
  · intro s₂ hsince₂
    have hle := hsince₂.inFlight_le
    obtain ⟨before₂, after₂, heq, -, hr₂, -⟩ := hsince₂
    have hsum₂ := hr₂.inFlight_eq
    omega
  · intro hapart
    have hnow := h.inFlight_le hone hapart
    have hthen := hr.inFlight_le hone₁ (hapart.earlier hr')
    have hsum := h.inFlight_eq
    have hsnapshot := h.snapshot_inFlight
    omega

/-- One attempt has read its answer, and the next one is in flight with its permit. -/
theorem run_to_overlap : ∃ entries, ∃ s : State Unit,
    Run single (.initial single ⟨0⟩) entries s ∧
      s.callers.map Caller.key = List.replicate 2 (Text.lower Target.plain.poolKey) ∧
      s.holding = 1 ∧ s.lingering = 1 := by
  have now_le : (⟨0⟩ : Instant) ≤ ⟨0⟩ := Int.le_refl _
  refine ⟨_, _, .snoc (.snoc (.snoc (.snoc (.snoc (.snoc (.snoc (.snoc (.snoc (.snoc .nil
    (.began (.plain single) .ignore rfl))
    (.began (.plain single) .ignore rfl))
    (.acted (i := 0) rfl (.admitted (.ofSpanDraw 0) now_le rfl)))
    (.acted (i := 1) rfl (.admitted (.ofSpanDraw 1) now_le rfl)))
    (.acted (i := 0) rfl (.asked 0 rfl)))
    (.acted (i := 1) rfl (.asked 1 rfl)))
    (.acted (i := 0) rfl (.sent rfl)))
    (.acted (i := 0) rfl (.headed .ok .empty)))
    (.acted (i := 0) rfl (.read [])))
    (.acted (i := 1) rfl (.sent rfl)), rfl, rfl, rfl⟩

theorem in_flight_scraped_of_two : ∃ entries, ∃ s : State Unit,
    Run single (.initial single ⟨0⟩) entries s ∧ s.Single (Text.lower Target.plain.poolKey) ∧
      single.maxConnectionsPerHost = 1 ∧ s.traffic.gauges.snapshot.inFlight = 2 ∧
      2 ≤ s.traffic.gauges.snapshot.inFlightMax ∧
      ¬ Apart single (.initial single ⟨0⟩) entries s := by
  obtain ⟨entries, s, hr, hkeys, hholding, hlingering⟩ := run_to_overlap
  have hone := State.single_of_keys hkeys
  obtain ⟨hgauge, -, -, hpeak, hapart⟩ := in_flight_scraped hr hone
  rw [hholding, hlingering] at hgauge
  have hmax := hpeak s (.refl hr)
  rw [hholding, hlingering] at hmax
  refine ⟨entries, s, hr, hone, rfl, hgauge, hmax, fun h => ?_⟩
  have hle := (hapart h).1
  rw [hgauge] at hle
  exact absurd hle (by decide)

/-- With one permit, two attempts can be in flight. -/
theorem in_flight_exceeds_permits :
    ¬ ∀ (client : Client) (now : Instant) (entries : List Entry) (s : State Unit) (key : String),
      1 ≤ client.maxConnectionsPerHost → Run client (.initial client now) entries s →
        s.Single key →
        s.traffic.gauges.snapshot.inFlight ≤ client.maxConnectionsPerHost ∧
          s.traffic.gauges.snapshot.inFlightMax ≤ client.maxConnectionsPerHost := by
  intro h
  obtain ⟨entries, s, hr, hkeys, hholding, hlingering⟩ := run_to_overlap
  have hle := (h single ⟨0⟩ entries s _ (by decide) hr (State.single_of_keys hkeys)).1
  rw [hr.snapshot_inFlight, hholding, hlingering] at hle
  exact absurd hle (by decide)

end Concurrent

end ServiceCall
