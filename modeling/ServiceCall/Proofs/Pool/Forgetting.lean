import Mathlib.Data.Set.Card
import Mathlib.Data.Set.Finite.Lemmas
import ServiceCall.Proofs.Pool.Prompt

/-!
# Destinations that are forgotten

The table is cleaned only when a destination is new to it, and then it keeps those that somebody is
at. So it never holds more destinations than callers were at, all at one moment.
-/

namespace ServiceCall.Limiter

/-- The destinations that the table has. -/
def remembered (l : Limiter) : List String := l.permits.queues.map (·.key)

/-- The destinations that callers have asked for and not dropped since; their names have no case. -/
def heldKeys (acts : List Act) : Set String :=
  {k | ∃ key id, Text.lower key = k ∧ Holds acts key id}

/-- How many destinations were held at each moment so far. -/
def heldSoFar (acts : List Act) : Set Nat :=
  {n | ∃ before, before <+: acts ∧ n = (heldKeys before).ncard}

section

variable {limit : Nat} {acts : List Act} {act : Act} {l l' : Limiter} {key : String} {id : Nat}

/-! ## Destinations that are held -/

@[simp] theorem heldKeys_nil : heldKeys [] = ∅ := by
  simp [heldKeys, Holds]

theorem heldKeys_concat_subset (acts : List Act) (act : Act) :
    heldKeys (acts ++ [act]) ⊆
      heldKeys acts ∪ {k | ∃ key id, act = .asked key id ∧ Text.lower key = k} := by
  rintro k ⟨key, id, rfl, hholds⟩
  rcases holds_concat.mp hholds with rfl | ⟨hold, -⟩
  · exact Or.inr ⟨key, id, rfl, rfl⟩
  · exact Or.inl ⟨key, id, rfl, hold⟩

theorem finite_heldKeys (acts : List Act) : (heldKeys acts).Finite := by
  induction acts using List.reverseRecOn with
  | nil => simp
  | append_singleton acts act ih =>
    refine (ih.union ?_).subset (heldKeys_concat_subset acts act)
    refine Set.Subsingleton.finite ?_
    rintro _ ⟨key, id, rfl, rfl⟩ _ ⟨key', id', heq, rfl⟩
    cases heq
    rfl

theorem exists_peak (acts : List Act) : ∃ peak, IsGreatest (heldSoFar acts) peak := by
  have hfinite : {before | before <+: acts}.Finite :=
    (List.finite_toSet acts.inits).subset fun before h => (List.mem_inits ..).mpr h
  obtain ⟨most, hmost, hle⟩ := Set.exists_max_image _ (fun before => (heldKeys before).ncard)
    hfinite ⟨acts, List.prefix_rfl⟩
  refine ⟨(heldKeys most).ncard, ⟨most, hmost, rfl⟩, ?_⟩
  rintro n ⟨before, hbefore, rfl⟩
  exact hle before hbefore

/-! ## What the table remembers -/

theorem mem_remembered : key ∈ l.remembered ↔ ∃ s ∈ l.semaphores, s.serves key = true := by
  simp [remembered, permits, Semaphore.serves, and_assoc]

theorem remembered_map {g : Semaphore → Semaphore}
    (hg : ∀ s ∈ l.semaphores, (g s).listed = s.listed ∧ (g s).queue.key = s.queue.key) :
    remembered { l with semaphores := l.semaphores.map g } = l.remembered := by
  have hfilter : l.semaphores.filter ((·.listed) ∘ g) = l.semaphores.filter (·.listed) :=
    List.filter_congr fun s hs => (hg s hs).1
  simp only [remembered, permits, List.filter_map, hfilter, List.map_map]
  exact List.map_congr_left fun s hs => (hg s (List.mem_of_mem_filter hs)).2

/-- A caller that looks its destination up changes no queue. -/
theorem permits_ask (l : Limiter) (key : String) (id : Nat) :
    (l.ask key id).permits.queues = (l.withKey (Text.lower key)).permits.queues := by
  simp only [permits, ask, List.filter_map, List.map_map, Function.comp_def,
    Semaphore.listed_cloned, Semaphore.queue_cloned]

theorem remembered_ask (l : Limiter) (key : String) (id : Nat) :
    (l.ask key id).remembered = (l.withKey (Text.lower key)).remembered := by
  rw [remembered, remembered, permits_ask]

/-- Only a caller that asks can change what the table remembers, and only if the key is new. -/
theorem Step.remembered_cases (h : Step l act l') (hl : l.Sound) :
    l'.remembered = l.remembered ∨
      ∃ key id, act = .asked key id ∧ Text.lower key ∉ l.remembered := by
  rcases h.asks_or_evolves hl with ⟨key, id, hact, rfl, -⟩ | ⟨g, rfl, hg⟩
  · rw [remembered_ask]
    rcases withKey_cases l (Text.lower key) with ⟨heq, -⟩ | ⟨-, hnone⟩
    · exact Or.inl (congrArg remembered heq)
    · refine Or.inr ⟨key, id, hact, fun hmem => ?_⟩
      obtain ⟨s, hs, hserves⟩ := mem_remembered.mp hmem
      exact hnone s hs hserves
  · exact Or.inl (remembered_map fun s hs => ⟨(hg s hs).listed, (hg s hs).key⟩)

/-- A semaphore that the table still has after a new key came up has somebody at it. -/
theorem exists_caller_of_new (hnew : key ∉ l.remembered) {s : Semaphore}
    (hs : s ∈ (l.withKey key).semaphores) (hlisted : s.listed = true) (hkey : s.queue.key ≠ key) :
    s ∈ l.semaphores ∧ s.callers ≠ [] := by
  rcases withKey_cases l key with ⟨-, hserves⟩ | ⟨heq, -⟩
  · exact absurd (mem_remembered.mpr hserves) hnew
  · rw [heq, List.mem_append, List.mem_singleton, List.mem_map] at hs
    rcases hs with ⟨before, hbefore, rfl⟩ | rfl
    · obtain ⟨hl, hreferences⟩ := Bool.and_eq_true_iff.mp hlisted
      have hcallers : before.callers ≠ [] := by
        rintro hnone
        simp [Semaphore.references, hnone, hl] at hreferences
      rw [Semaphore.kept_eq hcallers]
      exact ⟨hbefore, hcallers⟩
    · exact absurd rfl hkey

/-! ## Runs -/

theorem Run.mem_heldKeys (h : Run limit acts l) {s : Semaphore} (hs : s ∈ l.semaphores)
    (hne : s.callers ≠ []) : s.queue.key ∈ heldKeys acts := by
  obtain ⟨i, hi⟩ := List.getElem?_of_mem hs
  obtain ⟨id, hid⟩ := List.exists_mem_of_ne_nil _ hne
  obtain ⟨key, hholds, hkey⟩ := h.holds_of_caller hi hid
  exact ⟨key, id, hkey, hholds⟩

/-- Right after a new key came up, all else that the table remembers is held. -/
theorem Run.remembered_new (h : Run limit acts l) (hnew : Text.lower key ∉ l.remembered) :
    ∀ k ∈ (l.ask key id).remembered, k ≠ Text.lower key → k ∈ heldKeys acts := by
  intro k hk hkey
  rw [remembered_ask, mem_remembered] at hk
  obtain ⟨s, hs, hserves⟩ := hk
  obtain ⟨hlisted, rfl⟩ := (s.serves_iff k).mp hserves
  obtain ⟨hbefore, hcallers⟩ := exists_caller_of_new hnew hs hlisted hkey
  exact h.mem_heldKeys hbefore hcallers

theorem Run.remembered_subset (h : Run limit acts l) (hstep : Step l (.asked key id) l')
    (hnew : Text.lower key ∉ l.remembered) :
    ∀ k ∈ l'.remembered, k ∈ heldKeys (acts ++ [.asked key id]) := by
  intro k hk
  cases hstep with
  | asked _ _ _ =>
    by_cases hkey : k = Text.lower key
    · exact ⟨key, id, hkey.symm, holds_concat.mpr (Or.inl rfl)⟩
    · obtain ⟨key', id', hlower, hholds⟩ := h.remembered_new hnew k hk hkey
      exact ⟨key', id', hlower, holds_concat.mpr (Or.inr ⟨hholds, nofun⟩)⟩

/-- The table has not grown since all that it remembered was held. -/
theorem Run.exists_moment (h : Run limit acts l) :
    ∃ before, before <+: acts ∧ l.remembered.length ≤ (heldKeys before).ncard := by
  induction h with
  | nil => exact ⟨[], List.prefix_rfl, Nat.zero_le _⟩
  | @snoc acts l act l' hr hs ih =>
    rcases hs.remembered_cases hr.sound with hsame | ⟨key, id, rfl, hnew⟩
    · obtain ⟨before, hbefore, hle⟩ := ih
      exact ⟨before, hbefore.trans (List.prefix_append ..), hsame ▸ hle⟩
    · -- All that the table remembers now is held at this very moment.
      refine ⟨_, List.prefix_rfl, ?_⟩
      have hnodup : l'.remembered.Nodup := keys_nodup (hs.sound hr.sound)
      rw [← List.toFinset_card_of_nodup hnodup, ← Set.ncard_coe_finset]
      refine Set.ncard_le_ncard ?_ (finite_heldKeys _)
      intro k hk
      exact hr.remembered_subset hs hnew k (by simpa using hk)

/-- Prompt callers have a permit to each destination that is still there, or wait for one. -/
theorem not_idle_of_new (hnew : Text.lower key ∉ l.remembered) {q : Queue}
    (hq : q ∈ (l.permits.acquire key id).queues) (hkey : q.key ≠ Text.lower key) :
    q.isIdle = false := by
  have hany : ¬ l.permits.queues.any (·.key = Text.lower key) = true := by
    intro hany
    obtain ⟨known, hknown, heq⟩ := List.any_eq_true.mp hany
    exact hnew (of_decide_eq_true heq ▸ List.mem_map_of_mem hknown)
  simp only [Permits.acquire, Permits.withKey, if_neg hany, List.map_append, List.map_singleton,
    List.mem_append, List.mem_map, List.mem_filter, List.mem_singleton] at hq
  rcases hq with ⟨before, ⟨-, hbusy⟩, rfl⟩ | rfl
  · split at hkey
    · rename_i heq
      rw [Queue.key_join] at hkey
      exact absurd heq hkey
    · rename_i hne
      simpa [hne] using hbusy
  · simp at hkey

end

/-- Right after a caller has added a destination to the table, each other one in it is held: for
prompt callers, somebody has a permit to it or waits for one. So the table never has more
destinations than were held at one moment so far. -/
theorem remembered_within_peak {limit : Nat} {acts : List Act} {l : Limiter}
    (h : Run limit acts l) :
    (∀ key id l', Step l (.asked key id) l' → Text.lower key ∉ l.remembered →
      Text.lower key ∈ l'.remembered ∧
        (∀ k ∈ l'.remembered, k ≠ Text.lower key → k ∈ heldKeys acts) ∧
        (l.Settled → ((l'.join id).permits = l.permits.acquire key id ∧
          ∀ q ∈ (l.permits.acquire key id).queues, q.key ≠ Text.lower key → q.isIdle = false))) ∧
      l.remembered.Nodup ∧
      ∃ peak, IsGreatest (heldSoFar acts) peak ∧ l.remembered.length ≤ peak := by
  refine ⟨?_, keys_nodup h.sound, ?_⟩
  · intro key id l' hstep hnew
    cases hstep with
    | asked _ _ _ =>
      refine ⟨?_, ?_, ?_⟩
      · rw [remembered_ask]
        exact mem_remembered.mpr (exists_serves_withKey l (Text.lower key))
      · exact h.remembered_new hnew
      · intro hsettled
        exact ⟨(hsettled.ask_join key id).2, fun q hq hkey => not_idle_of_new hnew hq hkey⟩
  · obtain ⟨peak, hpeak⟩ := exists_peak acts
    obtain ⟨before, hbefore, hle⟩ := h.exists_moment
    exact ⟨peak, hpeak, hle.trans (hpeak.2 ⟨before, hbefore, rfl⟩)⟩

/-- One caller keeps its permit, another one comes to a second destination and goes. -/
def passing : List Act :=
  [.asked "http://held:80" 0, .joined 0, .asked "http://API:80" 1, .joined 1, .left 1, .dropped 1]

/-- The second destination is idle, and the table still has it. -/
def passed : Limiter :=
  ⟨1, [⟨⟨"http://held:80", 0, [(0, .granted)]⟩, true, []⟩, ⟨⟨"http://api:80", 1, []⟩, true, []⟩]⟩

theorem run_passing : Run 1 passing passed := by
  have h₁ := (@Run.nil 1).snoc (.asked "http://held:80" 0 (by decide))
  have h₂ := h₁.snoc (.joined 0 (by decide))
  have h₃ := h₂.snoc (.asked "http://API:80" 1 (by decide))
  have h₄ := h₃.snoc (.joined 1 (by decide))
  have h₅ := h₄.snoc (.left 1 (by decide))
  have h₆ := h₅.snoc (.dropped 1 (by decide))
  rwa [show Limiter.drop _ 1 = passed by decide] at h₆

theorem remembered_within_peak_of_passing :
    ∃ l', Run 1 passing passed ∧ Step passed (.asked "http://last:80" 2) l' ∧
      passed.remembered = ["http://held:80", "http://api:80"] ∧
      l'.remembered = ["http://held:80", "http://last:80"] ∧
      "http://held:80" ∈ heldKeys passing ∧
      ∃ peak, IsGreatest (heldSoFar passing) peak ∧ 2 ≤ peak := by
  obtain ⟨hnew, -, hpeak⟩ := remembered_within_peak run_passing
  have hstep := Step.asked (l := passed) "http://last:80" 2 (by decide)
  obtain ⟨-, hheld, -⟩ := hnew _ _ _ hstep (by decide)
  exact ⟨_, run_passing, hstep, by decide, by decide, hheld _ (by decide) (by decide), hpeak⟩

end ServiceCall.Limiter
