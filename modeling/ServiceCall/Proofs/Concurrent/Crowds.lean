import ServiceCall.Proofs.Concurrent.Rehearsing
import Mathlib.Data.List.Forall2

/-!
# Crowds in a rehearsal

A rehearsal of several calls at once lets the next thing happen to the first of them that
something happens to. Every such rehearsal is a run of calls at the same time, with the same
results.
-/

namespace ServiceCall.Concurrent

variable {α : Type}

/-! ## The state of a rehearsal as a state of calls at the same time -/

/-- The stage of a member of a crowd. -/
inductive Matches (m : Rehearsal.Member α) : Stage α → Prop
  | resting {made wake} (hp : m.phase = .resting made wake) : Matches m (.resting made wake)
  | attempting {a x stage} (hp : m.phase = .attempting a x) (hcutoff : x.cutoff = a.cutoff)
      (hshow : Shows a x stage) : Matches m stage
  | ended {e} (hp : m.phase = .ended e) : Matches m (.ended e.result)

def Plays (decode : Decoder α) (m : Rehearsal.Member α) (k : Caller α) : Prop :=
  k.call = m.call ∧ k.decode = decode ∧ Matches m k.stage

structure Mirrors (decode : Decoder α) (s : State α) (ms : List (Rehearsal.Member α))
    (r : Rehearsal) : Prop where
  now : s.now = r.now
  traffic : s.traffic = r.traffic
  below : r.traffic.Below r.serial
  callers : List.Forall₂ (Plays decode) ms s.callers

section

variable {client : Client} {decode : Decoder α} {s : State α} {i : Nat} {m : Rehearsal.Member α}
  {r : Rehearsal}

/-! ## One member -/

def Due (m : Rehearsal.Member α) (r : Rehearsal) : Prop :=
  match m.phase with
  | .resting _ wake => wake ≤ r.now
  | .attempting _ x =>
    (x.due? r).any (· ≤ r.now) = true ∨ ∃ t, x.cutoff = some t ∧ t ≤ r.now
  | .ended _ => False

/-- A step of a member is a run in which nobody else does anything, and takes no time. -/
structure Acted (client : Client) (decode : Decoder α) (s : State α) (i : Nat)
    (m : Rehearsal.Member α) (r : Rehearsal) (out : Rehearsal.Member α × Rehearsal) : Prop where
  now : out.2.now = r.now
  below : out.2.traffic.Below out.2.serial
  run : ∃ k, Plays decode out.1 k ∧
    ∃ entries,
      Run client s entries { s with traffic := out.2.traffic, callers := s.callers.set i k }

theorem matches_conclude (m : Rehearsal.Member α) (r : Rehearsal)
    (result : Except CallError (Response α)) : Matches (m.conclude r result) (.ended result) := by
  have h : Matches (m.conclude r result) (.ended ((CallEnd.mk result m.journal).reported m.call
    (r.now.since m.call.startedAt)).result) := .ended rfl
  exact h

theorem acted_begin {made : Nat} {wake : Instant} (hnow : s.now = r.now)
    (htraffic : s.traffic = r.traffic) (hbelow : r.traffic.Below r.serial)
    (hk : s.callers[i]? = some ⟨m.call, decode, .resting made wake⟩) (hwake : wake ≤ r.now) :
    Acted client decode s i m r (m.begin r made) := by
  have hi : i < s.callers.length := (List.getElem?_eq_some_iff.mp hk).1
  have g : Gets client s i _ s.traffic := .refl hk
  rw [htraffic] at g
  rw [← hnow] at hwake
  unfold Rehearsal.Member.begin
  dsimp only [Rehearsal.random]
  split
  · rename_i error hg
    rw [← hnow] at hg
    have hended := g.act hi (.refused _ hwake hg) (by simp)
    exact ⟨rfl, hbelow, _, ⟨rfl, rfl, matches_conclude ..⟩, hended.run⟩
  · rename_i a hg
    rw [← hnow] at hg
    have hadmitted := g.act hi (.admitted _ hwake hg) (by simp)
    have hasked := exists_run_acted hadmitted.run hi (.asked r.serial hbelow.progress?_eq_none)
    exact ⟨rfl, hbelow.ask _, _, ⟨rfl, rfl, .attempting rfl rfl (.queued rfl)⟩, hasked⟩

theorem acted_react {a : Attempt} {ending : Ending} {stage : Stage α} {t : Traffic} {id : Nat}
    (hnow : s.now = r.now) (hi : i < s.callers.length)
    (g : Gets client s i ⟨m.call, decode, stage⟩ t) (hl : Leaves s.now stage a id ending)
    (htraffic : r.traffic = t.finish id) (hbelow : r.traffic.Below r.serial) :
    Acted client decode s i m r (m.react r decode a ending) := by
  obtain ⟨now, traffic, callers⟩ := s
  cases hnow
  have hleft := (g.act hi (.left (.ofNat r.drawn) hl) (by simp)).run
  rw [← htraffic] at hleft
  unfold Rehearsal.Member.react
  dsimp only [Rehearsal.random] at hleft ⊢
  generalize m.call.react decode a ending r.now (.ofNat r.drawn) = reaction at hleft ⊢
  obtain ⟨next, journal⟩ := reaction
  cases next with
  | ended result => exact ⟨rfl, hbelow, _, ⟨rfl, rfl, matches_conclude ..⟩, hleft⟩
  | again delay => exact ⟨rfl, hbelow, _, ⟨rfl, rfl, .resting rfl⟩, hleft⟩

theorem acted_step (hnow : s.now = r.now) (htraffic : s.traffic = r.traffic)
    (hbelow : r.traffic.Below r.serial) {k : Caller α} (hk : s.callers[i]? = some k)
    (hplays : Plays decode m k) (hdue : Due m r) :
    Acted client decode s i m r (m.step r decode) := by
  obtain ⟨c, decode', stage⟩ := k
  obtain ⟨rfl, rfl, hmatches⟩ := hplays
  have hi : i < s.callers.length := (List.getElem?_eq_some_iff.mp hk).1
  unfold Rehearsal.Member.step
  cases hmatches with
  | resting hp =>
    simp only [Due, hp] at hdue
    simp only [hp]
    exact acted_begin hnow htraffic hbelow hk hdue
  | ended hp => simp [Due, hp] at hdue
  | @attempting a x stage hp hcutoff hshow =>
    simp only [Due, hp] at hdue
    simp only [hp]
    have g : Gets client s i _ s.traffic := .refl hk
    rw [htraffic] at g
    have h := Rehearsal.Exchange.keeps_step x r
    rcases advances_step hi hnow hshow hcutoff g hdue with ⟨stage', hshow', g', hnone⟩ |
      ⟨ending, stage', t, hl, g', hsome, ht⟩
    · simp only [hnone]
      rw [← htraffic] at hbelow
      exact ⟨h.now, (g'.below _ hbelow).mono h.serial, _,
        ⟨rfl, rfl, .attempting rfl (h.cutoff.trans hcutoff) hshow'⟩, g'.run⟩
    · simp only [hsome]
      rw [← htraffic] at hbelow
      have hfinish : (x.step r).2.traffic.Below (x.step r).2.serial := by
        rw [ht]
        exact ((g'.below _ hbelow).finish x.id).mono h.serial
      have hreact := acted_react (m := m) (hnow.trans h.now.symm) hi g' hl ht hfinish
      exact ⟨hreact.now.trans h.now, hreact.below, hreact.run⟩

end

/-! ## Whole crowds -/

theorem forall₂_set {β γ : Type} {p : β → γ → Prop} {xs : List β} {ys : List γ}
    (h : List.Forall₂ p xs ys) (i : Nat) {x : β} {y : γ} (hxy : p x y) :
    List.Forall₂ p (xs.set i x) (ys.set i y) := by
  induction h generalizing i with
  | nil => exact .nil
  | cons hp hrest ih =>
    cases i with
    | zero => exact .cons hxy hrest
    | succ i => exact .cons hp (ih i)

theorem exists_of_forall₂ {β γ : Type} {p : β → γ → Prop} {xs : List β} {ys : List γ}
    (h : List.Forall₂ p xs ys) {i : Nat} {x : β} (hx : xs[i]? = some x) :
    ∃ y, ys[i]? = some y ∧ p x y := by
  induction h generalizing i with
  | nil => simp at hx
  | cons hp hrest ih =>
    cases i with
    | zero => cases hx; exact ⟨_, rfl, hp⟩
    | succ i => exact ih (by simpa using hx)

theorem mem_of_foldl_pick {β : Type} {pick : Option β → β → Option β}
    (hpick : ∀ best x y, pick best x = some y → best = some y ∨ y = x) {xs : List β}
    {best : Option β} {y : β} (h : xs.foldl pick best = some y) : best = some y ∨ y ∈ xs := by
  induction xs generalizing best with
  | nil => exact Or.inl h
  | cons x xs ih =>
    rcases ih h with hbest | hmem
    · rcases hpick best x y hbest with hbest | rfl
      · exact Or.inl hbest
      · exact Or.inr List.mem_cons_self
    · exact Or.inr (List.mem_cons_of_mem _ hmem)

theorem wake_of_nextMember {r : Rehearsal} {ms : List (Rehearsal.Member α)} {i : Nat} {t : Instant}
    (h : Rehearsal.nextMember? r ms = some (i, t)) :
    ∃ m, ms[i]? = some m ∧ m.wake? r = some t := by
  have hpicked := mem_of_foldl_pick ?_ h
  rcases hpicked with hnone | hmem
  · cases hnone
  · obtain ⟨⟨m, j⟩, hm, hwake⟩ := List.mem_filterMap.mp hmem
    obtain ⟨u, hu, heq⟩ := Option.map_eq_some_iff.mp hwake
    cases heq
    exact ⟨m, List.mem_zipIdx_iff_getElem?.mp hm, hu⟩
  · rintro best ⟨j, u⟩ y hy
    dsimp only at hy
    split at hy
    · split at hy
      · exact Or.inl hy
      · exact Or.inr (Option.some.inj hy).symm
    · exact Or.inr (Option.some.inj hy).symm

theorem due_of_wake {m : Rehearsal.Member α} {r : Rehearsal} {t : Instant}
    (h : m.wake? r = some t) : Due m (r.moveTo t) := by
  obtain ⟨-, hle⟩ := r.le_moveTo t
  unfold Rehearsal.Member.wake? at h
  unfold Due
  cases hp : m.phase with
  | resting made wake => simp only [hp, Option.some.injEq] at h ⊢; exact h ▸ hle
  | ended e => simp [hp] at h
  | attempting a x =>
    simp only [hp] at h ⊢
    unfold Rehearsal.Exchange.wake? at h
    have hcases : x.due? r = some t ∨ x.cutoff = some t := by
      split at h
      · cases h
      · exact (Instant.earliest_eq_some_iff.mp h).1
    rcases hcases with hdue | hcutoff
    · left
      unfold Rehearsal.Exchange.due? at hdue ⊢
      rw [Rehearsal.traffic_moveTo]
      split at hdue
      · split at hdue
        · rename_i hgranted
          simp only [hgranted, if_true, Option.any_some, decide_eq_true_eq]
          exact Int.le_refl _
        · cases hdue
      all_goals
        rw [hdue]
        simpa using hle
    · exact Or.inr ⟨t, hcutoff, hle⟩

theorem mirrors_runAll (client : Client) {decode : Decoder α} {fuel : Nat} {s : State α}
    {ms ms' : List (Rehearsal.Member α)} {r r' : Rehearsal} (h : Mirrors decode s ms r)
    (hr : Rehearsal.runAll decode fuel ms r = some (ms', r')) :
    ∃ entries s', Run client s entries s' ∧ Mirrors decode s' ms' r' := by
  induction fuel generalizing s ms r with
  | zero => cases hr
  | succ fuel ih =>
    rw [Rehearsal.runAll] at hr
    split at hr
    · cases hr
      exact ⟨[], s, .nil, h⟩
    · rename_i i t hnext
      obtain ⟨m, hm, hwake⟩ := wake_of_nextMember hnext
      simp only [hm] at hr
      -- Time passes until something is due for the member, and then it takes its step.
      obtain ⟨hnow, -⟩ := r.le_moveTo t
      obtain ⟨k, hk, hplays⟩ := exists_of_forall₂ h.callers hm
      rw [← h.now] at hnow
      have htraffic : s.traffic = (r.moveTo t).traffic := by simpa using h.traffic
      have hbelow : (r.moveTo t).traffic.Below (r.moveTo t).serial := by simpa using h.below
      have hacted : Acted client decode { s with now := (r.moveTo t).now } i m (r.moveTo t) _ :=
        acted_step rfl htraffic hbelow hk hplays (due_of_wake hwake)
      obtain ⟨k', hplays', entries, hrun⟩ := hacted.run
      have hmirrors : Mirrors decode
          ⟨(r.moveTo t).now, (m.step (r.moveTo t) decode).2.traffic, s.callers.set i k'⟩
          (ms.set i (m.step (r.moveTo t) decode).1) (m.step (r.moveTo t) decode).2 :=
        ⟨hacted.now.symm, rfl, hacted.below, forall₂_set h.callers i hplays'⟩
      obtain ⟨entries', s', hrun', hfinal⟩ := ih hmirrors hr
      have hpassed : Run client s [.passed (r.moveTo t).now] { s with now := (r.moveTo t).now } :=
        .snoc .nil (.passed hnow)
      exact ⟨_, s', (hpassed.append hrun).append hrun', hfinal⟩

theorem members_now {client : Client} {request : Request} {target : Target} {n : Nat}
    {started : List (Rehearsal.Member α)} {r r' : Rehearsal}
    (hm : Rehearsal.members client request target n r = (started, r')) : r'.now = r.now := by
  induction n generalizing started r r' with
  | zero => cases hm; rfl
  | succ n ih =>
    cases hrest : Rehearsal.members client request target n r.newRoot.2 with
    | mk rest r'' =>
      rw [Rehearsal.members] at hm
      dsimp only at hm
      rw [hrest] at hm
      cases hm
      have hnow := ih hrest
      exact hnow

/-- The members of a crowd begin, and nothing else happens. -/
theorem mirrors_members {client : Client} {decode : Decoder α} {request : Request}
    {target : Target} {n : Nat} {s : State α} {ms started : List (Rehearsal.Member α)}
    {r r' : Rehearsal} (h : Mirrors decode s ms r)
    (hm : Rehearsal.members client request target n r = (started, r')) :
    ∃ entries s', Run client s entries s' ∧ Mirrors decode s' (ms ++ started) r' := by
  induction n generalizing s ms started r r' with
  | zero =>
    cases hm
    exact ⟨[], s, .nil, by rwa [List.append_nil]⟩
  | succ n ih =>
    let c := Call.startAt client request target r.now r.newRoot.1
    have hbegan : Run client s [.began]
        { s with callers := s.callers ++ [⟨c, decode, .resting 0 s.now⟩] } :=
      .snoc .nil (.began c decode rfl)
    have hmirrors : Mirrors decode
        { s with callers := s.callers ++ [⟨c, decode, .resting 0 s.now⟩] }
        (ms ++ [⟨c, .resting 0 r.now, .empty⟩]) r.newRoot.2 := by
      refine ⟨h.now, h.traffic, h.below, List.rel_append h.callers ?_⟩
      rw [h.now]
      exact .cons ⟨rfl, rfl, .resting rfl⟩ .nil
    cases hrest : Rehearsal.members client request target n r.newRoot.2 with
    | mk rest r'' =>
      obtain ⟨entries, s', hrun, hfinal⟩ := ih hmirrors hrest
      have hnow : r''.now = r.newRoot.2.now := members_now hrest
      change r''.now = r.now at hnow
      rw [Rehearsal.members] at hm
      dsimp only at hm
      rw [hrest] at hm
      cases hm
      rw [List.append_assoc, ← hnow] at hfinal
      exact ⟨_, s', hbegan.append hrun, hfinal⟩

def Caller.result? (k : Caller α) : Option (Except CallError (Response α)) :=
  match k.stage with
  | .ended result => some result
  | _ => none

theorem results_eq {decode : Decoder α} {ms : List (Rehearsal.Member α)} {ks : List (Caller α)}
    (h : List.Forall₂ (Plays decode) ms ks) :
    (ms.filterMap Rehearsal.Member.end?).map (·.result) = ks.filterMap Caller.result? := by
  induction h with
  | nil => rfl
  | @cons m k ms ks hplays hrest ih =>
    obtain ⟨-, -, hmatches⟩ := hplays
    have hresult : k.result? = m.end?.map (·.result) := by
      unfold Caller.result? Rehearsal.Member.end?
      generalize k.stage = stage at hmatches
      cases hmatches with
      | resting hp => rw [hp]; rfl
      | ended hp => rw [hp]; rfl
      | attempting hp hcutoff hshow => rw [hp]; cases hshow <;> rfl
    rw [List.filterMap_cons, List.filterMap_cons, hresult]
    cases m.end? with
    | none => exact ih
    | some e => exact congrArg (e.result :: ·) ih

/-- What a crowd does in a rehearsal is a run of calls at the same time, with the same results. -/
theorem run_of_crowd {client : Client} {request : Request} {target : Target} {decode : Decoder α}
    {n fuel : Nat} {r r' : Rehearsal} {ends : List (CallEnd α)}
    (htarget : client.target request = .ok target) (hbelow : r.traffic.Below r.serial)
    (h : r.crowd client request decode n fuel = some (ends, r')) :
    ∃ entries s, Run client ⟨r.now, r.traffic, []⟩ entries s ∧ s.now = r'.now ∧
      s.traffic = r'.traffic ∧ s.callers.filterMap Caller.result? = ends.map (·.result) := by
  unfold Rehearsal.crowd at h
  rw [htarget] at h
  dsimp only at h
  cases hm : Rehearsal.members client request target n r with
  | mk started r₁ =>
    rw [hm] at h
    obtain ⟨⟨ended, r₂⟩, hall, hrest⟩ := Option.bind_eq_some_iff.mp h
    cases hrest
    have hfirst : Mirrors decode ⟨r.now, r.traffic, []⟩ [] r := ⟨rfl, rfl, hbelow, .nil⟩
    obtain ⟨entries₁, s₁, hrun₁, hmirrors₁⟩ := mirrors_members hfirst hm
    obtain ⟨entries₂, s₂, hrun₂, hmirrors₂⟩ := mirrors_runAll client hmirrors₁ hall
    obtain ⟨hnow, -, idle, hidle⟩ := Rehearsal.idles_closeIf (r₂.sleep Rehearsal.breath) fun link =>
      link.pooledSince.any fun t => client.poolIdleTimeout < (r₂.sleep Rehearsal.breath).now.since t
    have hpassed : Step client s₂ (.passed (s₂.now.after Rehearsal.breath)) _ :=
      .passed (Instant.le_after ..)
    have hrun := Run.snoc (.snoc (hrun₁.append hrun₂) hpassed) (.idled idle)
    refine ⟨_, _, hrun, ?_, ?_, (results_eq hmirrors₂.callers).symm⟩
    · rw [hmirrors₂.now]
      exact hnow.symm
    · rw [hmirrors₂.traffic]
      exact hidle.symm

end ServiceCall.Concurrent
