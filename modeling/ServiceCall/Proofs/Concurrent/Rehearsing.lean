import ServiceCall.Proofs.Concurrent.Steps
import ServiceCall.Proofs.Rehearsal.Exchanges

/-!
# An exchange of a rehearsal, among calls at the same time

Each step of an exchange in a rehearsal is a run in which only its own call does anything.
-/

namespace ServiceCall

variable {α : Type}

/-! ## What one call does -/

namespace Traffic

/-- The attempts that have not ended have lower numbers. -/
def Below (t : Traffic) (n : Nat) : Prop := ∀ p ∈ t.attempts, p.1 < n

theorem Below.mono {t : Traffic} {m n : Nat} (h : t.Below m) (hle : m ≤ n) : t.Below n :=
  fun p hp => Nat.lt_of_lt_of_le (h p hp) hle

theorem Below.progress?_eq_none {t : Traffic} {n : Nat} (h : t.Below n) : t.progress? n = none := by
  unfold progress?
  rw [List.lookup_eq_none_iff]
  intro p hp
  have := h p hp
  simp only [bne_iff_ne, ne_eq]
  omega

theorem Below.setProgress {t : Traffic} {n : Nat} (h : t.Below n) (id : Nat) (p : Progress) :
    (t.setProgress id p).Below n := by
  intro q hq
  simp only [Traffic.setProgress, List.mem_map] at hq
  obtain ⟨q', hq', rfl⟩ := hq
  have := h q' hq'
  split <;> exact this

theorem Below.finish {t : Traffic} {n : Nat} (h : t.Below n) (id : Nat) :
    (t.finish id).Below n := by
  unfold Traffic.finish
  split
  · exact h
  · exact fun p hp => h p (List.mem_filter.mp hp).1

theorem Below.ask {t : Traffic} {n : Nat} (h : t.Below n) (key : String) :
    (t.ask n key).Below (n + 1) := by
  intro p hp
  simp only [Traffic.ask, List.mem_append, List.mem_singleton] at hp
  rcases hp with hp | rfl
  · exact Nat.lt_succ_of_lt (h p hp)
  · exact Nat.lt_succ_self n

end Traffic

namespace Concurrent

theorem Does.below {c : Call} {decode : Decoder α} {now : Instant} {t t' : Traffic}
    {stage stage' : Stage α} {act : Act} (h : Does c decode now t stage act stage' t')
    (hask : ∀ id, act ≠ .asked id) {n : Nat} (ht : t.Below n) : t'.Below n := by
  cases h with
  | asked id => exact absurd rfl (hask id)
  | sent | read => exact ht.setProgress _ _
  | left => exact ht.finish _
  | _ => exact ht

/-- A call, but no other one, can get there without asking for a permit. -/
structure Gets (client : Client) (s : State α) (i : Nat) (k : Caller α) (t : Traffic) : Prop where
  run : ∃ entries,
    Run client s entries { s with traffic := t, callers := s.callers.set i k }
  below : ∀ n, s.traffic.Below n → t.Below n

section

variable {client : Client} {s : State α} {i : Nat} {k : Caller α} {c : Call} {decode : Decoder α}
  {stage stage' : Stage α} {t t' : Traffic}

theorem Gets.refl (hk : s.callers[i]? = some k) : Gets client s i k s.traffic := by
  obtain ⟨hlt, hk⟩ := List.getElem?_eq_some_iff.mp hk
  refine ⟨⟨[], ?_⟩, fun n h => h⟩
  rw [← hk, List.set_getElem_self]
  exact .nil

theorem exists_run_acted {act : Act}
    (h : ∃ entries, Run client s entries
      { s with traffic := t, callers := s.callers.set i ⟨c, decode, stage⟩ })
    (hi : i < s.callers.length) (hd : Does c decode s.now t stage act stage' t') :
    ∃ entries, Run client s entries
      { s with traffic := t', callers := s.callers.set i ⟨c, decode, stage'⟩ } := by
  obtain ⟨entries, hr⟩ := h
  have hstep : Step client { s with traffic := t, callers := s.callers.set i ⟨c, decode, stage⟩ }
      (.acted i act) _ := .acted (List.getElem?_set_self hi) hd
  simp only [List.set_set] at hstep
  exact ⟨_, .snoc hr hstep⟩

theorem Gets.act {act : Act} (h : Gets client s i ⟨c, decode, stage⟩ t)
    (hi : i < s.callers.length) (hd : Does c decode s.now t stage act stage' t')
    (hask : ∀ id, act ≠ .asked id) : Gets client s i ⟨c, decode, stage'⟩ t' :=
  ⟨exists_run_acted h.run hi hd, fun n hn => hd.below hask (h.below n hn)⟩

theorem Gets.addAvail (h : Gets client s i k t) (n : Int) : Gets client s i k (t.addAvail n) := by
  obtain ⟨entries, hr⟩ := h.run
  exact ⟨⟨_, .snoc hr (.idled n)⟩, h.below⟩

theorem Gets.idles {r r' : Rehearsal} (h : Gets client s i k r.traffic)
    (hr : Rehearsal.Idles r r') : Gets client s i k r'.traffic := by
  obtain ⟨n, hn⟩ := hr.traffic
  rw [hn]
  exact h.addAvail n

end

/-! ## One exchange -/

/-- The stage of a call, as the exchange of its attempt shows it. -/
inductive Shows (a : Attempt) (x : Rehearsal.Exchange) : Stage α → Prop
  | queued (hs : x.stage = .queued) : Shows a x (.queued a x.id)
  | connecting {timings done} (hs : x.stage = .connecting timings done) :
      Shows a x (.sent a x.id)
  | sending {link done} (hs : x.stage = .sending link done) : Shows a x (.sent a x.id)
  | awaiting {link reply} (hs : x.stage = .awaiting link reply) : Shows a x (.sent a x.id)
  | waiting {link} (hs : x.stage = .stalled link none) : Shows a x (.sent a x.id)
  | reading {link record status headers} (hs : x.stage = .stalled link record) :
      Shows a x (.reading a x.id status headers)

/-- A call gets on with its exchange: to another stage, or to the end of the attempt. -/
def Advances (client : Client) (s : State α) (i : Nat) (c : Call) (decode : Decoder α)
    (a : Attempt) (id : Nat) (out : Rehearsal.Exchange × Rehearsal) : Prop :=
  (∃ stage, Shows a out.1 stage ∧ Gets client s i ⟨c, decode, stage⟩ out.2.traffic ∧
      out.1.ending? = none) ∨
    ∃ ending stage t, Leaves s.now stage a id ending ∧ Gets client s i ⟨c, decode, stage⟩ t ∧
      out.1.ending? = some ending ∧ out.2.traffic = t.finish id

section

variable {client : Client} {s : State α} {i : Nat} {c : Call} {decode : Decoder α} {a : Attempt}
  {x : Rehearsal.Exchange} {r r' : Rehearsal} {stage : Stage α} {ending : Ending}

theorem advances_finish (g : Gets client s i ⟨c, decode, stage⟩ r.traffic)
    (hl : Leaves s.now stage a x.id ending) :
    Advances client s i c decode a x.id (x.finish r ending) :=
  Or.inr ⟨ending, stage, r.traffic, hl, g, rfl, rfl⟩

theorem advances_drop (g : Gets client s i ⟨c, decode, stage⟩ r.traffic)
    (hl : Leaves s.now stage a x.id ending) :
    Advances client s i c decode a x.id (x.drop r ending) :=
  advances_finish (g.idles (x.idles_closeLink r)) hl

/-- An exchange can be cut off from wherever it is, once that is due. -/
theorem leaves_of_shows (hshow : Shows a x stage) {t : Instant} (ht : a.cutoff = some t)
    (hle : t ≤ s.now) : Leaves s.now stage a x.id (.cutOff x.record?) := by
  cases hshow with
  | queued hs => simpa [Rehearsal.Exchange.record?, hs] using Leaves.unsent ht hle
  | connecting hs | sending hs | awaiting hs | waiting hs =>
    simpa [Rehearsal.Exchange.record?, hs] using Leaves.unanswered ht hle
  | reading hs => exact .unread _ ht hle

theorem advances_granted (hi : i < s.callers.length)
    (g : Gets client s i ⟨c, decode, .queued a x.id⟩ r.traffic)
    (hgranted : r.traffic.isGranted x.id = true) :
    Advances client s i c decode a x.id (x.granted r) := by
  have hsent := g.act hi (.sent hgranted) (by simp)
  refine Or.inl ⟨.sent a x.id, ?_, hsent.idles (x.idles_granted r), ?_⟩ <;>
    unfold Rehearsal.Exchange.granted <;> dsimp only
  · split
    · exact .sending rfl
    · exact .connecting rfl
  · split <;> rfl

theorem advances_connected (g : Gets client s i ⟨c, decode, .sent a x.id⟩ r.traffic)
    (timings : ConnectTimings) : Advances client s i c decode a x.id (x.connected r timings) := by
  unfold Rehearsal.Exchange.connected
  split
  · have hconnect := g.idles (Rehearsal.idles_connect r x.request.uri timings)
    exact Or.inl ⟨_, .sending rfl, hconnect, rfl⟩
  · exact advances_finish g (.failed true _)

theorem advances_delivered (g : Gets client s i ⟨c, decode, .sent a x.id⟩ r.traffic) (link : Nat) :
    Advances client s i c decode a x.id (x.delivered r link) := by
  refine Or.inl ⟨.sent a x.id, ?_, g.idles (x.idles_delivered r link), ?_⟩ <;>
    unfold Rehearsal.Exchange.delivered <;> dsimp only
  · split <;> exact .awaiting rfl
  · split <;> rfl

theorem advances_headless (g : Gets client s i ⟨c, decode, .sent a x.id⟩ r.traffic) (link : Nat)
    (stalls : Bool) :
    Advances client s i c decode a x.id
      (if stalls then ({ x with stage := .stalled link none }, r) else x.fail r none) := by
  split
  · exact Or.inl ⟨_, .waiting rfl, g, rfl⟩
  · exact advances_drop g (.failed false _)

theorem advances_headed (hi : i < s.callers.length)
    (g : Gets client s i ⟨c, decode, .sent a x.id⟩ r.traffic) (link : Nat) (stalls : Bool)
    (record : Option ConnRecord) (head : Http.Head) :
    Advances client s i c decode a x.id
      (if stalls then ({ x with stage := .stalled link record }, r) else x.fail r record) := by
  have ghead := g.act hi (.headed head.status head.headers) (by simp)
  split
  · exact Or.inl ⟨_, .reading rfl, ghead, rfl⟩
  · exact advances_drop ghead (.broken _ record)

theorem advances_complete (hi : i < s.callers.length) (hs : s.now = r.now)
    (g : Gets client s i ⟨c, decode, .sent a x.id⟩ r.traffic) (link : Nat) (lost : Bool)
    (head : Http.Head) (framing : Http.Framing) (body : Bytes) :
    Advances client s i c decode a x.id (x.complete r link lost head framing body) := by
  have hsettle := Rehearsal.Exchange.idles_settle r link head framing lost
  -- The exchange takes the head and the rest of the answer, and maybe a 429, in one step.
  have hread := ((g.idles hsettle).act hi (.headed head.status head.headers) (by simp)).act hi
    (.read body) (by simp)
  unfold Rehearsal.Exchange.complete
  dsimp only
  split
  · rename_i h429
    have hnoted := hread.act hi (.throttled (Rehearsal.Exchange.settle r link head framing
      lost).clock h429) (by simp)
    rw [hs, ← hsettle.now] at hnoted
    exact advances_finish hnoted (.noted _ _)
  · rename_i hne
    exact advances_finish hread (.read _ _ hne)

theorem advances_arrived (hi : i < s.callers.length) (hs : s.now = r.now)
    (g : Gets client s i ⟨c, decode, .sent a x.id⟩ r.traffic) (link : Nat)
    (t : Rehearsal.Transmission) :
    Advances client s i c decode a x.id (x.arrived r link t) := by
  have huse := Rehearsal.idles_use r link fun u => (u.received r.now, 0)
  have g' := g.idles huse
  unfold Rehearsal.Exchange.arrived
  dsimp only
  split
  · exact advances_headless g' link _
  · rename_i head _ _
    split
    · exact advances_headless g' link _
    · split
      · exact advances_headed hi g' link _ _ head
      · exact advances_complete hi (hs.trans huse.now.symm) g' ..

theorem advances_step (hi : i < s.callers.length) (hs : s.now = r.now)
    (hshow : Shows a x stage) (hcutoff : x.cutoff = a.cutoff)
    (g : Gets client s i ⟨c, decode, stage⟩ r.traffic)
    (hdue : (x.due? r).any (· ≤ r.now) = true ∨ ∃ t, x.cutoff = some t ∧ t ≤ r.now) :
    Advances client s i c decode a x.id (x.step r) := by
  unfold Rehearsal.Exchange.step
  split
  · rename_i hany
    cases hshow with
    | queued hstage =>
      have hgranted : r.traffic.isGranted x.id = true := by
        cases hg : r.traffic.isGranted x.id with
        | true => rfl
        | false => simp [Rehearsal.Exchange.due?, hstage, hg] at hany
      simp only [hstage]
      exact advances_granted hi g hgranted
    | connecting hstage =>
      simp only [hstage]
      exact advances_connected g _
    | sending hstage =>
      simp only [hstage]
      exact advances_delivered g _
    | @awaiting link reply hstage =>
      cases reply with
      | none => simp [Rehearsal.Exchange.due?, hstage] at hany
      | some reply =>
        simp only [hstage]
        exact advances_arrived hi hs g link reply.1
    | waiting hstage => simp [Rehearsal.Exchange.due?, hstage] at hany
    | reading hstage => simp [Rehearsal.Exchange.due?, hstage] at hany
  · rename_i hnot
    obtain ⟨t, ht, hle⟩ := hdue.resolve_left hnot
    rw [hcutoff] at ht
    rw [← hs] at hle
    exact advances_drop g (leaves_of_shows hshow ht hle)

end

end Concurrent

end ServiceCall
