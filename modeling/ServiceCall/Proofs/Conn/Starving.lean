import ServiceCall.Proofs.Conn.Runs

/-!
# Starved and delayed attempts

Of attempts that have all asked before one of them had its whole answer, at most as many as there
are permits got their connections at once. The records of all others tell of a wait, unless a
connection came back at the very moment at which the attempt asked, or the attempt dialed after
another connection had been closed. Of the latter there is at most one for each such connection.
-/

namespace ServiceCall.Destination

variable {limit : Nat} {s s' mid last : Destination} {batch : Finset Nat} {i j n : Nat}
  {r r' : ConnRecord}

/-! ## Attempts that have all asked -/

/-- What holds of the attempts of the batch, and of the connections, after `mid`. A connection
that one of them has given back, or that was dialed later, tells of nothing before `mid`. -/
structure Crowded (mid : Destination) (batch : Finset Nat) (s : Destination) : Prop where
  asked : ∀ i ∈ batch, ∃ v, s.visits[i]? = some v ∧ v.requestedAt ≤ mid.now
  fresh : ∀ (n : Nat) (l : Link), s.links[n]? = some l → mid.links.length ≤ n →
    l.usage.Recent mid.now
  spent : ∀ i ∈ batch, ∀ (n : Nat) (r : ConnRecord) (l : Link),
    told s.visits Stage.finished? i = some (n, r) → s.links[n]? = some l →
      l.place.isOpen = true → l.usage.Recent mid.now ∧ l.usage.Worn
  alive : ∀ i ∈ batch, ∀ n, told s.visits Stage.lastLink? i = some n →
    ∀ l, mid.links[n]? = some l → l.place.isOpen = true
  dialed : ∀ i ∈ batch, ∀ n r, told s.visits Stage.record? i = some (n, r) →
    mid.links.length ≤ n → r.IsPlain → r.reused = false
  single : ∀ i ∈ batch, ∀ j ∈ batch, i ≠ j → ∀ n r r',
    told s.visits Stage.finished? i = some (n, r) →
      told s.visits Stage.record? j = some (n, r') → r.IsPlain → ¬ r'.IsPlain

theorem Crowded.step_fresh (hc : Crowded mid batch s) (h : Step s s') (hp : Paired s.links s.visits)
    (hnow : mid.now ≤ s.now) {l' : Link} (hl : s'.links[n]? = some l')
    (hn : mid.links.length ≤ n) : l'.usage.Recent mid.now := by
  rcases h.link_cases hp hl with ⟨-, _, rfl⟩ | ⟨l, hl, hgoes⟩
  · exact Usage.recent_unused _
  · exact (hc.fresh n l hl hn).goes hnow hgoes.usage

theorem Crowded.step_spent (hc : Crowded mid batch s) (h : Step s s')
    (hp : Paired s.links s.visits) (hs : Served s) (hnow : mid.now ≤ s.now) (hi : i ∈ batch)
    {l' : Link} (hr : told s'.visits Stage.finished? i = some (n, r)) (hl : s'.links[n]? = some l')
    (hopen : l'.place.isOpen = true) : l'.usage.Recent mid.now ∧ l'.usage.Worn := by
  rcases h.finished_cases hr with hr | ⟨t, l, after, lease, hv, hbefore, hafter, hreleased⟩
  · rcases h.link_cases hp hl with ⟨rfl, -⟩ | ⟨l, hl, hgoes⟩
    · have hlast :=
        told_mono (fun _ h => Stage.lastLink?_of_record? (Stage.record?_of_finished? h)) hr
      exact absurd (hs.known i _ hlast) (Nat.lt_irrefl _)
    · obtain ⟨hrecent, hworn⟩ := hc.spent i hi n r l hr hl (hgoes.isOpen hopen)
      exact ⟨hrecent.goes hnow hgoes.usage, hworn.goes hgoes.usage⟩
  · rw [hafter] at hl
    cases hl
    rw [hreleased hopen]
    have hserves := hs.serves i n lease l (told_eq hv _) hbefore
    exact hserves.released (hs.coherent n l hbefore) hnow

theorem Crowded.step_alive (hc : Crowded mid batch s) (h : Step s s') (hlater : Later mid s)
    (hi : i ∈ batch) (hn : told s'.visits Stage.lastLink? i = some n) {l : Link}
    (hl : mid.links[n]? = some l) : l.place.isOpen = true := by
  rcases h.lastLink_cases hn with hn | ⟨rfl, -⟩ | ⟨l', hl', hopen⟩
  · exact hc.alive i hi n hn l hl
  · have hlength := hlater.length
    have hlt := lt_length_of_getElem? hl
    omega
  · cases hwas : l.place.isOpen with
    | true => rfl
    | false =>
      obtain ⟨l'', hl'', hplace⟩ := hlater.closed n l hl hwas
      rw [hl'] at hl''
      cases hl''
      rw [← hplace, hopen] at hwas
      cases hwas

theorem Crowded.step_dialed (hc : Crowded mid batch s) (h : Step s s') (hi : i ∈ batch)
    (hr : told s'.visits Stage.record? i = some (n, r)) (hn : mid.links.length ≤ n)
    (hplain : r.IsPlain) : r.reused = false := by
  rcases h.record_cases hr with hr | ⟨t, l, lease, hv, hl, hlease, rfl, -⟩
  · exact hc.dialed i hi n r hr hn hplain
  · obtain ⟨v, hv', hasked⟩ := hc.asked i hi
    rw [hv] at hv'
    cases hv'
    cases hreused : lease.reused with
    | false => exact hreused
    | true =>
      have hrecent := (hc.fresh n l hl hn).lease lease hlease
      exact absurd hplain (ConnRecord.not_isPlain_of_recent hreused hrecent hasked)

/-- Of the attempts that use one connection, at most one has a plain record. -/
theorem Crowded.step_single (hc : Crowded mid batch s) (h : Step s s')
    (hp : Paired s.links s.visits) (hi : i ∈ batch) (hj : j ∈ batch) (hne : i ≠ j)
    (hr : told s'.visits Stage.finished? i = some (n, r))
    (hr' : told s'.visits Stage.record? j = some (n, r')) (hplain : r.IsPlain) :
    ¬ r'.IsPlain := by
  rcases h.record_cases hr' with hr' | ⟨t, l, lease, hv, hl, hlease, rfl, -⟩
  · rcases h.finished_cases hr with hr | ⟨t, l, l', lease, hv, -⟩
    · exact hc.single i hi j hj hne n r r' hr hr' hplain
    · -- The other attempt has had its answer, since the connection is with this one.
      obtain ⟨w, hw, hrecord⟩ := Option.bind_eq_some_iff.mp hr'
      rcases Stage.finished?_or_link? hrecord with hfinished | hlink
      · intro hplain'
        exact hc.single j hj i hi hne.symm n r' r ((told_eq hw _).trans hfinished) (told_eq hv _)
          hplain' hplain
      · exact absurd (hp.eq_of_held? (told_eq hv _) ((told_eq hw _).trans hlink)) hne
  · have hheld : held? s.visits j = some n := told_eq hv _
    rcases h.finished_cases hr with hr | ⟨t', _, _, _, hv', -⟩
    · have hopen := Place.isOpen_of_attempt? (hp.attempt?_eq hv hl rfl)
      obtain ⟨hrecent, hworn⟩ := hc.spent i hi n r l hr hl hopen
      obtain ⟨w, hw, hasked⟩ := hc.asked j hj
      rw [hv] at hw
      cases hw
      exact ConnRecord.not_isPlain_of_recent (hworn.lease lease hlease)
        (hrecent.lease lease hlease) hasked
    · exact absurd (hp.eq_of_held? (told_eq hv' _) hheld) hne

theorem Crowded.step (hc : Crowded mid batch s) (h : Step s s') (hsound : Sound limit s)
    (hs : Served s) (hlater : Later mid s) : Crowded mid batch s' where
  asked i hi := by
    obtain ⟨v, hv, hasked⟩ := hc.asked i hi
    obtain ⟨v', hv', hsame⟩ := h.exists_visit hv
    exact ⟨v', hv', hsame ▸ hasked⟩
  fresh _ _ hl hn := hc.step_fresh h hsound.paired hlater.now hl hn
  spent _ hi _ _ _ hr hl hopen := hc.step_spent h hsound.paired hs hlater.now hi hr hl hopen
  alive _ hi _ hn _ hl := hc.step_alive h hlater hi hn hl
  dialed _ hi _ _ hr hn hplain := hc.step_dialed h hi hr hn hplain
  single _ hi _ hj hne _ _ _ hr hr' hplain :=
    hc.step_single h hsound.paired hi hj hne hr hr' hplain

/-- The attempts have all asked, and none of them has had its whole answer. -/
def Waiting (batch : Finset Nat) (s : Destination) : Prop :=
  ∀ i ∈ batch, ∃ v, s.visits[i]? = some v ∧ v.stage.finished? = none

theorem crowded_of_waiting (hsound : Sound limit mid) (hs : Served mid) (h : Waiting batch mid) :
    Crowded mid batch mid where
  asked i hi := by
    obtain ⟨v, hv, -⟩ := h i hi
    exact ⟨v, hv, hs.past i v hv⟩
  fresh n l hl hn := absurd (lt_length_of_getElem? hl) (Nat.not_lt_of_le hn)
  spent i hi n r l hr := by
    obtain ⟨v, hv, hnone⟩ := h i hi
    rw [told_eq hv, hnone] at hr
    cases hr
  alive i hi n hn l hl := by
    obtain ⟨v, hv, hnone⟩ := h i hi
    rw [told_eq hv] at hn
    have hlink := Stage.link?_of_lastLink? hn hnone
    exact Place.isOpen_of_attempt? (hsound.paired.attempt?_eq hv hl hlink)
  dialed i hi n r hr hn := by
    have hlast := told_mono (fun _ => Stage.lastLink?_of_record?) hr
    exact absurd (hs.known i n hlast) (Nat.not_lt_of_le hn)
  single i hi j hj hne n r r' hr := by
    obtain ⟨v, hv, hnone⟩ := h i hi
    rw [told_eq hv, hnone] at hr
    cases hr

theorem Run.crowded (h : Run mid s) (hsound : Sound limit mid) (hs : Served mid)
    (hc : Crowded mid batch mid) : Crowded mid batch s := by
  induction h with
  | refl => exact hc
  | tail hrun hstep ih =>
    exact ih.step hstep (Run.sound hrun hsound) (Run.served hrun hsound hs)
      (Run.later hrun hsound)

/-! ## How many records tell of a wait -/

/-- The attempt has its whole answer, and its record calls it starved or delayed. -/
def showsWait (s : Destination) (i : Nat) : Bool :=
  (told s.visits Stage.finished? i).any fun (_, r) => r.starved || r.delayed

/-- A connection was closed after the moment, and before this one was dialed. -/
def replaced (s : Destination) (since : Instant) (n : Nat) : Bool :=
  s.links.any fun l =>
    match l.place with
    | .closed t => since ≤ t && s.links[n]?.any (t ≤ ·.dialedAt)
    | _ => false

/-- The attempt has its whole answer over a connection that came back when the attempt asked, or
over a new one that was dialed after another one had been closed. -/
def excused (s : Destination) (since : Instant) (i : Nat) : Bool :=
  (told s.visits Stage.finished? i).any fun (n, r) =>
    r.cameAsAsked || !r.reused && s.replaced since n

/-- The attempt has its whole answer over a connection that came back when the attempt asked. -/
def tied (s : Destination) (i : Nat) : Bool :=
  (told s.visits Stage.finished? i).any fun (_, r) => r.cameAsAsked

/-- The connection was closed before another one was dialed. -/
def makesRoom (s : Destination) (l : Link) : Bool :=
  match l.place with
  | .closed t => s.links.any (t ≤ ·.dialedAt)
  | _ => false

/-- The connections that were closed after `mid`, and before another one was dialed. -/
def freed (mid last : Destination) : Finset Nat :=
  (Finset.range last.links.length).filter fun n =>
    (mid.links[n]?.all (·.place.isOpen) && last.links[n]?.any last.makesRoom) = true

theorem mem_freed {l : Link} (hl : last.links[n]? = some l) (hroom : last.makesRoom l = true)
    (halive : ∀ l, mid.links[n]? = some l → l.place.isOpen = true) : n ∈ freed mid last := by
  rw [freed, Finset.mem_filter, Finset.mem_range, Bool.and_eq_true, Option.all_eq_true,
    Option.any_eq_true]
  exact ⟨lt_length_of_getElem? hl, halive, l, hl, hroom⟩

theorem replaced_of_closed {since t : Instant} {l l' : Link} (hl : s.links[j]? = some l)
    (hclosed : l.place = .closed t) (hsince : since ≤ t) (hl' : s.links[n]? = some l')
    (hdialed : t ≤ l'.dialedAt) : s.replaced since n = true := by
  rw [replaced, List.any_eq_true]
  refine ⟨l, List.mem_of_getElem? hl, ?_⟩
  simp [hclosed, hsince, hl', hdialed]

/-- Up to the first connection that was closed, an attempt without a wait had an open one. -/
theorem mem_openLinks_of_plain {c : Destination} (hc : Crowded mid batch last)
    (hs : Served last) (hintact : Intact mid c) (hmid : Later mid c) (hlast : Later c last)
    (hend : c = last ∨ ∃ (m : Nat) (l : Link), last.links[m]? = some l ∧ l.place = .closed c.now)
    (hi : i ∈ batch) (hr : told last.visits Stage.finished? i = some (n, r)) (hplain : r.IsPlain)
    (hreplaced : r.reused = false → last.replaced mid.now n = false) :
    n ∈ openLinks c.links := by
  have hrecord := told_mono (fun _ => Stage.record?_of_finished?) hr
  have hlink := told_mono (fun _ => Stage.lastLink?_of_record?) hrecord
  have hknown := hs.known i n hlink
  have hlt : n < c.links.length := by
    rcases hend with rfl | ⟨m, l, hl, hclosed⟩
    · exact hknown
    · by_contra hge
      have hlate := Nat.le_trans hmid.length (Nat.le_of_not_lt hge)
      have hfirst := hreplaced (hc.dialed i hi n r hrecord hlate hplain)
      have hl' := List.getElem?_eq_getElem hknown
      have hdialed := hlast.dialedAt n _ hl' (Nat.le_of_not_lt hge)
      rw [replaced_of_closed hl hclosed hmid.now hl' hdialed] at hfirst
      cases hfirst
  refine mem_openLinks.mpr ⟨_, List.getElem?_eq_getElem hlt, ?_⟩
  cases hopen : c.links[n].place.isOpen with
  | true => rfl
  | false =>
    obtain ⟨l, hl, hclosed⟩ := hintact n _ (List.getElem?_eq_getElem hlt) hopen
    rw [hc.alive i hi n hlink l hl] at hclosed
    cases hclosed

/-- Attempts that have all asked before one of them had its whole answer, and all have theirs in
the end. -/
structure Rush (limit : Nat) (batch : Finset Nat) (mid last : Destination) : Prop where
  before : ∃ host key now, Run (quiet host key limit now) mid
  waiting : Waiting batch mid
  after : Run mid last
  done : ∀ i ∈ batch, (told last.visits Stage.finished? i).isSome = true

/-- The attempt has its whole answer, and neither its record nor an excuse tells of a wait. -/
abbrev Unmarked (mid last : Destination) (i : Nat) : Prop :=
  ¬ (last.showsWait i || last.excused mid.now i) = true

theorem Rush.crowded (h : Rush limit batch mid last) :
    Sound limit mid ∧ Served last ∧ Crowded mid batch last := by
  obtain ⟨host, key, now, hmid⟩ := h.before
  have hsound := Run.sound hmid (sound_quiet host key limit now)
  have hserved := Run.served hmid (sound_quiet host key limit now)
    (served_quiet host key limit now)
  exact ⟨hsound, Run.served h.after hsound hserved,
    Run.crowded h.after hsound hserved (crowded_of_waiting hsound hserved h.waiting)⟩

/-- There was a moment at which each unmarked attempt had an open connection, or was to get it. -/
theorem Rush.exists_openLinks (h : Rush limit batch mid last) :
    ∃ links : List Link, (openLinks links).card ≤ limit ∧
      ∀ i ∈ batch, Unmarked mid last i → ∃ n r,
        told last.visits Stage.finished? i = some (n, r) ∧ r.IsPlain ∧ n ∈ openLinks links := by
  obtain ⟨hsound, hserved, hcrowded⟩ := h.crowded
  obtain ⟨c, hmidc, hclast, hintact, hend⟩ := Run.exists_intact h.after hsound
  have hsoundc := Run.sound hmidc hsound
  refine ⟨c.links, hsoundc.few, fun i hi hunmarked => ?_⟩
  obtain ⟨⟨n, r⟩, hr⟩ := Option.isSome_iff_exists.mp (h.done i hi)
  simp only [Unmarked, showsWait, excused, hr, Option.any_some, Bool.or_eq_true, Bool.and_eq_true,
    Bool.not_eq_true', not_or, Bool.not_eq_true, not_and] at hunmarked
  obtain ⟨⟨hstarved, -⟩, hcame, hreplaced⟩ := hunmarked
  exact ⟨n, r, hr, ⟨hstarved, hcame⟩, mem_openLinks_of_plain hcrowded hserved hintact
    (Run.later hmidc hsound) (Run.later hclast hsoundc) hend hi hr ⟨hstarved, hcame⟩ hreplaced⟩

/-- No two attempts without a wait had the same connection. -/
theorem Crowded.card_le (hc : Crowded mid batch last) {plain links : Finset Nat}
    (hsub : plain ⊆ batch) (h : ∀ i ∈ plain, ∃ n r,
      told last.visits Stage.finished? i = some (n, r) ∧ r.IsPlain ∧ n ∈ links) :
    plain.card ≤ links.card := by
  apply Finset.card_le_card_of_injOn
    fun i => ((told last.visits Stage.finished? i).map (·.1)).getD 0
  · intro i hi
    obtain ⟨n, r, hr, -, hmem⟩ := h i hi
    simp only [hr, Finset.mem_coe]
    exact hmem
  · intro i hi j hj hsame
    obtain ⟨n, r, hr, hplain, -⟩ := h i hi
    obtain ⟨m, r', hr', hplain', -⟩ := h j hj
    simp only [hr, hr', Option.map_some, Option.getD_some] at hsame
    subst hsame
    by_contra hne
    exact hc.single i (hsub hi) j (hsub hj) hne n r r' hr
      (told_mono (fun _ => Stage.record?_of_finished?) hr') hplain hplain'

theorem Rush.card_unmarked_le (h : Rush limit batch mid last) :
    (batch.filter (Unmarked mid last)).card ≤ limit := by
  obtain ⟨links, hfew, hopen⟩ := h.exists_openLinks
  obtain ⟨-, -, hcrowded⟩ := h.crowded
  refine le_trans (hcrowded.card_le (Finset.filter_subset _ _) fun i hi => ?_) hfew
  obtain ⟨hi, hunmarked⟩ := Finset.mem_filter.mp hi
  exact hopen i hi hunmarked

/-- When the last connection was dialed, those of the attempts without a wait were open or had
made room. -/
theorem Rush.card_plain_le (h : Rush limit batch mid last) {plain : Finset Nat}
    (hsub : plain ⊆ batch)
    (hplain : ∀ i ∈ plain, ∃ n r, told last.visits Stage.finished? i = some (n, r) ∧ r.IsPlain) :
    plain.card ≤ limit + (freed mid last).card := by
  obtain ⟨host, key, now, hbefore⟩ := h.before
  obtain ⟨hsound, hserved, hcrowded⟩ := h.crowded
  obtain ⟨c, hmidc, hclast, hlength, hend⟩ := Run.exists_dialed h.after hsound
  have hsoundc := Run.sound hmidc hsound
  have hfew := le_trans (Finset.card_union_le (openLinks c.links) (freed mid last))
    (Nat.add_le_add_right hsoundc.few _)
  refine le_trans (hcrowded.card_le hsub fun i hi => ?_) hfew
  obtain ⟨n, r, hr, hplain⟩ := hplain i hi
  refine ⟨n, r, hr, hplain, Finset.mem_union.mpr ?_⟩
  have hlink :=
    told_mono (fun _ h => Stage.lastLink?_of_record? (Stage.record?_of_finished? h)) hr
  have halive := hcrowded.alive i (hsub hi) n hlink
  obtain ⟨l, hl⟩ : ∃ l, c.links[n]? = some l :=
    ⟨_, List.getElem?_eq_getElem (hlength ▸ hserved.known i n hlink)⟩
  cases hplace : l.place with
  | closed t =>
    have hle := Run.closed_le (hbefore.trans hmidc) hl hplace
    obtain ⟨l', hl', hsame⟩ := (Run.later hclast hsoundc).closed n l hl (by rw [hplace]; rfl)
    refine Or.inr (mem_freed hl' ?_ halive)
    -- If none was dialed after `mid`, this one was closed before, and no attempt was to get it.
    rcases hend with rfl | ⟨m, dialed, hdialed, hnow⟩
    · have hopen := halive l hl
      rw [hplace] at hopen
      cases hopen
    · unfold makesRoom
      rw [hsame, hplace]
      exact List.any_eq_true.mpr
        ⟨dialed, List.mem_of_getElem? hdialed, decide_eq_true (hnow ▸ hle)⟩
  | _ => exact Or.inl (mem_openLinks.mpr ⟨l, hl, by rw [hplace]; rfl⟩)

theorem card_le_of_filter_not {p : Nat → Bool} {m : Nat}
    (h : (batch.filter fun i => ¬ p i = true).card ≤ m) :
    batch.card ≤ (batch.filter fun i => p i = true).card + m := by
  have hsplit := Finset.card_filter_add_card_filter_not (s := batch) fun i => p i = true
  omega

/-- All attempts of a rush but as many as there are permits have records that tell of a wait, or
one of the two excuses. Dialing excuses no more of them than there are connections that were closed
before another one was dialed. -/
theorem starvation_shows (h : Rush limit batch mid last) :
    batch.card - limit ≤
        (batch.filter fun i => (last.showsWait i || last.excused mid.now i) = true).card ∧
      batch.card - limit ≤
        (batch.filter fun i => (last.showsWait i || last.tied i) = true).card +
          (freed mid last).card := by
  constructor
  · have hcard := card_le_of_filter_not h.card_unmarked_le
    omega
  · have hplain : (batch.filter fun i => ¬ (last.showsWait i || last.tied i) = true).card ≤
        limit + (freed mid last).card := by
      refine h.card_plain_le (Finset.filter_subset _ _) fun i hi => ?_
      obtain ⟨hi, hunmarked⟩ := Finset.mem_filter.mp hi
      obtain ⟨⟨n, r⟩, hr⟩ := Option.isSome_iff_exists.mp (h.done i hi)
      simp only [showsWait, tied, hr, Option.any_some, Bool.or_eq_true, not_or,
        Bool.not_eq_true] at hunmarked
      exact ⟨n, r, hr, hunmarked.1.1, hunmarked.2⟩
    have hcard := card_le_of_filter_not hplain
    omega

/-! ## Two attempts and one permit -/

def twoAsked : Destination :=
  { quiet "svc.test:80" "http://svc.test:80" 1 ⟨0⟩ with
    visits := [⟨⟨0⟩, .asked⟩, ⟨⟨0⟩, .asked⟩] }

def firstLease : Lease := ⟨⟨1000000⟩, false, none, some ⟨1000000⟩, some ⟨5000000⟩⟩

def firstTimings : ConnectTimings := ⟨none, none, none, .ofMillis 1⟩

/-- The first attempt has dialed for 1 ms and has the head of its answer after 5 ms. -/
def firstAnswered : Destination :=
  { twoAsked with
    now := ⟨5000000⟩
    queue := ⟨"http://svc.test:80", 0, [(0, .granted), (1, .waiting)]⟩
    links := [⟨.lent 0, ⟨0⟩, firstTimings, ⟨1, true, false, none, some firstLease⟩⟩]
    visits := [
      ⟨⟨0⟩, .reading 0 firstLease (.classify "svc.test:80" ⟨0⟩ firstLease firstTimings)⟩,
      ⟨⟨0⟩, .queued⟩] }

theorem run_twoAsked : Run (quiet "svc.test:80" "http://svc.test:80" 1 ⟨0⟩) twoAsked :=
  (Relation.ReflTransGen.single .asked).tail .asked

theorem run_firstAnswered : Run twoAsked firstAnswered := by
  have h : Step twoAsked _ := .joined (i := 0) rfl
  have h := (Relation.ReflTransGen.single h).tail (.joined (i := 1) rfl)
  have h := h.tail (.dialing (i := 0) rfl (by decide) (by decide))
  have h := h.tail (.passed (t := ⟨1000000⟩) (by decide))
  have h := h.tail (.dialed (i := 0) ⟨none, none⟩ false rfl rfl)
  have h := h.tail (.wrote (n := 0) rfl rfl)
  have h := h.tail (.passed (t := ⟨5000000⟩) (by decide))
  have h := h.tail (.received (n := 0) rfl)
  have h := h.tail (.headed (i := 0) rfl rfl rfl rfl)
  exact Eq.subst (motive := Run twoAsked) (by decide) h

theorem stay (_ : Run s s') : Run s' s' := .refl

theorem rush_of_two {host key : String} {now : Instant} (hmid : Run (quiet host key 1 now) mid)
    (hwaiting : ∀ i ∈ ({0, 1} : Finset Nat),
      (mid.visits[i]?.any fun v => v.stage.finished?.isNone) = true)
    (hlast : Run mid last)
    (hdone : ∀ i ∈ ({0, 1} : Finset Nat), (told last.visits Stage.finished? i).isSome = true) :
    Rush 1 {0, 1} mid last where
  before := ⟨host, key, now, hmid⟩
  waiting i hi := by
    obtain ⟨v, hv, hnone⟩ := (Option.any_eq_true _ _).mp (hwaiting i hi)
    exact ⟨v, hv, Option.isNone_iff_eq_none.mp hnone⟩
  after := hlast
  done := hdone

/-- The second attempt takes over the connection of the first one. -/
theorem starvation_shows_of_two : ∃ last, Rush 1 {0, 1} twoAsked last ∧
    last.showsWait 1 = true ∧ freed twoAsked last = ∅ ∧
      1 ≤ (({0, 1} : Finset Nat).filter fun i =>
        (last.showsWait i || last.excused twoAsked.now i) = true).card ∧
      1 ≤ (({0, 1} : Finset Nat).filter fun i =>
        (last.showsWait i || last.tied i) = true).card + (freed twoAsked last).card := by
  have h := run_firstAnswered.tail (.released (i := 0) rfl rfl)
  have h := h.tail (.left (i := 0) rfl)
  have h := h.tail (.took (i := 1) (n := 0) rfl (by decide) rfl rfl)
  have h := h.tail (.wrote (n := 0) rfl rfl)
  have h := h.tail (.received (n := 0) rfl)
  have h := h.tail (.headed (i := 1) rfl rfl rfl rfl)
  have h := h.tail (.released (i := 1) rfl rfl)
  have h := h.tail (.left (i := 1) rfl)
  have hrush := rush_of_two run_twoAsked (by decide) h (by decide)
  exact ⟨_, hrush, by decide, by decide, starvation_shows hrush⟩

/-- The first connection is closed early: the second attempt has waited for 5 ms when it dials,
so it is neither starved nor delayed. -/
theorem starvation_hidden : ¬ ∀ (limit : Nat) (batch : Finset Nat) (mid last : Destination),
    1 ≤ limit → limit < batch.card → Rush limit batch mid last →
      batch.card - limit ≤ (batch.filter fun i => last.showsWait i = true).card := by
  have h := run_firstAnswered.tail (.closed (i := 0) rfl rfl)
  have h := h.tail (.left (i := 0) rfl)
  have h := h.tail (.dialing (i := 1) rfl (by decide) (by decide))
  have h := h.tail (.passed (t := ⟨6000000⟩) (by decide))
  have h := h.tail (.dialed (i := 1) ⟨none, none⟩ false rfl rfl)
  have h := h.tail (.wrote (n := 1) rfl rfl)
  have h := h.tail (.passed (t := ⟨10000000⟩) (by decide))
  have h := h.tail (.received (n := 1) rfl)
  have h := h.tail (.headed (i := 1) rfl rfl rfl rfl)
  have h := h.tail (.closed (i := 1) rfl rfl)
  have h := h.tail (.left (i := 1) rfl)
  have hrush := rush_of_two run_twoAsked (by decide) h (by decide)
  intro hall
  have hshown := hall 1 {0, 1} twoAsked _ (by decide) (by decide) hrush
  revert hshown
  decide

/-- No connection is closed, but the first one comes back at the very moment at which the second
attempt asks. -/
theorem starvation_hidden_by_tie : ∃ mid last, Rush 1 {0, 1} mid last ∧
    (∀ l ∈ last.links, l.place.isOpen = true) ∧
      (({0, 1} : Finset Nat).filter fun i => last.showsWait i = true).card = 0 := by
  have h : Step (quiet "svc.test:80" "http://svc.test:80" 1 ⟨0⟩) _ := .asked
  have h := (Relation.ReflTransGen.single h).tail (.joined (i := 0) rfl)
  have h := h.tail (.dialing (i := 0) rfl (by decide) (by decide))
  have h := h.tail (.dialed (i := 0) ⟨none, none⟩ false rfl rfl)
  have h := h.tail (.wrote (n := 0) rfl rfl)
  have h := h.tail (.received (n := 0) rfl)
  have h := h.tail (.headed (i := 0) rfl rfl rfl rfl)
  have hmid := h.tail .asked
  have h := (stay hmid).tail (.joined (i := 1) rfl)
  have h := h.tail (.released (i := 0) rfl rfl)
  have h := h.tail (.left (i := 0) rfl)
  have h := h.tail (.took (i := 1) (n := 0) rfl (by decide) rfl rfl)
  have h := h.tail (.wrote (n := 0) rfl rfl)
  have h := h.tail (.received (n := 0) rfl)
  have h := h.tail (.headed (i := 1) rfl rfl rfl rfl)
  have h := h.tail (.released (i := 1) rfl rfl)
  have h := h.tail (.left (i := 1) rfl)
  exact ⟨_, _, rush_of_two hmid (by decide) h (by decide), by decide, by decide⟩

end ServiceCall.Destination
