import ServiceCall.Proofs.Conn.Changes

/-!
# What a run keeps

The lease that an answer is read under stays with the connection, and a connection that is closed
stays closed.
-/

namespace ServiceCall.Destination

variable {limit : Nat} {s s' b : Destination} {i n : Nat} {l' : Link} {r : ConnRecord}

/-! ## Leases of answers that are being read -/

structure Served (s : Destination) : Prop where
  coherent : ∀ (n : Nat) (l : Link), s.links[n]? = some l → l.usage.Coherent
  serves : ∀ (i n : Nat) (lease : Lease) (l : Link),
    told s.visits Stage.reading? i = some (n, lease) → s.links[n]? = some l →
      l.usage.Serves lease
  past : ∀ (i : Nat) (v : Visit), s.visits[i]? = some v → v.requestedAt ≤ s.now
  known : ∀ i n, told s.visits Stage.lastLink? i = some n → n < s.links.length

theorem served_quiet (host key : String) (limit : Nat) (now : Instant) :
    Served (quiet host key limit now) where
  coherent := by simp [quiet]
  serves := by simp [quiet, told]
  past := by simp [quiet]
  known := by simp [quiet, told]

theorem Step.coherent (h : Step s s') (hp : Paired s.links s.visits) (hs : Served s)
    (hl : s'.links[n]? = some l') : l'.usage.Coherent := by
  rcases h.link_cases hp hl with ⟨-, _, rfl⟩ | ⟨l, hl, hgoes⟩
  · exact Usage.coherent_unused
  · exact (hs.coherent n l hl).goes hgoes.usage

theorem Step.past (h : Step s s') (hs : Served s) {v : Visit} (hv : s'.visits[i]? = some v) :
    v.requestedAt ≤ s'.now := by
  have hnow := h.now_le
  rcases h.visit_cases hv with ⟨-, hnew⟩ | ⟨before, hbefore, hsame⟩
  · rwa [hnew]
  · rw [hsame]
    exact Int.le_trans (hs.past i before hbefore) hnow

theorem serves_of_set {links : List Link} {m : Nat} {before after : Link} {lease : Lease}
    (hs : ∀ l, links[n]? = some l → l.usage.Serves lease) (hbefore : links[m]? = some before)
    (hl : (links.set m after)[n]? = some l')
    (hkeep : before.usage.Serves lease → after.usage.Serves lease) : l'.usage.Serves lease := by
  rcases set_cases hl with ⟨rfl, rfl⟩ | ⟨-, hl⟩
  · exact hkeep (hs before hbefore)
  · exact hs l' hl

/-- Nobody but the attempt that reads the answer gives the connection back. -/
theorem Step.serves (h : Step s s') (hp : Paired s.links s.visits) (hs : Served s) {lease : Lease}
    (hr : told s'.visits Stage.reading? i = some (n, lease)) (hl : s'.links[n]? = some l') :
    l'.usage.Serves lease := by
  have hold : ∀ {lease : Lease}, told s.visits Stage.reading? i = some (n, lease) →
      ∀ l, s.links[n]? = some l → l.usage.Serves lease := fun hr l hl => hs.serves i n _ l hr hl
  cases h with
  | passed _ => exact hold hr l' hl
  | asked => exact hold ((told_ask _ _ rfl _).symm.trans hr) l' hl
  | joined hv => exact hold (told_of_set hv hr (.inl rfl)) l' hl
  | took hv _ hb _ => exact serves_of_set (hold (told_of_set hv hr (.inl rfl))) hb hl id
  | dialing hv _ _ =>
    have hr := told_of_set hv hr (.inl rfl)
    rcases concat_cases hl with ⟨rfl, -⟩ | hl
    · obtain ⟨l, hlink, -⟩ := hp.exists_link (told_mono (fun _ => Stage.link?_of_reading?) hr)
      exact absurd (lt_length_of_getElem? hlink) (Nat.lt_irrefl _)
    · exact hold hr l' hl
  | dialed _ _ hv hb => exact serves_of_set (hold (told_of_set hv hr (.inl rfl))) hb hl id
  | wrote hb _ =>
    exact serves_of_set (hold hr) hb hl fun h => h.wrote (hs.coherent _ _ hb) _
  | received hb => exact serves_of_set (hold hr) hb hl fun h => h.received _
  | headed hv hb hlease _ =>
    rw [told_set hv] at hr
    split at hr
    · cases hr
      rw [hb] at hl
      cases hl
      exact Usage.serves_current hlease
    · exact hold hr l' hl
  | @released j t m b lease' record hv hb =>
    have hbefore := told_of_set hv hr (.inl rfl)
    rcases set_cases hl with ⟨rfl, -⟩ | ⟨-, hl⟩
    · have hj : held? s.visits j = some n := held?_eq hv
      have hsame := hp.eq_of_held? (told_mono (fun _ => Stage.link?_of_reading?) hbefore) hj
      rw [told_set hv, if_pos hsame] at hr
      cases hr
    · exact hold hbefore l' hl
  | closed hv hb => exact serves_of_set (hold (told_of_set hv hr (.inl rfl))) hb hl id
  | left hv => exact hold (told_of_set hv hr (.inl rfl)) l' hl
  | lost hb _ => exact serves_of_set (hold hr) hb hl id
  | withdrew hv => exact hold (told_of_set hv hr (.inl rfl)) l' hl
  | broke hv _ hb => exact serves_of_set (hold (told_of_set hv hr (.inl rfl))) hb hl id

theorem Step.known (h : Step s s') (hs : Served s)
    (hn : told s'.visits Stage.lastLink? i = some n) : n < s'.links.length := by
  have hlength := h.length_le
  rcases h.lastLink_cases hn with hn | ⟨-, hlt⟩ | ⟨l, hl, -⟩
  · exact Nat.lt_of_lt_of_le (hs.known i n hn) hlength
  · exact hlt
  · exact Nat.lt_of_lt_of_le (lt_length_of_getElem? hl) hlength

theorem Step.served (h : Step s s') (hp : Paired s.links s.visits) (hs : Served s) : Served s' where
  coherent _ _ hl := h.coherent hp hs hl
  serves _ _ _ _ hr hl := h.serves hp hs hr hl
  past _ _ hv := h.past hs hv
  known _ _ hn := h.known hs hn

theorem Run.served (h : Run s s') (hsound : Sound limit s) (hs : Served s) : Served s' := by
  induction h with
  | refl => exact hs
  | tail hrun hstep ih => exact hstep.served (Run.sound hrun hsound).paired ih

/-! ## Connections that are closed -/

/-- What a run leaves alone: what is closed stays closed, and new connections are dialed then. -/
structure Later (b s : Destination) : Prop where
  now : b.now ≤ s.now
  length : b.links.length ≤ s.links.length
  closed : ∀ (n : Nat) (l : Link), b.links[n]? = some l → l.place.isOpen = false →
    ∃ l', s.links[n]? = some l' ∧ l'.place = l.place
  dialedAt : ∀ (n : Nat) (l : Link), s.links[n]? = some l → b.links.length ≤ n →
    b.now ≤ l.dialedAt

theorem Run.later (h : Run b s) (hb : Sound limit b) : Later b s := by
  induction h with
  | refl =>
    refine ⟨Int.le_refl _, Nat.le_refl _, fun n l hl _ => ⟨l, hl, rfl⟩, fun n l hl hn => ?_⟩
    exact absurd (lt_length_of_getElem? hl) (Nat.not_lt_of_le hn)
  | @tail s s' hrun hstep ih =>
    have hp := (Run.sound hrun hb).paired
    refine ⟨Int.le_trans ih.now hstep.now_le, Nat.le_trans ih.length hstep.length_le,
      fun n l hl hclosed => ?_, fun n l' hl' hn => ?_⟩
    · obtain ⟨l', hl', hplace⟩ := ih.closed n l hl hclosed
      obtain ⟨l'', hl'', hgoes⟩ := hstep.exists_link hp hl'
      refine ⟨l'', hl'', ?_⟩
      rw [hgoes.stays (by rw [hplace, hclosed]), hplace]
    · rcases hstep.link_cases hp hl' with ⟨-, _, rfl⟩ | ⟨l, hl, hgoes⟩
      · exact ih.now
      · rw [hgoes.dialedAt]
        exact ih.dialedAt n l hl hn

theorem Run.closed_le {host key : String} {now t : Instant} (h : Run (quiet host key limit now) s)
    {l : Link} (hl : s.links[n]? = some l) (hclosed : l.place = .closed t) : t ≤ s.now := by
  induction h generalizing n l with
  | refl => simp [quiet] at hl
  | @tail s s' hrun hstep ih =>
    have hp := (Run.sound hrun (sound_quiet host key limit now)).paired
    rcases hstep.link_cases hp hl with ⟨-, i, rfl⟩ | ⟨before, hbefore, hgoes⟩
    · cases hclosed
    · refine Int.le_trans ?_ hstep.now_le
      cases hwas : before.place.isOpen with
      | true =>
        have hnow := hgoes.closes hwas (by rw [hclosed]; rfl)
        rw [hclosed] at hnow
        cases hnow
        exact Int.le_refl _
      | false =>
        rw [hgoes.stays hwas] at hclosed
        exact ih hbefore hclosed

/-- A run divides at the last connection that is dialed. -/
theorem Run.exists_dialed (h : Run b s) (hb : Sound limit b) :
    ∃ c, Run b c ∧ Run c s ∧ c.links.length = s.links.length ∧
      (c = b ∨ ∃ (n : Nat) (l : Link), s.links[n]? = some l ∧ l.dialedAt = c.now) := by
  induction h with
  | refl => exact ⟨b, .refl, .refl, rfl, Or.inl rfl⟩
  | @tail s s' hrun hstep ih =>
    have hp := (Run.sound hrun hb).paired
    rcases hstep.links_cases with hsame | ⟨i, hdialing⟩
    · obtain ⟨c, hbc, hcs, hlength, hend⟩ := ih
      refine ⟨c, hbc, hcs.tail hstep, hlength.trans hsame.symm, hend.imp_right ?_⟩
      rintro ⟨n, l, hl, hdialed⟩
      obtain ⟨l', hl', hgoes⟩ := hstep.exists_link hp hl
      exact ⟨n, l', hl', hgoes.dialedAt.trans hdialed⟩
    · refine ⟨s', hrun.tail hstep, .refl, rfl, Or.inr ⟨s.links.length, .dialing i s'.now, ?_, rfl⟩⟩
      rw [hdialing, List.getElem?_concat_length]

/-- No connection has been closed since. -/
def Intact (b s : Destination) : Prop :=
  ∀ (n : Nat) (l' : Link), s.links[n]? = some l' → l'.place.isOpen = false →
    ∃ l, b.links[n]? = some l ∧ l.place.isOpen = false

/-- A run divides at the first connection that is closed. -/
theorem Run.exists_intact (h : Run b s) (hb : Sound limit b) :
    ∃ c, Run b c ∧ Run c s ∧ Intact b c ∧
      (c = s ∨ ∃ (n : Nat) (l : Link), s.links[n]? = some l ∧ l.place = .closed c.now) := by
  induction h with
  | refl => exact ⟨b, .refl, .refl, fun n l hl hclosed => ⟨l, hl, hclosed⟩, Or.inl rfl⟩
  | @tail s s' hrun hstep ih =>
    have hp := (Run.sound hrun hb).paired
    obtain ⟨c, hbc, hcs, hintact, hend⟩ := ih
    rcases hend with rfl | ⟨n, l, hl, hclosed⟩
    · by_cases hall : Intact b s'
      · exact ⟨s', hrun.tail hstep, .refl, hall, Or.inl rfl⟩
      · obtain ⟨n, l', hl', hclosed, hopen⟩ : ∃ (n : Nat) (l' : Link), s'.links[n]? = some l' ∧
            l'.place.isOpen = false ∧
              ∀ l : Link, b.links[n]? = some l → l.place.isOpen = true := by
          simpa [Intact] using hall
        refine ⟨c, hrun, .single hstep, hintact, Or.inr ⟨n, l', hl', ?_⟩⟩
        rcases hstep.link_cases hp hl' with ⟨-, _, rfl⟩ | ⟨l, hl, hgoes⟩
        · cases hclosed
        · cases hwas : l.place.isOpen with
          | true => exact hgoes.closes hwas hclosed
          | false =>
            obtain ⟨l₀, hl₀, hclosed₀⟩ := hintact n l hl hwas
            rw [hopen l₀ hl₀] at hclosed₀
            cases hclosed₀
    · obtain ⟨l', hl', hgoes⟩ := hstep.exists_link hp hl
      refine ⟨c, hbc, hcs.tail hstep, hintact, Or.inr ⟨n, l', hl', ?_⟩⟩
      rw [hgoes.stays (by rw [hclosed]; rfl), hclosed]

end ServiceCall.Destination
