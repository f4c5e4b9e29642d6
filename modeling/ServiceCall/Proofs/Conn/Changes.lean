import ServiceCall.Proofs.Conn.Capacity
import ServiceCall.Proofs.Conn.Leases

/-!
# What a step changes

The ways in which a step can change a connection, and what an attempt tells of its own.
-/

namespace ServiceCall

/-! ## Connections -/

/-- What can become of a connection: it may change hands, be used, or be closed for good. -/
structure Link.Goes (now : Instant) (l l' : Link) : Prop where
  dialedAt : l'.dialedAt = l.dialedAt
  stays : l.place.isOpen = false → l'.place = l.place
  closes : l.place.isOpen = true → l'.place.isOpen = false → l'.place = .closed now
  usage : l.usage.Goes now l'.usage

namespace Link

variable {now : Instant} {l l' : Link}

theorem Goes.refl (now : Instant) (l : Link) : l.Goes now l where
  dialedAt := rfl
  stays _ := rfl
  closes h h' := by rw [h] at h'; cases h'
  usage := .same

theorem Goes.isOpen (h : l.Goes now l') (hopen : l'.place.isOpen = true) :
    l.place.isOpen = true := by
  cases hwas : l.place.isOpen with
  | true => rfl
  | false => rw [h.stays hwas, hwas] at hopen; cases hopen

theorem goes_of_open (hopen : l.place.isOpen = true) (hopen' : l'.place.isOpen = true)
    (hdialed : l'.dialedAt = l.dialedAt) (husage : l.usage.Goes now l'.usage) :
    l.Goes now l' where
  dialedAt := hdialed
  stays h := by rw [hopen] at h; cases h
  closes _ h := by rw [hopen'] at h; cases h
  usage := husage

theorem goes_closed (hopen : l.place.isOpen = true) : l.Goes now (l.closed now) where
  dialedAt := rfl
  stays h := by rw [hopen] at h; cases h
  closes _ _ := rfl
  usage := .same

theorem goes_used (husage : l.usage.Goes now l'.usage) (hplace : l'.place = l.place)
    (hdialed : l'.dialedAt = l.dialedAt) : l.Goes now l' where
  dialedAt := hdialed
  stays _ := hplace
  closes h h' := by rw [hplace, h] at h'; cases h'
  usage := husage

end Link

namespace Destination

variable {s s' : Destination} {i j n : Nat} {l l' : Link} {r : ConnRecord}

theorem Step.now_le (h : Step s s') : s.now ≤ s'.now := by
  cases h with
  | passed h => exact h
  | _ => exact Int.le_refl _

theorem Step.length_le (h : Step s s') : s.links.length ≤ s'.links.length := by
  cases h with
  | dialing _ _ _ => simp
  | _ => simp

/-- Only dialing adds a connection. -/
theorem Step.links_cases (h : Step s s') :
    s'.links.length = s.links.length ∨ ∃ i, s'.links = s.links ++ [.dialing i s'.now] := by
  cases h with
  | dialing _ _ _ => exact Or.inr ⟨_, rfl⟩
  | _ => exact Or.inl (by simp)

theorem link_of_set {links : List Link} {now : Instant} {m : Nat} {before after : Link}
    (hbefore : links[m]? = some before) (hl : (links.set m after)[n]? = some l')
    (hgoes : before.Goes now after) : ∃ l, links[n]? = some l ∧ l.Goes now l' := by
  rcases set_cases hl with ⟨rfl, rfl⟩ | ⟨-, hl⟩
  · exact ⟨before, hbefore, hgoes⟩
  · exact ⟨l', hl, .refl _ _⟩

/-- A connection is either a new one that is being dialed, or it was there before. -/
theorem Step.link_cases (h : Step s s') (hp : Paired s.links s.visits)
    (hl : s'.links[n]? = some l') :
    n = s.links.length ∧ (∃ i, l' = .dialing i s.now) ∨
      ∃ l, s.links[n]? = some l ∧ l.Goes s.now l' := by
  cases h with
  | took _ _ hb hpool =>
    exact Or.inr (link_of_set hb hl (Link.goes_of_open (by rw [hpool]; rfl) rfl rfl .same))
  | dialing _ _ _ =>
    rcases concat_cases hl with ⟨rfl, rfl⟩ | hl
    · exact Or.inl ⟨rfl, _, rfl⟩
    · exact Or.inr ⟨l', hl, .refl _ _⟩
  | dialed _ _ hv hb =>
    have hopen := Place.isOpen_of_attempt? (hp.attempt?_eq hv hb rfl)
    exact Or.inr (link_of_set hb hl (Link.goes_of_open hopen rfl rfl .same))
  | wrote hb _ => exact Or.inr (link_of_set hb hl (Link.goes_used .wrote rfl rfl))
  | received hb => exact Or.inr (link_of_set hb hl (Link.goes_used .received rfl rfl))
  | released hv hb =>
    have hopen := Place.isOpen_of_attempt? (hp.attempt?_eq hv hb rfl)
    exact Or.inr (link_of_set hb hl (Link.goes_of_open hopen rfl rfl (.released _)))
  | closed hv hb =>
    have hopen := Place.isOpen_of_attempt? (hp.attempt?_eq hv hb rfl)
    exact Or.inr (link_of_set hb hl (Link.goes_closed hopen))
  | lost hb hpool =>
    exact Or.inr (link_of_set hb hl (Link.goes_closed (by rw [hpool]; rfl)))
  | broke hv hn hb =>
    have hopen := Place.isOpen_of_attempt? (hp.attempt?_eq hv hb hn)
    exact Or.inr (link_of_set hb hl (Link.goes_closed hopen))
  | _ => exact Or.inr ⟨l', hl, .refl _ _⟩

theorem Step.exists_link (h : Step s s') (hp : Paired s.links s.visits)
    (hl : s.links[n]? = some l) : ∃ l', s'.links[n]? = some l' ∧ l.Goes s.now l' := by
  have hlt := lt_length_of_getElem? hl
  have hlt' := Nat.lt_of_lt_of_le hlt h.length_le
  obtain ⟨l', hl'⟩ : ∃ l', s'.links[n]? = some l' := ⟨_, List.getElem?_eq_getElem hlt'⟩
  rcases h.link_cases hp hl' with ⟨rfl, -⟩ | ⟨before, hbefore, hgoes⟩
  · exact absurd hlt (Nat.lt_irrefl _)
  · rw [hl] at hbefore
    cases hbefore
    exact ⟨l', hl', hgoes⟩

/-! ## Attempts -/

/-- What an attempt tells is what it told before, or what the step made it tell. -/
theorem told_of_set {β : Type} {f : Stage → Option β} {visits : List Visit} {j : Nat}
    {v v' : Visit} {b : β} (hv : visits[j]? = some v)
    (hb : told (visits.set j v') f i = some b)
    (hcase : f v'.stage = none ∨ f v'.stage = f v.stage) : told visits f i = some b := by
  rw [told_set hv] at hb
  split at hb
  · rename_i hj
    rcases hcase with hnone | hsame
    · rw [hnone] at hb
      cases hb
    · rw [hj, told_eq hv, ← hsame, hb]
  · exact hb

/-- A record is made from the lease of the connection when the head of the answer comes. -/
theorem Step.record_cases (h : Step s s')
    (hr : told s'.visits Stage.record? i = some (n, r)) :
    told s.visits Stage.record? i = some (n, r) ∨
      ∃ t l lease, s.visits[i]? = some ⟨t, .sending n⟩ ∧ s.links[n]? = some l ∧
        l.usage.current? = some lease ∧ r = .classify s.host t lease l.timings ∧
          s'.links = s.links := by
  cases h with
  | asked => exact Or.inl ((told_ask _ _ rfl _).symm.trans hr)
  | joined hv => exact Or.inl (told_of_set hv hr (.inl rfl))
  | took hv _ _ _ => exact Or.inl (told_of_set hv hr (.inl rfl))
  | dialing hv _ _ => exact Or.inl (told_of_set hv hr (.inl rfl))
  | dialed _ _ hv _ => exact Or.inl (told_of_set hv hr (.inl rfl))
  | @headed j t m l lease hv hl hlease _ =>
    rw [told_set hv] at hr
    split at hr
    · rename_i hj
      cases hr
      exact Or.inr ⟨t, l, lease, by rw [hj, hv], hl, hlease, rfl, rfl⟩
    · exact Or.inl hr
  | released hv _ => exact Or.inl (told_of_set hv hr (.inr rfl))
  | closed hv _ => exact Or.inl (told_of_set hv hr (.inr rfl))
  | left hv => exact Or.inl (told_of_set hv hr (.inr rfl))
  | withdrew hv => exact Or.inl (told_of_set hv hr (.inl rfl))
  | broke hv _ _ => exact Or.inl (told_of_set hv hr (.inl rfl))
  | _ => exact Or.inl hr

/-- An attempt that finishes gives its connection back, or closes it. -/
theorem Step.finished_cases (h : Step s s')
    (hr : told s'.visits Stage.finished? i = some (n, r)) :
    told s.visits Stage.finished? i = some (n, r) ∨
      ∃ t l l' lease, s.visits[i]? = some ⟨t, .reading n lease r⟩ ∧ s.links[n]? = some l ∧
        s'.links[n]? = some l' ∧ (l'.place.isOpen = true →
          l'.usage = (l.usage.released lease.obtainedAt s.now).1) := by
  cases h with
  | asked => exact Or.inl ((told_ask _ _ rfl _).symm.trans hr)
  | joined hv => exact Or.inl (told_of_set hv hr (.inl rfl))
  | took hv _ _ _ => exact Or.inl (told_of_set hv hr (.inl rfl))
  | dialing hv _ _ => exact Or.inl (told_of_set hv hr (.inl rfl))
  | dialed _ _ hv _ => exact Or.inl (told_of_set hv hr (.inl rfl))
  | headed hv _ _ _ => exact Or.inl (told_of_set hv hr (.inl rfl))
  | released hv hl =>
    rw [told_set hv] at hr
    split at hr
    · rename_i hj
      cases hr
      refine Or.inr ⟨_, _, _, _, hj ▸ hv, hl, List.getElem?_set_self (lt_length_of_getElem? hl), ?_⟩
      exact fun _ => rfl
    · exact Or.inl hr
  | closed hv hl =>
    rw [told_set hv] at hr
    split at hr
    · rename_i hj
      cases hr
      refine Or.inr ⟨_, _, _, _, hj ▸ hv, hl, List.getElem?_set_self (lt_length_of_getElem? hl), ?_⟩
      exact nofun
    · exact Or.inl hr
  | left hv => exact Or.inl (told_of_set hv hr (.inr rfl))
  | withdrew hv => exact Or.inl (told_of_set hv hr (.inl rfl))
  | broke hv _ _ => exact Or.inl (told_of_set hv hr (.inl rfl))
  | _ => exact Or.inl hr

/-- A connection that an attempt comes by is a new one or open. -/
theorem Step.lastLink_cases (h : Step s s')
    (hn : told s'.visits Stage.lastLink? i = some n) :
    told s.visits Stage.lastLink? i = some n ∨ n = s.links.length ∧ n < s'.links.length ∨
      ∃ l, s.links[n]? = some l ∧ l.place.isOpen = true := by
  cases h with
  | asked => exact Or.inl ((told_ask _ _ rfl _).symm.trans hn)
  | joined hv => exact Or.inl (told_of_set hv hn (.inl rfl))
  | took hv _ hl hpool =>
    rw [told_set hv] at hn
    split at hn
    · cases hn
      exact Or.inr (Or.inr ⟨_, hl, by rw [hpool]; rfl⟩)
    · exact Or.inl hn
  | dialing hv _ _ =>
    rw [told_set hv] at hn
    split at hn
    · cases hn
      exact Or.inr (Or.inl ⟨rfl, by simp⟩)
    · exact Or.inl hn
  | dialed _ _ hv _ => exact Or.inl (told_of_set hv hn (.inr rfl))
  | headed hv _ _ _ => exact Or.inl (told_of_set hv hn (.inr rfl))
  | released hv _ => exact Or.inl (told_of_set hv hn (.inr rfl))
  | closed hv _ => exact Or.inl (told_of_set hv hn (.inr rfl))
  | left hv => exact Or.inl (told_of_set hv hn (.inr rfl))
  | withdrew hv => exact Or.inl (told_of_set hv hn (.inl rfl))
  | broke hv _ _ => exact Or.inl (told_of_set hv hn (.inl rfl))
  | _ => exact Or.inl hn

theorem visit_of_set {visits : List Visit} {v' w w' : Visit} (hw : visits[j]? = some w)
    (hv : (visits.set j w')[i]? = some v') (hsame : w'.requestedAt = w.requestedAt) :
    ∃ v, visits[i]? = some v ∧ v'.requestedAt = v.requestedAt := by
  rcases set_cases hv with ⟨rfl, rfl⟩ | ⟨-, hv⟩
  · exact ⟨w, hw, hsame⟩
  · exact ⟨v', hv, rfl⟩

/-- An attempt asks now, or it has asked before. -/
theorem Step.visit_cases (h : Step s s') {v' : Visit} (hv : s'.visits[i]? = some v') :
    i = s.visits.length ∧ v'.requestedAt = s.now ∨
      ∃ v, s.visits[i]? = some v ∧ v'.requestedAt = v.requestedAt := by
  cases h with
  | asked =>
    rcases concat_cases hv with ⟨rfl, rfl⟩ | hv
    · exact Or.inl ⟨rfl, rfl⟩
    · exact Or.inr ⟨v', hv, rfl⟩
  | joined hw => exact Or.inr (visit_of_set hw hv rfl)
  | took hw _ _ _ => exact Or.inr (visit_of_set hw hv rfl)
  | dialing hw _ _ => exact Or.inr (visit_of_set hw hv rfl)
  | dialed _ _ hw _ => exact Or.inr (visit_of_set hw hv rfl)
  | headed hw _ _ _ => exact Or.inr (visit_of_set hw hv rfl)
  | released hw _ => exact Or.inr (visit_of_set hw hv rfl)
  | closed hw _ => exact Or.inr (visit_of_set hw hv rfl)
  | left hw => exact Or.inr (visit_of_set hw hv rfl)
  | withdrew hw => exact Or.inr (visit_of_set hw hv rfl)
  | broke hw _ _ => exact Or.inr (visit_of_set hw hv rfl)
  | _ => exact Or.inr ⟨v', hv, rfl⟩

theorem Step.exists_visit (h : Step s s') {v : Visit} (hv : s.visits[i]? = some v) :
    ∃ v', s'.visits[i]? = some v' ∧ v'.requestedAt = v.requestedAt := by
  have hlength : s.visits.length ≤ s'.visits.length := by cases h <;> simp
  have hlt := lt_length_of_getElem? hv
  obtain ⟨v', hv'⟩ : ∃ v', s'.visits[i]? = some v' :=
    ⟨_, List.getElem?_eq_getElem (Nat.lt_of_lt_of_le hlt hlength)⟩
  rcases h.visit_cases hv' with ⟨rfl, -⟩ | ⟨before, hbefore, hsame⟩
  · exact absurd hlt (Nat.lt_irrefl _)
  · rw [hv] at hbefore
    cases hbefore
    exact ⟨v', hv', hsame⟩

end Destination

end ServiceCall
