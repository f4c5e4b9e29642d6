import ServiceCall.Proofs.Conn.Destination
import Mathlib.Data.Finset.Card

/-!
# As many connections as permits

A connection is dialed only while the pool is empty, so there are never more open connections
than permits.
-/

namespace ServiceCall.Destination

variable {limit : Nat} {s s' : Destination} {queue : Queue} {links : List Link}
  {visits : List Visit}

/-! ## Who has which connection -/

/-- The attempt that a connection is dialed for or lent to. -/
def holder? (links : List Link) (n : Nat) : Option Nat := links[n]?.bind (·.place.attempt?)

/-- The connection that an attempt waits for or has. -/
def held? (visits : List Visit) (i : Nat) : Option Nat := told visits Stage.link? i

theorem holder?_eq {n : Nat} {l : Link} (hl : links[n]? = some l) :
    holder? links n = l.place.attempt? := by
  rw [holder?, hl, Option.bind_some]

theorem held?_eq {i : Nat} {v : Visit} (hv : visits[i]? = some v) :
    held? visits i = v.stage.link? := told_eq hv _

theorem holder?_set {n : Nat} {l : Link} (hl : links[n]? = some l) (l' : Link) (m : Nat) :
    holder? (links.set n l') m = if m = n then l'.place.attempt? else holder? links m := by
  unfold holder?
  split
  · rename_i h
    rw [h, List.getElem?_set_self (lt_length_of_getElem? hl), Option.bind_some]
  · rename_i h
    rw [List.getElem?_set_ne (Ne.symm h)]

theorem held?_set {i : Nat} {v : Visit} (hv : visits[i]? = some v) (v' : Visit) (j : Nat) :
    held? (visits.set i v') j = if j = i then v'.stage.link? else held? visits j :=
  told_set hv v' _ j

theorem holder?_concat (links : List Link) (l : Link) (m : Nat) :
    holder? (links ++ [l]) m =
      if m = links.length then l.place.attempt? else holder? links m := by
  unfold holder?
  split
  · rename_i h
    rw [h, List.getElem?_concat_length, Option.bind_some]
  · rename_i h
    rcases Nat.lt_or_gt_of_ne h with hlt | hgt
    · rw [List.getElem?_append_left hlt]
    · rw [List.getElem?_eq_none (by simp; omega), List.getElem?_eq_none (by omega)]

/-- A connection is dialed for an attempt or lent to it exactly if this attempt waits for it or
has it. -/
def Paired (links : List Link) (visits : List Visit) : Prop :=
  ∀ i n, holder? links n = some i ↔ held? visits i = some n

namespace Paired

variable {i n : Nat} {v v' : Visit} {l l' : Link}

theorem attempt?_eq (h : Paired links visits) (hv : visits[i]? = some v) (hl : links[n]? = some l)
    (hheld : v.stage.link? = some n) : l.place.attempt? = some i :=
  (holder?_eq hl).symm.trans ((h i n).mpr ((held?_eq hv).trans hheld))

theorem exists_link (h : Paired links visits) (hn : held? visits i = some n) :
    ∃ l, links[n]? = some l ∧ l.place.attempt? = some i :=
  Option.bind_eq_some_iff.mp ((h i n).mpr hn)

/-- No connection is with two attempts. -/
theorem eq_of_held? {j : Nat} (h : Paired links visits) (hi : held? visits i = some n)
    (hj : held? visits j = some n) : i = j := by
  have hholder := (h i n).mpr hi
  rw [(h j n).mpr hj] at hholder
  exact (Option.some.inj hholder).symm

theorem setVisit (h : Paired links visits) (hv : visits[i]? = some v)
    (hsame : v'.stage.link? = v.stage.link?) : Paired links (visits.set i v') := by
  intro j m
  rw [held?_set hv, h j m]
  split
  · rename_i hj
    rw [hj, held?_eq hv, hsame]
  · rfl

theorem setLink (h : Paired links visits) (hl : links[n]? = some l)
    (hsame : l'.place.attempt? = l.place.attempt?) : Paired (links.set n l') visits := by
  intro j m
  rw [holder?_set hl, ← h j m]
  split
  · rename_i hm
    rw [hm, holder?_eq hl, hsame]
  · rfl

/-- An attempt without a connection gets a free one. -/
theorem join (h : Paired links visits) (hv : visits[i]? = some v) (hl : links[n]? = some l)
    (hfree : l.place.attempt? = none) (hnone : v.stage.link? = none)
    (hattempt : l'.place.attempt? = some i) (hlink : v'.stage.link? = some n) :
    Paired (links.set n l') (visits.set i v') := by
  intro j m
  have hn : holder? links n = none := (holder?_eq hl).trans hfree
  have hi : held? visits i = none := (held?_eq hv).trans hnone
  have hlone : held? visits j ≠ some n := fun hj => by rw [(h j n).mpr hj] at hn; cases hn
  have hidle : holder? links m ≠ some i := fun hm => by rw [(h i m).mp hm] at hi; cases hi
  have hall := h j m
  rw [holder?_set hl, held?_set hv, hattempt, hlink]
  grind

/-- An attempt gives its connection up. -/
theorem part (h : Paired links visits) (hv : visits[i]? = some v) (hl : links[n]? = some l)
    (hheld : v.stage.link? = some n) (hfree : l'.place.attempt? = none)
    (hnone : v'.stage.link? = none) : Paired (links.set n l') (visits.set i v') := by
  intro j m
  have hi : held? visits i = some n := (held?_eq hv).trans hheld
  have hn : holder? links n = some i := (holder?_eq hl).trans (h.attempt?_eq hv hl hheld)
  have hlone := h j n
  have hidle := h i m
  have hall := h j m
  rw [holder?_set hl, held?_set hv, hfree, hnone]
  grind

/-- A connection is dialed for an attempt that has none. -/
theorem dial (h : Paired links visits) (hv : visits[i]? = some v) (hnone : v.stage.link? = none)
    (hattempt : l'.place.attempt? = some i) (hlink : v'.stage.link? = some links.length) :
    Paired (links ++ [l']) (visits.set i v') := by
  intro j m
  have hi : held? visits i = none := (held?_eq hv).trans hnone
  have hn : holder? links links.length = none := by
    rw [holder?, List.getElem?_eq_none (Nat.le_refl _), Option.bind_none]
  have hlone := h j links.length
  have hidle := h i m
  have hall := h j m
  rw [holder?_concat, held?_set hv, hattempt, hlink]
  grind

end Paired

theorem paired_nil : Paired [] [] := fun _ _ => by simp [holder?, held?, told]

theorem Step.paired (h : Step s s') (hp : Paired s.links s.visits) : Paired s'.links s'.visits := by
  cases h with
  | passed _ => exact hp
  | asked =>
    intro i n
    rw [held?, told_ask _ _ rfl]
    exact hp i n
  | joined hv => exact hp.setVisit hv rfl
  | took hv _ hl hpool => exact hp.join hv hl (by rw [hpool]; rfl) rfl rfl rfl
  | dialing hv _ _ => exact hp.dial hv rfl rfl rfl
  | dialed _ _ hv hl =>
    have hattempt := hp.attempt?_eq hv hl rfl
    refine Paired.setVisit (hp.setLink hl ?_) hv rfl
    exact hattempt.symm
  | wrote hl _ => exact hp.setLink hl rfl
  | received hl => exact hp.setLink hl rfl
  | headed hv _ _ _ => exact hp.setVisit hv rfl
  | released hv hl => exact hp.part hv hl rfl rfl rfl
  | closed hv hl => exact hp.part hv hl rfl rfl rfl
  | left hv => exact hp.setVisit hv rfl
  | lost hl hpool => exact hp.setLink hl (by rw [hpool]; rfl)
  | withdrew hv => exact hp.setVisit hv rfl
  | broke hv hn hl => exact hp.part hv hl hn rfl rfl

/-! ## The number of open connections -/

/-- The connections that are not closed, those that are being dialed among them. -/
def openLinks (links : List Link) : Finset Nat :=
  (Finset.range links.length).filter fun n => links[n]?.any (·.place.isOpen) = true

theorem mem_openLinks {n : Nat} :
    n ∈ openLinks links ↔ ∃ l, links[n]? = some l ∧ l.place.isOpen = true := by
  rw [openLinks, Finset.mem_filter, Finset.mem_range, Option.any_eq_true]
  refine and_iff_right_of_imp ?_
  rintro ⟨l, hl, -⟩
  exact lt_length_of_getElem? hl

theorem openLinks_set {n : Nat} {l l' : Link} (hl : links[n]? = some l)
    (hopen : l'.place.isOpen = true → l.place.isOpen = true) :
    openLinks (links.set n l') ⊆ openLinks links := by
  intro m hm
  obtain ⟨k, hk, hkopen⟩ := mem_openLinks.mp hm
  rcases set_cases hk with ⟨rfl, rfl⟩ | ⟨-, hk⟩
  · exact mem_openLinks.mpr ⟨l, hl, hopen hkopen⟩
  · exact mem_openLinks.mpr ⟨k, hk, hkopen⟩

/-- The attempts that hold a permit. -/
def permitted (queue : Queue) : Finset Nat :=
  ((queue.tickets.filter (·.2 = .granted)).map (·.1)).toFinset

theorem Permitted.card_le (h : Permitted limit queue visits) : (permitted queue).card ≤ limit := by
  have hcard := List.toFinset_card_le ((queue.tickets.filter (·.2 = .granted)).map (·.1))
  have hcount := h.balanced.count
  rw [List.length_map, ← List.countP_eq_length_filter] at hcard
  rw [permitted]
  unfold Queue.granted at hcount
  omega

/-- If the pool is empty, each open connection belongs to an attempt with a permit of its own. -/
theorem card_openLinks_le (hpermit : Permitted limit queue visits) (hp : Paired links visits)
    (hpool : ∀ l ∈ links, l.place ≠ .pooled) : (openLinks links).card ≤ limit := by
  have hholder : ∀ n ∈ openLinks links, ∃ i, holder? links n = some i ∧ i ∈ permitted queue := by
    intro n hn
    obtain ⟨l, hl, hopen⟩ := mem_openLinks.mp hn
    obtain ⟨i, hi⟩ : ∃ i, l.place.attempt? = some i := by
      cases hplace : l.place with
      | dialing i => exact ⟨i, rfl⟩
      | lent i => exact ⟨i, rfl⟩
      | pooled => exact absurd hplace (hpool l (List.mem_of_getElem? hl))
      | closed t => rw [hplace] at hopen; cases hopen
    have hholder := (holder?_eq hl).trans hi
    obtain ⟨v, hv, hlink⟩ := Option.bind_eq_some_iff.mp ((hp i n).mp hholder)
    have hgranted := hpermit.granted i v hv (Stage.hasPermit_of_link? hlink)
    refine ⟨i, hholder, ?_⟩
    rw [permitted, List.mem_toFinset, List.mem_map]
    exact ⟨(i, .granted), List.mem_filter.mpr ⟨hgranted, by simp⟩, rfl⟩
  refine le_trans (Finset.card_le_card_of_injOn (fun n => (holder? links n).getD 0) ?_ ?_)
    hpermit.card_le
  · intro n hn
    obtain ⟨i, hi, hmem⟩ := hholder n hn
    simp only [Finset.mem_coe, hi]
    exact hmem
  · intro n hn m hm hsame
    obtain ⟨i, hi, -⟩ := hholder n hn
    obtain ⟨j, hj, -⟩ := hholder m hm
    simp only [hi, hj, Option.getD_some] at hsame
    have hboth := (hp i n).mp hi
    rw [hsame, (hp j m).mp hj] at hboth
    exact (Option.some.inj hboth).symm

structure Sound (limit : Nat) (s : Destination) : Prop where
  permitted : Permitted limit s.queue s.visits
  paired : Paired s.links s.visits
  few : (openLinks s.links).card ≤ limit

theorem sound_quiet (host key : String) (limit : Nat) (now : Instant) :
    Sound limit (quiet host key limit now) where
  permitted :=
    { balanced := Queue.balanced_new key limit
      nodup := List.nodup_nil
      known := by simp [quiet, Queue.ids]
      outside := by simp [quiet]
      granted := by simp [quiet] }
  paired := paired_nil
  few := by simp [quiet, openLinks]

/-- A connection is dialed only with an empty pool, so there are never more than permits. -/
theorem Step.sound (h : Step s s') (hs : Sound limit s) : Sound limit s' := by
  have hpermitted := h.permitted hs.permitted
  have hpaired := h.paired hs.paired
  refine ⟨hpermitted, hpaired, ?_⟩
  cases h with
  | passed _ => exact hs.few
  | asked => exact hs.few
  | joined _ => exact hs.few
  | took _ _ hl hp =>
    exact le_trans (Finset.card_le_card (openLinks_set hl fun _ => by rw [hp]; rfl)) hs.few
  | dialing _ _ hp =>
    refine card_openLinks_le hpermitted hpaired fun l hl => ?_
    rcases List.mem_append.mp hl with hl | hl
    · exact hp l hl
    · rw [List.mem_singleton.mp hl]
      exact nofun
  | dialed _ _ hv hl =>
    have hopen := Place.isOpen_of_attempt? (hs.paired.attempt?_eq hv hl rfl)
    exact le_trans (Finset.card_le_card (openLinks_set hl fun _ => hopen)) hs.few
  | wrote hl _ => exact le_trans (Finset.card_le_card (openLinks_set hl id)) hs.few
  | received hl => exact le_trans (Finset.card_le_card (openLinks_set hl id)) hs.few
  | headed _ _ _ _ => exact hs.few
  | released hv hl =>
    have hopen := Place.isOpen_of_attempt? (hs.paired.attempt?_eq hv hl rfl)
    exact le_trans (Finset.card_le_card (openLinks_set hl fun _ => hopen)) hs.few
  | closed _ hl => exact le_trans (Finset.card_le_card (openLinks_set hl nofun)) hs.few
  | left _ => exact hs.few
  | lost hl _ => exact le_trans (Finset.card_le_card (openLinks_set hl nofun)) hs.few
  | withdrew _ => exact hs.few
  | broke _ _ hl => exact le_trans (Finset.card_le_card (openLinks_set hl nofun)) hs.few

theorem Run.sound (h : Run s s') (hs : Sound limit s) : Sound limit s' := by
  induction h with
  | refl => exact hs
  | tail _ hstep ih => exact hstep.sound ih

end ServiceCall.Destination
