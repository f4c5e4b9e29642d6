import ServiceCall.Pool.Traffic
import ServiceCall.Proofs.Pool.Prompt

/-!
# The books on attempts

The gauge of attempts in flight, the permits and the list of attempts are kept apart from each
other. They agree with any list that says which attempts there are, where each one goes and how
far it has come, as long as each change of the one is made to the other.
-/

namespace ServiceCall

/-! ## Tickets -/

namespace Permits

/-- The requests that hold a permit for a destination or wait for one. -/
def tickets (p : Permits) (key : String) : List (Nat × Ticket) :=
  (p.queues.filter (·.key = key)).flatMap (·.tickets)

def ids (p : Permits) (key : String) : List Nat := (p.tickets key).map (·.1)

theorem ids_eq (p : Permits) (key : String) :
    p.ids key = (p.queues.filter (·.key = key)).flatMap (·.ids) := by
  rw [ids, tickets, List.map_flatMap]
  rfl

theorem mem_tickets {p : Permits} {key : String} {ticket : Nat × Ticket} :
    ticket ∈ p.tickets key ↔ ∃ q ∈ p.queues, q.key = key ∧ ticket ∈ q.tickets := by
  simp [tickets, and_assoc]

end Permits

namespace Queue

/-- A permit that is held stays with its request when another one leaves. -/
theorem granted_mem_leave {q : Queue} {id other : Nat} (h : (id, .granted) ∈ q.tickets)
    (hne : id ≠ other) : (id, .granted) ∈ (q.leave other).tickets := by
  have hkept : (id, Ticket.granted) ∈ q.tickets.filter (·.1 ≠ other) := by
    simpa [hne] using h
  unfold leave
  split
  · exact h
  · dsimp only
    split
    · unfold putBack
      rcases grantFirst_cases (q.tickets.filter (·.1 ≠ other)) with ⟨hnone, -⟩ |
        ⟨before, first, after, htickets, -, hsome⟩
      · simp only [hnone]
        exact hkept
      · simp only [hsome]
        rw [htickets] at hkept
        simp only [List.mem_append, List.mem_cons, Prod.mk.injEq, reduceCtorEq, and_false,
          false_or] at hkept ⊢
        tauto
    · exact hkept

theorem mem_join {q : Queue} {ticket : Nat × Ticket} (h : ticket ∈ q.tickets) (id : Nat) :
    ticket ∈ (q.join id).tickets := by
  unfold join
  split <;> exact List.mem_append_left _ h

end Queue

namespace Permits

/-! ## Tickets of one destination -/

section

variable {p : Permits} {limit : Nat}

theorem filter_key {queues : List Queue} (hkeys : (queues.map (·.key)).Nodup) {q : Queue}
    (hq : q ∈ queues) : queues.filter (·.key = q.key) = [q] := by
  have hsame : queues.filter (·.key = q.key) = queues.filter (· = q) := by
    refine List.filter_congr fun q' hq' => ?_
    simp only [decide_eq_decide]
    exact ⟨fun hkey => List.inj_on_of_nodup_map hkeys hq' hq hkey, congrArg Queue.key⟩
  rw [hsame]
  refine (List.filter_beq q).trans ?_
  rw [List.count_eq_one_of_mem hkeys.of_map hq, List.replicate_one]

theorem Reached.tickets_eq (h : p.Reached limit) {q : Queue} (hq : q ∈ p.queues) :
    p.tickets q.key = q.tickets := by
  rw [tickets, filter_key h.balanced.2 hq, List.flatMap_singleton]

/-- Only destinations that nobody is at get forgotten. -/
theorem tickets_withKey (p : Permits) (key key' : String) :
    ((p.withKey key).filter (·.key = key')).flatMap (·.tickets) = p.tickets key' := by
  unfold withKey tickets
  split
  · rfl
  · have hnew : ([⟨key, p.limit, []⟩].filter fun q : Queue => q.key = key').flatMap
        (·.tickets) = [] := by
      by_cases hkey : key = key' <;> simp [hkey]
    rw [List.filter_append, List.flatMap_append, hnew, List.append_nil]
    induction p.queues with
    | nil => rfl
    | cons q qs ih =>
      rw [List.filter_filter] at ih ⊢
      by_cases hkey : q.key = key'
      · cases hidle : q.isIdle with
        | true =>
          have hnone : q.tickets = [] := List.isEmpty_iff.mp hidle
          simp [hidle, hkey, hnone, ih]
        | false => simp [hidle, hkey, ih]
      · simp [hkey, ih]

theorem exists_mem_withKey (p : Permits) (key : String) : ∃ q ∈ p.withKey key, q.key = key := by
  unfold withKey
  split
  · rename_i hany
    simpa using hany
  · exact ⟨_, List.mem_append_right _ (List.mem_singleton_self _), rfl⟩

theorem tickets_acquire_of_ne (p : Permits) {key key' : String} (hne : Text.lower key ≠ key')
    (id : Nat) : (p.acquire key id).tickets key' = p.tickets key' := by
  rw [← tickets_withKey p (Text.lower key) key']
  unfold acquire tickets
  dsimp only
  induction p.withKey (Text.lower key) with
  | nil => rfl
  | cons q qs ih =>
    rw [List.map_cons, List.filter_cons, List.filter_cons]
    by_cases hkey : q.key = Text.lower key
    · simp [hkey, hne, ih]
    · by_cases hkey' : q.key = key' <;> simp [hkey, hkey', hne.symm, ih]

theorem Reached.limit_eq (h : p.Reached limit) : p.limit = limit := by
  induction h with
  | new => rfl
  | acquired _ _ _ _ ih => exact ih
  | dropped _ _ ih => exact ih

/-- A request that asks comes last at its destination. -/
theorem Reached.tickets_acquire (h : p.Reached limit) (key : String) {id : Nat}
    (hid : p.ticket? id = none) :
    ∃ ticket, (p.acquire key id).tickets (Text.lower key) =
      p.tickets (Text.lower key) ++ [(id, ticket)] := by
  have hacquired := h.acquired key id hid
  have hkeys : ((p.acquire key id).queues.map (·.key)) =
      (p.withKey (Text.lower key)).map (·.key) := by
    simp only [acquire, List.map_map]
    refine List.map_congr_left fun q _ => ?_
    simp only [Function.comp_apply]
    split <;> simp
  have hnodup := hacquired.balanced.2
  rw [hkeys] at hnodup
  obtain ⟨q, hq, hkey⟩ := p.exists_mem_withKey (Text.lower key)
  have hbefore := p.tickets_withKey (Text.lower key) q.key
  rw [filter_key hnodup hq, List.flatMap_singleton, hkey] at hbefore
  have hmem : q.join id ∈ (p.acquire key id).queues :=
    List.mem_map.mpr ⟨q, hq, if_pos hkey⟩
  have hafter := hacquired.tickets_eq hmem
  rw [Queue.key_join, hkey] at hafter
  rw [hafter, ← hbefore]
  unfold Queue.join
  split
  · exact ⟨.granted, rfl⟩
  · exact ⟨.waiting, rfl⟩

@[simp] theorem ids_drop (p : Permits) (id : Nat) (key : String) :
    (p.drop id).ids key = (p.ids key).filter (· ≠ id) := by
  simp only [ids_eq, drop, List.filter_map, Function.comp_def, Queue.key_leave, List.flatMap_map,
    Queue.ids_leave, List.filter_flatMap]

theorem granted_mem_drop {id other : Nat} {key : String} (h : (id, .granted) ∈ p.tickets key)
    (hne : id ≠ other) : (id, .granted) ∈ (p.drop other).tickets key := by
  obtain ⟨q, hq, hkey, hticket⟩ := mem_tickets.mp h
  refine mem_tickets.mpr ⟨q.leave other, List.mem_map_of_mem hq, ?_, ?_⟩
  · rw [Queue.key_leave, hkey]
  · exact Queue.granted_mem_leave hticket hne

end

end Permits

/-! ## A roster of the attempts -/

/-- An attempt that has not ended. -/
structure Standing where
  id : Nat
  key : String
  progress : Progress

namespace Traffic

/-- What is kept on the attempts agrees with the roster. -/
structure Tracks (t : Traffic) (limit : Nat) (roster : List Standing) : Prop where
  nodup : (roster.map (·.id)).Nodup
  attempts : t.attempts.Perm (roster.map fun x => (x.id, x.progress))
  inFlight : t.gauges.inFlight = roster.countP (·.progress ≠ .queued)
  reached : t.permits.Reached limit
  ids : ∀ key, (t.permits.ids key).Perm
    ((roster.filter fun x => x.key = key ∧ x.progress ≠ .answered).map (·.id))
  granted : ∀ x ∈ roster, x.progress = .inFlight → (x.id, .granted) ∈ t.permits.tickets x.key

section

variable {t : Traffic} {limit : Nat} {roster rest : List Standing} {id : Nat} {key : String}
  {progress : Progress}

theorem tracks_quiet (cooldown : Cooldown) (limit : Nat) :
    (Traffic.quiet cooldown limit).Tracks limit [] where
  nodup := List.nodup_nil
  attempts := .nil
  inFlight := rfl
  reached := .new
  ids _ := .nil
  granted := by simp

theorem Tracks.perm (h : t.Tracks limit roster) (hperm : roster.Perm rest) :
    t.Tracks limit rest where
  nodup := (hperm.map _).nodup h.nodup
  attempts := h.attempts.trans (hperm.map _)
  inFlight := h.inFlight.trans (congrArg Int.ofNat (hperm.countP_eq _))
  reached := h.reached
  ids key := (h.ids key).trans ((hperm.filter _).map _)
  granted x hx := h.granted x (hperm.mem_iff.mpr hx)

theorem Tracks.progress?_eq (h : t.Tracks limit roster) {x : Standing} (hx : x ∈ roster) :
    t.progress? x.id = some x.progress := by
  have hkeys : (t.attempts.map (·.1)).Nodup := by
    refine (h.attempts.map _).nodup_iff.mpr ?_
    rw [List.map_map]
    exact h.nodup
  have hmem : (x.id, x.progress) ∈ t.attempts :=
    h.attempts.mem_iff.mpr (List.mem_map_of_mem hx)
  obtain ⟨before, after, heq⟩ := List.append_of_mem hmem
  refine List.lookup_eq_some_iff.mpr ⟨before, after, heq, fun y hy => bne_iff_ne.mpr ?_⟩
  simp only [heq, List.map_append, List.map_cons, List.nodup_append] at hkeys
  exact (hkeys.2.2 _ (List.mem_map_of_mem hy) _ (List.mem_cons_self ..)).symm

theorem Tracks.mem_ids (h : t.Tracks limit roster) :
    id ∈ t.permits.ids key ↔
      ∃ x ∈ roster, x.id = id ∧ x.key = key ∧ x.progress ≠ .answered := by
  rw [(h.ids key).mem_iff]
  simp only [List.mem_map, List.mem_filter, decide_eq_true_eq]
  tauto

theorem Tracks.not_mem_of_new (h : t.Tracks limit roster) (hid : t.progress? id = none) :
    ∀ x ∈ roster, x.id ≠ id := by
  rintro x hx rfl
  rw [h.progress?_eq hx] at hid
  cases hid

theorem Tracks.ticket?_of_new (h : t.Tracks limit roster) (hid : ∀ x ∈ roster, x.id ≠ id) :
    t.permits.ticket? id = none := by
  refine List.findSome?_eq_none_iff.mpr fun q hq => List.lookup_eq_none_iff.mpr ?_
  intro ticket hticket
  rw [bne_iff_ne]
  rintro rfl
  have hmem : ticket.1 ∈ t.permits.ids q.key :=
    List.mem_map_of_mem (Permits.mem_tickets.mpr ⟨q, hq, rfl, hticket⟩)
  obtain ⟨x, hx, hxid, -⟩ := h.mem_ids.mp hmem
  exact hid x hx hxid

/-! ## What an attempt does to the books -/

theorem Tracks.ask (h : t.Tracks limit rest) (hid : t.progress? id = none) (key : String) :
    (t.ask id key).Tracks limit (⟨id, Text.lower key, .queued⟩ :: rest) where
  nodup := by
    refine List.nodup_cons.mpr ⟨?_, h.nodup⟩
    rw [List.mem_map]
    rintro ⟨x, hx, hxid⟩
    exact h.not_mem_of_new hid x hx hxid
  attempts := (List.perm_append_singleton _ _).trans (h.attempts.cons _)
  inFlight := by
    rw [List.countP_cons_of_neg (by simp)]
    exact h.inFlight
  reached := h.reached.acquired key id (h.ticket?_of_new (h.not_mem_of_new hid))
  ids key' := by
    have hticket := h.ticket?_of_new (h.not_mem_of_new hid)
    by_cases hkey : Text.lower key = key'
    · subst hkey
      obtain ⟨ticket, htickets⟩ := h.reached.tickets_acquire key hticket
      have hids : (t.ask id key).permits.ids (Text.lower key) =
          t.permits.ids (Text.lower key) ++ [id] := by
        simp only [Permits.ids, Traffic.ask, htickets, List.map_append, List.map_cons,
          List.map_nil]
      rw [hids, List.filter_cons_of_pos (by simp)]
      exact (List.perm_append_singleton _ _).trans ((h.ids _).cons _)
    · have hids : (t.ask id key).permits.ids key' = t.permits.ids key' := by
        simp only [Permits.ids, Traffic.ask, Permits.tickets_acquire_of_ne _ hkey]
      rw [hids, List.filter_cons_of_neg (by simp [hkey])]
      exact h.ids key'
  granted := by
    intro x hx hprogress
    rcases List.mem_cons.mp hx with rfl | hx
    · cases hprogress
    · have hold := h.granted x hx hprogress
      by_cases hkey : Text.lower key = x.key
      · obtain ⟨ticket, htickets⟩ := h.reached.tickets_acquire key
          (h.ticket?_of_new (h.not_mem_of_new hid))
        rw [hkey] at htickets
        simp only [Traffic.ask, htickets, List.mem_append, hold, true_or]
      · simpa only [Traffic.ask, Permits.tickets_acquire_of_ne _ hkey] using hold

theorem Tracks.others (h : t.Tracks limit (⟨id, key, progress⟩ :: rest)) :
    ∀ x ∈ rest, x.id ≠ id := by
  intro x hx hid
  exact (List.nodup_cons.mp h.nodup).1 (List.mem_map.mpr ⟨x, hx, hid⟩)

theorem Tracks.setProgress (h : t.Tracks limit (⟨id, key, progress⟩ :: rest))
    (progress' : Progress) : (t.setProgress id progress').attempts.Perm
      ((⟨id, key, progress'⟩ :: rest).map fun x => (x.id, x.progress)) := by
  refine (h.attempts.map _).trans (.of_eq ?_)
  rw [List.map_map, List.map_cons, List.map_cons]
  refine congrArg₂ _ (if_pos rfl) (List.map_congr_left fun x hx => ?_)
  exact if_neg (h.others x hx)

/-- A permit that was granted is at the destination that the attempt is at. -/
theorem Tracks.mem_tickets (h : t.Tracks limit (⟨id, key, progress⟩ :: rest))
    (hgranted : t.isGranted id = true) : (id, .granted) ∈ t.permits.tickets key := by
  rw [Traffic.isGranted, decide_eq_true_eq, Permits.ticket?] at hgranted
  obtain ⟨q, hq, hlookup⟩ := List.exists_of_findSome?_eq_some hgranted
  obtain ⟨before, after, heq, -⟩ := List.lookup_eq_some_iff.mp hlookup
  have hticket : (id, .granted) ∈ t.permits.tickets q.key :=
    Permits.mem_tickets.mpr ⟨q, hq, rfl, heq ▸ List.mem_append_right _ (List.mem_cons_self ..)⟩
  obtain ⟨x, hx, hxid, hxkey, -⟩ := h.mem_ids.mp (List.mem_map_of_mem hticket)
  rcases List.mem_cons.mp hx with rfl | hx
  · rwa [← hxkey] at hticket
  · exact absurd hxid (h.others x hx)

theorem Tracks.ids_drop (h : t.Tracks limit (⟨id, key, progress⟩ :: rest)) (key' : String) :
    ((t.permits.drop id).ids key').Perm
      ((rest.filter fun x => x.key = key' ∧ x.progress ≠ .answered).map (·.id)) := by
  rw [Permits.ids_drop]
  refine ((h.ids key').filter _).trans (.of_eq ?_)
  have hrest : ((rest.filter fun x => x.key = key' ∧ x.progress ≠ .answered).map (·.id)).filter
      (· ≠ id) = (rest.filter fun x => x.key = key' ∧ x.progress ≠ .answered).map (·.id) := by
    refine List.filter_eq_self.mpr fun n hn => ?_
    obtain ⟨x, hx, rfl⟩ := List.mem_map.mp hn
    simpa using h.others x (List.mem_filter.mp hx).1
  rw [List.filter_cons]
  split
  · rw [List.map_cons, List.filter_cons_of_neg (by simp), hrest]
  · exact hrest

theorem Tracks.granted_drop (h : t.Tracks limit (⟨id, key, progress⟩ :: rest)) {x : Standing}
    (hx : x ∈ rest) (hprogress : x.progress = .inFlight) :
    (x.id, .granted) ∈ (t.permits.drop id).tickets x.key :=
  Permits.granted_mem_drop (h.granted x (List.mem_cons_of_mem _ hx) hprogress) (h.others x hx)

theorem Tracks.send (h : t.Tracks limit (⟨id, key, .queued⟩ :: rest))
    (hgranted : t.isGranted id = true) :
    (t.send id).Tracks limit (⟨id, key, .inFlight⟩ :: rest) where
  nodup := h.nodup
  attempts := h.setProgress .inFlight
  inFlight := by
    have hold := h.inFlight
    rw [List.countP_cons_of_neg (by simp)] at hold
    rw [List.countP_cons_of_pos (by simp)]
    simp only [Traffic.send, Gauges.enter]
    omega
  reached := h.reached
  ids key' := by
    have hold := h.ids key'
    by_cases hkey : key = key'
    · rwa [List.filter_cons_of_pos (by simp [hkey])] at hold ⊢
    · rwa [List.filter_cons_of_neg (by simp [hkey])] at hold ⊢
  granted x hx hprogress := by
    rcases List.mem_cons.mp hx with rfl | hx
    · exact h.mem_tickets hgranted
    · exact h.granted x (List.mem_cons_of_mem _ hx) hprogress

theorem Tracks.answered (h : t.Tracks limit (⟨id, key, .inFlight⟩ :: rest)) :
    (t.answered id).Tracks limit (⟨id, key, .answered⟩ :: rest) where
  nodup := h.nodup
  attempts := h.setProgress .answered
  inFlight := by
    have hold := h.inFlight
    rwa [List.countP_cons_of_pos (by simp)] at hold ⊢
  reached := h.reached.dropped id
  ids key' := by
    rw [List.filter_cons_of_neg (by simp)]
    exact h.ids_drop key'
  granted x hx hprogress := by
    rcases List.mem_cons.mp hx with rfl | hx
    · cases hprogress
    · exact h.granted_drop hx hprogress

theorem Tracks.finish (h : t.Tracks limit (⟨id, key, progress⟩ :: rest)) :
    (t.finish id).Tracks limit rest := by
  have hprogress : t.progress? id = some progress := h.progress?_eq (List.mem_cons_self ..)
  have hattempts : (t.attempts.filter fun x => x.1 ≠ id).Perm
      (rest.map fun x => (x.id, x.progress)) := by
    refine (h.attempts.filter _).trans (.of_eq ?_)
    rw [List.map_cons, List.filter_cons_of_neg (by simp)]
    refine List.filter_eq_self.mpr fun y hy => ?_
    obtain ⟨x, hx, rfl⟩ := List.mem_map.mp hy
    simpa using h.others x hx
  have hgauge : (if progress = .queued then t.gauges else t.gauges.leave).inFlight =
      rest.countP (·.progress ≠ .queued) := by
    have hold := h.inFlight
    split
    · rename_i hqueued
      rwa [List.countP_cons_of_neg (by simp [hqueued])] at hold
    · rename_i hqueued
      rw [List.countP_cons_of_pos (by simp [hqueued])] at hold
      simp only [Gauges.leave]
      omega
  unfold Traffic.finish
  simp only [hprogress]
  exact {
    nodup := (List.nodup_cons.mp h.nodup).2
    attempts := hattempts
    inFlight := hgauge
    reached := h.reached.dropped id
    ids := h.ids_drop
    granted := fun x hx => h.granted_drop hx }

/-! ## The sums -/

/-- The permits for a destination that attempts have in hand. -/
def out (t : Traffic) (key : String) : Nat :=
  (t.permits.tickets key).countP fun x => x.2 = .granted ∧ t.progress? x.1 ≠ some .queued

/-- The permits for a destination that are set aside for attempts which still wait. -/
def reserved (t : Traffic) (key : String) : Nat :=
  (t.permits.tickets key).countP fun x => x.2 = .granted ∧ t.progress? x.1 = some .queued

theorem Tracks.ids_nodup (h : t.Tracks limit roster) (key : String) :
    (t.permits.ids key).Nodup :=
  (h.ids key).nodup_iff.mpr (h.nodup.sublist (List.filter_sublist.map _))

theorem Tracks.out_eq (h : t.Tracks limit roster) (key : String) :
    t.out key = roster.countP fun x => x.key = key ∧ x.progress = .inFlight := by
  -- The tickets and the attempts are the same ones, by their numbers.
  have hperm : (((t.permits.tickets key).filter fun x =>
        x.2 = .granted ∧ t.progress? x.1 ≠ some .queued).map (·.1)).Perm
      ((roster.filter fun x => x.key = key ∧ x.progress = .inFlight).map (·.id)) := by
    refine (List.perm_ext_iff_of_nodup ((h.ids_nodup key).sublist (List.filter_sublist.map _))
      (h.nodup.sublist (List.filter_sublist.map _))).mpr fun n => ?_
    simp only [List.mem_map, List.mem_filter, decide_eq_true_eq]
    constructor
    · rintro ⟨⟨n, ticket⟩, ⟨hticket, -, hprogress⟩, rfl⟩
      obtain ⟨x, hx, rfl, hkey, hanswered⟩ := h.mem_ids.mp (List.mem_map_of_mem hticket)
      rw [h.progress?_eq hx] at hprogress
      refine ⟨x, ⟨hx, hkey, ?_⟩, rfl⟩
      cases hp : x.progress <;> simp_all
    · rintro ⟨x, ⟨hx, rfl, hprogress⟩, rfl⟩
      refine ⟨(x.id, .granted), ⟨h.granted x hx hprogress, rfl, ?_⟩, rfl⟩
      rw [h.progress?_eq hx, hprogress]
      simp
  rw [out, List.countP_eq_length_filter, List.countP_eq_length_filter]
  simpa using hperm.length_eq

theorem out_add_reserved (t : Traffic) (key : String) :
    t.out key + t.reserved key = (t.permits.tickets key).countP (·.2 = .granted) := by
  unfold out reserved
  induction t.permits.tickets key with
  | nil => rfl
  | cons x xs ih =>
    simp only [List.countP_cons, decide_eq_true_eq, ne_eq] at ih ⊢
    by_cases hgranted : x.2 = .granted
    · by_cases hqueued : t.progress? x.1 = some .queued
      · simp only [hgranted, hqueued, not_true, and_true, and_false, if_true, if_false]
        omega
      · simp only [hgranted, hqueued, not_false_eq_true, and_true, and_false, if_true, if_false]
        omega
    · simpa only [hgranted, false_and, if_false, Nat.add_zero] using ih

/-- Every permit is free, set aside or in hand. -/
theorem Tracks.free_add (h : t.Tracks limit roster) {q : Queue} (hq : q ∈ t.permits.queues) :
    q.free + t.reserved q.key + t.out q.key = limit := by
  have hcount := (h.reached.balanced.1 q hq).count
  have hsum := t.out_add_reserved q.key
  rw [h.reached.tickets_eq hq] at hsum
  unfold Queue.granted at hcount
  omega

/-- No more permits are in hand than there are. -/
theorem Tracks.out_le (h : t.Tracks limit roster) (key : String) : t.out key ≤ limit := by
  by_cases hknown : ∃ q ∈ t.permits.queues, q.key = key
  · obtain ⟨q, hq, rfl⟩ := hknown
    have hsum := h.free_add hq
    omega
  · have hnone : t.permits.tickets key = [] := by
      rw [List.eq_nil_iff_forall_not_mem]
      intro ticket hticket
      obtain ⟨q, hq, hkey, -⟩ := Permits.mem_tickets.mp hticket
      exact hknown ⟨q, hq, hkey⟩
    simp [out, hnone]

theorem Tracks.free_of_nil (h : t.Tracks limit []) {key : String} {q : Queue}
    (hq : q ∈ t.permits.withKey key) : q.free = limit := by
  have hknown : ∀ q ∈ t.permits.queues, q.free = limit := by
    intro q hq
    have hnone : q.tickets = [] := by
      have hids := (h.ids q.key).eq_nil
      rw [← h.reached.tickets_eq hq]
      exact List.map_eq_nil_iff.mp hids
    have hcount := (h.reached.balanced.1 q hq).count
    simpa [Queue.granted, hnone] using hcount
  unfold Permits.withKey at hq
  split at hq
  · exact hknown q hq
  · rcases List.mem_append.mp hq with hq | hq
    · exact hknown q (List.mem_filter.mp hq).1
    · rw [List.mem_singleton.mp hq]
      exact h.reached.limit_eq

end

end Traffic

end ServiceCall
