import ServiceCall.Pool.Permits
import Mathlib.Algebra.Ring.Nat
import Mathlib.Data.List.Nodup

/-!
# One queue of permits

What a request that joins or leaves does to the permits of its destination: none is lost, and
none is free while a request waits.
-/

namespace ServiceCall.Queue

/-- The requests that hold a permit or wait for one. -/
def ids (q : Queue) : List Nat := q.tickets.map (·.1)

theorem lookup_eq_none_iff {q : Queue} {id : Nat} :
    q.tickets.lookup id = none ↔ id ∉ q.ids := by
  simp only [List.lookup_eq_none_iff, ids, List.mem_map, not_exists, not_and, bne_iff_ne]
  exact forall₂_congr fun ticket _ => ne_comm

/-- The permits that are out. -/
def granted (q : Queue) : Nat := q.tickets.countP (·.2 = .granted)

/-- Every permit is free or out, and no request waits while one is free. -/
structure Balanced (limit : Nat) (q : Queue) : Prop where
  count : q.free + q.granted = limit
  full : ∀ id, (id, .waiting) ∈ q.tickets → q.free = 0

theorem balanced_new (key : String) (limit : Nat) : Balanced limit ⟨key, limit, []⟩ where
  count := rfl
  full _ h := nomatch h

/-! ## Giving a permit back -/

/-- The permit goes to the first request that waits. -/
theorem grantFirst_cases (tickets : List (Nat × Ticket)) :
    grantFirst tickets = none ∧ (∀ id, (id, .waiting) ∉ tickets) ∨
      ∃ before id after, tickets = before ++ (id, .waiting) :: after ∧
        (∀ id, (id, .waiting) ∉ before) ∧
        grantFirst tickets = some (before ++ (id, .granted) :: after) := by
  induction tickets with
  | nil => exact Or.inl ⟨rfl, by simp⟩
  | cons first rest ih =>
    rcases first with ⟨id, _ | _⟩
    · exact Or.inr ⟨[], id, rest, rfl, by simp, rfl⟩
    · rcases ih with ⟨hnone, hwait⟩ | ⟨before, id', after, rfl, hbefore, hsome⟩
      · exact Or.inl ⟨by simp [grantFirst, hnone], by simpa using hwait⟩
      · exact Or.inr ⟨(id, .granted) :: before, id', after, rfl, by simpa using hbefore,
          by simp [grantFirst, hsome]⟩

@[simp] theorem key_putBack (q : Queue) : q.putBack.key = q.key := by
  unfold putBack
  split <;> rfl

@[simp] theorem ids_putBack (q : Queue) : q.putBack.ids = q.ids := by
  unfold putBack
  rcases grantFirst_cases q.tickets with ⟨hnone, -⟩ | ⟨before, id, after, htickets, -, hsome⟩
  · rw [hnone]
    rfl
  · rw [hsome]
    simp [ids, htickets]

/-- One permit was neither free nor out, and now it is. -/
theorem balanced_putBack {q : Queue} {limit : Nat} (hcount : q.free + q.granted + 1 = limit)
    (hfull : ∀ id, (id, .waiting) ∈ q.tickets → q.free = 0) : q.putBack.Balanced limit := by
  unfold putBack
  rcases grantFirst_cases q.tickets with ⟨hnone, hwait⟩ | ⟨before, id, after, htickets, -, hsome⟩
  · rw [hnone]
    refine ⟨?_, fun id h => absurd h (hwait id)⟩
    rw [← hcount]
    exact Nat.add_right_comm ..
  · rw [hsome]
    refine ⟨?_, fun _ _ => hfull id (by simp [htickets])⟩
    simp only [granted, htickets, List.countP_append, List.countP_cons, decide_true,
      reduceCtorEq, decide_false, Bool.false_eq_true, if_true, if_false] at hcount ⊢
    omega

/-! ## Joining -/

@[simp] theorem key_join (q : Queue) (id : Nat) : (q.join id).key = q.key := by
  unfold join
  split <;> rfl

@[simp] theorem ids_join (q : Queue) (id : Nat) : (q.join id).ids = q.ids ++ [id] := by
  unfold join
  split <;> simp [ids]

theorem Balanced.join {q : Queue} {limit : Nat} (h : q.Balanced limit) (id : Nat) :
    (q.join id).Balanced limit := by
  have hcount := h.count
  unfold Queue.join
  split
  · rename_i hfree
    refine ⟨?_, ?_⟩
    · simp only [granted, List.countP_append, List.countP_singleton] at hcount ⊢
      simp only [decide_true, if_true]
      omega
    · intro id' hwait
      have hmem : (id', .waiting) ∈ q.tickets := by simpa using hwait
      have hnone := h.full id' hmem
      omega
  · rename_i hfree
    exact ⟨by simpa [granted] using hcount, fun _ _ => by simpa using hfree⟩

/-! ## Leaving -/

@[simp] theorem key_leave (q : Queue) (id : Nat) : (q.leave id).key = q.key := by
  unfold leave
  split
  · rfl
  · split <;> simp

@[simp] theorem ids_leave (q : Queue) (id : Nat) :
    (q.leave id).ids = q.ids.filter (· ≠ id) := by
  unfold leave
  split
  · rename_i hnone
    refine (List.filter_eq_self.mpr fun other hmem => ?_).symm
    simpa using ne_of_mem_of_not_mem hmem (lookup_eq_none_iff.mp hnone)
  · have hfilter : ids { q with tickets := q.tickets.filter (·.1 ≠ id) } =
        q.ids.filter (· ≠ id) := by
      simp [ids, List.filter_map, Function.comp_def]
    split <;> simpa using hfilter

/-- No request stands in the queue twice, so just its ticket goes. -/
theorem lookup_split {tickets : List (Nat × Ticket)} {id : Nat} {ticket : Ticket}
    (hl : tickets.lookup id = some ticket) (hids : (tickets.map (·.1)).Nodup) :
    ∃ before after, tickets = before ++ (id, ticket) :: after ∧
      tickets.filter (·.1 ≠ id) = before ++ after := by
  obtain ⟨before, after, rfl, -⟩ := List.lookup_eq_some_iff.mp hl
  simp only [List.map_append, List.map_cons, List.nodup_append, List.nodup_cons] at hids
  have hbefore : before.filter (·.1 ≠ id) = before := by
    refine List.filter_eq_self.mpr fun other hmem => ?_
    have hne := hids.2.2 _ (List.mem_map_of_mem hmem) id (List.mem_cons_self ..)
    simpa using hne
  have hafter : after.filter (·.1 ≠ id) = after := by
    refine List.filter_eq_self.mpr fun other hmem => ?_
    have hne : other.1 ≠ id := by
      rintro rfl
      exact hids.2.1.1 (List.mem_map_of_mem hmem)
    simpa using hne
  refine ⟨before, after, rfl, ?_⟩
  rw [List.filter_append, hbefore, List.filter_cons_of_neg (by simp), hafter]

theorem Balanced.leave {q : Queue} {limit : Nat} (h : q.Balanced limit) (hids : q.ids.Nodup)
    (id : Nat) : (q.leave id).Balanced limit := by
  unfold Queue.leave
  split
  · exact h
  · rename_i ticket hticket
    obtain ⟨before, after, htickets, hrest⟩ := lookup_split hticket hids
    have hfull : ∀ id', (id', .waiting) ∈ before ++ after → q.free = 0 := by
      intro id' hwait
      refine h.full id' ?_
      rw [htickets]
      simp only [List.mem_append, List.mem_cons] at hwait ⊢
      tauto
    have hcount := h.count
    simp only [hrest]
    cases ticket with
    | granted =>
      refine balanced_putBack ?_ hfull
      simp only [granted, htickets, List.countP_append, List.countP_cons, decide_true,
        if_true] at hcount ⊢
      omega
    | waiting =>
      refine ⟨?_, hfull⟩
      simpa [granted, htickets] using hcount

end ServiceCall.Queue
