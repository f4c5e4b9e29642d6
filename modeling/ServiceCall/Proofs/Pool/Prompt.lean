import ServiceCall.Proofs.Pool.Cap

/-!
# Prompt callers

Callers that join the queue as soon as they have looked their destination up, and that drop their
reference as soon as they leave the queue. What the table holds for them are the permits of
`Permits`, so what is true in every order is true of these.
-/

namespace ServiceCall

/-! ## One semaphore -/

namespace Queue

theorem leave_of_not_mem {q : Queue} {id : Nat} (h : id ∉ q.ids) : q.leave id = q := by
  simp only [leave, lookup_eq_none_iff.mpr h]

end Queue

namespace Semaphore

variable {s : Semaphore}

theorem join_cloned (h : s.clones = []) (key : String) (id : Nat) :
    (s.cloned key id).join id = if s.serves key then { s with queue := s.queue.join id } else s := by
  unfold cloned
  split
  · simp [join, h]
  · simp [join, h]

theorem drop_leave (h : s.clones = []) (id : Nat) :
    (s.leave id).drop id = { s with queue := s.queue.leave id } := by
  unfold leave
  split
  · simp [drop, h]
  · rename_i hid
    simp [drop, h, Queue.leave_of_not_mem hid]

theorem listed_kept (h : s.clones = []) : s.kept.listed = (!s.queue.isIdle && s.listed) := by
  rw [Bool.eq_iff_iff]
  cases hl : s.listed <;>
    simp [kept, references, callers, hl, h, Queue.ids, Queue.isIdle, List.length_pos_iff]

end Semaphore

/-! ## The whole table -/

namespace Limiter

def permits (l : Limiter) : Permits := ⟨l.limit, (l.semaphores.filter (·.listed)).map (·.queue)⟩

/-- Every caller is in a queue. -/
def Settled (l : Limiter) : Prop := ∀ s ∈ l.semaphores, s.clones = []

variable {l : Limiter}

theorem Settled.withKey (h : l.Settled) (key : String) : (l.withKey key).Settled := by
  intro s hs
  obtain ⟨i, hi⟩ := List.getElem?_of_mem hs
  rcases withKey_cases l key with ⟨heq, -⟩ | ⟨heq, -⟩
  · exact h s (heq ▸ hs)
  · rw [heq, List.mem_append, List.mem_map, List.mem_singleton] at hs
    rcases hs with ⟨s₀, hs₀, rfl⟩ | rfl
    · exact h s₀ hs₀
    · rfl

theorem queues_withKey (h : l.Settled) (key : String) :
    (l.withKey key).permits.queues = l.permits.withKey key := by
  have hany : l.permits.queues.any (·.key = key) = l.semaphores.any (·.serves key) := by
    simp [permits, List.any_map, List.any_filter, Function.comp_def, Semaphore.serves]
  unfold Permits.withKey Limiter.withKey
  rw [hany]
  split
  · rfl
  · have hkept : l.semaphores.filter (·.kept.listed) =
        l.semaphores.filter fun s => !s.queue.isIdle && s.listed :=
      List.filter_congr fun s hs => Semaphore.listed_kept (h s hs)
    simp only [permits, List.filter_append, List.filter_map, List.filter_filter, List.map_append,
      List.map_map, Function.comp_def, hkept]
    rfl

theorem Settled.ask_join (h : l.Settled) (key : String) (id : Nat) :
    ((l.ask key id).join id).Settled ∧
      ((l.ask key id).join id).permits = l.permits.acquire key id := by
  have hwith := h.withKey (Text.lower key)
  have hjoined : ((l.ask key id).join id).semaphores =
      (l.withKey (Text.lower key)).semaphores.map fun s =>
        if s.serves (Text.lower key) then { s with queue := s.queue.join id } else s := by
    simp only [ask, join, List.map_map]
    exact List.map_congr_left fun s hs => Semaphore.join_cloned (hwith s hs) _ id
  constructor
  · intro s hs
    rw [hjoined, List.mem_map] at hs
    obtain ⟨s₀, hs₀, rfl⟩ := hs
    split <;> exact hwith s₀ hs₀
  · have hlisted : ∀ s : Semaphore,
        (if s.serves (Text.lower key) then { s with queue := s.queue.join id } else s).listed =
          s.listed := by
      intro s
      split <;> rfl
    have hqueues : ((l.ask key id).join id).permits.queues =
        (l.permits.withKey (Text.lower key)).map fun q =>
          if q.key = Text.lower key then q.join id else q := by
      rw [← queues_withKey h]
      simp only [permits, hjoined, List.filter_map, List.map_map, Function.comp_def, hlisted]
      refine List.map_congr_left fun s hs => ?_
      simp only [Semaphore.serves_iff, (List.mem_filter.mp hs).2, true_and]
      split <;> rfl
    exact congrArg (Permits.mk l.limit) hqueues

theorem Settled.leave_drop (h : l.Settled) (id : Nat) :
    ((l.leave id).drop id).Settled ∧ ((l.leave id).drop id).permits = l.permits.drop id := by
  have hleft : ((l.leave id).drop id).semaphores =
      l.semaphores.map fun s => { s with queue := s.queue.leave id } := by
    simp only [leave, drop, List.map_map]
    exact List.map_congr_left fun s hs => Semaphore.drop_leave (h s hs) id
  constructor
  · intro s hs
    rw [hleft, List.mem_map] at hs
    obtain ⟨s₀, hs₀, rfl⟩ := hs
    exact h s₀ hs₀
  · simp only [permits, hleft, Permits.drop, List.filter_map, List.map_map, Function.comp_def]
    rfl

theorem Settled.not_mem_callers (h : l.Settled) (hl : l.Sound) {id : Nat}
    (hid : l.permits.ticket? id = none) : ∀ s ∈ l.semaphores, id ∉ s.callers := by
  intro s hs hmem
  have hlisted := hl.listed s hs (List.ne_nil_of_mem hmem)
  have hqueue : s.queue ∈ l.permits.queues :=
    List.mem_map_of_mem (List.mem_filter.mpr ⟨hs, hlisted⟩)
  have hnone := List.findSome?_eq_none_iff.mp hid s.queue hqueue
  rw [Semaphore.callers, h s hs, List.nil_append] at hmem
  exact Queue.lookup_eq_none_iff.mp hnone hmem

theorem drop_of_not_mem {id : Nat} (hid : ∀ s ∈ l.semaphores, id ∉ s.queue.ids) :
    l.permits.drop id = l.permits := by
  have hqueues : l.permits.queues.map (·.leave id) = l.permits.queues := by
    refine (List.map_congr_left fun q hq => ?_).trans (List.map_id _)
    obtain ⟨s, hs, rfl⟩ := List.mem_map.mp hq
    exact Queue.leave_of_not_mem (hid s (List.mem_filter.mp hs).1)
  exact congrArg (Permits.mk l.limit) hqueues

theorem Settled.run_ask_join {limit : Nat} {acts : List Act} (h : l.Settled)
    (hrun : Run limit acts l) (key : String) {id : Nat} (hid : l.permits.ticket? id = none) :
    ∃ acts', Run limit acts' ((l.ask key id).join id) := by
  have hnew := h.not_mem_callers hrun.sound hid
  refine ⟨_, (hrun.snoc (.asked key id hnew)).snoc (.joined id ?_)⟩
  obtain ⟨s, hs, hserves⟩ := exists_serves_withKey l (Text.lower key)
  refine ⟨s.cloned (Text.lower key) id, List.mem_map_of_mem hs, ?_⟩
  simp [Semaphore.cloned, hserves]

theorem run_leave_drop {limit : Nat} {acts : List Act} (hrun : Run limit acts l) {id : Nat}
    (hid : ∃ s ∈ l.semaphores, id ∈ s.queue.ids) :
    ∃ acts', Run limit acts' ((l.leave id).drop id) := by
  refine ⟨_, (hrun.snoc (.left id hid)).snoc (.dropped id ?_)⟩
  obtain ⟨s, hs, hmem⟩ := hid
  refine ⟨s.leave id, List.mem_map_of_mem hs, ?_⟩
  simp [Semaphore.leave, hmem]

theorem keys_nodup (h : l.Sound) : (l.permits.queues.map (·.key)).Nodup := by
  rw [permits, List.map_map, List.Nodup, List.pairwise_map, List.pairwise_filter,
    List.pairwise_iff_getElem]
  intro i j hi hj hij hl hl' hkey
  have heq := h.oneHost (List.getElem?_eq_getElem hi) (List.getElem?_eq_getElem hj) hl hl' hkey
  omega

end Limiter

/-! ## Permits -/

namespace Permits

/-- The permits can come about: each request that asks is a new one. -/
inductive Reached (limit : Nat) : Permits → Prop
  | new : Reached limit (.ofLimit limit)
  | acquired {p} (key id) (hr : Reached limit p) (hid : p.ticket? id = none) :
      Reached limit (p.acquire key id)
  | dropped {p} (id) (hr : Reached limit p) : Reached limit (p.drop id)

open Limiter in
/-- They are what the table holds for prompt callers. -/
theorem Reached.exists_run {limit : Nat} {p : Permits} (h : p.Reached limit) :
    ∃ acts l, Run limit acts l ∧ l.Settled ∧ l.permits = p := by
  induction h with
  | new => exact ⟨[], _, .nil, List.forall_mem_nil _, rfl⟩
  | acquired key id _ hid ih =>
    obtain ⟨acts, l, hrun, hsettled, rfl⟩ := ih
    obtain ⟨acts', hrun'⟩ := hsettled.run_ask_join hrun key hid
    exact ⟨acts', _, hrun', hsettled.ask_join key id⟩
  | dropped id _ ih =>
    obtain ⟨acts, l, hrun, hsettled, rfl⟩ := ih
    by_cases hid : ∃ s ∈ l.semaphores, id ∈ s.queue.ids
    · obtain ⟨acts', hrun'⟩ := run_leave_drop hrun hid
      exact ⟨acts', _, hrun', hsettled.leave_drop id⟩
    · simp only [not_exists, not_and] at hid
      exact ⟨acts, l, hrun, hsettled, (drop_of_not_mem hid).symm⟩

theorem Reached.balanced {limit : Nat} {p : Permits} (h : p.Reached limit) :
    (∀ q ∈ p.queues, q.Balanced limit) ∧ (p.queues.map (·.key)).Nodup := by
  obtain ⟨acts, l, hrun, -, rfl⟩ := h.exists_run
  refine ⟨?_, Limiter.keys_nodup hrun.sound⟩
  rw [← hrun.limit_eq]
  intro q hq
  obtain ⟨s, hs, rfl⟩ := List.mem_map.mp hq
  exact hrun.sound.balanced s (List.mem_filter.mp hs).1

end Permits

end ServiceCall
