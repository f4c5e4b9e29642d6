import ServiceCall.Proofs.Pool.Limiter
import ServiceCall.Proofs.Results

/-!
# The cap on a destination

Whatever the callers do in whatever order, all that are at one destination are at one semaphore,
no destination has more permits out than the limit, and a caller waits only while that many are
out.
-/

namespace ServiceCall.Limiter

/-! ## The table -/

theorem sum_map_of_others_zero {α : Type} (f : α → Nat) {xs : List α} {i : Nat} {x : α}
    (hx : xs[i]? = some x) (h : ∀ (j : Nat) (y : α), xs[j]? = some y → j ≠ i → f y = 0) :
    (xs.map f).sum = f x := by
  induction xs generalizing i with
  | nil => cases hx
  | cons y ys ih =>
    rw [List.map_cons, List.sum_cons]
    cases i with
    | zero =>
      have hrest : (ys.map f).sum = 0 := by
        rw [List.sum_eq_zero_iff_forall_eq_nat, List.forall_mem_map]
        intro z hz
        obtain ⟨j, hj⟩ := List.getElem?_of_mem hz
        exact h (j + 1) z hj (Nat.succ_ne_zero j)
      rw [hrest, Option.some.inj hx, Nat.add_zero]
    | succ i =>
      rw [h 0 y rfl (Nat.succ_ne_zero i).symm, Nat.zero_add]
      exact ih hx fun j z hz hne => h (j + 1) z hz fun heq => hne (Nat.succ.inj heq)

section

variable {l : Limiter}

theorem Sound.host?_eq (h : l.Sound) {i : Nat} {s : Semaphore} (hs : l.semaphores[i]? = some s)
    (hlisted : s.listed = true) : l.host? s.queue.key = some i := by
  obtain ⟨hlt, rfl⟩ := List.getElem?_eq_some_iff.mp hs
  refine List.findIdx?_eq_some_iff_getElem.mpr ⟨hlt, ?_, ?_⟩
  · exact (Semaphore.serves_iff ..).mpr ⟨hlisted, rfl⟩
  · intro j hji hserves
    obtain ⟨hl, hk⟩ := (Semaphore.serves_iff ..).mp hserves
    have hij := h.oneHost (List.getElem?_eq_getElem (Nat.lt_trans hji hlt)) hs hl hlisted hk
    omega

theorem Sound.host?_of_caller (h : l.Sound) {i : Nat} {s : Semaphore} {id : Nat}
    (hs : l.semaphores[i]? = some s) (hid : id ∈ s.callers) : l.host? s.queue.key = some i :=
  h.host?_eq hs (h.listed s (List.mem_of_getElem? hs) (List.ne_nil_of_mem hid))

theorem of_host?_eq {key : String} {i : Nat} (h : l.host? key = some i) :
    ∃ s, l.semaphores[i]? = some s ∧ s.listed = true ∧ s.queue.key = key := by
  obtain ⟨hlt, hserves, -⟩ := List.findIdx?_eq_some_iff_getElem.mp h
  exact ⟨_, List.getElem?_eq_getElem hlt, (Semaphore.serves_iff ..).mp hserves⟩

/-- The permits that are out are those of the semaphore that the table has. -/
theorem Sound.out_eq (h : l.Sound) {i : Nat} {s : Semaphore} (hs : l.semaphores[i]? = some s)
    (hlisted : s.listed = true) : l.out s.queue.key = s.queue.granted := by
  refine (sum_map_of_others_zero _ hs ?_).trans (if_pos rfl)
  intro j s' hs' hne
  refine ite_eq_right_iff.mpr fun hkey => ?_
  by_contra hgranted
  have hcallers : s'.callers ≠ [] := fun hnone => hgranted (Semaphore.granted_eq_zero hnone)
  have hlisted' := h.listed s' (List.mem_of_getElem? hs') hcallers
  exact hne (h.oneHost hs' hs hlisted' hlisted hkey)

theorem Sound.free_add_out (h : l.Sound) {i : Nat} {s : Semaphore}
    (hs : l.semaphores[i]? = some s) (hlisted : s.listed = true) :
    s.queue.free + l.out s.queue.key = l.limit := by
  rw [h.out_eq hs hlisted]
  exact (h.balanced s (List.mem_of_getElem? hs)).count

theorem Sound.out_le (h : l.Sound) (key : String) : l.out key ≤ l.limit := by
  by_cases hknown : ∃ s ∈ l.semaphores, s.queue.key = key ∧ s.listed = true
  · obtain ⟨s, hs, rfl, hlisted⟩ := hknown
    obtain ⟨i, hi⟩ := List.getElem?_of_mem hs
    have hsum := h.free_add_out hi hlisted
    omega
  · have hnone : l.out key = 0 := by
      rw [out, List.sum_eq_zero_iff_forall_eq_nat, List.forall_mem_map]
      intro s hs
      refine ite_eq_right_iff.mpr fun hkey => Semaphore.granted_eq_zero ?_
      by_contra hcallers
      exact hknown ⟨s, hs, hkey, h.listed s hs hcallers⟩
    omega

theorem Sound.out_eq_limit (h : l.Sound) {s : Semaphore} (hs : s ∈ l.semaphores) {id : Nat}
    (hwait : (id, .waiting) ∈ s.queue.tickets) : l.out s.queue.key = l.limit := by
  obtain ⟨i, hi⟩ := List.getElem?_of_mem hs
  have hcallers : s.callers ≠ [] :=
    List.ne_nil_of_mem (List.mem_append_right _ (List.mem_map_of_mem hwait))
  have hsum := h.free_add_out hi (h.listed s hs hcallers)
  have hfree := (h.balanced s hs).full id hwait
  omega

end

/-! ## Whole runs -/

section

variable {limit : Nat} {acts : List Act} {l : Limiter}

theorem Run.sound (h : Run limit acts l) : l.Sound := by
  induction h with
  | nil => exact sound_ofLimit limit
  | snoc _ hs ih => exact hs.sound ih

theorem Run.limit_eq (h : Run limit acts l) : l.limit = limit := by
  induction h with
  | nil => rfl
  | snoc _ hs ih => exact hs.limit_eq.trans ih

theorem holds_concat {act : Act} {key : String} {id : Nat} :
    Holds (acts ++ [act]) key id ↔
      act = .asked key id ∨ Holds acts key id ∧ act ≠ .dropped id := by
  constructor
  · rintro ⟨before, later, heq, hdropped⟩
    rcases concat_eq_append_cons heq with ⟨rfl, rfl, hlast⟩ | ⟨later', rfl, rfl⟩
    · exact Or.inl hlast
    · simp only [List.mem_append, List.mem_singleton, not_or] at hdropped
      exact Or.inr ⟨⟨before, later', rfl, hdropped.1⟩, Ne.symm hdropped.2⟩
  · rintro (rfl | ⟨⟨before, later, rfl, hdropped⟩, hact⟩)
    · exact ⟨acts, [], rfl, List.not_mem_nil⟩
    · refine ⟨before, later ++ [act], by simp, ?_⟩
      simpa [hdropped] using Ne.symm hact

theorem Run.caller_of_holds (h : Run limit acts l) {key : String} {id : Nat}
    (hh : Holds acts key id) :
    ∃ (i : Nat) (s : Semaphore), l.semaphores[i]? = some s ∧ s.queue.key = Text.lower key ∧
      id ∈ s.callers := by
  induction h with
  | nil =>
    obtain ⟨before, later, heq, -⟩ := hh
    simp at heq
  | @snoc acts l act l' hr hs ih =>
    rcases holds_concat.mp hh with rfl | ⟨hh', hact⟩
    · cases hs with
      | asked _ _ hid =>
        obtain ⟨s, hmem, hserves⟩ := exists_serves_withKey l (Text.lower key)
        obtain ⟨i, hi⟩ := List.getElem?_of_mem hmem
        refine ⟨i, s.cloned (Text.lower key) id, by simp [ask, hi], ?_, ?_⟩
        · rw [Semaphore.queue_cloned]
          exact ((s.serves_iff _).mp hserves).2
        · exact (s.mem_callers_cloned ..).mpr (Or.inr ⟨hserves, rfl⟩)
    · -- Its own reference keeps the semaphore in the table, so the caller stays where it is.
      obtain ⟨i, s, hi, hkey, hid⟩ := ih hh'
      obtain ⟨s', hi', hkey', -, hcallers⟩ := hs.stays hr.sound hi (List.ne_nil_of_mem hid)
      exact ⟨i, s', hi', hkey'.trans hkey, hcallers id hid hact⟩

theorem Run.holds_of_caller (h : Run limit acts l) {i : Nat} {s : Semaphore}
    (hs : l.semaphores[i]? = some s) {id : Nat} (hid : id ∈ s.callers) :
    ∃ key, Holds acts key id ∧ Text.lower key = s.queue.key := by
  induction h generalizing s with
  | nil => cases hs
  | snoc hr hstep ih =>
    rcases hstep.callers_cases hr.sound hs hid with ⟨key, rfl, hkey⟩ | ⟨hact, s₀, hs₀, hid₀, hkey⟩
    · exact ⟨key, holds_concat.mpr (Or.inl rfl), hkey⟩
    · obtain ⟨key, hh, hkey'⟩ := ih hs₀ hid₀
      exact ⟨key, holds_concat.mpr (Or.inr ⟨hh, hact⟩), hkey'.trans hkey.symm⟩

theorem Run.exists_host (h : Run limit acts l) {key : String} {id : Nat} (hh : Holds acts key id) :
    ∃ i, l.host? (Text.lower key) = some i := by
  obtain ⟨i, s, hs, hkey, hid⟩ := h.caller_of_holds hh
  exact ⟨i, hkey ▸ h.sound.host?_of_caller hs hid⟩

theorem Run.mem_callers_iff (h : Run limit acts l) {i : Nat} {s : Semaphore}
    (hs : l.semaphores[i]? = some s) (id : Nat) :
    id ∈ s.callers ↔ l.host? s.queue.key = some i ∧
      ∃ key, Text.lower key = s.queue.key ∧ Holds acts key id := by
  constructor
  · intro hid
    obtain ⟨key, hh, hkey⟩ := h.holds_of_caller hs hid
    exact ⟨h.sound.host?_of_caller hs hid, key, hkey, hh⟩
  · rintro ⟨hi, key, hkey, hh⟩
    obtain ⟨j, s', hs', hkey', hid⟩ := h.caller_of_holds hh
    -- The table has one semaphore under the key, so the caller is at this one.
    have hj := h.sound.host?_of_caller hs' hid
    rw [hkey', hkey, hi] at hj
    obtain rfl := Option.some.inj hj
    obtain rfl := Option.some.inj (hs.symm.trans hs')
    exact hid

end

/-- No destination has more permits out than the limit. Exactly the callers that have asked for it
and not dropped it since are at one semaphore, which no step replaces while one of them is left.
A caller waits only while all the permits are out, and every permit is free or out. -/
theorem run_capped {limit : Nat} {acts : List Act} {l : Limiter} (h : Run limit acts l) :
    (∀ key, l.out key ≤ limit) ∧
      (∀ key id, Holds acts key id → ∃ i, l.host? (Text.lower key) = some i) ∧
      (∀ i s, l.semaphores[i]? = some s → ∀ id, id ∈ s.callers ↔
        l.host? s.queue.key = some i ∧
          ∃ key, Text.lower key = s.queue.key ∧ Holds acts key id) ∧
      (∀ act l' i s, Step l act l' → l.semaphores[i]? = some s → s.callers ≠ [] →
        l'.host? s.queue.key = some i) ∧
      (∀ s ∈ l.semaphores, ∀ id, (id, .waiting) ∈ s.queue.tickets →
        l.out s.queue.key = limit) ∧
      ∀ i s, l.host? s.queue.key = some i → l.semaphores[i]? = some s →
        s.queue.free + l.out s.queue.key = limit := by
  have hl := h.sound
  obtain rfl := h.limit_eq
  refine ⟨hl.out_le, fun key id => h.exists_host, fun i s => h.mem_callers_iff, ?_, ?_, ?_⟩
  · intro act l' i s hstep hs hne
    obtain ⟨s', hs', hkey, hlisted, -⟩ := hstep.stays hl hs hne
    rw [← hkey]
    exact (hstep.sound hl).host?_eq hs' hlisted
  · exact fun s hs id => hl.out_eq_limit hs
  · intro i s hi hs
    obtain ⟨s', hs', hlisted, -⟩ := of_host?_eq hi
    obtain rfl := Option.some.inj (hs.symm.trans hs')
    exact hl.free_add_out hs hlisted

/-- One caller holds the only permit, another one waits for it, and a new destination comes up. -/
def crowd : List Act :=
  [.asked "http://API:80" 0, .joined 0, .asked "http://api:80" 1, .joined 1,
    .asked "http://other:80" 2]

theorem run_crowd :
    ∃ l, Run 1 crowd l ∧
      l.semaphores[0]? = some ⟨⟨"http://api:80", 0, [(0, .granted), (1, .waiting)]⟩, true, []⟩ := by
  have h₁ := (@Run.nil 1).snoc (.asked "http://API:80" 0 (by decide))
  have h₂ := h₁.snoc (.joined 0 (by decide))
  have h₃ := h₂.snoc (.asked "http://api:80" 1 (by decide))
  have h₄ := h₃.snoc (.joined 1 (by decide))
  exact ⟨_, h₄.snoc (.asked "http://other:80" 2 (by decide)), by decide⟩

theorem run_capped_of_crowd :
    ∃ l s, Run 1 crowd l ∧ l.semaphores[0]? = some s ∧ (1, .waiting) ∈ s.queue.tickets ∧
      (∀ key, l.out key ≤ 1) ∧ l.out "http://api:80" = 1 ∧
      l.host? "http://api:80" = some 0 ∧ Text.lower "http://API:80" = "http://api:80" ∧
      0 ∈ s.callers ∧ 1 ∈ s.callers := by
  obtain ⟨l, h, hs⟩ := run_crowd
  obtain ⟨hcap, -, hcallers, -, hwaits, -⟩ := run_capped h
  refine ⟨l, _, h, hs, by decide, hcap, ?_, ?_, by decide, by decide, by decide⟩
  · exact hwaits _ (List.mem_of_getElem? hs) 1 (by decide)
  · exact ((hcallers 0 _ hs 1).mp (by decide)).1

end ServiceCall.Limiter
