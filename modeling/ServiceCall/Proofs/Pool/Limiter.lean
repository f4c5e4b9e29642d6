import ServiceCall.Proofs.Pool.Queues

/-!
# The table of destinations

The permits of all destinations, with the references that keep a destination in the table. A
caller looks its destination up, joins the queue of the semaphore that it found, leaves that queue
and drops its reference; the steps of all callers may come in any order. When a new destination
comes up, the table forgets each semaphore that nothing else refers to.
-/

namespace ServiceCall

/-! ## Semaphores -/

/-- A semaphore, with what refers to it. -/
structure Semaphore where
  queue : Queue
  /-- The table has it under its key. -/
  listed : Bool
  /-- The callers with a reference that are not in the queue: about to join it, or past it. -/
  clones : List Nat
  deriving DecidableEq, Repr

namespace Semaphore

/-- The callers with a reference. -/
def callers (s : Semaphore) : List Nat := s.clones ++ s.queue.ids

def references (s : Semaphore) : Nat := s.listed.toNat + s.callers.length

def serves (s : Semaphore) (key : String) : Bool := s.listed && s.queue.key = key

/-- The table forgets it if the table's own reference is the only one. -/
def kept (s : Semaphore) : Semaphore := { s with listed := s.listed && 1 < s.references }

/-- A caller finds it under the key. -/
def cloned (s : Semaphore) (key : String) (id : Nat) : Semaphore :=
  if s.serves key then { s with clones := s.clones ++ [id] } else s

def join (s : Semaphore) (id : Nat) : Semaphore :=
  if id ∈ s.clones then { s with queue := s.queue.join id, clones := s.clones.erase id } else s

/-- A permit or a wait ends; the reference is still there. -/
def leave (s : Semaphore) (id : Nat) : Semaphore :=
  if id ∈ s.queue.ids then { s with queue := s.queue.leave id, clones := s.clones ++ [id] } else s

def drop (s : Semaphore) (id : Nat) : Semaphore := { s with clones := s.clones.erase id }

end Semaphore

/-! ## The table -/

structure Limiter where
  limit : Nat
  /-- All semaphores there ever were. -/
  semaphores : List Semaphore
  deriving DecidableEq, Repr

namespace Limiter

def ofLimit (limit : Nat) : Limiter := ⟨limit, []⟩

/-- The number of the semaphore that the table has under the key. -/
def host? (l : Limiter) (key : String) : Option Nat := l.semaphores.findIdx? (·.serves key)

/-- The table with the key in it. -/
def withKey (l : Limiter) (key : String) : Limiter :=
  if l.semaphores.any (·.serves key) then l
  else { l with semaphores := l.semaphores.map .kept ++ [⟨⟨key, l.limit, []⟩, true, []⟩] }

/-- A caller looks up a destination, whose name has no case. -/
def ask (l : Limiter) (key : String) (id : Nat) : Limiter :=
  let key := Text.lower key
  { l with semaphores := (l.withKey key).semaphores.map (·.cloned key id) }

def join (l : Limiter) (id : Nat) : Limiter :=
  { l with semaphores := l.semaphores.map (·.join id) }

def leave (l : Limiter) (id : Nat) : Limiter :=
  { l with semaphores := l.semaphores.map (·.leave id) }

def drop (l : Limiter) (id : Nat) : Limiter :=
  { l with semaphores := l.semaphores.map (·.drop id) }

/-- The permits that are out for a destination, of all its semaphores. -/
def out (l : Limiter) (key : String) : Nat :=
  (l.semaphores.map fun s => if s.queue.key = key then s.queue.granted else 0).sum

/-! ## Steps -/

inductive Act where
  | asked (key : String) (id : Nat)
  | joined (id : Nat)
  | left (id : Nat)
  | dropped (id : Nat)
  deriving DecidableEq, Repr

/-- What callers can do; a caller that asks is a new one. -/
inductive Step (l : Limiter) : Act → Limiter → Prop
  | asked (key id) (h : ∀ s ∈ l.semaphores, id ∉ s.callers) :
      Step l (.asked key id) (l.ask key id)
  | joined (id) (h : ∃ s ∈ l.semaphores, id ∈ s.clones) : Step l (.joined id) (l.join id)
  | left (id) (h : ∃ s ∈ l.semaphores, id ∈ s.queue.ids) : Step l (.left id) (l.leave id)
  | dropped (id) (h : ∃ s ∈ l.semaphores, id ∈ s.clones) : Step l (.dropped id) (l.drop id)

/-- What callers did since there was no destination, first things first. -/
inductive Run (limit : Nat) : List Act → Limiter → Prop
  | nil : Run limit [] (.ofLimit limit)
  | snoc {acts l act l'} (hr : Run limit acts l) (hs : Step l act l') :
      Run limit (acts ++ [act]) l'

/-- The caller has asked for the destination and not dropped its reference since. -/
def Holds (acts : List Act) (key : String) (id : Nat) : Prop :=
  ∃ before later, acts = before ++ .asked key id :: later ∧ .dropped id ∉ later

end Limiter

/-! ## What happens to one semaphore -/

namespace Semaphore

theorem serves_iff (s : Semaphore) (key : String) :
    s.serves key = true ↔ s.listed = true ∧ s.queue.key = key := by
  simp [serves]

theorem mem_callers_cloned (s : Semaphore) (key : String) (id id' : Nat) :
    id' ∈ (s.cloned key id).callers ↔ id' ∈ s.callers ∨ s.serves key = true ∧ id' = id := by
  unfold cloned callers
  split
  · rename_i hserves
    simp only [List.mem_append, List.mem_singleton, hserves, true_and]
    tauto
  · rename_i hserves
    simp [hserves]

@[simp] theorem queue_cloned (s : Semaphore) (key : String) (id : Nat) :
    (s.cloned key id).queue = s.queue := by
  unfold cloned
  split <;> rfl

@[simp] theorem listed_cloned (s : Semaphore) (key : String) (id : Nat) :
    (s.cloned key id).listed = s.listed := by
  unfold cloned
  split <;> rfl

theorem nodup_cloned {s : Semaphore} {id : Nat} (key : String) (h : s.callers.Nodup)
    (hid : id ∉ s.callers) : (s.cloned key id).callers.Nodup := by
  unfold cloned
  split
  · have hperm : (id :: s.callers).Perm (s.clones ++ [id] ++ s.queue.ids) := by
      rw [List.append_assoc]
      exact List.perm_middle.symm
    exact hperm.nodup (List.nodup_cons.mpr ⟨hid, h⟩)
  · exact h

/-- A reference besides the table's own keeps it in the table. -/
theorem kept_eq {s : Semaphore} (h : s.callers ≠ []) : s.kept = s := by
  have hpos := List.length_pos_iff.mpr h
  have hlisted : (s.listed && decide (1 < s.references)) = s.listed := by
    cases hl : s.listed with
    | true =>
      simp [references, hl]
      omega
    | false => rfl
  rw [kept, hlisted]

theorem granted_eq_zero {s : Semaphore} (h : s.callers = []) : s.queue.granted = 0 := by
  have htickets : s.queue.tickets = [] := by
    simpa [callers, Queue.ids] using (List.append_eq_nil_iff.mp h).2
  simp [Queue.granted, htickets]

/-- What a semaphore keeps when its callers join, leave or drop it. -/
structure Evolves (limit : Nat) (s s' : Semaphore) : Prop where
  key : s'.queue.key = s.queue.key
  listed : s'.listed = s.listed
  callers : s'.callers ⊆ s.callers
  nodup : s'.callers.Nodup
  balanced : s'.queue.Balanced limit

section

variable {s : Semaphore} {limit : Nat}

theorem perm_join (s : Semaphore) (id : Nat) : (s.join id).callers.Perm s.callers := by
  unfold join callers
  split
  · rename_i hmem
    have hlast : (s.clones.erase id ++ s.queue.ids ++ [id]).Perm
        (id :: s.clones.erase id ++ s.queue.ids) := List.perm_append_singleton ..
    rw [Queue.ids_join, ← List.append_assoc]
    exact hlast.trans ((List.perm_cons_erase hmem).symm.append_right _)
  · exact .refl _

theorem perm_leave (h : s.callers.Nodup) (id : Nat) : (s.leave id).callers.Perm s.callers := by
  unfold leave
  split
  · rename_i hmem
    have hids : s.queue.ids.Nodup := (List.nodup_append.mp h).2.1
    have herase : s.queue.ids.filter (· ≠ id) = s.queue.ids.erase id := by
      rw [hids.erase_eq_filter]
      refine List.filter_congr fun id' _ => ?_
      by_cases hid : id' = id <;> simp [hid]
    unfold callers
    rw [Queue.ids_leave, herase, List.append_assoc]
    exact ((List.perm_cons_erase hmem).symm).append_left _
  · exact .refl _

theorem sublist_drop (s : Semaphore) (id : Nat) : (s.drop id).callers.Sublist s.callers :=
  (List.erase_sublist ..).append (.refl _)

theorem evolves_join (hb : s.queue.Balanced limit) (hn : s.callers.Nodup) (id : Nat) :
    s.Evolves limit (s.join id) := by
  have hperm := s.perm_join id
  refine ⟨?_, ?_, hperm.subset, hperm.symm.nodup hn, ?_⟩
  all_goals unfold join; split
  · exact Queue.key_join ..
  · rfl
  · rfl
  · rfl
  · exact hb.join id
  · exact hb

theorem evolves_leave (hb : s.queue.Balanced limit) (hn : s.callers.Nodup) (id : Nat) :
    s.Evolves limit (s.leave id) := by
  have hperm := perm_leave hn id
  refine ⟨?_, ?_, hperm.subset, hperm.symm.nodup hn, ?_⟩
  all_goals unfold leave; split
  · exact Queue.key_leave ..
  · rfl
  · rfl
  · rfl
  · exact hb.leave (List.nodup_append.mp hn).2.1 id
  · exact hb

theorem evolves_drop (hb : s.queue.Balanced limit) (hn : s.callers.Nodup) (id : Nat) :
    s.Evolves limit (s.drop id) where
  key := rfl
  listed := rfl
  callers := (s.sublist_drop id).subset
  nodup := hn.sublist (s.sublist_drop id)
  balanced := hb

end

end Semaphore

/-! ## What holds in every order -/

namespace Limiter

/-- What steps keep. -/
structure Sound (l : Limiter) : Prop where
  balanced : ∀ s ∈ l.semaphores, s.queue.Balanced l.limit
  /-- Whoever has a reference has one to a semaphore that the table has. -/
  listed : ∀ s ∈ l.semaphores, s.callers ≠ [] → s.listed = true
  nodup : ∀ s ∈ l.semaphores, s.callers.Nodup
  oneHost : ∀ {i j : Nat} {s s' : Semaphore}, l.semaphores[i]? = some s →
    l.semaphores[j]? = some s' → s.listed = true → s'.listed = true →
    s.queue.key = s'.queue.key → i = j
  onePlace : ∀ {i j : Nat} {s s' : Semaphore} {id : Nat}, l.semaphores[i]? = some s →
    l.semaphores[j]? = some s' → id ∈ s.callers → id ∈ s'.callers → i = j

theorem sound_ofLimit (limit : Nat) : (ofLimit limit).Sound where
  balanced _ h := nomatch h
  listed _ h := nomatch h
  nodup _ h := nomatch h
  oneHost h := nomatch h
  onePlace h := nomatch h

theorem Sound.map {l : Limiter} {g : Semaphore → Semaphore} (h : l.Sound)
    (hg : ∀ s ∈ l.semaphores, s.Evolves l.limit (g s)) :
    Sound { l with semaphores := l.semaphores.map g } := by
  have hback : ∀ {i : Nat} {s' : Semaphore}, (l.semaphores.map g)[i]? = some s' →
      ∃ s, l.semaphores[i]? = some s ∧ s.Evolves l.limit s' := by
    intro i s' hs'
    rw [List.getElem?_map, Option.map_eq_some_iff] at hs'
    obtain ⟨s, hs, rfl⟩ := hs'
    exact ⟨s, hs, hg s (List.mem_of_getElem? hs)⟩
  refine ⟨?_, ?_, ?_, ?_, ?_⟩
  · rw [List.forall_mem_map]
    exact fun s hs => (hg s hs).balanced
  · rw [List.forall_mem_map]
    intro s hs hne
    rw [(hg s hs).listed]
    refine h.listed s hs fun hnone => hne ?_
    exact List.subset_nil.mp (hnone ▸ (hg s hs).callers)
  · rw [List.forall_mem_map]
    exact fun s hs => (hg s hs).nodup
  · intro i j s₁ s₂ h₁ h₂ hl₁ hl₂ hkey
    obtain ⟨s, hs, he⟩ := hback h₁
    obtain ⟨s', hs', he'⟩ := hback h₂
    rw [he.listed] at hl₁
    rw [he'.listed] at hl₂
    exact h.oneHost hs hs' hl₁ hl₂ (by rw [← he.key, hkey, he'.key])
  · intro i j s₁ s₂ id h₁ h₂ hid₁ hid₂
    obtain ⟨s, hs, he⟩ := hback h₁
    obtain ⟨s', hs', he'⟩ := hback h₂
    exact h.onePlace hs hs' (he.callers hid₁) (he'.callers hid₂)

/-! ## Looking up -/

section

variable {l : Limiter} {key : String}

@[simp] theorem limit_withKey (l : Limiter) (key : String) : (l.withKey key).limit = l.limit := by
  unfold withKey
  split <;> rfl

theorem withKey_cases (l : Limiter) (key : String) :
    l.withKey key = l ∧ (∃ s ∈ l.semaphores, s.serves key = true) ∨
      (l.withKey key).semaphores = l.semaphores.map .kept ++ [⟨⟨key, l.limit, []⟩, true, []⟩] ∧
        ∀ s ∈ l.semaphores, ¬ s.serves key = true := by
  unfold withKey
  split
  · rename_i hany
    exact Or.inl ⟨rfl, List.any_eq_true.mp hany⟩
  · rename_i hany
    exact Or.inr ⟨rfl, fun s hs hserves => hany (List.any_eq_true.mpr ⟨s, hs, hserves⟩)⟩

/-- The table keeps a semaphore that somebody has. -/
theorem getElem?_withKey {i : Nat} {s : Semaphore} (hs : l.semaphores[i]? = some s)
    (hne : s.callers ≠ []) : (l.withKey key).semaphores[i]? = some s := by
  rcases withKey_cases l key with ⟨heq, -⟩ | ⟨heq, -⟩
  · rw [heq]
    exact hs
  · have hlt := (List.getElem?_eq_some_iff.mp hs).1
    rw [heq, List.getElem?_append_left (by simpa using hlt), List.getElem?_map, hs]
    exact congrArg some (Semaphore.kept_eq hne)

/-- A semaphore was there before, with the same callers, or it is new and has none. -/
theorem of_getElem?_withKey {i : Nat} {s' : Semaphore}
    (hs' : (l.withKey key).semaphores[i]? = some s') :
    (∃ s, l.semaphores[i]? = some s ∧ s'.queue = s.queue ∧ s'.callers = s.callers ∧
        (s'.listed = true → s.listed = true) ∧ (s.callers ≠ [] → s' = s)) ∨
      (∀ s ∈ l.semaphores, ¬ s.serves key = true) ∧ i = l.semaphores.length ∧
        s' = ⟨⟨key, l.limit, []⟩, true, []⟩ := by
  rcases withKey_cases l key with ⟨heq, -⟩ | ⟨heq, hnone⟩
  · rw [heq] at hs'
    exact Or.inl ⟨s', hs', rfl, rfl, id, fun _ => rfl⟩
  · rw [heq, List.getElem?_append] at hs'
    split at hs'
    · rw [List.getElem?_map, Option.map_eq_some_iff] at hs'
      obtain ⟨s, hs, rfl⟩ := hs'
      refine Or.inl ⟨s, hs, rfl, rfl, ?_, Semaphore.kept_eq⟩
      exact fun hlisted => (Bool.and_eq_true_iff.mp hlisted).1
    · rename_i hge
      obtain ⟨hlast, rfl⟩ := List.getElem?_eq_some_iff.mp hs'
      simp only [List.length_map, List.length_singleton, Nat.not_lt] at hge hlast
      refine Or.inr ⟨hnone, by omega, ?_⟩
      simp

theorem Sound.withKey (h : l.Sound) (key : String) : (l.withKey key).Sound := by
  refine ⟨?_, ?_, ?_, ?_, ?_⟩
  · intro s' hs'
    obtain ⟨i, hi⟩ := List.getElem?_of_mem hs'
    rw [limit_withKey]
    rcases of_getElem?_withKey hi with ⟨s, hs, hqueue, -⟩ | ⟨-, -, rfl⟩
    · rw [hqueue]
      exact h.balanced s (List.mem_of_getElem? hs)
    · exact Queue.balanced_new ..
  · intro s' hs' hne
    obtain ⟨i, hi⟩ := List.getElem?_of_mem hs'
    rcases of_getElem?_withKey hi with ⟨s, hs, -, hcallers, -, heq⟩ | ⟨-, -, rfl⟩
    · rw [hcallers] at hne
      rw [heq hne]
      exact h.listed s (List.mem_of_getElem? hs) hne
    · rfl
  · intro s' hs'
    obtain ⟨i, hi⟩ := List.getElem?_of_mem hs'
    rcases of_getElem?_withKey hi with ⟨s, hs, -, hcallers, -⟩ | ⟨-, -, rfl⟩
    · rw [hcallers]
      exact h.nodup s (List.mem_of_getElem? hs)
    · exact List.nodup_nil
  · -- A semaphore is new only if the table has none under the key.
    intro i j s₁ s₂ h₁ h₂ hl₁ hl₂ hkey
    rcases of_getElem?_withKey h₁ with ⟨s, hs, hq, -, hl, -⟩ | ⟨hnone, hi, rfl⟩ <;>
      rcases of_getElem?_withKey h₂ with ⟨s', hs', hq', -, hl', -⟩ | ⟨hnone', hj, rfl⟩
    · rw [hq, hq'] at hkey
      exact h.oneHost hs hs' (hl hl₁) (hl' hl₂) hkey
    · refine absurd ?_ (hnone' s (List.mem_of_getElem? hs))
      exact (s.serves_iff key).mpr ⟨hl hl₁, hq ▸ hkey⟩
    · refine absurd ?_ (hnone s' (List.mem_of_getElem? hs'))
      exact (s'.serves_iff key).mpr ⟨hl' hl₂, hq' ▸ hkey.symm⟩
    · rw [hi, hj]
  · intro i j s₁ s₂ id h₁ h₂ hid₁ hid₂
    rcases of_getElem?_withKey h₁ with ⟨s, hs, -, hc, -⟩ | ⟨-, -, rfl⟩
    · rcases of_getElem?_withKey h₂ with ⟨s', hs', -, hc', -⟩ | ⟨-, -, rfl⟩
      · exact h.onePlace hs hs' (hc ▸ hid₁) (hc' ▸ hid₂)
      · cases hid₂
    · cases hid₁

theorem Sound.cloned (h : l.Sound) {id : Nat} (hid : ∀ s ∈ l.semaphores, id ∉ s.callers)
    (key : String) :
    Sound { l with semaphores := l.semaphores.map (·.cloned key id) } := by
  have hback : ∀ {i : Nat} {s' : Semaphore},
      (l.semaphores.map (·.cloned key id))[i]? = some s' →
      ∃ s, l.semaphores[i]? = some s ∧ s' = s.cloned key id := by
    intro i s' hs'
    rw [List.getElem?_map, Option.map_eq_some_iff] at hs'
    obtain ⟨s, hs, rfl⟩ := hs'
    exact ⟨s, hs, rfl⟩
  refine ⟨?_, ?_, ?_, ?_, ?_⟩
  · rw [List.forall_mem_map]
    intro s hs
    rw [Semaphore.queue_cloned]
    exact h.balanced s hs
  · rw [List.forall_mem_map]
    intro s hs hne
    rw [Semaphore.listed_cloned]
    by_cases hserves : s.serves key = true
    · exact ((s.serves_iff key).mp hserves).1
    · rw [Semaphore.cloned, if_neg hserves] at hne
      exact h.listed s hs hne
  · rw [List.forall_mem_map]
    exact fun s hs => Semaphore.nodup_cloned key (h.nodup s hs) (hid s hs)
  · intro i j s₁ s₂ h₁ h₂ hl₁ hl₂ hkey
    obtain ⟨s, hs, rfl⟩ := hback h₁
    obtain ⟨s', hs', rfl⟩ := hback h₂
    rw [Semaphore.listed_cloned] at hl₁ hl₂
    rw [Semaphore.queue_cloned, Semaphore.queue_cloned] at hkey
    exact h.oneHost hs hs' hl₁ hl₂ hkey
  · intro i j s₁ s₂ id' h₁ h₂ hid₁ hid₂
    obtain ⟨s, hs, rfl⟩ := hback h₁
    obtain ⟨s', hs', rfl⟩ := hback h₂
    rw [Semaphore.mem_callers_cloned] at hid₁ hid₂
    -- The new caller was nowhere before, and one semaphore serves the key.
    rcases hid₁ with hold | ⟨hserves, rfl⟩ <;> rcases hid₂ with hold' | ⟨hserves', heq⟩
    · exact h.onePlace hs hs' hold hold'
    · exact absurd (heq ▸ hold) (hid s (List.mem_of_getElem? hs))
    · exact absurd hold' (hid s' (List.mem_of_getElem? hs'))
    · obtain ⟨hl, hk⟩ := (s.serves_iff key).mp hserves
      obtain ⟨hl', hk'⟩ := (s'.serves_iff key).mp hserves'
      exact h.oneHost hs hs' hl hl' (hk.trans hk'.symm)

theorem not_mem_callers_withKey {id : Nat} (hid : ∀ s ∈ l.semaphores, id ∉ s.callers) :
    ∀ s ∈ (l.withKey key).semaphores, id ∉ s.callers := by
  intro s' hs'
  obtain ⟨i, hi⟩ := List.getElem?_of_mem hs'
  rcases of_getElem?_withKey hi with ⟨s, hs, -, hcallers, -⟩ | ⟨-, -, rfl⟩
  · rw [hcallers]
    exact hid s (List.mem_of_getElem? hs)
  · exact List.not_mem_nil

theorem exists_serves_withKey (l : Limiter) (key : String) :
    ∃ s ∈ (l.withKey key).semaphores, s.serves key = true := by
  rcases withKey_cases l key with ⟨heq, hserves⟩ | ⟨heq, -⟩
  · rwa [heq]
  · rw [heq]
    exact ⟨_, List.mem_append_right _ (List.mem_singleton_self _), by simp [Semaphore.serves]⟩

theorem Sound.ask (h : l.Sound) {id : Nat} (hid : ∀ s ∈ l.semaphores, id ∉ s.callers)
    (key : String) : (l.ask key id).Sound := by
  have hcloned := (h.withKey (Text.lower key)).cloned (not_mem_callers_withKey hid) (Text.lower key)
  rwa [limit_withKey] at hcloned

end

/-! ## One step -/

section

variable {l l' : Limiter} {act : Act}

/-- Apart from a caller that asks, each semaphore goes its own way. -/
theorem Step.asks_or_evolves (h : Step l act l') (hl : l.Sound) :
    (∃ key id, act = .asked key id ∧ l' = l.ask key id ∧ ∀ s ∈ l.semaphores, id ∉ s.callers) ∨
      ∃ g, l' = { l with semaphores := l.semaphores.map g } ∧
        ∀ s ∈ l.semaphores, s.Evolves l.limit (g s) := by
  cases h with
  | asked key id hid => exact Or.inl ⟨key, id, rfl, rfl, hid⟩
  | joined id _ =>
    exact Or.inr ⟨_, rfl, fun s hs => s.evolves_join (hl.balanced s hs) (hl.nodup s hs) id⟩
  | left id _ =>
    exact Or.inr ⟨_, rfl, fun s hs => s.evolves_leave (hl.balanced s hs) (hl.nodup s hs) id⟩
  | dropped id _ =>
    exact Or.inr ⟨_, rfl, fun s hs => s.evolves_drop (hl.balanced s hs) (hl.nodup s hs) id⟩

theorem Step.sound (h : Step l act l') (hl : l.Sound) : l'.Sound := by
  rcases h.asks_or_evolves hl with ⟨key, id, -, rfl, hid⟩ | ⟨g, rfl, hg⟩
  · exact hl.ask hid key
  · exact hl.map hg

theorem Step.limit_eq (h : Step l act l') : l'.limit = l.limit := by
  cases h <;> rfl

/-- A semaphore that somebody has stays in its place and in the table, and it keeps its callers but
for one that drops it. -/
theorem Step.stays (h : Step l act l') (hl : l.Sound) {i : Nat} {s : Semaphore}
    (hs : l.semaphores[i]? = some s) (hne : s.callers ≠ []) :
    ∃ s', l'.semaphores[i]? = some s' ∧ s'.queue.key = s.queue.key ∧ s'.listed = true ∧
      ∀ id ∈ s.callers, act ≠ .dropped id → id ∈ s'.callers := by
  have hmem := List.mem_of_getElem? hs
  have hlisted := hl.listed s hmem hne
  cases h with
  | asked key id _ =>
    refine ⟨s.cloned (Text.lower key) id, ?_, ?_, ?_, ?_⟩
    · simp only [ask, List.getElem?_map, getElem?_withKey hs hne, Option.map_some]
    · rw [Semaphore.queue_cloned]
    · rw [Semaphore.listed_cloned, hlisted]
    · exact fun id' hid' _ => (s.mem_callers_cloned ..).mpr (Or.inl hid')
  | joined id _ =>
    have he := s.evolves_join (hl.balanced s hmem) (hl.nodup s hmem) id
    refine ⟨s.join id, by simp [join, hs], he.key, he.listed.trans hlisted, ?_⟩
    exact fun id' hid' _ => (s.perm_join id).symm.subset hid'
  | left id _ =>
    have he := s.evolves_leave (hl.balanced s hmem) (hl.nodup s hmem) id
    refine ⟨s.leave id, by simp [leave, hs], he.key, he.listed.trans hlisted, ?_⟩
    exact fun id' hid' _ => (Semaphore.perm_leave (hl.nodup s hmem) id).symm.subset hid'
  | dropped id _ =>
    refine ⟨s.drop id, by simp [drop, hs], rfl, hlisted, ?_⟩
    intro id' hid' hact
    have hid : id' ≠ id := fun heq => hact (heq ▸ rfl)
    simpa [Semaphore.callers, Semaphore.drop, hid] using hid'

/-- A caller of a semaphore has just looked it up, or it had the reference before. -/
theorem Step.callers_cases (h : Step l act l') (hl : l.Sound) {i : Nat} {s' : Semaphore}
    (hs' : l'.semaphores[i]? = some s') {id : Nat} (hid : id ∈ s'.callers) :
    (∃ key, act = .asked key id ∧ Text.lower key = s'.queue.key) ∨
      act ≠ .dropped id ∧
        ∃ s, l.semaphores[i]? = some s ∧ id ∈ s.callers ∧ s'.queue.key = s.queue.key := by
  cases h with
  | asked key id' _ =>
    simp only [ask, List.getElem?_map, Option.map_eq_some_iff] at hs'
    obtain ⟨s₁, hs₁, rfl⟩ := hs'
    rw [Semaphore.queue_cloned]
    rcases (s₁.mem_callers_cloned ..).mp hid with hold | ⟨hserves, rfl⟩
    · refine Or.inr ⟨by simp, ?_⟩
      rcases of_getElem?_withKey hs₁ with ⟨s, hs, hqueue, hcallers, -⟩ | ⟨-, -, rfl⟩
      · exact ⟨s, hs, hcallers ▸ hold, by rw [hqueue]⟩
      · cases hold
    · exact Or.inl ⟨key, rfl, ((s₁.serves_iff _).mp hserves).2.symm⟩
  | joined id' _ =>
    simp only [join, List.getElem?_map, Option.map_eq_some_iff] at hs'
    obtain ⟨s, hs, rfl⟩ := hs'
    have hmem := List.mem_of_getElem? hs
    have he := s.evolves_join (hl.balanced s hmem) (hl.nodup s hmem) id'
    exact Or.inr ⟨by simp, s, hs, he.callers hid, he.key⟩
  | left id' _ =>
    simp only [leave, List.getElem?_map, Option.map_eq_some_iff] at hs'
    obtain ⟨s, hs, rfl⟩ := hs'
    have hmem := List.mem_of_getElem? hs
    have he := s.evolves_leave (hl.balanced s hmem) (hl.nodup s hmem) id'
    exact Or.inr ⟨by simp, s, hs, he.callers hid, he.key⟩
  | dropped id' hclone =>
    simp only [drop, List.getElem?_map, Option.map_eq_some_iff] at hs'
    obtain ⟨s, hs, rfl⟩ := hs'
    have hold := (s.sublist_drop id').subset hid
    refine Or.inr ⟨?_, s, hs, hold, rfl⟩
    -- A caller has one reference, so once it drops that it is gone.
    rintro ⟨⟩
    obtain ⟨s₁, hs₁, hclone⟩ := hclone
    obtain ⟨j, hj⟩ := List.getElem?_of_mem hs₁
    have hcaller : id ∈ s₁.callers := List.mem_append_left _ hclone
    obtain rfl := hl.onePlace hs hj hold hcaller
    obtain rfl := Option.some.inj (hs.symm.trans hj)
    obtain ⟨hclones, -, hdisjoint⟩ := List.nodup_append.mp (hl.nodup s hs₁)
    rcases List.mem_append.mp hid with hleft | hqueue
    · exact hclones.not_mem_erase hleft
    · exact hdisjoint _ hclone _ hqueue rfl

end

end Limiter

end ServiceCall
