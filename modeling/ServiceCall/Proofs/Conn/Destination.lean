import ServiceCall.Conn.Record
import ServiceCall.Proofs.Pool.Ledger
import Mathlib.Logic.Relation

/-!
# Connections of one destination

Any number of attempts that share the permits and the connections of one destination; their steps
may come in any order. An attempt asks for a connection, waits for a permit, takes a connection
out of the pool or dials one if the pool is empty, has its answer, and gives up first the
connection and then the permit. It may also be dropped before.
-/

namespace ServiceCall

/-! ## States -/

/-- Where a connection is. -/
inductive Place where
  /-- An attempt waits for it to be established. -/
  | dialing (attempt : Nat)
  | lent (attempt : Nat)
  | pooled
  | closed (t : Instant)
  deriving DecidableEq, Repr

namespace Place

def isOpen : Place → Bool
  | .closed _ => false
  | _ => true

def attempt? : Place → Option Nat
  | .dialing attempt => some attempt
  | .lent attempt => some attempt
  | _ => none

theorem isOpen_of_attempt? {p : Place} {i : Nat} (h : p.attempt? = some i) : p.isOpen = true := by
  cases p with
  | closed t => cases h
  | _ => rfl

end Place

structure Link where
  place : Place
  /-- The dialing began. -/
  dialedAt : Instant
  timings : ConnectTimings
  usage : Usage
  deriving DecidableEq, Repr

namespace Link

def dialing (attempt : Nat) (t : Instant) : Link := ⟨.dialing attempt, t, default, .unused⟩

def closed (l : Link) (t : Instant) : Link := { l with place := .closed t }

end Link

namespace Destination

/-- How far an attempt has come. -/
inductive Stage where
  | asked
  /-- It waits for a permit, or has one and no connection yet. -/
  | queued
  | dialing (link : Nat)
  /-- It has the connection, and no answer yet. -/
  | sending (link : Nat)
  /-- The head of the answer is there, but not the end of its body. -/
  | reading (link : Nat) (lease : Lease) (record : ConnRecord)
  /-- The connection is given up, but not the permit. -/
  | parting (link : Nat) (record : ConnRecord)
  | done (link : Nat) (record : ConnRecord)
  | dropped
  deriving DecidableEq, Repr

structure Visit where
  requestedAt : Instant
  stage : Stage
  deriving DecidableEq, Repr

namespace Stage

/-- The connection that the attempt has or waits for. -/
def link? : Stage → Option Nat
  | .dialing link => some link
  | .sending link => some link
  | .reading link _ _ => some link
  | _ => none

/-- The connection that the attempt has or waits for, or had in the end. -/
def lastLink? : Stage → Option Nat
  | .parting link _ => some link
  | .done link _ => some link
  | stage => stage.link?

def hasPermit : Stage → Bool
  | .parting _ _ => true
  | stage => stage.link?.isSome

/-- The connection whose answer the attempt reads, with the lease that it found at its head. -/
def reading? : Stage → Option (Nat × Lease)
  | .reading link lease _ => some (link, lease)
  | _ => none

/-- The connection that the attempt has got, with the record of it. -/
def record? : Stage → Option (Nat × ConnRecord)
  | .reading link _ record => some (link, record)
  | .parting link record => some (link, record)
  | .done link record => some (link, record)
  | _ => none

/-- The same, once the attempt has had its whole answer. -/
def finished? : Stage → Option (Nat × ConnRecord)
  | .parting link record => some (link, record)
  | .done link record => some (link, record)
  | _ => none

theorem hasPermit_of_link? {stage : Stage} {n : Nat} (h : stage.link? = some n) :
    stage.hasPermit = true := by
  unfold hasPermit
  split
  · rfl
  · rw [h]
    rfl

theorem link?_of_reading? {stage : Stage} {n : Nat} {lease : Lease}
    (h : stage.reading? = some (n, lease)) : stage.link? = some n := by
  cases stage <;> cases h
  rfl

theorem link?_of_lastLink? {stage : Stage} {n : Nat} (h : stage.lastLink? = some n)
    (hnone : stage.finished? = none) : stage.link? = some n := by
  cases stage with
  | parting _ _ => cases hnone
  | done _ _ => cases hnone
  | _ => exact h

theorem lastLink?_of_record? {stage : Stage} {n : Nat} {r : ConnRecord}
    (h : stage.record? = some (n, r)) : stage.lastLink? = some n := by
  cases stage <;> cases h <;> rfl

theorem finished?_or_link? {stage : Stage} {n : Nat} {r : ConnRecord}
    (h : stage.record? = some (n, r)) :
    stage.finished? = some (n, r) ∨ stage.link? = some n := by
  cases stage with
  | reading link lease record =>
    cases h
    exact Or.inr rfl
  | _ => exact Or.inl h

theorem record?_of_finished? {stage : Stage} {n : Nat} {r : ConnRecord}
    (h : stage.finished? = some (n, r)) : stage.record? = some (n, r) := by
  cases stage <;> cases h <;> rfl

end Stage

end Destination

/-- One destination, its connections and attempts by number. -/
structure Destination where
  host : String
  now : Instant
  queue : Queue
  links : List Link
  visits : List Destination.Visit
  deriving DecidableEq, Repr

namespace Destination

def quiet (host key : String) (limit : Nat) (now : Instant) : Destination :=
  ⟨host, now, ⟨key, limit, []⟩, [], []⟩

/-! ## Steps -/

/-- What can happen: time passes, an attempt goes on, bytes come, or a connection in the pool is
closed. A connection is dialed only while the pool is empty. -/
inductive Step (s : Destination) : Destination → Prop
  | passed {t} (h : s.now ≤ t) : Step s { s with now := t }
  | asked : Step s { s with visits := s.visits ++ [⟨s.now, .asked⟩] }
  | joined {i t} (hv : s.visits[i]? = some ⟨t, .asked⟩) :
      Step s { s with queue := s.queue.join i, visits := s.visits.set i ⟨t, .queued⟩ }
  | took {i t n l} (hv : s.visits[i]? = some ⟨t, .queued⟩) (hg : (i, .granted) ∈ s.queue.tickets)
      (hl : s.links[n]? = some l) (hp : l.place = .pooled) :
      Step s { s with
        links := s.links.set n { l with place := .lent i }
        visits := s.visits.set i ⟨t, .sending n⟩ }
  | dialing {i t} (hv : s.visits[i]? = some ⟨t, .queued⟩) (hg : (i, .granted) ∈ s.queue.tickets)
      (hp : ∀ l ∈ s.links, l.place ≠ .pooled) :
      Step s { s with
        links := s.links ++ [.dialing i s.now]
        visits := s.visits.set i ⟨t, .dialing s.links.length⟩ }
  | dialed {i t n l} (marks : ConnectMarks) (secure : Bool)
      (hv : s.visits[i]? = some ⟨t, .dialing n⟩) (hl : s.links[n]? = some l) :
      Step s { s with
        links := s.links.set n
          { l with place := .lent i, timings := marks.timings l.dialedAt s.now secure }
        visits := s.visits.set i ⟨t, .sending n⟩ }
  | wrote {n l i} (hl : s.links[n]? = some l) (hp : l.place = .lent i) :
      Step s { s with links := s.links.set n { l with usage := (l.usage.wrote s.now).1 } }
  | received {n l} (hl : s.links[n]? = some l) :
      Step s { s with links := s.links.set n { l with usage := l.usage.received s.now } }
  | headed {i t n l lease} (hv : s.visits[i]? = some ⟨t, .sending n⟩)
      (hl : s.links[n]? = some l) (hlease : l.usage.current? = some lease)
      (hbyte : lease.firstByteAt.isSome = true) :
      Step s { s with
        visits := s.visits.set i
          ⟨t, .reading n lease (.classify s.host t lease l.timings)⟩ }
  /-- The connection is in the pool at once, so before the permit is free. A transport may also take
  a moment to put it there, as `Rehearsal.breath` allows for; in that moment another attempt with a
  permit would dial. -/
  | released {i t n l lease record} (hv : s.visits[i]? = some ⟨t, .reading n lease record⟩)
      (hl : s.links[n]? = some l) :
      Step s { s with
        links := s.links.set n
          { l with place := .pooled, usage := (l.usage.released lease.obtainedAt s.now).1 }
        visits := s.visits.set i ⟨t, .parting n record⟩ }
  | closed {i t n l lease record} (hv : s.visits[i]? = some ⟨t, .reading n lease record⟩)
      (hl : s.links[n]? = some l) :
      Step s { s with
        links := s.links.set n (l.closed s.now)
        visits := s.visits.set i ⟨t, .parting n record⟩ }
  | left {i t n record} (hv : s.visits[i]? = some ⟨t, .parting n record⟩) :
      Step s { s with queue := s.queue.leave i, visits := s.visits.set i ⟨t, .done n record⟩ }
  | lost {n l} (hl : s.links[n]? = some l) (hp : l.place = .pooled) :
      Step s { s with links := s.links.set n (l.closed s.now) }
  | withdrew {i t} (hv : s.visits[i]? = some ⟨t, .queued⟩) :
      Step s { s with queue := s.queue.leave i, visits := s.visits.set i ⟨t, .dropped⟩ }
  | broke {i v n l} (hv : s.visits[i]? = some v) (hn : v.stage.link? = some n)
      (hl : s.links[n]? = some l) :
      Step s { s with
        queue := s.queue.leave i
        links := s.links.set n (l.closed s.now)
        visits := s.visits.set i ⟨v.requestedAt, .dropped⟩ }

/-- Any number of steps. -/
abbrev Run : Destination → Destination → Prop := Relation.ReflTransGen Step

variable {limit : Nat} {s s' : Destination} {queue : Queue} {links : List Link}
  {visits : List Visit}

/-! ## Lists with one element replaced -/

theorem set_cases {α : Type} {xs : List α} {i j : Nat} {a b : α}
    (h : (xs.set i a)[j]? = some b) : j = i ∧ b = a ∨ j ≠ i ∧ xs[j]? = some b := by
  rw [List.getElem?_set] at h
  split at h
  · rename_i hij
    split at h
    · exact Or.inl ⟨hij.symm, (Option.some.inj h).symm⟩
    · cases h
  · rename_i hij
    exact Or.inr ⟨Ne.symm hij, h⟩

theorem concat_cases {α : Type} {xs : List α} {j : Nat} {a b : α}
    (h : (xs ++ [a])[j]? = some b) : j = xs.length ∧ b = a ∨ xs[j]? = some b := by
  rcases Nat.lt_trichotomy j xs.length with hj | rfl | hj
  · rw [List.getElem?_append_left hj] at h
    exact Or.inr h
  · rw [List.getElem?_concat_length] at h
    exact Or.inl ⟨rfl, (Option.some.inj h).symm⟩
  · rw [List.getElem?_eq_none (by simp; omega)] at h
    cases h

theorem lt_length_of_getElem? {α : Type} {xs : List α} {j : Nat} {a : α} (h : xs[j]? = some a) :
    j < xs.length := by
  obtain ⟨hj, -⟩ := List.getElem?_eq_some_iff.mp h
  exact hj

/-! ## What attempts tell -/

section

variable {β : Type} {i : Nat} {v : Visit}

def told (visits : List Visit) (f : Stage → Option β) (i : Nat) : Option β :=
  visits[i]?.bind (f ·.stage)

theorem told_eq (hv : visits[i]? = some v) (f : Stage → Option β) :
    told visits f i = f v.stage := by
  rw [told, hv, Option.bind_some]

theorem told_mono {γ : Type} {f : Stage → Option β} {g : Stage → Option γ} {b : β} {c : γ}
    (hfg : ∀ stage, f stage = some b → g stage = some c) (h : told visits f i = some b) :
    told visits g i = some c := by
  obtain ⟨v, hv, hstage⟩ := Option.bind_eq_some_iff.mp h
  rw [told_eq hv, hfg _ hstage]

theorem told_set (hv : visits[i]? = some v) (v' : Visit) (f : Stage → Option β) (j : Nat) :
    told (visits.set i v') f j = if j = i then f v'.stage else told visits f j := by
  unfold told
  split
  · rename_i h
    rw [h, List.getElem?_set_self (lt_length_of_getElem? hv), Option.bind_some]
  · rename_i h
    rw [List.getElem?_set_ne (Ne.symm h)]

theorem told_ask (t : Instant) (f : Stage → Option β) (hf : f .asked = none) (j : Nat) :
    told (visits ++ [⟨t, .asked⟩]) f j = told visits f j := by
  unfold told
  rcases Nat.lt_trichotomy j visits.length with h | rfl | h
  · rw [List.getElem?_append_left h]
  · rw [List.getElem?_concat_length, List.getElem?_eq_none (Nat.le_refl _), Option.bind_some, hf,
      Option.bind_none]
  · rw [List.getElem?_eq_none (by simp; omega), List.getElem?_eq_none (by omega)]

end

/-! ## Permits -/

/-- An attempt that has or wants a connection holds a permit; an attempt that has just asked is
not in the queue. -/
structure Permitted (limit : Nat) (queue : Queue) (visits : List Visit) : Prop where
  balanced : queue.Balanced limit
  nodup : queue.ids.Nodup
  known : ∀ i ∈ queue.ids, i < visits.length
  outside : ∀ i v, visits[i]? = some v → v.stage = .asked → i ∉ queue.ids
  granted : ∀ i v, visits[i]? = some v → v.stage.hasPermit = true → (i, .granted) ∈ queue.tickets

namespace Permitted

variable {i : Nat} {v : Visit}

theorem set (h : Permitted limit queue visits) (hasked : v.stage ≠ .asked)
    (hg : v.stage.hasPermit = true → (i, .granted) ∈ queue.tickets) :
    Permitted limit queue (visits.set i v) where
  balanced := h.balanced
  nodup := h.nodup
  known j hj := by
    rw [List.length_set]
    exact h.known j hj
  outside j w hw hstage := by
    rcases set_cases hw with ⟨rfl, rfl⟩ | ⟨-, hw⟩
    · exact absurd hstage hasked
    · exact h.outside j w hw hstage
  granted j w hw hpermit := by
    rcases set_cases hw with ⟨rfl, rfl⟩ | ⟨-, hw⟩
    · exact hg hpermit
    · exact h.granted j w hw hpermit

theorem ask (h : Permitted limit queue visits) (t : Instant) :
    Permitted limit queue (visits ++ [⟨t, .asked⟩]) where
  balanced := h.balanced
  nodup := h.nodup
  known j hj := by
    have hlt := h.known j hj
    rw [List.length_append]
    omega
  outside j w hw hstage := by
    rcases concat_cases hw with ⟨rfl, -⟩ | hw
    · intro hmem
      exact absurd (h.known _ hmem) (Nat.lt_irrefl _)
    · exact h.outside j w hw hstage
  granted j w hw hpermit := by
    rcases concat_cases hw with ⟨-, rfl⟩ | hw
    · cases hpermit
    · exact h.granted j w hw hpermit

theorem join {t : Instant} (h : Permitted limit queue visits)
    (hv : visits[i]? = some ⟨t, .asked⟩) :
    Permitted limit (queue.join i) (visits.set i ⟨t, .queued⟩) where
  balanced := h.balanced.join i
  nodup := by
    rw [Queue.ids_join, ← List.concat_eq_append]
    exact h.nodup.concat (h.outside i _ hv rfl)
  known j hj := by
    rw [Queue.ids_join, List.mem_append, List.mem_singleton] at hj
    rw [List.length_set]
    rcases hj with hj | rfl
    · exact h.known j hj
    · exact lt_length_of_getElem? hv
  outside j w hw hstage := by
    rcases set_cases hw with ⟨-, rfl⟩ | ⟨hne, hw⟩
    · cases hstage
    · have hout := h.outside j w hw hstage
      simp [hout, hne]
  granted j w hw hpermit := by
    rcases set_cases hw with ⟨-, rfl⟩ | ⟨-, hw⟩
    · cases hpermit
    · exact Queue.mem_join (h.granted j w hw hpermit) i

/-- An attempt that leaves the queue needs no permit afterwards. -/
theorem leave (h : Permitted limit queue visits) (hasked : v.stage ≠ .asked)
    (hg : v.stage.hasPermit = false) :
    Permitted limit (queue.leave i) (visits.set i v) where
  balanced := h.balanced.leave h.nodup i
  nodup := by
    rw [Queue.ids_leave]
    exact h.nodup.filter _
  known j hj := by
    rw [Queue.ids_leave] at hj
    rw [List.length_set]
    exact h.known j (List.mem_of_mem_filter hj)
  outside j w hw hstage := by
    rw [Queue.ids_leave]
    rcases set_cases hw with ⟨rfl, rfl⟩ | ⟨-, hw⟩
    · exact absurd hstage hasked
    · intro hmem
      exact h.outside j w hw hstage (List.mem_of_mem_filter hmem)
  granted j w hw hpermit := by
    rcases set_cases hw with ⟨rfl, rfl⟩ | ⟨hne, hw⟩
    · rw [hg] at hpermit
      cases hpermit
    · exact Queue.granted_mem_leave (h.granted j w hw hpermit) hne

end Permitted

theorem Step.permitted (h : Step s s') (hp : Permitted limit s.queue s.visits) :
    Permitted limit s'.queue s'.visits := by
  cases h with
  | passed _ => exact hp
  | asked => exact hp.ask _
  | joined hv => exact hp.join hv
  | took _ hg _ _ => exact hp.set nofun fun _ => hg
  | dialing _ hg _ => exact hp.set nofun fun _ => hg
  | dialed _ _ hv _ => exact hp.set nofun fun _ => hp.granted _ _ hv rfl
  | wrote _ _ => exact hp
  | received _ => exact hp
  | headed hv _ _ _ => exact hp.set nofun fun _ => hp.granted _ _ hv rfl
  | released hv _ => exact hp.set nofun fun _ => hp.granted _ _ hv rfl
  | closed hv _ => exact hp.set nofun fun _ => hp.granted _ _ hv rfl
  | left _ => exact hp.leave nofun rfl
  | lost _ _ => exact hp
  | withdrew _ => exact hp.leave nofun rfl
  | broke _ _ _ => exact hp.leave nofun rfl

end Destination

end ServiceCall
