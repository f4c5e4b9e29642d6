import ServiceCall.Conn.Stream
import ServiceCall.Proofs.Conn.Leases

/-!
# What moves a lease

A stream tells of what it was asked to do once that has come back. A write counts if it took at
least one byte. A read counts whatever it gave: one that gave nothing begins the answer as well, and
then the next write begins another lease.
-/

namespace ServiceCall

/-- It came back and moved at least one byte. -/
def Polled.moved : Polled → Bool
  | .done n => 0 < n
  | .pending | .failed => false

def StreamOp.writes : StreamOp → Bool
  | .write | .writeVectored => true
  | .read | .flush | .shutdown => false

/-- What happens to an open stream. -/
inductive StreamEvent where
  | polled (op : StreamOp) (result : Polled) (t : Instant)
  /-- An attempt gives the connection back, and names its lease by when that began. -/
  | released (obtainedAt t : Instant)
  deriving DecidableEq

namespace WatchedStream

def step (s : WatchedStream) : StreamEvent → WatchedStream
  | .polled op result t => s.noted op result t
  | .released obtainedAt t => s.apply (s.usage.released obtainedAt t)

def after (s : WatchedStream) (events : List StreamEvent) : WatchedStream := events.foldl step s

@[simp] theorem after_nil (s : WatchedStream) : s.after [] = s := rfl

@[simp] theorem after_concat (s : WatchedStream) (events : List StreamEvent)
    (event : StreamEvent) : s.after (events ++ [event]) = (s.after events).step event := by
  simp [after]

/-- A read came back with so many bytes at this moment, while the newest lease was in use. -/
def ReadInLease (s : WatchedStream) (events : List StreamEvent) (n : Nat) (t : Instant) : Prop :=
  ∃ before later, events = before ++ .polled .read (.done n) t :: later ∧
    (s.after before).usage.inUse = true ∧
    (s.after before).usage.uses = (s.after events).usage.uses

/-! ## One event -/

/-- What a stream makes of an operation that came back or did not. -/
inductive Notes (s : WatchedStream) (op : StreamOp) (result : Polled) (t : Instant) :
    WatchedStream → Prop
  | wrote (hop : op.writes = true) (hmoved : result.moved = true) :
    Notes s op result t (s.apply (s.usage.wrote t))
  | received {n : Nat} (hop : op = .read) (hdone : result = .done n) :
    Notes s op result t (s.apply (s.usage.received t, 0))
  | nothing (hwrite : ¬ (op.writes = true ∧ result.moved = true))
    (hread : ∀ n, ¬ (op = .read ∧ result = .done n)) : Notes s op result t s

theorem notes (s : WatchedStream) (op : StreamOp) (result : Polled) (t : Instant) :
    s.Notes op result t (s.noted op result t) := by
  cases result with
  | pending => cases op <;> exact .nothing (by simp [Polled.moved]) (by simp)
  | failed => cases op <;> exact .nothing (by simp [Polled.moved]) (by simp)
  | done n =>
    cases op with
    | flush | shutdown => exact .nothing (by simp [StreamOp.writes]) (by simp)
    | read => exact .received rfl rfl
    | write | writeVectored =>
      simp only [noted]
      split
      · rename_i hn
        exact .wrote rfl (by simpa [Polled.moved] using hn)
      · rename_i hn
        exact .nothing (by simpa [Polled.moved, StreamOp.writes] using hn) (by simp)

section

variable {s : WatchedStream} {events : List StreamEvent} {event : StreamEvent} {n : Nat}
  {t : Instant}

theorem uses_le_step (s : WatchedStream) (event : StreamEvent) :
    s.usage.uses ≤ (s.step event).usage.uses := by
  cases event with
  | polled op result t =>
    have hnotes := s.notes op result t
    simp only [step]
    generalize s.noted op result t = next at hnotes
    cases hnotes with
    | wrote => exact Usage.uses_le_wrote ..
    | received => exact (Usage.uses_received ..).ge
    | nothing => exact Nat.le_refl _
  | released obtainedAt t =>
    rcases Usage.released_cases s.usage obtainedAt t with hsame | hgone
    · exact (congrArg Usage.uses hsame).ge
    · exact (congrArg Usage.uses hgone).ge

theorem uses_le_after (s : WatchedStream) (before later : List StreamEvent) :
    (s.after before).usage.uses ≤ (s.after (before ++ later)).usage.uses := by
  induction later using List.reverseRecOn with
  | nil => rw [List.append_nil]
  | append_singleton later event ih =>
    rw [← List.append_assoc, after_concat]
    exact Nat.le_trans ih (uses_le_step ..)

/-- As long as no lease begins, a read in the lease is the last event or was there before. -/
theorem readInLease_concat
    (huses : ((s.after events).step event).usage.uses = (s.after events).usage.uses) :
    s.ReadInLease (events ++ [event]) n t ↔
      event = .polled .read (.done n) t ∧ (s.after events).usage.inUse = true ∨
        s.ReadInLease events n t := by
  unfold ReadInLease
  rw [after_concat, huses]
  constructor
  · rintro ⟨before, later, heq, hinUse, hsame⟩
    rcases concat_eq_append_cons heq with ⟨rfl, rfl, hlast⟩ | ⟨later, rfl, rfl⟩
    · exact Or.inl ⟨hlast, hinUse⟩
    · exact Or.inr ⟨before, later, rfl, hinUse, hsame⟩
  · rintro (⟨rfl, hinUse⟩ | ⟨before, later, rfl, hinUse, hsame⟩)
    · exact ⟨events, [], rfl, hinUse, rfl⟩
    · exact ⟨before, later ++ [event], by simp, hinUse, hsame⟩

/-- A lease that has just begun has seen no read. -/
theorem not_readInLease_of_begun
    (huses : (s.after events).usage.uses < ((s.after events).step event).usage.uses) :
    ¬ s.ReadInLease (events ++ [event]) n t := by
  rintro ⟨before, later, heq, -, hsame⟩
  rw [after_concat] at hsame
  have hle : (s.after before).usage.uses ≤ (s.after events).usage.uses := by
    rcases concat_eq_append_cons heq with ⟨rfl, rfl, -⟩ | ⟨later, rfl, rfl⟩
    · exact Nat.le_refl _
    · exact uses_le_after ..
  omega

end

end WatchedStream

/-! ## The use of the connection -/

namespace Usage

variable {u : Usage} {lease : Lease}

theorem wrote_of_starts (h : u.startsLease = true) (t : Instant) :
    (u.wrote t).1 = { u.begun t with
      lease :=
        some ⟨t, decide (0 < u.uses), if u.idle then u.idleSince else none, some t, none⟩ } := by
  simp [wrote, h, begun]

theorem wrote_of_not_starts (h : ¬ u.startsLease = true) (t : Instant) :
    (u.wrote t).1 = { u with
      lease := u.lease.map fun l =>
        if l.firstByteAt.isNone then { l with wroteAt := some t } else l } := by
  simp [wrote, h]

/-- A lease in use is over for the next write once its answer has begun. -/
theorem startsLease_iff_of_inUse (hinUse : u.inUse = true) (hlease : u.lease = some lease) :
    u.startsLease = true ↔ lease.firstByteAt.isSome = true := by
  simp [startsLease, hinUse, hlease]

end Usage

namespace WatchedStream

/-- The newest lease knows whether a read has come back since it began, and when the first did. -/
structure Tracks (s : WatchedStream) (events : List StreamEvent) : Prop where
  leased : (s.after events).usage.inUse = true → (s.after events).usage.lease.isSome = true
  wrote : ∀ lease ∈ (s.after events).usage.lease, lease.wroteAt.isSome = true
  answered : ∀ lease ∈ (s.after events).usage.lease, ∀ t, lease.firstByteAt = some t →
    ∃ n, s.ReadInLease events n t
  unanswered : ∀ lease ∈ (s.after events).usage.lease, lease.firstByteAt = none →
    ∀ n t, ¬ s.ReadInLease events n t

section

variable {s : WatchedStream} {events : List StreamEvent}

theorem tracks_new (host : String) (vectored : Bool) : (new host vectored).Tracks [] where
  leased := nofun
  wrote := nofun
  answered := nofun
  unanswered := nofun

/-- Nothing that the chronicle of a lease knows has changed. -/
theorem Tracks.of_same (h : s.Tracks events) {event : StreamEvent}
    (hlease : ((s.after events).step event).usage.lease = (s.after events).usage.lease)
    (hinUse : ((s.after events).step event).usage.inUse = true →
      (s.after events).usage.inUse = true)
    (huses : ((s.after events).step event).usage.uses = (s.after events).usage.uses)
    (hread : ∀ n t, event = .polled .read (.done n) t → (s.after events).usage.inUse = false) :
    s.Tracks (events ++ [event]) := by
  have hreads : ∀ n t, s.ReadInLease (events ++ [event]) n t ↔ s.ReadInLease events n t := by
    intro n t
    rw [readInLease_concat huses]
    refine or_iff_right ?_
    rintro ⟨hevent, htrue⟩
    rw [hread n t hevent] at htrue
    cases htrue
  refine ⟨?_, ?_, ?_, ?_⟩ <;> simp only [after_concat, hlease, hreads]
  · exact fun htrue => h.leased (hinUse htrue)
  · exact h.wrote
  · exact h.answered
  · exact h.unanswered

theorem Tracks.wrote_step (h : s.Tracks events) {op : StreamOp} {result : Polled} {t : Instant}
    (hstep : (s.after events).step (.polled op result t) =
      (s.after events).apply ((s.after events).usage.wrote t))
    (hop : op.writes = true) : s.Tracks (events ++ [.polled op result t]) := by
  have husage : ((s.after events).step (.polled op result t)).usage =
      ((s.after events).usage.wrote t).1 := congrArg usage hstep
  by_cases hstarts : (s.after events).usage.startsLease = true
  · rw [Usage.wrote_of_starts hstarts] at husage
    have hnone : ∀ n t', ¬ s.ReadInLease (events ++ [.polled op result t]) n t' := by
      intro n t'
      refine not_readInLease_of_begun ?_
      rw [husage]
      exact Nat.lt_succ_self _
    refine ⟨?_, ?_, ?_, ?_⟩ <;> simp only [after_concat, husage, Option.mem_some, forall_eq']
    · exact fun _ => rfl
    · rfl
    · exact fun _ hanswered => nomatch hanswered
    · exact fun _ => hnone
  · rw [Usage.wrote_of_not_starts hstarts] at husage
    have hreads : ∀ n t', s.ReadInLease (events ++ [.polled op result t]) n t' ↔
        s.ReadInLease events n t' := by
      intro n t'
      rw [readInLease_concat (by rw [husage])]
      refine or_iff_right ?_
      rintro ⟨hevent, -⟩
      cases hevent
      cases hop
    -- The write is noted in the lease, and what the lease knows of its answer stays.
    have hback : ∀ lease ∈ ((s.after events).step (.polled op result t)).usage.lease,
        ∃ before ∈ (s.after events).usage.lease, lease.firstByteAt = before.firstByteAt ∧
          (before.wroteAt.isSome = true → lease.wroteAt.isSome = true) := by
      intro lease hlease
      rw [husage] at hlease
      obtain ⟨before, hbefore, rfl⟩ := Option.map_eq_some_iff.mp hlease
      refine ⟨before, hbefore, ?_⟩
      split <;> simp
    refine ⟨?_, ?_, ?_, ?_⟩ <;> simp only [after_concat, hreads]
    · rw [husage]
      intro hinUse
      simpa using h.leased hinUse
    · intro lease hlease
      obtain ⟨before, hbefore, -, hwrote⟩ := hback lease hlease
      exact hwrote (h.wrote before hbefore)
    · intro lease hlease t' ht'
      obtain ⟨before, hbefore, hfirst, -⟩ := hback lease hlease
      exact h.answered before hbefore t' (hfirst ▸ ht')
    · intro lease hlease hnone
      obtain ⟨before, hbefore, hfirst, -⟩ := hback lease hlease
      exact h.unanswered before hbefore (hfirst ▸ hnone)

theorem Tracks.received_step (h : s.Tracks events) (n : Nat) (t : Instant) :
    s.Tracks (events ++ [.polled .read (.done n) t]) := by
  have husage : ((s.after events).step (.polled .read (.done n) t)).usage =
      (s.after events).usage.received t := rfl
  cases hinUse : (s.after events).usage.inUse with
  | false =>
    have hsame : (s.after events).usage.received t = (s.after events).usage := by
      simp [Usage.received, hinUse]
    rw [hsame] at husage
    exact h.of_same (congrArg _ husage) (fun htrue => by rwa [husage] at htrue)
      (congrArg _ husage) (fun _ _ _ => hinUse)
  | true =>
    have hread : ∀ n' t', s.ReadInLease (events ++ [.polled .read (.done n) t]) n' t' ↔
        (n = n' ∧ t = t') ∨ s.ReadInLease events n' t' := by
      intro n' t'
      rw [readInLease_concat (by rw [husage, Usage.uses_received])]
      simp [hinUse]
    obtain ⟨before, hbefore⟩ := Option.isSome_iff_exists.mp (h.leased hinUse)
    have hwrote := h.wrote before hbefore
    have hlease : ((s.after events).usage.received t).lease = some
        (if before.firstByteAt.isNone then { before with firstByteAt := some t } else before) := by
      simp [Usage.received, hinUse, hbefore, hwrote]
    refine ⟨?_, ?_, ?_, ?_⟩ <;>
      simp only [after_concat, husage, hlease, Option.mem_some, forall_eq', hread]
    · exact fun _ => rfl
    · split <;> exact hwrote
    · intro t' ht'
      cases hfirst : before.firstByteAt with
      | none =>
        simp only [hfirst, Option.isNone_none, if_true, Option.some.injEq] at ht'
        exact ⟨n, Or.inl ⟨rfl, ht'⟩⟩
      | some first =>
        simp only [hfirst, Option.isNone_some, Bool.false_eq_true, if_false] at ht'
        obtain ⟨n', hn'⟩ := h.answered before hbefore t' (by rw [hfirst, ht'])
        exact ⟨n', Or.inr hn'⟩
    · intro hnone
      split at hnone
      · cases hnone
      · rename_i hfirst
        simp [hnone] at hfirst

theorem Tracks.released_step (h : s.Tracks events) (obtainedAt t : Instant) :
    s.Tracks (events ++ [.released obtainedAt t]) := by
  have husage : ((s.after events).step (.released obtainedAt t)).usage =
      ((s.after events).usage.released obtainedAt t).1 := rfl
  rcases Usage.released_cases (s.after events).usage obtainedAt t with hsame | hgone
  · rw [hsame] at husage
    exact h.of_same (congrArg _ husage) (fun htrue => by rwa [husage] at htrue)
      (congrArg _ husage) nofun
  · rw [hgone] at husage
    exact h.of_same (by rw [husage]) (fun htrue => by simp [husage] at htrue)
      (by rw [husage]) nofun

theorem Tracks.answered_iff (h : s.Tracks events) {lease : Lease}
    (hlease : (s.after events).usage.lease = some lease) :
    lease.firstByteAt.isSome = true ↔ ∃ n t, s.ReadInLease events n t := by
  constructor
  · intro hsome
    obtain ⟨first, hfirst⟩ := Option.isSome_iff_exists.mp hsome
    obtain ⟨n, hread⟩ := h.answered lease hlease first hfirst
    exact ⟨n, first, hread⟩
  · rintro ⟨n, t, hread⟩
    by_contra hnone
    exact h.unanswered lease hlease (by simpa using hnone) n t hread

theorem Tracks.concat (h : s.Tracks events) (event : StreamEvent) :
    s.Tracks (events ++ [event]) := by
  cases event with
  | released obtainedAt t => exact h.released_step obtainedAt t
  | polled op result t =>
    have hnotes := (s.after events).notes op result t
    generalize hnext : (s.after events).noted op result t = next at hnotes
    cases hnotes with
    | wrote hop _ => exact h.wrote_step hnext hop
    | received hop hdone =>
      subst hop hdone
      exact h.received_step _ t
    | nothing _ hread =>
      have hsame : (s.after events).step (.polled op result t) = s.after events := hnext
      refine h.of_same (by rw [hsame]) (fun htrue => by rwa [hsame] at htrue) (by rw [hsame]) ?_
      rintro n t' hevent
      cases hevent
      exact absurd ⟨rfl, rfl⟩ (hread n)

end

theorem tracks (host : String) (vectored : Bool) (events : List StreamEvent) :
    (new host vectored).Tracks events := by
  induction events using List.reverseRecOn with
  | nil => exact tracks_new host vectored
  | append_singleton events event ih => exact ih.concat event

/-- In use, the next lease begins with a write that takes a byte, after the answer has begun. -/
theorem uses_noted_iff {s : WatchedStream} {lease : Lease} (hinUse : s.usage.inUse = true)
    (hlease : s.usage.lease = some lease) (op : StreamOp) (result : Polled) (t : Instant) :
    (s.noted op result t).usage.uses ≠ s.usage.uses ↔
      op.writes = true ∧ result.moved = true ∧ lease.firstByteAt.isSome = true := by
  have hnotes := s.notes op result t
  generalize s.noted op result t = next at hnotes
  cases hnotes with
  | wrote hop hmoved =>
    rw [← Usage.startsLease_iff_of_inUse hinUse hlease]
    by_cases hstarts : s.usage.startsLease = true
    · simp [apply, Usage.wrote_of_starts hstarts, Usage.begun, hop, hmoved, hstarts]
    · simp [apply, Usage.wrote_of_not_starts hstarts, hstarts]
  | received hop _ => simp [apply, hop, StreamOp.writes]
  | nothing hwrite _ => simpa using fun hop hmoved => absurd ⟨hop, hmoved⟩ hwrite

/-- Whatever else the gauges count, the use of a connection and the gauges change with nothing but
writes that took a byte and reads that came back, and it is all the same whether a write was
vectored and what a read gave. A lease knows of a first byte if a read came back while it was in
use. As long as it has not been given back, the next one begins with a write that takes a byte, if
there was such a read and not otherwise. -/
theorem transfers_move_leases (host : String) (vectored : Bool) (events : List StreamEvent) :
    let start := new host vectored
    let usage := (start.after events).usage
    (∀ (s : WatchedStream) op result t, s.noted op result t ≠ s →
      op.writes = true ∧ result.moved = true ∨ op = .read ∧ ∃ n, result = .done n) ∧
    (∀ (s : WatchedStream) result t, s.noted .writeVectored result t = s.noted .write result t) ∧
    (∀ (s : WatchedStream) n n' t, s.noted .read (.done n) t = s.noted .read (.done n') t) ∧
    (∀ lease ∈ usage.lease,
      (∀ t, lease.firstByteAt = some t → ∃ n, start.ReadInLease events n t) ∧
      (lease.firstByteAt = none → ∀ n t, ¬ start.ReadInLease events n t)) ∧
    (usage.inUse = true → ∀ op result t,
      ((start.after events).noted op result t).usage.uses ≠ usage.uses ↔
        op.writes = true ∧ result.moved = true ∧ ∃ n t', start.ReadInLease events n t') := by
  intro start usage
  have htracks := tracks host vectored events
  refine ⟨?_, ?_, fun _ _ _ _ => rfl, ?_, ?_⟩
  · intro s op result t hne
    have hnotes := s.notes op result t
    generalize s.noted op result t = next at hnotes hne
    cases hnotes with
    | wrote hop hmoved => exact Or.inl ⟨hop, hmoved⟩
    | received hop hdone => exact Or.inr ⟨hop, _, hdone⟩
    | nothing => exact absurd rfl hne
  · intro s result t
    cases result <;> rfl
  · exact fun lease hlease => ⟨htracks.answered lease hlease, htracks.unanswered lease hlease⟩
  · intro hinUse op result t
    obtain ⟨lease, hlease⟩ := Option.isSome_iff_exists.mp (htracks.leased hinUse)
    rw [uses_noted_iff hinUse hlease, htracks.answered_iff hlease]

/-- A request is written, and five bytes of its answer are read. -/
def exchanged : List StreamEvent :=
  [.polled .write (.done 3) ⟨0⟩, .polled .write .pending ⟨1⟩, .polled .read (.done 5) ⟨4⟩]

theorem transfers_move_leases_of_exchanged :
    let start := new "api:80" true
    let s := start.after exchanged
    (∃ n, start.ReadInLease exchanged n ⟨4⟩) ∧ s.usage.inUse = true ∧ s.usage.uses = 1 ∧
      (s.noted .writeVectored (.done 2) ⟨9⟩).usage.uses ≠ 1 ∧
      (s.noted .writeVectored (.done 0) ⟨9⟩).usage.uses = 1 := by
  intro start s
  obtain ⟨-, -, -, hlease, hbegins⟩ := transfers_move_leases "api:80" true exchanged
  have hfirst := (hlease ⟨⟨0⟩, false, none, some ⟨0⟩, some ⟨4⟩⟩ (by decide)).1 ⟨4⟩ rfl
  obtain ⟨n, hread⟩ := id hfirst
  have hinUse : s.usage.inUse = true := by decide
  refine ⟨hfirst, hinUse, by decide, ?_, by decide⟩
  exact (hbegins hinUse .writeVectored (.done 2) ⟨9⟩).mpr ⟨rfl, rfl, n, ⟨4⟩, hread⟩

/-- A read that gave no byte changes the use, is taken for the first byte, and lets the next write
begin another lease although the one before it was not given back. -/
theorem empty_read_moves_lease :
    let s := (new "api:80" false).after [.polled .write (.done 5) ⟨0⟩]
    let s' := s.noted .read (.done 0) ⟨1⟩
    s' ≠ s ∧ s'.usage.inUse = true ∧
      s'.usage.lease = some ⟨⟨0⟩, false, none, some ⟨0⟩, some ⟨1⟩⟩ ∧
      (s'.noted .write (.done 5) ⟨2⟩).usage.uses = s'.usage.uses + 1 := by
  decide

end WatchedStream

end ServiceCall
