import ServiceCall.Rehearsal.Performance

/-!
# What a peer receives in a rehearsal

An exchange sends its request at most once, and nothing else reaches the peer; one whose request
does not reach it has no answer. So what arrives during a run are requests of its attempts, in their
order, and those of all attempts that were answered are among them.
-/

namespace ServiceCall.Rehearsal

variable (r : Rehearsal)

/-! ## Connections -/

theorem received_use (id : Nat) (step : Usage → Usage × Int) :
    (r.use id step).received = r.received := by
  unfold use
  split <;> rfl

theorem received_close (id : Nat) : (r.close id).received = r.received := by
  unfold close
  split <;> rfl

theorem received_closeIf (p : Link → Bool) : (r.closeIf p).received = r.received := by
  unfold closeIf
  induction r.links.filter p generalizing r with
  | nil => rfl
  | cons link links ih => exact (ih _).trans (r.received_close link.id)

theorem received_setPooled (id : Nat) (since : Option Instant) :
    (r.setPooled id since).received = r.received := by
  unfold setPooled
  split <;> rfl

theorem received_moveTo (t : Instant) : (r.moveTo t).received = r.received := by
  unfold moveTo
  split <;> rfl

namespace Exchange

theorem received_release (link : Link) (h : Http.Headers) :
    (release r link h).received = r.received := by
  unfold release
  split
  · split <;> rfl
  · rfl

theorem received_settle (id : Nat) (head : Http.Head) (framing : Http.Framing) (lost : Bool) :
    (settle r id head framing lost).received = r.received := by
  unfold settle
  split
  · rfl
  · rename_i link _
    split
    · dsimp only
      split
      · rw [received_close, received_setPooled, received_release]
      · rw [received_setPooled, received_release]
    · rw [received_release, received_close]

theorem received_nextReply : (nextReply r).2.received = r.received := by
  unfold nextReply
  split <;> rfl

/-! ## One step -/

/-- The request has not reached the peer. -/
def IsUnsent (x : Exchange) : Prop :=
  match x.stage with
  | .queued | .connecting .. | .sending .. => True
  | .awaiting .. | .stalled .. | .ended _ => False

/-- Nothing of an answer has come or is on its way. -/
def IsUnheard (x : Exchange) : Prop :=
  match x.stage with
  | .queued | .connecting .. | .sending .. | .stalled .. => True
  | .awaiting _ reply => ∀ t due, reply = some (t, due) → t.bytes = []
  | .ended ending => ending.answer? = none

/-- The peer receives nothing, and so gives no answer, or it receives the request, which is not
sent again. -/
structure Delivers (x : Exchange) (r : Rehearsal) (out : Exchange × Rehearsal) : Prop where
  request : out.1.request = x.request
  received : out.2.received = r.received ∧ (out.1.IsUnsent → x.IsUnsent) ∧
      (x.IsUnheard → out.1.IsUnheard) ∨
    out.2.received = r.received ++ [x.request] ∧ x.IsUnsent ∧ ¬ out.1.IsUnsent

variable (x : Exchange) {r r' : Rehearsal}

theorem delivers_drop (h : r'.received = r.received) {ending : Ending}
    (hending : ending.answer? = none) : Delivers x r (x.drop r' ending) := by
  refine ⟨rfl, Or.inl ⟨?_, False.elim, fun _ => hending⟩⟩
  refine Eq.trans ?_ h
  change (x.link?.elim r' r'.close).received = r'.received
  cases x.link? with
  | none => rfl
  | some link => exact r'.received_close link

theorem delivers_granted (hx : x.IsUnsent) : Delivers x r (x.granted r) := by
  unfold granted
  dsimp only
  split
  · refine ⟨rfl, Or.inl ⟨?_, fun _ => hx, fun _ => trivial⟩⟩
    rw [received_setPooled]
    exact received_closeIf _ _
  · exact ⟨rfl, Or.inl ⟨received_closeIf _ _, fun _ => hx, fun _ => trivial⟩⟩

theorem delivers_connected (hx : x.IsUnsent) (timings : ConnectTimings) :
    Delivers x r (x.connected r timings) := by
  unfold connected
  split
  · exact ⟨rfl, Or.inl ⟨rfl, fun _ => hx, fun _ => trivial⟩⟩
  · exact ⟨rfl, Or.inl ⟨rfl, fun _ => hx, fun _ => rfl⟩⟩

theorem delivers_delivered (hx : x.IsUnsent) (link : Nat) :
    Delivers x r (x.delivered r link) := by
  unfold delivered
  dsimp only
  split
  · -- All that comes back is the end of the connection.
    refine ⟨rfl, Or.inl ⟨received_use .., fun _ => hx, fun _ t due hreply => ?_⟩⟩
    cases hreply
    rfl
  · refine ⟨rfl, Or.inr ⟨?_, hx, fun h => h⟩⟩
    rw [received_nextReply, received_use]

theorem delivers_stop (h : r'.received = r.received) (stalls : Bool) (link : Nat)
    (record : Option ConnRecord) :
    Delivers x r
      (if stalls then ({ x with stage := .stalled link record }, r') else x.fail r' record) := by
  split
  · exact ⟨rfl, Or.inl ⟨h, False.elim, fun _ => trivial⟩⟩
  · exact delivers_drop x h rfl

theorem delivers_complete (h : r'.received = r.received) (hx : ¬ x.IsUnheard) (link : Nat)
    (lost : Bool) (head : Http.Head) (framing : Http.Framing) (body : Bytes) :
    Delivers x r (x.complete r' link lost head framing body) :=
  ⟨rfl, Or.inl ⟨(received_settle r' link head framing lost).trans h, False.elim,
    fun hunheard => absurd hunheard hx⟩⟩

theorem bytes_of_isUnheard {link : Nat} {t : Transmission} {due : Instant} (hx : x.IsUnheard)
    (hstage : x.stage = .awaiting link (some (t, due))) : t.bytes = [] := by
  unfold IsUnheard at hx
  rw [hstage] at hx
  exact hx t due rfl

theorem delivers_arrived {link : Nat} {t : Transmission} {due : Instant}
    (hstage : x.stage = .awaiting link (some (t, due))) : Delivers x r (x.arrived r link t) := by
  have huse := r.received_use link fun u => (u.received r.now, 0)
  unfold arrived
  dsimp only
  split
  · exact delivers_stop x huse ..
  · rename_i head rest hhead
    have hheard : ¬ x.IsUnheard := by
      intro hx
      rw [bytes_of_isUnheard x hx hstage] at hhead
      cases hhead
    split
    · exact delivers_stop x huse ..
    · split
      · exact delivers_stop x huse ..
      · exact delivers_complete x huse hheard ..

theorem delivers_step (r : Rehearsal) : Delivers x r (x.step r) := by
  unfold step
  split
  · split
    · rename_i hstage
      exact delivers_granted x (by simp [IsUnsent, hstage])
    · rename_i hstage
      exact delivers_connected x (by simp [IsUnsent, hstage]) _
    · rename_i hstage
      exact delivers_delivered x (by simp [IsUnsent, hstage]) _
    · rename_i hstage
      exact delivers_arrived x hstage
    · exact delivers_drop x rfl rfl
  · exact delivers_drop x rfl rfl

/-! ## Whole exchanges -/

theorem received_follow (fuel : Nat) (x : Exchange) (r : Rehearsal) :
    (x.follow fuel r).2.received = r.received ∧
        (x.IsUnheard → (x.follow fuel r).1.answer? = none) ∨
      (x.follow fuel r).2.received = r.received ++ [x.request] ∧ x.IsUnsent := by
  induction fuel generalizing x r with
  | zero => exact Or.inl ⟨rfl, fun _ => rfl⟩
  | succ fuel ih =>
    rw [follow]
    split
    · rename_i ending hending
      refine Or.inl ⟨rfl, fun hx => ?_⟩
      unfold ending? at hending
      unfold IsUnheard at hx
      split at hending
      · rename_i stage hstage
        cases hending
        rw [hstage] at hx
        exact hx
      · cases hending
    · have hmoved : ((x.wake? r).elim r r.moveTo).received = r.received := by
        cases x.wake? r with
        | none => rfl
        | some t => exact r.received_moveTo t
      dsimp only
      generalize (x.wake? r).elim r r.moveTo = moved at hmoved
      obtain ⟨hrequest, hreceived⟩ := delivers_step x moved
      have hrest := ih (x.step moved).1 (x.step moved).2
      rw [hmoved] at hreceived
      rw [hrequest] at hrest
      rcases hreceived with ⟨hnone, hunsent, hunheard⟩ | ⟨hsent, hunsent, hdone⟩
      · rw [hnone] at hrest
        exact hrest.imp (And.imp_right fun hanswer hx => hanswer (hunheard hx))
          (And.imp_right hunsent)
      · obtain ⟨hrest, -⟩ | ⟨-, hagain⟩ := hrest
        · exact Or.inr ⟨hrest.trans hsent, hunsent⟩
        · exact absurd hagain hdone

end Exchange

/-- Without its request the peer gives no answer to an attempt. -/
theorem received_attempt (c : Call) (a : Attempt) (r : Rehearsal) :
    (attempt c a r).2.received = r.received ∧ (attempt c a r).1.answer? = none ∨
      (attempt c a r).2.received = r.received ++ [c.physicalRequest a] :=
  (Exchange.received_follow Exchange.maxSteps (r.ask c a).1 (r.ask c a).2).imp
    (And.imp_right fun hanswer => hanswer trivial) And.left

end ServiceCall.Rehearsal
