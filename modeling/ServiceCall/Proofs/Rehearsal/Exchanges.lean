import ServiceCall.Proofs.Call.Worlds
import ServiceCall.Rehearsal.Performance

/-!
# Exchanges in a rehearsal, step by step

An exchange and its connections change only the number of idle connections of what the calls
share, and take no time but between steps; so a rehearsal is a world whose clock does not go back.
-/

namespace ServiceCall

/-! ## Connections -/

namespace Traffic

@[simp] theorem addAvail_addAvail (t : Traffic) (a b : Int) :
    (t.addAvail a).addAvail b = t.addAvail (a + b) := by
  simp [addAvail, Gauges.addAvail, Int.add_assoc]

@[simp] theorem addAvail_zero (t : Traffic) : t.addAvail 0 = t := by
  simp [addAvail, Gauges.addAvail]

end Traffic

namespace Rehearsal

/-- No time passes, and of what the calls share only the number of idle connections changes. -/
structure Idles (r r' : Rehearsal) : Prop where
  now : r'.now = r.now
  serial : r.serial ≤ r'.serial
  traffic : ∃ n, r'.traffic = r.traffic.addAvail n

theorem Idles.refl (r : Rehearsal) : Idles r r := ⟨rfl, Nat.le_refl _, 0, by simp⟩

theorem Idles.trans {r₁ r₂ r₃ : Rehearsal} (h : Idles r₁ r₂) (h' : Idles r₂ r₃) : Idles r₁ r₃ := by
  obtain ⟨a, ha⟩ := h.traffic
  obtain ⟨b, hb⟩ := h'.traffic
  exact ⟨h'.now.trans h.now, Nat.le_trans h.serial h'.serial, a + b, by rw [hb, ha]; simp⟩

theorem idles_use (r : Rehearsal) (id : Nat) (step : Usage → Usage × Int) :
    Idles r (r.use id step) := by
  unfold use
  split
  · exact .refl r
  · exact ⟨rfl, Nat.le_refl _, _, rfl⟩

theorem idles_close (r : Rehearsal) (id : Nat) : Idles r (r.close id) := by
  unfold close
  split
  · exact .refl r
  · exact ⟨rfl, Nat.le_refl _, _, rfl⟩

theorem idles_closeIf (r : Rehearsal) (p : Link → Bool) : Idles r (r.closeIf p) := by
  unfold closeIf
  generalize r.links.filter p = links
  induction links generalizing r with
  | nil => exact .refl r
  | cons link links ih => exact (idles_close r link.id).trans (ih _)

theorem idles_setPooled (r : Rehearsal) (id : Nat) (since : Option Instant) :
    Idles r (r.setPooled id since) := by
  unfold setPooled
  split
  · exact .refl r
  · exact ⟨rfl, Nat.le_refl _, 0, by simp⟩

theorem idles_connect (r : Rehearsal) (uri : Http.Uri) (timings : ConnectTimings) :
    Idles r (r.connect uri timings).2 := ⟨rfl, Nat.le_succ _, 0, by simp [connect]⟩

namespace Exchange

theorem idles_release (r : Rehearsal) (link : Link) (h : Http.Headers) :
    Idles r (release r link h) := by
  unfold release
  split
  · split
    · exact ⟨rfl, Nat.le_refl _, _, rfl⟩
    · exact .refl r
  · exact .refl r

theorem idles_settle (r : Rehearsal) (id : Nat) (head : Http.Head) (framing : Http.Framing)
    (lost : Bool) : Idles r (settle r id head framing lost) := by
  unfold settle
  split
  · exact .refl r
  · rename_i link _
    split
    · have hpooled := (idles_release r link head.headers).trans (idles_setPooled _ id (some r.now))
      dsimp only
      split
      · exact hpooled.trans (idles_close _ id)
      · exact hpooled
    · exact (idles_close r id).trans (idles_release _ link head.headers)

theorem idles_nextReply (r : Rehearsal) : Idles r (nextReply r).2 := by
  unfold nextReply
  split
  · exact .refl r
  · exact ⟨rfl, Nat.le_refl _, 0, by simp⟩

end Exchange

/-! ## One step -/

/-- An exchange stays the one that it is, and no time passes. -/
structure Keeps (x : Exchange) (r : Rehearsal) (out : Exchange × Rehearsal) : Prop where
  id : out.1.id = x.id
  cutoff : out.1.cutoff = x.cutoff
  now : out.2.now = r.now
  serial : r.serial ≤ out.2.serial

variable {x : Exchange} {r r' : Rehearsal}

theorem Idles.keeps (h : Idles r r') (stage : Stage) : Keeps x r ({ x with stage }, r') :=
  ⟨rfl, rfl, h.now, h.serial⟩

namespace Exchange

theorem idles_closeLink (x : Exchange) (r : Rehearsal) :
    Idles r (x.link?.elim r r.close) := by
  cases x.link? with
  | none => exact .refl r
  | some link => exact idles_close r link

theorem keeps_drop (h : Idles r r') (ending : Ending) : Keeps x r (x.drop r' ending) := by
  have hall := h.trans (idles_closeLink x r')
  exact ⟨rfl, rfl, hall.now, hall.serial⟩

theorem idles_granted (x : Exchange) (r : Rehearsal) :
    Idles { r with traffic := r.traffic.send x.id } (x.granted r).2 := by
  have hexpire := idles_closeIf { r with traffic := r.traffic.send x.id } fun link =>
    link.pooledSince.any fun t => x.client.poolIdleTimeout < r.now.since t
  unfold granted
  dsimp only
  split
  · exact hexpire.trans (idles_setPooled _ _ none)
  · exact hexpire

theorem keeps_granted (x : Exchange) (r : Rehearsal) : Keeps x r (x.granted r) := by
  have h := idles_granted x r
  refine ⟨?_, ?_, h.now, h.serial⟩ <;>
  · unfold granted
    dsimp only
    split <;> rfl

theorem keeps_connected (x : Exchange) (r : Rehearsal) (timings : ConnectTimings) :
    Keeps x r (x.connected r timings) := by
  unfold connected
  split
  · exact (idles_connect r x.request.uri timings).keeps _
  · exact ⟨rfl, rfl, rfl, Nat.le_refl _⟩

theorem idles_delivered (x : Exchange) (r : Rehearsal) (link : Nat) :
    Idles r (x.delivered r link).2 := by
  have huse := idles_use r link (·.wrote r.now)
  unfold delivered
  dsimp only
  split
  · exact huse
  · obtain ⟨hnow, hserial, htraffic⟩ := huse.trans (idles_nextReply _)
    exact ⟨hnow, hserial, htraffic⟩

theorem keeps_delivered (x : Exchange) (r : Rehearsal) (link : Nat) :
    Keeps x r (x.delivered r link) := by
  have h := idles_delivered x r link
  refine ⟨?_, ?_, h.now, h.serial⟩ <;>
  · unfold delivered
    dsimp only
    split <;> rfl

theorem keeps_complete (h : Idles r r') (link : Nat) (lost : Bool) (head : Http.Head)
    (framing : Http.Framing) (body : Bytes) :
    Keeps x r (x.complete r' link lost head framing body) := by
  have hall := h.trans (idles_settle r' link head framing lost)
  exact ⟨rfl, rfl, hall.now, hall.serial⟩

theorem keeps_stop (h : Idles r r') (stalls : Bool) (link : Nat) (record : Option ConnRecord) :
    Keeps x r
      (if stalls then ({ x with stage := .stalled link record }, r') else x.fail r' record) := by
  split
  · exact h.keeps _
  · exact keeps_drop h _

theorem keeps_arrived (x : Exchange) (r : Rehearsal) (link : Nat) (t : Transmission) :
    Keeps x r (x.arrived r link t) := by
  have huse := idles_use r link fun u => (u.received r.now, 0)
  unfold arrived
  dsimp only
  split
  · exact keeps_stop huse ..
  · split
    · exact keeps_stop huse ..
    · split
      · exact keeps_stop huse ..
      · exact keeps_complete huse ..

theorem keeps_step (x : Exchange) (r : Rehearsal) : Keeps x r (x.step r) := by
  unfold step
  split
  · split
    · exact keeps_granted x r
    · exact keeps_connected x r _
    · exact keeps_delivered x r _
    · exact keeps_arrived x r _ _
    · exact keeps_drop (.refl r) _
  · exact keeps_drop (.refl r) _

end Exchange

/-! ## The clock -/

theorem le_moveTo (r : Rehearsal) (t : Instant) :
    r.now ≤ (r.moveTo t).now ∧ t ≤ (r.moveTo t).now := by
  unfold moveTo
  split
  · rename_i hlt
    exact ⟨Int.le_of_lt hlt, Int.le_refl _⟩
  · rename_i hnot
    exact ⟨Int.le_refl _, Int.not_lt.mp hnot⟩

@[simp] theorem traffic_moveTo (r : Rehearsal) (t : Instant) :
    (r.moveTo t).traffic = r.traffic := by
  unfold moveTo
  split <;> rfl

@[simp] theorem serial_moveTo (r : Rehearsal) (t : Instant) : (r.moveTo t).serial = r.serial := by
  unfold moveTo
  split <;> rfl

theorem le_follow (fuel : Nat) (x : Exchange) (r : Rehearsal) :
    r.now ≤ (x.follow fuel r).2.now := by
  induction fuel generalizing x r with
  | zero => exact Int.le_refl _
  | succ fuel ih =>
    rw [Exchange.follow]
    split
    · exact Int.le_refl _
    · have hmove : r.now ≤ ((x.wake? r).elim r r.moveTo).now := by
        cases x.wake? r with
        | none => exact Int.le_refl _
        | some t => exact (le_moveTo r t).1
      have hstep := (Exchange.keeps_step x ((x.wake? r).elim r r.moveTo)).now
      refine Int.le_trans hmove ?_
      rw [← hstep]
      exact ih ..

/-- A rehearsal is a world in which time does not go back. -/
theorem world_forward : world.Forward where
  random _ := Int.le_refl _
  attempt c a r := le_follow _ _ (r.ask c a).2
  sleep _ _ := Int.le_refl _

end Rehearsal

end ServiceCall
