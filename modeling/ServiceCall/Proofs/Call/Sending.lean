import ServiceCall.Proofs.Call.Merging
import ServiceCall.Proofs.Call.Worlds
import ServiceCall.Proofs.Rehearsal.Receiving

/-!
# What a run sends

Every attempt of a run sends what its client and its request say, and they differ in nothing but
the span. What reaches the peer of a rehearsal is what attempts send, and nothing is missing of
those that were answered.
-/

namespace ServiceCall

variable {σ α : Type}

/-- The answer has been read to its end. -/
def Trial.isAnswered (t : Trial) : Bool := t.ending.answer?.isSome

namespace Call

theorem Makes.trace {w : World σ} {c : Call} {made : Nat} {s : σ} {round : Round}
    (h : c.Makes w made s round) : ∃ span, round.attempt.trace = c.parent.child span := by
  rw [h.eq_roundOf]
  exact ⟨_, rfl⟩

theorem exists_span_of_mem_trials {w : World σ} {c : Call} {decode : Decoder α} {fuel made : Nat}
    {s : σ} {trial : Trial} (h : trial ∈ c.trials w decode fuel made s) :
    ∃ span, trial.attempt.trace = c.parent.child span := by
  obtain ⟨round, made', s', rfl, hmakes⟩ := exists_makes_of_mem_trials h
  exact hmakes.trace

/-! ## Rehearsals -/

theorem Makes.received {c : Call} {made : Nat} {r : Rehearsal} {round : Round}
    (h : c.Makes Rehearsal.world made r round) :
    (c.reactionState Rehearsal.world round.attempt r).received = r.received ∧
        round.toTrial.isAnswered = false ∨
      (c.reactionState Rehearsal.world round.attempt r).received =
        r.received ++ [c.physicalRequest round.attempt] := by
  refine (Rehearsal.received_attempt c round.attempt r.random.2).imp_left ?_
  rintro ⟨hsame, hnone⟩
  refine ⟨hsame, ?_⟩
  have hending : round.ending.answer? = none := by rw [h.ending]; exact hnone
  rw [Trial.isAnswered, hending]
  rfl

theorem Goes.received {c : Call} {decode : Decoder α} {fuel made : Nat} {r : Rehearsal}
    {rounds : List Round} {end? : Option (CallEnd α × Rehearsal)}
    (h : c.Goes Rehearsal.world decode fuel made r rounds end?) {e : CallEnd α} {r' : Rehearsal}
    (he : end? = some (e, r')) :
    ∃ arrived, r'.received = r.received ++ arrived.map (fun t => c.physicalRequest t.attempt) ∧
      arrived.Sublist (rounds.map Round.toTrial) ∧
      ((rounds.map Round.toTrial).filter Trial.isAnswered).Sublist arrived := by
  induction h generalizing e with
  | spent => cases he
  | refused hg =>
    cases he
    exact ⟨[], (List.append_nil _).symm, List.Sublist.refl _, List.Sublist.refl _⟩
  | @ended _ made r round result journal hm hwait hr =>
    cases he
    rcases hm.received with ⟨hnone, hunanswered⟩ | hone
    · refine ⟨[], hnone.trans (List.append_nil _).symm, List.nil_sublist _, ?_⟩
      simp [hunanswered]
    · exact ⟨[round.toTrial], hone, List.Sublist.refl _, List.filter_sublist⟩
  | @again _ made r round delay rest _ journal hm hwait hr hrest ih =>
    obtain ⟨⟨rest, t⟩, hend, heq⟩ := Option.map_eq_some_iff.mp he
    cases heq
    obtain ⟨arrived, heq, hsublist, hanswered⟩ := ih hend
    have hslept : (Rehearsal.world.sleep delay (c.reactionState Rehearsal.world round.attempt r)
      ).received = (c.reactionState Rehearsal.world round.attempt r).received := rfl
    rw [hslept] at heq
    rw [List.map_cons]
    rcases hm.received with ⟨hnone, hunanswered⟩ | hone
    · refine ⟨arrived, by rw [heq, hnone], hsublist.cons _, ?_⟩
      rw [List.filter_cons_of_neg (by simp [hunanswered])]
      exact hanswered
    · refine ⟨round.toTrial :: arrived, ?_, hsublist.cons_cons _, ?_⟩
      · rw [heq, hone, List.append_assoc, List.singleton_append, List.map_cons]
      · rw [List.filter_cons]
        split
        · exact hanswered.cons_cons _
        · exact hanswered.cons _

/-- Every attempt of a call, as a log of its run holds them, sends the request, with the headers
of the request in place of the client's and one line for the trace, and again the same with another
span. The peer of a rehearsal receives no other requests, each at most once and in this order, and
those of all attempts that were answered. -/
theorem requests_of_run {client : Client} {request : Request} {now : Instant}
    {root : TraceContext} {c : Call} (h : start client request now root = .ok c)
    (decode : Decoder α) (fuel : Nat) :
    (∀ {σ : Type} (w : World σ) (s : σ),
      c.run w.logged decode fuel 0 (s, []) =
          (c.run w decode fuel 0 s).map (fun (e, s') => (e, s', c.trials w decode fuel 0 s)) ∧
        (∀ t ∈ c.trials w decode fuel 0 s,
          client.Sends request (request.traceParent.getD root) (c.physicalRequest t.attempt)) ∧
        ∀ t ∈ c.trials w decode fuel 0 s, ∀ t' ∈ c.trials w decode fuel 0 s,
          (c.physicalRequest t.attempt).Again (c.physicalRequest t'.attempt) request.propagate) ∧
    ∀ r e r', c.run Rehearsal.world decode fuel 0 r = some (e, r') →
      ∃ arrived, r'.received = r.received ++ arrived.map (fun t => c.physicalRequest t.attempt) ∧
        arrived.Sublist (c.trials Rehearsal.world decode fuel 0 r) ∧
        ((c.trials Rehearsal.world decode fuel 0 r).filter Trial.isAnswered).Sublist arrived := by
  refine ⟨fun w s => ⟨c.run_trials w decode fuel s, ?_, ?_⟩, ?_⟩
  · intro t ht
    obtain ⟨span, hspan⟩ := exists_span_of_mem_trials ht
    exact sends_physicalRequest h hspan
  · intro t ht t' ht'
    obtain ⟨span, hspan⟩ := exists_span_of_mem_trials ht
    obtain ⟨span', hspan'⟩ := exists_span_of_mem_trials ht'
    obtain ⟨target, -, rfl⟩ := exists_of_start h
    exact again_physicalRequest hspan hspan'
  · intro r e r' he
    exact (goes Rehearsal.world _ decode fuel 0 r).received he

/-- A client with headers of its own, also one for a trace. -/
def layered : Client :=
  { Settings.patient.plainClient with
    defaultHeaders := .ofFields [("Authorization", "Bearer secret"), ("Accept", "text/plain"),
      ("Traceparent", "stale")] }

/-- A request with some of the headers that the client has as well. -/
def overriding : Request :=
  { Request.plain with
    headers := .ofFields [("accept", "text/html"), ("ACCEPT", "text/css"), ("traceparent", "own")]
    propagate := true }

theorem requests_of_run_of_layered :
    let root : TraceContext := .root (.ofTraceDraw 1) (.ofSpanDraw 2)
    let w := Script.recovering.world fun _ => .ofWindow .zero
    ∃ c, start layered overriding ⟨0⟩ root = .ok c ∧
      ∃ e s' first second,
        c.run w.logged Decoder.ignore 3 0 (.origin, []) = some (e, s', [first, second]) ∧
        let sent := c.physicalRequest first.attempt
        sent.headers.getAll .authorization = [.ofVisible "Bearer secret"] ∧
        sent.headers.getAll .accept = [.ofVisible "text/html", .ofVisible "text/css"] ∧
        (∃ t, sent.headers.Tells t ∧ t.trace = root.trace ∧ t.flags = root.flags) ∧
        sent.Again (c.physicalRequest second.attempt) true := by
  intro root w
  have htarget : layered.target overriding = .ok .plain := eq_ok_of_toOption (by decide +kernel)
  have hstart : start layered overriding ⟨0⟩ root =
      .ok (startAt layered overriding .plain ⟨0⟩ root) := by
    rw [start, htarget]
    rfl
  have hlength : ((startAt layered overriding .plain ⟨0⟩ root).trials w Decoder.ignore 3 0
      .origin).length = 2 := by
    decide +kernel
  have hends : ((startAt layered overriding .plain ⟨0⟩ root).run w Decoder.ignore 3 0
      .origin).isSome = true := by
    decide +kernel
  obtain ⟨first, second, htrials⟩ := List.length_eq_two.mp hlength
  obtain ⟨⟨e, s'⟩, he⟩ := Option.isSome_iff_exists.mp hends
  obtain ⟨hworld, -⟩ := requests_of_run hstart Decoder.ignore 3
  obtain ⟨hlog, hsends, hagain⟩ := hworld w .origin
  rw [htrials] at hlog hsends hagain
  rw [he] at hlog
  have hfirst := hsends first (by simp)
  exact ⟨_, hstart, e, s', first, second, hlog,
    hfirst.defaults .authorization (by decide) (by decide),
    hfirst.own .accept (by decide) (by decide), hfirst.traced rfl,
    hagain first (by simp) second (by simp)⟩

end Call

end ServiceCall
