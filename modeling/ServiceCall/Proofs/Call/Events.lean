import ServiceCall.Proofs.Call.Sequence
import ServiceCall.Proofs.Results
import ServiceCall.Rehearsal.Performance

/-!
# The metrics of a call

What a call pushes to the metrics accounts for its run: first what its attempts have to tell, one
after the other, and at the end how long the whole took and how many attempts it made.
-/

namespace ServiceCall

variable {σ α : Type}

namespace Call

/-! ## One attempt -/

/-- What is told of an answer that was read to its end. -/
def durationEvent? (c : Call) : Ending → Option MetricEvent
  | .answered answer _ elapsed =>
    some (.timing "http_client.attempt.duration" elapsed
      (c.tags ++ [⟨"status", toString answer.status.code⟩]))
  | .broken .. => none
  | .cutOff _ => none

/-- What an attempt tells: how it got its connection, and how long its answer took. -/
def attemptEvents (c : Call) (ending : Ending) : List MetricEvent :=
  c.recordEvents ending.record? ++ (c.durationEvent? ending).toList

theorem metrics_outcomeLog (result : Except CallError (Response α)) :
    (Client.outcomeLog result).metrics = [] := by
  unfold Client.outcomeLog
  split
  · rfl
  · rfl
  · split <;> rfl
  · rfl

theorem metrics_attemptJournal (c : Call) (decode : Decoder α) (a : Attempt) (ending : Ending) :
    (c.attemptJournal decode a ending).metrics = c.attemptEvents ending := by
  have hanswer : (c.answerJournal ending).metrics = (c.durationEvent? ending).toList := by
    cases ending with
    | answered answer record elapsed =>
      simp only [answerJournal, durationEvent?, Journal.metrics_append]
      split <;> rfl
    | broken connecting cause record => rfl
    | cutOff record => rfl
  have houtcome : (c.outcomeJournal decode a ending).metrics = [] := by
    cases ending with
    | answered answer record elapsed => exact metrics_outcomeLog _
    | broken connecting cause record => rfl
    | cutOff record => rfl
  unfold attemptJournal attemptEvents
  simp only [Journal.metrics_append, hanswer, houtcome, List.append_nil]
  rfl

theorem metrics_verdict (verdict : Verdict) : verdict.journal.metrics = [] := by
  cases verdict <;> rfl

theorem metrics_react (c : Call) (decode : Decoder α) (a : Attempt) (ending : Ending)
    (now : Instant) (draw : Schedule.Draw) :
    (c.react decode a ending now draw).2.metrics = c.attemptEvents ending := by
  unfold react
  dsimp only
  split
  · exact c.metrics_attemptJournal decode a ending
  · rw [Journal.metrics_append, metrics_attemptJournal, metrics_verdict, List.append_nil]

/-! ## A whole run -/

theorem metrics_refusalJournal (error : CallError) : (refusalJournal error).metrics = [] := by
  unfold refusalJournal
  split <;> rfl

/-- The journal of a turn tells of the attempt that it made. -/
theorem metrics_turn (w : World σ) (c : Call) (decode : Decoder α) (made : Nat) (s : σ) :
    match c.turn w decode made s with
    | .refused .. => True
    | .ended round _ journal _ => journal.metrics = c.attemptEvents round.ending
    | .again round journal _ => journal.metrics = c.attemptEvents round.ending := by
  unfold turn
  cases c.gate (w.cooldown (w.random s).2) made (w.now (w.random s).2)
    (.ofSpanDraw (w.random s).1) with
  | refused error => trivial
  | admitted a =>
    have hreact : (c.reaction w decode a s).2.metrics =
        c.attemptEvents (w.attempt c a (w.random s).2).1 := c.metrics_react ..
    dsimp only
    cases hr : c.reaction w decode a s with
    | mk next journal =>
      rw [hr] at hreact
      cases next with
      | ended result => exact hreact
      | again delay => exact hreact

theorem metrics_run (w : World σ) (c : Call) (decode : Decoder α) (fuel made : Nat) (s : σ)
    {e : CallEnd α} {s' : σ} (h : c.run w decode fuel made s = some (e, s')) :
    e.journal.metrics =
      (c.rounds w decode fuel made s).flatMap fun round => c.attemptEvents round.ending := by
  induction fuel generalizing made s e with
  | zero => cases h
  | succ fuel ih =>
    have hturn := c.metrics_turn w decode made s
    rw [run_succ] at h
    rw [rounds]
    cases ht : c.turn w decode made s with
    | refused error t =>
      rw [ht] at h
      cases h
      exact metrics_refusalJournal error
    | ended round result journal t =>
      rw [ht] at h hturn
      cases h
      rw [List.flatMap_singleton]
      exact hturn
    | again round journal t =>
      rw [ht] at h hturn
      obtain ⟨⟨rest, t'⟩, hrest, heq⟩ := Option.map_eq_some_iff.mp h
      cases heq
      rw [List.flatMap_cons, ← ih _ _ hrest]
      exact congrArg (· ++ rest.journal.metrics) hturn

/-! ## The events of a kind -/

theorem named_append (name : String) (events more : List MetricEvent) :
    MetricEvent.named name (events ++ more) =
      MetricEvent.named name events ++ MetricEvent.named name more :=
  List.filter_append ..

theorem named_flatMap {β : Type} (name : String) (f : β → List MetricEvent) (xs : List β) :
    MetricEvent.named name (xs.flatMap f) = xs.flatMap fun x => MetricEvent.named name (f x) := by
  induction xs with
  | nil => rfl
  | cons x xs ih => rw [List.flatMap_cons, named_append, ih, List.flatMap_cons]

theorem named_eq_nil {name : String} {events : List MetricEvent}
    (h : ∀ event ∈ events, event.name ≠ name) : MetricEvent.named name events = [] := by
  unfold MetricEvent.named
  rw [List.filter_eq_nil_iff]
  simpa using h

/-- The names of the events that follow the first one about a connection. -/
def phaseNames : List String :=
  ["http_client.conn.wait", "http_client.conn.idle", "http_client.conn.dns",
    "http_client.conn.dial", "http_client.conn.tls", "http_client.request.send",
    "http_client.response.first_byte"]

theorem exists_events (r : ConnRecord) (tags : List Tag) :
    ∃ obtained phases, r.events tags = .count "http_client.conn.obtained" 1 obtained :: phases ∧
      ∀ event ∈ phases, event.name ∈ phaseNames := by
  refine ⟨_, _, rfl, ?_⟩
  intro event hevent
  rcases List.mem_cons.mp hevent with rfl | hevent
  · exact List.mem_cons_self ..
  · obtain ⟨⟨name, d⟩, hphase, rfl⟩ := List.mem_map.mp hevent
    obtain ⟨⟨name', d?⟩, hmem, hd⟩ := List.mem_filterMap.mp hphase
    obtain ⟨d', -, heq⟩ := Option.map_eq_some_iff.mp hd
    cases heq
    exact List.mem_cons_of_mem _ (List.mem_map_of_mem (f := Prod.fst) hmem)

theorem named_recordEvents {c : Call} {name : String} (record : Option ConnRecord)
    (hobtained : name ≠ "http_client.conn.obtained") (hphase : name ∉ phaseNames) :
    MetricEvent.named name (c.recordEvents record) = [] := by
  refine named_eq_nil fun event hevent => ?_
  unfold recordEvents at hevent
  split at hevent
  · rename_i r
    split at hevent
    · obtain ⟨obtained, phases, hevents, hphases⟩ := exists_events r c.tags
      rw [hevents] at hevent
      rcases List.mem_cons.mp hevent with rfl | hevent
      · exact Ne.symm hobtained
      · rintro rfl
        exact hphase (hphases event hevent)
    · cases hevent
  · cases hevent

theorem named_obtained_attemptEvents (c : Call) (ending : Ending) :
    (MetricEvent.named "http_client.conn.obtained" (c.attemptEvents ending)).length ≤
      if c.client.connectionTelemetry then 1 else 0 := by
  have hduration : MetricEvent.named "http_client.conn.obtained"
      (c.durationEvent? ending).toList = [] := by
    cases ending <;> rfl
  unfold attemptEvents recordEvents
  rw [named_append, hduration, List.append_nil]
  split
  · rename_i r _
    split
    · obtain ⟨obtained, phases, hevents, hphases⟩ := exists_events r c.tags
      have hrest : MetricEvent.named "http_client.conn.obtained" phases = [] := by
        refine named_eq_nil fun event hevent heq => ?_
        have hmem := hphases event hevent
        rw [heq] at hmem
        revert hmem
        decide
      rw [hevents, MetricEvent.named, List.filter_cons_of_pos (by rfl)]
      exact Nat.le_of_eq (congrArg (·.length + 1) hrest)
    · exact Nat.le_refl 0
  · exact Nat.zero_le _

theorem named_duration_attemptEvents (c : Call) (ending : Ending) :
    MetricEvent.named "http_client.attempt.duration" (c.attemptEvents ending) =
      (c.durationEvent? ending).toList := by
  unfold attemptEvents
  rw [named_append, named_recordEvents _ (by decide) (by decide), List.nil_append]
  cases ending <;> rfl

theorem named_report_attemptEvents {c : Call} {name : String} (ending : Ending)
    (h : name ∈ ["http_client.call.duration", "http_client.call.attempts"]) :
    MetricEvent.named name (c.attemptEvents ending) = [] := by
  simp only [List.mem_cons, List.not_mem_nil, or_false] at h
  unfold attemptEvents
  rcases h with rfl | rfl
  · rw [named_append, named_recordEvents _ (by decide) (by decide)]
    cases ending <;> rfl
  · rw [named_append, named_recordEvents _ (by decide) (by decide)]
    cases ending <;> rfl

/-! ## The report at the end -/

/-- The tags of the report on a call with this result. -/
def reportTags (c : Call) : Except CallError (Response α) → List Tag
  | .ok response => c.tags ++ [⟨"status", toString response.status.code⟩]
  | .error error => c.tags ++
    (error.status?.map fun status => ⟨"status", toString status.code⟩).toList ++
      [⟨"severity", error.severity.label⟩]

theorem tags_eq_reportTags (c : Call) (e : CallEnd α) : e.tags c = c.reportTags e.result := by
  unfold CallEnd.tags CallEnd.status? CallEnd.error? reportTags
  cases e.result with
  | ok response => exact List.append_nil _
  | error error => rfl

/-- Events that account for a call that made these attempts and had this result. -/
structure Accounts (c : Call) (trials : List Trial) (elapsed : Duration)
    (result : Except CallError (Response α)) (events : List MetricEvent) : Prop where
  /-- The report is what comes last. -/
  all : events = (trials.flatMap fun trial => c.attemptEvents trial.ending) ++
    [.timing "http_client.call.duration" elapsed (c.reportTags result),
      .count "http_client.call.attempts" trials.length (c.reportTags result)]
  oneDuration : MetricEvent.named "http_client.call.duration" events =
    [.timing "http_client.call.duration" elapsed (c.reportTags result)]
  oneCount : MetricEvent.named "http_client.call.attempts" events =
    [.count "http_client.call.attempts" trials.length (c.reportTags result)]
  durations : MetricEvent.named "http_client.attempt.duration" events =
    trials.filterMap fun trial => c.durationEvent? trial.ending
  /-- Each attempt tells at most once how it got its connection, and not if nobody asks. -/
  obtained : ∀ trial ∈ trials,
    (MetricEvent.named "http_client.conn.obtained" (c.attemptEvents trial.ending)).length ≤
      if c.client.connectionTelemetry then 1 else 0
  obtainedOff : c.client.connectionTelemetry = false →
    MetricEvent.named "http_client.conn.obtained" events = []

theorem accounts_of_eq {c : Call} {trials : List Trial} {elapsed : Duration}
    {result : Except CallError (Response α)} {events : List MetricEvent}
    (h : events = (trials.flatMap fun trial => c.attemptEvents trial.ending) ++
      [.timing "http_client.call.duration" elapsed (c.reportTags result),
        .count "http_client.call.attempts" trials.length (c.reportTags result)]) :
    c.Accounts trials elapsed result events where
  all := h
  oneDuration := by
    rw [h, named_append, named_flatMap]
    simp only [named_report_attemptEvents _ (List.mem_cons_self ..)]
    simp [MetricEvent.named, MetricEvent.timing, MetricEvent.count]
  oneCount := by
    rw [h, named_append, named_flatMap]
    simp only [named_report_attemptEvents _ (List.mem_cons_of_mem _ (List.mem_cons_self ..))]
    simp [MetricEvent.named, MetricEvent.timing, MetricEvent.count]
  durations := by
    rw [h, named_append, named_flatMap]
    simp only [named_duration_attemptEvents, ← List.filterMap_eq_flatMap_toList]
    exact List.append_nil _
  obtained trial _ := c.named_obtained_attemptEvents trial.ending
  obtainedOff hoff := by
    have hnone : ∀ ending, MetricEvent.named "http_client.conn.obtained"
        (c.attemptEvents ending) = [] := by
      intro ending
      have hle := c.named_obtained_attemptEvents ending
      rw [hoff] at hle
      exact List.length_eq_zero_iff.mp (Nat.le_zero.mp hle)
    rw [h, named_append, named_flatMap]
    simp only [hnone]
    simp [MetricEvent.named, MetricEvent.timing, MetricEvent.count]

/-! ## Whole calls -/

/-- A whole call in a world: it ends at once if it has no target. -/
def whole (w : World σ) (client : Client) (request : Request) (root : TraceContext)
    (decode : Decoder α) (fuel : Nat) (s : σ) : Option (CallEnd α × σ) :=
  match start client request (w.now s) root with
  | .error error => some (⟨.error error, .empty⟩, s)
  | .ok c => c.perform w decode fuel s

theorem whole_of_error {w : World σ} {client : Client} {request : Request} {root : TraceContext}
    {decode : Decoder α} {fuel : Nat} {s : σ} {error : CallError}
    (h : client.target request = .error error) :
    whole w client request root decode fuel s = some (⟨.error error, .empty⟩, s) := by
  unfold whole start
  rw [h]
  rfl

theorem whole_of_ok {w : World σ} {client : Client} {request : Request} {root : TraceContext}
    {decode : Decoder α} {fuel : Nat} {s : σ} {target : Target}
    (h : client.target request = .ok target) :
    whole w client request root decode fuel s =
      (startAt client request target (w.now s) root).perform w decode fuel s := by
  unfold whole start
  rw [h]
  rfl

theorem metrics_reported (c : Call) (e : CallEnd α) (elapsed : Duration) :
    (e.reported c elapsed).journal.metrics = e.journal.metrics ++ e.events c elapsed := by
  have hlog : e.log.metrics = [] := by
    unfold CallEnd.log
    split
    · rfl
    · split <;> rfl
  change [] ++ e.journal.metrics ++ e.log.metrics ++ e.events c elapsed = _
  rw [hlog, List.append_nil, List.nil_append]

/-- A call that has a target accounts for the attempts that are in a log of its run. -/
theorem accounts_of_perform {w : World σ} {c : Call} {decode : Decoder α} {fuel : Nat} {s s' : σ}
    {e : CallEnd α} (h : c.perform w decode fuel s = some (e, s')) :
    ∃ log, c.perform w.logged decode fuel (s, []) = some (e, s', log) ∧
      log.map (·.attempt.number) = List.range' 1 log.length ∧
      c.Accounts log ((w.now s').since c.startedAt) e.result e.journal.metrics := by
  obtain ⟨⟨inner, t⟩, hrun, heq⟩ := Option.map_eq_some_iff.mp h
  cases heq
  have hgoes := c.goes w decode fuel 0 s
  have hattempts : inner.attempts = ((c.rounds w decode fuel 0 s).map Round.toTrial).length := by
    rw [List.length_map, (hgoes.concludes hrun).attempts_eq hgoes.numbers, Nat.zero_add]
  refine ⟨(c.rounds w decode fuel 0 s).map Round.toTrial, ?_, ?_, accounts_of_eq ?_⟩
  · unfold perform
    rw [run_logged, hrun]
    rfl
  · rw [List.map_map, List.length_map]
    exact hgoes.numbers
  · rw [metrics_reported, c.metrics_run w decode fuel 0 s hrun, CallEnd.events,
      tags_eq_reportTags, hattempts, List.flatMap_map]
    rfl

/-- The metrics of a call that ended account for it: there are none without a target, and with one
they account for the attempts that were made, which a log of the same call lists. -/
theorem metrics_of_whole {w : World σ} {client : Client} {request : Request} {root : TraceContext}
    {decode : Decoder α} {fuel : Nat} {s s' : σ} {e : CallEnd α}
    (h : whole w client request root decode fuel s = some (e, s')) :
    (∀ error, client.target request = .error error →
      e.result = .error error ∧ e.journal.metrics = []) ∧
    ∀ target, client.target request = .ok target →
      let c := startAt client request target (w.now s) root
      ∃ log, whole w.logged client request root decode fuel (s, []) = some (e, s', log) ∧
        log.map (·.attempt.number) = List.range' 1 log.length ∧
        c.tags = [⟨"client", client.name⟩, ⟨"route", request.site.route⟩,
          ⟨"method", request.site.method.name⟩, ⟨"host", target.host⟩] ∧
        c.Accounts log ((w.now s').since (w.now s)) e.result e.journal.metrics := by
  constructor
  · intro error herror
    rw [whole_of_error herror] at h
    cases h
    exact ⟨rfl, rfl⟩
  · intro target htarget c
    rw [whole_of_ok htarget] at h
    obtain ⟨log, hlog, hnumbers, haccounts⟩ := accounts_of_perform h
    exact ⟨log, (whole_of_ok htarget).trans hlog, hnumbers, rfl, haccounts⟩

/-- The record of an attempt that dialed its connection. -/
def dialed : ConnRecord :=
  .classify "site.test" ⟨0⟩ ⟨⟨5⟩, false, none, some ⟨6⟩, some ⟨9⟩⟩ default

/-- The first attempt loses its connection, and the second one gets an answer. -/
def shaky : Script := fun n =>
  if n = 1 then (.broken false "reset" (some dialed), .ofMillis 100)
  else (.answered ⟨.ok, .empty, []⟩ (some dialed) (.ofMillis 70), .ofMillis 80)

theorem metrics_of_whole_of_shaky :
    let w := shaky.world fun _ => .ofWindow .zero
    let client := { Settings.patient with connectionTelemetry := true }.plainClient
    let root := TraceContext.root (.ofTraceDraw 0) (.ofSpanDraw 0)
    ∃ e s', whole w client .plain root Decoder.ignore 3 .origin = some (e, s') ∧
      ∃ tags : List Tag, tags.map Tag.text =
          ["client:http-client", "route:/", "method:GET", "host:site.test:80", "status:200"] ∧
        (MetricEvent.named "http_client.attempt.duration" e.journal.metrics) =
          [.timing "http_client.attempt.duration" (.ofMillis 70) tags] ∧
        (MetricEvent.named "http_client.call.attempts" e.journal.metrics) =
          [.count "http_client.call.attempts" 2 tags] := by
  intro w client root
  have htarget : client.target .plain = .ok .plain := eq_ok_of_toOption (by decide +kernel)
  have hsome : (whole w client .plain root Decoder.ignore 3 .origin).isSome = true := by
    decide +kernel
  obtain ⟨⟨e, s'⟩, he⟩ := Option.isSome_iff_exists.mp hsome
  obtain ⟨log, hlog, hnumbers, htags, haccounts⟩ := (metrics_of_whole he).2 .plain htarget
  have hendings : (whole w.logged client .plain root Decoder.ignore 3 (.origin, [])).map
      (fun p => (p.2.2.map (·.ending), p.1.result.toOption.map (·.status))) =
        some ([(shaky 1).1, (shaky 2).1], some .ok) := by
    decide +kernel
  rw [hlog] at hendings
  obtain ⟨hlogged, hstatus⟩ := Prod.mk.inj (Option.some.inj hendings)
  obtain ⟨response, hresponse, hok⟩ := Option.map_eq_some_iff.mp hstatus
  have hlen : log.length = 2 := (List.length_map _).symm.trans (congrArg List.length hlogged)
  refine ⟨e, s', he, (Call.plain client).tags ++ [⟨"status", "200"⟩], by decide +kernel, ?_, ?_⟩
  · have hmap := congrArg (List.filterMap (Call.plain client).durationEvent?) hlogged
    rw [List.filterMap_map] at hmap
    exact haccounts.durations.trans hmap
  · rw [haccounts.oneCount, hlen, eq_ok_of_toOption hresponse]
    dsimp only [reportTags]
    rw [hok]
    rfl

end Call

theorem Rehearsal.call_eq_whole (r : Rehearsal) (client : Client) (request : Request)
    (decode : Decoder α) (fuel : Nat) :
    r.call client request decode fuel =
      Call.whole Rehearsal.world client request r.newRoot.1 decode fuel r.newRoot.2 := rfl

end ServiceCall
