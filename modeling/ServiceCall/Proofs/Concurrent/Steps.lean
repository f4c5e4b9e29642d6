import ServiceCall.Call.Run
import ServiceCall.Pool.Traffic

/-!
# Calls at the same time

Any number of calls of one client, whose steps may come in any order. A step is an action of one
call, the beginning of a call, time that passes, or a change of the gauges; a run is a sequence
of steps, and its entries say what each of them was.
-/

namespace ServiceCall

/-! ## What a step does to the cool-down -/

namespace Traffic

@[simp] theorem cooldown_ask (t : Traffic) (id : Nat) (key : String) :
    (t.ask id key).cooldown = t.cooldown := rfl

@[simp] theorem cooldown_send (t : Traffic) (id : Nat) : (t.send id).cooldown = t.cooldown := rfl

@[simp] theorem cooldown_answered (t : Traffic) (id : Nat) :
    (t.answered id).cooldown = t.cooldown := rfl

@[simp] theorem cooldown_finish (t : Traffic) (id : Nat) :
    (t.finish id).cooldown = t.cooldown := by
  unfold finish
  cases t.progress? id <;> rfl

end Traffic

namespace Concurrent

/-! ## States -/

/-- How far a call has come. -/
inductive Stage (α : Type) where
  /-- The next attempt may begin then, after so many. -/
  | resting (made : Nat) (wake : Instant)
  | admitted (a : Attempt)
  | queued (a : Attempt) (id : Nat)
  | sent (a : Attempt) (id : Nat)
  /-- The head of the answer is there, but not the end of its body. -/
  | reading (a : Attempt) (id : Nat) (status : Http.Status) (headers : Http.Headers)
  | answered (a : Attempt) (id : Nat) (answer : Answer)
  | noted (a : Attempt) (id : Nat) (answer : Answer)
  | ended (result : Except CallError (Response α))

structure Caller (α : Type) where
  call : Call
  decode : Decoder α
  stage : Stage α

structure State (α : Type) where
  now : Instant
  traffic : Traffic
  callers : List (Caller α)

variable {α : Type}

def State.initial (client : Client) (now : Instant) : State α where
  now
  traffic := .quiet (.ofWindow client.cooldownWindow) client.maxConnectionsPerHost
  callers := []

/-! ## Steps -/

inductive Act where
  | admitted (a : Attempt)
  | refused
  | asked (id : Nat)
  | sent
  | headed (status : Http.Status) (headers : Http.Headers)
  | read (answer : Answer)
  | throttled (throttle : Throttle)
  | left (ending : Ending)

/-- An attempt can end in this way now, from this stage. It cannot be cut off once it has read its
answer to the end, and a 429 is recorded before that. -/
inductive Leaves (now : Instant) : Stage α → Attempt → Nat → Ending → Prop
  | unsent {a id t} (ht : a.cutoff = some t) (hle : t ≤ now) :
      Leaves now (.queued a id) a id (.cutOff none)
  | unanswered {a id t} (ht : a.cutoff = some t) (hle : t ≤ now) :
      Leaves now (.sent a id) a id (.cutOff none)
  | unread {a id status headers t} (record) (ht : a.cutoff = some t) (hle : t ≤ now) :
      Leaves now (.reading a id status headers) a id (.cutOff record)
  | failed {a id} (connecting cause) : Leaves now (.sent a id) a id (.broken connecting cause none)
  | broken {a id status headers} (cause record) :
      Leaves now (.reading a id status headers) a id (.broken false cause record)
  | read {a id answer} (record elapsed) (hs : answer.status ≠ .tooManyRequests) :
      Leaves now (.answered a id answer) a id (.answered answer record elapsed)
  | noted {a id answer} (record elapsed) :
      Leaves now (.noted a id answer) a id (.answered answer record elapsed)

def Stage.following (a : Attempt) (now : Instant) : Next α → Stage α
  | .ended result => .ended result
  | .again delay => .resting a.number (now.after delay)

/-- The throttle that a 429 with these headers brings about. -/
def throttleAt (cooldown : Cooldown) (headers : Http.Headers) (now : Instant) (clock : Duration) :
    Throttle :=
  ⟨now, now.after (cooldown.windowFor headers clock)⟩

/-- What a call can do now from each stage, and what becomes of what the calls share. -/
inductive Does (c : Call) (decode : Decoder α) (now : Instant) (t : Traffic) :
    Stage α → Act → Stage α → Traffic → Prop
  | admitted {made wake a} (span) (hw : wake ≤ now)
      (hg : c.gate t.cooldown made now span = .admitted a) :
      Does c decode now t (.resting made wake) (.admitted a) (.admitted a) t
  | refused {made wake error} (span) (hw : wake ≤ now)
      (hg : c.gate t.cooldown made now span = .refused error) :
      Does c decode now t (.resting made wake) .refused (.ended (.error error)) t
  | asked {a} (id) (hid : t.progress? id = none) :
      Does c decode now t (.admitted a) (.asked id) (.queued a id) (t.ask id c.target.poolKey)
  | sent {a id} (hg : t.isGranted id = true) :
      Does c decode now t (.queued a id) .sent (.sent a id) (t.send id)
  | headed {a id} (status headers) :
      Does c decode now t (.sent a id) (.headed status headers) (.reading a id status headers) t
  | read {a id status headers} (body) :
      Does c decode now t (.reading a id status headers) (.read ⟨status, headers, body⟩)
        (.answered a id ⟨status, headers, body⟩) (t.answered id)
  | throttled {a id answer} (clock) (hs : answer.status = .tooManyRequests) :
      Does c decode now t (.answered a id answer)
        (.throttled (throttleAt t.cooldown answer.headers now clock)) (.noted a id answer)
        (t.throttled answer.headers now clock)
  | left {stage a id ending} (draw) (hl : Leaves now stage a id ending) :
      Does c decode now t stage (.left ending)
        (.following a now (c.react decode a ending now draw).1) (t.finish id)

inductive Entry where
  | passed (t : Instant)
  | began
  | acted (i : Nat) (act : Act)
  /-- So many more connections idle. -/
  | idled (change : Int)
  | scraped

inductive Step (client : Client) (s : State α) : Entry → State α → Prop
  | passed {t} (h : s.now ≤ t) : Step client s (.passed t) { s with now := t }
  | began (c decode) (hc : c.client = client) :
      Step client s .began { s with callers := s.callers ++ [⟨c, decode, .resting 0 s.now⟩] }
  | acted {i m act stage t} (hm : s.callers[i]? = some m)
      (hd : Does m.call m.decode s.now s.traffic m.stage act stage t) :
      Step client s (.acted i act)
        { s with traffic := t, callers := s.callers.set i { m with stage } }
  | idled (change) :
      Step client s (.idled change) { s with traffic := s.traffic.addAvail change }
  | scraped : Step client s .scraped { s with traffic := s.traffic.scraped }

/-- A sequence of steps from a state, with what happened in them, first things first. -/
inductive Run (client : Client) (s₀ : State α) : List Entry → State α → Prop
  | nil : Run client s₀ [] s₀
  | snoc {entries s entry s'} (hr : Run client s₀ entries s) (hs : Step client s entry s') :
      Run client s₀ (entries ++ [entry]) s'

theorem Run.append {client : Client} {s₀ s₁ s₂ : State α} {before after : List Entry}
    (h : Run client s₀ before s₁) (h' : Run client s₁ after s₂) :
    Run client s₀ (before ++ after) s₂ := by
  induction h' with
  | nil => rwa [List.append_nil]
  | snoc hr hs ih => rw [← List.append_assoc]; exact .snoc ih hs

/-! ## What one step does -/

section

variable {client : Client} {s s' : State α} {entry : Entry}

/-- A call after a step has just begun, or it did something itself, or it is as it was. -/
theorem Step.caller_cases (h : Step client s entry s') {i : Nat} {m' : Caller α}
    (hm : s'.callers[i]? = some m') :
    (entry = .began ∧ m'.call.client = client ∧ m'.stage = .resting 0 s.now) ∨
      (∃ act m, entry = .acted i act ∧ s.callers[i]? = some m ∧
        Does m.call m.decode s.now s.traffic m.stage act m'.stage s'.traffic ∧
        m'.call = m.call ∧ m'.decode = m.decode) ∨
      (∀ act, entry ≠ .acted i act) ∧ s.callers[i]? = some m' := by
  cases h with
  | passed _ => exact Or.inr (Or.inr ⟨by simp, hm⟩)
  | idled _ => exact Or.inr (Or.inr ⟨by simp, hm⟩)
  | scraped => exact Or.inr (Or.inr ⟨by simp, hm⟩)
  | began c decode hc =>
    simp only [List.getElem?_append] at hm
    split at hm
    · exact Or.inr (Or.inr ⟨by simp, hm⟩)
    · have hmem := List.mem_of_getElem? hm
      rw [List.mem_singleton] at hmem
      subst hmem
      exact Or.inl ⟨rfl, hc, rfl⟩
  | @acted j m act stage t hmj hd =>
    right
    by_cases hij : j = i
    · subst hij
      have hlt : j < s.callers.length := (List.getElem?_eq_some_iff.mp hmj).1
      simp only [List.getElem?_set_self hlt, Option.some.injEq] at hm
      subst hm
      exact Or.inl ⟨act, m, rfl, hmj, hd, rfl, rfl⟩
    · rw [List.getElem?_set_ne hij] at hm
      exact Or.inr ⟨by simp [hij], hm⟩

theorem Step.caller_of_other (h : Step client s entry s') {i : Nat} {m : Caller α}
    (hm : s.callers[i]? = some m) (hother : ∀ act, entry ≠ .acted i act) :
    s'.callers[i]? = some m := by
  cases h with
  | passed _ | idled _ | scraped => exact hm
  | began c decode hc =>
    have hlt : i < s.callers.length := (List.getElem?_eq_some_iff.mp hm).1
    rwa [List.getElem?_append_left hlt]
  | @acted j _ act _ _ _ _ =>
    have hij : j ≠ i := fun hij => hother act (by rw [hij])
    rwa [List.getElem?_set_ne hij]

theorem Step.of_acted {i : Nat} {act : Act} (h : Step client s (.acted i act) s') :
    ∃ c decode stage stage' t, s.callers[i]? = some ⟨c, decode, stage⟩ ∧
      Does c decode s.now s.traffic stage act stage' t ∧
      s'.callers[i]? = some ⟨c, decode, stage'⟩ ∧ s'.traffic = t ∧ s'.now = s.now := by
  cases h with
  | @acted _ m _ stage t hm hd =>
    have hlt : i < s.callers.length := (List.getElem?_eq_some_iff.mp hm).1
    exact ⟨m.call, m.decode, m.stage, stage, t, hm, hd, List.getElem?_set_self hlt, rfl, rfl⟩

theorem Step.exists_acted (client : Client) {i : Nat} {c : Call} {decode : Decoder α}
    {stage stage' : Stage α} {act : Act} {t : Traffic}
    (hm : s.callers[i]? = some ⟨c, decode, stage⟩)
    (hd : Does c decode s.now s.traffic stage act stage' t) :
    ∃ s', Step client s (.acted i act) s' ∧ s'.now = s.now ∧ s'.traffic = t ∧
      s'.callers[i]? = some ⟨c, decode, stage'⟩ :=
  have hlt : i < s.callers.length := (List.getElem?_eq_some_iff.mp hm).1
  ⟨_, .acted hm hd, rfl, rfl, List.getElem?_set_self hlt⟩

theorem Step.now_le (h : Step client s entry s') : s.now ≤ s'.now := by
  cases h with
  | passed h => exact h
  | _ => exact Int.le_refl _

end

/-! ## The cool-down in a step -/

def Entry.throttle? : Entry → Option Throttle
  | .acted _ (.throttled throttle) => some throttle
  | _ => none

theorem Does.cooldown {c : Call} {decode : Decoder α} {now : Instant} {t t' : Traffic}
    {stage stage' : Stage α} {act : Act} (h : Does c decode now t stage act stage' t') (i : Nat) :
    t'.cooldown =
      { t.cooldown with last := ((Entry.acted i act).throttle?).or t.cooldown.last } := by
  cases h <;> simp [Entry.throttle?, Traffic.throttled, Cooldown.observe, throttleAt]

/-- Only a recorded 429 changes the cool-down. -/
theorem Step.cooldown {client : Client} {s s' : State α} {entry : Entry}
    (h : Step client s entry s') :
    s'.traffic.cooldown =
      { s.traffic.cooldown with last := entry.throttle?.or s.traffic.cooldown.last } := by
  cases h with
  | acted hm hd => exact hd.cooldown _
  | _ => rfl

/-! ## Whole runs -/

variable {client : Client} {s₀ s : State α} {entries : List Entry}

theorem Run.now_le (h : Run client s₀ entries s) : s₀.now ≤ s.now := by
  induction h with
  | nil => exact Int.le_refl _
  | snoc _ hs ih => exact Int.le_trans ih hs.now_le

/-- The 429 that was recorded last. -/
def lastThrottle? (entries : List Entry) : Option Throttle :=
  (entries.filterMap Entry.throttle?).getLast?

theorem lastThrottle?_concat (entries : List Entry) (entry : Entry) :
    lastThrottle? (entries ++ [entry]) = entry.throttle?.or (lastThrottle? entries) := by
  unfold lastThrottle?
  rw [List.filterMap_append]
  cases h : entry.throttle? with
  | none => simp [h]
  | some t => simp [h]

theorem Run.cooldown (h : Run client s₀ entries s) :
    s.traffic.cooldown =
      { s₀.traffic.cooldown with
        last := (lastThrottle? entries).or s₀.traffic.cooldown.last } := by
  induction h with
  | nil => rfl
  | snoc _ hs ih => rw [hs.cooldown, ih, lastThrottle?_concat, Option.or_assoc]

end Concurrent

end ServiceCall
