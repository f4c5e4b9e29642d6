import ServiceCall.Proofs.Call.Drafts
import ServiceCall.Proofs.Results

/-!
# Settings in another order

What a draft comes to depends on the settings of each kind, not on how those of different kinds
are mixed. So settings can be reordered as long as those of one kind keep their order, and the
request is the same, or the error. Of the kinds that only switch something off, and of the statuses
to decode, not even that order counts.
-/

namespace ServiceCall

/-- The two describe one request. The statuses to decode are a set: which ones there are counts,
not how they are listed. -/
structure Request.Same (r r' : Request) : Prop where
  eq : r' = { r with decodeStatuses := r'.decodeStatuses }
  statuses : ∀ status, status ∈ r'.decodeStatuses ↔ status ∈ r.decodeStatuses

namespace RequestDraft

/-- The same request, or the same error. -/
inductive Alike : Except CallError Request → Except CallError Request → Prop
  | request {r r'} (h : r.Same r') : Alike (.ok r) (.ok r')
  | error (e) : Alike (.error e) (.error e)

namespace Setting

inductive Kind where
  | param
  | json
  | body
  | header
  | query
  | cookie
  | timeout
  | deadline
  | withoutRetry
  | withoutPropagation
  | traceParent
  | decodeStatus
  deriving DecidableEq

def kind : Setting → Kind
  | param _ => .param
  | json _ => .json
  | body _ => .body
  | header .. => .header
  | query .. => .query
  | cookie .. => .cookie
  | timeout _ => .timeout
  | deadline _ => .deadline
  | withoutRetry => .withoutRetry
  | withoutPropagation => .withoutPropagation
  | traceParent _ => .traceParent
  | decodeStatus _ => .decodeStatus

/-- The settings of the kind replace each other or line up. -/
def Kind.Ordered (kind : Kind) : Prop :=
  kind ≠ .withoutRetry ∧ kind ≠ .withoutPropagation ∧ kind ≠ .decodeStatus

instance : DecidablePred Kind.Ordered := fun _ => inferInstanceAs (Decidable (_ ∧ _))

end Setting

/-- The same settings, with those of an ordered kind in the same order. -/
structure Reordered (settings settings' : List Setting) : Prop where
  perm : settings.Perm settings'
  kinds : ∀ kind : Setting.Kind, kind.Ordered →
    settings.filter (·.kind = kind) = settings'.filter (·.kind = kind)

section

variable {α : Type} {f? : Setting → Option α} {kind : Setting.Kind}
  {settings settings' : List Setting}

theorem filterMap_filter_kind (hf : ∀ s, s.kind ≠ kind → f? s = none) (settings : List Setting) :
    (settings.filter (·.kind = kind)).filterMap f? = settings.filterMap f? := by
  rw [List.filterMap_filter]
  refine List.filterMap_congr fun s _ => ?_
  by_cases hs : s.kind = kind
  · rw [if_pos (decide_eq_true hs)]
  · rw [if_neg (by simpa using hs), hf s hs]

theorem Reordered.filterMap_eq (h : Reordered settings settings') (f? : Setting → Option α)
    (kind : Setting.Kind) (hkind : kind.Ordered) (hf : ∀ s, s.kind ≠ kind → f? s = none) :
    settings'.filterMap f? = settings.filterMap f? := by
  rw [← filterMap_filter_kind hf settings, h.kinds kind hkind, filterMap_filter_kind hf]

end

variable {settings settings' : List Setting}

def withStatuses (d : RequestDraft) (statuses : List Http.Status) : RequestDraft :=
  { d with decodeStatuses := statuses }

theorem drafted_reordered (h : Reordered settings settings') (method : Http.Method)
    (route : String) :
    drafted method route settings' =
      (drafted method route settings).withStatuses
        (settings'.filterMap Setting.decodeStatus?) := by
  have hany (p : Setting → Bool) : settings'.any p = settings.any p := h.perm.symm.any_eq
  have hparam := h.filterMap_eq Setting.param? .param (by decide)
    (by rintro ⟨⟩ <;> simp [Setting.param?, Setting.kind])
  have hjson := h.filterMap_eq Setting.json? .json (by decide)
    (by rintro ⟨⟩ <;> simp [Setting.json?, Setting.kind])
  have hbody := h.filterMap_eq Setting.body? .body (by decide)
    (by rintro ⟨⟩ <;> simp [Setting.body?, Setting.kind])
  have hheader := h.filterMap_eq Setting.header? .header (by decide)
    (by rintro ⟨⟩ <;> simp [Setting.header?, Setting.kind])
  have hquery := h.filterMap_eq Setting.query? .query (by decide)
    (by rintro ⟨⟩ <;> simp [Setting.query?, Setting.kind])
  have hcookie := h.filterMap_eq Setting.cookie? .cookie (by decide)
    (by rintro ⟨⟩ <;> simp [Setting.cookie?, Setting.kind])
  have htimeout := h.filterMap_eq Setting.timeout? .timeout (by decide)
    (by rintro ⟨⟩ <;> simp [Setting.timeout?, Setting.kind])
  have hdeadline := h.filterMap_eq Setting.deadline? .deadline (by decide)
    (by rintro ⟨⟩ <;> simp [Setting.deadline?, Setting.kind])
  have htrace := h.filterMap_eq Setting.traceParent? .traceParent (by decide)
    (by rintro ⟨⟩ <;> simp [Setting.traceParent?, Setting.kind])
  rw [drafted_eq, drafted_eq, hany, hany, hparam, hjson, hbody, hheader, hquery, hcookie,
    htimeout, hdeadline, htrace]
  rfl

/-! ## What is built -/

/-- No check looks at the statuses to decode. -/
theorem build_withStatuses (d : RequestDraft) (statuses : List Http.Status) :
    (d.withStatuses statuses).build =
      d.build.map fun r => { r with decodeStatuses := statuses } := by
  have hbody : (d.withStatuses statuses).body = d.body := rfl
  have hurl : (d.withStatuses statuses).url = d.url := rfl
  have hheaders : (d.withStatuses statuses).builtHeaders = d.builtHeaders := rfl
  have hparent : (d.withStatuses statuses).parent = d.parent := rfl
  unfold build
  rw [hbody, hurl, hheaders, hparent]
  cases d.body <;> cases d.url <;> cases d.builtHeaders <;> cases d.parent <;> rfl

theorem mem_decodeStatuses_of_build {method : Http.Method} {route : String} {r : Request}
    (h : (drafted method route settings).build = .ok r) (status : Http.Status) :
    status ∈ r.decodeStatuses ↔ .decodeStatus status ∈ settings := by
  rw [eq_described_of_build h, described, drafted_eq]
  exact Setting.mem_filterMap_decodeStatus?

/-- Settings of different kinds can change places, and those that are a set all of them: the same
request is built of them, or the same error is found. -/
theorem build_reordered (h : Reordered settings settings') (method : Http.Method)
    (route : String) :
    Alike (drafted method route settings).build (drafted method route settings').build := by
  rw [drafted_reordered h, build_withStatuses]
  cases hbuild : (drafted method route settings).build with
  | error e => exact .error e
  | ok r =>
    refine .request ⟨rfl, fun status => ?_⟩
    rw [mem_decodeStatuses_of_build hbuild, h.perm.mem_iff]
    exact Setting.mem_filterMap_decodeStatus?

theorem build_reordered_of_reversed :
    let lined : List Setting := [.header "X-Tag" "a", .header "x-tag" "b", .param "42"]
    let others : List Setting := [.decodeStatus .notFound, .json (.ok (.bool true)),
      .withoutRetry, .decodeStatus .forbidden]
    Reordered (lined ++ others) (others.reverse ++ lined) ∧
      ∃ r r', (drafted .post "/users/\x7b\x7d" (lined ++ others)).build = .ok r ∧
        (drafted .post "/users/\x7b\x7d" (others.reverse ++ lined)).build = .ok r' ∧
        r.Same r' := by
  intro lined others
  have h : Reordered (lined ++ others) (others.reverse ++ lined) := by
    refine ⟨?_, ?_⟩
    · exact List.perm_append_comm.trans ((List.reverse_perm others).symm.append_right lined)
    · rintro ⟨⟩ hordered <;> first | rfl | exact absurd hordered (by decide)
  have halike := build_reordered h .post "/users/\x7b\x7d"
  have hbuilt : (drafted .post "/users/\x7b\x7d" (lined ++ others)).build.toOption.isSome := by
    decide +kernel
  obtain ⟨r, hr⟩ := Option.isSome_iff_exists.mp hbuilt
  rw [eq_ok_of_toOption hr] at halike ⊢
  generalize hbuild : (drafted .post "/users/\x7b\x7d" (others.reverse ++ lined)).build = built
    at halike
  cases halike with
  | request hsame => exact ⟨h, r, _, rfl, rfl, hsame⟩

end RequestDraft

end ServiceCall
