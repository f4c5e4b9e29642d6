import Mathlib.Data.List.Basic
import ServiceCall.Call.Route

/-!
# What a template expands to

The placeholders of a template cut it into pieces in one way only, and a route has the parameters
between these pieces, as they are. Nothing in a parameter is ever read, also not when they are put
in one after the other.
-/

namespace ServiceCall.Route

def placeholder : List Char := ['\x7b', '\x7d']

/-- At so many places of a template a placeholder begins. As its two characters differ, no two
placeholders overlap. -/
def occurrences (template : String) : Nat := template.toList.tails.countP placeholder.isPrefixOf

/-- The pieces are what the placeholders of the template leave around them. -/
structure Around (template : String) (pieces : List String) : Prop where
  nonempty : pieces ≠ []
  joined : "\x7b\x7d".intercalate pieces = template
  free : ∀ piece ∈ pieces, ¬ placeholder <:+: piece.toList

/-! ## Pieces -/

section

variable {cs piece tail : List Char}

/-- A piece is not cut, nor where it meets what stands behind it. -/
theorem pieces_append_of_free (hpiece : ¬ placeholder <:+: piece)
    (htail : tail.head? ≠ some '\x7d') {first : List Char} {more : List (List Char)}
    (hpieces : pieces tail = first :: more) : pieces (piece ++ tail) = (piece ++ first) :: more := by
  induction piece with
  | nil => exact hpieces
  | cons c piece ih =>
    obtain ⟨hstart, hinfix⟩ := not_or.mp (mt List.infix_cons_iff.mpr hpiece)
    have hnone (behind : List Char) (hc : c = '\x7b') (hbehind : piece ++ tail = '\x7d' :: behind) :
        False := by
      cases piece with
      | nil => exact htail (by rw [← List.nil_append tail, hbehind]; rfl)
      | cons d piece =>
        obtain ⟨rfl, -⟩ := List.cons.inj hbehind
        exact hstart ⟨piece, by rw [hc]; rfl⟩
    rw [List.cons_append, pieces.eq_3 _ _ hnone, ih hinfix]
    rfl

theorem pieces_of_free (h : ¬ placeholder <:+: piece) : pieces piece = [piece] := by
  have hpieces : pieces (piece ++ []) = [piece ++ []] := pieces_append_of_free h (by simp) rfl
  rwa [List.append_nil] at hpieces

theorem pieces_placed (h : ¬ placeholder <:+: piece) (rest : List Char) :
    pieces (piece ++ placeholder ++ rest) = piece :: pieces rest := by
  have hpieces : pieces (piece ++ (placeholder ++ rest)) = (piece ++ []) :: pieces rest :=
    pieces_append_of_free h (by simp [placeholder]) rfl
  rwa [← List.append_assoc, List.append_nil] at hpieces

theorem pieces_intercalate {ps : List (List Char)} (hne : ps ≠ [])
    (hfree : ∀ piece ∈ ps, ¬ placeholder <:+: piece) :
    pieces (placeholder.intercalate ps) = ps := by
  induction ps with
  | nil => exact absurd rfl hne
  | cons piece ps ih =>
    obtain ⟨hpiece, hps⟩ := List.forall_mem_cons.mp hfree
    cases ps with
    | nil => rw [List.intercalate_singleton, pieces_of_free hpiece]
    | cons next ps =>
      rw [List.intercalate_cons_cons, pieces_placed hpiece, ih (List.cons_ne_nil _ _) hps]

theorem intercalate_pieces (cs : List Char) : placeholder.intercalate (pieces cs) = cs := by
  fun_induction pieces cs with
  | case1 => rfl
  | case2 rest ih =>
    rw [List.intercalate_cons_of_ne_nil (pieces_ne_nil rest), ih]
    rfl
  | case3 c rest hnone hnil ih => exact absurd hnil (pieces_ne_nil rest)
  | case4 c rest hnone first more hpieces ih =>
    rw [hpieces] at ih
    rw [List.intercalate_cons_cons_left, ih]

theorem pieces_free (cs : List Char) : ∀ piece ∈ pieces cs, ¬ placeholder <:+: piece := by
  fun_induction pieces cs with
  | case1 => simp [placeholder]
  | case2 rest ih => exact List.forall_mem_cons.mpr ⟨by simp [placeholder], ih⟩
  | case3 c rest hnone hnil ih => exact absurd hnil (pieces_ne_nil rest)
  | case4 c rest hnone first more hpieces ih =>
    rw [hpieces] at ih
    obtain ⟨hfirst, hmore⟩ := List.forall_mem_cons.mp ih
    refine List.forall_mem_cons.mpr ⟨?_, hmore⟩
    rw [List.infix_cons_iff, not_or]
    refine ⟨?_, hfirst⟩
    rintro ⟨behind, heq⟩
    obtain ⟨rfl, rfl⟩ := List.cons.inj heq
    -- The piece goes on as the text does.
    refine hnone (placeholder.intercalate (behind :: more)) rfl ?_
    rw [← intercalate_pieces rest, hpieces]
    exact List.intercalate_cons_cons_left

theorem countP_tails (cs : List Char) :
    cs.tails.countP placeholder.isPrefixOf + 1 = (pieces cs).length := by
  fun_induction pieces cs with
  | case1 => rfl
  | case2 rest ih =>
    simp [List.tails, placeholder, ← ih]
  | case3 c rest hnone hnil ih => exact absurd hnil (pieces_ne_nil rest)
  | case4 c rest hnone first more hpieces ih =>
    have hstart : placeholder.isPrefixOf (c :: rest) = false := by
      rw [Bool.eq_false_iff]
      intro h
      obtain ⟨behind, heq⟩ := List.isPrefixOf_iff_prefix.mp h
      obtain ⟨rfl, rfl⟩ := List.cons.inj heq
      exact hnone behind rfl rfl
    rw [hpieces] at ih
    simp [List.tails, hstart, ih]

theorem placeholders_eq (template : String) :
    placeholders template.toList = occurrences template := by
  unfold placeholders occurrences
  rw [← countP_tails, Nat.add_sub_cancel]

theorem around_iff {template : String} {ps : List String} :
    Around template ps ↔ ps.map String.toList = pieces template.toList := by
  have htext : (String.intercalate "\x7b\x7d" ps).toList =
      placeholder.intercalate (ps.map String.toList) := String.toList_intercalate
  constructor
  · rintro ⟨hne, rfl, hfree⟩
    rw [htext, pieces_intercalate (by simpa using hne) (by simpa using hfree)]
  · intro h
    refine ⟨?_, ?_, ?_⟩
    · rintro rfl
      exact pieces_ne_nil _ h.symm
    · rw [← String.toList_inj, htext, h, intercalate_pieces]
    · have hfree := pieces_free template.toList
      rw [← h] at hfree
      simpa using hfree

end

/-! ## Routes -/

theorem expand?_eq (template : String) (params : List String) :
    expand? template params =
      if params.length = occurrences template then
        some (String.ofList (fill (pieces template.toList) (params.map String.toList)))
      else none := by
  unfold expand?
  rw [placeholders_eq]
  exact if_congr eq_comm rfl rfl

theorem fill_cons {first : List Char} {rest params : List (List Char)}
    (h : rest.length = params.length) :
    fill (first :: rest) params = first ++ (List.zipWith (· ++ ·) params rest).flatten := by
  induction rest generalizing first params with
  | nil => simp [fill, List.length_eq_zero_iff.mp h.symm]
  | cons next rest ih =>
    obtain ⟨param, params, rfl⟩ := List.exists_cons_of_length_eq_add_one h.symm
    rw [fill, ih (Nat.succ.inj h)]
    · simp
    · simp

theorem toList_join_zipWith (params rest : List String) :
    (String.join (List.zipWith (· ++ ·) params rest)).toList =
      (List.zipWith (· ++ ·) (params.map String.toList) (rest.map String.toList)).flatten := by
  rw [String.toList_join, List.flatMap_def, List.map_zipWith, List.zipWith_map]
  simp only [String.toList_append]

/-! ## One parameter after the other -/

/-- What stands before the first placeholder, and what stands behind it. -/
def splitOnce? : List Char → Option (List Char × List Char)
  | [] => none
  | '\x7b' :: '\x7d' :: rest => some ([], rest)
  | c :: rest => (splitOnce? rest).map fun (front, behind) => (c :: front, behind)

/-- The text with each parameter at the first placeholder behind the one before it. A parameter
for which there is no placeholder is left out. -/
def substitute : List Char → List (List Char) → List Char
  | cs, [] => cs
  | cs, param :: params =>
    match splitOnce? cs with
    | none => substitute cs params
    | some (front, behind) => front ++ param ++ substitute behind params

theorem pieces_eq_splitOnce? (cs : List Char) :
    pieces cs = (splitOnce? cs).elim [cs] fun (front, behind) => front :: pieces behind := by
  fun_induction splitOnce? cs with
  | case1 => rfl
  | case2 rest => rfl
  | case3 c rest hnone ih =>
    rw [pieces.eq_3 _ _ hnone, ih]
    cases splitOnce? rest <;> rfl

theorem fill_cons_cons {cs piece param : List Char} {params : List (List Char)} :
    fill (piece :: pieces cs) (param :: params) = piece ++ param ++ fill (pieces cs) params := by
  obtain ⟨first, rest, hpieces⟩ := List.exists_cons_of_ne_nil (pieces_ne_nil cs)
  rw [hpieces, fill]
  simp

theorem substitute_eq_fill {cs : List Char} {params : List (List Char)}
    (h : placeholders cs = params.length) : substitute cs params = fill (pieces cs) params := by
  unfold placeholders at h
  induction params generalizing cs with
  | nil =>
    rw [pieces_eq_splitOnce?] at h ⊢
    cases hsplit : splitOnce? cs with
    | none => rfl
    | some split =>
      rw [hsplit] at h
      exact absurd (List.length_eq_zero_iff.mp h) (pieces_ne_nil split.2)
  | cons param params ih =>
    rw [pieces_eq_splitOnce?] at h ⊢
    cases hsplit : splitOnce? cs with
    | none =>
      rw [hsplit] at h
      cases h
    | some split =>
      obtain ⟨front, behind⟩ := split
      rw [hsplit] at h
      have hlength : (pieces behind).length = params.length + 1 := h
      have hrest : substitute behind params = fill (pieces behind) params := ih (by omega)
      rw [substitute, hsplit, Option.elim_some]
      dsimp only
      rw [fill_cons_cons, hrest]

/-- The route is what becomes of the template when the parameters are put in one after the other,
each at the first placeholder that is left. None of them is left out. -/
theorem expand?_eq_substitute (template : String) (params : List String) :
    expand? template params =
      if params.length = occurrences template then
        some (String.ofList (substitute template.toList (params.map String.toList)))
      else none := by
  rw [expand?_eq]
  refine if_ctx_congr Iff.rfl (fun hparams => ?_) fun _ => rfl
  rw [substitute_eq_fill (by rw [placeholders_eq, List.length_map, hparams])]

/-- A template has its pieces whatever the parameters are, and one more of them than placeholders.
There is a route if there is one parameter for each placeholder, and it has the parameters between
the pieces. So it is what becomes of the template when they are put in one after the other, though
what has been put in is not read again. -/
theorem expands_between_pieces (template : String) :
    ∃ first rest, (∀ pieces, Around template pieces ↔ pieces = first :: rest) ∧
      rest.length = occurrences template ∧
      ∀ params,
        (expand? template params =
          if params.length = occurrences template then
            some (first ++ String.join (List.zipWith (· ++ ·) params rest))
          else none) ∧
        expand? template params =
          if params.length = occurrences template then
            some (String.ofList (substitute template.toList (params.map String.toList)))
          else none := by
  obtain ⟨first, rest, hpieces⟩ := List.exists_cons_of_ne_nil (pieces_ne_nil template.toList)
  have hlength : rest.length = occurrences template := by
    rw [← placeholders_eq, placeholders, hpieces]
    rfl
  refine ⟨String.ofList first, rest.map String.ofList, ?_, ?_, ?_⟩
  · intro ps
    rw [around_iff, hpieces]
    constructor
    · intro h
      have htexts := congrArg (List.map String.ofList) h
      simpa using htexts
    · rintro rfl
      simp
  · rw [List.length_map, hlength]
  · intro params
    refine ⟨?_, expand?_eq_substitute template params⟩
    rw [expand?_eq, hpieces]
    refine if_ctx_congr Iff.rfl (fun hparams => ?_) fun _ => rfl
    rw [fill_cons (by rw [List.length_map, hparams, hlength])]
    congr 1
    rw [← String.toList_inj, String.toList_append, toList_join_zipWith]
    simp

/-- What a parameter spells is no placeholder, also not together with the braces around it. -/
example : expand? "/\x7b\x7b\x7d\x7d/\x7b\x7d" ["\x7b\x7d", "x"] =
    some "/\x7b\x7b\x7d\x7d/x" := by
  decide

end ServiceCall.Route
