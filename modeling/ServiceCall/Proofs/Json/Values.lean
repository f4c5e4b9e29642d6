import ServiceCall.Proofs.Json.Numbers
import ServiceCall.Proofs.Json.Sorted
import ServiceCall.Proofs.Json.Strings

/-!
# Values read back

The text of a value is read back as the value with its fields in order, by induction on the value.
Each list and each object is read by a loop over its members, which are taken one after the other.
-/

namespace ServiceCall.Json

open Utf8 (encodeChars)

/-! ## Depth -/

mutual

/-- How deep lists and objects are nested. -/
def depth : Json → Nat
  | .array items => itemDepth items + 1
  | .object fields => fieldDepth fields + 1
  | _ => 0

def itemDepth : List Json → Nat
  | [] => 0
  | v :: rest => max (depth v) (itemDepth rest)

def fieldDepth : List (String × Json) → Nat
  | [] => 0
  | (_, v) :: rest => max (depth v) (fieldDepth rest)

end

/-! ## Text -/

def fieldText (f : String × Json) : List Char := stringChars f.1 ++ ':' :: chars f.2

/-- The members of a list or an object, as the loop that reads them meets them. -/
def members {α : Type} (text : α → List Char) : (first : Bool) → List α → List Char
  | _, [] => []
  | first, x :: rest => (if first then [] else [',']) ++ text x ++ members text false rest

theorem itemChars_eq (items : List Json) : itemChars items = members chars true items := by
  induction items with
  | nil => rfl
  | cons v rest ih =>
    cases rest with
    | nil => simp [itemChars, members]
    | cons w rest =>
      rw [itemChars, ih]
      · simp [members]
      · simp

theorem fieldChars_eq (fields : List (String × Json)) :
    fieldChars fields = members fieldText true fields := by
  induction fields with
  | nil => rfl
  | cons f rest ih =>
    cases rest with
    | nil => simp [fieldChars, members, fieldText]
    | cons g rest =>
      rw [fieldChars, ih]
      · simp [members, fieldText]
      · simp

def separator (first : Bool) : Bytes := if first then [] else [','.toUInt8]

theorem encodeChars_members {α : Type} (text : α → List Char) (first : Bool) (x : α)
    (rest : List α) (tail : Bytes) :
    encodeChars (members text first (x :: rest)) ++ tail = separator first ++
      (encodeChars (text x) ++ (encodeChars (members text false rest) ++ tail)) := by
  cases first with
  | true => simp [members, separator]
  | false =>
    simp [members, separator]
    rfl

/-! ## Members -/

namespace Cursor

variable {c : Cursor} {b : UInt8} {rest tail : Bytes} {first : Bool}

/-- A byte that a value begins with. -/
def Opens (b : UInt8) : Prop := isSpace b = false ∧ b ≠ ']'.toUInt8

instance : Decidable (Opens b) := inferInstanceAs (Decidable (_ ∧ _))

theorem nextItem_closed (h : c.rest = ']'.toUInt8 :: rest) (first : Bool) :
    Gives (c.nextItem first) false rest := by
  unfold nextItem
  simp only [skipSpace_of_rest h (by decide), peek?_of_rest h]
  rw [if_true]
  exact gives_ok (rest_skip h)

theorem nextItem_first (h : c.rest = b :: tail) (hb : Opens b) :
    Gives (c.nextItem true) true (b :: tail) := by
  unfold nextItem
  simp only [skipSpace_of_rest h hb.1, peek?_of_rest h]
  rw [if_neg hb.2, if_true]
  exact gives_ok h

theorem nextItem_comma (h : c.rest = ','.toUInt8 :: b :: tail) (hb : Opens b) :
    Gives (c.nextItem false) true (b :: tail) := by
  have hskip := rest_skip h
  unfold nextItem
  simp only [skipSpace_of_rest h (by decide), peek?_of_rest h]
  rw [if_neg (by decide), if_neg (by decide), if_true, skipSpace_of_rest hskip hb.1,
    peek?_of_rest hskip]
  dsimp only
  rw [if_neg hb.2]
  exact gives_ok hskip

theorem nextItem_open (h : c.rest = separator first ++ b :: tail) (hb : Opens b) :
    Gives (c.nextItem first) true (b :: tail) := by
  cases first with
  | true => exact nextItem_first h hb
  | false => exact nextItem_comma h hb

theorem nextField_closed (h : c.rest = '\x7d'.toUInt8 :: rest) (first : Bool) :
    Gives (c.nextField first) false rest := by
  unfold nextField
  simp only [skipSpace_of_rest h (by decide), peek?_of_rest h]
  rw [if_true]
  exact gives_ok (rest_skip h)

theorem nextField_first (h : c.rest = '"'.toUInt8 :: tail) :
    Gives (c.nextField true) true tail := by
  unfold nextField
  simp only [skipSpace_of_rest h (by decide), peek?_of_rest h]
  rw [if_neg (by decide), if_true, if_true]
  exact gives_ok (rest_skip h)

theorem nextField_comma (h : c.rest = ','.toUInt8 :: '"'.toUInt8 :: tail) :
    Gives (c.nextField false) true tail := by
  have hskip := rest_skip h
  unfold nextField
  simp only [skipSpace_of_rest h (by decide), peek?_of_rest h]
  rw [if_neg (by decide), if_neg (by decide), if_true, skipSpace_of_rest hskip (by decide),
    peek?_of_rest hskip]
  dsimp only
  rw [if_pos rfl]
  exact gives_ok (rest_skip hskip)

theorem nextField_open (h : c.rest = separator first ++ '"'.toUInt8 :: tail) :
    Gives (c.nextField first) true tail := by
  cases first with
  | true => exact nextField_first h
  | false => exact nextField_comma h

theorem colon_of_rest (h : c.rest = ':'.toUInt8 :: rest) :
    ∃ c', c.colon = .ok c' ∧ c'.rest = rest := by
  refine ⟨c.skip, ?_, rest_skip h⟩
  unfold colon
  simp only [skipSpace_of_rest h (by decide), peek?_of_rest h]
  rw [if_true]

/-! ## Values -/

theorem opens_of_isDigit (hb : isDigit b = true) : Opens b := by
  refine ⟨Bool.eq_false_iff.mpr fun hspace => ?_, ne_of_isDigit hb (by decide)⟩
  simp only [isSpace, Bool.or_eq_true, decide_eq_true_eq] at hspace
  rcases hspace with ((rfl | rfl) | rfl) | rfl <;> exact absurd hb (by decide)

variable {fuel room : Nat} {v : Json}

theorem value_null (h : c.rest = 'n'.toUInt8 :: (['u', 'l', 'l'].map Char.toUInt8 ++ rest)) :
    Gives (value (fuel + 1) room c) .null rest := by
  obtain ⟨c', hword, hc'⟩ := expectWord_of_rest (rest_skip h)
  unfold value
  simp only [skipSpace_of_rest h (by decide), peek?_of_rest h]
  rw [if_true, hword]
  exact gives_ok hc'

theorem value_true (h : c.rest = 't'.toUInt8 :: (['r', 'u', 'e'].map Char.toUInt8 ++ rest)) :
    Gives (value (fuel + 1) room c) (.bool true) rest := by
  obtain ⟨c', hword, hc'⟩ := expectWord_of_rest (rest_skip h)
  unfold value
  simp only [skipSpace_of_rest h (by decide), peek?_of_rest h]
  rw [if_neg (by decide), if_true, hword]
  exact gives_ok hc'

theorem value_false
    (h : c.rest = 'f'.toUInt8 :: (['a', 'l', 's', 'e'].map Char.toUInt8 ++ rest)) :
    Gives (value (fuel + 1) room c) (.bool false) rest := by
  obtain ⟨c', hword, hc'⟩ := expectWord_of_rest (rest_skip h)
  unfold value
  simp only [skipSpace_of_rest h (by decide), peek?_of_rest h]
  rw [if_neg (by decide), if_neg (by decide), if_true, hword]
  exact gives_ok hc'

theorem value_minus {n : Number} (h : c.rest = '-'.toUInt8 :: tail)
    (hn : Gives (c.skip.number false) n rest) :
    Gives (value (fuel + 1) room c) (.number n) rest := by
  unfold value
  simp only [skipSpace_of_rest h (by decide), peek?_of_rest h]
  rw [if_neg (by decide), if_neg (by decide), if_neg (by decide), if_true]
  exact hn.map

theorem value_digit {n : Number} (h : c.rest = b :: tail) (hb : isDigit b = true)
    (hn : Gives (c.number true) n rest) : Gives (value (fuel + 1) room c) (.number n) rest := by
  unfold value
  simp only [skipSpace_of_rest h (opens_of_isDigit hb).1, peek?_of_rest h]
  rw [if_neg (ne_of_isDigit hb (by decide)), if_neg (ne_of_isDigit hb (by decide)),
    if_neg (ne_of_isDigit hb (by decide)), if_neg (ne_of_isDigit hb (by decide)), if_pos hb]
  exact hn.map

theorem value_string {s : String} (h : c.rest = '"'.toUInt8 :: tail)
    (hs : Gives c.skip.string s rest) : Gives (value (fuel + 1) room c) (.string s) rest := by
  unfold value
  simp only [skipSpace_of_rest h (by decide), peek?_of_rest h]
  rw [if_neg (by decide), if_neg (by decide), if_neg (by decide), if_neg (by decide),
    if_neg (by decide), if_true]
  exact hs.map

theorem value_array {items : List Json} (h : c.rest = '['.toUInt8 :: tail)
    (hitems : Gives (itemsFrom fuel room true c.skip) items rest) :
    Gives (value (fuel + 1) (room + 1) c) (.array items) rest := by
  unfold value
  simp only [skipSpace_of_rest h (by decide), peek?_of_rest h]
  rw [if_neg (by decide), if_neg (by decide), if_neg (by decide), if_neg (by decide),
    if_neg (by decide), if_neg (by decide), if_true]
  exact hitems.map

theorem value_object {fields : List (String × Json)} (h : c.rest = '\x7b'.toUInt8 :: tail)
    (hfields : Gives (fieldsFrom fuel room true c.skip) fields rest) :
    Gives (value (fuel + 1) (room + 1) c) (ofFields fields) rest := by
  unfold value
  simp only [skipSpace_of_rest h (by decide), peek?_of_rest h]
  rw [if_neg (by decide), if_neg (by decide), if_neg (by decide), if_neg (by decide),
    if_neg (by decide), if_neg (by decide), if_neg (by decide), if_true]
  exact hfields.map

/-! ## Loops -/

/-- The text of `v` is read as `v` in order, given enough fuel and room. -/
def Reads (v : Json) : Prop :=
  ∀ (fuel room : Nat) (c : Cursor) (rest : Bytes), c.rest = encodeChars (chars v) ++ rest →
    Delimited rest → 2 * c.rest.length ≤ fuel → v.depth ≤ room →
    Gives (value (fuel + 1) room c) v.ordered rest

theorem delimited_nil : Delimited [] := fun _ h => nomatch h

theorem delimited_members {α : Type} (text : α → List Char) (xs : List α)
    (hb : b = ']'.toUInt8 ∨ b = '\x7d'.toUInt8) (rest : Bytes) :
    Delimited (encodeChars (members text false xs) ++ b :: rest) := by
  intro b' hb'
  cases xs with
  | nil => exact Or.inr ((Option.some.inj hb') ▸ hb)
  | cons x xs => exact Or.inl (Option.some.inj hb').symm

/-- The text of a value begins with a byte that no blank and no bracket is. -/
theorem exists_first (hv : v.Plain) :
    ∃ b tail, encodeChars (chars v) = b :: tail ∧ Opens b := by
  cases hv with
  | null => exact ⟨_, _, rfl, by decide⟩
  | bool b => cases b <;> exact ⟨_, _, rfl, by decide⟩
  | number hnumber =>
    obtain ⟨⟨value, lower, upper⟩, rfl⟩ := hnumber
    cases value with
    | ofNat n =>
      obtain ⟨b, tail, hbytes, hb⟩ := exists_digit n
      exact ⟨b, tail, (congrArg encodeChars (toString_ofNat n)).trans hbytes, opens_of_isDigit hb⟩
    | negSucc n =>
      exact ⟨_, _, congrArg encodeChars (toString_negSucc n), by decide⟩
  | string s => exact ⟨_, _, rfl, by decide⟩
  | array => exact ⟨_, _, rfl, by decide⟩
  | object => exact ⟨_, _, rfl, by decide⟩

theorem itemsFrom_rest {items : List Json} (hitems : ∀ v ∈ items, v.Plain ∧ Reads v)
    (h : c.rest = encodeChars (members chars first items) ++ ']'.toUInt8 :: rest)
    (hfuel : 2 * c.rest.length < fuel) (hroom : itemDepth items ≤ room) :
    Gives (itemsFrom (fuel + 1) room first c) (orderedItems items) rest := by
  induction items generalizing first c fuel with
  | nil =>
    unfold itemsFrom
    exact (nextItem_closed h first).bind fun c' hc' => gives_ok hc'
  | cons v items ih =>
    obtain ⟨⟨hplain, hv⟩, hitems⟩ := List.forall_mem_cons.mp hitems
    obtain ⟨hfirst, hroom⟩ := Nat.max_le.mp hroom
    obtain ⟨b, tail, hbytes, hb⟩ := exists_first hplain
    have hafter := delimited_members chars items (Or.inl rfl) rest
    rw [encodeChars_members] at h
    generalize heq : encodeChars (members chars false items) ++ _ = after at h hafter
    have hnext : Gives (c.nextItem first) true (encodeChars (chars v) ++ after) := by
      rw [hbytes] at h ⊢
      exact nextItem_open h hb
    -- The text of an item is not empty, so what is behind it is shorter.
    have hpos : 0 < (encodeChars (chars v)).length := hbytes ▸ Nat.succ_pos _
    rw [h, List.length_append, List.length_append] at hfuel
    obtain ⟨fuel, rfl⟩ := Nat.exists_eq_add_of_le' (show 2 ≤ fuel by omega)
    unfold itemsFrom
    refine hnext.bind fun c₁ hc₁ => ?_
    dsimp only
    rw [if_pos rfl]
    refine (hv _ room c₁ after hc₁ hafter ?_ hfirst).bind fun c₂ hc₂ => (ih hitems ?_ ?_ hroom).map
    · rw [hc₁, List.length_append]
      omega
    · exact hc₂.trans heq.symm
    · rw [hc₂]
      omega

theorem reads_array {items : List Json} (hitems : ∀ v ∈ items, v.Plain ∧ Reads v) :
    Reads (.array items) := by
  intro fuel room c rest hc hrest hfuel hroom
  replace hc : c.rest = '['.toUInt8 :: (encodeChars (itemChars items ++ [']']) ++ rest) := hc
  have hskip := rest_skip hc
  rw [itemChars_eq, Utf8.encodeChars_append, List.append_assoc] at hskip
  rw [hc, List.length_cons, ← rest_skip hc] at hfuel
  obtain ⟨room, rfl⟩ := Nat.exists_eq_succ_of_ne_zero (Nat.ne_zero_of_lt hroom)
  obtain ⟨fuel, rfl⟩ := Nat.exists_eq_succ_of_ne_zero (show fuel ≠ 0 by omega)
  exact value_array hc
    (itemsFrom_rest hitems hskip (by omega) (Nat.le_of_succ_le_succ hroom))

/-- What stands behind the opening quote of a field. -/
def fieldBytes (f : String × Json) : Bytes :=
  encodeChars (f.1.toList.flatMap escapedChar) ++
    '"'.toUInt8 :: ':'.toUInt8 :: encodeChars (chars f.2)

theorem encodeChars_fieldText (f : String × Json) :
    encodeChars (fieldText f) = '"'.toUInt8 :: fieldBytes f := by
  unfold fieldText stringChars fieldBytes
  simp only [List.cons_append, Utf8.encodeChars_cons, Utf8.encodeChars_append, List.append_assoc]
  rfl

theorem fieldsFrom_rest {fields : List (String × Json)} (hfields : ∀ f ∈ fields, Reads f.2)
    (h : c.rest = encodeChars (members fieldText first fields) ++ '\x7d'.toUInt8 :: rest)
    (hfuel : 2 * c.rest.length < fuel) (hroom : fieldDepth fields ≤ room) :
    Gives (fieldsFrom (fuel + 1) room first c) (orderedFields fields) rest := by
  induction fields generalizing first c fuel with
  | nil =>
    unfold fieldsFrom
    exact (nextField_closed h first).bind fun c' hc' => gives_ok hc'
  | cons f fields ih =>
    obtain ⟨hv, hfields⟩ := List.forall_mem_cons.mp hfields
    obtain ⟨hfirst, hroom⟩ := Nat.max_le.mp hroom
    have hafter := delimited_members fieldText fields (Or.inr rfl) rest
    rw [encodeChars_members, encodeChars_fieldText, List.cons_append] at h
    generalize heq : encodeChars (members fieldText false fields) ++ _ = after at h hafter
    have hnext := nextField_open h
    unfold fieldBytes at h hnext
    simp only [List.append_assoc, List.cons_append] at h hnext
    simp only [h, List.length_append, List.length_cons] at hfuel
    obtain ⟨fuel, rfl⟩ := Nat.exists_eq_add_of_le' (show 2 ≤ fuel by omega)
    unfold fieldsFrom
    refine hnext.bind fun c₁ hc₁ => ?_
    dsimp only
    rw [if_pos rfl]
    refine (string_of_rest hc₁).bind fun c₂ hc₂ => ?_
    obtain ⟨c₃, hcolon, hc₃⟩ := colon_of_rest hc₂
    dsimp only
    rw [hcolon]
    refine (hv _ room c₃ after hc₃ hafter ?_ hfirst).bind fun c₄ hc₄ => (ih hfields ?_ ?_ hroom).map
    · rw [hc₃, List.length_append]
      omega
    · exact hc₄.trans heq.symm
    · rw [hc₄]
      omega

theorem reads_object {fields : List (String × Json)} (hfields : ∀ f ∈ fields, Reads f.2) :
    Reads (.object fields) := by
  intro fuel room c rest hc hrest hfuel hroom
  replace hc : c.rest =
      '\x7b'.toUInt8 :: (encodeChars (fieldChars fields ++ ['\x7d']) ++ rest) := hc
  have hskip := rest_skip hc
  rw [fieldChars_eq, Utf8.encodeChars_append, List.append_assoc] at hskip
  rw [hc, List.length_cons, ← rest_skip hc] at hfuel
  obtain ⟨room, rfl⟩ := Nat.exists_eq_succ_of_ne_zero (Nat.ne_zero_of_lt hroom)
  obtain ⟨fuel, rfl⟩ := Nat.exists_eq_succ_of_ne_zero (show fuel ≠ 0 by omega)
  exact value_object hc
    (fieldsFrom_rest hfields hskip (by omega) (Nat.le_of_succ_le_succ hroom))

/-! ## Every value -/

theorem reads_number (i : Integer) : Reads (.number (.integer i)) := by
  intro fuel room c rest hc hrest hfuel hroom
  obtain ⟨value, lower, upper⟩ := i
  cases value with
  | ofNat n =>
    have hdigits : c.rest = encodeChars (Nat.toDigits 10 n) ++ rest := by
      rw [← toString_ofNat]
      exact hc
    obtain ⟨b, tail, hbytes, hb⟩ := exists_digit n
    have hbound := lt_significandBound (Int.ofNat_le.mp upper)
    obtain ⟨c', hnumber, hc'⟩ := number_of_rest hbound hdigits hrest true
    refine value_digit (hbytes ▸ hdigits) hb (hnumber ▸ ?_)
    exact numberTail_of_rest hrest hc' rfl (Or.inl rfl)
  | negSucc n =>
    have hdigits : c.rest = '-'.toUInt8 :: (encodeChars (Nat.toDigits 10 (n + 1)) ++ rest) :=
      hc.trans (congrArg (encodeChars · ++ rest) (toString_negSucc n))
    have hbound : n + 1 < significandBound := lt_significandBound (by omega)
    obtain ⟨c', hnumber, hc'⟩ := number_of_rest hbound (rest_skip hdigits) hrest false
    refine value_minus hdigits (hnumber ▸ ?_)
    exact numberTail_of_rest hrest hc' rfl (Or.inr (Nat.succ_ne_zero n))

theorem reads_of_plain (hv : v.Plain) : Reads v := by
  induction hv with
  | null => exact fun fuel room c rest hc hrest hfuel hroom => value_null hc
  | bool b =>
    intro fuel room c rest hc hrest hfuel hroom
    cases b with
    | true => exact value_true hc
    | false => exact value_false hc
  | number hnumber =>
    obtain ⟨i, rfl⟩ := hnumber
    exact reads_number i
  | string s =>
    intro fuel room c rest hc hrest hfuel hroom
    replace hc : c.rest = '"'.toUInt8 :: (encodeChars (s.toList.flatMap escapedChar) ++
        '"'.toUInt8 :: rest) := by
      rw [hc, chars, stringChars, List.cons_append, Utf8.encodeChars_cons, Utf8.encodeChars_append,
        List.append_assoc, List.append_assoc]
      rfl
    exact value_string hc (string_of_rest (rest_skip hc))
  | array hitems ih => exact reads_array fun v hv => ⟨hitems v hv, ih v hv⟩
  | object hnames hfields ih => exact reads_object ih

end Cursor

/-- The text of a value is the value with its fields in order. -/
theorem parse_text {v : Json} (hv : v.Plain) (hdepth : v.depth ≤ Cursor.maxDepth) :
    parse (Bytes.ofString v.text) = .ok v.ordered := by
  have hbytes : Bytes.ofString v.text = encodeChars (chars v) := by
    unfold Bytes.ofString Utf8.encode text
    rw [String.toList_ofList]
  rw [hbytes]
  obtain ⟨c, hvalue, hc⟩ := Cursor.reads_of_plain hv (2 * (encodeChars (chars v)).length + 1)
    Cursor.maxDepth (Cursor.ofBytes (encodeChars (chars v))) [] (List.append_nil _).symm
    Cursor.delimited_nil (Nat.le_succ _) hdepth
  unfold parse
  rw [hvalue]
  dsimp only [bind, Except.bind]
  rw [Cursor.finish_of_rest hc]
  rfl

end ServiceCall.Json
