import ServiceCall.Json.Value
import Mathlib.Data.List.Nodup
import Mathlib.Data.String.Basic

/-!
# Values up to the order of fields

Reading keeps the fields of an object in the order of their names, whatever order they are written
in. Nothing else about a value changes.
-/

namespace ServiceCall.Json

/-- Every number is as `numbers` says, and the names of every object are as `names` says. -/
inductive Throughout (numbers : Number → Prop) (names : List String → Prop) : Json → Prop
  | null : Throughout numbers names .null
  | bool (b : Bool) : Throughout numbers names (.bool b)
  | number {n : Number} (hnumber : numbers n) : Throughout numbers names (.number n)
  | string (s : String) : Throughout numbers names (.string s)
  | array {items : List Json} (hitems : ∀ v ∈ items, Throughout numbers names v) :
      Throughout numbers names (.array items)
  | object {fields : List (String × Json)} (hnames : names (fields.map (·.1)))
      (hfields : ∀ f ∈ fields, Throughout numbers names f.2) :
      Throughout numbers names (.object fields)

section

variable {numbers : Number → Prop} {names : List String → Prop}

@[simp] theorem throughout_null : Throughout numbers names .null := .null

@[simp] theorem throughout_bool (b : Bool) : Throughout numbers names (.bool b) := .bool b

@[simp] theorem throughout_string (s : String) : Throughout numbers names (.string s) := .string s

@[simp] theorem throughout_number {n : Number} :
    Throughout numbers names (.number n) ↔ numbers n :=
  ⟨fun | .number hnumber => hnumber, .number⟩

@[simp] theorem throughout_array {items : List Json} :
    Throughout numbers names (.array items) ↔ ∀ v ∈ items, Throughout numbers names v :=
  ⟨fun | .array hitems => hitems, .array⟩

@[simp] theorem throughout_object {fields : List (String × Json)} :
    Throughout numbers names (.object fields) ↔
      names (fields.map (·.1)) ∧ ∀ f ∈ fields, Throughout numbers names f.2 :=
  ⟨fun | .object hnames hfields => ⟨hnames, hfields⟩, fun h => .object h.1 h.2⟩

end

/-- Numbers are whole, and no object has two fields of one name. -/
def Plain : Json → Prop := Throughout (∃ i, · = .integer i) List.Nodup

/-- Every object has its fields in the order of their names. -/
def InOrder : Json → Prop := Throughout (fun _ => True) (List.Pairwise (· < ·))

/-- The values differ in the order of fields alone. -/
inductive Same : Json → Json → Prop
  | null : Same .null .null
  | bool (b : Bool) : Same (.bool b) (.bool b)
  | number (n : Number) : Same (.number n) (.number n)
  | string (s : String) : Same (.string s) (.string s)
  | array {items items' : List Json} (hlength : items.length = items'.length)
      (hitems : ∀ (i : Nat) v v', items[i]? = some v → items'[i]? = some v' → Same v v') :
      Same (.array items) (.array items')
  | object {fields fields' : List (String × Json)}
      (hnames : (fields.map (·.1)).Perm (fields'.map (·.1)))
      (hfields : ∀ name v v', (name, v) ∈ fields → (name, v') ∈ fields' → Same v v') :
      Same (.object fields) (.object fields')

mutual

/-- The value with the fields of every object in order. -/
def ordered : Json → Json
  | .array items => .array (orderedItems items)
  | .object fields => ofFields (orderedFields fields)
  | v => v

def orderedItems : List Json → List Json
  | [] => []
  | v :: rest => ordered v :: orderedItems rest

def orderedFields : List (String × Json) → List (String × Json)
  | [] => []
  | (name, v) :: rest => (name, ordered v) :: orderedFields rest

end

theorem orderedItems_eq (items : List Json) : orderedItems items = items.map ordered := by
  induction items with
  | nil => rfl
  | cons v rest ih => rw [orderedItems, ih, List.map_cons]

theorem orderedFields_eq (fields : List (String × Json)) :
    orderedFields fields = fields.map fun f => (f.1, ordered f.2) := by
  induction fields with
  | nil => rfl
  | cons f rest ih => rw [orderedFields, ih, List.map_cons]

/-! ## Putting fields in order -/

section

variable {name : String} {fields placed : List (String × Json)}

theorem insertField_perm (value : Json) (h : name ∉ placed.map (·.1)) :
    (insertField name value placed).Perm ((name, value) :: placed) := by
  induction placed with
  | nil => exact .refl _
  | cons f placed ih =>
    simp only [List.map_cons, List.mem_cons, not_or] at h
    unfold insertField
    rw [if_neg h.1]
    split
    · exact .refl _
    · exact ((ih h.2).cons f).trans (.swap ..)

theorem insertField_last (value : Json) (h : ∀ n ∈ placed.map (·.1), n < name) :
    insertField name value placed = placed ++ [(name, value)] := by
  induction placed with
  | nil => rfl
  | cons f placed ih =>
    obtain ⟨hfirst, hrest⟩ := List.forall_mem_cons.mp h
    unfold insertField
    rw [if_neg hfirst.ne', if_neg hfirst.not_gt, ih hrest]
    rfl

theorem foldl_insertField_perm (h : ((placed ++ fields).map (·.1)).Nodup) :
    (fields.foldl (fun acc f => insertField f.1 f.2 acc) placed).Perm (placed ++ fields) := by
  induction fields generalizing placed with
  | nil => exact .of_eq (List.append_nil placed).symm
  | cons f fields ih =>
    have hmiddle : (placed ++ f :: fields).Perm (f :: placed ++ fields) := List.perm_middle
    have hnodup := (hmiddle.map _).nodup h
    have hnew : f.1 ∉ placed.map (·.1) := by
      intro hmem
      rw [List.cons_append, List.map_cons, List.nodup_cons, List.map_append] at hnodup
      exact hnodup.1 (List.mem_append_left _ hmem)
    have hplaced := (insertField_perm f.2 hnew).append_right fields
    exact (ih ((hplaced.map _).nodup_iff.mpr hnodup)).trans (hplaced.trans hmiddle.symm)

theorem exists_ofFields (h : (fields.map (·.1)).Nodup) :
    ∃ fields', ofFields fields = .object fields' ∧ fields'.Perm fields :=
  ⟨_, rfl, foldl_insertField_perm h⟩

theorem foldl_insertField (h : ((placed ++ fields).map (·.1)).Pairwise (· < ·)) :
    fields.foldl (fun acc f => insertField f.1 f.2 acc) placed = placed ++ fields := by
  induction fields generalizing placed with
  | nil => exact (List.append_nil placed).symm
  | cons f fields ih =>
    have hlast : ∀ n ∈ placed.map (·.1), n < f.1 := by
      intro n hn
      rw [List.map_append, List.pairwise_append] at h
      exact h.2.2 n hn f.1 (List.mem_cons_self ..)
    rw [List.foldl_cons, insertField_last _ hlast, ih]
    · simp
    · simpa using h

theorem ofFields_of_sorted (h : (fields.map (·.1)).Pairwise (· < ·)) :
    ofFields fields = .object fields :=
  congrArg Json.object (foldl_insertField h)

end

/-! ## A value and itself in order -/

variable {v : Json}

theorem same_ordered (h : v.Plain) : v.Same v.ordered := by
  induction h with
  | null => exact .null
  | bool b => exact .bool b
  | number => exact .number _
  | string s => exact .string s
  | @array items hitems ih =>
    rw [ordered, orderedItems_eq]
    refine .array (List.length_map ..).symm fun i v v' hv hv' => ?_
    rw [List.getElem?_map, hv] at hv'
    cases hv'
    exact ih v (List.mem_of_getElem? hv)
  | @object fields hnames hfields ih =>
    have hkept : (orderedFields fields).map (·.1) = fields.map (·.1) := by
      rw [orderedFields_eq, List.map_map]
      rfl
    obtain ⟨fields', heq, hperm⟩ := exists_ofFields (hkept ▸ hnames)
    rw [ordered, heq]
    refine .object (hkept ▸ (hperm.map _).symm) fun name v v' hv hv' => ?_
    rw [hperm.mem_iff, orderedFields_eq] at hv'
    obtain ⟨f, hf, heq'⟩ := List.mem_map.mp hv'
    cases heq'
    rw [List.inj_on_of_nodup_map hnames hf hv rfl]
    exact ih _ hv

theorem ordered_of_inOrder (h : v.InOrder) : v.ordered = v := by
  induction h with
  | @array items hitems ih =>
    rw [ordered, orderedItems_eq, List.map_congr_left ih, List.map_id']
  | @object fields hnames hfields ih =>
    have hsame : orderedFields fields = fields := by
      rw [orderedFields_eq]
      refine (List.map_congr_left fun f hf => ?_).trans (List.map_id fields)
      rw [ih f hf]
      rfl
    rw [ordered, hsame, ofFields_of_sorted hnames]
  | _ => rfl

end ServiceCall.Json
