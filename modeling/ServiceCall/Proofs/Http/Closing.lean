import ServiceCall.Http.Headers
import ServiceCall.Proofs.Text.Pieces

/-!
# Lines that ask to close

Whether a connection is kept is read off the `Connection` lines of an answer, each of which is a
list with commas. A line is read as text, so a line with a byte that is not visible is not read at
all, whatever its members are.
-/

namespace ServiceCall.Http

/-! ## Lists of bytes -/

def comma : UInt8 := 0x2C

def IsBlankByte (b : UInt8) : Prop := b = 0x20 ∨ b = 0x09

def charOf (b : UInt8) : Char := Char.ofNat b.toNat

/-- The bytes as text, one character each. -/
def plainText (bytes : Bytes) : String := String.ofList (bytes.map charOf)

/-- The member of a list is `close` in any case, with nothing but blanks around it. -/
def IsClose (member : Bytes) : Prop :=
  ∃ before word after : Bytes, member = before ++ word ++ after ∧
    (∀ b ∈ before ++ after, IsBlankByte b) ∧ Text.lower (plainText word) = "close"

namespace HeaderValue

/-- The line can be read as text. -/
def IsReadable (v : HeaderValue) : Prop := ∀ b ∈ v.bytes, isVisibleByte b = true

-- one byte of the value after the other, not all bytes there are
instance (v : HeaderValue) : Decidable v.IsReadable :=
  List.decidableBAll (isVisibleByte · = true) v.bytes

def AsksToClose (v : HeaderValue) : Prop := ∃ member ∈ v.bytes.splitOn comma, IsClose member

end HeaderValue

/-! ## Characters -/

section

variable {b : UInt8} {bytes member : Bytes}

theorem toNat_charOf (b : UInt8) : (charOf b).toNat = b.toNat := by
  have hlt := b.toNat_lt
  exact Text.toNat_ofNat (by omega)

theorem charOf_inj {b' : UInt8} : charOf b = charOf b' ↔ b = b' := by
  refine ⟨fun h => ?_, congrArg charOf⟩
  rw [← UInt8.toNat_inj, ← toNat_charOf, h, toNat_charOf]

theorem charOf_eq_comma_iff (b : UInt8) : charOf b = ',' ↔ b = comma :=
  @charOf_inj b comma

theorem isBlank_charOf (h : IsBlankByte b) : Text.isBlank (charOf b) = true := by
  rcases h with rfl | rfl <;> decide

/-- Of the blank characters, only these two are visible. -/
theorem isBlankByte_of_visible (hvisible : isVisibleByte b = true)
    (hblank : Text.isBlank (charOf b) = true) : IsBlankByte b := by
  have hrange : 32 ≤ b.toNat ∧ b.toNat < 127 ∨ b.toNat = 9 := by
    simpa [isVisibleByte, UInt8.le_iff_toNat_le, UInt8.lt_iff_toNat_lt, ← UInt8.toNat_inj]
      using hvisible
  have htwo : b.toNat = 32 ∨ b.toNat = 9 := by
    simp [Text.isBlank, toNat_charOf] at hblank
    omega
  exact htwo.imp UInt8.toNat_inj.mp UInt8.toNat_inj.mp

theorem toLower_of_isBlank {c : Char} (h : Text.isBlank c = true) : c.toLower = c := by
  refine dif_neg fun hupper => ?_
  obtain ⟨hlow, hhigh⟩ : 65 ≤ c.toNat ∧ c.toNat ≤ 90 := hupper
  simp [Text.isBlank] at h
  omega

theorem not_isBlank_of_lower {cs : List Char} (h : cs.map Char.toLower = "close".toList) :
    ∀ c ∈ cs, Text.isBlank c = false := by
  intro c hc
  by_contra hblank
  rw [Bool.not_eq_false] at hblank
  have hmem : c ∈ "close".toList := by
    rw [← h]
    exact List.mem_map.mpr ⟨c, hc, toLower_of_isBlank hblank⟩
  have hletters : "close".toList.all (fun c => !Text.isBlank c) = true := by decide
  have hletter := List.all_eq_true.mp hletters c hmem
  rw [hblank] at hletter
  cases hletter

/-! ## Members -/

theorem lower_plainText_iff (word : Bytes) :
    Text.lower (plainText word) = "close" ↔ (word.map charOf).map Char.toLower = "close".toList := by
  rw [← String.toList_inj, Text.lower, plainText, String.toList_ofList, String.toList_ofList]

theorem trim_plainText (bytes : Bytes) :
    Text.trim (plainText bytes) = String.ofList (Text.trimChars (bytes.map charOf)) := by
  rw [Text.trim, plainText, String.toList_ofList]

theorem isClose_iff (hvisible : ∀ b ∈ member, isVisibleByte b = true) :
    IsClose member ↔ Text.lower (Text.trim (plainText member)) = "close" := by
  rw [trim_plainText]
  constructor
  · rintro ⟨before, word, after, rfl, hblank, hword⟩
    -- No letter of the word is a blank, so the trim stops at both ends of it.
    have hsolid := not_isBlank_of_lower ((lower_plainText_iff word).mp hword)
    have hne : word.map charOf ≠ [] := by
      intro hnil
      rw [plainText, hnil] at hword
      exact absurd hword (by decide)
    have hblanks : ∀ {bytes : Bytes}, bytes ⊆ before ++ after →
        ∀ c ∈ bytes.map charOf, Text.isBlank c = true := by
      intro bytes hsub
      rw [List.forall_mem_map]
      exact fun b hb => isBlank_charOf (hblank b (hsub hb))
    rw [List.map_append, List.map_append, Text.trimChars_append (hblanks (by simp))
      (hblanks (by simp)) hne (fun c hc => hsolid c (List.mem_of_head? hc))
      fun c hc => hsolid c (List.mem_of_getLast? hc)]
    exact hword
  · intro hclose
    obtain ⟨front, back, htext, hblank⟩ := Text.exists_trimChars (member.map charOf)
    obtain ⟨rest, after, rfl, hrest, rfl⟩ := List.map_eq_append_iff.mp htext
    obtain ⟨before, word, rfl, rfl, hword⟩ := List.map_eq_append_iff.mp hrest
    refine ⟨before, word, after, rfl, ?_, ?_⟩
    · intro b hb
      refine isBlankByte_of_visible (hvisible b ?_) (hblank _ ?_)
      · simp only [List.mem_append] at hb ⊢
        tauto
      · rw [← List.map_append]
        exact List.mem_map_of_mem hb
    · rw [← hword] at hclose
      exact hclose

theorem listMembers_plainText (bytes : Bytes) :
    listMembers (plainText bytes) =
      (bytes.splitOn comma).map fun member => Text.lower (Text.trim (plainText member)) := by
  simp only [listMembers, Text.split, plainText, String.toList_ofList,
    Text.splitChars_map charOf_eq_comma_iff, List.map_map, Function.comp_def]

theorem mem_of_mem_splitOn (h : member ∈ bytes.splitOn comma) (hb : b ∈ member) : b ∈ bytes := by
  have hpiece : member.map charOf ∈ Text.splitChars ',' (bytes.map charOf) := by
    rw [Text.splitChars_map charOf_eq_comma_iff]
    exact List.mem_map_of_mem h
  have hchar := Text.mem_of_mem_splitChars hpiece (List.mem_map_of_mem hb)
  obtain ⟨b', hb', heq⟩ := List.mem_map.mp hchar
  exact charOf_inj.mp heq ▸ hb'

/-! ## Lines -/

namespace HeaderValue

variable {v w joined : HeaderValue}

theorem text?_eq_some_iff {line : String} :
    v.text? = some line ↔ v.IsReadable ∧ plainText v.bytes = line := by
  simp only [text?, Bytes.visibleText?, IsReadable, List.all_eq_true]
  split
  · rename_i hvisible
    rw [Option.some.injEq, and_iff_right hvisible]
    rfl
  · rename_i hvisible
    simp [hvisible]

theorem contains_close_iff (hread : v.IsReadable) :
    (listMembers (plainText v.bytes)).contains "close" = true ↔ v.AsksToClose := by
  rw [listMembers_plainText, List.contains_iff_mem, List.mem_map]
  refine exists_congr fun member => and_congr_right fun hmem => ?_
  exact (isClose_iff fun b hb => hread b (mem_of_mem_splitOn hmem hb)).symm

/-- A line is joined of two: its members are those of both, and it can be read if both can. -/
theorem joined_iff (h : joined.bytes = v.bytes ++ comma :: w.bytes) :
    (joined.IsReadable ↔ v.IsReadable ∧ w.IsReadable) ∧
      (joined.AsksToClose ↔ v.AsksToClose ∨ w.AsksToClose) := by
  constructor
  · have hcomma : isVisibleByte comma = true := by decide
    simp [IsReadable, h, or_imp, forall_and, hcomma]
  · simp only [AsksToClose, h, List.splitOn_append_cons_self, List.mem_append, or_and_right,
      exists_or]

end HeaderValue

/-- Some line that can be read asks to close. -/
theorem keepsAlive_eq_false_iff (h : Headers) :
    keepsAlive h = false ↔ ∃ v ∈ h.getAll .connection, v.IsReadable ∧ v.AsksToClose := by
  rw [keepsAlive, Bool.not_eq_false', List.any_eq_true]
  constructor
  · rintro ⟨line, hline, hclose⟩
    obtain ⟨v, hv, htext⟩ := List.mem_filterMap.mp hline
    obtain ⟨hread, rfl⟩ := HeaderValue.text?_eq_some_iff.mp htext
    exact ⟨v, hv, hread, (HeaderValue.contains_close_iff hread).mp hclose⟩
  · rintro ⟨v, hv, hread, hclose⟩
    refine ⟨plainText v.bytes, ?_, (HeaderValue.contains_close_iff hread).mpr hclose⟩
    exact List.mem_filterMap.mpr ⟨v, hv, HeaderValue.text?_eq_some_iff.mpr ⟨hread, rfl⟩⟩

end

/-- A connection is kept unless a line that can be read asks to close. To join two lines with a
comma, or to split one at a comma, makes a difference if and only if one of the two parts can be
read and asks to close, the other one cannot be read, and no other line that can be read asks. -/
theorem kept_unless_asked (h : Headers) :
    (keepsAlive h = false ↔ ∃ v ∈ h.getAll .connection, v.IsReadable ∧ v.AsksToClose) ∧
    ∀ (h' : Headers) (v w joined : HeaderValue) (others : List HeaderValue),
      (h.getAll .connection).Perm (v :: w :: others) →
      (h'.getAll .connection).Perm (joined :: others) →
      joined.bytes = v.bytes ++ comma :: w.bytes →
      (keepsAlive h ≠ keepsAlive h' ↔
        (v.IsReadable ∧ v.AsksToClose ∧ ¬ w.IsReadable ∨
          w.IsReadable ∧ w.AsksToClose ∧ ¬ v.IsReadable) ∧
        ∀ u ∈ others, u.IsReadable → ¬ u.AsksToClose) := by
  refine ⟨keepsAlive_eq_false_iff h, ?_⟩
  intro h' v w joined others hparts hjoined hbytes
  have hne : keepsAlive h ≠ keepsAlive h' ↔ ¬ (keepsAlive h = false ↔ keepsAlive h' = false) := by
    cases keepsAlive h <;> cases keepsAlive h' <;> simp
  obtain ⟨hread, hasks⟩ := HeaderValue.joined_iff hbytes
  have hothers : (∀ u ∈ others, u.IsReadable → ¬ u.AsksToClose) ↔
      ¬ ∃ u ∈ others, u.IsReadable ∧ u.AsksToClose := by
    simp only [not_exists, not_and]
  rw [hne, keepsAlive_eq_false_iff, keepsAlive_eq_false_iff, hothers]
  simp only [hparts.mem_iff, hjoined.mem_iff, List.mem_cons, or_and_right, exists_or,
    exists_eq_left, hread, hasks]
  grind

/-- One line is `close`, and the other one is a byte that is not visible. -/
def parted : Headers :=
  ⟨[(.connection, .ofVisible "close"), (.connection, ⟨[0xFF], false⟩)]⟩

/-- The two are joined. -/
def hidden : Headers := ⟨[(.connection, ⟨Bytes.ofString "close" ++ [comma, 0xFF], false⟩)]⟩

theorem isClose_close : IsClose (Bytes.ofString "close") :=
  ⟨[], Bytes.ofString "close", [], by decide, nofun, by decide⟩

theorem kept_unless_asked_of_parted :
    let close := HeaderValue.ofVisible "close"
    let byte : HeaderValue := ⟨[0xFF], false⟩
    let joined : HeaderValue := ⟨Bytes.ofString "close" ++ [comma, 0xFF], false⟩
    (parted.getAll .connection).Perm [close, byte] ∧ (hidden.getAll .connection).Perm [joined] ∧
      joined.bytes = close.bytes ++ comma :: byte.bytes ∧ keepsAlive parted = false ∧
      keepsAlive parted ≠ keepsAlive hidden := by
  intro close byte joined
  have hread : close.IsReadable := by decide
  have hbyte : ¬ byte.IsReadable := by decide
  have hasks : close.AsksToClose := ⟨Bytes.ofString "close", by decide, isClose_close⟩
  obtain ⟨hkept, hjoin⟩ := kept_unless_asked parted
  refine ⟨.refl _, .refl _, by decide, hkept.mpr ⟨close, by decide, hread, hasks⟩, ?_⟩
  exact (hjoin hidden close byte joined [] (.refl _) (.refl _) (by decide)).mpr
    ⟨Or.inl ⟨hread, hasks, hbyte⟩, nofun⟩

/-- A byte that is not visible hides that the line asks to close. -/
theorem unreadable_line_hides_close :
    ¬ ∀ h : Headers, (∀ field ∈ h.entries, field.2.bytes.all isValueByte = true) →
      (keepsAlive h = false ↔ ∃ v ∈ h.getAll .connection, v.AsksToClose) := by
  intro hclaim
  have hkept : keepsAlive hidden = false :=
    (hclaim hidden (by decide)).mpr
      ⟨_, List.mem_singleton_self _, Bytes.ofString "close", by decide, isClose_close⟩
  exact absurd hkept (by decide)

end ServiceCall.Http
