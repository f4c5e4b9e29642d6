import ServiceCall.Proofs.Url.Names
import Mathlib.Algebra.Ring.Nat
import Mathlib.Data.List.Induction

/-!
# Hosts that are numbers

The text of an IPv4 or IPv6 address is read back as the address it was made from.
-/

namespace ServiceCall

namespace Url

/-! ## IPv4 -/

theorem digitsIn?_toDigits (n : Nat) : digitsIn? 10 (Nat.toDigits 10 n) = some n := by
  refine Text.foldl_toDigits some (by omega) (fun m d hd => ?_) n
  have hhex : Text.hexValue? (Nat.digitChar d) = some d := Text.hexValue?_digitChar d (by omega)
  simp only [Option.bind_eq_bind, Option.bind_some, hhex, if_pos hd]

theorem ipv4Part?_toDigits (n : Nat) :
    ipv4Part? (Nat.toDigits 10 n) =
      some (if n < 4294967296 then .number n else .tooLarge) := by
  have hread := digitsIn?_toDigits n
  obtain ⟨c, cs, hcs⟩ := List.exists_cons_of_ne_nil (@Nat.toDigits_ne_nil n 10)
  rw [hcs] at hread ⊢
  by_cases hc : c = '0'
  · subst hc
    obtain rfl := Text.nil_of_toDigits_zero hcs
    obtain rfl : 0 = n := Option.some.inj hread
    rfl
  · unfold ipv4Part?
    split
    · contradiction
    · rename_i heq
      exact absurd (List.cons.inj heq).1 hc
    · rename_i heq
      exact absurd (List.cons.inj heq).1 hc
    · rename_i heq
      exact absurd (List.cons.inj heq).1 hc
    · simp only [hread, Option.map_some]

section

variable {address : Nat}

def ipv4Parts (address : Nat) : List (List Char) :=
  [address / 16777216, address / 65536 % 256, address / 256 % 256, address % 256].map
    (Nat.toDigits 10)

theorem splitChars_ipv4Text (address : Nat) :
    Text.splitChars '.' (ipv4Text address).toList = ipv4Parts address := by
  have hdot (n : Nat) : '.' ∉ Nat.toDigits 10 n :=
    Text.not_mem_toDigits (by omega) (by decide)
  have htext : (ipv4Text address).toList =
      Nat.toDigits 10 (address / 16777216) ++ '.' ::
        (Nat.toDigits 10 (address / 65536 % 256) ++ '.' ::
          (Nat.toDigits 10 (address / 256 % 256) ++ '.' :: Nat.toDigits 10 (address % 256))) := by
    simp [ipv4Text, Nat.toString_eq_repr, Nat.toList_repr]
  rw [htext, Text.splitChars_append_cons (hdot _), Text.splitChars_append_cons (hdot _),
    Text.splitChars_append_cons (hdot _), Text.splitChars_of_not_mem (hdot _)]
  rfl

theorem dropLastIfEmpty_ipv4Parts (address : Nat) :
    dropLastIfEmpty (ipv4Parts address) = ipv4Parts address := by
  refine if_neg ?_
  simp [ipv4Parts]

theorem endsInNumber_ipv4Text (address : Nat) : endsInNumber (ipv4Text address).toList = true := by
  unfold endsInNumber
  rw [splitChars_ipv4Text, dropLastIfEmpty_ipv4Parts]
  simp [ipv4Parts, ipv4Part?_toDigits]

theorem parseIpv4_ok {cs : List Char} {n : Nat} (h : parseIpv4 cs = .ok n) :
    ∃ numbers, List.Forall₂ (fun part m => ipv4Part? part = some (.number m))
        (dropLastIfEmpty (Text.splitChars '.' cs)) numbers ∧
      numbers.length ≤ 4 ∧ (∀ m ∈ numbers.dropLast, m ≤ 255) ∧
      numbers.getLast?.getD 0 < 1 <<< (8 * (4 - numbers.dropLast.length)) ∧
      n = numbers.dropLast.zipIdx.foldl (fun acc (m, i) => acc + m <<< (8 * (3 - i)))
        (numbers.getLast?.getD 0) := by
  unfold parseIpv4 at h
  dsimp only at h
  split at h
  · cases h
  · rename_i hshort
    obtain ⟨numbers, hnumbers, h⟩ := exists_of_bind_ok h
    have hparts := forall₂_of_mapM hnumbers
    split at h
    · cases h
    · rename_i hsmall
      simp only [Bool.or_eq_true, decide_eq_true_eq, List.any_eq_true, not_or, not_exists,
        not_and, Nat.not_le, Nat.not_lt] at hsmall
      cases h
      refine ⟨numbers, hparts.imp ?_, ?_, hsmall.2, hsmall.1, rfl⟩
      · intro part m hm
        split at hm
        · rename_i heq
          cases hm
          exact heq
        · cases hm
      · rw [← hparts.length_eq]
        exact Nat.not_lt.mp hshort

theorem parseIpv4_ipv4Text {n : Nat} (h : parseIpv4 (ipv4Text address).toList = .ok n) :
    n = address := by
  obtain ⟨numbers, hnumbers, -, -, -, rfl⟩ := parseIpv4_ok h
  rw [splitChars_ipv4Text, dropLastIfEmpty_ipv4Parts, ipv4Parts, List.forall₂_map_left_iff]
    at hnumbers
  have hread : List.Forall₂ (· = ·) [address / 16777216, address / 65536 % 256,
      address / 256 % 256, address % 256] numbers := by
    refine hnumbers.imp fun part m hm => ?_
    rw [ipv4Part?_toDigits] at hm
    split at hm
    · exact Ipv4Part.number.inj (Option.some.inj hm)
    · cases hm
  rw [List.forall₂_eq_eq_eq] at hread
  subst hread
  simp only [List.dropLast, List.getLast?, List.zipIdx, List.foldl, List.getLast, Option.getD_some,
    Nat.shiftLeft_eq]
  omega

end

/-! ## Pieces of an IPv6 address -/

theorem joinedPieces_singleton (p : Nat) : (joinedPieces [p]).toList = Nat.toDigits 16 p := by
  simp [joinedPieces, Text.hex]

theorem joinedPieces_cons_cons (p q : Nat) (ps : List Nat) :
    (joinedPieces (p :: q :: ps)).toList =
      Nat.toDigits 16 p ++ ':' :: (joinedPieces (q :: ps)).toList := by
  simp [joinedPieces, Text.hex, String.intercalate_cons_cons]

theorem length_le_joinedPieces (pieces : List Nat) :
    pieces.length ≤ (joinedPieces pieces).toList.length := by
  induction pieces with
  | nil => exact Nat.zero_le _
  | cons p ps ih =>
    have hpos := @Nat.length_toDigits_pos 16 p
    cases ps with
    | nil => rwa [joinedPieces_singleton]
    | cons q ps =>
      rw [joinedPieces_cons_cons, List.length_append]
      simp only [List.length_cons] at ih ⊢
      omega

section

variable {fuel p : Nat} {scan : Ipv6Scan} {more : List Char}

/-- The digits of a piece are found in front of what is no digit. -/
theorem takeWhile_toDigits (hp : p < 65536) {rest : List Char}
    (hrest : rest = [] ∨ ∃ more, rest = ':' :: more) :
    ((Nat.toDigits 16 p ++ rest).take 4).takeWhile (fun c => (Text.hexValue? c).isSome) =
      Nat.toDigits 16 p := by
  have hlength : (Nat.toDigits 16 p).length ≤ 4 :=
    (Nat.length_toDigits_le_iff (by omega) (by omega)).mpr hp
  have hhex : ∀ c ∈ Nat.toDigits 16 p, (Text.hexValue? c).isSome = true := by
    intro c hc
    obtain ⟨d, hd, rfl⟩ := Text.exists_digitChar_of_mem (by omega) hc
    rw [Text.hexValue?_digitChar d hd]
    rfl
  rw [List.take_append, List.take_of_length_le hlength, List.takeWhile_append_of_pos hhex]
  rcases hrest with rfl | ⟨more, rfl⟩
  · simp
  · cases 4 - (Nat.toDigits 16 p).length with
    | zero => simp
    | succ n => simp [Text.hexValue?]

theorem exists_cons_toDigits (p : Nat) : ∃ c cs, Nat.toDigits 16 p = c :: cs ∧ c ≠ ':' := by
  obtain ⟨c, cs, hcs⟩ := List.exists_cons_of_ne_nil (@Nat.toDigits_ne_nil p 16)
  refine ⟨c, cs, hcs, ?_⟩
  rintro rfl
  exact Text.not_mem_toDigits (by omega) (by decide) (hcs ▸ List.mem_cons_self ..)

theorem ipv6Pieces_last (hp : p < 65536) (hroom : scan.pieces.length ≠ 8) :
    ipv6Pieces (fuel + 1) scan (Nat.toDigits 16 p) =
      .ok ⟨scan.pieces ++ [p], scan.gap⟩ := by
  obtain ⟨c, cs, hcs, hcolon⟩ := exists_cons_toDigits p
  have hdigits := takeWhile_toDigits hp (Or.inl rfl)
  have hread := Text.hexNumber?_toDigits p
  rw [List.append_nil] at hdigits
  rw [hcs] at hdigits hread ⊢
  simp only [ipv6Pieces, if_neg hroom, if_neg hcolon, hdigits, hread, List.drop_length,
    Option.getD_some]

theorem ipv6Pieces_colon (hp : p < 65536) (hroom : scan.pieces.length ≠ 8) (hmore : more ≠ []) :
    ipv6Pieces (fuel + 1) scan (Nat.toDigits 16 p ++ ':' :: more) =
      ipv6Pieces fuel ⟨scan.pieces ++ [p], scan.gap⟩ more := by
  obtain ⟨c, cs, hcs, hcolon⟩ := exists_cons_toDigits p
  have hdigits := takeWhile_toDigits hp (Or.inr ⟨more, rfl⟩)
  have hread := Text.hexNumber?_toDigits p
  have hrest : (c :: (cs ++ ':' :: more)).drop (c :: cs).length = ':' :: more :=
    List.drop_left
  rw [hcs] at hdigits hread ⊢
  rw [List.cons_append] at hdigits ⊢
  simp only [ipv6Pieces, if_neg hroom, if_neg hcolon, hdigits, hread, hrest, Option.getD_some,
    List.isEmpty_eq_false_iff.mpr hmore, Bool.false_eq_true, if_false]

/-- Pieces in front of a colon are read one by one. -/
theorem ipv6Pieces_joinedPieces_colon {pieces : List Nat} (hne : pieces ≠ [])
    (hp : ∀ p ∈ pieces, p < 65536) (hroom : scan.pieces.length + pieces.length ≤ 8)
    (hmore : more ≠ []) :
    ipv6Pieces (pieces.length + fuel) scan ((joinedPieces pieces).toList ++ ':' :: more) =
      ipv6Pieces fuel ⟨scan.pieces ++ pieces, scan.gap⟩ more := by
  induction pieces generalizing scan with
  | nil => contradiction
  | cons p ps ih =>
    obtain ⟨hhead, htail⟩ := List.forall_mem_cons.mp hp
    rw [List.length_cons] at hroom
    rw [List.length_cons, Nat.add_right_comm]
    cases ps with
    | nil =>
      rw [joinedPieces_singleton, ipv6Pieces_colon hhead (by omega) hmore]
      rw [List.length_nil, Nat.zero_add]
    | cons q ps =>
      rw [joinedPieces_cons_cons, List.append_assoc, List.cons_append,
        ipv6Pieces_colon hhead (by omega) (by simp)]
      rw [ih (by simp) htail (by rw [List.length_append, List.length_singleton]; omega)]
      rw [List.append_assoc, List.singleton_append]

theorem ipv6Pieces_joinedPieces {pieces : List Nat} (hp : ∀ p ∈ pieces, p < 65536)
    (hroom : scan.pieces.length + pieces.length ≤ 8) :
    ipv6Pieces (pieces.length + (fuel + 1)) scan (joinedPieces pieces).toList =
      .ok ⟨scan.pieces ++ pieces, scan.gap⟩ := by
  induction pieces generalizing scan with
  | nil =>
    rw [List.append_nil]
    rfl
  | cons p ps ih =>
    obtain ⟨hhead, htail⟩ := List.forall_mem_cons.mp hp
    rw [List.length_cons] at hroom
    rw [List.length_cons, Nat.add_right_comm]
    cases ps with
    | nil => rw [joinedPieces_singleton, ipv6Pieces_last hhead (by omega)]
    | cons q ps =>
      rw [joinedPieces_cons_cons, ipv6Pieces_colon hhead (by omega)]
      · rw [ih htail (by rw [List.length_append, List.length_singleton]; omega)]
        rw [List.append_assoc, List.singleton_append]
      · intro hnil
        have hlength := length_le_joinedPieces (q :: ps)
        rw [hnil] at hlength
        simp at hlength

end

/-! ## The gap -/

theorem zeroRun_eq (pieces : List Nat) :
    pieces = List.replicate (zeroRun pieces) 0 ++ pieces.drop (zeroRun pieces) := by
  induction pieces with
  | nil => rfl
  | cons p ps ih =>
    by_cases hp : p = 0
    · have hrun : zeroRun (p :: ps) = zeroRun ps + 1 := by simp [zeroRun, hp]
      rw [hrun, List.replicate_succ, List.drop_succ_cons, List.cons_append, ← ih, hp]
    · have hrun : zeroRun (p :: ps) = 0 := by simp [zeroRun, hp]
      rw [hrun]
      rfl

theorem longestZeroRun_eq {pieces : List Nat} {i n : Nat}
    (h : longestZeroRun pieces = some (i, n)) :
    2 ≤ n ∧ i + n ≤ pieces.length ∧
      pieces = pieces.take i ++ List.replicate n 0 ++ pieces.drop (i + n) := by
  have hrun : 2 ≤ n ∧ zeroRun (pieces.drop i) = n := by
    unfold longestZeroRun at h
    revert i n
    refine List.foldlRecOn (motive := fun best : Option (Nat × Nat) => ∀ {i n : Nat},
      best = some (i, n) → 2 ≤ n ∧ zeroRun (pieces.drop i) = n) _ _ ?_ ?_
    · rintro i n ⟨⟩
    · intro best hbest j _ i n h
      dsimp only at h
      split at h
      · rename_i hlong
        cases h
        exact ⟨of_decide_eq_true (Bool.and_eq_true_iff.mp hlong).1, rfl⟩
      · exact hbest h
  obtain ⟨hn, hrun⟩ := hrun
  have hsplit := zeroRun_eq (pieces.drop i)
  rw [hrun, List.drop_drop] at hsplit
  have hlength := congrArg List.length hsplit
  rw [List.length_append, List.length_replicate, List.length_drop, List.length_drop] at hlength
  refine ⟨hn, by omega, ?_⟩
  rw [List.append_assoc, ← hsplit, List.take_append_drop]

/-! ## Whole IPv6 addresses -/

/-- The address that was read, with zeros in the gap. -/
def Ipv6Scan.whole (scan : Ipv6Scan) : Except Problem (List Nat) :=
  match scan.gap with
  | some gap =>
    .ok (scan.pieces.take gap ++ List.replicate (8 - scan.pieces.length) 0 ++
      scan.pieces.drop gap)
  | none => if scan.pieces.length = 8 then .ok scan.pieces else .error .ipv6

theorem parseIpv6_of_gap {cs : List Char} {scan : Ipv6Scan}
    (h : ipv6Pieces (cs.length + 1) ⟨[0], some 1⟩ cs = .ok scan) :
    parseIpv6 (':' :: ':' :: cs) = scan.whole := by
  unfold parseIpv6
  simp only [h]
  rfl

theorem parseIpv6_of_piece {p : Nat} {more : List Char} {scan : Ipv6Scan}
    (h : ipv6Pieces ((Nat.toDigits 16 p ++ ':' :: more).length + 1) ⟨[], none⟩
      (Nat.toDigits 16 p ++ ':' :: more) = .ok scan) :
    parseIpv6 (Nat.toDigits 16 p ++ ':' :: more) = scan.whole := by
  obtain ⟨c, cs, hcs, hcolon⟩ := exists_cons_toDigits p
  rw [hcs, List.cons_append] at h ⊢
  unfold parseIpv6
  split
  · contradiction
  · rename_i heq
    simp at heq
  · rename_i heq
    exact absurd (List.cons.inj heq).1 hcolon
  · rename_i heq
    exact absurd (List.cons.inj heq).1 hcolon
  · simp only [h]
    rfl

theorem exists_digits_colon (p : Nat) (ps : List Nat) (tail : List Char) :
    ∃ more, (joinedPieces (p :: ps)).toList ++ ':' :: tail = Nat.toDigits 16 p ++ ':' :: more := by
  cases ps with
  | nil => exact ⟨tail, by rw [joinedPieces_singleton]⟩
  | cons q ps =>
    refine ⟨(joinedPieces (q :: ps)).toList ++ ':' :: tail, ?_⟩
    rw [joinedPieces_cons_cons, List.append_assoc, List.cons_append]

section

variable {left right pieces : List Nat} {n : Nat}

/-- An address that begins with its gap. -/
theorem parseIpv6_gap (hn : 2 ≤ n) (hlength : n + right.length = 8)
    (hright : ∀ p ∈ right, p < 65536) :
    parseIpv6 (':' :: ':' :: (joinedPieces right).toList) = .ok (List.replicate n 0 ++ right) := by
  have hread : ipv6Pieces ((joinedPieces right).toList.length + 1) ⟨[0], some 1⟩
      (joinedPieces right).toList = .ok ⟨[0] ++ right, some 1⟩ := by
    obtain ⟨fuel, hfuel⟩ := Nat.exists_eq_add_of_le (length_le_joinedPieces right)
    rw [hfuel, Nat.add_assoc]
    exact ipv6Pieces_joinedPieces hright (by rw [List.length_singleton]; omega)
  obtain ⟨k, rfl⟩ : ∃ k, n = k + 1 := ⟨n - 1, by omega⟩
  have hzeros : 8 - ([0] ++ right).length = k := by
    rw [List.length_append, List.length_singleton]
    omega
  rw [parseIpv6_of_gap hread]
  simp only [Ipv6Scan.whole, hzeros]
  rfl

theorem parseIpv6_piece_gap (hne : left ≠ []) (hn : 2 ≤ n)
    (hlength : left.length + n + right.length = 8) (hleft : ∀ p ∈ left, p < 65536)
    (hright : ∀ p ∈ right, p < 65536) :
    parseIpv6 ((joinedPieces left).toList ++ ':' :: ':' :: (joinedPieces right).toList) =
      .ok (left ++ List.replicate n 0 ++ right) := by
  have hread : ipv6Pieces
      (((joinedPieces left).toList ++ ':' :: ':' :: (joinedPieces right).toList).length + 1)
      ⟨[], none⟩ ((joinedPieces left).toList ++ ':' :: ':' :: (joinedPieces right).toList) =
        .ok ⟨left ++ [0] ++ right, some (left ++ [0]).length⟩ := by
    obtain ⟨fuel, hfuel⟩ : ∃ fuel, ((joinedPieces left).toList ++
        ':' :: ':' :: (joinedPieces right).toList).length + 1 =
          left.length + (right.length + (fuel + 1) + 1) := by
      have h1 := length_le_joinedPieces left
      have h2 := length_le_joinedPieces right
      rw [List.length_append, List.length_cons, List.length_cons]
      exact ⟨(joinedPieces left).toList.length - left.length +
        ((joinedPieces right).toList.length - right.length) + 1, by omega⟩
    rw [hfuel, ipv6Pieces_joinedPieces_colon hne hleft (by rw [List.length_nil]; omega) (by simp)]
    have hroom : left.length ≠ 8 := by omega
    simp only [List.nil_append, ipv6Pieces, if_neg hroom, if_true, Option.isSome_none,
      Bool.false_eq_true, if_false]
    exact ipv6Pieces_joinedPieces hright (by
      rw [List.length_append, List.length_singleton]
      omega)
  obtain ⟨p, ps, rfl⟩ := List.exists_cons_of_ne_nil hne
  obtain ⟨more, hmore⟩ := exists_digits_colon p ps (':' :: (joinedPieces right).toList)
  obtain ⟨k, rfl⟩ : ∃ k, n = k + 1 := ⟨n - 1, by omega⟩
  have hzeros : 8 - (p :: ps ++ [0] ++ right).length = k := by
    rw [List.length_append, List.length_append, List.length_singleton]
    omega
  rw [hmore] at hread ⊢
  rw [parseIpv6_of_piece hread]
  simp only [Ipv6Scan.whole, hzeros, List.take_left, List.drop_left]
  rw [List.replicate_succ, List.append_assoc (p :: ps) [0], List.singleton_append]

theorem parseIpv6_ipv6Text (hlength : pieces.length = 8) (hp : ∀ p ∈ pieces, p < 65536) :
    parseIpv6 (ipv6Text pieces).toList = .ok pieces := by
  unfold ipv6Text
  split
  · rename_i i n hrun
    obtain ⟨hn, hle, hsplit⟩ := longestZeroRun_eq hrun
    have hleft : ∀ p ∈ pieces.take i, p < 65536 := fun p hmem => hp p (List.mem_of_mem_take hmem)
    have hright : ∀ p ∈ pieces.drop (i + n), p < 65536 :=
      fun p hmem => hp p (List.mem_of_mem_drop hmem)
    have hsum : (pieces.take i).length + n + (pieces.drop (i + n)).length = 8 := by
      rw [List.length_take, List.length_drop]
      omega
    have htext : (joinedPieces (pieces.take i) ++ "::" ++
        joinedPieces (pieces.drop (i + n))).toList =
        (joinedPieces (pieces.take i)).toList ++
          ':' :: ':' :: (joinedPieces (pieces.drop (i + n))).toList := by
      simp
    rw [htext]
    conv_rhs => rw [hsplit]
    by_cases hfront : pieces.take i = []
    · rw [hfront] at hsum ⊢
      rw [List.length_nil, Nat.zero_add] at hsum
      exact parseIpv6_gap hn hsum hright
    · exact parseIpv6_piece_gap hfront hn hsum hleft hright
  · have hread : ipv6Pieces ((joinedPieces pieces).toList.length + 1) ⟨[], none⟩
        (joinedPieces pieces).toList = .ok ⟨pieces, none⟩ := by
      obtain ⟨fuel, hfuel⟩ := Nat.exists_eq_add_of_le (length_le_joinedPieces pieces)
      rw [hfuel, Nat.add_assoc]
      exact ipv6Pieces_joinedPieces hp (by rw [List.length_nil]; omega)
    obtain ⟨p, rest, rfl⟩ := List.exists_cons_of_length_pos (by omega : 0 < pieces.length)
    obtain ⟨q, ps, rfl⟩ := List.exists_cons_of_length_pos (by
      rw [List.length_cons] at hlength
      omega : 0 < rest.length)
    rw [joinedPieces_cons_cons] at hread ⊢
    rw [parseIpv6_of_piece hread]
    exact if_pos hlength

end

/-! ## What IPv6 addresses consist of -/

theorem hexValue?_lt {c : Char} {d : Nat} (h : Text.hexValue? c = some d) : d < 16 := by
  unfold Text.hexValue? at h
  simp only [Bool.and_eq_true, decide_eq_true_eq] at h
  split at h
  · cases h
    omega
  · split at h
    · cases h
      omega
    · split at h
      · cases h
        omega
      · cases h

theorem hexNumber?_lt {cs : List Char} {n : Nat} (h : Text.hexNumber? cs = some n) :
    n < 16 ^ cs.length := by
  induction cs using List.reverseRecOn generalizing n with
  | nil =>
    cases h
    exact Nat.one_pos
  | append_singleton cs c ih =>
    unfold Text.hexNumber? at h
    rw [List.foldl_append] at h
    obtain ⟨m, hm, h⟩ := Option.bind_eq_some_iff.mp h
    obtain ⟨d, hd, h⟩ := Option.bind_eq_some_iff.mp h
    have hdigit := hexValue?_lt hd
    have hfront := ih hm
    cases h
    rw [List.length_append, List.length_singleton, Nat.pow_succ]
    omega

/-- What is kept while the pieces are read. -/
structure Ipv6Scan.Sound (scan : Ipv6Scan) : Prop where
  length : scan.pieces.length ≤ 8
  piece : ∀ p ∈ scan.pieces, p < 65536
  gap : ∀ gap, scan.gap = some gap → gap ≤ scan.pieces.length

theorem Ipv6Scan.Sound.push {scan : Ipv6Scan} (h : scan.Sound) (hroom : scan.pieces.length ≠ 8)
    {p : Nat} (hp : p < 65536) : Ipv6Scan.Sound ⟨scan.pieces ++ [p], scan.gap⟩ where
  length := by
    have hlength := h.length
    rw [List.length_append, List.length_singleton]
    omega
  piece := by
    intro q hq
    rcases List.mem_append.mp hq with hq | hq
    · exact h.piece q hq
    · rwa [List.mem_singleton.mp hq]
  gap := by
    intro gap hgap
    have hle := h.gap gap hgap
    rw [List.length_append]
    omega

theorem decimalByte?_le {digits : List Char} {n : Nat} (h : decimalByte? digits = some n) :
    n ≤ 255 := by
  unfold decimalByte? at h
  split at h
  · cases h
  · exact of_decide_eq_true (Option.filter_eq_some_iff.mp h).2

theorem ipv6Tail_sound {scan scan' : Ipv6Scan} {cs : List Char} (h : scan.Sound)
    (hs : ipv6Tail scan cs = .ok scan') : scan'.Sound := by
  unfold ipv6Tail at hs
  split at hs
  · rename_i a b c d hbytes
    have hbyte : ∀ n ∈ [a, b, c, d], n ≤ 255 := by
      intro n hn
      obtain ⟨part, -, hpart⟩ := exists_of_mem_mapM_some hbytes hn
      exact decimalByte?_le hpart
    simp only [List.forall_mem_cons] at hbyte
    obtain ⟨ha, hb, hc, hd, -⟩ := hbyte
    split at hs
    · cases hs
    · rename_i hroom
      cases hs
      have hfirst := h.push (by omega) (p := a * 256 + b) (by omega)
      have hboth := hfirst.push (p := c * 256 + d)
        (by rw [List.length_append, List.length_singleton]; omega) (by omega)
      rw [List.append_assoc] at hboth
      exact hboth
  · cases hs

theorem ipv6Pieces_sound {fuel : Nat} {scan scan' : Ipv6Scan} {cs : List Char} (h : scan.Sound)
    (hs : ipv6Pieces fuel scan cs = .ok scan') : scan'.Sound := by
  induction fuel generalizing scan cs with
  | zero => cases hs
  | succ fuel ih =>
    cases cs with
    | nil => cases hs; exact h
    | cons c cs =>
      rw [ipv6Pieces] at hs
      split at hs
      · cases hs
      · rename_i hroom
        split at hs
        · split at hs
          · cases hs
          · refine ih ?_ hs
            have hpush := h.push hroom (p := 0) (by omega)
            exact ⟨hpush.length, hpush.piece,
              fun gap hgap => Nat.le_of_eq (Option.some.inj hgap).symm⟩
        · have hpush := h.push hroom (p := (Text.hexNumber? (((c :: cs).take 4).takeWhile
            fun c => (Text.hexValue? c).isSome)).getD 0) ?_
          · dsimp only at hs
            split at hs
            · cases hs
              exact hpush
            · split at hs
              · cases hs
              · exact ipv6Tail_sound h hs
            · split at hs
              · cases hs
              · exact ih hpush hs
            · cases hs
          · cases hread : Text.hexNumber? (((c :: cs).take 4).takeWhile
              fun c => (Text.hexValue? c).isSome) with
            | none =>
              rw [Option.getD_none]
              omega
            | some p =>
              have hlt := hexNumber?_lt hread
              have hshort : (((c :: cs).take 4).takeWhile
                  fun c => (Text.hexValue? c).isSome).length ≤ 4 :=
                Nat.le_trans (List.takeWhile_sublist _).length_le (List.length_take_le ..)
              calc p < 16 ^ _ := hlt
                _ ≤ 16 ^ 4 := Nat.pow_le_pow_right (by omega) hshort

theorem parseIpv6_ok {cs : List Char} {pieces : List Nat} (h : parseIpv6 cs = .ok pieces) :
    ∃ scan : Ipv6Scan, scan.Sound ∧ scan.whole = .ok pieces := by
  have hnew : Ipv6Scan.Sound ⟨[], none⟩ := ⟨by simp, by simp, by simp⟩
  have hgap : Ipv6Scan.Sound ⟨[0], some 1⟩ := ⟨by simp, by simp, by simp⟩
  unfold parseIpv6 at h
  dsimp only at h
  split at h
  · cases h
  · cases h
  · obtain ⟨scan, hscan, h⟩ := exists_of_bind_ok h
    exact ⟨scan, ipv6Pieces_sound hgap hscan, h⟩
  · cases h
  · obtain ⟨scan, hscan, h⟩ := exists_of_bind_ok h
    exact ⟨scan, ipv6Pieces_sound hnew hscan, h⟩

theorem parseIpv6_sound {cs : List Char} {pieces : List Nat} (h : parseIpv6 cs = .ok pieces) :
    pieces.length = 8 ∧ ∀ p ∈ pieces, p < 65536 := by
  obtain ⟨scan, hsound, hwhole⟩ := parseIpv6_ok h
  unfold Ipv6Scan.whole at hwhole
  split at hwhole
  · rename_i gap hgap
    have hlength := hsound.length
    have hle := hsound.gap gap hgap
    cases hwhole
    constructor
    · simp only [List.length_append, List.length_take, List.length_replicate, List.length_drop]
      omega
    · intro p hp
      simp only [List.mem_append, List.mem_replicate] at hp
      rcases hp with (hp | ⟨-, rfl⟩) | hp
      · exact hsound.piece p (List.mem_of_mem_take hp)
      · omega
      · exact hsound.piece p (List.mem_of_mem_drop hp)
  · split at hwhole
    · rename_i hlength
      cases hwhole
      exact ⟨hlength, hsound.piece⟩
    · cases hwhole

end Url

end ServiceCall
