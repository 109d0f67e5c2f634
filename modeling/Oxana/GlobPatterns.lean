import Mathlib.Data.List.Basic

/-!
Glob patterns over the bytes of UTF-8 texts, as Redis matches them: `*`, `?`, classes with
ranges and a leading `^`, and the escape.
-/

namespace GlobPattern

/-- The ends of a range are compared as signed characters. -/
inductive Token
  | star
  | any
  | literal (byte : UInt8)
  | oneOf (negated : Bool) (ranges : List (Int8 × Int8))

mutual

/-- The bytes `42`, `63`, `91`, `92` and `94` are `*`, `?`, `[`, the backslash and `^`. -/
def parse : List UInt8 → List Token
  | [] => []
  | 42 :: rest => .star :: parse rest
  | 63 :: rest => .any :: parse rest
  | 92 :: byte :: rest => .literal byte :: parse rest
  | 91 :: 94 :: rest => parseClass true [] rest
  | 91 :: rest => parseClass false [] rest
  | byte :: rest => .literal byte :: parse rest

-- A class that is never closed by `]` (93) ends with the pattern; 45 is `-`.
def parseClass (negated : Bool) (ranges : List (Int8 × Int8)) : List UInt8 → List Token
  | [] => [.oneOf negated ranges]
  | 92 :: byte :: rest => parseClass negated ((byte.toInt8, byte.toInt8) :: ranges) rest
  | 93 :: rest => .oneOf negated ranges :: parse rest
  | low :: 45 :: high :: rest =>
      parseClass negated ((min low.toInt8 high.toInt8, max low.toInt8 high.toInt8) :: ranges) rest
  | byte :: rest => parseClass negated ((byte.toInt8, byte.toInt8) :: ranges) rest

end

def anySuffix (accepted : List UInt8 → Bool) : List UInt8 → Bool
  | [] => accepted []
  | byte :: rest => accepted (byte :: rest) || anySuffix accepted rest

def accepts : List Token → List UInt8 → Bool
  | [], text => text.isEmpty
  | .star :: rest, text => anySuffix (accepts rest) text
  | _ :: _, [] => false
  | .any :: rest, _ :: text => accepts rest text
  | .literal byte :: rest, found :: text => (byte == found) && accepts rest text
  | .oneOf negated ranges :: rest, found :: text =>
      ((ranges.any fun range => decide (range.1 ≤ found.toInt8 ∧ found.toInt8 ≤ range.2)) !=
        negated) && accepts rest text

def utf8 (text : String) : List UInt8 := text.toList.flatMap String.utf8EncodeChar

def glob (pattern key : String) : Bool := accepts (parse (utf8 pattern)) (utf8 key)

variable {text rest pattern key : String} {start bytes more : List UInt8} {tokens : List Token}

/-! The bytes of a text. -/

theorem utf8_append (first second : String) : utf8 (first ++ second) = utf8 first ++ utf8 second := by
  unfold utf8
  rw [String.toList_append, List.flatMap_append]

theorem letter_of_byte {letter : Char} {byte : UInt8}
    (member : byte ∈ String.utf8EncodeChar letter) (small : byte.toNat < 128) :
    letter.val.toNat = byte.toNat := by
  unfold String.utf8EncodeChar at member
  dsimp only at member
  generalize letter.val.toNat = value at member
  split at member
  · rw [List.mem_singleton.mp member, UInt8.toNat_ofNat']
    omega
  · exfalso
    split at member
    · simp only [List.mem_cons, List.not_mem_nil, or_false] at member
      rcases member with rfl | rfl <;> rw [UInt8.toNat_ofNat'] at small <;> omega
    · split at member
      · simp only [List.mem_cons, List.not_mem_nil, or_false] at member
        rcases member with rfl | rfl | rfl <;> rw [UInt8.toNat_ofNat'] at small <;> omega
      · simp only [List.mem_cons, List.not_mem_nil, or_false] at member
        rcases member with rfl | rfl | rfl | rfl <;> rw [UInt8.toNat_ofNat'] at small <;> omega

theorem mem_of_utf8 {byte : UInt8} (letter : Char) (same : letter.val.toNat = byte.toNat)
    (small : byte.toNat < 128) (member : byte ∈ utf8 text) : letter ∈ text.toList := by
  obtain ⟨found, inside, encoded⟩ := List.mem_flatMap.mp member
  have equal : found = letter := Char.ext (UInt32.toNat_inj.mp
    ((letter_of_byte encoded small).trans same.symm))
  exact equal ▸ inside

/-- No text continues another one inside a letter. -/
theorem eq_append_of_utf8 (leads : utf8 key = utf8 text ++ more) :
    ∃ rest, key = text ++ rest ∧ more = utf8 rest := by
  have encoded : text.toList.utf8Encode ++ more.toByteArray = key.toList.utf8Encode := by
    unfold List.utf8Encode
    rw [← List.toByteArray_append]
    exact congrArg List.toByteArray leads.symm
  obtain ⟨letters, same⟩ := List.isPrefix_of_utf8Encode_append_eq_utf8Encode _ encoded
  have whole : key = text ++ String.ofList letters := by
    apply String.toList_inj.mp
    rw [String.toList_append, String.toList_ofList, same]
  refine ⟨String.ofList letters, whole, ?_⟩
  rw [whole, utf8_append] at leads
  exact (List.append_cancel_left leads).symm

/-! Texts without special letters. -/

def SelfMatching (text : String) : Prop :=
  '[' ∉ text.toList ∧ '\\' ∉ text.toList

structure Literal (text : String) : Prop where
  star : '*' ∉ text.toList
  any : '?' ∉ text.toList
  plain : SelfMatching text

theorem anySuffix_self {accepted : List UInt8 → Bool} (whole : accepted bytes = true) :
    anySuffix accepted bytes = true := by
  cases bytes with
  | nil => exact whole
  | cons byte rest => simp [anySuffix, whole]

theorem anySuffix_tail {accepted : List UInt8 → Bool} {byte : UInt8}
    (later : anySuffix accepted bytes = true) : anySuffix accepted (byte :: bytes) = true := by
  simp [anySuffix, later]

theorem accepts_star (bytes : List UInt8) : accepts [.star] bytes = true := by
  rw [accepts]
  induction bytes with
  | nil => rfl
  | cons byte rest ih => exact anySuffix_tail ih

theorem parse_literal {byte : UInt8} {rest : List UInt8} (star : byte ≠ 42) (any : byte ≠ 63)
    (bracket : byte ≠ 91) (escape : byte ≠ 92) :
    parse (byte :: rest) = .literal byte :: parse rest := by
  rw [parse]
  · exact star
  · exact any
  · exact fun _ _ same _ => escape same
  · exact fun _ same _ => bracket same
  · exact bracket

theorem accepts_self (bytes more : List UInt8) (bracket : (91 : UInt8) ∉ bytes)
    (escape : (92 : UInt8) ∉ bytes) : accepts (parse (bytes ++ [42])) (bytes ++ more) = true := by
  induction bytes with
  | nil => exact accepts_star more
  | cons byte tail ih =>
      rw [List.mem_cons, not_or] at bracket escape
      have later := ih bracket.2 escape.2
      rw [List.cons_append, List.cons_append]
      by_cases star : byte = 42
      · subst star
        exact anySuffix_tail (anySuffix_self later)
      · by_cases any : byte = 63
        · subst any
          exact later
        · rw [parse_literal star any (Ne.symm bracket.1) (Ne.symm escape.1)]
          simp [accepts, later]

theorem glob_self (plain : SelfMatching text) (rest : String) :
    glob (text ++ "*") (text ++ rest) = true := by
  unfold glob
  rw [utf8_append, utf8_append]
  refine accepts_self _ _ (fun member => plain.1 ?_) fun member => plain.2 ?_
  · exact mem_of_utf8 '[' rfl (by decide) member
  · exact mem_of_utf8 '\\' rfl (by decide) member

theorem glob_star (key : String) : glob "*" key = true := accepts_star (utf8 key)

theorem parse_append (star : (42 : UInt8) ∉ start) (any : (63 : UInt8) ∉ start)
    (bracket : (91 : UInt8) ∉ start) (escape : (92 : UInt8) ∉ start) :
    parse (start ++ more) = start.map .literal ++ parse more := by
  induction start with
  | nil => rfl
  | cons byte tail ih =>
      rw [List.mem_cons, not_or] at star any bracket escape
      rw [List.cons_append, parse_literal (Ne.symm star.1) (Ne.symm any.1) (Ne.symm bracket.1)
        (Ne.symm escape.1), ih star.2 any.2 bracket.2 escape.2]
      rfl

theorem accepts_literals : accepts (start.map .literal ++ tokens) bytes = true ↔
    ∃ more, bytes = start ++ more ∧ accepts tokens more = true := by
  induction start generalizing bytes with
  | nil => simp
  | cons byte tail ih =>
      cases bytes with
      | nil => simp [accepts]
      | cons found later =>
          rw [List.map_cons, List.cons_append, accepts, Bool.and_eq_true, beq_iff_eq, ih]
          constructor
          · rintro ⟨rfl, more, rfl, accepted⟩
            exact ⟨more, rfl, accepted⟩
          · rintro ⟨more, same, accepted⟩
            cases same
            exact ⟨rfl, more, rfl, accepted⟩

theorem glob_literal (literal : Literal text) :
    glob (text ++ pattern) key = true ↔ ∃ rest, key = text ++ rest ∧ glob pattern rest = true := by
  unfold glob
  rw [utf8_append, parse_append (fun member => literal.star ?_) (fun member => literal.any ?_)
    (fun member => literal.plain.1 ?_) (fun member => literal.plain.2 ?_), accepts_literals]
  · constructor
    · rintro ⟨more, leads, accepted⟩
      obtain ⟨rest, same, rfl⟩ := eq_append_of_utf8 leads
      exact ⟨rest, same, accepted⟩
    · rintro ⟨rest, rfl, accepted⟩
      exact ⟨utf8 rest, utf8_append _ _, accepted⟩
  · exact mem_of_utf8 '*' rfl (by decide) member
  · exact mem_of_utf8 '?' rfl (by decide) member
  · exact mem_of_utf8 '[' rfl (by decide) member
  · exact mem_of_utf8 '\\' rfl (by decide) member

end GlobPattern
