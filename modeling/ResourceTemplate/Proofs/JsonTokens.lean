import ResourceTemplate.Json.Printer
import ResourceTemplate.Json.Token
import ResourceTemplate.Proofs.Decimals

/-! Printed strings and numbers are read back, whatever characters a string has and whichever
number of 64 bits it is. A number ends where text follows that could not go on with it. -/
namespace ResourceTemplate.Json

section Strings

theorem hexDigits_control : ∀ n < 0x20,
    ['0', '0', hexDigit (n / 16), hexDigit n].mapM (Numeral.digit? 16) = some [0, 0, n / 16, n % 16] := by
  decide

/-- A control character is escaped by its number. -/
theorem unescape?_control {c : Char} (control : c.toNat < 0x20) (rest : List Char) :
    unescape? ('u' :: '0' :: '0' :: hexDigit (c.toNat / 16) :: hexDigit c.toNat :: rest) =
      some (c, rest) := by
  have number : 16 * (c.toNat / 16) + c.toNat % 16 = c.toNat := by omega
  have unit : hex4? ('0' :: '0' :: hexDigit (c.toNat / 16) :: hexDigit c.toNat :: rest) =
      some (c.toNat, rest) := by
    simp [hex4?, hexDigits_control c.toNat control, number]
  have low : ¬ (0xDC00 ≤ c.toNat ∧ c.toNat ≤ 0xDFFF) := by omega
  have high : ¬ (0xD800 ≤ c.toNat ∧ c.toNat ≤ 0xDBFF) := by omega
  simp [unescape?, unicodeEscape?, unit, low, high]

theorem stringBody?_escaped {c : Char} {escaped rest : List Char}
    (found : unescape? escaped = some (c, rest)) (shorter : rest.length ≤ escaped.length) :
    stringBody? ('\\' :: escaped) = (stringBody? rest).map fun (body, rest) => (c :: body, rest) := by
  rw [stringBody?]
  simp [found, shorter]

/-- Every character is read as itself. -/
theorem stringBody?_escape (c : Char) (rest : List Char) :
    stringBody? (escape c ++ rest) = (stringBody? rest).map fun (body, rest) => (c :: body, rest) := by
  unfold escape
  split
  any_goals exact stringBody?_escaped rfl (Nat.le_succ _)
  next quote slash _ _ _ _ _ =>
    by_cases control : c.toNat < 0x20
    · rw [if_pos control]
      exact stringBody?_escaped (unescape?_control control rest) (by simp; omega)
    · rw [if_neg control, List.cons_append, List.nil_append, stringBody?]
      · rw [if_neg control]
      · exact quote
      · exact slash

theorem stringBody?_printed (text rest : List Char) :
    stringBody? (text.flatMap escape ++ '"' :: rest) = some (text, rest) := by
  induction text with
  | nil => simp [stringBody?]
  | cons c text ih =>
    rw [List.flatMap_cons, List.append_assoc, stringBody?_escape, ih]
    rfl

theorem scan?_printString (text : String) (rest : List Char) :
    Token.scan? ((printString text).toList ++ rest) = some (.string text, rest) := by
  rw [printString, String.toList_ofList, List.append_assoc, List.cons_append]
  simp [Token.scan?, stringBody?_printed]

end Strings

section Words

theorem word?_self (word : String) (rest : List Char) :
    word? word (word.toList ++ rest) = some rest := by
  have start : word.toList.isPrefixOf (word.toList ++ rest) = true := by simp
  rw [word?, if_pos start, ← String.length_toList, List.drop_left]

theorem scan?_null (rest : List Char) :
    Token.scan? ("null".toList ++ rest) = some (.literal .null, rest) := by
  have read := word?_self "null" rest
  simp only [String.reduceToList, List.cons_append, List.nil_append] at read
  simp [Token.scan?, read]

theorem scan?_bool (b : Bool) (rest : List Char) :
    Token.scan? ((toString b).toList ++ rest) = some (.literal (.bool b), rest) := by
  cases b with
  | false =>
    have read := word?_self "false" rest
    simp only [String.reduceToList, List.cons_append, List.nil_append] at read
    simp [toString, Token.scan?, read]
  | true =>
    have read := word?_self "true" rest
    simp only [String.reduceToList, List.cons_append, List.nil_append] at read
    simp [toString, Token.scan?, read]

end Words

/-- The text does not go on with a number that ends before it. -/
def EndsNumber (rest : List Char) : Prop :=
  ∀ c ∈ rest.head?, c.isDigit = false ∧ c ∉ ['.', 'e', 'E']

section Numbers

variable {rest : List Char}

theorem digits_span (ends : EndsNumber rest) (n : Nat) :
    (Nat.toDigits 10 n ++ rest).takeWhile Char.isDigit = Nat.toDigits 10 n ∧
      (Nat.toDigits 10 n ++ rest).dropWhile Char.isDigit = rest := by
  have digits : ∀ c ∈ Nat.toDigits 10 n, c.isDigit = true := fun c => Decimal.isDigit_of_mem
  have stops : ∀ c ∈ rest.head?, c.isDigit = false := fun c first => (ends c first).1
  exact ⟨takeWhile_span digits stops, dropWhile_span digits stops⟩

theorem whole?_digits (ends : EndsNumber rest) (n : Nat) :
    whole? (Nat.toDigits 10 n ++ rest) = some (Nat.toDigits 10 n, rest) := by
  rcases Nat.eq_zero_or_pos n with rfl | positive
  · cases rest with
    | nil => rfl
    | cons c rest =>
      have other := (ends c rfl).1
      simp [whole?, other]
  · obtain ⟨taken, left⟩ := digits_span ends n
    obtain ⟨c, others, digits, nonzero⟩ := Decimal.head_toDigits positive
    rw [digits] at taken left ⊢
    rw [List.cons_append, whole?]
    · simp only [← List.cons_append]
      rw [taken, left]
      simp
    · intro rest same
      exact nonzero (List.cons.inj same).1

theorem fraction?_none (ends : EndsNumber rest) : fraction? rest = some ([], rest) := by
  cases rest with
  | nil => rfl
  | cons c rest =>
    have point : c ≠ '.' := by
      rintro rfl
      exact (ends '.' rfl).2 (by decide)
    simp [fraction?, point]

theorem exponent?_none (ends : EndsNumber rest) : exponent? rest = some ((false, 0), rest) := by
  cases rest with
  | nil => rfl
  | cons c rest =>
    have mark : ¬ (c = 'e' ∨ c = 'E') := by
      rintro (rfl | rfl)
      · exact (ends 'e' rfl).2 (by decide)
      · exact (ends 'E' rfl).2 (by decide)
    simp only [exponent?, if_neg mark]

theorem numberText?_digits (ends : EndsNumber rest) (n : Nat) :
    numberText? (Nat.toDigits 10 n ++ rest) =
      some (⟨false, Nat.toDigits 10 n, [], 0, true⟩, rest) := by
  obtain ⟨c, others, digits⟩ := List.exists_cons_of_ne_nil (Nat.toDigits_ne_nil (n := n) (b := 10))
  have unsigned : c ≠ '-' := by
    rintro rfl
    have digit : '-'.isDigit = true := Decimal.isDigit_of_mem (n := n) (by simp [digits])
    nomatch digit
  have whole := whole?_digits ends n
  rw [digits, List.cons_append] at whole ⊢
  simp [numberText?, unsigned, whole, fraction?_none ends, exponent?_none ends]

theorem numberText?_minus (ends : EndsNumber rest) (n : Nat) :
    numberText? ('-' :: (Nat.toDigits 10 n ++ rest)) =
      some (⟨true, Nat.toDigits 10 n, [], 0, true⟩, rest) := by
  simp [numberText?, whole?_digits ends, fraction?_none ends, exponent?_none ends]

def IsWord (n : Int) : Prop := Numeral.minSigned ≤ n ∧ n ≤ Numeral.maxWord

theorem integer?_natural {n : Nat} (small : n ≤ Numeral.maxWord) :
    NumberText.integer? ⟨false, Nat.toDigits 10 n, [], 0, true⟩ = some (n : Int) := by
  simp only [NumberText.integer?, Decimal.natOfDigits_toDigits]
  rw [if_neg (by decide), if_neg (by decide), if_pos small]

theorem integer?_negative {n : Nat} (positive : 0 < n) (small : n ≤ Numeral.maxSigned + 1) :
    NumberText.integer? ⟨true, Nat.toDigits 10 n, [], 0, true⟩ = some (-(n : Int)) := by
  simp only [NumberText.integer?, Decimal.natOfDigits_toDigits]
  rw [if_neg (by decide), if_pos trivial, if_neg (by omega)]

theorem number?_printed (ends : EndsNumber rest) {n : Int} (word : IsWord n) :
    number? ((toString n).toList ++ rest) = some (.integer n, rest) := by
  obtain ⟨low, high⟩ := word
  cases n with
  | ofNat m =>
    have text : (toString (Int.ofNat m)).toList = Nat.toDigits 10 m := Decimal.toList_toString m
    have value := integer?_natural (Int.ofNat_le.mp high)
    rw [text, number?, numberText?_digits ends]
    simp only [Option.bind_eq_bind, Option.bind_some, value]
    rfl
  | negSucc m =>
    have small : m + 1 ≤ Numeral.maxSigned + 1 := by
      simp only [Numeral.minSigned, Numeral.maxSigned] at low ⊢
      omega
    have value := integer?_negative (Nat.succ_pos m) small
    rw [Decimal.toList_toString_negSucc, List.cons_append, number?, numberText?_minus ends]
    simp only [Option.bind_eq_bind, Option.bind_some, value]
    rfl

theorem head_toString (n : Int) :
    ∃ c others, (toString n).toList = c :: others ∧ (c = '-' ∨ c.isDigit) := by
  cases n with
  | ofNat m =>
    obtain ⟨c, others, digits⟩ := List.exists_cons_of_ne_nil (Nat.toDigits_ne_nil (n := m) (b := 10))
    exact ⟨c, others, (Decimal.toList_toString m).trans digits,
      .inr (Decimal.isDigit_of_mem (n := m) (by simp [digits]))⟩
  | negSucc m => exact ⟨'-', _, String.toList_append .., .inl rfl⟩

theorem scan?_of_head {c : Char} (starts : c = '-' ∨ c.isDigit) (text : List Char) :
    Token.scan? (c :: text) = (number? (c :: text)).map fun (value, rest) => (.literal value, rest) := by
  unfold Token.scan?
  dsimp only
  split
  all_goals first | exact absurd starts (by decide) | exact if_pos starts

theorem scan?_number (ends : EndsNumber rest) {n : Int} (word : IsWord n) :
    Token.scan? ((toString n).toList ++ rest) = some (.literal (.integer n), rest) := by
  have read := number?_printed ends word
  obtain ⟨c, others, text, starts⟩ := head_toString n
  rw [text, List.cons_append] at read ⊢
  rw [scan?_of_head starts, read]
  rfl

end Numbers

def Blank (space : List Char) : Prop := ∀ c ∈ space, isSpace c = true

section Spaces

theorem next?_space {space : List Char} (blank : Blank space) (text : List Char) :
    Token.next? (space ++ text) = Token.next? text := by
  unfold Token.next? skipSpace
  rw [List.dropWhile_append_of_pos blank]

/-- No token starts with white space. -/
theorem next?_of_scan? {text rest : List Char} {token : Token}
    (scanned : Token.scan? text = some (token, rest)) : Token.next? text = some (token, rest) := by
  cases text with
  | nil => nomatch scanned
  | cons c text =>
    have solid : isSpace c = false := by
      rw [Bool.eq_false_iff]
      intro space
      simp only [isSpace, Bool.or_eq_true, beq_iff_eq] at space
      rcases space with ((rfl | rfl) | rfl) | rfl <;> simp [Token.scan?] at scanned
    rw [Token.next?, skipSpace, List.dropWhile_cons_of_neg (by simp [solid]), scanned]

theorem blank_nil : Blank [] := nofun

theorem blank_gap : Blank [' '] := by simp [Blank, isSpace]

theorem blank_newline (depth : Nat) : Blank (newline depth).toList := by
  rw [newline, String.toList_ofList, Blank, List.forall_mem_cons]
  refine ⟨rfl, fun c member => ?_⟩
  rw [(List.mem_replicate.mp member).2]
  rfl

end Spaces

end ResourceTemplate.Json
