import ResourceTemplate.Json.Reader
import ResourceTemplate.Proofs.JsonTokens
import ResourceTemplate.Proofs.References

/-! Printed values are read back. Lists are read element by element, each from the text that the
ones before it leave, so that what one element takes up is all there is to know about it. -/
namespace ResourceTemplate.Json

mutual
def depth : Json → Nat
  | array elements => 1 + depths elements
  | object entries => 1 + entryDepths entries
  | _ => 0

def depths : List Json → Nat
  | [] => 0
  | element :: rest => max element.depth (depths rest)

def entryDepths : List (String × Json) → Nat
  | [] => 0
  | (_, value) :: rest => max value.depth (entryDepths rest)
end

mutual
def Integral : Json → Prop
  | integer n => IsWord n
  | real _ => False
  | array elements => AllIntegral elements
  | object entries => EntriesIntegral entries
  | _ => True

def AllIntegral : List Json → Prop
  | [] => True
  | element :: rest => element.Integral ∧ AllIntegral rest

def EntriesIntegral : List (String × Json) → Prop
  | [] => True
  | (_, value) :: rest => value.Integral ∧ EntriesIntegral rest
end

theorem depth_le_depths {json : Json} {elements : List Json} (member : json ∈ elements) :
    json.depth ≤ depths elements := by
  induction elements with
  | nil => nomatch member
  | cons element elements ih =>
    rw [depths]
    rcases List.mem_cons.mp member with rfl | member
    · exact Nat.le_max_left ..
    · exact Nat.le_trans (ih member) (Nat.le_max_right ..)

theorem depth_le_entryDepths {entry : String × Json} {entries : List (String × Json)}
    (member : entry ∈ entries) : entry.2.depth ≤ entryDepths entries := by
  induction entries with
  | nil => nomatch member
  | cons first entries ih =>
    rw [entryDepths]
    rcases List.mem_cons.mp member with rfl | member
    · exact Nat.le_max_left ..
    · exact Nat.le_trans (ih member) (Nat.le_max_right ..)

theorem endsNumber_space {space text : List Char} (blank : Blank space)
    (ends : EndsNumber text) : EndsNumber (space ++ text) := by
  cases space with
  | nil => exact ends
  | cons c space =>
    intro head same
    obtain rfl := Option.some.inj same
    have solid := blank c (List.mem_cons_self ..)
    simp only [isSpace, Bool.or_eq_true, beq_iff_eq] at solid
    rcases solid with ((rfl | rfl) | rfl) | rfl <;> decide

section Lists

variable {ε α : Type} {malformed : ε} {isClosing : Token → Bool}
  {read : (earlier : List α) → Reader ε α} {print : α → List Char} {all : List α}
  {closing : Token} {ending rest : List Char}

def separated (print : α → List Char) : List α → List Char
  | [] => []
  | x :: xs => print x ++ xs.flatMap (',' :: print ·)

def ReadsEach (read : (earlier : List α) → Reader ε α) (print : α → List Char) (all : List α) : Prop :=
  ∀ before x, before ++ [x] <+: all → ∀ rest, EndsNumber rest →
    read before (print x ++ rest) = .ok (x, rest)

theorem elements_separated (reads : ReadsEach read print all) (ends : EndsNumber ending)
    (closes : Token.next? ending = some (closing, rest)) (mark : isClosing closing = true)
    (comma : isClosing .comma = false) {earlier : List α} {x : α} {xs : List α}
    (split : all = earlier ++ x :: xs) :
    elements malformed isClosing read earlier (separated print (x :: xs) ++ ending) =
      .ok (all, rest) := by
  induction xs generalizing earlier x with
  | nil =>
    have first := reads earlier x (by simp [split]) ending ends
    rw [separated, List.flatMap_nil, List.append_nil, elements, first, ok_bind]
    simp only [closes]
    cases closing with
    | comma =>
      rw [comma] at mark
      contradiction
    | _ =>
      simp only [mark, if_true, split]
      rfl
  | cons y ys ih =>
    have follow : separated print (x :: y :: ys) ++ ending =
        print x ++ ',' :: (separated print (y :: ys) ++ ending) := by
      simp [separated]
    -- The comma ends a number, so the first element is read no matter what follows it.
    have first := reads earlier x (by simp [split]) (',' :: (separated print (y :: ys) ++ ending))
      (by simp [EndsNumber])
    have shorter : (separated print (y :: ys) ++ ending).length <
        (print x ++ ',' :: (separated print (y :: ys) ++ ending)).length := by
      simp only [List.length_append, List.length_cons]
      omega
    have next : Token.next? (',' :: (separated print (y :: ys) ++ ending)) =
        some (.comma, separated print (y :: ys) ++ ending) := next?_of_scan? rfl
    rw [follow, elements, first, ok_bind]
    simp only [next, dif_pos shorter]
    exact ih (by simp [split])

/-- A list of any length is read up to its closing mark, if no element starts like that mark. -/
theorem listBody_separated (reads : ReadsEach read print all) (ends : EndsNumber ending)
    (closes : Token.next? ending = some (closing, rest)) (mark : isClosing closing = true)
    (comma : isClosing .comma = false)
    (opens : ∀ text result, read [] text = .ok result →
      ∃ token after, Token.next? text = some (token, after) ∧ isClosing token = false) :
    listBody malformed isClosing read (separated print all ++ ending) = .ok (all, rest) := by
  unfold listBody
  cases all with
  | nil =>
    simp only [separated, List.nil_append, closes, mark, if_true]
    rfl
  | cons x xs =>
    have follow : EndsNumber (xs.flatMap (',' :: print ·) ++ ending) := by
      cases xs with
      | nil => simpa using ends
      | cons => simp [EndsNumber]
    have first := reads [] x (by simp) _ follow
    rw [← List.append_assoc] at first
    obtain ⟨token, after, start, other⟩ := opens _ _ first
    simp only [separated, start, other]
    exact elements_separated reads ends closes mark comma (List.nil_append (x :: xs)).symm

theorem arrayBody_separated (reads : ReadsEach read print all) {space : List Char}
    (blank : Blank space)
    (opens : ∀ text result, read [] text = .ok result →
      ∃ token after, Token.next? text = some (token, after) ∧ token.closesArray = false) :
    listBody malformed Token.closesArray read (separated print all ++ (space ++ ']' :: rest)) =
      .ok (all, rest) := by
  have closes : Token.next? (space ++ ']' :: rest) = some (.closeArray, rest) := next?_space blank _
  have ends : EndsNumber (space ++ ']' :: rest) := endsNumber_space blank (by simp [EndsNumber])
  exact listBody_separated reads ends closes rfl rfl opens

theorem objectBody_separated (reads : ReadsEach read print all) {space : List Char}
    (blank : Blank space)
    (opens : ∀ text result, read [] text = .ok result →
      ∃ token after, Token.next? text = some (token, after) ∧ token.closesObject = false) :
    listBody malformed Token.closesObject read (separated print all ++ (space ++ '\x7d' :: rest)) =
      .ok (all, rest) := by
  have closes : Token.next? (space ++ '\x7d' :: rest) = some (.closeObject, rest) :=
    next?_space blank _
  have ends : EndsNumber (space ++ '\x7d' :: rest) := endsNumber_space blank (by simp [EndsNumber])
  exact listBody_separated reads ends closes rfl rfl opens

end Lists

section Texts

def elementText (level : Nat) (json : Json) : List Char :=
  (newline level).toList ++ (json.indented level).toList

def entryText (level : Nat) (entry : String × Json) : List Char :=
  (newline level).toList ++
    ((printString entry.1).toList ++ ':' :: ' ' :: (entry.2.indented level).toList)

theorem toList_indentedElements (level : Nat) (elements : List Json) :
    (indentedElements level elements).toList = elements.flatMap (',' :: elementText level ·) := by
  induction elements with
  | nil => rfl
  | cons element elements ih => simp [indentedElements, elementText, ih]

theorem toList_indentedEntries (level : Nat) (entries : List (String × Json)) :
    (indentedEntries level entries).toList = entries.flatMap (',' :: entryText level ·) := by
  induction entries with
  | nil => rfl
  | cons entry entries ih =>
    obtain ⟨key, value⟩ := entry
    simp [indentedEntries, entryText, ih]

theorem toList_array (level : Nat) (elements : List Json) :
    ∃ space, Blank space ∧ ((array elements).indented level).toList =
      '[' :: (separated (elementText (level + 1)) elements ++ (space ++ [']'])) := by
  cases elements with
  | nil => exact ⟨[], blank_nil, by simp [indented, separated]⟩
  | cons element elements =>
    refine ⟨(newline level).toList, blank_newline level, ?_⟩
    simp [indented, separated, elementText, toList_indentedElements]

theorem toList_object (level : Nat) (entries : List (String × Json)) :
    ∃ space, Blank space ∧ ((object entries).indented level).toList =
      '\x7b' :: (separated (entryText (level + 1)) entries ++ (space ++ ['\x7d'])) := by
  cases entries with
  | nil => exact ⟨[], blank_nil, by simp [indented, separated]⟩
  | cons entry entries =>
    obtain ⟨key, value⟩ := entry
    refine ⟨(newline level).toList, blank_newline level, ?_⟩
    simp [indented, separated, entryText, toList_indentedEntries]

/-- The text of an array starts with its mark, and its elements follow. -/
theorem next?_array (level : Nat) (elements : List Json) (rest : List Char) :
    ∃ space, Blank space ∧ Token.next? (((array elements).indented level).toList ++ rest) =
      some (.openArray, separated (elementText (level + 1)) elements ++ (space ++ ']' :: rest)) := by
  obtain ⟨space, blank, text⟩ := toList_array level elements
  refine ⟨space, blank, next?_of_scan? ?_⟩
  simp only [text, List.cons_append, List.append_assoc, List.nil_append]
  rfl

theorem next?_object (level : Nat) (entries : List (String × Json)) (rest : List Char) :
    ∃ space, Blank space ∧ Token.next? (((object entries).indented level).toList ++ rest) =
      some (.openObject,
        separated (entryText (level + 1)) entries ++ (space ++ '\x7d' :: rest)) := by
  obtain ⟨space, blank, text⟩ := toList_object level entries
  refine ⟨space, blank, next?_of_scan? ?_⟩
  simp only [text, List.cons_append, List.append_assoc, List.nil_append]
  rfl

end Texts

section Values

variable {ε : Type} {malformed : ε}

theorem readValue_string {text rest : List Char} {s : String} (depth : Nat)
    (next : Token.next? text = some (.string s, rest)) :
    readValue malformed depth text = .ok (.string s, rest) := by
  cases depth <;> simp only [readValue, next] <;> rfl

theorem readValue_literal {text rest : List Char} {value : Json} (depth : Nat)
    (next : Token.next? text = some (.literal value, rest)) :
    readValue malformed depth text = .ok (value, rest) := by
  cases depth <;> simp only [readValue, next] <;> rfl

theorem readValue_space {space : List Char} (blank : Blank space) (depth : Nat)
    (text : List Char) :
    readValue malformed depth (space ++ text) = readValue malformed depth text := by
  cases depth <;> simp only [readValue, next?_space blank]

theorem closesArray_of_startsValue {token : Token} (starts : token.startsValue = true) :
    token.closesArray = false := by
  cases token with
  | closeArray => nomatch starts
  | _ => rfl

/-- A value does not start like the end of a list. -/
theorem readValue_starts {depth : Nat} {text : List Char} {result : Json × List Char}
    (read : readValue malformed depth text = .ok result) :
    ∃ token after, Token.next? text = some (token, after) ∧ token.startsValue = true := by
  cases next : Token.next? text with
  | none => cases depth <;> simp [readValue, next] at read
  | some found =>
    obtain ⟨token, after⟩ := found
    refine ⟨token, after, rfl, ?_⟩
    cases token with
    | openArray | openObject | string | literal => rfl
    | closeArray | closeObject | comma | colon => cases depth <;> simp [readValue, next] at read

/-- The printed value is read, wherever it stands and as deep as it is. -/
def Reads (malformed : ε) (json : Json) : Prop :=
  ∀ depth level rest, json.depth ≤ depth → EndsNumber rest →
    readValue malformed depth ((json.indented level).toList ++ rest) = .ok (json, rest)

theorem reads_array {es : List Json} (each : ∀ json ∈ es, Reads malformed json) :
    Reads malformed (array es) := by
  intro depth level rest deep ends
  rw [Json.depth] at deep
  obtain ⟨depth, rfl⟩ : ∃ inner, depth = inner + 1 := ⟨depth - 1, by omega⟩
  obtain ⟨space, blank, opens⟩ := next?_array level es rest
  have reads : ReadsEach (fun _ => readValue malformed depth) (elementText (level + 1)) es := by
    intro before json among rest ends
    have member : json ∈ es := among.subset (by simp)
    have shallow : json.depth ≤ depth := by
      have := depth_le_depths member
      omega
    rw [elementText, List.append_assoc]
    exact (readValue_space (blank_newline _) depth _).trans (each json member depth _ rest shallow ends)
  have list : listBody malformed Token.closesArray (fun _ => readValue malformed depth)
      (separated (elementText (level + 1)) es ++ (space ++ ']' :: rest)) = .ok (es, rest) := by
    apply arrayBody_separated reads blank
    intro text result read
    obtain ⟨token, after, next, starts⟩ := readValue_starts read
    exact ⟨token, after, next, closesArray_of_startsValue starts⟩
  simp only [readValue, opens, list]
  rfl

theorem readKey_printed {space : List Char} (blank : Blank space) (key : String)
    (rest : List Char) :
    readKey malformed (space ++ ((printString key).toList ++ rest)) = .ok (key, rest) := by
  have next : Token.next? (space ++ ((printString key).toList ++ rest)) = some (.string key, rest) := by
    rw [next?_space blank]
    exact next?_of_scan? (scan?_printString key rest)
  simp only [readKey, next]
  rfl

theorem readColon_printed (rest : List Char) : readColon malformed (':' :: rest) = .ok rest := rfl

/-- A key does not start like the end of an object. -/
theorem readKey_starts {text : List Char} {result : String × List Char}
    (read : readKey malformed text = .ok result) :
    ∃ token after, Token.next? text = some (token, after) ∧ token.closesObject = false := by
  unfold readKey at read
  split at read
  · next key rest next => exact ⟨.string key, rest, next, rfl⟩
  · nomatch read

theorem reads_object {entries : List (String × Json)}
    (each : ∀ entry ∈ entries, Reads malformed entry.2) : Reads malformed (object entries) := by
  intro depth level rest deep ends
  rw [Json.depth] at deep
  obtain ⟨depth, rfl⟩ : ∃ inner, depth = inner + 1 := ⟨depth - 1, by omega⟩
  obtain ⟨space, blank, opens⟩ := next?_object level entries rest
  have reads : ReadsEach (fun _ => readEntry malformed (readValue malformed depth))
      (entryText (level + 1)) entries := by
    intro before entry among rest ends
    have member : entry ∈ entries := among.subset (by simp)
    have shallow : entry.2.depth ≤ depth := by
      have := depth_le_entryDepths member
      omega
    have value := each entry member depth (level + 1) rest shallow ends
    have spaced : readValue malformed depth (' ' :: ((entry.2.indented (level + 1)).toList ++ rest)) =
        .ok (entry.2, rest) := (readValue_space blank_gap depth _).trans value
    simp only [entryText, List.append_assoc, List.cons_append, readEntry]
    rw [readKey_printed (blank_newline _), ok_bind]
    simp only [readColon_printed, ok_bind, spaced]
    rfl
  have list : listBody malformed Token.closesObject
      (fun _ => readEntry malformed (readValue malformed depth))
      (separated (entryText (level + 1)) entries ++ (space ++ '\x7d' :: rest)) = .ok (entries, rest) := by
    apply objectBody_separated reads blank
    intro text result read
    obtain ⟨key, found, _⟩ := bind_eq_ok.mp read
    exact readKey_starts found
  simp only [readValue, opens, list]
  rfl

mutual
theorem reads_printed : (json : Json) → json.Integral → Reads malformed json
  | .null, _ => fun depth _ rest _ _ => readValue_literal depth (next?_of_scan? (scan?_null rest))
  | .bool b, _ => fun depth _ rest _ _ => readValue_literal depth (next?_of_scan? (scan?_bool b rest))
  | .integer _, word => fun depth _ _ _ ends =>
    readValue_literal depth (next?_of_scan? (scan?_number ends word))
  | .real _, impossible => nomatch impossible
  | .string text, _ => fun depth _ rest _ _ =>
    readValue_string depth (next?_of_scan? (scan?_printString text rest))
  | .array elements, integral => reads_array (each_reads elements integral)
  | .object entries, integral => reads_object (entries_read entries integral)

theorem each_reads : (elements : List Json) → AllIntegral elements →
    ∀ json ∈ elements, Reads malformed json
  | [], _ => by simp
  | element :: elements, ⟨first, others⟩ => by
    rw [List.forall_mem_cons]
    exact ⟨reads_printed element first, each_reads elements others⟩

theorem entries_read : (entries : List (String × Json)) → EntriesIntegral entries →
    ∀ entry ∈ entries, Reads malformed entry.2
  | [], _ => by simp
  | (key, value) :: entries, ⟨first, others⟩ => by
    rw [List.forall_mem_cons]
    exact ⟨reads_printed value first, entries_read entries others⟩
end

end Values

end ResourceTemplate.Json
