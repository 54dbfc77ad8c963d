import ResourceTemplate.Path
import ResourceTemplate.Proofs.Decimals
import ResourceTemplate.Proofs.FieldOrder

/-! Paths as they are written. A path of names that templates allow is told from every other such
path by its text, and is read back from it as long as its indices fit a machine word. -/
namespace ResourceTemplate

namespace Numeral

theorem digit?_of_isDigit {c : Char} (digit : c.isDigit = true) :
    digit? 10 c = some (c.toNat - '0'.toNat) := by
  have bounds := Decimal.digit_bounds digit
  have decimal : '0' ≤ c ∧ c ≤ '9' := by
    simpa [Char.le_def, UInt32.le_iff_toNat_le] using bounds
  have zero : '0'.toNat = 48 := rfl
  simp only [digit?, if_pos decimal, zero, Option.filter_some]
  rw [if_pos]
  simp only [decide_eq_true_eq]
  omega

theorem le_ofDigitChars (text : List Char) (value : Nat) : value ≤ Nat.ofDigitChars 10 text value := by
  induction text generalizing value with
  | nil => exact Nat.le_refl value
  | cons c text ih =>
    rw [Nat.ofDigitChars_cons]
    have := ih (10 * value + (c.toNat - '0'.toNat))
    omega

/-- The number only grows from digit to digit, so it passes the limit at the end or not at all. -/
theorem digits_eq_ok {limit value : Nat} {text : List Char} (all : ∀ c ∈ text, c.isDigit = true)
    (fits : Nat.ofDigitChars 10 text value ≤ limit) :
    digits 10 limit value text = .ok (Nat.ofDigitChars 10 text value) := by
  induction text generalizing value with
  | nil => rfl
  | cons c text ih =>
    obtain ⟨digit, others⟩ := List.forall_mem_cons.mp all
    rw [Nat.ofDigitChars_cons] at fits ⊢
    rw [Nat.mul_comm 10 value] at fits ⊢
    have reached := Nat.le_trans (le_ofDigitChars text _) fits
    simp only [digits, digit?_of_isDigit digit, if_neg (Nat.not_lt.mpr reached)]
    exact ih others fits

theorem word?_toDigits {n : Nat} (fits : n ≤ maxWord) : word? (Nat.toDigits 10 n) = some n := by
  have all : ∀ c ∈ Nat.toDigits 10 n, c.isDigit = true := fun _ => Decimal.isDigit_of_mem
  have value : Nat.ofDigitChars 10 (Nat.toDigits 10 n) 0 = n := Nat.ofDigitChars_ten_toDigits
  have read := digits_eq_ok all (value.symm ▸ fits)
  rw [value] at read
  unfold word? natural
  split
  · next empty => exact absurd empty Nat.toDigits_ne_nil
  · next sign =>
    have digit := all '+' (sign ▸ List.mem_singleton_self _)
    nomatch digit
  · next text sign =>
    have digit := all '+' (sign ▸ List.mem_cons_self ..)
    nomatch digit
  · rw [read]
    rfl

end Numeral

namespace Text

theorem isBlank_of_isDigit {c : Char} (digit : c.isDigit = true) : isBlank c = false := by
  have bounds := Decimal.digit_bounds digit
  simp only [isBlank, Bool.or_eq_false_iff, Bool.and_eq_false_iff, decide_eq_false_iff_not,
    beq_eq_false_iff_ne]
  omega

theorem trimStart_eq {text : List Char} (solid : ∀ c ∈ text, isBlank c = false) :
    trimStart text = text := by
  cases text with
  | nil => rfl
  | cons c text => simp [trimStart, solid c (List.mem_cons_self ..)]

theorem trim_eq {text : List Char} (solid : ∀ c ∈ text, isBlank c = false) : trim text = text := by
  have reversed : ∀ c ∈ text.reverse, isBlank c = false := fun c member =>
    solid c (List.mem_reverse.mp member)
  rw [trim, trimStart_eq solid, trimEnd, trimStart_eq reversed, List.reverse_reverse]

end Text

namespace Path

/-- All names of the path are ones that templates allow. -/
def Named (path : Path) : Prop := ∀ name, .name name ∈ path → Template.IsName name

/-- Indices are machine words, as the positions of all items in memory are. -/
def Fits (path : Path) : Prop := ∀ index, .index index ∈ path → index ≤ Numeral.maxWord

theorem Named.tail {segment : Segment} {path : Path} (named : Named (segment :: path)) :
    path.Named := fun name member => named name (List.mem_cons_of_mem _ member)

section Dots

variable {part text : List Char}

theorem splitDots_dot (text : List Char) : splitDots ('.' :: text) = [] :: splitDots text := by
  have parts : splitDots text ≠ [] := by
    cases text with
    | nil => simp [splitDots]
    | cons c text =>
      rw [splitDots]
      split
      · simp
      · split <;> simp
  obtain ⟨part, parts, split⟩ := List.exists_cons_of_ne_nil parts
  simp [splitDots, split]

theorem splitDots_append (undotted : '.' ∉ part) :
    splitDots (part ++ '.' :: text) = part :: splitDots text := by
  induction part with
  | nil => exact splitDots_dot text
  | cons c part ih =>
    rw [List.mem_cons, not_or] at undotted
    obtain ⟨other, undotted⟩ := undotted
    simp [splitDots, ih undotted, Ne.symm other]

theorem splitDots_undotted (undotted : '.' ∉ part) : splitDots part = [part] := by
  induction part with
  | nil => rfl
  | cons c part ih =>
    rw [List.mem_cons, not_or] at undotted
    obtain ⟨other, undotted⟩ := undotted
    simp [splitDots, ih undotted, Ne.symm other]

end Dots

section Groups

def groups (indices : List Nat) : List Char :=
  indices.flatMap fun index => '[' :: (Nat.toDigits 10 index ++ [']'])

variable {indices : List Nat} {path : Path}

theorem brackets_groups (fits : ∀ index ∈ indices, index ≤ Numeral.maxWord) :
    brackets (groups indices) = indices.map .index := by
  induction indices with
  | nil => simp [groups, brackets]
  | cons index indices ih =>
    obtain ⟨first, others⟩ := List.forall_mem_cons.mp fits
    have inside : ∀ c ∈ Nat.toDigits 10 index, decide (c ≠ ']') = true := by
      intro c member
      apply decide_eq_true
      rintro rfl
      exact Decimal.not_mem_toDigits rfl member
    have solid : ∀ c ∈ Nat.toDigits 10 index, Text.isBlank c = false := fun c member =>
      Text.isBlank_of_isDigit (Decimal.isDigit_of_mem member)
    have text : groups (index :: indices) =
        '[' :: (Nat.toDigits 10 index ++ ']' :: groups indices) := by
      simp [groups]
    have closes : ∀ c ∈ (']' :: groups indices).head?, decide (c ≠ ']') = false := by
      simp
    rw [text, brackets, takeWhile_span inside closes, dropWhile_span inside closes, bracketSegment,
      Text.trim_eq solid, Numeral.word?_toDigits first]
    exact congrArg _ (ih others)

theorem groups_undotted (indices : List Nat) : '.' ∉ groups indices := by
  intro dot
  obtain ⟨index, _, inside⟩ := List.mem_flatMap.mp dot
  simp only [List.mem_cons, List.mem_append, List.not_mem_nil, or_false] at inside
  rcases inside with bracket | digit | bracket
  · contradiction
  · exact Decimal.not_mem_toDigits rfl digit
  · contradiction

theorem head?_groups (indices : List Nat) : ∀ c ∈ (groups indices).head?, c = '[' := by
  cases indices with
  | nil => nofun
  | cons index indices =>
    rintro _ ⟨⟩
    rfl

/-- A text that may stand in front of bracket groups, and what it is read as there. -/
structure Opens (text : List Char) (first : Path) : Prop where
  undotted : '.' ∉ text
  read : ∀ indices, segments (text ++ groups indices) = first ++ brackets (groups indices)

theorem segments_groups {text : List Char} (unopened : '[' ∉ text) (indices : List Nat) :
    segments (text ++ groups indices) =
      (if text.isEmpty then [] else [plainSegment text]) ++ brackets (groups indices) := by
  have all : ∀ c ∈ text, decide (c ≠ '[') = true := by
    intro c member
    apply decide_eq_true
    rintro rfl
    exact unopened member
  have stops : ∀ c ∈ (groups indices).head?, decide (c ≠ '[') = false := by
    intro c first
    simpa using head?_groups indices c first
  have before := takeWhile_span all stops
  have after := dropWhile_span all stops
  simp only [segments]
  rw [before, after]

theorem opens_nothing : Opens [] [] :=
  ⟨List.not_mem_nil, fun indices => segments_groups List.not_mem_nil indices⟩

theorem opens_plain {text : List Char} (some : text ≠ []) (undotted : '.' ∉ text)
    (unopened : '[' ∉ text) (noIndex : Numeral.word? text = none) :
    Opens text [.name (String.ofList text)] := by
  refine ⟨undotted, fun indices => ?_⟩
  have nonempty : text.isEmpty = false := by simpa using some
  rw [segments_groups unopened, nonempty, plainSegment, noIndex]
  rfl

theorem opens_name {name : String} (named : Template.IsName name) :
    Opens name.toList [.name name] := by
  have plain {c : Char} (kept : c ∈ Template.reserved) : c ∉ name.toList := fun member =>
    named.unreserved c member kept
  have opens := opens_plain (by simpa using named.nonempty) (plain (by decide)) (plain (by decide))
    named.noIndex
  rwa [String.ofList_toList] at opens

def Legible : Segment → Prop
  | .name name => Opens name.toList [.name name]
  | .index index => index ≤ Numeral.maxWord

theorem legible_of_named (named : path.Named) (fits : path.Fits) :
    ∀ segment ∈ path, Legible segment := by
  intro segment member
  cases segment with
  | name name => exact opens_name (named name member)
  | index index => exact fits index member

theorem toList_displayRest_name (name : String) (path : Path) :
    (displayRest (.name name :: path)).toList = '.' :: (name.toList ++ (displayRest path).toList) := by
  simp [displayRest]

theorem toList_displayRest_index (index : Nat) (path : Path) :
    (displayRest (.index index :: path)).toList =
      '[' :: (Nat.toDigits 10 index ++ ']' :: (displayRest path).toList) := by
  simp [displayRest]

/-- Indices are taken into the groups of the part before them, and a name opens a part. -/
theorem parse_rest {text : List Char} {first : Path} (opens : Opens text first)
    (counted : ∀ index ∈ indices, index ≤ Numeral.maxWord)
    (legible : ∀ segment ∈ path, Legible segment) :
    (splitDots (text ++ groups indices ++ (displayRest path).toList)).flatMap segments =
      first ++ indices.map .index ++ path := by
  have undotted : ∀ indices, '.' ∉ text ++ groups indices := by
    intro indices dot
    rcases List.mem_append.mp dot with dot | dot
    · exact opens.undotted dot
    · exact groups_undotted indices dot
  induction path generalizing text first indices with
  | nil =>
    have nothing : (displayRest []).toList = [] := rfl
    rw [nothing, List.append_nil, splitDots_undotted (undotted indices), List.flatMap_singleton,
      opens.read, brackets_groups counted, List.append_nil]
  | cons segment path ih =>
    obtain ⟨here, below⟩ := List.forall_mem_cons.mp legible
    cases segment with
    | name name =>
      have opened : Opens name.toList [.name name] := here
      have none : ∀ index ∈ ([] : List Nat), index ≤ Numeral.maxWord := nofun
      have follow := ih opened none below
        fun _ dot => (List.mem_append.mp dot).elim opened.undotted (groups_undotted _)
      have nothing : groups [] = [] := rfl
      rw [nothing, List.append_nil] at follow
      rw [toList_displayRest_name, splitDots_append (undotted indices), List.flatMap_cons, opens.read,
        brackets_groups counted, follow]
      simp
    | index index =>
      have more : groups (indices ++ [index]) =
          groups indices ++ '[' :: (Nat.toDigits 10 index ++ [']']) := by
        simp [groups]
      have counted : ∀ other ∈ indices ++ [index], other ≤ Numeral.maxWord := by
        rw [List.forall_mem_append, List.forall_mem_singleton]
        exact ⟨counted, here⟩
      have follow := ih opens counted below undotted
      rw [more] at follow
      rw [toList_displayRest_index]
      simpa using follow

theorem parse_legible (below : path ≠ []) (legible : ∀ segment ∈ path, Legible segment) :
    parse path.display = path := by
  obtain ⟨segment, path, rfl⟩ := List.exists_cons_of_ne_nil below
  obtain ⟨here, others⟩ := List.forall_mem_cons.mp legible
  cases segment with
  | name name =>
    have none : ∀ index ∈ ([] : List Nat), index ≤ Numeral.maxWord := nofun
    have read := parse_rest here none others
    simpa [parse, display, groups] using read
  | index index =>
    have first : ∀ other ∈ [index], other ≤ Numeral.maxWord := by
      simpa [Legible] using here
    have read := parse_rest opens_nothing first others
    simpa [parse, display, groups, Decimal.toList_toString] using read

theorem parse_display (below : path ≠ []) (named : path.Named) (fits : path.Fits) :
    parse path.display = path :=
  parse_legible below (legible_of_named named fits)

end Groups

section Distinct

variable {path other : Path}

/-- After a name comes a character that no name has, or nothing. -/
theorem head?_displayRest (path : Path) :
    ∀ c ∈ (displayRest path).toList.head?, (!Template.reserved.contains c) = false := by
  cases path with
  | nil => nofun
  | cons segment path =>
    cases segment with
    | name name =>
      rw [toList_displayRest_name]
      rintro _ ⟨⟩
      decide
    | index index =>
      rw [toList_displayRest_index]
      rintro _ ⟨⟩
      decide

theorem displayRest_inj (named : path.Named) (others : other.Named)
    (same : (displayRest path).toList = (displayRest other).toList) : path = other := by
  induction path generalizing other with
  | nil =>
    rcases other with _ | ⟨_ | _, other⟩
    · rfl
    · simp [displayRest] at same
    · simp [displayRest] at same
  | cons segment path ih =>
    cases other with
    | nil => cases segment <;> simp [displayRest] at same
    | cons next other =>
      cases segment with
      | name name =>
        rw [toList_displayRest_name] at same
        cases next with
        | index => simp [toList_displayRest_index] at same
        | name second =>
          have clean {name : String} (named : Template.IsName name) :
              ∀ c ∈ name.toList, (!Template.reserved.contains c) = true := by
            intro c member
            simpa using named.unreserved c member
          rw [toList_displayRest_name] at same
          obtain ⟨text, rest⟩ := span_inj (clean (named name (List.mem_cons_self ..)))
            (head?_displayRest path) (clean (others second (List.mem_cons_self ..)))
            (head?_displayRest other) (List.cons.inj same).2
          rw [String.toList_injective text, ih named.tail others.tail rest]
      | index index =>
        rw [toList_displayRest_index] at same
        cases next with
        | name => simp [toList_displayRest_name] at same
        | index second =>
          have ends (text : List Char) : ∀ c ∈ (']' :: text).head?, c.isDigit = false := by
            rintro _ ⟨⟩
            rfl
          rw [toList_displayRest_index] at same
          obtain ⟨digits, rest⟩ := span_inj (fun _ => Decimal.isDigit_of_mem) (ends _)
            (fun _ => Decimal.isDigit_of_mem) (ends _) (List.cons.inj same).2
          rw [← Decimal.toList_toString, ← Decimal.toList_toString] at digits
          rw [Decimal.toString_inj.mp (String.toList_injective digits),
            ih named.tail others.tail (List.cons.inj rest).2]

/-- A name in front is what the path's text begins with, and it begins with no bracket. -/
theorem head?_display_name {name : String} (named : Template.IsName name) (path : Path) :
    ('[' : Char) ∉ (display (.name name :: path)).toList.head? := by
  intro bracket
  cases text : name.toList with
  | nil => exact named.nonempty (String.toList_injective text)
  | cons c rest =>
    obtain rfl : c = '[' := by simpa [display, text] using bracket
    exact named.unreserved '[' (text ▸ List.mem_cons_self ..) (by decide)

theorem display_inj (below : path ≠ []) (named : path.Named) (inside : other ≠ [])
    (others : other.Named) (same : path.display = other.display) : path = other := by
  obtain ⟨segment, path, rfl⟩ := List.exists_cons_of_ne_nil below
  obtain ⟨next, other, rfl⟩ := List.exists_cons_of_ne_nil inside
  cases segment with
  | name name =>
    cases next with
    | name second =>
      apply displayRest_inj named others
      have text := congrArg String.toList same
      simp only [display, String.toList_append] at text
      rw [toList_displayRest_name, toList_displayRest_name, text]
    | index =>
      have first := head?_display_name (named name (List.mem_cons_self ..)) path
      rw [same] at first
      simp [display] at first
  | index =>
    cases next with
    | name second =>
      have first := head?_display_name (others second (List.mem_cons_self ..)) other
      rw [← same] at first
      simp [display] at first
    | index => exact displayRest_inj named others (congrArg String.toList same)

end Distinct
end Path
end ResourceTemplate
