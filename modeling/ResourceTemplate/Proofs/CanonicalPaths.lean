import Mathlib
import ResourceTemplate.Proofs.PathText
import ResourceTemplate.Proofs.TmplNames

/-! Whatever a text is read as, the text of that path is read as the same path. Brackets that hold no
number stay in a name as they stand, and what was supplied or dropped in reading is so no longer. -/
namespace ResourceTemplate

theorem Numeral.word?_le {text : List Char} {n : Nat} (read : word? text = some n) : n ≤ maxWord := by
  unfold word? at read
  cases outcome : natural 10 maxWord text with
  | error => simp [outcome, Except.toOption] at read
  | ok found =>
    obtain rfl : found = n := by simpa [outcome, Except.toOption] using read
    exact natural_le outcome

namespace Path

section Parts

variable {text part inner : List Char} {segment : Segment}

theorem undotted_of_mem_splitDots (member : part ∈ splitDots text) : '.' ∉ part := by
  induction text generalizing part with
  | nil =>
    obtain rfl : part = [] := by simpa [splitDots] using member
    exact List.not_mem_nil
  | cons c text ih =>
    by_cases dot : c = '.'
    · rw [dot, splitDots_dot] at member
      rcases List.mem_cons.mp member with rfl | member
      · exact List.not_mem_nil
      · exact ih member
    · rw [splitDots] at member
      cases split : splitDots text with
      | nil =>
        obtain rfl : part = [c] := by simpa [split] using member
        simpa using Ne.symm dot
      | cons first parts =>
        simp only [split, if_neg dot, List.mem_cons] at member
        rw [split] at ih
        rcases member with rfl | member
        · simp [Ne.symm dot, ih (List.mem_cons_self ..)]
        · exact ih (List.mem_cons_of_mem _ member)

/-- A pair of brackets around what is no number opens a part, and is read as a name. -/
theorem opens_bracketed (undotted : '.' ∉ inner) (unclosed : ']' ∉ inner)
    (noIndex : Numeral.word? (Text.trim inner) = none) :
    Opens ('[' :: inner ++ [']']) [.name (String.ofList ('[' :: inner ++ [']']))] := by
  refine ⟨by simp [undotted], fun indices => ?_⟩
  have inside : ∀ c ∈ inner, decide (c ≠ ']') = true := by
    intro c member
    apply decide_eq_true
    rintro rfl
    exact unclosed member
  have closes : ∀ c ∈ (']' :: groups indices).head?, decide (c ≠ ']') = false := by
    simp
  have text : '[' :: inner ++ [']'] ++ groups indices = '[' :: (inner ++ ']' :: groups indices) := by
    simp
  have unnamed : ('[' :: (inner ++ ']' :: groups indices)).takeWhile (· ≠ '[') = [] := by
    simp
  have bracket : ('[' :: (inner ++ ']' :: groups indices)).dropWhile (· ≠ '[') =
      '[' :: (inner ++ ']' :: groups indices) := by
    simp
  rw [text, segments, unnamed, bracket, brackets, takeWhile_span inside closes,
    dropWhile_span inside closes, bracketSegment, noIndex]
  rfl

theorem legible_plainSegment (some : text ≠ []) (undotted : '.' ∉ text) (unopened : '[' ∉ text) :
    Legible (plainSegment text) := by
  unfold plainSegment
  cases number : Numeral.word? text with
  | none =>
    have opens := opens_plain some undotted unopened number
    simpa [Legible] using opens
  | some index => exact Numeral.word?_le number

theorem legible_bracketSegment (undotted : '.' ∉ inner) (unclosed : ']' ∉ inner) :
    Legible (bracketSegment inner) := by
  unfold bracketSegment
  cases number : Numeral.word? (Text.trim inner) with
  | none =>
    have opens := opens_bracketed undotted unclosed number
    simpa [Legible] using opens
  | some index => exact Numeral.word?_le number

/-- The character that ends a stretch does not occur in it. -/
theorem not_mem_takeWhile_ne (c : Char) (text : List Char) : c ∉ text.takeWhile (· ≠ c) := by
  intro member
  have other := List.all_eq_true.mp List.all_takeWhile c member
  simp at other

theorem legible_of_mem_brackets (undotted : '.' ∉ text) (member : segment ∈ brackets text) :
    Legible segment := by
  fun_induction brackets text with
  | case1 text ih =>
    have clean : '.' ∉ text := fun dot => undotted (List.mem_cons_of_mem _ dot)
    rcases List.mem_cons.mp member with rfl | member
    · apply legible_bracketSegment _ (not_mem_takeWhile_ne ']' text)
      exact fun dot => clean ((List.takeWhile_sublist _).subset dot)
    · apply ih _ member
      exact fun dot => clean ((List.dropWhile_sublist _).subset (List.mem_of_mem_drop dot))
  | case2 => nomatch member

theorem legible_of_mem_segments (undotted : '.' ∉ part) (member : segment ∈ segments part) :
    Legible segment := by
  rcases List.mem_append.mp member with name | group
  · by_cases unnamed : (part.takeWhile (· ≠ '[')).isEmpty
    · rw [if_pos unnamed] at name
      nomatch name
    · rw [if_neg unnamed, List.mem_singleton] at name
      subst name
      apply legible_plainSegment _ _ (not_mem_takeWhile_ne '[' part)
      · simpa using unnamed
      · exact fun dot => undotted ((List.takeWhile_sublist _).subset dot)
  · apply legible_of_mem_brackets _ group
    exact fun dot => undotted ((List.dropWhile_sublist _).subset dot)

/-- All that a text is read as can be written and read again. -/
theorem legible_of_mem_parse {text : String} (member : segment ∈ parse text) : Legible segment := by
  obtain ⟨part, among, inside⟩ := List.mem_flatMap.mp member
  exact legible_of_mem_segments (undotted_of_mem_splitDots among) inside

end Parts

/-- The root has no text of its own: what is shown for it is read as a name. -/
theorem parse_display_root : parse (display root) = [.name "<record>"] := by
  have named : Template.IsName "<record>" := Template.isName_iff.mpr rfl
  have legible : ∀ segment ∈ [Segment.name "<record>"], Legible segment := by
    simpa [Legible] using opens_name named
  have shown : display root = display [.name "<record>"] := by decide
  rw [shown, parse_legible (by simp) legible]

/-- A path is read back from its text if it was read from some text, or if its names are ones that
templates allow and its indices are machine words. The root alone is not. -/
theorem parse_display_canonical :
    (∀ text, parse (parse text).display = parse text ↔ parse text ≠ root) ∧
      ∀ path : Path, path.Named → path.Fits → (parse path.display = path ↔ path ≠ root) := by
  have below {path : Path} (legible : ∀ segment ∈ path, Legible segment) :
      parse path.display = path ↔ path ≠ root := by
    refine ⟨?_, fun below => parse_legible below legible⟩
    rintro same rfl
    rw [parse_display_root] at same
    nomatch same
  exact ⟨fun text => below fun segment => legible_of_mem_parse,
    fun path named fits => below (legible_of_named named fits)⟩

/-- Blanks and a sign around a number, text after a bracket, brackets within brackets and one that is
missing. -/
theorem parse_display_canonical_stray :
    parse (parse "rows[ +2 ]x..[y[]1].[3").display = parse "rows[ +2 ]x..[y[]1].[3" ∧
      parse (display [.name "rows", .index 2, .name "left edge"]) =
        [.name "rows", .index 2, .name "left edge"] := by
  constructor
  · have read : parse "rows[ +2 ]x..[y[]1].[3" =
        [.name "rows", .index 2, .name "[y[]", .index 3] := by
      cbv
    apply (parse_display_canonical.1 _).mpr
    rw [read]
    simp [root]
  · have named : Named [.name "rows", .index 2, .name "left edge"] := by
      intro name member
      rcases (by simpa using member : name = "rows" ∨ name = "left edge") with rfl | rfl
      · exact Template.isName_iff.mpr rfl
      · exact Template.isName_iff.mpr rfl
    have fits : Fits [.name "rows", .index 2, .name "left edge"] := by
      intro index member
      obtain rfl : index = 2 := by simpa using member
      decide
    exact (parse_display_canonical.2 _ named fits).mpr (by simp [root])

end Path
end ResourceTemplate
