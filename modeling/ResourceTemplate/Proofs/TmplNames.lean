import ResourceTemplate.Proofs.Decimals
import ResourceTemplate.Proofs.FieldOrder
import ResourceTemplate.Tmpl.Load

/-! The names that labels lead to. A name made of a label is one that templates allow, and its
number is the first that no earlier field of the list has taken. -/
namespace ResourceTemplate

namespace Numeral

theorem digits_of_ok {radix limit value n : Nat} {text : List Char}
    (read : digits radix limit value text = .ok n) : ∀ c ∈ text, (digit? radix c).isSome := by
  induction text generalizing value with
  | nil => simp
  | cons c text ih =>
    simp only [digits] at read
    cases digit : digit? radix c with
    | none => simp [digit] at read
    | some d =>
      simp only [digit] at read
      by_cases large : limit < value * radix + d
      · rw [if_pos large] at read
        nomatch read
      · rw [if_neg large] at read
        exact List.forall_mem_cons.mpr ⟨by simp [digit], ih read⟩

theorem digits_le {radix limit value n : Nat} {text : List Char}
    (read : digits radix limit value text = .ok n) (small : value ≤ limit) : n ≤ limit := by
  induction text generalizing value with
  | nil =>
    obtain rfl := Except.ok.inj read
    exact small
  | cons c text ih =>
    simp only [digits] at read
    split at read
    · nomatch read
    · split at read
      · nomatch read
      · next fits => exact ih read (Nat.le_of_not_lt fits)

theorem natural_le {radix limit n : Nat} {text : List Char}
    (read : natural radix limit text = .ok n) : n ≤ limit := by
  unfold natural at read
  split at read
  · nomatch read
  · nomatch read
  · exact digits_le read (Nat.zero_le _)
  · exact digits_le read (Nat.zero_le _)

theorem signed?_bounds {radix : Nat} {text : List Char} {n : Int}
    (read : signed? radix text = some n) : minSigned ≤ n ∧ n ≤ maxSigned := by
  unfold signed? at read
  split at read
  · nomatch read
  · next text _ =>
    obtain ⟨m, held, rfl⟩ := Option.map_eq_some_iff.mp read
    cases outcome : digits radix (maxSigned + 1) 0 text with
    | error => simp [outcome, Except.toOption] at held
    | ok found =>
      obtain rfl : found = m := by simpa [outcome, Except.toOption] using held
      have := digits_le outcome (Nat.zero_le _)
      simp only [minSigned, maxSigned] at *
      omega
  · obtain ⟨m, held, rfl⟩ := Option.map_eq_some_iff.mp read
    cases outcome : natural radix maxSigned text with
    | error => simp [outcome, Except.toOption] at held
    | ok found =>
      obtain rfl : found = m := by simpa [outcome, Except.toOption] using held
      have := natural_le outcome
      simp only [minSigned, maxSigned, Int.ofNat_eq_natCast] at *
      omega

/-- An index is written with digits, and with a plus sign at most. -/
theorem chars_of_word? {text : List Char} (read : (word? text).isSome) :
    ∀ c ∈ text, c = '+' ∨ (digit? 10 c).isSome := by
  unfold word? at read
  cases outcome : natural 10 maxWord text with
  | error => simp [outcome, Except.toOption] at read
  | ok n =>
    unfold natural at outcome
    split at outcome
    · nomatch outcome
    · nomatch outcome
    · intro c member
      rcases List.mem_cons.mp member with rfl | member
      · exact .inl rfl
      · exact .inr (digits_of_ok outcome c member)
    · exact fun c member => .inr (digits_of_ok outcome c member)

end Numeral

namespace Tmpl

theorem checkName_baseName (label : String) : Template.checkName (baseName label) = .ok () := by
  rw [Template.checkName_eq_ok]
  unfold baseName
  extract_lets cleaned
  have clean : ∀ c ∈ cleaned, c ∉ Template.reserved := by
    intro c member
    obtain ⟨given, _, rfl⟩ := List.mem_map.mp member
    split
    · decide
    · next kept => simpa using kept
  by_cases empty : cleaned.isEmpty = true
  · rw [if_pos empty]
    have plain : "untitled".toList.all (!Template.reserved.contains ·) = true := by decide
    refine ⟨by decide, fun c member => ?_, by decide +kernel⟩
    simpa using List.all_eq_true.mp plain c member
  rw [if_neg empty]
  by_cases index : (Numeral.word? cleaned).isSome = true
  · rw [if_pos index]
    refine ⟨by simp, ?_, ?_⟩
    · rw [String.toList_ofList, List.forall_mem_cons]
      exact ⟨by decide, clean⟩
    · rw [String.toList_ofList, Bool.eq_false_iff]
      intro read
      have first := Numeral.chars_of_word? read '_' (List.mem_cons_self ..)
      revert first
      decide
  · rw [if_neg index, String.toList_ofList]
    exact ⟨by simpa using empty, clean, by simpa using index⟩

theorem candidates_nodup (base : String) (taken : Nat) : (candidates base taken).Nodup := by
  rw [candidates, List.nodup_cons]
  constructor
  · intro member
    obtain ⟨n, _, same⟩ := List.mem_map.mp member
    have length := congrArg String.length same
    simp only [String.length_append] at length
    have : " ".length = 1 := rfl
    omega
  · rw [List.nodup_iff_pairwise_ne, List.pairwise_map]
    refine List.nodup_range.imp fun {m n} apart same => apart ?_
    have later := Decimal.toString_inj.mp ((String.append_right_inj _).mp same)
    omega

theorem candidates_more (base : String) (taken more : Nat) :
    ∃ others, candidates base (taken + more) = candidates base taken ++ others := by
  rw [candidates, List.range_add, List.map_append, ← List.cons_append]
  exact ⟨_, rfl⟩

/-- Among more candidates than there are names, one is free. -/
theorem candidate_free (base : String) (names : List String) :
    ∃ name, (candidates base names.length).find? (!names.contains ·) = some name := by
  rw [← Option.isSome_iff_exists, Option.isSome_iff_ne_none]
  intro none
  have covered : candidates base names.length ⊆ names := by
    intro name member
    simpa using List.find?_eq_none.mp none name member
  have length := (candidates_nodup base names.length).length_le_of_subset covered
  simp only [candidates, List.length_cons, List.length_map, List.length_range] at length
  omega

theorem fieldName_found (fields : List Field) (label : String) :
    (candidates (baseName label) fields.length).find? (!(fields.map Field.name).contains ·) =
      some (fieldName fields label) := by
  obtain ⟨name, found⟩ := candidate_free (baseName label) (fields.map Field.name)
  rw [List.length_map] at found
  rw [fieldName, found, Option.getD_some]

/-- A name that the fields before have not taken is chosen no matter what they are. -/
theorem fieldName_append {before fields : List Field} {label : String}
    (fresh : fieldName fields label ∉ before.map Field.name) :
    fieldName (before ++ fields) label = fieldName fields label := by
  obtain ⟨free, passed, others, split, taken⟩ :=
    List.find?_eq_some_iff_append.mp (fieldName_found fields label)
  obtain ⟨more, longer⟩ := candidates_more (baseName label) fields.length before.length
  have found : (candidates (baseName label) (before ++ fields).length).find?
      (!((before ++ fields).map Field.name).contains ·) = some (fieldName fields label) := by
    -- More fields give more candidates, all of them behind the one that was chosen.
    rw [List.length_append, Nat.add_comm, longer, split, List.find?_eq_some_iff_append]
    refine ⟨?_, passed, others ++ more, by simp, fun name member => ?_⟩
    · simp_all
    · have := taken name member
      simp_all
  exact Option.some.inj ((fieldName_found (before ++ fields) label).symm.trans found)

theorem fieldName_nil (label : String) : fieldName [] label = baseName label := by
  simp [fieldName, candidates]

theorem fieldName_singleton (field : Field) (label : String) :
    fieldName [field] label =
      if baseName label = field.name then baseName label ++ " 2" else baseName label := by
  by_cases taken : baseName label = field.name
  · have second : candidates field.name 1 = [field.name, field.name ++ " 2"] := by
      have numbered : field.name ++ " " ++ toString (0 + 2) = field.name ++ " 2" := by
        rw [String.append_assoc]
        rfl
      rw [← numbered]
      rfl
    simp [fieldName, taken, second]
  · simp [fieldName, candidates, taken]

/-- A number after a blank keeps a name from being an index and adds nothing that paths reserve. -/
theorem isName_numbered {base : String} (named : Template.IsName base) (n : Nat) :
    Template.IsName (base ++ " " ++ toString n) := by
  have text : (base ++ " " ++ toString n).toList = base.toList ++ ' ' :: Nat.toDigits 10 n := by
    rw [String.toList_append, String.toList_append, Decimal.toList_toString, List.append_assoc]
    rfl
  constructor
  · intro empty
    have none := congrArg String.toList empty
    rw [text] at none
    simp at none
  · intro c member
    rw [text, List.mem_append, List.mem_cons] at member
    rcases member with member | rfl | member
    · exact named.unreserved c member
    · decide
    · intro kept
      have digit := Decimal.isDigit_of_mem member
      simp only [Template.reserved, List.mem_cons, List.not_mem_nil, or_false] at kept
      rcases kept with rfl | rfl | rfl <;> nomatch digit
  · rw [← Option.not_isSome_iff_eq_none, text]
    intro read
    have blank := Numeral.chars_of_word? read ' ' (by simp)
    revert blank
    decide

theorem isName_fieldName (fields : List Field) (label : String) :
    Template.IsName (fieldName fields label) := by
  have named := Template.isName_iff.mpr (checkName_baseName label)
  have member := List.mem_of_find?_eq_some (fieldName_found fields label)
  rcases List.mem_cons.mp member with same | member
  · rwa [same]
  · obtain ⟨n, _, same⟩ := List.mem_map.mp member
    rw [← same]
    exact isName_numbered named (n + 2)

theorem fieldName_fresh (fields : List Field) (label : String) :
    fieldName fields label ∉ fields.map Field.name := by
  simpa using List.find?_some (fieldName_found fields label)

end Tmpl
end ResourceTemplate
