import ResourceTemplate.Proofs.PathText
import ResourceTemplate.Proofs.ScalarStorage
import ResourceTemplate.Proofs.TmplErrors
import ResourceTemplate.Proofs.WrittenIntegers

/-! Values that labels give names to. A label is read as a number of 64 bits first, and the number then
as the field reads its bits. What the field holds after that is an enumeration, and its entries stay. -/
namespace ResourceTemplate

namespace Numeral

section Read

variable {radix limit d m n : Nat} {c : Char} {text : List Char} {v : Int}

theorem digit_bounds (digit : digit? radix c = some d) :
    48 ≤ c.toNat ∧ c.toNat ≤ 57 ∨ 65 ≤ c.toNat ∧ c.toNat ≤ 90 ∨ 97 ≤ c.toNat ∧ c.toNat ≤ 122 := by
  obtain ⟨found, _⟩ := Option.filter_eq_some_iff.mp digit
  simp only [Char.le_def, UInt32.le_iff_toNat_le] at found
  split at found
  · next decimal => exact .inl decimal
  · split at found
    · next lower => exact .inr (.inr lower)
    · split at found
      · next upper => exact .inr (.inl upper)
      · contradiction

def Solid (c : Char) : Prop := Text.isBlank c = false ∧ c ≠ '='

theorem solid_of_digit (digit : digit? radix c = some d) : Solid c := by
  have bounds := digit_bounds digit
  constructor
  · simp only [Text.isBlank, Bool.or_eq_false_iff, Bool.and_eq_false_iff, decide_eq_false_iff_not,
      beq_eq_false_iff_ne]
    omega
  · rintro rfl
    have equals : '='.toNat = 61 := rfl
    omega

theorem Spells.solid (spelled : Spells radix text n) : ∀ c ∈ text, Solid c := by
  have denoted := spelled.2
  clear spelled
  generalize 0 = value at denoted
  induction text generalizing value with
  | nil => simp
  | cons c text ih =>
    obtain ⟨d, digit, denoted⟩ := Option.bind_eq_some_iff.mp denoted
    exact List.forall_mem_cons.mpr ⟨solid_of_digit digit, ih _ denoted⟩

theorem Unsigned.solid (unsigned : Unsigned text n) : ∀ c ∈ text, Solid c := by
  cases unsigned with
  | decimal spelled => exact spelled.solid
  | @hexadecimal mark text n marked spelled =>
    have marks : marks.all fun mark => mark.all fun c => !Text.isBlank c && c != '=' := by decide
    intro c member
    rcases List.mem_append.mp member with front | back
    · simpa [Solid] using List.all_eq_true.mp (List.all_eq_true.mp marks mark marked) c front
    · exact spelled.solid c back

theorem Written.solid (written : Written text v) : ∀ c ∈ text, Solid c := by
  cases written with
  | plain unsigned => exact unsigned.solid
  | minus unsigned => exact List.forall_mem_cons.mpr ⟨by unfold Solid; decide, unsigned.solid⟩

/-- Digits that are too many are refused. -/
theorem Spells.natural_toOption (spelled : Spells radix text n) (positive : 0 < radix) :
    (natural radix limit text).toOption = if n ≤ limit then some n else none := by
  by_cases fits : n ≤ limit
  · rw [spelled.natural_eq positive fits, if_pos fits]
    rfl
  · rw [if_neg fits]
    cases read : natural radix limit text with
    | error => rfl
    | ok m =>
      obtain ⟨within, again | ⟨rest, rfl, _⟩⟩ := (natural_eq_ok positive).mp read
      · obtain rfl : n = m := Option.some.inj (spelled.2.symm.trans again.2)
        exact absurd within fits
      · obtain ⟨_, denoted⟩ := spelled
        contradiction

theorem Spells.signed?_eq (spelled : Spells radix text n) (positive : 0 < radix) :
    signed? radix text = if n ≤ maxSigned then some (n : Int) else none := by
  have read : (natural radix maxSigned text).toOption = _ := spelled.natural_toOption positive
  obtain ⟨c, rest, d, rfl, digit⟩ := spelled.head
  unfold signed?
  split
  · next sign =>
    cases sign
    contradiction
  · next sign =>
    cases sign
    contradiction
  · rw [read]
    split <;> rfl

end Read

end Numeral

namespace Tmpl

open Numeral

section Labels

variable {base : IntType} {name text : List Char} {v : Int}

theorem magnitude?_unsigned {n : Nat} (unsigned : Unsigned text n) :
    magnitude? text = if n ≤ maxSigned then some (n : Int) else none := by
  unfold magnitude?
  cases unsigned with
  | decimal spelled =>
    have plain (mark rest : List Char) (marked : mark ∈ marks) : text ≠ mark ++ rest := by
      rintro rfl
      exact (marked_head marked rest).1 n spelled
    split
    · exact absurd rfl (plain ['$'] _ (by decide))
    · exact absurd rfl (plain ['0', 'x'] _ (by decide))
    · exact absurd rfl (plain ['0', 'X'] _ (by decide))
    · exact spelled.signed?_eq (by decide)
  | hexadecimal marked spelled =>
    simp only [marks, List.mem_cons, List.not_mem_nil, or_false] at marked
    rcases marked with rfl | rfl | rfl <;> exact spelled.signed?_eq (by decide)

/-- A written integer is read when its digits fit a signed number of 64 bits, whatever its sign. -/
theorem caseNumber?_written (written : Written text v) :
    caseNumber? text = if v.natAbs ≤ maxSigned then some v else none := by
  have blankless : Text.trim text = text := Text.trim_eq fun c member => (written.solid c member).1
  unfold caseNumber?
  rw [blankless]
  cases written with
  | plain unsigned =>
    split
    · exact absurd rfl (unsigned.head.2 _)
    · exact magnitude?_unsigned unsigned
  | @minus text n unsigned =>
    simp only [magnitude?_unsigned unsigned, Int.natAbs_neg, Int.natAbs_natCast]
    split <;> rfl

/-- A label is cut where its value begins. -/
theorem splitCase?_append (name : List Char) (plain : '=' ∉ text) :
    splitCase? (name ++ '=' :: text) = some (name, text) := by
  have value : (((name ++ '=' :: text).reverse.takeWhile (· ≠ '=')).reverse) = text := by
    rw [List.reverse_append, List.reverse_cons, List.append_assoc, List.singleton_append,
      takeWhile_span ?_ (by simp), List.reverse_reverse]
    intro c member
    have other : c ≠ '=' := by
      rintro rfl
      exact plain (List.mem_reverse.mp member)
    simpa using other
  have length : (name ++ '=' :: text).length - text.length - 1 = name.length := by
    simp only [List.length_append, List.length_cons]
    omega
  simp only [splitCase?, value, length, List.take_left]
  simp

end Labels

end Tmpl

namespace IntType

/-- The integers that a field of this format can be meant by, signed or not, when what it reads for
them is a signed number of 64 bits. -/
def Means (base : IntType) (v : Int) : Prop :=
  (-(base.half : Int) ≤ v ∧ v < base.patterns) ∧ base.ofBits (base.toBits v) ≤ Numeral.maxSigned

/-- The integers that a label can name a value by. Their digits are read before their sign. -/
def Nameable (base : IntType) (v : Int) : Prop := base.Means v ∧ v.natAbs ≤ Numeral.maxSigned

instance (base : IntType) (v : Int) : Decidable (base.Means v) :=
  inferInstanceAs (Decidable (_ ∧ _))

instance (base : IntType) (v : Int) : Decidable (base.Nameable v) :=
  inferInstanceAs (Decidable (_ ∧ _))

theorem ofBits_toBits_unsigned (width : Width) (v : Int) :
    ofBits ⟨false, width⟩ (toBits ⟨false, width⟩ v) = v % width.patterns := by
  have positive := half_pos ⟨false, width⟩
  have twice := half_twice ⟨false, width⟩
  have reduced := Int.emod_nonneg v (b := width.patterns) (by simp only [patterns] at twice; omega)
  simp only [ofBits, toBits, patterns, Bool.false_eq_true, if_false, Int.toNat_of_nonneg reduced,
    Int.emod_emod]

/-- Only signed fields of 64 bits are meant by integers that cannot be named: the smallest one, and
those whose bits they read as negative. -/
theorem unnameable {base : IntType} {v : Int} (means : base.Means v) :
    ¬ base.Nameable v ↔
      base = ⟨true, .quad⟩ ∧ (v = Numeral.minSigned ∨ (Numeral.maxSigned : Int) < v) := by
  obtain ⟨⟨low, high⟩, fits⟩ := means
  have outside : ¬ base.Nameable v ↔ Numeral.maxSigned < v.natAbs := by
    rw [Nameable, not_and, Nat.not_le]
    exact ⟨fun implied => implied ⟨⟨low, high⟩, fits⟩, fun large _ => large⟩
  obtain ⟨signed, width⟩ := base
  rw [outside]
  cases width with
  | byte | word | long =>
    simp only [half, patterns, Width.patterns, Numeral.maxSigned] at low high ⊢
    simp only [mk.injEq, reduceCtorEq, and_false, false_and, iff_false]
    omega
  | quad =>
    cases signed with
    | false =>
      rw [ofBits_toBits_unsigned] at fits
      simp only [half, patterns, Width.patterns, Numeral.maxSigned] at low high fits ⊢
      simp only [mk.injEq, Bool.false_eq_true, false_and, iff_false]
      omega
    | true =>
      simp only [half, patterns, Width.patterns, Numeral.maxSigned, Numeral.minSigned, true_and]
        at low high ⊢
      omega

/-- What a field reads is a signed number of 64 bits when it is not too large. -/
theorem toInt_ofBits {base : IntType} {pattern : Nat} (fits : base.ofBits pattern ≤ Numeral.maxSigned) :
    (Int64.ofInt (base.ofBits pattern)).toInt = base.ofBits pattern := by
  have least := (word_bounds (base.contains_ofBits pattern)).1
  simp only [Numeral.minSigned, Numeral.maxSigned] at least fits
  exact Int64.toInt_ofInt_of_le (by omega) (by omega)

end IntType

namespace Tmpl

open Numeral

section Entries

variable {base : IntType} {label name text : String} {v : Int}

/-- The entry that names an integer by what the field reads for it. -/
def entryFor (base : IntType) (v : Int) (name : String) : EnumEntry :=
  ⟨Int64.ofInt (base.ofBits (base.toBits v)), String.ofList (Text.trim name.toList)⟩

theorem caseValue?_eq (within : v.natAbs ≤ maxSigned) :
    caseValue? base v =
      if base.Nameable v then some (Int64.ofInt (base.ofBits (base.toBits v))) else none := by
  unfold caseValue?
  by_cases inside : -(base.half : Int) ≤ v ∧ v < base.patterns
  · by_cases fits : base.ofBits (base.toBits v) ≤ maxSigned
    · rw [if_pos inside, if_pos (show base.Nameable v from ⟨⟨inside, fits⟩, within⟩)]
      exact if_pos fits
    · rw [if_pos inside, if_neg (show ¬ base.Nameable v from fun named => fits named.1.2)]
      exact if_neg fits
  · rw [if_neg inside, if_neg (show ¬ base.Nameable v from fun named => inside named.1.1)]

variable (same : label = name ++ "=" ++ text) (written : Written text.toList v)
include same written

theorem splitCase?_written : splitCase? label.toList = some (name.toList, text.toList) := by
  have characters : label.toList = name.toList ++ '=' :: text.toList := by
    rw [same, String.toList_append, String.toList_append, List.append_assoc]
    rfl
  rw [characters]
  exact splitCase?_append name.toList fun member => (written.solid '=' member).2 rfl

/-- An integer that can be named is named, after a field that reads it. -/
theorem caseEntry?_written (nameable : base.Nameable v) :
    caseEntry? base label = some (entryFor base v name) := by
  have small : ¬ (maxSigned : Int) < v := by
    have := nameable.2
    omega
  simp only [splitCase?_written same written, caseEntry?, caseNumber?_written written,
    if_pos nameable.2, Option.bind_some, if_neg small, caseValue?_eq nameable.2, if_pos nameable,
    Option.map_some]
  rfl

/-- An integer that cannot is refused with its label. -/
theorem addCase_unnameable {front : List Field} {field : String} {type : ScalarType}
    (integer : type.intType? = some base) (unnameable : ¬ base.Nameable v) (offset : Nat) :
    addCase (front ++ [.scalar field type]) label offset = .error (.invalidCase label offset) := by
  unfold addCase
  by_cases within : v.natAbs ≤ maxSigned
  · have small : ¬ (maxSigned : Int) < v := by omega
    simp only [splitCase?_written same written, caseNumber?_written written, if_pos within,
      if_neg small, List.getLast?_concat, integer, caseValue?_eq within, if_neg unnameable]
    rfl
  · simp only [splitCase?_written same written, caseNumber?_written written, if_neg within]
    rfl

end Entries

end Tmpl

def ScalarType.names? : ScalarType → Option NameTable
  | .enumeration _ names => some names
  | _ => none

mutual
def Field.scalars : Field → List (String × ScalarType)
  | .scalar name type => [(name, type)]
  | .composite _ fields => scalarsAll fields
  | .group _ fields _ _ => scalarsAll fields

def Field.scalarsAll : List Field → List (String × ScalarType)
  | [] => []
  | field :: fields => field.scalars ++ scalarsAll fields
end

theorem Field.scalarsAll_append (front back : List Field) :
    scalarsAll (front ++ back) = scalarsAll front ++ scalarsAll back := by
  induction front with
  | nil => rfl
  | cons field front ih => rw [List.cons_append, scalarsAll, scalarsAll, ih, List.append_assoc]

theorem Field.scalarsAll_concat (front : List Field) (field : Field) :
    scalarsAll (front ++ [field]) = scalarsAll front ++ field.scalars := by
  rw [scalarsAll_append, scalarsAll, scalarsAll, List.append_nil]

namespace Tmpl

def Directive.Nameless : Directive → Prop
  | .field named => ∀ name, ∀ scalar ∈ (named name).scalars, scalar.2.names? = none
  | _ => True

theorem table_nameless : ∀ entry ∈ table, entry.2.Nameless := by
  simp [table, intCodes, countCodes, otherCodes, bytesToEnd, Template.rect, Template.point,
    Directive.Nameless, Field.scalars, Field.scalarsAll, ScalarType.names?, or_imp, forall_and]

theorem nameless_of_code {code : String} {named : String → Field}
    (known : Directive.ofCode? code = some (.field named)) (name : String) :
    ∀ scalar ∈ (named name).scalars, scalar.2.names? = none :=
  Directive.of_code table_nameless
    (fun length name => by simp [Field.scalars, ScalarType.names?]) known name

namespace Reading

def scalars (reading : Reading) : List (String × ScalarType) := reading.levels.flatMap Field.scalarsAll

theorem mem_scalars {fields : List Field} {lists : List OpenList} {announced : Option Announced}
    {scalar : String × ScalarType} :
    scalar ∈ scalars ⟨fields, lists, announced⟩ ↔
      scalar ∈ Field.scalarsAll fields ∨
        scalar ∈ (lists.map OpenList.before).flatMap Field.scalarsAll :=
  List.mem_append

/-- The scalars are the same, and those that are made, which have no names for their values. -/
def Adds (reading next : Reading) : Prop :=
  ∃ made : List (String × ScalarType), (∀ scalar ∈ made, scalar.2.names? = none) ∧
    ∀ scalar, scalar ∈ next.scalars ↔ scalar ∈ reading.scalars ∨ scalar ∈ made

/-- The scalars are the same, but for one integer that has another name for a value. -/
def Names (reading next : Reading) : Prop :=
  ∃ (others : List (String × ScalarType)) (name : String) (type : ScalarType) (base : IntType)
    (value : EnumEntry), type.intType? = some base ∧
    (∀ scalar, scalar ∈ reading.scalars ↔ scalar ∈ others ∨ scalar = (name, type)) ∧
    ∀ scalar, scalar ∈ next.scalars ↔ scalar ∈ others ∨ scalar = (name, withEntry base value type)

theorem Adds.of_same {reading next : Reading}
    (same : ∀ scalar, scalar ∈ next.scalars ↔ scalar ∈ reading.scalars) : Adds reading next :=
  ⟨[], by simp, by simpa using same⟩

theorem adds_push (reading : Reading) (label : String) {named : String → Field}
    (nameless : ∀ scalar ∈ (named (fieldName reading.fields label)).scalars, scalar.2.names? = none)
    (announced : Option Announced) :
    Adds reading { reading.push label named with announced := announced } := by
  refine ⟨_, nameless, fun scalar => ?_⟩
  obtain ⟨fields, lists, _⟩ := reading
  rw [push, mem_scalars, mem_scalars, Field.scalarsAll_concat, List.mem_append, or_right_comm]

theorem adds_openList (reading : Reading) (label : String) (repetition : Repetition) (offset : Nat) :
    Adds reading (reading.openList label repetition offset) := by
  refine .of_same fun scalar => ?_
  obtain ⟨fields, lists, _⟩ := reading
  rw [openList, mem_scalars, mem_scalars, List.map_cons, List.flatMap_cons, List.mem_append]
  exact or_iff_right List.not_mem_nil

/-- What an entry makes of the scalars. -/
theorem Takes.scalars {reading next : Reading} {entry : Entry} (takes : reading.Takes entry next) :
    Adds reading next ∨ Names reading next := by
  cases takes with
  | openCounted | openList => exact .inl (adds_openList ..)
  | field free code => exact .inl (adds_push reading entry.label (nameless_of_code code _) _)
  | @count type =>
    exact .inl (adds_push reading entry.label (by simp [Field.scalars, ScalarType.names?]) _)
  | fixedCount | divider => exact .inl (.of_same fun _ => Iff.rfl)
  | @closeList list lists free code inside checked =>
    refine .inl (.of_same fun scalar => ?_)
    obtain ⟨fields, _, announced⟩ := reading
    subst inside
    rw [push, mem_scalars, mem_scalars, Field.scalarsAll_concat, List.map_cons, List.flatMap_cons,
      List.mem_append, List.mem_append, Field.scalars, or_assoc, or_left_comm]
  | @nameValue named free code added =>
    refine .inr ?_
    obtain ⟨fields, lists, announced⟩ := reading
    obtain ⟨front, name, type, base, value, rfl, integer, _, rfl⟩ := addCase_eq_ok.mp added
    refine ⟨Field.scalarsAll front ++ (lists.map OpenList.before).flatMap Field.scalarsAll, name, type,
      base, value, integer, fun scalar => ?_, fun scalar => ?_⟩
    · rw [mem_scalars, Field.scalarsAll_concat, List.mem_append, List.mem_append, Field.scalars,
        List.mem_singleton, or_right_comm]
    · rw [mem_scalars, Field.scalarsAll_concat, List.mem_append, List.mem_append, Field.scalars,
        List.mem_singleton, or_right_comm]

def Plain (reading : Reading) : Prop :=
  ∀ scalar ∈ reading.scalars, ∀ names, scalar.2.names? = some names → names.bitmask = false

/-- An enumeration that has these names, and others behind them. -/
def Keeps (reading : Reading) (name : String) (base : IntType) (entries : List EnumEntry) : Prop :=
  ∃ later, (name, .enumeration base ⟨entries ++ later, false⟩) ∈ reading.scalars

section Steps

variable {reading next : Reading} {entry : Entry}

theorem plain_start : start.Plain := by
  intro scalar member
  contradiction

theorem names_withEntry {base : IntType} {value : EnumEntry} {type : ScalarType} {names : NameTable}
    (made : (withEntry base value type).names? = some names) :
    names.bitmask = false ∨ ∃ old, type.names? = some old ∧ old.bitmask = names.bitmask := by
  cases type with
  | enumeration base old =>
    cases made
    exact .inr ⟨old, rfl, rfl⟩
  | int | fixedString | pascalString | boolean =>
    cases made
    exact .inl rfl

theorem Plain.step (plain : reading.Plain) (takes : reading.Takes entry next) : next.Plain := by
  intro scalar member names named
  rcases takes.scalars with ⟨made, nameless, same⟩ | ⟨others, name, type, base, value, _, before, after⟩
  · rcases (same scalar).mp member with member | member
    · exact plain scalar member names named
    · rw [nameless scalar member] at named
      contradiction
  · rcases (after scalar).mp member with member | rfl
    · exact plain scalar ((before scalar).mpr (.inl member)) names named
    · rcases names_withEntry named with whole | ⟨old, found, same⟩
      · exact whole
      · rw [← same]
        exact plain (name, type) ((before _).mpr (.inr rfl)) old found

theorem Plain.run {entries : List Entry} (plain : reading.Plain)
    (done : entries.foldlM Reading.step reading = .ok next) : next.Plain := by
  induction entries generalizing reading with
  | nil =>
    cases done
    exact plain
  | cons entry entries ih =>
    rw [List.foldlM_cons] at done
    obtain ⟨middle, first, done⟩ := bind_eq_ok.mp done
    exact ih (plain.step (step_eq_ok.mp first)) done

/-- Other values get their names behind those that are there. -/
theorem Keeps.step {name : String} {base : IntType} {entries : List EnumEntry}
    (keeps : reading.Keeps name base entries) (takes : reading.Takes entry next) :
    next.Keeps name base entries := by
  obtain ⟨later, member⟩ := keeps
  rcases takes.scalars with ⟨made, _, same⟩ | ⟨others, other, type, format, value, integer, before, after⟩
  · exact ⟨later, (same _).mpr (.inl member)⟩
  · rcases (before _).mp member with member | same
    · exact ⟨later, (after _).mpr (.inl member)⟩
    · obtain ⟨rfl, rfl⟩ := Prod.mk.inj same
      refine ⟨later ++ [value], (after _).mpr (.inr ?_)⟩
      rw [withEntry, List.append_assoc]

theorem Keeps.run {name : String} {base : IntType} {values : List EnumEntry} {entries : List Entry}
    (keeps : reading.Keeps name base values)
    (done : entries.foldlM Reading.step reading = .ok next) : next.Keeps name base values := by
  induction entries generalizing reading with
  | nil =>
    cases done
    exact keeps
  | cons entry entries ih =>
    rw [List.foldlM_cons] at done
    obtain ⟨middle, first, done⟩ := bind_eq_ok.mp done
    exact ih (keeps.step (step_eq_ok.mp first)) done

end Steps

end Reading

end Tmpl

section Labelled

variable {base : IntType} {n : Int}

/-- An integer that is stored is read back as the field reads its bits. -/
theorem decodeScalar_pattern (base : IntType) (names : NameTable) (v : Int) (path : Path)
    (offset : Nat) (rest : Bytes) :
    decodeScalar (.enumeration base names) path
        ⟨offset, Bytes.ofNat base.bytes (base.toBits v) ++ rest⟩ =
      .ok (⟨.enumeration, base.value (base.ofBits (base.toBits v)),
        names.label? base (base.ofBits (base.toBits v)), none⟩, ⟨offset + base.bytes, rest⟩) := by
  have small : base.toBits v < Bytes.patterns base.bytes := base.patterns_bytes ▸ base.toBits_lt v
  have integer := base.integer?_value _ (base.contains_ofBits (base.toBits v))
  simp only [decodeScalar, ScalarType.read,
    take_append base.bytes path offset _ rest (Bytes.length_ofNat ..), Bytes.toNat_ofNat _ _ small,
    ScalarType.label?, ok_bind, pure_bind, integer, Option.bind_some]
  rfl

/-- A value is labelled with the first of its names. -/
theorem NameTable.label?_named {earlier later : List EnumEntry} {value : EnumEntry}
    (same : value.value.toInt = n) :
    ∃ entry ∈ earlier ++ value :: later, entry.value.toInt = n ∧
      label? ⟨earlier ++ value :: later, false⟩ base n = some entry.name ∧
      ((∀ other ∈ earlier, other.value.toInt ≠ n) → entry = value) := by
  have whole : label? ⟨earlier ++ value :: later, false⟩ base n =
      ((earlier ++ value :: later).find? (·.value.toInt == n)).map EnumEntry.name := by
    simp [label?, nameOf?]
  rw [whole, List.find?_append]
  cases first : earlier.find? (·.value.toInt == n) with
  | some entry =>
    have among := List.mem_of_find?_eq_some first
    have held : entry.value.toInt = n := by simpa using List.find?_some first
    exact ⟨entry, List.mem_append_left _ among, held, rfl, fun free => absurd held (free entry among)⟩
  | none => exact ⟨value, by simp, same, by simp [same], fun _ => rfl⟩

end Labelled

namespace Tmpl

/-- The values that are named already. -/
def namedBefore (type : ScalarType) : List EnumEntry :=
  (type.names?.map NameTable.entries).getD []

/-- An integer of a reading keeps its names when it is given another. -/
theorem withEntry_eq {base : IntType} {value : EnumEntry} {type : ScalarType}
    (integer : type.intType? = some base)
    (whole : ∀ names, type.names? = some names → names.bitmask = false) :
    withEntry base value type = .enumeration base ⟨namedBefore type ++ [value], false⟩ := by
  cases type with
  | int => rfl
  | enumeration format names =>
    obtain rfl : format = base := Option.some.inj integer
    have whole := whole names rfl
    obtain ⟨entries, bitmask⟩ := names
    subst whole
    rfl
  | fixedString | pascalString | boolean => contradiction

/-- What is in the last reading is in the template. -/
theorem Reading.Keeps.template {name : String} {base : IntType} {values : List EnumEntry}
    {fields : List Field} (keeps : Reading.Keeps ⟨fields, [], none⟩ name base values) :
    ∃ later, (name, .enumeration base ⟨values ++ later, false⟩) ∈ Field.scalarsAll fields := by
  obtain ⟨later, member⟩ := keeps
  refine ⟨later, (Reading.mem_scalars.mp member).resolve_right ?_⟩
  exact List.not_mem_nil

end Tmpl

namespace Template

open Tmpl

/-- A label names a value of the integer field before it by any integer that the field can be meant by,
and the value is what the field reads for that integer: wherever its bits are decoded, they are labelled
with the name, or with an earlier one for the same value. Other integers are refused. So are those
for which there is no room in front of their sign, the smallest of 64 bits and the ones above the
largest, also by the fields that they could mean. -/
theorem ofTmpl_named {data : Bytes} {front back : List Entry} {entry : Entry} {reading : Reading}
    (split : (Entry.scan ⟨0, data⟩).1 = front ++ entry :: back)
    (done : front.foldlM Reading.step .start = .ok reading) (free : reading.announced = none)
    (code : entry.code = "CASE") {before : List Field} {field : String} {type : ScalarType}
    {base : IntType} (last : reading.fields = before ++ [.scalar field type])
    (integer : type.intType? = some base) {name text : String} {v : Int}
    (label : entry.label = name ++ "=" ++ text) (written : Numeral.Written text.toList v) :
    (base.Nameable v →
      reading.step entry = .ok { reading with
        fields := before ++ [.scalar field (withEntry base (entryFor base v name) type)] } ∧
      (entryFor base v name).value.toInt = base.ofBits (base.toBits v) ∧
      ∀ template, ofTmpl data = .ok template → ∃ later,
        (field, .enumeration base ⟨namedBefore type ++ entryFor base v name :: later, false⟩) ∈
          Field.scalarsAll template ∧
        ∀ path offset rest, ∃ value ∈ namedBefore type ++ entryFor base v name :: later,
          value.value.toInt = base.ofBits (base.toBits v) ∧
          decodeScalar
              (.enumeration base ⟨namedBefore type ++ entryFor base v name :: later, false⟩) path
              ⟨offset, Bytes.ofNat base.bytes (base.toBits v) ++ rest⟩ =
            .ok (⟨.enumeration, base.value (base.ofBits (base.toBits v)), some value.name, none⟩,
              ⟨offset + base.bytes, rest⟩) ∧
          ((∀ other ∈ namedBefore type, other.value.toInt ≠ base.ofBits (base.toBits v)) →
            value = entryFor base v name)) ∧
    (¬ base.Nameable v → ofTmpl data = .error (.invalidCase entry.label entry.offset)) ∧
    (base.Means v → (¬ base.Nameable v ↔
      base = ⟨true, .quad⟩ ∧ (v = Numeral.minSigned ∨ (Numeral.maxSigned : Int) < v))) := by
  have known := code_nameValue.mpr code
  refine ⟨fun nameable => ?_, fun refused => ?_, IntType.unnameable⟩
  · have added : addCase reading.fields entry.label entry.offset =
        .ok (before ++ [.scalar field (withEntry base (entryFor base v name) type)]) :=
      addCase_eq_ok.mpr ⟨before, field, type, base, entryFor base v name, last, integer,
        caseEntry?_written label written nameable, rfl⟩
    have step := Reading.step_eq_ok.mpr (.nameValue free known added)
    have reads : (entryFor base v name).value.toInt = base.ofBits (base.toBits v) :=
      IntType.toInt_ofBits nameable.1.2
    refine ⟨step, reads, fun template accepted => ?_⟩
    obtain ⟨loaded, _⟩ := ofTmpl_eq_ok.mp accepted
    obtain ⟨entries, stand, whole⟩ := fields_eq_ok.mp loaded
    rw [scan_of_stand stand] at split
    subst split
    rw [List.foldlM_append, done, ok_bind, List.foldlM_cons, step, ok_bind] at whole
    -- The field holds its names from this entry on, to the end of the resource.
    have held : (field, type) ∈ reading.scalars := by
      obtain ⟨fields, lists, announced⟩ := reading
      subst last
      rw [Reading.mem_scalars, Field.scalarsAll_concat]
      exact .inl (List.mem_append_right _ (List.mem_singleton_self _))
    have plain := Reading.plain_start.run done (field, type) held
    have keeps : Reading.Keeps { reading with
        fields := before ++ [.scalar field (withEntry base (entryFor base v name) type)] } field base
        (namedBefore type ++ [entryFor base v name]) := by
      refine ⟨[], Reading.mem_scalars.mpr (.inl ?_)⟩
      rw [Field.scalarsAll_concat, withEntry_eq integer plain, List.append_nil]
      exact List.mem_append_right _ (List.mem_singleton_self _)
    obtain ⟨later, member⟩ := (keeps.run whole).template
    rw [List.append_assoc, List.singleton_append] at member
    refine ⟨later, member, fun path offset rest => ?_⟩
    obtain ⟨value, among, same, labelled, first⟩ := NameTable.label?_named reads
    exact ⟨value, among, same, by rw [decodeScalar_pattern, labelled], first⟩
  · have step : reading.step entry = .error (.invalidCase entry.label entry.offset) := by
      simp only [Reading.step, free, Reading.enter, known, last,
        addCase_unnameable label written integer refused]
      rfl
    rw [ofTmpl, fields_of_refused split done step]
    rfl

/-- All bits of a signed byte are read as minus one, which has the name `Max` already. -/
theorem ofTmpl_named_sample : ∃ (data : Bytes) (front : List Entry) (entry : Entry)
    (reading : Reading) (template : Template) (later : List EnumEntry),
    (Entry.scan ⟨0, data⟩).1 = front ++ entry :: [] ∧
      front.foldlM Reading.step .start = .ok reading ∧ reading.announced = none ∧
      entry.code = "CASE" ∧
      reading.fields = [] ++ [.scalar "v" (.enumeration ⟨true, .byte⟩ ⟨[⟨-1, "Max"⟩], false⟩)] ∧
      entry.label = " All " ++ "=" ++ "255" ∧ Numeral.Written "255".toList 255 ∧
      IntType.Nameable ⟨true, .byte⟩ 255 ∧ ofTmpl data = .ok template ∧
      ("v", .enumeration ⟨true, .byte⟩
        ⟨[⟨-1, "Max"⟩] ++ entryFor ⟨true, .byte⟩ 255 " All " :: later, false⟩) ∈
          Field.scalarsAll template ∧
      (entryFor ⟨true, .byte⟩ 255 " All ").value.toInt = -1 := by
  let field : Label := ⟨[118], by decide⟩
  let first : Label := ⟨[77, 97, 120, 61, 45, 49], by decide⟩
  let second : Label := ⟨[32, 65, 108, 108, 32, 61, 50, 53, 53], by decide⟩
  let data : Bytes := field.entry "DBYT" ++ first.entry "CASE" ++ second.entry "CASE"
  have scanned : (Entry.scan ⟨0, data⟩).1 =
      [⟨0, "v", "DBYT"⟩, ⟨6, "Max=-1", "CASE"⟩] ++ (⟨17, " All =255", "CASE"⟩ : Entry) :: [] := by
    decide +kernel
  have accepted : ofTmpl data = .ok [.scalar "v"
      (.enumeration ⟨true, .byte⟩ ⟨[⟨-1, "Max"⟩, ⟨-1, "All"⟩], false⟩)] := by decide +kernel
  have written : Numeral.Written "255".toList 255 := .plain (.decimal ⟨by decide, by decide⟩)
  have nameable : IntType.Nameable ⟨true, .byte⟩ 255 := by decide
  -- What the first two entries make is what they make by themselves.
  have early : Tmpl.fields (field.entry "DBYT" ++ first.entry "CASE") =
      .ok [.scalar "v" (.enumeration ⟨true, .byte⟩ ⟨[⟨-1, "Max"⟩], false⟩)] := by decide +kernel
  obtain ⟨front, stand, done⟩ := fields_eq_ok.mp early
  have known : (Entry.scan ⟨0, field.entry "DBYT" ++ first.entry "CASE"⟩).1 =
      [⟨0, "v", "DBYT"⟩, ⟨6, "Max=-1", "CASE"⟩] := by decide +kernel
  rw [scan_of_stand stand] at known
  subst known
  obtain ⟨named, _⟩ :=
    @ofTmpl_named _ _ _ _ _ scanned done rfl rfl [] _ _ _ rfl rfl " All " "255" _ rfl written
  obtain ⟨_, reads, member⟩ := named nameable
  obtain ⟨later, member, _⟩ := member _ accepted
  exact ⟨data, _, _, _, _, later, scanned, done, rfl, rfl, rfl, rfl, written, nameable, accepted,
    member, reads⟩

/-- The second entry names minus one of a signed field by its bits. -/
theorem ofTmpl_unnamed :
    IntType.Means ⟨true, .quad⟩ 0xFFFFFFFFFFFFFFFF ∧
      Numeral.Written "$FFFFFFFFFFFFFFFF".toList 0xFFFFFFFFFFFFFFFF ∧
      IntType.ofBits ⟨true, .quad⟩ (IntType.toBits ⟨true, .quad⟩ 0xFFFFFFFFFFFFFFFF) = -1 ∧
      ofTmpl ([1, 118, 68, 81, 87, 68, 19] ++ Utf8.encode "x=$FFFFFFFFFFFFFFFFCASE".toList) =
        .error (.invalidCase "x=$FFFFFFFFFFFFFFFF" 6) := by
  refine ⟨by decide, ?_, by decide, by decide +kernel⟩
  exact .plain (@Numeral.Unsigned.hexadecimal ['$'] _ _ (by decide) ⟨by decide, by decide⟩)

end Template
end ResourceTemplate
