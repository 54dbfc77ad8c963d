import ResourceTemplate.Proofs.Outcomes
import ResourceTemplate.Proofs.SoundFields
import ResourceTemplate.Proofs.TemplateRules
import ResourceTemplate.Proofs.TmplComposition

/-! The lists of a reading are sound from the first entry to the last: whatever the labels are, the
names that they lead to are valid and distinct, and a list that is announced has its count before it.
So the rules refuse what a resource describes for its size alone. -/
namespace ResourceTemplate

namespace Field

abbrev Formed (field : Field) : Prop := field.Nested (·.check = .ok ())

theorem allNested_append {rule : Template → Prop} {fields : List Field} {field : Field} :
    AllNested rule (fields ++ [field]) ↔ AllNested rule fields ∧ field.Nested rule := by
  induction fields with
  | nil => simp [AllNested]
  | cons first fields ih => simp [AllNested, ih, and_assoc]

end Field

namespace Tmpl

def Directive.Plain : Directive → Prop
  | .field named => ∀ name, (named name).countField? = none ∧ (named name).condition? = none ∧
    (named name).Formed
  | _ => True

theorem table_refersToNone : ∀ entry ∈ table, entry.2.Plain := by
  have rect : Template.rect.check = .ok () := by decide
  have point : Template.point.check = .ok () := by decide
  have byte : Template.check [.scalar "byte" (.int ⟨false, .byte⟩)] = .ok () := by decide
  have within : Field.AllNested (·.check = .ok ()) Template.rect ∧
      Field.AllNested (·.check = .ok ()) Template.point := by
    simp [Template.rect, Template.point, Field.AllNested, Field.Nested]
  simp [table, intCodes, countCodes, otherCodes, bytesToEnd, Directive.Plain, Field.countField?,
    Field.condition?, Field.Formed, Field.Nested, Field.AllNested, rect, point, byte, within]

theorem field_of_code {code : String} {named : String → Field}
    (known : Directive.ofCode? code = some (.field named)) (name : String) :
    (named name).countField? = none ∧ (named name).condition? = none ∧ (named name).Formed :=
  Directive.of_code table_refersToNone (fun _ _ => ⟨rfl, rfl, trivial⟩) known name

/-- A list that no count announces goes on to the end or to a zero byte. -/
theorem list_of_code {code : String} {repetition : Repetition}
    (known : Directive.ofCode? code = some (.openList repetition)) :
    repetition = .untilEnd ∨ repetition = .zeroTerminated := by
  have listed := listed_of_code known (by simp)
  simp [table, intCodes, countCodes, otherCodes] at listed
  rcases listed with ⟨_, rfl⟩ | ⟨_, rfl⟩
  · exact .inl rfl
  · exact .inr rfl

theorem code_nameValue {code : String} :
    Directive.ofCode? code = some .nameValue ↔ code = "CASE" := by
  constructor
  · intro known
    simpa [table, intCodes, countCodes, otherCodes] using listed_of_code known (by simp)
  · rintro rfl
    rfl

structure Level (fields : List Field) : Prop where
  sound : Template.Sound fields
  formed : Field.AllNested (·.check = .ok ()) fields

/-- The count that a list is announced with stands among these fields, and no group has it yet. -/
def Provides (fields : List Field) : Repetition → Prop
  | .counted reference _ =>
    (∃ counter ∈ fields, counter.name = reference ∧ counter.intType?.isSome = true) ∧
      reference ∉ fields.filterMap Field.countField?
  | _ => True

section Levels

variable {fields : List Field}

theorem Level.nil : Level [] := ⟨.nil, trivial⟩

theorem Level.push (level : Level fields) (label : String) {field : Field}
    (named : field.name = fieldName fields label) (formed : field.Formed)
    (unconditional : field.condition? = none)
    (counted : ∀ reference, field.countField? = some reference →
      (∃ counter ∈ fields, counter.name = reference ∧ counter.intType?.isSome = true) ∧
        reference ∉ fields.filterMap Field.countField?) : Level (fields ++ [field]) := by
  refine ⟨?_, Field.allNested_append.mpr ⟨level.formed, formed⟩⟩
  apply level.sound.push
  · rw [named]
    exact isName_fieldName fields label
  · rw [named]
    exact fieldName_fresh fields label
  · exact counted
  · rw [unconditional]
    nofun

theorem Level.push_scalar (level : Level fields) (label : String) (type : ScalarType) :
    Level (fields ++ [.scalar (fieldName fields label) type]) :=
  level.push label rfl trivial rfl nofun

/-- The fields in front of the last one are a level too, and its name is still free there. -/
theorem Level.front {last : Field} (level : Level (fields ++ [last])) :
    Level fields ∧ Template.IsName last.name ∧ last.name ∉ fields.map Field.name := by
  obtain ⟨sound, formed⟩ := level
  have distinct := sound.distinct
  rw [List.map_append, List.nodup_append] at distinct
  refine ⟨⟨sound.front, (Field.allNested_append.mp formed).1⟩, sound.named last (by simp), ?_⟩
  intro taken
  exact distinct.2.2 last.name taken last.name (by simp) rfl

/-- To name a value of an integer makes it an enumeration, which is an integer under its name still. -/
theorem Level.addCase (level : Level fields) {named : List Field} {label : String} {offset : Nat}
    (added : addCase fields label offset = .ok named) : Level named := by
  obtain ⟨front, name, type, base, entry, rfl, _, _, rfl⟩ := addCase_eq_ok.mp added
  obtain ⟨level, valid, fresh⟩ := level.front
  refine ⟨?_, Field.allNested_append.mpr ⟨level.formed, trivial⟩⟩
  exact level.sound.push valid fresh nofun nofun

/-- A new count stands last, and nothing refers to it before it is there. -/
theorem Level.provides (level : Level fields) (label : String) (type : IntType) (zeroBased : Bool) :
    Provides (fields ++ [.scalar (fieldName fields label) (.int type)])
      (.counted (fieldName fields label) zeroBased) := by
  refine ⟨⟨_, List.mem_append_right _ (List.mem_singleton_self _), rfl, rfl⟩, ?_⟩
  intro used
  have used : fieldName fields label ∈ fields.filterMap Field.countField? := by
    simpa [Field.countField?] using used
  exact fieldName_fresh fields label (level.sound.counters used)

end Levels

namespace Reading

def levels (reading : Reading) : List (List Field) :=
  reading.fields :: reading.lists.map OpenList.before

/-- Every list is sound, and each that is open or announced has its count before it. -/
structure Sound (reading : Reading) : Prop where
  levels : ∀ fields ∈ reading.levels, Level fields
  announced : ∀ announced, reading.announced = some announced →
    Provides reading.fields announced.repetition
  opened : ∀ list ∈ reading.lists, Provides list.before list.repetition

section Steps

variable {reading next : Reading} {entry : Entry}

theorem sound_start : start.Sound := by
  refine ⟨?_, nofun, nofun⟩
  intro fields member
  obtain rfl := List.mem_singleton.mp member
  exact .nil

theorem Sound.innermost (sound : reading.Sound) : Level reading.fields :=
  sound.levels reading.fields (List.mem_cons_self ..)

theorem Sound.outer (sound : reading.Sound) {list : OpenList} (inside : list ∈ reading.lists) :
    Level list.before :=
  sound.levels list.before (List.mem_cons_of_mem _ (List.mem_map_of_mem inside))

/-- A change of the innermost list alone. -/
theorem Sound.change (sound : reading.Sound) {fields : List Field} (level : Level fields)
    {announced : Option Announced}
    (provided : ∀ count, announced = some count → Provides fields count.repetition) :
    Sound { reading with fields := fields, announced := announced } := by
  refine ⟨?_, provided, sound.opened⟩
  intro other member
  rcases List.mem_cons.mp member with rfl | member
  · exact level
  · exact sound.levels other (List.mem_cons_of_mem _ member)

theorem Sound.openList (sound : reading.Sound) {repetition : Repetition}
    (provided : Provides reading.fields repetition) (label : String) (offset : Nat) :
    (reading.openList label repetition offset).Sound := by
  refine ⟨?_, nofun, ?_⟩
  · intro fields member
    rcases List.mem_cons.mp member with rfl | member
    · exact .nil
    · exact sound.levels fields member
  · intro list member
    rcases List.mem_cons.mp member with rfl | member
    · exact provided
    · exact sound.opened list member

/-- A list becomes a group behind the fields before it, among which its count has been waiting. -/
theorem Sound.closeList (sound : reading.Sound) {list : OpenList} {lists : List OpenList}
    (inside : reading.lists = list :: lists) (checked : Template.check reading.fields = .ok ()) :
    Sound (push ⟨list.before, lists, none⟩ list.label
      (.group · reading.fields list.repetition none)) := by
  have here : list ∈ reading.lists := inside ▸ List.mem_cons_self ..
  have before : Sound ⟨list.before, lists, none⟩ := by
    refine ⟨?_, nofun, ?_⟩
    · intro fields member
      apply sound.levels
      rw [Reading.levels, inside]
      exact List.mem_cons_of_mem _ member
    · intro other member
      exact sound.opened other (inside ▸ List.mem_cons_of_mem _ member)
  have formed : (Field.group (fieldName list.before list.label) reading.fields list.repetition
      none).Formed := ⟨checked, sound.innermost.formed⟩
  refine before.change ((sound.outer here).push list.label rfl formed rfl ?_) nofun
  intro reference counted
  have provided := sound.opened list here
  cases repetition : list.repetition with
  | counted other zeroBased =>
    rw [repetition] at provided counted
    obtain rfl : other = reference := Option.some.inj counted
    exact provided
  | fixed | untilEnd | zeroTerminated =>
    rw [repetition] at counted
    nomatch counted

/-- Every entry keeps the lists sound. -/
theorem Sound.step (sound : reading.Sound) (takes : reading.Takes entry next) : next.Sound := by
  cases takes with
  | openCounted waiting => exact sound.openList (sound.announced _ waiting) entry.label entry.offset
  | @field named free code =>
    obtain ⟨uncounted, unconditional, formed⟩ :=
      field_of_code code (fieldName reading.fields entry.label)
    have level := sound.innermost.push entry.label (name_of_code code _) formed unconditional
      (by rw [uncounted]; nofun)
    refine sound.change level fun count waiting => ?_
    rw [free] at waiting
    nomatch waiting
  | @count type zeroBased =>
    refine sound.change (sound.innermost.push_scalar entry.label (.int type)) ?_
    rintro _ ⟨⟩
    exact sound.innermost.provides entry.label type zeroBased
  | fixedCount =>
    refine sound.change sound.innermost ?_
    rintro _ ⟨⟩
    trivial
  | openList _ code =>
    refine sound.openList ?_ entry.label entry.offset
    rcases list_of_code code with rfl | rfl <;> trivial
  | closeList _ _ inside checked => exact sound.closeList inside (check_eq_ok.mp checked)
  | nameValue free _ named =>
    refine sound.change (sound.innermost.addCase named) fun count waiting => ?_
    rw [free] at waiting
    nomatch waiting
  | divider => exact sound

theorem Sound.run {entries : List Entry} (sound : reading.Sound)
    (done : entries.foldlM Reading.step reading = .ok next) : next.Sound := by
  induction entries generalizing reading with
  | nil =>
    cases done
    exact sound
  | cons entry entries ih =>
    rw [List.foldlM_cons] at done
    obtain ⟨middle, first, done⟩ := bind_eq_ok.mp done
    exact ih (sound.step (step_eq_ok.mp first)) done

end Steps
end Reading

end Tmpl
end ResourceTemplate
