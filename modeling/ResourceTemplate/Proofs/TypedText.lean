import ResourceTemplate.Proofs.HeldScalars
import ResourceTemplate.Proofs.ShownText

/-! Typing back what is shown changes nothing. In a record as it was decoded the text of each scalar is
read as a value that the scalar takes in the form in which it holds it already. -/
namespace ResourceTemplate

/-- The texts that a scalar is shown as. An enumeration is shown as its label, or as its number where no
name could be meant by that. -/
inductive ScalarType.Shows (settings : Settings) : ScalarType → Scalar → String → Prop
  | integer (format : IntType) (held : Scalar) : Shows settings (.int format) held held.value.display
  | boolean (wide : Bool) (held : Scalar) : Shows settings (.boolean wide) held held.value.display
  | fixedString (length : Nat) (held : Scalar) (bytes : Bytes) (holds : held.value = .text bytes) :
      Shows settings (.fixedString length) held (String.ofList (settings.charset.decode bytes))
  | pascalString (held : Scalar) (bytes : Bytes) (holds : held.value = .text bytes) :
      Shows settings .pascalString held (String.ofList (settings.charset.decode bytes))
  | number (base : IntType) (names : NameTable) (held : Scalar)
      (others : ∀ entry ∈ names.entries,
        Text.equalFold entry.name.toList held.value.display.toList = false) :
      Shows settings (.enumeration base names) held held.value.display
  | label (base : IntType) (names : NameTable) (held : Scalar) (label : String)
      (plain : names.bitmask = false) (distinct : (names.entries.map (·.name)).Nodup)
      (trimmed : ∀ entry ∈ names.entries, Text.trim entry.name.toList = entry.name.toList)
      (labelled : held.label = some label) : Shows settings (.enumeration base names) held label

namespace IntType

variable {type : IntType} {n : Int}

theorem display_value (inside : type.contains n = true) : (type.value n).display = toString n := by
  obtain ⟨low, _⟩ := (type.contains_iff n).mp inside
  cases sign : type.signed with
  | true => simp [value, sign, Value.display]
  | false =>
    simp only [IntType.min, sign, Bool.false_eq_true, if_false] at low
    obtain ⟨m, rfl⟩ := Int.eq_ofNat_of_zero_le low
    simp only [value, sign, Bool.false_eq_true, if_false, Value.display, Int.toNat_natCast]
    rfl

end IntType

namespace ScalarType

variable {type : ScalarType} {settings : Settings} {held : Scalar} {text : String}

/-- What is shown is read as a value that is kept in the form that is held. -/
theorem Shows.parse (shows : type.Shows settings held text) (holds : type.Holds held)
    (single : settings.charset = .macRoman ∨ settings.charset = .windows1252) (path : Path) :
    ∃ value, TextEntry.parse type settings text = .ok value ∧
      type.accept value path = .ok held.value := by
  have admits := holds.value
  cases shows with
  | integer format held =>
    obtain ⟨n, inside, same⟩ := admits
    obtain ⟨low, high⟩ := IntType.word_bounds inside
    obtain ⟨value, read, integer⟩ := TextEntry.integer_toString low high
    rw [same, IntType.display_value inside]
    refine ⟨value, ?_, (accept_integer_iff rfl).mpr ⟨n, integer, inside, rfl⟩⟩
    simp only [TextEntry.parse, TextEntry.trim_toString, read]
  | boolean wide held =>
    obtain ⟨b, same⟩ := admits
    rw [same]
    refine ⟨.bool b, ?_, rfl⟩
    cases b <;> rfl
  | fixedString length held bytes text | pascalString held bytes text =>
    refine ⟨held.value, ?_, accept_of_admits admits path⟩
    simp only [TextEntry.parse, String.toList_ofList, Charset.encode?_decode single, text]
    rfl
  | number base names held others =>
    obtain ⟨n, inside, same⟩ := admits
    obtain ⟨low, high⟩ := IntType.word_bounds inside
    obtain ⟨value, read, integer⟩ := TextEntry.integer_toString low high
    rw [same, IntType.display_value inside] at others ⊢
    refine ⟨value, ?_, (accept_integer_iff rfl).mpr ⟨n, integer, inside, rfl⟩⟩
    simp only [TextEntry.parse, TextEntry.trim_toString, TextEntry.entryNamed?_eq_none others, read]
  | label base names held label plain distinct trimmed labelled =>
    obtain ⟨n, inside, same⟩ := admits
    have named : names.nameOf? n = some text := by
      have label := holds.label
      rw [labelled, same] at label
      simpa [ScalarType.label?, base.integer?_value n inside, NameTable.label?, plain] using label.symm
    obtain ⟨entry, found, rfl⟩ := Option.map_eq_some_iff.mp named
    have member := List.mem_of_find?_eq_some found
    obtain rfl : entry.value.toInt = n := by simpa using List.find?_some found
    rw [same]
    refine ⟨.int entry.value.toInt, ?_, (accept_integer_iff rfl).mpr ⟨_, rfl, inside, rfl⟩⟩
    simp only [TextEntry.parse, trimmed entry member, TextEntry.entryNamed?_of_mem distinct member]
    rfl

end ScalarType

namespace Record

variable {record : Record} {path : Path}

/-- In a record as it was decoded, what a scalar is shown as can be typed in again, and then nothing at
all changes. Counts alone are refused. -/
theorem setText_shown {template : Template} (formed : template.WellFormed) {settings : Settings}
    (single : settings.charset = .macRoman ∨ settings.charset = .windows1252) {bytes : Bytes}
    (decoded : decode template settings bytes = .ok record) {place : Place} {name : String}
    {type : ScalarType} {held : Scalar} (located : record.locate path = .ok place)
    (declared : place.field = some (.scalar name type)) (holder : place.node.scalar? = some held)
    {text : String} (shows : type.Shows settings held text) :
    record.setText settings path text = .ok (⟨path, .value held.value held.value⟩, record) ↔
      record.countedBy? path = none := by
  have laid := laidOut_of_decode decoded
  obtain ⟨rfl, _⟩ := decode_reads decoded
  constructor
  · intro done
    obtain ⟨_, _, _, _, _, _, _, done⟩ := setText_eq_ok.mp done
    obtain ⟨place, name, type, _, _, located, declared, free, _⟩ := setValue_eq_ok.mp done
    rw [countedBy?_scalar located declared, free]
  · intro free
    obtain ⟨_, _, same, holds⟩ := laid.scalar_of_locate formed located holder
    obtain ⟨rfl, rfl⟩ : _ = name ∧ _ = type := by
      simpa using same.symm.trans declared
    obtain ⟨value, parsed, accepted⟩ := shows.parse holds single path
    exact setText_eq_ok.mpr ⟨place, _, _, value, located, declared, parsed,
      laid.setValue_self formed located declared holder free accepted⟩

/-- A name, and a string with a bullet and a byte that was filled up. -/
theorem setText_shown_sample : ∃ record,
    decode Template.sample {} [1, 0, 0, 1, 0, 2, 0, 3, 0xA5, 0, 1, 65, 0, 7, 8] = .ok record ∧
      record.setText {} [.name "kind"] "point" =
        .ok (⟨[.name "kind"], .value (.uint 1) (.uint 1)⟩, record) ∧
      record.setText {} [.name "pen", .name "mode"] "•\x00" =
        .ok (⟨[.name "pen", .name "mode"], .value (.text [0xA5, 0]) (.text [0xA5, 0])⟩, record) := by
  obtain ⟨record, kind, mode, decoded, kindThere, kindDeclared, kindHeld, kindFree, modeThere,
      modeDeclared, modeHeld, modeFree⟩ : ∃ record kind mode,
      decode Template.sample {} [1, 0, 0, 1, 0, 2, 0, 3, 0xA5, 0, 1, 65, 0, 7, 8] = .ok record ∧
        record.locate [.name "kind"] = .ok kind ∧
        kind.field = some (.scalar "kind"
          (.enumeration ⟨false, .byte⟩ ⟨[⟨1, "point"⟩, ⟨2, "path"⟩], false⟩)) ∧
        kind.node.scalar? = some ⟨.enumeration, .uint 1, some "point", none⟩ ∧
        record.countedBy? [.name "kind"] = none ∧
        record.locate [.name "pen", .name "mode"] = .ok mode ∧
        mode.field = some (.scalar "mode" (.fixedString 2)) ∧
        mode.node.scalar? = some ⟨.fixedString, .text [0xA5, 0], none, none⟩ ∧
        record.countedBy? [.name "pen", .name "mode"] = none :=
    ⟨_, _, _, by cbv, by cbv, by cbv, by cbv, by cbv, by cbv, by cbv, by cbv, by cbv⟩
  have distinct : ["point", "path"].Nodup := by decide
  have trimmed : ∀ entry ∈ [(⟨1, "point"⟩ : EnumEntry), ⟨2, "path"⟩],
      Text.trim entry.name.toList = entry.name.toList := by
    simp only [List.forall_mem_cons]
    exact ⟨rfl, rfl, by simp⟩
  have name : ScalarType.Shows {} (.enumeration ⟨false, .byte⟩ ⟨[⟨1, "point"⟩, ⟨2, "path"⟩], false⟩)
      ⟨.enumeration, .uint 1, some "point", none⟩ "point" :=
    .label _ _ _ "point" rfl distinct trimmed rfl
  have bullet : ScalarType.Shows {} (.fixedString 2) ⟨.fixedString, .text [0xA5, 0], none, none⟩ "•\x00" :=
    .fixedString 2 _ [0xA5, 0] rfl
  exact ⟨record, decoded,
    (setText_shown Template.sample_wellFormed (.inl rfl) decoded kindThere kindDeclared kindHeld
      name).mpr kindFree,
    (setText_shown Template.sample_wellFormed (.inl rfl) decoded modeThere modeDeclared modeHeld
      bullet).mpr modeFree⟩

end Record
end ResourceTemplate
