import ResourceTemplate.Proofs.EncodedPlaces

/-! Items that forbid saving. Where no condition tests a count, an edited record can be written
unless a zero-terminated list that is present holds an item whose bytes start like the list's
end; the error then names such an item. No other check of the encoder can fail. -/
namespace ResourceTemplate

/-- The item that is found first has a forbidden item within, or it is forbidden itself. -/
theorem firstZero_eq_some {within : Node → Option Path} {starts : Node → Bool} {index : Nat}
    {nodes : List Node} {way : Path} (found : firstZero within starts index nodes = some way) :
    ∃ position item, nodes[position]? = some item ∧
      ((∃ inner, within item = some inner ∧ way = .index (index + position) :: inner) ∨
        within item = none ∧ starts item = true ∧ way = [.index (index + position)]) := by
  induction nodes generalizing index with
  | nil => nomatch found
  | cons item nodes ih =>
    rw [firstZero] at found
    cases inside : within item with
    | some inner =>
      have same : .index index :: inner = way := by simpa [inside] using found
      exact ⟨0, item, rfl, .inl ⟨inner, inside, same.symm⟩⟩
    | none =>
      rw [inside, Option.map_none, Option.none_or] at found
      split at found
      · next zero =>
        have same : [.index index] = way := by simpa using found
        exact ⟨0, item, rfl, .inr ⟨inside, zero, same.symm⟩⟩
      · obtain ⟨position, other, there, found⟩ := ih found
        refine ⟨position + 1, other, there, ?_⟩
        rwa [Nat.add_right_comm] at found

namespace Record

/-- The field lists that encoding comes to, with the nodes that hold them: those of the record, of
its composites and of the items of groups that are present. -/
inductive Reached (record : Record) : (fields : List Field) → (parent : Node) → Path → Prop where
  | root : Reached record record.template record.root Path.root
  | composite {fields inner : List Field} {parent node : Node} {path : Path} {name : String} :
    Reached record fields parent path →
      (.composite name inner, node) ∈ fields.zip parent.children →
      Reached record inner node (path.child name)
  | item {fields inner : List Field} {parent node item : Node} {path : Path} {name : String}
      {repetition : Repetition} {condition : Option Condition} {index : Nat} :
    Reached record fields parent path →
      (.group name inner repetition condition, node) ∈ fields.zip parent.children →
      isPresent condition parent.children (path.child name) node.offset = .ok true →
      node.children[index]? = some item →
      Reached record inner item ((path.child name).index index)

/-- The item at a path belongs to a zero-terminated list that is present, and its bytes start with
the zero byte that would end the list. -/
inductive Forbidden (record : Record) : Path → Prop where
  | item {fields inner : List Field} {parent node item : Node} {path : Path} {name : String}
      {condition : Option Condition} {index : Nat} {bytes : Bytes} :
    Reached record fields parent path →
      (.group name inner .zeroTerminated condition, node) ∈ fields.zip parent.children →
      isPresent condition parent.children (path.child name) node.offset = .ok true →
      node.children[index]? = some item →
      encodeLevel inner item.children ((path.child name).index index) item.offset = .ok bytes →
      bytes.head? = some 0 →
      Forbidden record ((path.child name).index index)

variable {record : Record} {fields : List Field} {parent : Node} {path : Path}

theorem Reached.level (reached : record.Reached fields parent path) :
    record.Level fields parent path := by
  induction reached with
  | root => exact .root
  | composite _ member ih => exact .composite ih member
  | item _ member _ there ih => exact .item ih member there

/-- A group that holds items is present. -/
theorem isPresent_of_item {siblings : List Node} {name : String} {inner : List Field}
    {repetition : Repetition} {condition : Option Condition} {node item : Node} {index : Nat}
    (settled : (Field.group name inner repetition condition).Settled siblings node)
    (there : node.children[index]? = some item) (path : Path) (offset : Nat) :
    isPresent condition siblings path offset = .ok true :=
  isPresent_eq_ok.mpr (settled.filled.present (List.mem_of_getElem? there))

mutual
/-- The way that a tree gives to its first forbidden item leads to one. -/
theorem forbidden_of_zeroItem? :
    (field : Field) → field.Nested (·.check = .ok ()) → (fields : List Field) → (parent : Node) →
      (path : Path) → record.Reached fields parent path → Settled fields parent.children →
      (start : Nat) → (node : Node) → (field, node) ∈ fields.zip parent.children →
      field.Laid Settled start node → (way : Path) → field.zeroItem? node = some way →
      record.Forbidden (path.child field.name ++ way)
  | .scalar .., _, _, _, _, _, _, _, _, _, _, _, found => by
    nomatch found
  | .composite name inner, ⟨checked, nested⟩, _, _, path, reached, _, _, node, member, laid, way,
      found => by
    have below := laid.level
    exact forbidden_of_zeroItems? inner nested inner node (path.child name) (.composite reached member)
      below.1 node.offset node.children node.stop (fun _ member => member) below.2 way found
  | .group name inner repetition condition, ⟨checked, nested⟩, fields, parent, path, reached, settled,
      start, node, member, laid, way, found => by
    obtain ⟨index, item, there, found⟩ := firstZero_eq_some found
    rw [Nat.zero_add] at found
    have held := List.mem_of_getElem? there
    have present := isPresent_of_item (settled _ member) there (path.child name) node.offset
    obtain ⟨_, place, length, children, rfl, below⟩ :
        ∃ (position start length : Nat) (children : List Node),
          item = .branch (toString position) ⟨start, length⟩ .item children ∧
            Field.LevelLaid Settled inner start children (start + length) := by
      rcases laid.items with ⟨empty, _⟩ | ⟨last, items, _⟩
      · simp [empty] at held
      · exact items.member held
    -- Either an item further in is forbidden, or none is and this item itself starts with a zero.
    rcases found with ⟨rest, within, rfl⟩ | ⟨within, starts, rfl⟩
    · have deeper := forbidden_of_zeroItems? inner nested inner _ ((path.child name).index index)
        (.item reached member present there) below.1 place children _ (fun _ member => member) below.2
        rest within
      simpa [Path.index, Field.name] using deeper
    · obtain ⟨rfl, zero⟩ : repetition = .zeroTerminated ∧
          (Field.bytesAll inner children).head? = some 0 := by simpa using starts
      have bytes := encodeLevel_eq checked nested below ((path.child name).index index) place
      rw [show Field.zeroItems? inner children = none from within] at bytes
      exact .item reached member present there bytes zero

theorem forbidden_of_zeroItems? :
    (part : List Field) → Field.AllNested (·.check = .ok ()) part → (fields : List Field) →
      (parent : Node) → (path : Path) → record.Reached fields parent path →
      Settled fields parent.children → (start : Nat) → (nodes : List Node) → (stop : Nat) →
      (∀ pair ∈ part.zip nodes, pair ∈ fields.zip parent.children) →
      Field.LaidAll Settled part start nodes stop → (way : Path) →
      Field.zeroItems? part nodes = some way → record.Forbidden (path ++ way)
  | [], _, _, _, _, _, _, _, _, _, _, ⟨empty, _⟩, _, found => by
    subst empty
    nomatch found
  | field :: part, ⟨formed, nested⟩, fields, parent, path, reached, settled, start, _, stop, among,
      ⟨node, rest, same, first, follow⟩, way, found => by
    subst same
    rw [List.zip_cons_cons, List.forall_mem_cons] at among
    rw [Field.zeroItems?] at found
    cases here : field.zeroItem? node with
    | some within =>
      have same : .name field.name :: within = way := by simpa [here] using found
      have deeper := forbidden_of_zeroItem? field formed fields parent path reached settled start node
        among.1 first within here
      simpa [Path.child, same] using deeper
    | none =>
      have later : Field.zeroItems? part rest = some way := by simpa [here] using found
      exact forbidden_of_zeroItems? part nested fields parent path reached settled node.stop rest stop
        among.2 follow way later
end

/-- A record with a forbidden item is not written. -/
theorem Forbidden.not_written (formed : record.template.WellFormed) (laid : record.LaidOut)
    (forbidden : record.Forbidden path) (bytes : Bytes) : record.encode ≠ .ok bytes := by
  intro encoded
  cases forbidden with
  | @item fields inner parent node item path name condition index first reached member present there
      begins zero =>
    have around := reached.level.standing formed laid encoded
    have clean := Field.zeroItem?_of_all around.clean member
    rw [Field.zeroItem?, firstZero_eq_none] at clean
    obtain ⟨within, starts⟩ := clean item (List.mem_of_getElem? there)
    have own := (Level.item reached.level member there).standing formed laid encoded
    rw [encodeLevel_eq own.checked own.nested own.level, within] at begins
    obtain rfl : Field.bytesAll inner item.children = first := (written_eq_ok.mp begins).2
    simp [zero] at starts

/-- A record of a run is written unless it holds a forbidden item, and then the error is that this
item is refused. -/
theorem encode_fails_iff {template : Template} (formed : template.WellFormed)
    (untested : template.Everywhere Template.CountsUntested) {settings : Settings}
    (reachable : Reachable template settings record) :
    ((∃ error, record.encode = .error error) ↔ ∃ path, record.Forbidden path) ∧
      ∀ error, record.encode = .error error →
        ∃ path, record.Forbidden path ∧ error = .refused path .zeroItem := by
  obtain ⟨rfl, laid⟩ := reachable.laid formed
  have laid := laid.laidOut untested
  have named : ∀ error, record.encode = .error error →
      ∃ path, record.Forbidden path ∧ error = .refused path .zeroItem := by
    intro error failed
    rw [laid.encode_eq formed] at failed
    cases zero : Field.zeroItems? record.template record.fields with
    | none =>
      rw [zero] at failed
      nomatch failed
    | some way =>
      have forbidden := forbidden_of_zeroItems? record.template formed.2 record.template record.root
        Path.root .root laid.kept 0 record.fields record.laidOut (fun _ member => member) laid.laid
        way zero
      rw [zero] at failed
      exact ⟨_, forbidden, (Except.error.inj failed).symm⟩
  refine ⟨⟨?_, ?_⟩, named⟩
  · rintro ⟨error, failed⟩
    obtain ⟨path, forbidden, _⟩ := named error failed
    exact ⟨path, forbidden⟩
  · rintro ⟨path, forbidden⟩
    cases encoded : record.encode with
    | ok bytes => exact absurd encoded (forbidden.not_written formed laid bytes)
    | error error => exact ⟨error, rfl⟩

theorem encode_fails_iff_sample : ∃ record, Reachable Template.sample {} record ∧
    record.encode = .error (.refused [.name "names", .index 0] .zeroItem) ∧
      record.Forbidden [.name "names", .index 0] := by
  obtain ⟨first, decoded, failed⟩ : ∃ record,
      decode Template.sample {} [1, 0, 0, 1, 0, 2, 0, 3, 97, 98, 1, 65, 0, 7, 8] = .ok record ∧
        (record.attempt {} (.insertItem [.name "names"] 0)).encode =
          .error (.refused [.name "names", .index 0] .zeroItem) :=
    ⟨_, by cbv, by cbv⟩
  have reachable := Reachable.edited {} (.insertItem [.name "names"] 0) (.decoded decoded)
  obtain ⟨path, forbidden, same⟩ :=
    (encode_fails_iff Template.sample_wellFormed (by decide +kernel) reachable).2 _ failed
  obtain ⟨rfl, _⟩ := CodecError.refused.inj same
  exact ⟨_, reachable, failed, forbidden⟩

end Record
end ResourceTemplate
