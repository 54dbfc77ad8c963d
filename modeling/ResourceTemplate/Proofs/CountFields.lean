import ResourceTemplate.Proofs.FieldOrder
import ResourceTemplate.Proofs.TreeLayout
import ResourceTemplate.Record.Layout

/-! Setting the count fields of a field list. Only the values of count fields change, each to the
number that its group calls for; names, places and all other nodes stay as they were. -/
namespace ResourceTemplate

section Positions

variable {fields : List Field} {nodes : List Node} {name : String} {position : Nat} {node : Node}

/-- A position that is found by name in the fields is that of the node of this name. -/
theorem find?_of_position (names : nodes.map Node.name = fields.map Field.name)
    (found : Template.position? fields name = some position) (there : nodes[position]? = some node) :
    nodes.find? (·.name == name) = some node := by
  induction fields generalizing nodes position with
  | nil => simp [Template.position?] at found
  | cons field fields ih =>
    cases nodes with
    | nil => simp at there
    | cons first nodes =>
      obtain ⟨same, names⟩ : first.name = field.name ∧ nodes.map Node.name = fields.map Field.name := by
        simpa using names
      by_cases here : field.name = name
      · obtain rfl : position = 0 := by simpa [Template.position?, List.findIdx?_cons, here] using found.symm
        obtain rfl : first = node := by simpa using there
        simp [same, here]
      · obtain ⟨later, below, rfl⟩ : ∃ later, Template.position? fields name = some later ∧
            later + 1 = position := by
          simpa [Template.position?, List.findIdx?_cons, here] using found
        simpa [same, here] using ih names below (by simpa using there)

theorem field_of_position (found : Template.position? fields name = some position) :
    ∃ field, fields[position]? = some field ∧ field.name = name := by
  obtain ⟨inside, same, _⟩ := List.findIdx?_eq_some_iff_getElem.mp found
  exact ⟨fields[position], List.getElem?_eq_getElem inside, by simpa using same⟩

/-- Where a declared name stands there is a node. -/
theorem node_of_declared (names : nodes.map Node.name = fields.map Field.name)
    (named : name ∈ fields.map Field.name) :
    ∃ position node, Template.position? fields name = some position ∧
      nodes[position]? = some node := by
  cases found : Template.position? fields name with
  | none =>
    obtain ⟨field, member, same⟩ := List.mem_map.mp named
    simpa [same] using List.findIdx?_eq_none_iff.mp found field member
  | some position =>
    obtain ⟨field, declared, _⟩ := field_of_position found
    have inside : position < nodes.length := by
      rw [← List.length_map (f := Node.name), names, List.length_map]
      exact (List.getElem?_eq_some_iff.mp declared).1
    exact ⟨position, nodes[position], rfl, List.getElem?_eq_getElem inside⟩

/-- A node is paired with the field in its position. -/
theorem mem_zip_of_getElem? {field : Field} (declared : fields[position]? = some field)
    (there : nodes[position]? = some node) : (field, node) ∈ fields.zip nodes :=
  List.mem_of_getElem? (List.getElem?_zip_eq_some.mpr ⟨declared, there⟩)

end Positions

def Field.Recounted (counts : List (String × Int)) (field : Field) (node again : Node) : Prop :=
  again = node ∨ ∃ name type span old held n,
    field = .scalar name type ∧ type ≠ .pascalString ∧ (name, n) ∈ counts ∧
    node = .scalar name span old ∧ again = .scalar name span held ∧ type.Holds held ∧
    held.value.integer? = some n

/-- Every node of a field list is recounted by its field. -/
inductive Recounted (counts : List (String × Int)) : List Field → (nodes again : List Node) → Prop where
  | nil : Recounted counts [] [] []
  | cons {field : Field} {fields : List Field} {node again : Node} {nodes rest : List Node} :
    field.Recounted counts node again → Recounted counts fields nodes rest →
      Recounted counts (field :: fields) (node :: nodes) (again :: rest)

section Recounted

variable {counts : List (String × Int)} {field : Field} {fields : List Field}
  {node again : Node} {nodes rest last : List Node}

theorem Field.Recounted.trans {final : Node} (first : field.Recounted counts node again)
    (second : field.Recounted counts again final) : field.Recounted counts node final := by
  rcases second with rfl | ⟨name, type, span, old, held, n, declared, sized, counted, same, made⟩
  · exact first
  · rcases first with rfl | ⟨_, _, _, old, _, _, _, _, _, rfl, kept, _⟩
    · exact .inr ⟨name, type, span, old, held, n, declared, sized, counted, same, made⟩
    · obtain ⟨rfl, rfl, _⟩ := Node.scalar.inj (kept.symm.trans same)
      exact .inr ⟨_, type, _, old, held, n, declared, sized, counted, rfl, made⟩

theorem Field.Recounted.laid {rule : LevelRule} {start : Nat}
    (recounted : field.Recounted counts node again) (laid : field.Laid rule start node) :
    field.Laid rule start again ∧ again.stop = node.stop := by
  rcases recounted with rfl |
    ⟨name, type, span, old, held, n, rfl, sized, _, rfl, rfl, holds, _⟩
  · exact ⟨laid, rfl⟩
  · obtain ⟨_, same, _⟩ := laid
    obtain ⟨_, rfl, rfl⟩ := Node.scalar.inj same
    refine ⟨⟨held, ?_, holds⟩, rfl⟩
    rw [ScalarType.encodedLength_eq sized, ScalarType.encodedLength_eq sized]

theorem Recounted.refl (names : nodes.map Node.name = fields.map Field.name) :
    Recounted counts fields nodes nodes := by
  induction fields generalizing nodes with
  | nil =>
    obtain rfl : nodes = [] := by simpa using names
    exact .nil
  | cons field fields ih =>
    cases nodes with
    | nil => simp at names
    | cons node nodes => exact .cons (.inl rfl) (ih (List.cons.inj names).2)

theorem Recounted.mono {more : List (String × Int)} (among : counts ⊆ more)
    (recounted : Recounted counts fields nodes rest) : Recounted more fields nodes rest := by
  induction recounted with
  | nil => exact .nil
  | cons head _ ih =>
    refine .cons (head.imp_right ?_) ih
    rintro ⟨name, type, span, old, held, n, declared, sized, counted, made⟩
    exact ⟨name, type, span, old, held, n, declared, sized, among counted, made⟩

theorem Recounted.trans (first : Recounted counts fields nodes rest)
    (second : Recounted counts fields rest last) : Recounted counts fields nodes last := by
  induction first generalizing last with
  | nil => exact second
  | cons head _ ih =>
    cases second with
    | cons next follow => exact .cons (head.trans next) (ih follow)

/-- Count fields take up as many bytes with one count as with another. -/
theorem Recounted.laid {rule : LevelRule} {start stop : Nat}
    (recounted : Recounted counts fields nodes rest)
    (laid : Field.LaidAll rule fields start nodes stop) :
    Field.LaidAll rule fields start rest stop := by
  induction recounted generalizing start with
  | nil => exact laid
  | cons head _ ih =>
    obtain ⟨node, nodes, same, first, follow⟩ := laid
    obtain ⟨rfl, rfl⟩ := List.cons.inj same
    obtain ⟨first, stop⟩ := head.laid first
    exact ⟨_, _, rfl, first, stop ▸ ih follow⟩

/-- What has no count is referred to as before. -/
theorem Recounted.sibling? (recounted : Recounted counts fields nodes rest) {name : String}
    (free : name ∉ counts.map Prod.fst) :
    ResourceTemplate.sibling? rest name = ResourceTemplate.sibling? nodes name := by
  induction recounted with
  | nil => rfl
  | @cons _ _ _ again _ _ head _ ih =>
    rcases head with rfl | ⟨other, _, _, _, _, n, _, _, counted, rfl, rfl, _⟩
    · by_cases here : again.name = name
      · simp [ResourceTemplate.sibling?, here]
      · simpa [ResourceTemplate.sibling?, here] using ih
    · have apart : other ≠ name := fun same =>
        free (same ▸ List.mem_map_of_mem (f := Prod.fst) counted)
      simpa [ResourceTemplate.sibling?, apart] using ih

/-- Branches are not touched. -/
theorem Recounted.branch (recounted : Recounted counts fields nodes rest)
    (member : (field, node) ∈ fields.zip rest) (branch : node.scalar? = none) :
    (field, node) ∈ fields.zip nodes := by
  induction recounted with
  | nil => simp at member
  | cons kept _ ih =>
    rcases List.mem_cons.mp member with same | member
    · obtain ⟨rfl, rfl⟩ := Prod.mk.inj same
      rcases kept with rfl | ⟨_, _, _, _, _, _, _, _, _, _, rfl, _⟩
      · exact List.mem_cons_self
      · nomatch branch
    · exact List.mem_cons_of_mem _ (ih member)

/-- Exchanging the node at a position is a recount when it is one there. -/
theorem Recounted.set (names : nodes.map Node.name = fields.map Field.name) {position : Nat}
    (declared : fields[position]? = some field) (there : nodes[position]? = some node)
    (recounted : field.Recounted counts node again) :
    Recounted counts fields nodes (nodes.set position again) := by
  induction fields generalizing nodes position with
  | nil => simp at declared
  | cons first fields ih =>
    cases nodes with
    | nil => simp at there
    | cons head nodes =>
      have names := (List.cons.inj names).2
      cases position with
      | zero =>
        obtain ⟨rfl, rfl⟩ : first = field ∧ head = node := by simpa using And.intro declared there
        exact .cons recounted (.refl names)
      | succ position =>
        exact .cons (.inl rfl) (ih names (by simpa using declared) (by simpa using there))

end Recounted

section Sync

variable {rule : LevelRule} {fields : List Field} {nodes again : List Node} {parent : Path}
  {counts : List (String × Int)} {start stop : Nat}

/-- A count field holds its count already, or a form of it that its type accepts is put there. -/
theorem syncCount_eq_ok {name : String} {n : Int} :
    syncCount fields parent nodes (name, n) = .ok again ↔
      ∃ position node, Template.position? fields name = some position ∧ nodes[position]? = some node ∧
        (node.value?.bind Value.integer? = some n ∧ again = nodes ∨
          node.value?.bind Value.integer? ≠ some n ∧
            ∃ type value, fields[position]? = some (.scalar name type) ∧
              type.accept (.int n) (parent.child name) = .ok value ∧
              again = nodes.set position
                (.scalar node.name node.span ⟨type.tag, value, type.label? value, none⟩)) := by
  unfold syncCount
  dsimp only
  cases found : Template.position? fields name with
  | none => simp
  | some position =>
    obtain ⟨field, declared, same⟩ := field_of_position found
    cases there : nodes[position]? with
    | none => simp [there]
    | some node =>
      by_cases already : node.value?.bind Value.integer? = some n
      · simp [there, already, @eq_comm (List Node) again]
      · match field with
        | .composite .. | .group .. => simp [there, already, declared]
        | .scalar other type =>
          obtain rfl : other = name := same
          simp only [there, already, declared, if_false, Option.some.injEq, exists_and_left,
            exists_eq_left', false_and, false_or, ne_eq, not_false_eq_true, true_and,
            Field.scalar.injEq]
          cases type.accept (.int n) (parent.child other) <;> simp [@eq_comm (List Node) again]

def missed (counts : List (String × Int)) (nodes : List Node) : List (String × Int) :=
  counts.filter fun entry => siblingInteger? nodes entry.1 ≠ some entry.2

theorem mem_missed {entry : String × Int} :
    entry ∈ missed counts nodes ↔ entry ∈ counts ∧ siblingInteger? nodes entry.1 ≠ some entry.2 := by
  simp [missed]

theorem missed_names (counts : List (String × Int)) (nodes : List Node) :
    ((missed counts nodes).map Prod.fst).Sublist (counts.map Prod.fst) :=
  List.filter_sublist.map Prod.fst

/-- One count field is set to its count, or holds it already. -/
theorem syncCount_ok (laid : Field.LaidAll rule fields start nodes stop) {name : String} {n : Int}
    (synced : syncCount fields parent nodes (name, n) = .ok again) :
    Recounted (missed [(name, n)] nodes) fields nodes again ∧ siblingInteger? again name = some n := by
  have names := laid.names
  obtain ⟨position, node, found, there, ⟨already, rfl⟩ | ⟨other, type, value, declared, accepted, rfl⟩⟩ :=
    syncCount_eq_ok.mp synced
  · refine ⟨.refl names, ?_⟩
    rw [siblingInteger?, sibling?, find?_of_position names found there]
    exact already
  · have integer := ScalarType.integer?_of_accept accepted
    have sized : type ≠ .pascalString := by rintro rfl; contradiction
    have counted : (name, n) ∈ missed [(name, n)] nodes := by
      rw [mem_missed, siblingInteger?, sibling?, find?_of_position names found there]
      exact ⟨List.mem_singleton_self _, other⟩
    obtain ⟨place, old, rfl, _⟩ := laid.pair (mem_zip_of_getElem? declared there)
    have recounted := Recounted.set names declared there
      (.inr ⟨name, type, _, old, ⟨type.tag, value, type.label? value, none⟩, n, rfl, sized, counted, rfl,
        rfl, ⟨rfl, ScalarType.admits_of_accept accepted, rfl, type.keeps_none⟩, integer⟩)
    refine ⟨recounted, ?_⟩
    have holder := find?_of_position (recounted.laid laid).names found
      (List.getElem?_set_self (List.getElem?_eq_some_iff.mp there).1)
    rw [siblingInteger?, sibling?]
    exact (congrArg (fun node => (node.bind Node.value?).bind Value.integer?) holder).trans integer

/-- Counts of distinct fields are all held afterwards, and only those that were not held are set. -/
theorem syncCounts_ok (distinct : (counts.map Prod.fst).Nodup)
    (laid : Field.LaidAll rule fields start nodes stop)
    (synced : syncCounts fields parent nodes counts = .ok again) :
    Recounted (missed counts nodes) fields nodes again ∧
      ∀ entry ∈ counts, siblingInteger? again entry.1 = some entry.2 := by
  induction counts generalizing nodes with
  | nil =>
    obtain rfl := pure_eq_ok.mp synced
    exact ⟨.refl laid.names, by simp⟩
  | cons entry counts ih =>
    rw [syncCounts, List.foldlM_cons] at synced
    obtain ⟨middle, first, follow⟩ := bind_eq_ok.mp synced
    obtain ⟨fresh, distinct⟩ := List.nodup_cons.mp distinct
    obtain ⟨head, held⟩ := syncCount_ok laid first
    obtain ⟨tail, others⟩ := ih distinct (head.laid laid) follow
    have apart {name : String} (other : name ≠ entry.1) :
        siblingInteger? middle name = siblingInteger? nodes name := by
      have free : name ∉ (missed [entry] nodes).map Prod.fst := fun member =>
        other (List.mem_singleton.mp ((missed_names _ _).subset member))
      rw [siblingInteger?, head.sibling? free, siblingInteger?]
    have first : missed [entry] nodes ⊆ missed (entry :: counts) nodes :=
      List.filter_subset _ (by simp)
    have rest : missed counts middle ⊆ missed (entry :: counts) nodes := by
      intro other member
      obtain ⟨among, unheld⟩ := mem_missed.mp member
      have other : other.1 ≠ entry.1 := fun same => fresh (same ▸ List.mem_map_of_mem among)
      exact mem_missed.mpr ⟨List.mem_cons_of_mem _ among, apart other ▸ unheld⟩
    refine ⟨(head.mono first).trans (tail.mono rest), ?_⟩
    refine List.forall_mem_cons.mpr ⟨?_, others⟩
    have free : entry.1 ∉ (missed counts middle).map Prod.fst := fun member =>
      fresh ((missed_names _ _).subset member)
    rw [siblingInteger?, tail.sibling? free]
    exact held

/-- A count that is held already is not set again. -/
theorem syncCount_eq (names : nodes.map Node.name = fields.map Field.name) {name : String} {n : Int}
    (held : siblingInteger? nodes name = some n) :
    syncCount fields parent nodes (name, n) = .ok nodes := by
  obtain ⟨value, first, integer⟩ := Option.bind_eq_some_iff.mp held
  obtain ⟨node, holder, value⟩ := Option.bind_eq_some_iff.mp first
  have named : name ∈ fields.map Field.name := by
    rw [← names]
    exact List.mem_map.mpr ⟨node, List.mem_of_find?_eq_some holder,
      by simpa using List.find?_some holder⟩
  obtain ⟨position, other, found, there⟩ := node_of_declared names named
  obtain rfl : other = node :=
    Option.some.inj ((find?_of_position names found there).symm.trans holder)
  simp [syncCount, found, there, value, integer, pure, Except.pure]

theorem syncCounts_eq (names : nodes.map Node.name = fields.map Field.name)
    (held : ∀ entry ∈ counts, siblingInteger? nodes entry.1 = some entry.2) :
    syncCounts fields parent nodes counts = .ok nodes := by
  induction counts with
  | nil => rfl
  | cons entry counts ih =>
    obtain ⟨first, follow⟩ := List.forall_mem_cons.mp held
    rw [syncCounts, List.foldlM_cons, syncCount_eq names first]
    exact ih follow

/-- Groups call for counts of their own count fields only. -/
theorem calledFor_names (fields : List Field) (nodes siblings : List Node) :
    ((calledFor fields nodes siblings).map Prod.fst).Sublist (fields.filterMap Field.countField?) := by
  induction fields generalizing nodes with
  | nil => exact List.nil_sublist _
  | cons field fields ih =>
    cases nodes with
    | nil => exact List.nil_sublist _
    | cons node nodes =>
      have tail := ih nodes
      match field with
      | .scalar .. | .composite .. => exact tail
      | .group _ _ (.fixed _) _ | .group _ _ .untilEnd _ | .group _ _ .zeroTerminated _ => exact tail
      | .group name inner (.counted countField zeroBased) condition =>
        have counters : List.filterMap Field.countField?
            (.group name inner (.counted countField zeroBased) condition :: fields) =
              countField :: fields.filterMap Field.countField? := rfl
        have called : calledFor (.group name inner (.counted countField zeroBased) condition :: fields)
            (node :: nodes) siblings =
              (if verdict? condition siblings = some true then
                [(countField, countValue zeroBased node.children.length)] else []) ++
                calledFor fields nodes siblings := rfl
        rw [counters, called]
        by_cases holds : verdict? condition siblings = some true
        · rw [if_pos holds]
          exact tail.cons_cons countField
        · rw [if_neg holds]
          exact tail.cons countField

end Sync
end ResourceTemplate
