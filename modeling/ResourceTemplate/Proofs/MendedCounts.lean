import ResourceTemplate.Proofs.ItemChanges
import ResourceTemplate.Proofs.MovedTrees

/-! Counts that are set right. Whatever count stands in the count field of a settled group, settling
puts back the one that it held, and no other field can tell. -/
namespace ResourceTemplate

section Integer

variable {type : ScalarType} {held old : Scalar} {n : Int}

/-- The integer that a scalar holds is accepted as the value of the scalar. -/
theorem ScalarType.accept_integer (holds : type.Holds held) (integer : held.value.integer? = some n)
    (path : Path) : type.accept (.int n) path = .ok held.value := by
  have admits := holds.value
  cases type with
  | int format | enumeration format _ =>
    obtain ⟨m, inside, same⟩ := admits
    rw [same, format.integer?_value m inside] at integer
    obtain rfl := Option.some.inj integer
    exact (ScalarType.accept_integer_iff rfl).mpr ⟨m, rfl, inside, same⟩
  | fixedString | pascalString | boolean =>
    obtain ⟨_, same⟩ := admits
    simp [same, Value.integer?] at integer

/-- A scalar that holds an integer is what a count of it would be. -/
theorem ScalarType.eq_of_integer (holds : type.Holds held)
    (integer : held.value.integer? = some n) :
    held = ⟨type.tag, held.value, type.label? held.value, none⟩ := by
  obtain ⟨tag, value, label, raw⟩ := held
  obtain ⟨rfl, admits, labelled, keeps⟩ := holds
  dsimp only at admits labelled integer ⊢
  subst labelled
  cases type with
  | int | enumeration =>
    obtain rfl : raw = none := keeps
    rfl
  | fixedString | pascalString | boolean =>
    obtain ⟨_, same⟩ := admits
    simp [same, Value.integer?] at integer

theorem ScalarType.integer_inj (holds : type.Holds held) (integer : held.value.integer? = some n)
    (others : type.Holds old) (same : old.value.integer? = some n) : old = held := by
  have equal : old.value = held.value :=
    Except.ok.inj ((accept_integer others same Path.root).symm.trans
      (accept_integer holds integer Path.root))
  rw [eq_of_integer holds integer, eq_of_integer others same, equal]

end Integer

section Mended

variable {fields : List Field} {nodes : List Node} {position : Nat} {name : String}
  {type : ScalarType} {span : Span} {old held : Scalar} {parent : Path}

/-- A wrong count is set right when the other counts are held. -/
theorem syncCounts_mended (checked : Template.check fields = .ok ())
    (shaped : Field.ShapedAll fields nodes)
    (declared : fields[position]? = some (.scalar name type))
    (there : nodes[position]? = some (.scalar name span old)) (before : type.Holds old)
    (holds : type.Holds held) {counts : List (String × Int)}
    (every : ∀ entry ∈ counts, siblingInteger? nodes entry.1 = some entry.2)
    (called : name ∈ counts.map Prod.fst) :
    syncCounts fields parent (nodes.set position (.scalar name span held)) counts = .ok nodes := by
  have named : Template.position? fields name = some position :=
    Template.position?_eq_some (Template.names_nodup checked) declared
  have inside := (List.getElem?_eq_some_iff.mp there).1
  have reshaped := shaped.set declared ⟨span, held, rfl, holds⟩
  induction counts with
  | nil => contradiction
  | cons entry counts ih =>
    obtain ⟨counter, n⟩ := entry
    obtain ⟨first, every⟩ := List.forall_mem_cons.mp every
    rw [syncCounts, List.foldlM_cons]
    by_cases here : counter = name
    · subst here
      have integer : old.value.integer? = some n := by
        rw [← first, siblingInteger?, sibling?_position shaped.names named there, Node.value?_scalar,
          Option.bind_some]
      have mended : syncCount fields parent (nodes.set position (.scalar counter span held))
          (counter, n) = .ok nodes := by
        refine syncCount_eq_ok.mpr ⟨position, _, named, List.getElem?_set_self inside, ?_⟩
        by_cases same : held.value.integer? = some n
        · obtain rfl := ScalarType.integer_inj before integer holds same
          exact .inl ⟨same, (set_of_getElem? there).symm⟩
        · refine .inr ⟨same, type, old.value, declared, ScalarType.accept_integer before integer _, ?_⟩
          rw [List.set_set, ← ScalarType.eq_of_integer before integer]
          exact (set_of_getElem? there).symm
      rw [mended]
      exact syncCounts_eq shaped.names every
    · have kept : siblingInteger? (nodes.set position (.scalar name span held)) counter = some n := by
        rw [siblingInteger?, sibling?_set_ne there (.scalar name span held) rfl here]
        exact first
      rw [syncCount_eq reshaped.names kept]
      exact ih every (by simpa [Ne.symm here] using called)

/-- A group is settled alike where its condition is decided alike. -/
theorem settleField_before {field : Field} {node again : Node} {front others : List Node} {path : Path}
    {start : Nat} (verdicts : verdict? field.condition? others = verdict? field.condition? front)
    (settled : settleField field node front path start = .ok again) :
    settleField field node others path start = .ok again := by
  cases field with
  | scalar => exact settled
  | composite => exact settled
  | group name inner repetition condition =>
    obtain ⟨_, _, _, _, rfl⟩ := branch_of_settled settled nofun
    have same : verdict? condition others = verdict? condition front := verdicts
    rw [settleField_group] at settled ⊢
    rwa [same]

/-- Fields whose conditions do not test an earlier scalar are settled alike with another one. -/
theorem settleFields_beside {front result : List Node} {node : Node} {start stop : Nat}
    (there : front[position]? = some node) (again : Node) (named : again.name = node.name)
    (untested : ∀ field ∈ fields, ¬ field.Tests node.name)
    (settled : settleFields fields nodes front parent start = .ok (result, stop)) :
    settleFields fields nodes (front.set position again) parent start = .ok (result, stop) := by
  induction fields generalizing nodes front start result with
  | nil => exact settled
  | cons field fields ih =>
    cases nodes with
    | nil => exact settled
    | cons head nodes =>
      obtain ⟨first, rest, alone, follow, rfl⟩ := settleFields_cons.mp settled
      obtain ⟨free, untested⟩ := List.forall_mem_cons.mp untested
      have inside := (List.getElem?_eq_some_iff.mp there).1
      have follow := ih (List.getElem?_append_left inside ▸ there) untested follow
      rw [List.set_append_left _ _ inside] at follow
      exact settleFields_cons.mpr ⟨first, rest,
        settleField_before (verdict?_of_untested there named free) alone, follow, rfl⟩

/-- A scalar that no condition tests is settled as it is, and the other fields as with the old one. -/
theorem settleFields_revalued {front result : List Node} {start stop : Nat} (held : Scalar)
    (declared : fields[position]? = some (.scalar name type))
    (there : nodes[position]? = some (.scalar name span old))
    (sized : type.encodedLength held.value = type.encodedLength old.value)
    (untested : ∀ field ∈ fields, ¬ field.Tests name)
    (settled : settleFields fields nodes front parent start = .ok (result, stop)) :
    ∃ place, result[position]? = some (.scalar name place old) ∧
      settleFields fields (nodes.set position (.scalar name span held)) front parent start =
        .ok (result.set position (.scalar name place held), stop) := by
  induction fields generalizing nodes front position start result with
  | nil => simp at declared
  | cons field fields ih =>
    cases nodes with
    | nil => simp at there
    | cons node nodes =>
      obtain ⟨again, rest, alone, follow, rfl⟩ := settleFields_cons.mp settled
      obtain ⟨_, later⟩ := List.forall_mem_cons.mp untested
      cases position with
      | zero =>
        obtain ⟨rfl, rfl⟩ : field = .scalar name type ∧ node = .scalar name span old := by
          simpa using And.intro declared there
        obtain rfl := pure_eq_ok.mp alone
        have there : (front ++ [.scalar name ⟨start, type.encodedLength old.value⟩ old])[front.length]? =
            some (.scalar name ⟨start, type.encodedLength old.value⟩ old) := List.getElem?_concat_length
        have beside := settleFields_beside there
          (.scalar name ⟨start, type.encodedLength old.value⟩ held) rfl later follow
        rw [List.set_append_right _ _ le_rfl, Nat.sub_self, List.set_cons_zero] at beside
        refine ⟨_, rfl, settleFields_cons.mpr ⟨_, rest, ?_, beside, rfl⟩⟩
        rw [← sized]
        rfl
      | succ position =>
        obtain ⟨place, holder, follow⟩ := ih (by simpa using declared) (by simpa using there) later
          follow
        exact ⟨place, holder, settleFields_cons.mpr ⟨again, _, alone, follow, rfl⟩⟩

/-- Groups that are decided alike call for the same counts. -/
theorem calledFor_congr {siblings others : List Node}
    (verdicts : ∀ field ∈ fields,
      verdict? field.condition? others = verdict? field.condition? siblings) :
    calledFor fields nodes others = calledFor fields nodes siblings := by
  unfold calledFor
  apply List.flatMap_congr
  rintro ⟨field, node⟩ member
  have verdict := verdicts field (List.of_mem_zip member).1
  match field with
  | .group _ _ (.counted _ _) condition =>
    have same : verdict? condition others = verdict? condition siblings := verdict
    simp only [same]
  | .group _ _ (.fixed _) _ | .group _ _ .untilEnd _ | .group _ _ .zeroTerminated _ => rfl
  | .scalar .. | .composite .. => rfl

/-- No count is called for by a scalar. -/
theorem calledFor_set (declared : fields[position]? = some (.scalar name type)) (new : Node)
    (siblings : List Node) :
    calledFor fields (nodes.set position new) siblings = calledFor fields nodes siblings := by
  induction fields generalizing nodes position with
  | nil => rfl
  | cons field fields ih =>
    cases nodes with
    | nil => rfl
    | cons node nodes =>
      cases position with
      | zero =>
        obtain rfl : field = .scalar name type := by simpa using declared
        rfl
      | succ position => exact congrArg (_ ++ ·) (ih (by simpa using declared))

/-- Whatever count stands in the count field of a group that is present, the level is settled as with
the count that it held. -/
theorem settlesAlike_count (checked : Template.check fields = .ok ())
    (nested : Field.AllNested (·.check = .ok ()) fields) (untested : Template.CountsUntested fields)
    {origin last place : Nat} (level : Field.LevelLaid Settled fields origin nodes last)
    {group : String} {inner : List Field} {zeroBased : Bool} {condition : Option Condition}
    (caller : fields[place]? = some (.group group inner (.counted name zeroBased) condition))
    (present : verdict? condition nodes = some true)
    (declared : fields[position]? = some (.scalar name type))
    (there : nodes[position]? = some (.scalar name span old)) (holds : type.Holds held)
    (sized : type ≠ .pascalString) :
    SettlesAlike fields (nodes.set position (.scalar name span held)) nodes := by
  intro parent start
  have counter : name ∈ fields.filterMap Field.countField? :=
    List.mem_filterMap.mpr ⟨_, List.mem_of_getElem? caller, rfl⟩
  have free (field : Field) (among : field ∈ fields) : ¬ field.Tests name := by
    rintro ⟨tested, conditional, rfl⟩
    exact untested field among ⟨tested, conditional, counter⟩
  have shaped := Field.LaidAll.shaped _ _ _ _ level.2
  have reshaped := shaped.set declared ⟨span, held, rfl, holds⟩
  obtain ⟨result, stop, settled, same, _⟩ := settleFields_kept fields nested [] checked origin [] origin
    ⟨rfl, rfl⟩ nodes last level.2 level.1 [] rfl parent start
  obtain ⟨final, holder, revalued⟩ := settleFields_revalued held declared there
    (by rw [ScalarType.encodedLength_eq sized, ScalarType.encodedLength_eq sized]) free settled
  have kept : Settled fields result := level.1.of_contents same.symm
  obtain ⟨laid, _⟩ := settleFields_lays fields nested nodes shaped [] parent start _ _ settled
  obtain ⟨_, filled⟩ := settleFields_lays fields nested _ reshaped [] parent start _ _ revalued
  -- The counts that are called for are those of the level as it was.
  have called : calledFor fields (result.set position (.scalar name final held))
      (result.set position (.scalar name final held)) = calledFor fields result result := by
    rw [calledFor_set declared]
    exact calledFor_congr fun field among => verdict?_of_untested holder rfl (free field among)
  have among : name ∈ (calledFor fields result result).map Prod.fst := by
    obtain ⟨node, grouped⟩ := laid.getElem? caller
    exact List.mem_map.mpr ⟨(name, _), mem_calledFor.mpr ⟨group, inner, zeroBased, condition, node,
      mem_zip_of_getElem? caller grouped,
      (verdict?_congr (Node.faces_of_contents same) condition).trans present, rfl⟩, rfl⟩
  obtain ⟨_, _, made, before⟩ := laid.pair (mem_zip_of_getElem? declared holder)
  obtain ⟨_, _, rfl⟩ := Node.scalar.inj made
  have restored : settleLevel fields nodes parent start = .ok (result, stop) :=
    settleWith_settled kept shaped.names laid.names settled
  rw [restored, settleLevel, settleWith_eq reshaped.names revalued (decided_of_filled filled), called,
    syncCounts_mended checked (Field.LaidAll.shaped _ _ _ _ laid) declared holder before holds kept.held
      among]
  rfl

end Mended
end ResourceTemplate
