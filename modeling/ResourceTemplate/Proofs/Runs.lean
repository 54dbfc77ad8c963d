import ResourceTemplate.Proofs.RepeatedEdits

/-! Runs: a record is decoded and then edited, where edits that fail leave it as it was. Every
record of a run is laid out, and it is settled apart from the groups whose condition tests a
count. -/
namespace ResourceTemplate

theorem Template.Everywhere.imp {rule weaker : Template → Prop} {template : Template}
    (implies : ∀ fields, rule fields → weaker fields) (kept : template.Everywhere rule) :
    template.Everywhere weaker :=
  ⟨implies template kept.1, Field.AllNested.imp implies template kept.2⟩

namespace Record

def attempt (record : Record) (settings : Settings) (edit : Edit) : Record :=
  match record.apply settings edit with
  | .ok (_, edited) => edited
  | .error _ => record

/-- The records that a run comes to. Each edit brings the settings that it reads text with. -/
inductive Reachable (template : Template) (settings : Settings) : Record → Prop where
  | decoded {bytes : Bytes} {record : Record} :
    decode template settings bytes = .ok record → Reachable template settings record
  | edited {record : Record} (asked : Settings) (edit : Edit) :
    Reachable template settings record → Reachable template settings (record.attempt asked edit)

section Laid

variable {template : Template} {record result : Record}

theorem Laid.imp {rule weaker : LevelRule}
    (implies : record.template.Everywhere fun fields =>
      ∀ nodes, rule fields nodes → weaker fields nodes)
    (laid : record.Laid rule) : record.Laid weaker :=
  ⟨implies.1 _ laid.kept, Field.LaidAll.imp record.template implies.2 0 _ _ laid.laid⟩

theorem Laid.shaped {rule : LevelRule} (laid : record.Laid rule) :
    Field.ShapedAll record.template record.fields :=
  Field.LaidAll.shaped record.template 0 record.fields record.laidOut laid.laid

/-- An edit that is done lays the record out again. -/
theorem laid_of_apply {rule : LevelRule} {asked : Settings} {edit : Edit} {event : Event}
    (formed : record.template.WellFormed) (laid : record.Laid rule)
    (done : record.apply asked edit = .ok (event, result)) :
    result.template = record.template ∧ result.trailing = record.trailing ∧
      result.Laid SettledApart := by
  obtain ⟨fields, shaped, committed⟩ := apply_commits laid.shaped done
  exact laid_of_commit formed shaped committed

theorem Reachable.laid {settings : Settings} (formed : template.WellFormed)
    (reachable : Reachable template settings record) :
    record.template = template ∧ record.Laid SettledApart := by
  induction reachable with
  | decoded read =>
    have laid := laidOut_of_decode read
    obtain ⟨rfl, _⟩ := decode_reads read
    exact ⟨rfl, laid.imp (formed.imp fun _ _ _ settled => settled.apart)⟩
  | @edited record asked edit _ ih =>
    obtain ⟨rfl, laid⟩ := ih
    unfold attempt
    split
    · next event result done =>
      obtain ⟨same, _, laid⟩ := laid_of_apply formed laid done
      exact ⟨same, laid⟩
    · exact ⟨rfl, laid⟩

theorem Laid.laidOut (untested : record.template.Everywhere Template.CountsUntested)
    (laid : record.Laid SettledApart) : record.LaidOut :=
  laid.imp (untested.imp fun _ untested _ apart => apart.settled untested)

/-- A record is settled exactly when settling it changes nothing. -/
theorem laidOut_iff (formed : record.template.WellFormed)
    (shaped : Field.ShapedAll record.template record.fields) :
    record.LaidOut ↔ record.commit record.fields = .ok record := by
  refine ⟨fun laid => laid.commit_eq formed, fun committed => ?_⟩
  obtain ⟨⟨nodes, stop⟩, settled, made⟩ := bind_eq_ok.mp committed
  have made := pure_eq_ok.mp made
  obtain ⟨rfl, rfl⟩ : nodes = record.fields ∧ stop = record.laidOut :=
    ⟨congrArg Record.fields made, congrArg Record.laidOut made⟩
  obtain ⟨first, kept⟩ := settleLevel_fixed formed.1 formed.2 shaped settled
  exact ⟨kept, settleFields_fixed record.template formed.2 record.fields shaped [] Path.root 0
    record.laidOut first⟩

theorem put_put (held : Scalar) (value : Value) (label : Option String) :
    (held.put value label).put value label = held.put value label := by
  simp [Scalar.put]

/-- A value set once more finds the record as it would leave it. -/
theorem setValue_again {path : Path} {value : Value} {event : Event}
    (formed : record.template.WellFormed) (before : record.LaidOut) (after : result.LaidOut)
    (done : record.setValue path value = .ok (event, result)) :
    ∃ again, result.setValue path value = .ok (again, result) := by
  obtain ⟨place, name, type, accepted, held, located, declared, free, accept, holder, committed, _⟩ :=
    setValue_eq_ok.mp done
  obtain ⟨⟨nodes, stop⟩, settled, made⟩ := bind_eq_ok.mp committed
  obtain rfl := pure_eq_ok.mp made
  obtain ⟨final, leads, holds, same⟩ := (leads_of_locate located declared).changed rfl holder free
    (fun holds => ScalarType.holds_put holds (ScalarType.admits_of_accept accept))
    (put_put held accepted (type.label? accepted)) formed.1 formed.2 ⟨before.kept, before.laid⟩ settled
  have committed := @Laid.commit_eq ⟨record.template, nodes, stop, record.trailing⟩ formed after
  exact ⟨_, setValue_eq_ok.mpr ⟨_, name, type, accepted, _, locate_of_leads leads, rfl, free, accept,
    holds, by rw [same]; exact committed, rfl⟩⟩

/-- After an edit that is done, every group whose condition tests no count is settled, and all
groups are exactly if settling the record again changes nothing. Where no condition tests a count
this is so, and then a value set twice is a value set once. -/
theorem apply_settles (formed : template.WellFormed) {settings asked : Settings} {edit : Edit}
    {event : Event} (reachable : Reachable template settings record)
    (done : record.apply asked edit = .ok (event, result)) :
    result.Laid SettledApart ∧
      (result.LaidOut ↔ result.commit result.fields = .ok result) ∧
      (template.Everywhere Template.CountsUntested → result.LaidOut ∧
        ∀ path value, edit = .setValue path value →
          ∃ again, result.setValue path value = .ok (again, result)) := by
  obtain ⟨rfl, laid⟩ := reachable.laid formed
  obtain ⟨same, _, after⟩ := laid_of_apply formed laid done
  rw [← same] at formed
  refine ⟨after, laidOut_iff formed after.shaped, fun untested => ?_⟩
  have settled := after.laidOut (same ▸ untested)
  refine ⟨settled, ?_⟩
  rintro path value rfl
  exact setValue_again (same ▸ formed) (laid.laidOut untested) settled done

theorem apply_settles_sample : ∃ record event result again,
    decode Template.sample {} [1, 0, 0, 1, 0, 2, 0, 3, 97, 98, 1, 65, 0, 7, 8] = .ok record ∧
      record.apply {} (.setValue [.name "kind"] (.uint 2)) = .ok (event, result) ∧
      result.LaidOut ∧ result.commit result.fields = .ok result ∧
      result.setValue [.name "kind"] (.uint 2) = .ok (again, result) := by
  obtain ⟨record, event, result, decoded, done⟩ : ∃ record event result,
      decode Template.sample {} [1, 0, 0, 1, 0, 2, 0, 3, 97, 98, 1, 65, 0, 7, 8] = .ok record ∧
        record.apply {} (.setValue [.name "kind"] (.uint 2)) = .ok (event, result) :=
    ⟨_, _, _, by cbv, by cbv⟩
  obtain ⟨_, exactly, untested⟩ := apply_settles Template.sample_wellFormed (.decoded decoded) done
  obtain ⟨settled, repeats⟩ := untested (by decide +kernel)
  obtain ⟨again, repeated⟩ := repeats _ _ rfl
  exact ⟨record, event, result, again, decoded, done, settled, exactly.mp settled, repeated⟩

end Laid

/-- The condition of a group is decided before the count that it tests is set. With the first
item of the list its count is one, but the group that this calls for is still absent, and the
record cannot be written. -/
theorem counting_unsettled : Template.counting.WellFormed ∧ ∃ record event result,
    decode Template.counting {} [0] = .ok record ∧
      record.apply {} (.insertItem [.name "list"] 0) = .ok (event, result) ∧
      ¬ result.LaidOut ∧ ∃ error, result.encode = .error error := by
  refine ⟨by decide +kernel, _, _, _, by cbv, by cbv, fun laid => ?_, _, by cbv⟩
  have extra := laid.kept _ (List.mem_of_getElem? (i := 2) rfl)
  have filled := extra.fixed (by decide) 1 rfl
  contradiction

end Record
end ResourceTemplate
