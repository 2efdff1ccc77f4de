import ProtoSchema.Proofs.RepeatedIds

/-!
# The two searches for repeated ids

One search goes through the fields of a message once and keeps the ids that it has seen. The other
one looks back from a single field. They are the same law: the first search fails exactly where the
second one fails first, and the fault names that field, never an earlier one with its id.

Results:
* `repeatedAt?_eq_some`: the fields at which the second search fails;
* `idFault?_eq_findSome?`, `idFault?_eq_some_iff_least`: the first search is the second one, from
  each field in turn;
* `idFault?_eq_some`: the field that the fault of a message names;
* `firstIdFault?_eq_some`: of several messages the first one with a fault decides;
* `idFault?_searches`: all of it.
-/
namespace ProtoSchema

namespace Message

variable {m : Message} {fault : Fault}

/-! ## Looking back from one field -/

theorem repeatedAt?_eq_some {index : Nat} {f : Field} :
    m.repeatedAt? index = some f ↔
      ∃ earlier later, m.fields = earlier ++ f :: later ∧ earlier.length = index ∧
        f.id ∈ earlier.map (·.id) := by
  constructor
  · intro h
    obtain ⟨hget, hany⟩ := Option.filter_eq_some_iff.1 h
    obtain ⟨hlt, hf⟩ := List.getElem?_eq_some_iff.1 hget
    refine ⟨m.fields.take index, m.fields.drop (index + 1), ?_, ?_, ?_⟩
    · rw [← hf, ← List.drop_eq_getElem_cons hlt, List.take_append_drop]
    · exact List.length_take_of_le (Nat.le_of_lt hlt)
    · obtain ⟨g, hg, hid⟩ := List.any_eq_true.1 hany
      exact List.mem_map.2 ⟨g, hg, by simpa using hid⟩
  · rintro ⟨earlier, later, hm, rfl, hid⟩
    rw [repeatedAt?_length hm, if_pos hid]

theorem lt_length_of_idFaultAt? {index : Nat} (h : m.idFaultAt? index = some fault) :
    index < m.fields.length := by
  obtain ⟨f, hf, -⟩ := Option.map_eq_some_iff.1 h
  obtain ⟨earlier, later, hm, rfl, -⟩ := repeatedAt?_eq_some.1 hf
  simp [hm]

/-! ## Looking back from each field in turn -/

theorem idFault?_eq_findSome? (m : Message) :
    m.idFault? = (List.range' 0 m.fields.length).findSome? m.idFaultAt? := by
  have hnil : m.fields = [] ++ m.fields := rfl
  exact (idFaultFrom?_eq_idFault? hnil List.nodup_nil).symm

theorem idFault?_eq_none_iff_forall : m.idFault? = none ↔ ∀ i, m.idFaultAt? i = none := by
  rw [idFault?_eq_findSome?, List.findSome?_eq_none_iff]
  refine ⟨fun h i => ?_, fun h i _ => h i⟩
  refine Option.eq_none_iff_forall_ne_some.2 fun fault hfault => ?_
  have hmem : i ∈ List.range' 0 m.fields.length := by
    simpa [List.mem_range'_1] using lt_length_of_idFaultAt? hfault
  rw [h i hmem] at hfault
  cases hfault

/-- The fault of a message is the one of the first field from which looking back finds any. -/
theorem idFault?_eq_some_iff_least :
    m.idFault? = some fault ↔
      ∃ i, m.idFaultAt? i = some fault ∧ ∀ j < i, m.idFaultAt? j = none := by
  rw [idFault?_eq_findSome?, List.findSome?_eq_some_iff]
  constructor
  · rintro ⟨front, i, behind, hrange, hfault, hfront⟩
    obtain ⟨k, -, rfl, hbehind⟩ := List.range'_eq_append_iff.1 hrange
    obtain ⟨hik, -, -⟩ := List.range'_eq_cons_iff.1 hbehind.symm
    refine ⟨i, hfault, fun j hj => hfront j ?_⟩
    rw [List.mem_range'_1]
    omega
  · rintro ⟨i, hfault, hleast⟩
    have hi := lt_length_of_idFaultAt? hfault
    refine ⟨List.range' 0 i, i, List.range' (i + 1) (m.fields.length - (i + 1)), ?_, hfault,
      fun j hj => hleast j (by simpa [List.mem_range'_1] using hj)⟩
    rw [← List.range'_succ, List.range'_eq_append_iff]
    exact ⟨i, Nat.le_of_lt hi, rfl, by congr 1 <;> omega⟩

/-- The fault names the first field whose id belongs to an earlier one. -/
theorem idFault?_eq_some :
    m.idFault? = some fault ↔
      ∃ earlier f later, m.fields = earlier ++ f :: later ∧ (earlier.map (·.id)).Nodup ∧
        f.id ∈ earlier.map (·.id) ∧ fault = .duplicateFieldId m.name f.name f.id := by
  simp only [idFault?, Option.map_eq_some_iff, firstRepeat?_eq_some, firstRepeat?_eq_none,
    List.append_nil, List.not_mem_nil, not_false_eq_true, implies_true, and_true]
  constructor
  · rintro ⟨f, ⟨earlier, later, hm, hnodup, hid⟩, rfl⟩
    exact ⟨earlier, f, later, hm, hnodup, hid, rfl⟩
  · rintro ⟨earlier, f, later, hm, hnodup, hid, rfl⟩
    exact ⟨f, ⟨earlier, later, hm, hnodup, hid⟩, rfl⟩

/-! ## Several messages -/

theorem firstIdFault?_eq_some {messages : List Message} :
    firstIdFault? messages = some fault ↔
      ∃ front m behind, messages = front ++ m :: behind ∧ m.idFault? = some fault ∧
        ∀ m' ∈ front, m'.idFault? = none :=
  List.findSome?_eq_some_iff

/-- The two searches agree on whether a message repeats an id and on the field that does so first.
Several messages are at fault exactly when one of them is by itself, and the first such message is
the one that is named. -/
theorem idFault?_searches (m : Message) (messages : List Message) :
    (m.idFault? = none ↔ ∀ i, m.idFaultAt? i = none) ∧
    (m.idFault? = none ↔ (m.fields.map (·.id)).Nodup) ∧
    (∀ fault, m.idFault? = some fault ↔
      ∃ i, m.idFaultAt? i = some fault ∧ ∀ j < i, m.idFaultAt? j = none) ∧
    (∀ fault, m.idFault? = some fault ↔
      ∃ earlier f later, m.fields = earlier ++ f :: later ∧ (earlier.map (·.id)).Nodup ∧
        f.id ∈ earlier.map (·.id) ∧ fault = .duplicateFieldId m.name f.name f.id) ∧
    (firstIdFault? messages = none ↔ ∀ m' ∈ messages, m'.idFault? = none) ∧
    ∀ fault, firstIdFault? messages = some fault ↔
      ∃ front m' behind, messages = front ++ m' :: behind ∧ m'.idFault? = some fault ∧
        ∀ m'' ∈ front, m''.idFault? = none :=
  ⟨idFault?_eq_none_iff_forall, idFault?_eq_none, fun _ => idFault?_eq_some_iff_least,
    fun _ => idFault?_eq_some, List.findSome?_eq_none_iff, fun _ => firstIdFault?_eq_some⟩

end Message

end ProtoSchema
