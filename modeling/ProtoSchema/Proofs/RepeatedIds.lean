import ProtoSchema.FieldIds

/-!
# Repeated field ids

The two ways to look for repeated ids find the same field, and what one of them has found stays
found when more fields follow.

Results:
* `firstRepeat?_eq_none`, `firstRepeat?_eq_some`: whether the search through all fields stops, and
  where;
* `idFault?_eq_none`: a message has no fault exactly when the ids of its fields are distinct;
* `idFaultFrom?_eq_idFault?`: behind fields with distinct ids, looking back from each further field
  finds what going through all fields finds;
* `idFault?_of_isPrefix`: the fault of a message stays its fault when fields are added at the end;
* `firstIdFault?_eq_none`, `firstIdFault?_append`: the same for lists of messages.
-/
namespace ProtoSchema

theorem firstRepeat?_eq_none {seen : List UInt32} {fields : List Field} :
    firstRepeat? seen fields = none ↔
      (fields.map (·.id)).Nodup ∧ ∀ f ∈ fields, f.id ∉ seen := by
  induction fields generalizing seen with
  | nil => simp [firstRepeat?]
  | cons f fields ih =>
    unfold firstRepeat?
    split
    · next hseen =>
      exact ⟨nofun, fun ⟨_, h⟩ => absurd hseen (h f List.mem_cons_self)⟩
    · next hseen =>
      rw [ih, List.map_cons, List.nodup_cons]
      refine ⟨fun ⟨hnodup, h⟩ => ⟨⟨?_, hnodup⟩, ?_⟩, fun ⟨⟨hf, hnodup⟩, h⟩ => ⟨hnodup, ?_⟩⟩
      · intro hmem
        obtain ⟨g, hg, hid⟩ := List.mem_map.1 hmem
        exact h g hg (by rw [hid]; exact List.mem_cons_self)
      · intro g hg
        rcases List.mem_cons.1 hg with rfl | hg
        · exact hseen
        · exact fun hmem => h g hg (List.mem_cons_of_mem _ hmem)
      · intro g hg hmem
        rcases List.mem_cons.1 hmem with hid | hmem
        · exact hf (List.mem_map.2 ⟨g, hg, hid⟩)
        · exact h g (List.mem_cons_of_mem _ hg) hmem

/-- Only the ids that were seen matter, not their order. -/
theorem firstRepeat?_congr {seen seen' : List UInt32} (h : ∀ id, id ∈ seen ↔ id ∈ seen')
    (fields : List Field) : firstRepeat? seen fields = firstRepeat? seen' fields := by
  induction fields generalizing seen seen' with
  | nil => rfl
  | cons f fields ih =>
    simp only [firstRepeat?, h]
    split
    · rfl
    · exact ih fun id => by simp [h]

/-- Behind fields without a repeated id, the search goes on with their ids seen. -/
theorem firstRepeat?_append {seen : List UInt32} {fields : List Field}
    (h : firstRepeat? seen fields = none) (more : List Field) :
    firstRepeat? seen (fields ++ more) = firstRepeat? (fields.map (·.id) ++ seen) more := by
  induction fields generalizing seen with
  | nil => rfl
  | cons f fields ih =>
    rw [firstRepeat?] at h
    split at h
    · cases h
    · next hseen =>
      rw [List.cons_append, firstRepeat?, if_neg hseen, ih h]
      exact firstRepeat?_congr (fun id => by simp [or_left_comm]) more

theorem firstRepeat?_eq_some {seen : List UInt32} {fields : List Field} {f : Field} :
    firstRepeat? seen fields = some f ↔
      ∃ earlier later, fields = earlier ++ f :: later ∧ firstRepeat? seen earlier = none ∧
        f.id ∈ earlier.map (·.id) ++ seen := by
  constructor
  · intro h
    induction fields generalizing seen with
    | nil => cases h
    | cons g fields ih =>
      rw [firstRepeat?] at h
      split at h
      · next hseen =>
        obtain rfl := Option.some.inj h
        exact ⟨[], fields, rfl, rfl, hseen⟩
      · next hseen =>
        obtain ⟨earlier, later, rfl, hnone, hid⟩ := ih h
        refine ⟨g :: earlier, later, rfl, ?_, ?_⟩
        · rw [firstRepeat?, if_neg hseen, hnone]
        · rw [List.mem_append, List.mem_cons, or_left_comm] at hid
          rwa [List.map_cons, List.cons_append, List.mem_cons, List.mem_append]
  · rintro ⟨earlier, later, rfl, hnone, hid⟩
    rw [firstRepeat?_append hnone, firstRepeat?, if_pos hid]

theorem firstRepeat?_append_of_eq_some {seen : List UInt32} {fields : List Field} {f : Field}
    (h : firstRepeat? seen fields = some f) (more : List Field) :
    firstRepeat? seen (fields ++ more) = some f := by
  obtain ⟨earlier, later, rfl, hnone, hid⟩ := firstRepeat?_eq_some.1 h
  rw [List.append_assoc, List.cons_append]
  exact firstRepeat?_eq_some.2 ⟨earlier, later ++ more, rfl, hnone, hid⟩

/-- The fault is a repeated field id. -/
def Fault.IsRepeatedId (fault : Fault) : Prop :=
  ∃ message field id, fault = .duplicateFieldId message field id

namespace Message

/-! ## One message -/

theorem idFault?_eq_none {m : Message} : m.idFault? = none ↔ (m.fields.map (·.id)).Nodup := by
  simp [idFault?, firstRepeat?_eq_none]

theorem isRepeatedId_of_idFault? {m : Message} {fault : Fault} (h : m.idFault? = some fault) :
    fault.IsRepeatedId := by
  obtain ⟨f, _, rfl⟩ := Option.map_eq_some_iff.1 h
  exact ⟨_, _, _, rfl⟩

/-- The fault of a message stays its fault when fields are added at the end. -/
theorem idFault?_of_isPrefix {m m' : Message} {fault : Fault} (hname : m.name = m'.name)
    (hfields : m.fields <+: m'.fields) (h : m.idFault? = some fault) :
    m'.idFault? = some fault := by
  obtain ⟨more, hmore⟩ := hfields
  obtain ⟨f, hf, rfl⟩ := Option.map_eq_some_iff.1 h
  rw [idFault?, ← hmore, firstRepeat?_append_of_eq_some hf, Option.map_some, duplicateFault,
    duplicateFault, hname]

theorem repeatedAt?_length {m : Message} {known more : List Field} {f : Field}
    (hm : m.fields = known ++ f :: more) :
    m.repeatedAt? known.length = if f.id ∈ known.map (·.id) then some f else none := by
  have hany : known.any (fun g => g.id = f.id) = decide (f.id ∈ known.map (·.id)) := by
    rw [Bool.eq_iff_iff]
    simp only [List.any_eq_true, decide_eq_true_eq, List.mem_map]
  rw [repeatedAt?, hm, List.getElem?_append_right (Nat.le_refl _), Nat.sub_self,
    List.getElem?_cons_zero, List.take_left, Option.filter_some, hany]
  simp only [decide_eq_true_eq]

/-- Looking back from each field behind `known` goes through them with the ids of `known` seen. -/
theorem findSome?_repeatedAt? {m : Message} {known more : List Field}
    (hm : m.fields = known ++ more) :
    (List.range' known.length more.length).findSome? m.repeatedAt? =
      firstRepeat? (known.map (·.id)) more := by
  induction more generalizing known with
  | nil => rfl
  | cons f more ih =>
    rw [List.length_cons, List.range'_succ, List.findSome?_cons, repeatedAt?_length hm,
      firstRepeat?]
    by_cases hseen : f.id ∈ known.map (·.id)
    · rw [if_pos hseen, if_pos hseen]
    · have hnext : (List.range' (known.length + 1) more.length).findSome? m.repeatedAt? =
          firstRepeat? ((known ++ [f]).map (·.id)) more := by
        rw [← ih (by rw [hm, List.append_assoc]; rfl), List.length_append]
        rfl
      rw [if_neg hseen, if_neg hseen, hnext]
      exact firstRepeat?_congr (fun id => by simp [or_comm]) more

theorem idFaultFrom?_eq {m : Message} {known more : List Field} (hm : m.fields = known ++ more) :
    m.idFaultFrom? known.length = (firstRepeat? (known.map (·.id)) more).map m.duplicateFault := by
  have hlength : m.fields.length - known.length = more.length := by
    rw [hm, List.length_append, Nat.add_sub_cancel_left]
  rw [idFaultFrom?, hlength, ← findSome?_repeatedAt? hm, List.map_findSome?]
  rfl

/-- Behind fields with distinct ids, looking back from each further field finds what going through
all fields finds. -/
theorem idFaultFrom?_eq_idFault? {m : Message} {known more : List Field}
    (hm : m.fields = known ++ more) (hknown : (known.map (·.id)).Nodup) :
    m.idFaultFrom? known.length = m.idFault? := by
  have hnone : firstRepeat? [] known = none := by simp [firstRepeat?_eq_none, hknown]
  rw [idFaultFrom?_eq hm, idFault?, hm, firstRepeat?_append hnone, List.append_nil]

/-! ## Several messages -/

theorem firstIdFault?_eq_none {messages : List Message} :
    firstIdFault? messages = none ↔ ∀ m ∈ messages, (m.fields.map (·.id)).Nodup := by
  simp only [firstIdFault?, List.findSome?_eq_none_iff, idFault?_eq_none]

theorem firstIdFault?_append (messages more : List Message) :
    firstIdFault? (messages ++ more) = (firstIdFault? messages).or (firstIdFault? more) :=
  List.findSome?_append

theorem firstIdFault?_singleton (m : Message) : firstIdFault? [m] = m.idFault? := by
  cases h : m.idFault? <;> simp [firstIdFault?, h]

end Message

end ProtoSchema
