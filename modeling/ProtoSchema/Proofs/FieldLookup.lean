import Mathlib.Data.List.Nodup
import ProtoSchema.Proofs.HandedOut

/-!
# Looking fields up by id

A lookup by id takes the first field that has the id, so a field can hide a later one. In a message
without a repeated id no field does, and no other message is handed out.

Results:
* `idFault?_eq_none_iff_findIdx?`: a message has no fault exactly when each of its fields is the
  first one with its id;
* `fieldById?_eq_some`: in such a message the fields with an id are the one that the lookup finds;
* `idFault?_of_complete`: no message with a fault is handed out, under any rules;
* `fieldById?_of_compileText`: the same of the messages of a text.
-/
namespace ProtoSchema

namespace Message

variable {m : Message}

/-- Fields have distinct ids exactly when none of them hides another from a lookup. -/
theorem nodup_iff_findIdx? {fields : List Field} :
    (fields.map (·.id)).Nodup ↔
      ∀ (i : Nat) (hi : i < fields.length), fields.findIdx? (·.id = fields[i].id) = some i := by
  rw [List.nodup_iff_pairwise_ne, List.pairwise_map, List.pairwise_iff_getElem]
  constructor
  · intro h i hi
    refine List.findIdx?_eq_some_iff_getElem.2 ⟨hi, by simp, fun j hji => ?_⟩
    simpa using h j i (Nat.lt_trans hji hi) hi hji
  · intro h i j hi hj hij hid
    obtain ⟨_, _, hfirst⟩ := List.findIdx?_eq_some_iff_getElem.1 (h j hj)
    simpa [hid] using hfirst i hij

theorem idFault?_eq_none_iff_findIdx? :
    m.idFault? = none ↔
      ∀ (i : Nat) (hi : i < m.fields.length),
        m.fields.findIdx? (·.id = m.fields[i].id) = some i := by
  rw [idFault?_eq_none, nodup_iff_findIdx?]

/-- Where no id is repeated, a lookup finds the field that has the id, whichever field that is. -/
theorem fieldById?_eq_some (h : m.idFault? = none) {id : UInt32} {f : Field} :
    m.fieldById? id = some f ↔ f ∈ m.fields ∧ f.id = id := by
  constructor
  · intro hfind
    exact ⟨List.mem_of_find?_eq_some hfind, by simpa using List.find?_some hfind⟩
  · rintro ⟨hmem, rfl⟩
    obtain ⟨g, hfind⟩ : ∃ g, m.fieldById? f.id = some g := by
      refine Option.isSome_iff_exists.1 (List.find?_isSome.2 ⟨f, hmem, ?_⟩)
      simp
    have hid : g.id = f.id := by simpa using List.find?_some hfind
    have hg : g ∈ m.fields := List.mem_of_find?_eq_some hfind
    rw [hfind, List.inj_on_of_nodup_map (idFault?_eq_none.1 h) hg hmem hid]

end Message

theorem Assembly.idFault?_of_complete {σ : Type} {rules : LineRules σ} {policy : Policy}
    {a : Assembly σ} {lines : List (Option (List Char))} {messages : List Message}
    (h : (a.complete rules policy lines).result = .ok messages) :
    ∀ m ∈ messages, m.idFault? = none := by
  obtain ⟨-, hend, rfl⟩ := Assembly.complete_eq_ok.1 h
  exact List.findSome?_eq_none_iff.1 (Assembly.firstIdFault?_of_endFault?_eq_none hend)

/-- A message passes the check of its ids exactly when each of its fields is the first one with its
id. The messages of every text pass it under each policy, so there an id finds a field exactly when
it is the id of that field, and no field hides another. -/
theorem fieldById?_of_compileText :
    (∀ m : Message, m.idFault? = none ↔
      ∀ (i : Nat) (hi : i < m.fields.length),
        m.fields.findIdx? (·.id = m.fields[i].id) = some i) ∧
    ∀ (policy : Policy) (text : String) (messages : List Message),
      (compileText policy text).result = .ok messages → ∀ m ∈ messages,
        m.idFault? = none ∧
        (∀ (id : UInt32) (f : Field), m.fieldById? id = some f ↔ f ∈ m.fields ∧ f.id = id) ∧
        ∀ (i : Nat) (hi : i < m.fields.length),
          m.fields.findIdx? (·.id = m.fields[i].id) = some i := by
  refine ⟨fun _ => Message.idFault?_eq_none_iff_findIdx?, ?_⟩
  intro policy text messages h m hm
  have hnone : m.idFault? = none := Assembly.idFault?_of_complete h m hm
  exact ⟨hnone, fun _ _ => Message.fieldById?_eq_some hnone,
    Message.idFault?_eq_none_iff_findIdx?.1 hnone⟩

/-- A message that is checked at the end, with fields whose ids do not stand in their order. -/
theorem fieldById?_of_compileText_runs :
    let text := "message M \x7b\nrequired int32 a = 2;\noptional bool b = 1;\n\x7d"
    let a : Field := { id := 2, name := "a", type := .scalar .int32, scope := .required, line := 2 }
    let b : Field := { id := 1, name := "b", type := .scalar .bool, scope := .optional, line := 3 }
    let m : Message := { name := "M", line := 1, fields := [a, b] }
    (compileText { idCheck := .atEnd } text).result = .ok [m] ∧
      m.fieldById? 1 = some b ∧ m.fieldById? 2 = some a ∧ m.fieldById? 3 = none := by
  intro text a b m
  have hread : (compileText { idCheck := .atEnd } text).result = .ok [m] := by decide +kernel
  obtain ⟨-, hfind, -⟩ := fieldById?_of_compileText.2 _ text [m] hread m List.mem_cons_self
  refine ⟨hread, (hfind 1 b).2 ⟨by simp [m], rfl⟩, (hfind 2 a).2 ⟨by simp [m], rfl⟩, ?_⟩
  refine Option.eq_none_iff_forall_ne_some.2 fun f hf => ?_
  obtain ⟨hmem, hid⟩ := (hfind 3 f).1 hf
  simp only [m, List.mem_cons, List.not_mem_nil, or_false] at hmem
  rcases hmem with rfl | rfl <;> exact absurd hid (by decide)

end ProtoSchema
