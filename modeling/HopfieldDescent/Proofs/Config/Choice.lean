import Mathlib
import HopfieldDescent.Config.Json

/-!
# Two ways to name a choice

A choice is asked for by its name, which stands in a table, and a document calls it by its
identifier, rewritten.  The table and the rewriting are independent of each other, so that they
agree is a fact about every single kind of choice: `LawfulNamed` states it, and with it a document
is read by the names in the table.
-/

namespace HopfieldDescent

/-- A complete table of names, without repetitions, that documents agree with. -/
class LawfulNamed (α : Type) [Named α] : Prop where
  /-- No choice is missing. -/
  mem_all : ∀ choice : α, choice ∈ Named.all
  /-- No two choices share a name. -/
  nodup : (Named.all.map (Named.name : α → String)).Nodup
  /-- In a document each choice has the same name. -/
  documentName_eq : ∀ choice ∈ (Named.all : List α), Named.documentName choice = Named.name choice

instance : LawfulNamed Activation where
  mem_all choice := by cases choice <;> decide
  nodup := by decide
  documentName_eq := by decide

instance : LawfulNamed DirectionRule where
  mem_all choice := by cases choice <;> decide
  nodup := by decide
  documentName_eq := by decide

instance : LawfulNamed StepRule where
  mem_all choice := by cases choice <;> decide
  nodup := by decide
  documentName_eq := by decide

instance : LawfulNamed StartAscent where
  mem_all choice := by cases choice <;> decide
  nodup := by decide
  documentName_eq := by decide

instance : LawfulNamed StoppingCriterion where
  mem_all choice := by cases choice; decide
  nodup := by decide
  documentName_eq := by decide

instance : LawfulNamed GainScope where
  mem_all choice := by cases choice <;> decide
  nodup := by decide
  documentName_eq := by decide

namespace Named

variable {R α : Type} [Named α] [LawfulNamed α] {choice choice' : α} {text : String}

/-- A choice is known by its name. -/
lemma eq_of_name (h : name choice = name choice') : choice = choice' :=
  List.inj_on_of_nodup_map LawfulNamed.nodup (LawfulNamed.mem_all choice)
    (LawfulNamed.mem_all choice') h

omit [LawfulNamed α] in
/-- Under a text only the choice with that name is found. -/
lemma name_of_find? (h : find? text = some choice) : name choice = text :=
  eq_of_beq (List.find?_some (p := fun choice => name choice == text) h)

/-- What is found under a text is the choice with that name. -/
lemma find?_eq_some : find? text = some choice ↔ name choice = text := by
  constructor
  · exact name_of_find?
  · rintro rfl
    cases hfind : (find? (name choice) : Option α) with
    | none =>
      have := List.find?_eq_none.1 hfind choice (LawfulNamed.mem_all choice)
      exact absurd (beq_self_eq_true (name choice)) this
    | some choice' => rw [eq_of_name (name_of_find? hfind)]

/-- A text is accepted exactly if it is the name of a choice. -/
theorem parse_eq_ok : parse text = .ok choice ↔ name choice = text := by
  rw [← find?_eq_some, parse]
  cases (find? text : Option α) <;> simp

/-- A document finds the same choices under the same texts. -/
lemma findInDocument?_eq : (findInDocument? text : Option α) = find? text := by
  unfold findInDocument? find?
  refine List.find?_congr fun choice hchoice => ?_
  rw [LawfulNamed.documentName_eq choice hchoice]

/-- A string in a document is read as a choice exactly if it is accepted as a name. -/
theorem readChoice_string_eq_ok :
    Json.readChoice (.string text : Json R) = .ok choice ↔ parse text = .ok choice := by
  rw [Json.readChoice, Json.choiceNamed, findInDocument?_eq, parse]
  cases (find? text : Option α) <;> simp

end Named

end HopfieldDescent
