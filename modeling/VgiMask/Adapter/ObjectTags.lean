import VgiMask.Adapter.Meta
import VgiMask.Common.JsonReading

/-!
# What the tags of an object say

A reader of the catalogue gets the keywords and the examples of a function as JSON texts. The
texts have one value each, so every reader that follows the grammar finds the keywords and the
examples that were written, and two functions have the same tags only when they say the same.
-/

namespace VgiMask

open Common Common.Json

/-- The tags that describe an object. -/
def objectTags (title docLlm docMd : Text) (keywords : List Text) (category : Text) :
    List (Text × Text) :=
  [("vgi.title".toList, title),
    ("vgi.doc_llm".toList, docLlm),
    ("vgi.doc_md".toList, docMd),
    ("vgi.keywords".toList, keywordsJson keywords),
    ("vgi.category".toList, category)]

/-- The keywords are the only value of their text. -/
theorem textOf_keywordsJson {v : Json} (keywords : List Text) :
    TextOf v (keywordsJson keywords) ↔ v = .array (keywords.map .string) := by
  rw [← decode_eq_some_iff, decode_keywordsJson, Option.some_inj]
  exact eq_comm

/-- The described examples are the only value of their text. -/
theorem textOf_exampleQueriesJson {v : Json} (examples : List (Text × Text)) :
    TextOf v (exampleQueriesJson examples) ↔ v = .array (examples.map exampleObject) := by
  rw [← decode_eq_some_iff, decode_exampleQueriesJson, Option.some_inj]
  exact eq_comm

/-- Described examples with the same object are the same. -/
theorem exampleObject_injective : Function.Injective exampleObject := by
  intro e e' h
  simp only [exampleObject, exampleMembers, List.map_cons, List.map_nil, Json.object.injEq,
    List.cons.injEq, Prod.mk.injEq, Json.string.injEq, true_and, and_true] at h
  exact Prod.ext h.1 h.2

/-- A text of two lists of keywords is of one. -/
theorem keywordsJson_injective : Function.Injective keywordsJson := by
  intro keywords keywords' h
  have hread := (textOf_keywordsJson keywords').mp (h ▸ (textOf_keywordsJson keywords).mpr rfl)
  have hstring : Function.Injective Json.string := fun _ _ => Json.string.inj
  exact hstring.list_map (Json.array.inj hread)

/-- A text of two lists of examples is of one. -/
theorem exampleQueriesJson_injective : Function.Injective exampleQueriesJson := by
  intro examples examples' h
  have hread := (textOf_exampleQueriesJson examples').mp (h ▸ (textOf_exampleQueriesJson examples).mpr rfl)
  exact exampleObject_injective.list_map (Json.array.inj hread)

/-- Keywords and examples with one value are none. -/
theorem eq_nil_of_same_value {keywords : List Text} {examples : List (Text × Text)}
    (h : keywords.map Json.string = examples.map exampleObject) : keywords = [] ∧ examples = [] := by
  cases keywords with
  | nil => exact ⟨rfl, List.map_eq_nil_iff.mp h.symm⟩
  | cons keyword keywords =>
    cases examples with
    | nil => cases h
    | cons e examples => exact Json.noConfusion (List.cons.inj h).1

/-- No text of keywords is one of examples: the empty ones differ in their layout. -/
theorem keywordsJson_ne_exampleQueriesJson (keywords : List Text) (examples : List (Text × Text)) :
    keywordsJson keywords ≠ exampleQueriesJson examples := by
  intro h
  have hread := (textOf_exampleQueriesJson examples).mp (h ▸ (textOf_keywordsJson keywords).mpr rfl)
  obtain ⟨rfl, rfl⟩ := eq_nil_of_same_value (Json.array.inj hread)
  exact absurd h (by decide)

/-- Tags that agree were made of the same parts. -/
theorem objectTags_eq_iff {title docLlm docMd category title' docLlm' docMd' category' : Text}
    {keywords keywords' : List Text} :
    objectTags title docLlm docMd keywords category = objectTags title' docLlm' docMd' keywords' category' ↔
      title = title' ∧ docLlm = docLlm' ∧ docMd = docMd' ∧ keywords = keywords' ∧ category = category' := by
  simp only [objectTags, List.cons.injEq, Prod.mk.injEq, true_and, and_true, keywordsJson_injective.eq_iff]

/-- Under the grammar of JSON the text of the keywords has the array of the keywords as its only
value, and the text of the examples the array of the described examples. So no two lists share a
text, a text of keywords is none of examples, and the tags of an object determine what they were
made of. -/
theorem metadata_unambiguous :
    (∀ (keywords : List Text) (v : Json),
        TextOf v (keywordsJson keywords) ↔ v = .array (keywords.map .string)) ∧
      (∀ (examples : List (Text × Text)) (v : Json),
        TextOf v (exampleQueriesJson examples) ↔ v = .array (examples.map fun e => .object
          [("description".toList, .string e.1), ("sql".toList, .string e.2)])) ∧
      (∀ keywords examples, keywordsJson keywords ≠ exampleQueriesJson examples) ∧
      Function.Injective exampleQueriesJson ∧
      ∀ title docLlm docMd keywords category title' docLlm' docMd' keywords' category',
        objectTags title docLlm docMd keywords category =
            objectTags title' docLlm' docMd' keywords' category' ↔
          title = title' ∧ docLlm = docLlm' ∧ docMd = docMd' ∧ keywords = keywords' ∧
            category = category' := by
  refine ⟨?_, ?_, keywordsJson_ne_exampleQueriesJson, exampleQueriesJson_injective, ?_⟩
  · intro keywords v
    exact textOf_keywordsJson keywords
  · intro examples v
    exact textOf_exampleQueriesJson examples
  · intros
    exact objectTags_eq_iff

end VgiMask
