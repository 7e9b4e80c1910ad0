import Typesmith.Project.ConfigFile
import Typesmith.Proofs.Paths
import Typesmith.Proofs.Referring

namespace Typesmith.Project

open Text

inductive ListKey where
  | inputs | exclude | parseExtension
  deriving DecidableEq, Repr

namespace ListKey

def name : ListKey → String
  | inputs => "inputs"
  | exclude => "exclude"
  | parseExtension => "parseExtension"

def listed : ListKey → ConfigFile → List String
  | inputs, c => c.inputs
  | exclude, c => c.exclude
  | parseExtension, c => c.parseExtension

def kept : ListKey → Settings → String
  | inputs, s => s.inputs
  | exclude, s => s.excludes
  | parseExtension, s => s.parseExtension

variable {key : ListKey} {c : ConfigFile} {isSet : String → Bool}

theorem kept_apply (given : key.listed c ≠ []) (free : isSet key.name = false) (s : Settings) :
    key.kept (c.apply isSet s) = join "," (key.listed c) := by
  have given : (!(key.listed c).isEmpty) = true := by simpa using given
  cases key
  all_goals
    simp only [listed, name] at given free
    simp only [kept, listed, ConfigFile.apply, ConfigFile.pick, given, free, Bool.not_false, Bool.and_true,
      if_true]

end ListKey

theorem items_join {l : List String} (filled : l ≠ []) : items (join "," l) = l.flatMap items := by
  rw [items, split_join_flatMap (by rfl) filled, List.map_flatMap, List.filter_flatMap]
  rfl

theorem not_mem_items {s item : String} (read : item ∈ items s) : ',' ∉ item.toList := by
  obtain ⟨pieces, -⟩ := List.mem_filter.mp read
  obtain ⟨piece, cut, rfl⟩ := List.mem_map.mp pieces
  intro inside
  rw [trim, String.toList_ofList] at inside
  exact not_mem_split cut (mem_of_mem_trimBy inside)

/-- The text holds something, and no white space around it. -/
def Tight (item : String) : Prop :=
  item ≠ "" ∧ trim item = item

instance (item : String) : Decidable (Tight item) :=
  inferInstanceAs (Decidable (_ ∧ _))

theorem items_tight {item : String} (tight : Tight item) (whole : ',' ∉ item.toList) :
    items item = [item] := by
  obtain ⟨filled, trimmed⟩ := tight
  rw [items, split_eq_singleton whole, List.map_singleton, trimmed, List.filter_singleton]
  simp [filled]

/-- A list that the file gives under a key, where the key was not given elsewhere, is read from the settings
as its items in order, each taken apart at its commas. Of items with nothing around them the list is read as
it was if and only if no item has a comma in it. -/
theorem listed_items_iff {key : ListKey} {c : ConfigFile} {isSet : String → Bool}
    (given : key.listed c ≠ []) (free : isSet key.name = false) (s : Settings) :
    items (key.kept (c.apply isSet s)) = (key.listed c).flatMap items ∧
      ((∀ item ∈ key.listed c, Tight item) →
        (items (key.kept (c.apply isSet s)) = key.listed c ↔ ∀ item ∈ key.listed c, ',' ∉ item.toList)) := by
  have pieces : items (key.kept (c.apply isSet s)) = (key.listed c).flatMap items := by
    rw [ListKey.kept_apply given free, items_join given]
  refine ⟨pieces, fun tight => ⟨fun same item inside => ?_, fun whole => ?_⟩⟩
  · rw [← same] at inside
    exact not_mem_items inside
  · have alone : (key.listed c).flatMap items = (key.listed c).flatMap fun item => [item] :=
      List.flatMap_congr fun item inside => items_tight (tight item inside) (whole item inside)
    rw [pieces, alone, List.flatMap_singleton']

def archives : ConfigFile where
  exclude := ["old docs", "vendor"]

theorem listed_items_iff_archives :
    ListKey.exclude.listed archives ≠ [] ∧ (· == "inputs") ListKey.exclude.name = false ∧
      (∀ item ∈ ListKey.exclude.listed archives, Tight item) ∧
      (∀ item ∈ ListKey.exclude.listed archives, ',' ∉ item.toList) ∧
      items (ListKey.exclude.kept (archives.apply (· == "inputs") {})) = ["old docs", "vendor"] := by
  have given : ListKey.exclude.listed archives ≠ [] := by decide
  have free : (· == "inputs") ListKey.exclude.name = false := by decide
  have tight : ∀ item ∈ ["old docs", "vendor"], Tight item := by decide
  have whole : ∀ item ∈ ["old docs", "vendor"], ',' ∉ item.toList := by decide
  exact ⟨given, free, tight, whole, ((listed_items_iff given free {}).2 tight).mpr whole⟩

def commaFile : ConfigFile where
  inputs := ["a,b.json"]

/-- The name of a document with a comma in it is read as two names. -/
theorem listed_items_torn :
    ConfigFile.parse? "inputs: [\"a,b.json\"]\n" = some commaFile ∧
      (∀ item ∈ ListKey.inputs.listed commaFile, Tight item) ∧
      items (ListKey.inputs.kept (commaFile.apply (fun _ => false) {})) = ["a", "b.json"] := by
  refine ⟨by decide +kernel, by decide, by decide⟩

end Typesmith.Project
