import Typesmith.Document.Search

namespace Typesmith.Project

open Text

/-- The settings of a project. Lists of paths are written with commas between the items. -/
structure Settings where
  inputs : String := ""
  excludes : String := ""
  parseExtension : String := ""
  outputDir : String := ""
  outputTypes : List String := []
  typesFile : String := ""
  overridesFile : String := ""
  componentsOnly : Bool := false
  inlineStringEnums : Bool := false
  enumStyle : String := ""
  defaultContentType : String := ""
  check : Bool := false
  deriving DecidableEq, Repr, Inhabited

def items (s : String) : List String :=
  ((split ',' s).map trim).filter (· ≠ "")

def Settings.search (s : Settings) (files : Files) : Search.Setting :=
  let excludes := items s.excludes
  let extensions := items s.parseExtension
  { excludes := excludes ++ excludes.map files.absolute
    extensions := Search.normalExtensions
      (if extensions.isEmpty then ({} : Search.Setting).extensions else extensions) }

end Typesmith.Project
