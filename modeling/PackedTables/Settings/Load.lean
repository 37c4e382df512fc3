import PackedTables.Settings.Conversion
import PackedTables.Settings.Environment
import PackedTables.Toml.Reader

/-!
# Loading settings

Settings are laid together, each source over those before it: three files of the working directory,
one of the user, one that was asked for, and the environment.  Only the file that was asked for must
exist.  What comes out must be settings that the stored form can honour.
-/

namespace PackedTables

/-- A file that may have been asked for. -/
inductive AskedFile
  | none
  | missing
  | text (text : String)
  deriving DecidableEq

/-- The texts of the files that exist, and the variables of the environment. -/
structure Sources where
  plainFile : Option String := none
  hiddenFile : Option String := none
  folderFile : Option String := none
  userFile : Option String := none
  askedFile : AskedFile := .none
  environment : List (String × String) := []
  deriving DecidableEq

inductive LoadFault
  | missingFile
  | malformedFile
  /-- A path leads to an item before the start of a list, or too far behind it. -/
  | itemOutOfReach
  | unfitValue
  | refused (fault : Fault)
  deriving DecidableEq

namespace Settings

def overlayMembers (root : Tree) (members : Tree.Members) : Except LoadFault Tree :=
  match root.overlay? members with
  | some tree => .ok tree
  | none => .error .itemOutOfReach

def overlayText (root : Tree) (text : String) : Except LoadFault Tree :=
  match Toml.parse? text with
  | some members => overlayMembers root members
  | none => .error .malformedFile

def overlayAsked (root : Tree) : AskedFile → Except LoadFault Tree
  | .none => .ok root
  | .missing => .error .missingFile
  | .text text => overlayText root text

/-- The tree of all sources, each laid over those before it. -/
def treeOf (sources : Sources) : Except LoadFault Tree := do
  let texts := [sources.plainFile, sources.hiddenFile, sources.folderFile, sources.userFile]
  let tree ← (texts.filterMap id).foldlM overlayText (.table [])
  let tree ← overlayAsked tree sources.askedFile
  overlayMembers tree (Environment.members sources.environment)

def load (sources : Sources) : Except LoadFault Settings := do
  let tree ← treeOf sources
  match ofTree? tree with
  | none => .error .unfitValue
  | some settings => settings.check.mapError .refused

end Settings

end PackedTables
