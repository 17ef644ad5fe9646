import Solpg.Std.Machine
import Solpg.Client.Utils.Explorer.Events

/-!
# The editor and the explorer

`useMonacoWorkspace`: a model of the editor for each file that has been opened, and the
timer of the auto save, which finds the current file and the text of the editor when
it expires. The listeners do not read the explorer, so they run after the method that
has told them.
-/

namespace Solpg.Client.Components

open Solpg.Std Solpg.Client.Utils

namespace PgLanguage

/-- The languages with their extensions, in the order of their modules. -/
def all : List (Text × Text) :=
  [("JavaScript".toList, "js".toList), ("JSON".toList, "json".toList),
    ("Python".toList, "py".toList), ("Rust".toList, "rs".toList),
    ("TypeScript".toList, "ts".toList)]

def getFromPath (path : Text) : Option Text :=
  let givenExt : Text := ['.'].intercalate ((path.splitOn '.').drop 1)
  (all.find? fun (_, extension) => givenExt.endsWith extension).map Prod.fst

def getIsPathJsLike (path : Text) : Bool :=
  getFromPath path = some "JavaScript".toList ∨ getFromPath path = some "TypeScript".toList

end PgLanguage

/-- The URIs of the editor. One is parsed from the path of a file, and has a path itself,
which is another one where the path of the file has a `?`, `#` or `%`. -/
structure Monaco (Uri : Type) where
  parse : Text → Uri
  path : Uri → Text

/-- `models` are the texts of the models in the order in which they were made,
`editorModel` is the one that the editor shows. `timer` tells that the auto save is
pending. -/
structure MonacoWorkspace (Uri : Type) where
  explorer : PgExplorer
  models : OrderedMap Uri Text
  editorModel : Option Uri
  timer : Bool

namespace MonacoWorkspace

variable {Uri : Type} [DecidableEq Uri] (monaco : Monaco Uri) (workspace : MonacoWorkspace Uri)

/-- `editor.getValue()`. -/
def getValue : Text := (workspace.editorModel.bind workspace.models.get).getD []

def findModel (path : Text) : Option Uri :=
  workspace.models.keys.find? fun uri => monaco.path uri = path

/-- Models are disposed. The editor loses the model that it shows. -/
def disposeModels (gone : Uri → Text → Bool) : MonacoWorkspace Uri :=
  let models := workspace.models.filter fun uri text => !gone uri text
  { workspace with models, editorModel := workspace.editorModel.filter models.has }

/-- A script without imports is disposed when another one is opened. -/
def disposesScript (openedPath modelPath text : Text) : Bool :=
  (modelPath.includes "client".toList || modelPath.includes "tests".toList) &&
    PgLanguage.getIsPathJsLike modelPath && modelPath != openedPath &&
    !text.includes "import".toList

/-- Show the model of a file. There is no second model of a URI: `createModel` throws. -/
def setModel (curFile : FullFile) : MonacoWorkspace Uri :=
  match workspace.findModel monaco curFile.path with
  | some uri => { workspace with editorModel := some uri }
  | none =>
      let uri := monaco.parse curFile.path
      if workspace.models.has uri then workspace
      else
        { workspace with
          models := workspace.models.set uri (curFile.content.getD [])
          editorModel := some uri }

/-- The listener that opens a file in the editor. -/
def switchFile : Option FullFile → MonacoWorkspace Uri
  | none => workspace
  | some curFile =>
      let rest :=
        if PgLanguage.getIsPathJsLike curFile.path then
          workspace.disposeModels fun uri => disposesScript curFile.path (monaco.path uri)
        else workspace
      rest.setModel monaco curFile

def disposeModelsFromPath (path : Text) : MonacoWorkspace Uri :=
  workspace.disposeModels fun uri _ => (monaco.path uri).startsWith path

/-- The text of a model changes. The editor tells a change of the one that it shows. -/
def setValue (uri : Uri) (text : Text) : MonacoWorkspace Uri :=
  { workspace with
    models := workspace.models.set uri text
    timer := workspace.timer || workspace.editorModel = some uri }

/-- The listener that follows the content of a file. -/
def changeFileContent (path content : Text) : MonacoWorkspace Uri :=
  match workspace.findModel monaco path with
  | some uri =>
      if workspace.models.get uri = some content then workspace else workspace.setValue uri content
  | none => workspace

def listen (workspace : MonacoWorkspace Uri) : ExplorerEvent → MonacoWorkspace Uri
  | .openFile file => workspace.switchFile monaco file
  | .renameItem path | .deleteItem path => workspace.disposeModelsFromPath monaco path
  | .changeFileContent path content => workspace.changeFileContent monaco path content
  | _ => workspace

/-- The explorer when there is no event to be told. -/
def quiet (explorer : PgExplorer) : PgExplorer := { explorer with dispatched := [] }

/-- A method of the explorer has run, and the listeners run after it. -/
def run (explorer : PgExplorer) : MonacoWorkspace Uri :=
  explorer.dispatched.foldl (listen monaco) { workspace with explorer := explorer }

/-- A method that may throw before it writes. -/
def call (method : PgExplorer → Except JsError PgExplorer) : MonacoWorkspace Uri :=
  match method (quiet workspace.explorer) with
  | .ok explorer => workspace.run monaco explorer
  | .error _ => workspace

/-- The auto save. -/
def autoSave : MonacoWorkspace Uri :=
  match workspace.explorer.currentFilePath.filter (!·.isEmpty) with
  | none => workspace
  | some path => workspace.call monaco (·.saveFileToState path workspace.getValue)

/-- The editor is mounted, and is told the current file. -/
def mount (explorer : PgExplorer) : MonacoWorkspace Uri :=
  ({ explorer := explorer
     models := .empty
     editorModel := none
     timer := false } : MonacoWorkspace Uri).switchFile monaco explorer.getCurrentFile

end MonacoWorkspace

inductive EditorLabel where
  /-- The user changes the text of the editor. -/
  | edit (text : Text)
  | openFile (path : Text)
  | closeFile (path : Text)
  /-- `renameItem` after its checks and the rename in the file system. -/
  | renamed (oldPath newPath : Text) (override : Bool)
  /-- The timer expires. -/
  | autoSave

namespace MonacoWorkspace

variable {Uri : Type} [DecidableEq Uri]

def next (monaco : Monaco Uri) (workspace : MonacoWorkspace Uri) :
    EditorLabel → Option (MonacoWorkspace Uri)
  | .edit text => workspace.editorModel.map fun uri => workspace.setValue uri text
  | .openFile path => some (workspace.call monaco (·.openFile path))
  | .closeFile path => some (workspace.call monaco (·.closeFile path))
  | .renamed oldPath newPath override =>
      some (workspace.call monaco fun explorer =>
        .ok (explorer.renamedItem oldPath newPath override))
  | .autoSave =>
      if workspace.timer then some ({ workspace with timer := false }.autoSave monaco) else none

def machine (monaco : Monaco Uri) : Machine (MonacoWorkspace Uri) EditorLabel where
  Initial workspace := ∃ explorer, workspace = mount monaco explorer
  next := next monaco

end MonacoWorkspace
end Solpg.Client.Components
