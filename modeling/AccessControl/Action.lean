/-!
The vocabulary of actions.
-/

namespace AccessControl

inductive RecordAction where
  | create
  | delete
  | archive
  | restoreArchive
  | restoreVersion
  | deleteVersion
  | clear
deriving DecidableEq

inductive FieldAction where
  | read
  | update
  | readArchive
  | readVersionHistory
  | setAttributes
deriving DecidableEq

def RecordAction.name : RecordAction → String
  | .create => "create"
  | .delete => "delete"
  | .archive => "archive"
  | .restoreArchive => "restore-archive"
  | .restoreVersion => "restore-version"
  | .deleteVersion => "delete-version"
  | .clear => "clear"

def FieldAction.name : FieldAction → String
  | .read => "read"
  | .update => "update"
  | .readArchive => "read-archive"
  | .readVersionHistory => "read-version-history"
  | .setAttributes => "set-attributes"

def RecordAction.all : List RecordAction :=
  [.create, .delete, .archive, .restoreArchive, .restoreVersion, .deleteVersion, .clear]

def FieldAction.all : List FieldAction :=
  [.read, .update, .readArchive, .readVersionHistory, .setAttributes]

inductive Action where
  | record (a : RecordAction)
  | field (a : FieldAction)
  | custom (name : String)
deriving DecidableEq

def Action.name : Action → String
  | .record a => a.name
  | .field a => a.name
  | .custom name => name

def Action.ofName (name : String) : Action :=
  match RecordAction.all.find? (·.name = name), FieldAction.all.find? (·.name = name) with
  | some a, _ => .record a
  | none, some a => .field a
  | none, none => .custom name

end AccessControl
