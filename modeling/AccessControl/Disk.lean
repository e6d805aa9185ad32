/-!
The file that one text is published to. The text is drafted beside the file first, and the draft
then takes the file's place.
-/

namespace AccessControl

inductive Disk.Step where
  | folder
  | draft
  | replace
deriving DecidableEq

structure Disk where
  path : String
  fault : Option Disk.Step := none
  content : Option String := none
  draft : Option String := none
deriving DecidableEq

def Disk.publish (d : Disk) (text : String) : Bool × Disk :=
  match d.fault with
  | some .folder => (false, d)
  | some .draft => (false, d)
  | some .replace => (false, { d with draft := some text })
  | none => (true, { d with content := some text, draft := none })

end AccessControl
