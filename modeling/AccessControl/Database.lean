import AccessControl.Error

/-!
A connection to a database. What it answers is given beforehand.
-/

namespace AccessControl

namespace Database

structure Query where
  sql : String
  arguments : List Value

inductive Command where
  | connect (name : String) (least most : Int)
  | close
  | acquire
  | release
  | begin
  | commit
  | rollback
  | execute (q : Query)
  | rows (q : Query)
  | row (q : Query)
  | value (q : Query)

def Query.words (kind : String) (q : Query) : List Value :=
  .text kind :: .text q.sql :: q.arguments

def Command.words : Command → List Value
  | .connect name least most =>
    [.text "create_pool", .text name,
     .object [("command_timeout", .int 30), ("max_size", .int most), ("min_size", .int least)]]
  | .close => [.text "close"]
  | .acquire => [.text "acquire"]
  | .release => [.text "release"]
  | .begin => [.text "begin"]
  | .commit => [.text "commit"]
  | .rollback => [.text "rollback"]
  | .execute q => q.words "execute"
  | .rows q => q.words "fetch"
  | .row q => q.words "fetchrow"
  | .value q => q.words "fetchval"

abbrev Command.Reply : Command → Type
  | .connect .. => Except Error Unit
  | .close => Bool
  | .acquire => Except Error Unit
  | .execute _ => Except Error Value
  | .rows _ => Except Error Value
  | .row _ => Except Error Value
  | .value _ => Except Error Value
  | _ => Unit

end Database

/-- The answers to come; the defaults serve when there are none left. -/
structure Database where
  connected : Bool := false
  refusal : Option Error := none
  answers : List (Except Error Value) := []

namespace Database

def next (d : Database) (default : Value) : Except Error Value × Database :=
  match d.answers with
  | [] => (.ok default, d)
  | a :: rest => (a, { d with answers := rest })

def reaches (d : Database) : Command → Bool
  | .connect .. => true
  | _ => d.connected

def serve (d : Database) : (c : Command) → c.Reply × Database
  | .connect .. =>
    match d.refusal with
    | some e => (.error e, { d with refusal := none })
    | none => (.ok (), { d with connected := true })
  | .close => (d.connected, d)
  | .acquire => (if d.connected then .ok () else .error .notConnected, d)
  | .execute _ => d.next (.text "DELETE 0")
  | .rows _ => d.next (.list [])
  | .row _ => d.next .null
  | .value _ => d.next (.int 1)
  | .release => ((), d)
  | .begin => ((), d)
  | .commit => ((), d)
  | .rollback => ((), d)

end Database

end AccessControl
