import AccessControl.Faults
import AccessControl.Store.Table

/-!
The key-value server that holds cached texts.
-/

namespace AccessControl.Cache

structure Entry where
  key : String
  ttl : Option Int
  text : String
deriving DecidableEq

instance : Keyed Entry := ⟨Entry.key⟩

inductive Command where
  | ping
  | get (key : String)
  | set (key : String) (ttl : Int) (text : String)
  | delete (keys : List String)
  | scan (start : String)

abbrev Command.Reply : Command → Type
  | .ping => Unit
  | .get _ => Option String
  | .set .. => Unit
  | .delete _ => Nat
  | .scan _ => List String

inductive Verb where
  | ping
  | get
  | set
  | delete
  | scan
deriving DecidableEq

namespace Verb

def all : List Verb := [.ping, .get, .set, .delete, .scan]

def name : Verb → String
  | .ping => "ping"
  | .get => "get"
  | .set => "setex"
  | .delete => "delete"
  | .scan => "scan"

end Verb

def Command.verb : Command → Verb
  | .ping => .ping
  | .get _ => .get
  | .set .. => .set
  | .delete _ => .delete
  | .scan _ => .scan

abbrev Entries := Table Entry

namespace Entries

def text? (es : Entries) (key : String) : Option String :=
  (es.get? key).map Entry.text

def without (es : Entries) (keys : List String) : Entries :=
  es.filter fun e => !keys.contains e.key

def reply (es : Entries) : (c : Command) → c.Reply
  | .ping => ()
  | .get key => text? es key
  | .set .. => ()
  | .delete keys => es.rows.countP fun e => keys.contains e.key
  | .scan start => (es.rows.map Entry.key).filter fun k => start.toList.isPrefixOf k.toList

def after (es : Entries) : Command → Entries
  | .set key ttl text => es.insert ⟨key, some ttl, text⟩
  | .delete keys => without es keys
  | _ => es

end Entries

structure Server where
  entries : Entries
  faults : Faults Verb String

def Server.empty : Server := ⟨.empty, .none⟩

/-- A command that fails has no effect. -/
def Server.serve (s : Server) (c : Command) : Except String c.Reply × Server :=
  match s.faults.take [c.verb] with
  | (some message, faults) => (.error message, { s with faults })
  | (none, faults) => (.ok (s.entries.reply c), ⟨s.entries.after c, faults⟩)

end AccessControl.Cache
