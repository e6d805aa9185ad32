import AccessControl.Pipe

/-!
Turns: the order in which the calls of a pipe go on when records come together. What is under way
queues up; the first in the queue takes its turn, and what it leads to queues up at the end.
-/

namespace AccessControl

namespace Pipe

inductive Turn where
  | call (number : Nat)
  | resolution
  | notice (call : Nat)
  | wake (call : Nat)

def callTurns (p : Pipe) (call : Nat) : List Turn :=
  if p.isUnderWay call then [.call call] else []

/-- Takes a turn, and gives those that follow from it. A call that starts a resolution waits for it;
when it ends, notice goes to those who wait, in order. -/
def take (f : Filter) (p : Pipe) : Turn → Program (Pipe × List Turn)
  | .call n => do
    let q ← p.advance f n
    let started := p.finding.isNone && q.finding.isSome
    return (q, q.callTurns n ++ if started then [.resolution] else [])
  | .resolution => do
    let q ← p.resolve
    return (q, if q.finding.isSome then [.resolution]
      else q.resolution.waiting.map fun (n, _) => .notice n)
  | .notice n => return (p, [.wake n])
  | .wake n => do
    let q ← p.wake f n
    return (q, q.callTurns n)

def takeAll (f : Filter) : (limit : Nat) → Pipe → List Turn → Program Pipe
  | _, p, [] => return p
  | 0, p, _ => return p
  | limit + 1, p, t :: queue => do
    let (q, next) ← p.take f t
    takeAll f limit q (queue ++ next)

/-- As many turns as there can be. A call pauses at most once for each predicate, and takes three
turns more: to start, to get notice and to wake. It may start a resolution, which pauses at most
four times: for the privilege and while the rulesets are read. -/
def turnLimit (f : Filter) (p : Pipe) : Nat :=
  p.calls.length * (f.authority.policy.overrides.predicates + 8)

/-- Records that come together: all arrive, and their calls go on in turns. -/
def feed (f : Filter) (p : Pipe) (records : List Record) : Program Pipe :=
  let q := records.foldl (arrive f) p
  takeAll f (turnLimit f q) q
    ((List.range records.length).map fun i => .call (p.calls.length + i))

end Pipe

end AccessControl
