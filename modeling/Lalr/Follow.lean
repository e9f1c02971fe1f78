import Lalr.Digraph.Cycle
import Lalr.Digraph.Order
import Lalr.Extended
import Lalr.First
import Lalr.Groups

/-!
# Lalr.Follow

FOLLOW sets of instances: the terminals that can come right after an instance, in the context in
which it was recognised.

Every place where an instance stands inside a production contributes the FIRST set of what comes
after it.  If all of that can vanish, the instance also gets the FOLLOW set of the production, which
is recorded as a dependency.  Dependencies may form cycles, whose members must all end up with the
same set: cycles are merged into groups until none is left, and the groups are then resolved in
order.
-/

namespace Lalr

/-- Why the FOLLOW sets of an extended grammar cannot be computed. -/
inductive FollowError where
  /-- A symbol after an instance has no FIRST set. -/
  | unknownSymbol (symbol : Symbol)
  /-- A rule has fewer states than its symbols need. -/
  | missingState (rule : ExtendedRule)
  /-- An instance that others depend on has no set. -/
  | missingInstance (instance_ : Instance)
deriving DecidableEq, Repr

/-- The FOLLOW sets by instance, and the groups of instances that had to be merged. -/
structure FollowSets where
  sets : Keyed Instance SymbolSet
  merged : List (List Instance)

namespace FollowSets

/-! ## contributions and dependencies -/

/-- What the rules say: the direct contributions to each instance, and on which instances each one
depends. -/
structure Equations where
  direct : Keyed Instance SymbolSet
  dependencies : Digraph Instance

/-- Before any rule is read: the start instance is followed by the end of the stream. -/
def Equations.initial : Equations :=
  ⟨Keyed.ofList [(⟨startSymbol, 0⟩, SymbolSet.ofList [endMarker])], ∅⟩

/-- Read one occurrence: `owner` is the instance that the rule recognises, and `rest` holds the
symbols after the occurrence. -/
def Equations.addOccurrence (firsts : FirstSets) (owner occurrence : Instance) (rest : List Symbol)
    (eqs : Equations) : Except FollowError Equations :=
  match firsts.ofSequence rest with
  | .error e => .error (.unknownSymbol e.symbol)
  | .ok first =>
    let direct := eqs.direct.update occurrence ∅ (·.union (first.erase epsilon))
    if epsilon ∈ first ∧ occurrence ≠ owner then
      .ok ⟨direct, eqs.dependencies.addEdge occurrence owner⟩
    else .ok ⟨direct, eqs.dependencies⟩

/-- Read the symbols of a rule together with the states from which they are recognised; terminals
have no instances and need no state. -/
def Equations.addSymbols (terminals : List Symbol) (firsts : FirstSets) (rule : ExtendedRule)
    (owner : Instance) : List Symbol → List Nat → Equations → Except FollowError Equations
  | [], _, eqs => .ok eqs
  | s :: rest, states, eqs =>
    if s ∈ terminals then addSymbols terminals firsts rule owner rest states.tail eqs
    else
      match states with
      | [] => .error (.missingState rule)
      | q :: states => do
        addSymbols terminals firsts rule owner rest states
          (← eqs.addOccurrence firsts owner ⟨s, q⟩ rest)

/-- Read one rule. -/
def Equations.addRule (terminals : List Symbol) (firsts : FirstSets) (eqs : Equations)
    (rule : ExtendedRule) : Except FollowError Equations :=
  match rule.instance? with
  | none => .error (.missingState rule)
  | some owner =>
    let eqs := { eqs with direct := eqs.direct.update owner ∅ id }
    eqs.addSymbols terminals firsts rule owner rule.production.symbols rule.states

/-- What all rules say. -/
def Equations.ofRules (rules : List ExtendedRule) (terminals : List Symbol) (firsts : FirstSets) :
    Except FollowError Equations :=
  rules.foldlM (addRule terminals firsts) Equations.initial

/-! ## merging cycles -/

/-- Join the members of a cycle into one group. -/
def joinCycle (groups : Groups Instance) : List Instance → Groups Instance
  | [] => groups
  | first :: rest => rest.foldl (fun g x => g.union first x) groups

/-- The graph of the groups: every edge between the representatives of its ends, without the edges
inside a group. -/
def collapse (groups : Groups Instance) (g : Digraph Instance) : Digraph Instance :=
  g.entries.foldl (fun acc e =>
    e.2.foldl (fun acc y =>
      let source := groups.root e.1
      let target := groups.root y
      if source = target then acc else acc.addEdge source target) acc) ∅

/-- A partition of the instances, the cycles that were joined to get there, and the graph of the
groups. -/
structure Condensation where
  groups : Groups Instance
  cycles : List (List Instance)
  graph : Digraph Instance

/-- Join cycles until there is none, or the fuel is spent. -/
def condense : Nat → Condensation → Condensation
  | 0, c => c
  | fuel + 1, c =>
    match c.graph.findCycle with
    | none => c
    | some cycle =>
      let groups := joinCycle c.groups cycle
      condense fuel ⟨groups, c.cycles ++ [cycle], collapse groups c.graph⟩

/-- The condensation of a graph.  Joining a cycle leaves fewer groups with edges, so the fuel is
never spent. -/
def condensation (g : Digraph Instance) : Condensation := condense g.nodes.length ⟨∅, [], g⟩

/-- The groups that were merged, in the order in which their first cycle was found.  One group may
have been merged in several steps. -/
def Condensation.merged (c : Condensation) : List (List Instance) :=
  (c.cycles.foldl (fun acc cycle => cycle.foldl (fun acc x =>
    acc.update (c.groups.root x) [] fun xs => if x ∈ xs then xs else xs ++ [x]) acc)
    (∅ : Keyed Instance (List Instance))).values

/-! ## resolution -/

/-- The set of an instance, which must have one. -/
def lookUp (sets : Keyed Instance SymbolSet) (i : Instance) : Except FollowError SymbolSet :=
  match sets.get? i with
  | some s => .ok s
  | none => .error (.missingInstance i)

/-- The contributions to each group, by its representative. -/
def gather (groups : Groups Instance) (direct : Keyed Instance SymbolSet) :
    Keyed Instance SymbolSet :=
  direct.entries.foldl (fun m e => m.update (groups.root e.1) ∅ (·.union e.2)) ∅

/-- Add to the set of an instance the sets of all instances it depends on. -/
def resolveNode (graph : Digraph Instance) (sets : Keyed Instance SymbolSet) (i : Instance) :
    Except FollowError (Keyed Instance SymbolSet) :=
  (graph.targets i).foldlM (fun sets needed => do
    let own ← lookUp sets i
    let more ← lookUp sets needed
    return sets.set i (own.union more)) sets

/-- Resolve all groups in dependency order. -/
def resolve (c : Condensation) (direct : Keyed Instance SymbolSet) :
    Except FollowError (Keyed Instance SymbolSet) :=
  c.graph.postOrder.foldlM (resolveNode c.graph) (gather c.groups direct)

/-- The FOLLOW sets of an extended grammar. -/
def ofRules (rules : List ExtendedRule) (terminals : List Symbol) (firsts : FirstSets) :
    Except FollowError FollowSets := do
  let eqs ← Equations.ofRules rules terminals firsts
  let c := condensation eqs.dependencies
  let resolved ← resolve c eqs.direct
  let sets ← eqs.direct.keys.mapM fun i => do return (i, ← lookUp resolved (c.groups.root i))
  return ⟨Keyed.ofList sets, c.merged⟩

/-! ## text -/

/-- A group with its members in listing order. -/
def sortedGroup (group : List Instance) : List Instance := group.mergeSort Instance.before

/-- The sets and the merged groups as text, a line each. -/
def text (f : FollowSets) : String :=
  let setLines := f.sets.entries.map fun e => "FOLLOW(" ++ e.1.text ++ ") = " ++ e.2.text
  let groupLines := f.merged.map fun group =>
    "merged: " ++ ", ".intercalate ((sortedGroup group).map Instance.text)
  "\n".intercalate (setLines ++ groupLines)

end FollowSets

end Lalr
