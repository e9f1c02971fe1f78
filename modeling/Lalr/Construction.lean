import Lalr.Automaton.Dump
import Lalr.Follow
import Lalr.Grammar.Validity
import Lalr.Table.Builder

/-!
# Lalr.Construction

From a grammar to its parse table: the automaton, the extended grammar, FIRST and FOLLOW sets, and
the table with a reduction of every instance, at the end of its path, on every terminal that can
follow it.  Every intermediate structure is kept, and can be listed as a report.
-/

namespace Lalr

/-- Why a grammar has no parse table. -/
inductive BuildError where
  /-- The grammar has a mistake. -/
  | grammar (e : GrammarError)
  /-- A production leads out of the automaton. -/
  | transition (e : Automaton.MissingTransition)
  /-- A symbol has no FIRST set. -/
  | first (e : UnknownSymbol)
  /-- The FOLLOW sets cannot be computed. -/
  | follow (e : FollowError)
  /-- An action cannot be installed. -/
  | table (e : TableError)
  /-- A recognised production is not one of the grammar's. -/
  | unknownProduction (p : Production)
  /-- A rule has too few states to be reduced. -/
  | shortRule (r : ExtendedRule)
deriving DecidableEq, Repr

/-- Everything that is built on the way from a grammar to its table. -/
structure Construction where
  automaton : Automaton
  extended : List ExtendedRule
  firsts : FirstSets
  follows : FollowSets
  table : Table

namespace Construction

/-- The synthetic start production. -/
def startProduction (g : Grammar) : Production := Production.of startSymbol [g.start]

/-- The productions together with the synthetic start production, which comes first. -/
def augmented (g : Grammar) : Productions :=
  (Keyed.ofList [(startSymbol, [startProduction g])]).union g.productions

/-- The automaton of a grammar. -/
def automatonOf (g : Grammar) : Automaton :=
  Automaton.build (augmented g) (Item.fresh (startProduction g))

/-! ## filling in the table -/

/-- Install the transitions of one state: shifts on terminals, gotos on all other symbols. -/
def installRow (terminals : List Symbol) (b : TableBuilder) (row : Transitions × Nat) :
    Except TableError TableBuilder :=
  row.1.entries.foldlM (fun b e =>
    if e.1 ∈ terminals then b.setShift row.2 e.1 e.2 else b.setGoto row.2 e.1 e.2) b

/-- Install acceptance where the start production ends. -/
def installAccept (b : TableBuilder) (r : ExtendedRule) : Except BuildError TableBuilder :=
  if r.production.name = startSymbol then
    match r.reduceState? with
    | none => .error (.shortRule r)
    | some q => (b.setAccept q).mapError .table
  else .ok b

/-- Install the reductions of one rule of the extended grammar, in the order of the terminals. -/
def installReduces (follows : FollowSets) (b : TableBuilder) (r : ExtendedRule) :
    Except BuildError TableBuilder :=
  if r.production.name = startSymbol then .ok b
  else
    match b.rules.idxOf? r.production, r.instance?, r.reduceState? with
    | none, _, _ => .error (.unknownProduction r.production)
    | some _, none, _ => .error (.shortRule r)
    | some _, some _, none => .error (.shortRule r)
    | some index, some i, some q =>
      match follows.sets.get? i with
      | none => .error (.follow (.missingInstance i))
      | some set =>
        (set.toList.foldlM (fun (b : TableBuilder) s => b.setReduce q s index) b).mapError .table

/-- The table of an automaton: transitions first, then acceptance, then reductions. -/
def tableOf (g : Grammar) (a : Automaton) (extended : List ExtendedRule) (follows : FollowSets) :
    Except BuildError Table := do
  let b := TableBuilder.start a.transitions g.productionList
  let b ← (a.transitions.zipIdx.foldlM (installRow g.terminalNames) b).mapError BuildError.table
  let b ← extended.foldlM installAccept b
  let b ← extended.foldlM (installReduces follows) b
  return b.table

/-! ## the whole construction -/

/-- The extended grammar of an automaton. -/
def extendedOf (a : Automaton) : Except BuildError (List ExtendedRule) :=
  a.extendedRules.mapError .transition

/-- The FIRST sets of a grammar. -/
def firstsOf (g : Grammar) : Except BuildError FirstSets :=
  (FirstSets.ofGrammar (augmented g) g.terminalNames).mapError .first

/-- The FOLLOW sets of an extended grammar. -/
def followsOf (g : Grammar) (extended : List ExtendedRule) (firsts : FirstSets) :
    Except BuildError FollowSets :=
  (FollowSets.ofRules extended g.terminalNames firsts).mapError .follow

/-- Build everything from a grammar that has been checked. -/
def ofChecked (g : Grammar) : Except BuildError Construction := do
  let a := automatonOf g
  let extended ← extendedOf a
  let firsts ← firstsOf g
  let follows ← followsOf g extended firsts
  let table ← tableOf g a extended follows
  return ⟨a, extended, firsts, follows, table⟩

/-- Check a grammar and build everything. -/
def ofGrammar (g : Grammar) : Except BuildError Construction := do
  g.validate.mapError BuildError.grammar
  ofChecked g

end Construction

end Lalr
