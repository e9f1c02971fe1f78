import Lalr.Module.Emission
import Lalr.Proofs.Code.Literal
import Lalr.Proofs.Keyed
import Lalr.Proofs.Module.Section

/-!
# Lalr.Proofs.Module.Data

The data of a module is the data that it was emitted for.  Terminals, actions, rows and tables are written as
literals that construct them again (`readTerminals?_terminalLines`, `readTable?_tableLines`), on lines that have
printable characters only and are no markers.
-/

namespace Lalr

open Code Code.Datum

/-! ## reading data -/

/-- The arguments of a call of a constructor with some of its parameters, each named once. -/
def Code.Datum.argumentsOf? (constructor : String) (parameters : List String) :
    Datum → Option (Keyed String Datum)
  | .record name arguments =>
    if h : (arguments.map Prod.fst).Nodup then
      if name = constructor ∧ ∀ a ∈ arguments, a.1 ∈ parameters then some ⟨arguments, h⟩ else none
    else none
  | _ => none

/-- The terminal that a literal constructs.  It is kept unless it is said to be skipped. -/
def Terminal.ofDatum? (d : Datum) : Option Terminal := do
  let arguments ← d.argumentsOf? "Terminal" ["name", "pattern", "skip"]
  let name ← (arguments.get? "name").bind Datum.text?
  let pattern ← (arguments.get? "pattern").bind Datum.text?
  let skip ← ((arguments.get? "skip").getD (.truth false)).truth?
  return { name, pattern, skip }

/-- The action that a literal constructs. -/
def Action.ofDatum? (d : Datum) : Option Action :=
  (do let arguments ← d.argumentsOf? "Shift" ["state"]
      return .shift (← (arguments.get? "state").bind Datum.number?)) <|>
  (do let arguments ← d.argumentsOf? "Reduce" ["rule", "name", "count"]
      let rule ← (arguments.get? "rule").bind Datum.number?
      let name ← (arguments.get? "name").bind Datum.text?
      let count ← (arguments.get? "count").bind Datum.number?
      return .reduce rule name count) <|>
  (do let arguments ← d.argumentsOf? "Goto" ["state"]
      return .goto (← (arguments.get? "state").bind Datum.number?)) <|>
  (do let _ ← d.argumentsOf? "Accept" []
      return .accept)

/-- The entry of a row that a key and a value stand for. -/
def Row.entryOfData? (e : Datum × Datum) : Option (Symbol × Action) := do
  return (← e.1.text?, ← Action.ofDatum? e.2)

/-- The row that a dictionary is.  Of entries for one symbol the last one counts. -/
def Row.ofDatum? (d : Datum) : Option Row := do
  return Keyed.ofList (← (← d.entries?).mapM Row.entryOfData?)

/-- The table that a literal constructs. -/
def Table.ofDatum? (d : Datum) : Option Table := do
  let arguments ← d.argumentsOf? "ParseTable" ["actions"]
  let rows ← (arguments.get? "actions").bind Datum.items?
  return ⟨← rows.mapM Row.ofDatum?⟩

namespace Module

/-- Some lines of a module as a text. -/
def block (ls : List String) : List Char := Text.joinNewlines (ls.map String.toList)

/-- The literal that code gives a certain name. -/
def read? (target : String) (code : List Char) : Option Datum := do
  let (name, d) ← Datum.readAssignment code
  if name = target then some d else none

/-- The terminals that code lists under their name. -/
def readTerminals? (code : List Char) : Option (List Terminal) := do
  (← (← read? "TERMINALS" code).items?).mapM Terminal.ofDatum?

/-- The table that code gives its name. -/
def readTable? (code : List Char) : Option Table := do Table.ofDatum? (← read? "TABLE" code)

end Module

variable {k n : Nat}

/-! ## terminals and actions -/

/-- The names that stand in the data of a module. -/
def dataNames : List String :=
  ["TERMINALS", "TABLE", "Terminal", "name", "pattern", "skip", "ParseTable", "actions", "Shift", "Reduce", "Goto",
    "Accept", "state", "rule", "count"]

theorem isName_of_mem_dataNames {name : String} (h : name ∈ dataNames) : IsName name.toList := by
  -- One evaluation for all of them: a name is a word that is not among the keywords.
  have hall : ∀ name ∈ dataNames, IsName name.toList := by decide +kernel
  exact hall name h

theorem stands_call_of_mem {constructor : String} {xs : List Argument} (hname : constructor ∈ dataNames)
    (hnames : ∀ x ∈ xs, x.name ∈ dataNames) (h : ∀ x ∈ xs, Stands k (read n) x.text x.value) :
    Stands (k + 1) (read (n + 1)) (callText constructor xs) (call constructor xs) :=
  stands_call (isName_of_mem_dataNames hname) fun x hx => ⟨isName_of_mem_dataNames (hnames x hx), h x hx⟩

/-- The arguments that a terminal is written with. -/
def Terminal.arguments (t : Terminal) : List Argument :=
  [⟨"name", Text.quoteChars t.name.toList, .text t.name⟩,
   ⟨"pattern", Text.quoteChars t.pattern.toList, .text t.pattern⟩,
   ⟨"skip", (truthText t.skip).toList, .truth t.skip⟩]

/-- The literal of a terminal. -/
def Terminal.datum (t : Terminal) : Datum := call "Terminal" t.arguments

theorem Terminal.toList_constructor (t : Terminal) : t.constructor.toList = callText "Terminal" t.arguments := by
  have hname : "Terminal(name=".toList = "Terminal".toList ++ '(' :: ("name".toList ++ ['=']) := rfl
  have hpattern : ", pattern=".toList = ',' :: ' ' :: ("pattern".toList ++ ['=']) := rfl
  have hskip : ", skip=".toList = ',' :: ' ' :: ("skip".toList ++ ['=']) := rfl
  have htruth : (if t.skip then "True" else "False") = truthText t.skip := by cases t.skip <;> rfl
  unfold Terminal.constructor
  rw [htruth]
  simp only [arguments, callText, Argument.chars, Text.quote, String.toList_append, String.toList_ofList,
    List.map_cons, List.map_nil, List.intercalate_cons_cons, List.intercalate_singleton, hname, hpattern, hskip,
    List.append_assoc, List.cons_append, List.nil_append]
  rfl

theorem Terminal.stands_datum (t : Terminal) (k n : Nat) :
    Stands (k + 1) (read (n + 2)) t.constructor.toList t.datum := by
  have htext (s : String) : Stands k (read (n + 1)) (Text.quoteChars s.toList) (.text s) := by
    simpa using stands_text k n s.toList
  rw [t.toList_constructor]
  refine stands_call_of_mem (by simp [dataNames]) (by simp [arguments, dataNames]) ?_
  simp only [arguments, List.forall_mem_cons]
  exact ⟨htext t.name, htext t.pattern, stands_truth k n t.skip, List.forall_mem_nil _⟩

theorem Terminal.ofDatum?_datum (t : Terminal) : Terminal.ofDatum? t.datum = some t := rfl

/-- The constructor that an action is written with. -/
def Action.constructor : Action → String
  | .shift _ => "Shift"
  | .reduce .. => "Reduce"
  | .goto _ => "Goto"
  | .accept => "Accept"

/-- The arguments that an action is written with. -/
def Action.arguments : Action → List Argument
  | .shift s => [⟨"state", Nat.toDigits 10 s, .number s⟩]
  | .reduce r name count =>
    [⟨"rule", Nat.toDigits 10 r, .number r⟩, ⟨"name", Text.quoteChars name.toList, .text name⟩,
     ⟨"count", Nat.toDigits 10 count, .number count⟩]
  | .goto s => [⟨"state", Nat.toDigits 10 s, .number s⟩]
  | .accept => []

/-- The literal of an action. -/
def Action.datum (a : Action) : Datum := call a.constructor a.arguments

theorem Action.toList_literal (a : Action) : a.literal.toList = callText a.constructor a.arguments := by
  cases a <;>
  · unfold literal
    simp only [constructor, arguments, callText, Argument.chars, Text.quote, String.toList_append,
      String.toList_ofList, toList_toString, List.map_cons, List.map_nil, List.intercalate_cons_cons,
      List.intercalate_singleton, List.append_assoc]
    rfl

theorem Action.stands_datum (a : Action) (k n : Nat) :
    Stands (k + 1) (read (n + 2)) a.literal.toList a.datum := by
  have htext (s : String) : Stands k (read (n + 1)) (Text.quoteChars s.toList) (.text s) := by
    simpa using stands_text k n s.toList
  have hnumber := stands_number k n
  have hname : a.constructor ∈ dataNames := by cases a <;> simp [constructor, dataNames]
  have hnames : ∀ x ∈ a.arguments, x.name ∈ dataNames := by cases a <;> simp [arguments, dataNames]
  rw [a.toList_literal]
  refine stands_call_of_mem hname hnames ?_
  cases a with
  | shift s | goto s => exact List.forall_mem_singleton.2 (hnumber s)
  | reduce r name count =>
      simp only [arguments, List.forall_mem_cons]
      exact ⟨hnumber r, htext name, hnumber count, List.forall_mem_nil _⟩
  | accept => exact List.forall_mem_nil _

theorem Action.ofDatum?_datum (a : Action) : Action.ofDatum? a.datum = some a := by
  cases a <;> rfl

/-! ## lines -/

/-- The end of a line and the margin of the next. -/
def lineStart (m : Nat) : List Char := '\n' :: List.replicate m ' '

theorem blank_lineStart (m : Nat) : Blank (lineStart m) := (blank_spaces m).newline

theorem Module.block_cons (l : String) (ls : List String) :
    Module.block (l :: ls) = l.toList ++ ls.flatMap fun l => '\n' :: l.toList := by
  induction ls generalizing l with
  | nil => simp [Module.block, Text.joinNewlines]
  | cons l' ls ih =>
      have hcons : Module.block (l :: l' :: ls) = l.toList ++ '\n' :: Module.block (l' :: ls) :=
        Text.joinNewlines_cons l.toList (by simp)
      rw [hcons, ih, List.flatMap_cons, List.cons_append]

/-! ## rows and tables -/

/-- How an entry of a row is written. -/
def Row.entryText (e : Symbol × Action) : List Char := Text.quoteChars e.1.toList ++ ':' :: ' ' :: e.2.literal.toList

/-- What an entry of a row stands for. -/
def Row.entryData (e : Symbol × Action) : Datum × Datum := (.text e.1, e.2.datum)

/-- The literal of a row. -/
def Row.datum (row : Row) : Datum := .dict (row.entries.map entryData)

/-- How a row is written. -/
def Row.text (row : Row) : List Char :=
  '\x7b' :: (row.entries.flatMap (fun e => lineStart 12 ++ (entryText e ++ [','])) ++ (lineStart 8 ++ ['\x7d']))

theorem Row.stands_datum (row : Row) (k n : Nat) :
    Stands (k + 2) (read (n + 3)) row.text row.datum := by
  have hentry (e : Symbol × Action) : Stands (k + 1) (Datum.pair (read (n + 2)) ":" (read (n + 2)))
      (entryText e) (entryData e) := by
    have hkey := stands_text (k + 1) (n + 1) e.1.toList
    rw [String.ofList_toList] at hkey
    exact hkey.entry (e.2.stands_datum k n)
  exact (enclosed_of_forall (fun e _ => ⟨blank_lineStart 12, hentry e⟩) (blank_lineStart 8)).dict

/-- What stands in front of a row: its number in a comment. -/
def rowLayout (i : Nat) : List Char :=
  lineStart 8 ++ '#' :: (' ' :: Nat.toDigits 10 i ++ '\n' :: List.replicate 8 ' ')

theorem blank_rowLayout (i : Nat) : Blank (rowLayout i) := by
  refine (blank_lineStart 8).append (Blank.comment ?_ (blank_spaces 8))
  rw [List.mem_cons, not_or]
  exact ⟨by decide, fun hmem => absurd ((Text.canonical_toDigits i).digits _ hmem) (by decide)⟩

/-- The literal of a table. -/
def Table.datum (t : Table) : Datum := .record "ParseTable" [("actions", .list (t.rows.map Row.datum))]

/-- How the rows of a table are written. -/
def Table.rowsText (t : Table) : List Char :=
  '[' :: (t.rows.zipIdx.flatMap (fun e => rowLayout e.2 ++ (e.1.text ++ [','])) ++ (lineStart 4 ++ [']']))

/-- How a table is written. -/
def Table.literal (t : Table) : List Char :=
  "ParseTable".toList ++ '(' :: (lineStart 4 ++ ("actions".toList ++ '=' :: t.rowsText ++ (['\n'] ++ [')'])))

theorem Table.stands_datum (t : Table) (k n : Nat) : Stands (k + 4) (read (n + 5)) t.literal t.datum := by
  have hrows : Stands (k + 3) (read (n + 4)) t.rowsText (.list (t.rows.map Row.datum)) := by
    have hitems : ∀ e ∈ t.rows.zipIdx, Blank (rowLayout e.2) ∧
        Stands (k + 2) (read (n + 3)) (Row.text e.1) (Row.datum e.1) :=
      fun e _ => ⟨blank_rowLayout e.2, Row.stands_datum e.1 k n⟩
    have hlist := (enclosed_of_forall hitems (blank_lineStart 4)).list
    have hrows : t.rows.zipIdx.map (fun e => Row.datum e.1) = t.rows.map Row.datum := by
      conv_rhs => rw [← List.zipIdx_map_fst 0 t.rows, List.map_map]
      rfl
    rwa [hrows] at hlist
  have hactions : IsName "actions".toList := isName_of_mem_dataNames (by simp [dataNames])
  have hname : IsName "ParseTable".toList := isName_of_mem_dataNames (by simp [dataNames])
  have hbreak : '\n' ∈ wordEnds := by decide
  have hend : ∀ c ∈ ['\n'].head?, c ∈ wordEnds := fun _ hc => Option.mem_some.1 hc ▸ hbreak
  exact (Enclosed.last (blank_lineStart 4) (hrows.named hactions) (blank_lineStart 0) hend).record hname

/-! ## reading back -/

theorem mapM_map_eq_some {α β : Type} {f : α → β} {g : β → Option α} (h : ∀ a, g (f a) = some a) (as : List α) :
    (as.map f).mapM g = some as := by
  induction as with
  | nil => rfl
  | cons a as ih =>
      rw [List.map_cons, List.mapM_cons, h, ih]
      rfl

theorem Row.ofDatum?_datum (row : Row) : Row.ofDatum? row.datum = some row := by
  have hentry (e : Symbol × Action) : entryOfData? (entryData e) = some e := by
    simp [entryOfData?, entryData, Datum.text?, Action.ofDatum?_datum]
  have hentries := mapM_map_eq_some hentry row.entries
  simp [Row.ofDatum?, Row.datum, Datum.entries?, hentries, Keyed.ofList_entries]

theorem Table.ofDatum?_datum (t : Table) : Table.ofDatum? t.datum = some t := by
  have hrows := mapM_map_eq_some Row.ofDatum?_datum t.rows
  have harguments : t.datum.argumentsOf? "ParseTable" ["actions"] =
      some ⟨[("actions", .list (t.rows.map Row.datum))], by simp⟩ := rfl
  have hactions : (Keyed.mk [("actions", Datum.list (t.rows.map Row.datum))] (by simp)).get? "actions" =
      some (.list (t.rows.map Row.datum)) := rfl
  simp [Table.ofDatum?, harguments, hactions, Datum.items?, hrows]

namespace Module

theorem toList_terminalLine (t : Terminal) :
    ("    " ++ t.constructor ++ ",").toList = List.replicate 4 ' ' ++ (t.constructor.toList ++ [',']) := by
  rw [String.toList_append, String.toList_append, List.append_assoc]
  rfl

theorem toList_entryLine (e : Symbol × Action) :
    (entryLine e).toList = List.replicate 12 ' ' ++ (Row.entryText e ++ [',']) := by
  have hmargin : "            ".toList = List.replicate 12 ' ' := rfl
  have hcolon : ": ".toList = [':', ' '] := rfl
  have hcomma : ",".toList = [','] := rfl
  unfold entryLine
  simp only [String.toList_append, Text.quote, String.toList_ofList, hmargin, hcolon, hcomma, Row.entryText,
    List.append_assoc, List.cons_append, List.nil_append]

theorem toList_numberLine (i : Nat) :
    ("        # " ++ toString i).toList = List.replicate 8 ' ' ++ '#' :: ' ' :: Nat.toDigits 10 i := by
  rw [String.toList_append, toList_toString]
  rfl

theorem block_terminalLines (ts : List Terminal) : block (terminalLines ts) =
    "TERMINALS".toList ++ ' ' :: '=' :: ' ' :: '[' ::
      (ts.flatMap (fun t => lineStart 4 ++ (t.constructor.toList ++ [','])) ++ (['\n'] ++ [']'])) := by
  have hopen : "TERMINALS = [".toList = "TERMINALS".toList ++ [' ', '=', ' ', '['] := rfl
  have hclose : ["]"].flatMap (fun l => '\n' :: l.toList) = ['\n'] ++ [']'] := rfl
  rw [terminalLines, List.cons_append, block_cons, List.flatMap_append, List.flatMap_map, hopen, hclose]
  simp only [toList_terminalLine, lineStart, List.append_assoc, List.cons_append, List.nil_append]

theorem flatMap_rowLines (e : Row × Nat) : (rowLines e).flatMap (fun l => '\n' :: l.toList) =
    rowLayout e.2 ++ (Row.text e.1 ++ [',']) := by
  have hopen : "        \x7b".toList = List.replicate 8 ' ' ++ ['\x7b'] := rfl
  have hclose : "        \x7d,".toList = List.replicate 8 ' ' ++ ['\x7d', ','] := rfl
  unfold rowLines
  simp only [List.cons_append, List.flatMap_cons, List.flatMap_append, List.flatMap_map, List.flatMap_nil,
    toList_numberLine, toList_entryLine, hopen, hclose, rowLayout, Row.text, lineStart, List.append_assoc,
    List.nil_append, List.append_nil]

theorem block_tableLines (t : Table) : block (tableLines t) =
    "TABLE".toList ++ ' ' :: '=' :: ' ' :: t.literal := by
  have hopen : "TABLE = ParseTable(".toList = "TABLE".toList ++ ' ' :: '=' :: ' ' :: ("ParseTable".toList ++ ['(']) := rfl
  have hactions : "    actions=[".toList = List.replicate 4 ' ' ++ ("actions".toList ++ ['=', '[']) := rfl
  have hclose : "    ]".toList = List.replicate 4 ' ' ++ [']'] := rfl
  unfold tableLines Table.literal
  rw [List.cons_append, block_cons]
  simp only [List.cons_append, List.flatMap_cons, List.flatMap_append, List.flatMap_assoc, List.flatMap_nil,
    flatMap_rowLines, hopen, hactions, hclose, Table.rowsText, lineStart, List.append_assoc, List.nil_append]
  rfl

/-! ## markers -/

/-- A line that is no marker, whatever ends it. -/
def Unmarked (l : List Char) : Prop := ∀ ending, opens? (l ++ ending) = none ∧ closes (l ++ ending) = false

/-- A line is told from the markers by what stands behind its margin. -/
theorem unmarked_of_front {l front : List Char} (hl : l.dropWhile Text.isBlank = front) (hne : front ≠ [])
    (h : ∀ d ∈ ['B', 'E'], ∀ marker ending, after? ('#' :: ' ' :: d :: marker) (front ++ ending) = none) :
    Unmarked l := by
  intro ending
  have hdrop : (l ++ ending).dropWhile Text.isBlank = front ++ ending := by
    rw [List.dropWhile_append, hl, if_neg (by simpa using hne)]
  have hopening : after? openingMarker (front ++ ending) = none := h 'B' (by decide) _ ending
  have hclosing : after? closingMarker (front ++ ending) = none := h 'E' (by decide) _ ending
  rw [opens?, closes, hdrop, hopening, hclosing]
  exact ⟨rfl, rfl⟩

theorem dropWhile_margin {c : Char} (hc : Text.isBlank c = false) (m : Nat) (s : List Char) :
    (List.replicate m ' ' ++ c :: s).dropWhile Text.isBlank = c :: s := by
  have hspaces : ∀ d ∈ List.replicate m ' ', Text.isBlank d = true := fun d hd => by
    rw [List.eq_of_mem_replicate hd]
    decide
  rw [List.dropWhile_append_of_pos hspaces, List.dropWhile_cons, hc, if_neg Bool.false_ne_true]

theorem unmarked_of_ne {c : Char} {l s : List Char} (hl : l.dropWhile Text.isBlank = c :: s) (hc : c ≠ '#') :
    Unmarked l := by
  refine unmarked_of_front hl (List.cons_ne_nil c s) fun d _ marker ending => ?_
  rw [List.cons_append, after?, if_neg (Ne.symm hc)]

theorem unmarked_comment {c : Char} {l s : List Char} (hl : l.dropWhile Text.isBlank = '#' :: ' ' :: c :: s)
    (hc : c ∉ ['B', 'E']) : Unmarked l := by
  refine unmarked_of_front hl (List.cons_ne_nil _ _) fun d hd marker ending => ?_
  have hne : d ≠ c := fun h => hc (h ▸ hd)
  simp [after?, hne]

/-! ## lines of data -/

/-- Printable characters on a line that is no marker. -/
structure DataLine (l : List Char) : Prop where
  printable : ∀ c ∈ l, Text.isPrintable c = true
  unmarked : Unmarked l

end Module

/-! ### characters -/

theorem printable_ascii {w : List Char} (h : ∀ c ∈ w, Text.within [(0x20, 0x7e)] c = true) :
    ∀ c ∈ w, Text.isPrintable c = true := by
  intro c hc
  have hnot : Text.within Text.unprintableRanges c = false := Text.within_of_disjoint (by decide +kernel) (h c hc)
  rw [Text.isPrintable, hnot]
  rfl

theorem printable_digits (i : Nat) : ∀ c ∈ Nat.toDigits 10 i, Text.isPrintable c = true := by
  have hall : ∀ c ∈ nameChars, Text.within [(0x20, 0x7e)] c = true := by decide
  exact printable_ascii fun c hc => hall c (mem_nameChars_of_mem_toDigits hc)

theorem printable_quoted (s : String) : ∀ c ∈ Text.quoteChars s.toList, Text.isPrintable c = true :=
  fun _ hc => Text.isPrintable_of_mem_quoteChars hc

theorem printable_callText {constructor : String} {xs : List Argument}
    (hc : ∀ c ∈ constructor.toList, Text.isPrintable c = true)
    (h : ∀ x ∈ xs, (∀ c ∈ x.name.toList, Text.isPrintable c = true) ∧ ∀ c ∈ x.text, Text.isPrintable c = true) :
    ∀ c ∈ callText constructor xs, Text.isPrintable c = true := by
  have hsign : Text.isPrintable '=' = true := printable_ascii (w := ['=']) (by decide) _ List.mem_cons_self
  have hopen : Text.isPrintable '(' = true := printable_ascii (w := ['(']) (by decide) _ List.mem_cons_self
  have harguments : ∀ w ∈ xs.map Argument.chars, ∀ c ∈ w, Text.isPrintable c = true := by
    intro w hw
    obtain ⟨x, hx, rfl⟩ := List.mem_map.1 hw
    exact List.forall_mem_append.2 ⟨(h x hx).1, List.forall_mem_cons.2 ⟨hsign, (h x hx).2⟩⟩
  rw [callText, List.forall_mem_append, List.forall_mem_cons, List.forall_mem_append]
  exact ⟨hc, hopen, forall_mem_intercalate (printable_ascii (by decide)) harguments, printable_ascii (by decide)⟩

theorem Terminal.printable_constructor (t : Terminal) : ∀ c ∈ t.constructor.toList, Text.isPrintable c = true := by
  have htruth : ∀ c ∈ (truthText t.skip).toList, Text.within [(0x20, 0x7e)] c = true := by
    cases t.skip <;> decide
  rw [t.toList_constructor]
  refine printable_callText (printable_ascii (by decide)) ?_
  simp only [arguments, List.forall_mem_cons]
  exact ⟨⟨printable_ascii (by decide), printable_quoted t.name⟩,
    ⟨printable_ascii (by decide), printable_quoted t.pattern⟩,
    ⟨printable_ascii (by decide), printable_ascii htruth⟩, List.forall_mem_nil _⟩

theorem Action.printable_literal (a : Action) : ∀ c ∈ a.literal.toList, Text.isPrintable c = true := by
  have hconstructor : ∀ c ∈ a.constructor.toList, Text.within [(0x20, 0x7e)] c = true := by
    cases a <;> (rw [constructor]; decide)
  rw [a.toList_literal]
  refine printable_callText (printable_ascii hconstructor) ?_
  cases a with
  | shift s | goto s =>
      simp only [Action.arguments, List.forall_mem_cons]
      exact ⟨⟨printable_ascii (by decide), printable_digits s⟩, List.forall_mem_nil _⟩
  | reduce r name count =>
      simp only [Action.arguments, List.forall_mem_cons]
      exact ⟨⟨printable_ascii (by decide), printable_digits r⟩, ⟨printable_ascii (by decide), printable_quoted name⟩,
        ⟨printable_ascii (by decide), printable_digits count⟩, List.forall_mem_nil _⟩
  | accept => exact List.forall_mem_nil _

/-! ### whole lines -/

namespace Module

/-- The lines without data between those with data. -/
def frameLines : List String :=
  ["TERMINALS = [", "]", "TABLE = ParseTable(", "    actions=[", "        \x7b", "        \x7d,", "    ]", ")"]

theorem dataLine_of_mem_frameLines {l : String} (h : l ∈ frameLines) : DataLine l.toList := by
  have hall : ∀ l ∈ frameLines, (∀ c ∈ l.toList, Text.within [(0x20, 0x7e)] c = true) ∧
      (l.toList.dropWhile Text.isBlank).head?.any (· ≠ '#') = true := by decide
  obtain ⟨hprintable, hfirst⟩ := hall l h
  obtain ⟨c, hc, hne⟩ := (Option.any_eq_true _ _).1 hfirst
  obtain ⟨s, hs⟩ := List.head?_eq_some_iff.1 hc
  exact ⟨printable_ascii hprintable, unmarked_of_ne hs (by simpa using hne)⟩

theorem printable_margin (m : Nat) : ∀ c ∈ List.replicate m ' ', Text.isPrintable c = true := by
  refine printable_ascii fun c hc => ?_
  rw [List.eq_of_mem_replicate hc]
  decide

/-- A line with a margin and a comma at its end. -/
theorem dataLine_of_first {m : Nat} {c : Char} {s l : List Char} (hl : l = List.replicate m ' ' ++ (c :: s ++ [',']))
    (hblank : Text.isBlank c = false) (hc : c ≠ '#') (hs : ∀ d ∈ c :: s, Text.isPrintable d = true) : DataLine l := by
  subst hl
  refine ⟨?_, unmarked_of_ne (dropWhile_margin hblank m _) hc⟩
  exact List.forall_mem_append.2 ⟨printable_margin m, List.forall_mem_append.2 ⟨hs, printable_ascii (by decide)⟩⟩

theorem dataLine_terminal (t : Terminal) : DataLine ("    " ++ t.constructor ++ ",").toList := by
  obtain ⟨s, hs⟩ : ∃ s, t.constructor.toList = 'T' :: s := ⟨_, t.toList_constructor⟩
  have hprintable := t.printable_constructor
  rw [hs] at hprintable
  refine dataLine_of_first (m := 4) ?_ (by decide) (by decide) hprintable
  rw [toList_terminalLine, hs]

theorem dataLine_entry (e : Symbol × Action) : DataLine (entryLine e).toList := by
  have hquote : Text.isBlank (Text.quoteFor e.1.toList) = false ∧ Text.quoteFor e.1.toList ≠ '#' := by
    rcases Text.quoteFor_eq e.1.toList with h | h <;> rw [h] <;> decide
  have hcolon := printable_ascii (w := [':', ' ']) (by decide)
  have hvalue := List.forall_mem_append.2 ⟨hcolon, e.2.printable_literal⟩
  have hentry := List.forall_mem_append.2 ⟨printable_quoted e.1, hvalue⟩
  exact dataLine_of_first (toList_entryLine e) hquote.1 hquote.2 hentry

theorem dataLine_number (i : Nat) : DataLine ("        # " ++ toString i).toList := by
  have hdigits := (Text.canonical_toDigits i).digits
  have hprintable := printable_digits i
  obtain ⟨c, s, hs⟩ := List.exists_cons_of_ne_nil (Text.canonical_toDigits i).ne_nil
  rw [toList_numberLine]
  rw [hs] at hdigits hprintable ⊢
  have hc : c ∉ ['B', 'E'] := fun hmem => by
    have hletters : ∀ c ∈ ['B', 'E'], c.isDigit = false := by decide
    exact absurd (hdigits c List.mem_cons_self) (by simp [hletters c hmem])
  have hsign := printable_ascii (w := ['#', ' ']) (by decide)
  have hcomment := List.forall_mem_append.2 ⟨hsign, hprintable⟩
  exact ⟨List.forall_mem_append.2 ⟨printable_margin 8, hcomment⟩,
    unmarked_comment (dropWhile_margin (by decide) 8 _) hc⟩

theorem dataLine_of_mem_rowLines {e : Row × Nat} {l : String} (h : l ∈ rowLines e) : DataLine l.toList := by
  unfold rowLines at h
  simp only [List.mem_append, List.mem_cons, List.mem_map, List.not_mem_nil, or_false] at h
  rcases h with (rfl | rfl | ⟨x, -, rfl⟩) | rfl
  · exact dataLine_number e.2
  · exact dataLine_of_mem_frameLines (by decide)
  · exact dataLine_entry x
  · exact dataLine_of_mem_frameLines (by decide)

theorem dataLine_of_mem_terminalLines {ts : List Terminal} {l : String} (h : l ∈ terminalLines ts) :
    DataLine l.toList := by
  unfold terminalLines at h
  simp only [List.mem_append, List.mem_cons, List.mem_map, List.not_mem_nil, or_false] at h
  rcases h with (rfl | ⟨t, -, rfl⟩) | rfl
  · exact dataLine_of_mem_frameLines (by decide)
  · exact dataLine_terminal t
  · exact dataLine_of_mem_frameLines (by decide)

theorem dataLine_of_mem_tableLines {t : Table} {l : String} (h : l ∈ tableLines t) : DataLine l.toList := by
  unfold tableLines at h
  simp only [List.mem_append, List.mem_cons, List.mem_flatMap, List.not_mem_nil, or_false] at h
  rcases h with (rfl | rfl | ⟨e, -, h⟩) | rfl | rfl
  · exact dataLine_of_mem_frameLines (by decide)
  · exact dataLine_of_mem_frameLines (by decide)
  · exact dataLine_of_mem_rowLines h
  · exact dataLine_of_mem_frameLines (by decide)
  · exact dataLine_of_mem_frameLines (by decide)

/-! ## data as it is emitted -/

theorem plain_of_printable {l : List Char} (h : ∀ c ∈ l, Text.isPrintable c = true) : Text.Plain l := by
  have hall : ∀ c ∈ Text.boundaries, Text.isPrintable c = false := by decide +kernel
  refine fun c hc => Bool.eq_false_iff.2 fun hboundary => ?_
  exact absurd (h c hc) (by simp [hall c (Text.mem_boundaries hboundary)])

/-- The characters of a block of data are printable, apart from the line ends. -/
theorem forall_mem_block {ls : List String} (h : ∀ l ∈ ls, DataLine l.toList) :
    ∀ c ∈ block ls, c ≠ '\r' ∧ c ≠ '\x00' := by
  have hline : ∀ l ∈ ls, ∀ c ∈ l.toList, c ≠ '\r' ∧ c ≠ '\x00' := by
    intro l hl c hc
    have hprintable := (h l hl).printable c hc
    constructor <;>
    · rintro rfl
      exact absurd hprintable (by rw [isPrintable_of_mem_lineBreaks (by decide)]; decide)
  cases ls with
  | nil => exact List.forall_mem_nil _
  | cons l ls =>
      obtain ⟨hl, hls⟩ := List.forall_mem_cons.1 hline
      rw [block_cons]
      refine List.forall_mem_append.2 ⟨hl, fun c hc => ?_⟩
      obtain ⟨l', hl', hc⟩ := List.mem_flatMap.1 hc
      rcases List.mem_cons.1 hc with rfl | hc
      · decide
      · exact hls l' hl' c hc

theorem readTerminals?_terminalLines (ts : List Terminal) : readTerminals? (block (terminalLines ts)) = some ts := by
  have hcode := block_terminalLines ts
  have hlength : 3 ≤ (block (terminalLines ts)).length := by simp [hcode]
  obtain ⟨n, hn⟩ := Nat.exists_eq_add_of_le' hlength
  have hitems : ∀ t ∈ ts, Blank (lineStart 4) ∧ Stands 1 (read (n + 2)) t.constructor.toList t.datum :=
    fun t _ => ⟨blank_lineStart 4, t.stands_datum 0 n⟩
  have hlist := (enclosed_of_forall hitems (blank_lineStart 0)).list
  have hread : readAssignment (block (terminalLines ts)) = some ("TERMINALS", .list (ts.map Terminal.datum)) := by
    refine readAssignment_eq (isName_of_mem_dataNames (by simp [dataNames])) hcode (hn ▸ hlist) (by decide) ?_ ?_
    · exact forall_mem_block fun _ => dataLine_of_mem_terminalLines
    · rw [hcode]
      simp only [List.getLast?_append, List.getLast?_cons, List.getLast?_nil, Option.getD_none, Option.some_or,
        Option.getD_some]
      decide
  simp [readTerminals?, read?, hread, Datum.items?, mapM_map_eq_some Terminal.ofDatum?_datum]

theorem readTable?_tableLines (t : Table) : readTable? (block (tableLines t)) = some t := by
  have hcode := block_tableLines t
  have hlength : 5 ≤ (block (tableLines t)).length := by simp [hcode]
  obtain ⟨n, hn⟩ := Nat.exists_eq_add_of_le' hlength
  have hread : readAssignment (block (tableLines t)) = some ("TABLE", t.datum) := by
    refine readAssignment_eq (isName_of_mem_dataNames (by simp [dataNames])) hcode (hn ▸ t.stands_datum 0 n) (by decide) ?_ ?_
    · exact forall_mem_block fun _ => dataLine_of_mem_tableLines
    · rw [hcode]
      unfold Table.literal
      simp only [List.getLast?_append, List.getLast?_cons, List.getLast?_nil, Option.getD_none, Option.some_or,
        Option.getD_some]
      decide
  simp [readTable?, read?, hread, Table.ofDatum?_datum]

/-- The emitted data is the data.  The blocks of lines for terminals and for a table are read back as those
terminals and that table, for any names, patterns, rows and numbers of states.  So blocks are the same only for the
same data.  No line of them is broken, and none is a marker, whatever ends it. -/
theorem data_read_back (ts : List Terminal) (t : Table) :
    readTerminals? (block (terminalLines ts)) = some ts ∧ readTable? (block (tableLines t)) = some t ∧
      (∀ l ∈ terminalLines ts ++ tableLines t, Text.Plain l.toList ∧
        ∀ ending, opens? (l.toList ++ ending) = none ∧ closes (l.toList ++ ending) = false) ∧
      (∀ ts', block (terminalLines ts') = block (terminalLines ts) ↔ ts' = ts) ∧
      ∀ t', block (tableLines t') = block (tableLines t) ↔ t' = t := by
  refine ⟨readTerminals?_terminalLines ts, readTable?_tableLines t, fun l hl => ?_, fun ts' => ⟨fun h => ?_, ?_⟩,
    fun t' => ⟨fun h => ?_, ?_⟩⟩
  · have hline : DataLine l.toList :=
      (List.mem_append.1 hl).elim dataLine_of_mem_terminalLines dataLine_of_mem_tableLines
    exact ⟨plain_of_printable hline.printable, hline.unmarked⟩
  · have hread := readTerminals?_terminalLines ts'
    rw [h, readTerminals?_terminalLines] at hread
    exact (Option.some.inj hread).symm
  · rintro rfl
    rfl
  · have hread := readTable?_tableLines t'
    rw [h, readTable?_tableLines] at hread
    exact (Option.some.inj hread).symm
  · rintro rfl
    rfl

end Module

end Lalr
