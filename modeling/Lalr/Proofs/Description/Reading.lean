import Lalr.Proofs.Description.Tree
import Lalr.Proofs.Parser.Completeness
import Lalr.Proofs.Parser.OnDemand

/-!
# Lalr.Proofs.Description.Reading

Reading written descriptions.  Whatever the layout of a description, reading it gives the grammar that it
describes (`read_of_laidOut`): the tokens come out of the text, they have a parse tree, and the description
is read off that.
-/

namespace Lalr

/-- Types in brackets are printed like the types themselves. -/
theorem TypeName.texts_eq (ts : List TypeName) : texts ts = ts.map text := by
  induction ts with
  | nil => rw [texts, List.map_nil]
  | cons t ts ih => cases t <;> rw [texts, ih, List.map_cons, text]

namespace Description

theorem exists_construction : ∃ c, construction = .ok c := by
  have heval : construction.toOption.map (fun _ => ()) = some () := by with_unfolding_all decide
  obtain ⟨c, hc, -⟩ := exists_ok_of_map_toOption heval
  exact ⟨c, hc⟩

theorem exists_lexicon : ∃ l, lexicon = .ok l := by
  have heval : lexicon.toOption.map (fun _ => ()) = some () := by with_unfolding_all decide
  obtain ⟨l, hl, -⟩ := exists_ok_of_map_toOption heval
  exact ⟨l, hl⟩

/-- The text of a written description is parsed, and the description is read off the tree. -/
theorem parse_of_laidOut {d : Description} {text : String} (hd : d.Written)
    (htext : LaidOut d.tokens text.toList) :
    ∃ T, parse (.ofString text) = .ok T ∧ ofTree? T = some (unwrap d) := by
  obtain ⟨c, hc⟩ := exists_construction
  obtain ⟨l, hl⟩ := exists_lexicon
  have hbuilt : Construction.Built format c := Construction.built_of_ofGrammar hc
  have hsem : semantics.actions.length = format.rules.length := by simp [semantics, Semantics.tree, format]
  obtain ⟨tokens, p, hyields, hentries⟩ := exists_yields_of_laidOut hl hd.isToken htext
  obtain ⟨T, hT, rfl, hread⟩ := reads_description hd tokens hentries
  have hlisted : Parser.parseTokens c.table semantics T.tokens = some (.ok T) :=
    (parseTokens_of_parseTree hbuilt hT).1
  obtain ⟨r, hr, -, hended, -⟩ := (Parser.agrees_of_yields hbuilt hsem hyields).exists_result
  obtain rfl : Except.ok T = r := Option.some.inj (hlisted.symm.trans hr)
  refine ⟨T, ?_, hread⟩
  rw [parse, hc, hl, parseWith]
  simp only [hended p rfl, Except.mapError]
  rfl

/-! ## what is described -/

theorem filterMap_unwrap {α : Type} {f : Declaration → Option α} {g : α → α}
    (h : ∀ d, f (unwrapDeclaration d) = (f d).map g) (ds : List Declaration) :
    (ds.map unwrapDeclaration).filterMap f = (ds.filterMap f).map g := by
  rw [List.filterMap_map, List.map_filterMap]
  exact congrArg (List.filterMap · ds) (funext h)

theorem start?_unwrap (ds : List Declaration) :
    (ds.map unwrapDeclaration).filterMap Declaration.start? = ds.filterMap Declaration.start? := by
  have h := filterMap_unwrap (f := Declaration.start?) (g := id) (fun d => by cases d <;> rfl) ds
  rwa [List.map_id] at h

theorem ruleName?_unwrap (ds : List Declaration) :
    (ds.map unwrapDeclaration).filterMap Declaration.ruleName? = ds.filterMap Declaration.ruleName? := by
  have h := filterMap_unwrap (f := Declaration.ruleName?) (g := id) (fun d => by cases d <;> rfl) ds
  rwa [List.map_id] at h

theorem rules_unwrap (ds : List Declaration) : (ds.map unwrapDeclaration).flatMap Declaration.rules =
    (ds.flatMap Declaration.rules).map fun r => ⟨r.production, stripCode r.code, r.returns⟩ := by
  have h (d : Declaration) : (unwrapDeclaration d).rules =
      d.rules.map fun r => ⟨r.production, stripCode r.code, r.returns⟩ := by
    cases d with
    | rule name returns alternatives =>
        simp [unwrapDeclaration, Declaration.rules, unwrapAlternative]
    | header | start | terminal => rfl
  rw [List.flatMap_map, List.map_flatMap]
  exact congrArg (List.flatMap · ds) (funext h)

/-- Whatever its layout, the text of a written description is read as the grammar that it describes: its
name; its terminals with their patterns out of the quotes; an alternative of a rule as a production with
its code out of the braces and without margin, and with its type as it is printed; the headers with a
blank line between them; and the last start declared, or else the first rule. -/
theorem read_of_laidOut {d : Description} {text : String} (hd : d.Written)
    (htext : LaidOut d.tokens text.toList) : ∃ g, read (.ofString text) = .ok g ∧
      g.name = d.name ∧
      g.terminals = (d.declarations.filterMap Declaration.terminal?).map
        (fun t => ⟨t.name, unquote t.pattern, t.skip⟩) ∧
      g.rules = (d.declarations.flatMap Declaration.rules).map
        (fun r => ⟨r.production, stripCode r.code, r.returns⟩) ∧
      g.header = "\n\n".intercalate ((d.declarations.filterMap Declaration.header?).map stripCode) ∧
      (∀ start, (d.declarations.filterMap Declaration.start?).getLast? = some start → g.start = start) ∧
      (d.declarations.filterMap Declaration.start? = [] →
        g.start = (d.declarations.filterMap Declaration.ruleName?).headD "") := by
  obtain ⟨T, hT, hread⟩ := parse_of_laidOut hd htext
  refine ⟨(unwrap d).toGrammar, ?_, rfl, ?_, ?_, ?_, ?_, ?_⟩
  · rw [read, hT]
    simp only [hread, bind, Except.bind]
    rfl
  · exact filterMap_unwrap (fun e => by cases e <;> rfl) d.declarations
  · exact rules_unwrap d.declarations
  · exact congrArg ("\n\n".intercalate ·) (filterMap_unwrap (fun e => by cases e <;> rfl) d.declarations)
  · intro start hstart
    rw [toGrammar, Description.start, unwrap, start?_unwrap, hstart]
  · intro hnone
    rw [toGrammar, Description.start, unwrap, start?_unwrap, hnone, List.headD_eq_head?_getD,
      ← ruleName?_unwrap, List.head?_filterMap]
    rfl

/-- A description of one terminal and one rule. -/
def sample : Description where
  name := "Calc"
  declarations := [.terminal ⟨"NUM", "\"[0-9]+\"", false⟩,
    .rule "sum" (.applied "list" [.simple "int"]) [⟨["sum", "NUM"], "\x7b $0 + [$1] \x7d"⟩, ⟨[], "\x7b\x7d"⟩]]

/-- The description as it may be written. -/
def sampleText : String :=
  "# numbers\n@grammar Calc ; NUM : \"[0-9]+\" ; sum @returns list [ int ] : sum NUM \x7b $0 + [$1] \x7d | \x7b\x7d ;"

theorem follows_spaced (ts : List (Symbol × String)) :
    Follows ts (ts.flatMap fun e => ' ' :: e.2.toList) := by
  induction ts with
  | nil => exact .nil (.layout .nil)
  | cons e ts ih => exact .cons (.blank (by decide) .nil) (List.cons_ne_nil ' ' []) ih

theorem laidOut_sample : LaidOut sample.tokens sampleText.toList := by
  have htext : sampleText.toList = '#' :: (" numbers".toList ++ ['\n']) ++ ("@grammar".toList ++
      sample.tokens.tail.flatMap fun e => ' ' :: e.2.toList) := by decide
  have hsep : Layout ('#' :: (" numbers".toList ++ ['\n'])) := .comment (by decide) .nil
  rw [htext]
  exact .cons hsep (follows_spaced sample.tokens.tail)

theorem isString_of_plain (cs : List Char) (h : cs.all (· ∉ ['"', '\\', '\n']) = true) :
    IsString ('"' :: (cs ++ ['"'])) := by
  have hplain (c : Char) (hc : c ∈ cs) := of_decide_eq_true (List.all_eq_true.1 h c hc)
  refine ⟨cs.map fun c => [c], List.forall_mem_map.2 fun c hc => .inl ⟨c, hplain c hc, rfl⟩, ?_⟩
  rw [← List.flatMap_def, List.flatMap_singleton']

theorem block_of_plain (n : Nat) (cs : List Char) (h : cs.all (· ∉ ['\x7b', '\x7d']) = true) :
    Block (n + 1) ('\x7b' :: (cs ++ ['\x7d'])) := by
  have hplain (c : Char) (hc : c ∈ cs) := of_decide_eq_true (List.all_eq_true.1 h c hc)
  refine ⟨cs.map fun c => [c], List.forall_mem_map.2 fun c hc => .inl ⟨c, hplain c hc, rfl⟩, ?_⟩
  rw [← List.flatMap_def, List.flatMap_singleton']

theorem written_sample : sample.Written := by
  have hname : ∀ n ∈ ["Calc", "NUM", "sum", "list", "int"], IsName n.toList := by decide
  have hstring : IsString "\"[0-9]+\"".toList :=
    isString_of_plain "[0-9]+".toList (by decide)
  have hcode : Block 3 "\x7b $0 + [$1] \x7d".toList :=
    block_of_plain 2 " $0 + [$1] ".toList (by decide)
  have hempty : Block 3 "\x7b\x7d".toList := block_of_plain 2 [] (by decide)
  have htype : (TypeName.applied "list" [.simple "int"]).Written :=
    .applied (hname _ (by decide)) (List.cons_ne_nil _ _)
      (List.forall_mem_singleton.2 (.simple (hname _ (by decide))))
  refine ⟨hname _ (by decide), List.forall_mem_cons.2 ⟨⟨hname _ (by decide), hstring⟩,
    List.forall_mem_singleton.2 ⟨hname _ (by decide), htype, List.cons_ne_nil _ _,
      List.forall_mem_cons.2 ⟨⟨?_, hcode⟩, List.forall_mem_singleton.2 ⟨nofun, hempty⟩⟩⟩⟩⟩
  exact List.forall_mem_cons.2 ⟨hname _ (by decide), List.forall_mem_singleton.2 (hname _ (by decide))⟩

/-- The sample is read as the grammar that it describes. -/
theorem read_sample : sample.Written ∧ LaidOut sample.tokens sampleText.toList ∧
    ∃ g, read (.ofString sampleText) = .ok g ∧ g.name = "Calc" ∧
      g.terminals = [⟨"NUM", "[0-9]+", false⟩] ∧
      g.rules = [⟨⟨"sum", ["sum", "NUM"]⟩, "$0 + [$1]", "list[int]"⟩, ⟨⟨"sum", []⟩, "", "list[int]"⟩] ∧
      g.header = "" ∧ g.start = "sum" := by
  obtain ⟨g, hread, hname, hterminals, hrules, hheader, -, hstart⟩ :=
    read_of_laidOut written_sample laidOut_sample
  have htype : (TypeName.applied "list" [.simple "int"]).text = "list[int]" := by
    rw [TypeName.text, TypeName.texts_eq, List.map_singleton, TypeName.text]
    decide
  have hrules' : (sample.declarations.flatMap Declaration.rules) =
      [⟨⟨"sum", ["sum", "NUM"]⟩, "\x7b $0 + [$1] \x7d", "list[int]"⟩,
        ⟨⟨"sum", []⟩, "\x7b\x7d", "list[int]"⟩] := by
    rw [← htype]
    rfl
  rw [hrules'] at hrules
  exact ⟨written_sample, laidOut_sample, g, hread, hname, hterminals.trans (by with_unfolding_all decide),
    hrules.trans (by decide), hheader.trans (by decide),
    (hstart (by decide)).trans (by decide)⟩

end Description

end Lalr
