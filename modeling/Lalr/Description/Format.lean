import Lalr.Grammar.Basic
import Lalr.Pattern.Literal

/-!
# Lalr.Description.Format

The format of descriptions, as a grammar of its own:

    # A tiny calculator.
    @grammar Calc;
    @header { import operator }

    WS : "[ \t\n]+" @skip;
    NUM : "[0-9]+";
    PLUS : "\+";

    expr @returns int : expr PLUS NUM { $0 + int($2.text) }
                      | NUM { int($0.text) }
                      ;

Terminals are matched in the order of their declaration, so keywords go before identifiers.  Braces
may nest two deep inside a code block.
-/

namespace Lalr.Description

/-- A pattern of balanced braces around text without braces and what `inside` matches. -/
def braces (inside : String) : String :=
  "\\\x7b(?:[^\x7b\x7d]|" ++ inside ++ ")*\\\x7d"

/-- The terminals of the format. -/
def terminals : List Terminal :=
  [⟨"WS", "[ \\t\\r\\n]+", true⟩,
   ⟨"COMMENT", "#[^\\n]*", true⟩,
   .literal "GRAMMAR" "@grammar" false,
   .literal "HEADER" "@header" false,
   .literal "AT_START" "@start" false,
   .literal "RETURNS" "@returns" false,
   .literal "SKIP" "@skip" false,
   ⟨"NAME", "[A-Za-z_][A-Za-z0-9_.]*", false⟩,
   ⟨"STRING", "\"(?:[^\"\\\\\\n]|\\\\.)*\"", false⟩,
   ⟨"CODE", braces (braces "\\\x7b[^\x7b\x7d]*\\\x7d"), false⟩,
   .literal "COLON" ":" false,
   .literal "SEMICOLON" ";" false,
   .literal "OR" "|" false,
   .literal "COMMA" "," false,
   .literal "LBRACKET" "[" false,
   .literal "RBRACKET" "]" false]

/-- A rule of the format.  Its value is made from the parse tree, so its code is only a label. -/
def rule (name : Symbol) (symbols : List Symbol) : Rule := ⟨⟨name, symbols⟩, "tree", "Tree"⟩

/-- The rules of the format. -/
def rules : List Rule :=
  [rule "description" ["grammar", "declarations"],
   rule "grammar" ["GRAMMAR", "NAME", "SEMICOLON"],
   rule "declarations" ["declarations", "declaration"],
   rule "declarations" [],
   rule "declaration" ["HEADER", "CODE"],
   rule "declaration" ["AT_START", "NAME", "SEMICOLON"],
   rule "declaration" ["NAME", "COLON", "STRING", "flags", "SEMICOLON"],
   rule "declaration" ["NAME", "RETURNS", "type", "COLON", "alternatives", "SEMICOLON"],
   rule "flags" ["SKIP"],
   rule "flags" [],
   rule "type" ["NAME"],
   rule "type" ["NAME", "LBRACKET", "types", "RBRACKET"],
   rule "types" ["type"],
   rule "types" ["types", "COMMA", "type"],
   rule "alternatives" ["alternative"],
   rule "alternatives" ["alternatives", "OR", "alternative"],
   rule "alternative" ["names", "CODE"],
   rule "names" ["names", "NAME"],
   rule "names" []]

/-- The grammar of the format. -/
def format : Grammar where
  rules := rules
  terminals := terminals
  start := "description"
  name := "description"

end Lalr.Description
