import Lalr.Grammar.Basic
import Lalr.Lexer.Source
import Lalr.Lexer.Token
import Lalr.Pattern.Reader
import Lalr.Pattern.Residual
import Lalr.Text.Quoted

/-!
# Lalr.Lexer.Basic

A maximal-munch lexer.  It reads on as long as what it has read may still begin a match of some
terminal, remembers the longest match on the way, and gives back what it read beyond it.  The lexeme
belongs to the first terminal that matches it, so a keyword is declared before the identifiers that
it looks like.

Characters that were read and not consumed stay pending, also when a read fails; so a failed read
loses nothing.
-/

namespace Lalr

/-- Why there is no token. -/
inductive LexFault where
  /-- No terminal matches at this place: `text` is as much as could begin a match, and the
  character that ended it. -/
  | unexpected (text : List Char)
  /-- No terminal matches a lexeme. -/
  | unclassified (text : List Char)
  /-- The source could not be read. -/
  | unreadable (reason : String)
deriving DecidableEq, Repr

/-- A fault and its place. -/
structure LexError where
  fault : LexFault
  position : Position
deriving DecidableEq, Repr

namespace LexError

/-- The text a fault is about; none for a failed read. -/
def text (e : LexError) : String :=
  match e.fault with
  | .unexpected cs => String.ofList cs
  | .unclassified cs => String.ofList cs
  | .unreadable _ => ""

/-- A text of at most twenty characters, or the first twenty and an ellipsis. -/
def snippet (cs : List Char) : List Char :=
  if cs.length ≤ 20 then cs else cs.take 20 ++ "...".toList

/-- The wording of a fault. -/
def faultMessage : LexFault → String
  | .unexpected cs => "Unexpected character sequence " ++ Text.quote (String.ofList (snippet cs))
  | .unclassified cs => "No terminal matches " ++ Text.quote (String.ofList cs)
  | .unreadable reason => "Unable to read input: " ++ reason

/-- The wording of an error, with its place. -/
def message (e : LexError) : String := e.position.text ++ ": " ++ faultMessage e.fault

end LexError

/-- Terminals with their patterns, ready for lexing: `start` says how the text of a lexeme may
look. -/
structure Lexicon where
  entries : List (Terminal × Pattern)
  start : Pattern.Residue
  start_eq : start = Pattern.Residue.ofPruned (Pattern.anyOf (entries.map Prod.snd))

namespace Lexicon

/-- The lexicon of terminals whose patterns have been read. -/
def ofEntries (entries : List (Terminal × Pattern)) : Lexicon := ⟨entries, _, rfl⟩

/-- Read the pattern of a terminal. -/
def readEntry (t : Terminal) : Except Pattern.PatternError (Terminal × Pattern) := do
  return (t, ← Pattern.ofString t.pattern)

/-- Read the patterns of some terminals. -/
def ofTerminals (ts : List Terminal) : Except Pattern.PatternError Lexicon := do
  return ofEntries (← ts.mapM readEntry)

/-- The patterns of some terminals as one, each in a group of its own.  The start of a lexicon is this
pattern, but without the detour through its text. -/
def combined (ts : List Terminal) : String :=
  "|".intercalate (ts.map fun t => "(?:" ++ t.pattern ++ ")")

/-- The first terminal that matches a lexeme. -/
def classify? (l : Lexicon) (lexeme : List Char) : Option Terminal :=
  (l.entries.find? fun e => e.2.fullMatch lexeme).map Prod.fst

end Lexicon

/-! ## scanning -/

/-- What ended a scan. -/
inductive ScanEnd where
  /-- With this character, what has been read can begin no match. -/
  | blocked (c : Char)
  /-- The source has no more characters. -/
  | finished
  /-- A read failed. -/
  | failed (reason : String)
deriving DecidableEq, Repr

/-- A scan: the text that could begin a match, the length of the longest match, what ended the
scan, and what is pending and unread after it. -/
structure Scan where
  text : List Char
  longest : Nat
  ended : ScanEnd
  pending : List Char
  unread : Source

/-- Scan for the longest match.  `seen` is the text scanned so far, last character first, `length`
its length and `longest` that of the longest match in it; `ahead` holds the pending characters
behind it. -/
def scan (residue : Pattern.Residue) (seen : List Char) (length longest : Nat) (ahead : List Char)
    (unread : Source) : Scan :=
  match ahead, unread with
  | c :: ahead, unread =>
    let next := residue.step c
    if next.alive then
      scan next (c :: seen) (length + 1) (if next.accepts then length + 1 else longest) ahead unread
    else ⟨seen.reverse, longest, .blocked c, seen.reverse ++ c :: ahead, unread⟩
  | [], .char c :: unread =>
    let next := residue.step c
    if next.alive then
      scan next (c :: seen) (length + 1) (if next.accepts then length + 1 else longest) [] unread
    else ⟨seen.reverse, longest, .blocked c, seen.reverse ++ [c], unread⟩
  | [], .failure reason :: unread =>
    ⟨seen.reverse, longest, .failed reason, seen.reverse, unread⟩
  | [], .finish :: _ => ⟨seen.reverse, longest, .finished, seen.reverse, []⟩
  | [], [] => ⟨seen.reverse, longest, .finished, seen.reverse, []⟩
termination_by ahead.length + unread.length

/-- A scan makes no characters. -/
theorem scan_size_le (residue : Pattern.Residue) (seen : List Char) (length longest : Nat)
    (ahead : List Char) (unread : Source) :
    (scan residue seen length longest ahead unread).pending.length +
        (scan residue seen length longest ahead unread).unread.length ≤
      seen.length + ahead.length + unread.length := by
  fun_induction scan residue seen length longest ahead unread <;> simp_all <;> omega

/-- The longest match lies within the pending characters. -/
theorem scan_longest_le (residue : Pattern.Residue) (seen : List Char) (length longest : Nat)
    (ahead : List Char) (unread : Source) (hs : length = seen.length) (hl : longest ≤ length) :
    (scan residue seen length longest ahead unread).longest ≤
      (scan residue seen length longest ahead unread).pending.length := by
  fun_induction scan residue seen length longest ahead unread <;> simp_all <;> grind

/-! ## the lexer -/

/-- A lexer in the middle of its source: the place of the next lexeme, the characters that were
read and not consumed, and what is still to be read. -/
structure Lexer where
  lexicon : Lexicon
  position : Position
  pending : List Char
  unread : Source

namespace Lexer

/-- A lexer at the start of a source. -/
def start (lexicon : Lexicon) (source : Source) : Lexer := ⟨lexicon, .start, [], source⟩

/-- Scan from the current place. -/
def scanHere (l : Lexer) : Scan := scan l.lexicon.start [] 0 0 l.pending l.unread

/-- The number of characters and reads that are left. -/
def size (l : Lexer) : Nat := l.pending.length + l.unread.length

/-- The lexer after a scan that consumed nothing. -/
def retain (l : Lexer) (s : Scan) : Lexer := { l with pending := s.pending, unread := s.unread }

/-- The lexer after a scan that consumed its longest match. -/
def consume (l : Lexer) (s : Scan) : Lexer :=
  { l with
    position := l.position.after (s.pending.take s.longest)
    pending := s.pending.drop s.longest
    unread := s.unread }

theorem size_consume_lt {l : Lexer} (h : l.scanHere.longest ≠ 0) :
    (l.consume l.scanHere).size < l.size := by
  have h₁ := scan_size_le l.lexicon.start [] 0 0 l.pending l.unread
  have h₂ := scan_longest_le l.lexicon.start [] 0 0 l.pending l.unread rfl (Nat.le_refl _)
  simp only [scanHere, size, consume, List.length_drop, List.length_nil] at *
  omega

/-- What a scan that consumed nothing means: the end of the source, or that no terminal matches. -/
def withoutMatch (l : Lexer) (text : List Char) :
    ScanEnd → Except LexError (Option (Terminal × List Char))
  | .blocked c => .error ⟨.unexpected (text ++ [c]), l.position⟩
  | _ => if text.isEmpty then .ok none else .error ⟨.unexpected text, l.position⟩

/-- The lexeme that a scan found, with its terminal. -/
def withMatch (l : Lexer) (lexeme : List Char) : Except LexError (Option (Terminal × List Char)) :=
  match l.lexicon.classify? lexeme with
  | none => .error ⟨.unclassified lexeme, l.position⟩
  | some t => .ok (some (t, lexeme))

/-- What a scan leads to, and the lexer after it. -/
def ofScan (l : Lexer) (s : Scan) : Except LexError (Option (Terminal × List Char)) × Lexer :=
  match s.ended with
  | .failed reason => (.error ⟨.unreadable reason, l.position⟩, l.retain s)
  | _ =>
    if s.longest = 0 then (l.withoutMatch s.text s.ended, l.retain s)
    else (l.withMatch (s.pending.take s.longest), l.consume s)

/-- The next lexeme with its terminal, and the lexer after it.  There is none at the end of the
source. -/
def step (l : Lexer) : Except LexError (Option (Terminal × List Char)) × Lexer :=
  l.ofScan l.scanHere

/-- A scan without a match has no lexeme. -/
theorem withoutMatch_ne_some (l : Lexer) (text : List Char) (ended : ScanEnd)
    (e : Terminal × List Char) : l.withoutMatch text ended ≠ .ok (some e) := by
  cases ended <;> simp only [withoutMatch] <;> repeat' split
  all_goals exact nofun

/-- A lexeme takes something off what is left. -/
theorem size_step_lt {l l' : Lexer} {e : Terminal × List Char}
    (h : l.step = (.ok (some e), l')) : l'.size < l.size := by
  unfold step ofScan at h
  split at h
  · cases h
  · split at h
    · exact absurd (congrArg Prod.fst h) (l.withoutMatch_ne_some _ _ e)
    · next hl =>
      obtain rfl : l.consume l.scanHere = l' := congrArg Prod.snd h
      exact size_consume_lt hl

/-- The next token, and the lexer after it.  Skipped lexemes are passed over; at the end of the
source every call gives the ending token. -/
def next (l : Lexer) : Except LexError Token × Lexer :=
  match _h : l.step with
  | (.error e, l') => (.error e, l')
  | (.ok none, l') => (.ok (.ending l.position), l')
  | (.ok (some (t, lexeme)), l') =>
    if t.skip then l'.next else (.ok ⟨t.name, String.ofList lexeme, l.position⟩, l')
termination_by l.size
decreasing_by exact size_step_lt _h

/-- The tokens up to and including the ending token, or up to an error, which ends the list.  Every
token but the last has at least one character, so the fuel is never spent. -/
def tokensFrom : Nat → Lexer → List (Except LexError Token)
  | 0, _ => []
  | fuel + 1, l =>
    match l.next with
    | (.error e, _) => [.error e]
    | (.ok t, l) => if t.name = endMarker then [.ok t] else .ok t :: tokensFrom fuel l

/-- All tokens of a lexer. -/
def tokens (l : Lexer) : List (Except LexError Token) := tokensFrom (l.size + 1) l

/-- The outcomes of a number of calls, each with the place of the lexer after it. -/
def calls : Nat → Lexer → List (Except LexError Token × Position)
  | 0, _ => []
  | n + 1, l =>
    let (outcome, l) := l.next
    (outcome, l.position) :: calls n l

end Lexer

end Lalr
