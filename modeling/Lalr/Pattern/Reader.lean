import Lalr.Pattern.Basic
import Lalr.Pattern.Fuzzy
import Lalr.Text.Hex
import Lalr.Text.Identifier

/-!
# Lalr.Pattern.Reader

Reading patterns as they are written.  A pattern is first cut into symbols: classes of characters,
brackets, bars and quantifiers.  The symbols are then folded into a pattern, with a level for every
group that is still open.  What a written pattern may have and no pattern here has is refused: anchors,
named classes of characters in square brackets, and constraints on errors in braces.
-/

namespace Lalr.Pattern

/-- What is wrong with a written pattern. -/
inductive PatternError where
  /-- The text ends with a backslash, or an escape is unknown or incomplete. -/
  | badEscape
  /-- A class has no end. -/
  | unfinishedClass
  /-- A range of characters runs backwards. -/
  | reversedRange
  /-- The bounds of a repetition run backwards. -/
  | reversedBounds
  /-- A bound of a repetition is out of reach. -/
  | hugeBounds
  /-- A quantifier follows nothing that can be repeated. -/
  | nothingToRepeat
  /-- A group begins with something else than the known forms, or its name is no identifier. -/
  | badGroup
  /-- A group is not closed. -/
  | unclosedGroup
  /-- A closing bracket closes no group. -/
  | unopenedGroup
  /-- An anchor, which no pattern here may have. -/
  | anchor
  /-- A class inside a class, told by its name, which no pattern here may have. -/
  | namedClass
  /-- A constraint on errors, which no pattern here may have. -/
  | fuzzy
deriving DecidableEq, Repr

/-! ## escapes -/

/-- The code points of the letters that stand for control characters. -/
def controlEscape? (c : Char) : Option Nat :=
  if c = 'a' then some 0x7
  else if c = 'f' then some 0xc
  else if c = 'n' then some 0xa
  else if c = 'r' then some 0xd
  else if c = 't' then some 0x9
  else if c = 'v' then some 0xb
  else none

/-- The named class of a letter. -/
def classEscape? (c : Char) : Option ClassItem :=
  if c = 'd' then some (.digit true)
  else if c = 'D' then some (.digit false)
  else if c = 's' then some (.space true)
  else if c = 'S' then some (.space false)
  else if c = 'w' then some (.word true)
  else if c = 'W' then some (.word false)
  else none

/-- The number of hexadecimal digits after a letter that announces a code point. -/
def hexEscape? (c : Char) : Option Nat :=
  if c = 'x' then some 2
  else if c = 'u' then some 4
  else if c = 'U' then some 8
  else none

/-- Read a code point of a fixed number of hexadecimal digits. -/
def readCode (width : Nat) (s : List Char) : Except PatternError (ClassItem × List Char) :=
  let digits := s.take width
  match Text.readHex? digits with
  | some n =>
    if digits.length = width ∧ n ≤ 0x10ffff then .ok (.single n, s.drop width) else .error .badEscape
  | none => .error .badEscape

/-- Read an escape of which `c` is the character after the backslash.  Punctuation and all that is
not ASCII stand for themselves. -/
def readEscape (inClass : Bool) (c : Char) (rest : List Char) :
    Except PatternError (ClassItem × List Char) :=
  match classEscape? c, controlEscape? c, hexEscape? c with
  | some item, _, _ => .ok (item, rest)
  | none, some n, _ => .ok (.single n, rest)
  | none, none, some width => readCode width rest
  | none, none, none =>
    if inClass && c = 'b' then .ok (.single 0x8, rest)
    else if c.isAlphanum then .error .badEscape
    else .ok (.single c.toNat, rest)

/-! ## classes -/

/-- A character of the name of a class, or of a property that classes are named by. -/
def isNamePart (c : Char) : Bool := c.isAlphanum || " &_-.".toList.contains c

/-- A character of the value of a property. -/
def isValuePart (c : Char) : Bool := isNamePart c || c = '/'

/-- Whether a name is written between colons at the start of a text, up to a closing bracket.  It may be
negated, and it may be a property with a value. -/
def beginsNamedClass (s : List Char) : Bool :=
  match s with
  | ':' :: rest =>
    let after := (if rest.head? = some '^' then rest.tail else rest).dropWhile isNamePart
    ":]".toList.isPrefixOf after ||
      after.head?.any (":=".toList.contains ·) &&
        (after.tail.takeWhile isValuePart).any (· ≠ ' ') &&
        ":]".toList.isPrefixOf (after.tail.dropWhile isValuePart)
  | _ => false

/-- Read one character or the escape of a class inside a class. -/
def readClassItem : List Char → Except PatternError (ClassItem × List Char)
  | [] => .error .unfinishedClass
  | ['\\'] => .error .badEscape
  | '\\' :: c :: rest => readEscape true c rest
  | c :: rest =>
    if c = '[' && beginsNamedClass rest then .error .namedClass else .ok (.single c.toNat, rest)

/-- The code point of a member that covers just one. -/
def ClassItem.single? : ClassItem → Option Nat
  | .range lo hi => if lo = hi then some lo else none
  | _ => none

/-- Read the rest of a member after one item and a hyphen: a range if a character stands on either
side, and otherwise the hyphen stands for itself. -/
def readRange (first : ClassItem) (lo : Nat) (s : List Char) :
    Except PatternError (List ClassItem × List Char) :=
  match s with
  | ']' :: _ => .ok ([first, .single '-'.toNat], s)
  | _ => do
    let (last, rest) ← readClassItem s
    match last.single? with
    | none => return ([first, .single '-'.toNat, last], rest)
    | some hi => if hi < lo then .error .reversedRange else return ([.range lo hi], rest)

/-- Read a member of a class. -/
def readMember (s : List Char) : Except PatternError (List ClassItem × List Char) := do
  let (first, rest) ← readClassItem s
  match first.single?, rest with
  | some lo, '-' :: after => readRange first lo after
  | _, _ => return ([first], rest)

/-! ## every reader shortens the text -/

theorem length_of_readCode {width : Nat} {s rest : List Char} {item : ClassItem}
    (h : readCode width s = .ok (item, rest)) : rest.length ≤ s.length := by
  simp only [readCode] at h
  split at h
  · split at h
    · cases h; simp
    · cases h
  · cases h

theorem length_of_readEscape {inClass : Bool} {c : Char} {s rest : List Char} {item : ClassItem}
    (h : readEscape inClass c s = .ok (item, rest)) : rest.length ≤ s.length := by
  simp only [readEscape] at h
  split at h
  · cases h; exact Nat.le_refl _
  · cases h; exact Nat.le_refl _
  · exact length_of_readCode h
  · split at h
    · cases h; exact Nat.le_refl _
    · split at h
      · cases h
      · cases h; exact Nat.le_refl _

theorem length_of_readClassItem {s rest : List Char} {item : ClassItem}
    (h : readClassItem s = .ok (item, rest)) : rest.length < s.length := by
  unfold readClassItem at h
  split at h
  · cases h
  · cases h
  · have := length_of_readEscape h
    simp only [List.length_cons]; omega
  · split at h
    · cases h
    · cases h; simp

theorem length_of_readRange {first : ClassItem} {lo : Nat} {s rest : List Char}
    {items : List ClassItem} (h : readRange first lo s = .ok (items, rest)) :
    rest.length ≤ s.length := by
  unfold readRange at h
  split at h
  · cases h; exact Nat.le_refl _
  · cases hi : readClassItem s with
    | error e => simp [hi, bind, Except.bind] at h
    | ok r =>
      obtain ⟨last, rest'⟩ := r
      have hlen := length_of_readClassItem hi
      simp only [hi, bind, Except.bind] at h
      split at h
      · cases h; omega
      · split at h
        · cases h
        · cases h; omega

theorem length_of_readMember {s rest : List Char} {items : List ClassItem}
    (h : readMember s = .ok (items, rest)) : rest.length < s.length := by
  unfold readMember at h
  cases hi : readClassItem s with
  | error e => simp [hi, bind, Except.bind] at h
  | ok r =>
    obtain ⟨first, rest'⟩ := r
    have hlen := length_of_readClassItem hi
    simp only [hi, bind, Except.bind] at h
    split at h
    · have := length_of_readRange h
      simp only [List.length_cons] at hlen; omega
    · cases h; exact hlen

/-! ## whole classes -/

/-- Read the members of a class up to its closing bracket. -/
def readMembers (items : List ClassItem) (s : List Char) :
    Except PatternError (List ClassItem × List Char) :=
  match s with
  | [] => .error .unfinishedClass
  | c :: rest =>
    if c = ']' then .ok (items, rest)
    else
      match _h : readMember (c :: rest) with
      | .error e => .error e
      | .ok (more, rest) => readMembers (items ++ more) rest
termination_by s.length
decreasing_by exact length_of_readMember _h

/-- Read a class after its opening bracket.  The first member may be a closing bracket. -/
def readClass (s : List Char) : Except PatternError (CharClass × List Char) := do
  let negated := s.head? = some '^'
  let (first, rest) ← readMember (if negated then s.tail else s)
  let (items, rest) ← readMembers first rest
  return (⟨negated, items⟩, rest)

theorem length_of_readMembers {items items' : List ClassItem} {s rest : List Char}
    (h : readMembers items s = .ok (items', rest)) : rest.length < s.length := by
  fun_induction readMembers items s with
  | case1 => cases h
  | case2 => cases h; simp
  | case3 => cases h
  | case4 items c s _ more rest' hm ih =>
    have := length_of_readMember hm
    have := ih h
    omega

theorem length_of_readClass {s rest : List Char} {k : CharClass}
    (h : readClass s = .ok (k, rest)) : rest.length ≤ s.length := by
  simp only [readClass, bind, Except.bind] at h
  split at h
  · cases h
  · next r hm =>
    have h₁ := length_of_readMember hm
    split at h
    · cases h
    · next r' hr =>
      have h₂ := length_of_readMembers hr
      cases h
      have h₃ : (if s.head? = some '^' then s.tail else s).length ≤ s.length := by
        split <;> simp
      omega

/-! ## quantifiers and groups -/

/-- The symbols of a written pattern. -/
inductive Sign where
  | atom (k : CharClass)
  | opening
  | closing
  | bar
  | times (least : Nat) (most : Option Nat)
deriving DecidableEq, Repr

/-- Drop the mark that makes a quantifier lazy: it chooses among matches but adds and removes
none. -/
def dropLazy : List Char → List Char
  | '?' :: rest => rest
  | rest => rest

/-- The bounds of a repetition, if there can be such a repetition. -/
def checkBounds (least : Nat) (most : Option Nat) : Except PatternError (Nat × Option Nat) :=
  if 0xffffffff ≤ least || most.any (0xffffffff ≤ ·) then .error .hugeBounds
  else if most.any (· < least) then .error .reversedBounds
  else .ok (least, most)

/-- Read the bounds of a repetition after its opening brace.  Nothing comes back if the brace is no
quantifier. -/
def readBounds (s : List Char) : Except PatternError (Option ((Nat × Option Nat) × List Char)) :=
  match takeDigits s with
  | (low, '\x7d' :: rest) =>
    if low.isEmpty then .ok none
    else (checkBounds (count low) (some (count low))).map fun bounds => some (bounds, rest)
  | (low, ',' :: more) =>
    match takeDigits more with
    | (high, '\x7d' :: rest) =>
      let most := if high.isEmpty then none else some (count high)
      (checkBounds (count low) most).map fun bounds => some (bounds, rest)
    | _ => .ok none
  | _ => .ok none

/-- Read the name of a group up to the bracket that ends it; the name has no meaning here. -/
def readGroupName (s : List Char) : Except PatternError (List Char) :=
  let nameChar (c : Char) : Bool := c != '>' && c != ')'
  match s.dropWhile nameChar with
  | '>' :: rest => if Text.isIdentifier (s.takeWhile nameChar) then .ok rest else .error .badGroup
  | _ => .error .badGroup

/-- Read the opening of a group after its bracket.  A group may be plain, marked as not capturing,
or named. -/
def readOpening : List Char → Except PatternError (List Char)
  | '?' :: ':' :: rest => .ok rest
  | '?' :: 'P' :: '<' :: rest => readGroupName rest
  | '?' :: '<' :: rest => readGroupName rest
  | '?' :: _ => .error .badGroup
  | rest => .ok rest

/-- Read an escape outside of classes, after its backslash. -/
def readEscapeSign : List Char → Except PatternError (Sign × List Char)
  | [] => .error .badEscape
  | c :: rest => (readEscape false c rest).map fun r => (.atom ⟨false, [r.1]⟩, r.2)

/-- Read a class, after its opening bracket. -/
def readClassSign (s : List Char) : Except PatternError (Sign × List Char) :=
  (readClass s).map fun r => (.atom r.1, r.2)

/-- Read the opening of a group, after its bracket. -/
def readOpeningSign (s : List Char) : Except PatternError (Sign × List Char) :=
  (readOpening s).map fun rest => (.opening, rest)

/-- Read what an opening brace begins: a quantifier, and otherwise it stands for itself. -/
def readBraceSign (s : List Char) : Except PatternError (Sign × List Char) :=
  match readBounds s with
  | .error e => .error e
  | .ok (some ((least, most), rest)) => .ok (.times least most, dropLazy rest)
  | .ok none => if beginsFuzzy s then .error .fuzzy else .ok (.atom (.single '\x7b'.toNat), s)

/-- The symbols that one character is all of. -/
def plainSign? (c : Char) : Option Sign :=
  if c = ')' then some .closing
  else if c = '|' then some .bar
  else if c = '.' then some (.atom .notNewline)
  else none

/-- The bounds that a quantifier of one character sets. -/
def quantifier? (c : Char) : Option (Nat × Option Nat) :=
  if c = '*' then some (0, none)
  else if c = '+' then some (1, none)
  else if c = '?' then some (0, some 1)
  else none

/-- Read one symbol of a pattern, of which `c` is the first character. -/
def readSign (c : Char) (rest : List Char) : Except PatternError (Sign × List Char) :=
  match plainSign? c, quantifier? c with
  | some sign, _ => .ok (sign, rest)
  | none, some (least, most) => .ok (.times least most, dropLazy rest)
  | none, none =>
    if c = '\\' then readEscapeSign rest
    else if c = '[' then readClassSign rest
    else if c = '(' then readOpeningSign rest
    else if c = '\x7b' then readBraceSign rest
    else if c = '^' || c = '$' then .error .anchor
    else .ok (.atom (.single c.toNat), rest)

/-- A result that another one is made of. -/
theorem exists_of_map_eq_ok {α β : Type} {x : Except PatternError α} {f : α → β} {b : β}
    (h : x.map f = .ok b) : ∃ a, x = .ok a ∧ f a = b := by
  cases x with
  | error e => cases h
  | ok a => exact ⟨a, rfl, Except.ok.inj h⟩

theorem length_dropLazy_le (s : List Char) : (dropLazy s).length ≤ s.length := by
  unfold dropLazy; split <;> simp

theorem length_of_takeDigits {s ds rest : List Char} (h : takeDigits s = (ds, rest)) :
    rest.length ≤ s.length := by
  cases h; exact (List.dropWhile_sublist _).length_le

theorem length_of_readBounds {s rest : List Char} {bounds : Nat × Option Nat}
    (h : readBounds s = .ok (some (bounds, rest))) : rest.length ≤ s.length := by
  unfold readBounds at h
  split at h
  · next low after hd =>
    have := length_of_takeDigits hd
    split at h
    · cases h
    · obtain ⟨_, _, hr⟩ := exists_of_map_eq_ok h
      cases hr; simp only [List.length_cons] at this; omega
  · next low more hd =>
    have h₁ := length_of_takeDigits hd
    split at h
    · next high after hd' =>
      have h₂ := length_of_takeDigits hd'
      obtain ⟨_, _, hr⟩ := exists_of_map_eq_ok h
      cases hr; simp only [List.length_cons] at h₁ h₂; omega
    · cases h
  · cases h

theorem length_of_readGroupName {s rest : List Char} (h : readGroupName s = .ok rest) :
    rest.length ≤ s.length := by
  simp only [readGroupName] at h
  split at h
  · next after hd =>
    have := (List.dropWhile_sublist (fun c : Char => c != '>' && c != ')') (l := s)).length_le
    split at h
    · cases h; rw [hd, List.length_cons] at this; omega
    · cases h
  · cases h

theorem length_of_readOpening {s rest : List Char} (h : readOpening s = .ok rest) :
    rest.length ≤ s.length := by
  unfold readOpening at h
  split at h
  · cases h; simp; omega
  · have := length_of_readGroupName h; simp; omega
  · have := length_of_readGroupName h; simp; omega
  · cases h
  · cases h; exact Nat.le_refl _

theorem length_of_readEscapeSign {s rest : List Char} {sign : Sign}
    (h : readEscapeSign s = .ok (sign, rest)) : rest.length ≤ s.length := by
  cases s with
  | nil => cases h
  | cons c s =>
    obtain ⟨⟨item, after⟩, hr, hs⟩ := exists_of_map_eq_ok h
    cases hs
    exact Nat.le_succ_of_le (length_of_readEscape hr)

theorem length_of_readClassSign {s rest : List Char} {sign : Sign}
    (h : readClassSign s = .ok (sign, rest)) : rest.length ≤ s.length := by
  obtain ⟨⟨k, after⟩, hr, hs⟩ := exists_of_map_eq_ok h
  cases hs
  exact length_of_readClass hr

theorem length_of_readOpeningSign {s rest : List Char} {sign : Sign}
    (h : readOpeningSign s = .ok (sign, rest)) : rest.length ≤ s.length := by
  obtain ⟨after, hr, hs⟩ := exists_of_map_eq_ok h
  cases hs
  exact length_of_readOpening hr

theorem length_of_readBraceSign {s rest : List Char} {sign : Sign}
    (h : readBraceSign s = .ok (sign, rest)) : rest.length ≤ s.length := by
  unfold readBraceSign at h
  split at h
  · cases h
  · next least most after hr =>
    cases h
    exact Nat.le_trans (length_dropLazy_le after) (length_of_readBounds hr)
  · split at h
    · cases h
    · cases h; exact Nat.le_refl _

theorem length_of_readSign {c : Char} {s rest : List Char} {sign : Sign}
    (h : readSign c s = .ok (sign, rest)) : rest.length ≤ s.length := by
  unfold readSign at h
  split at h
  · cases h; exact Nat.le_refl _
  · cases h; exact length_dropLazy_le s
  · split at h
    · exact length_of_readEscapeSign h
    split at h
    · exact length_of_readClassSign h
    split at h
    · exact length_of_readOpeningSign h
    split at h
    · exact length_of_readBraceSign h
    split at h
    · cases h
    · cases h; exact Nat.le_refl _

/-- Cut a written pattern into symbols. -/
def readSigns (s : List Char) : Except PatternError (List Sign) :=
  match s with
  | [] => .ok []
  | c :: rest =>
    match _h : readSign c rest with
    | .error e => .error e
    | .ok (sign, rest') => do return sign :: (← readSigns rest')
termination_by s.length
decreasing_by have := length_of_readSign _h; simp only [List.length_cons]; omega

/-! ## folding symbols -/

/-- A group that is still open: the alternatives that are complete, and the current one up to its
last item, which stands apart because a quantifier may follow. -/
structure Level where
  branches : Option Pattern
  before : Pattern
  last : Option Pattern

namespace Level

/-- A group of which nothing has been read. -/
def start : Level := ⟨none, .empty, none⟩

/-- The current alternative. -/
def branch (l : Level) : Pattern := l.before.followedBy (l.last.getD .empty)

/-- The group, if it ends here. -/
def close (l : Level) : Pattern :=
  match l.branches with
  | none => l.branch
  | some p => .alt p l.branch

/-- The group with one more item. -/
def push (l : Level) (p : Pattern) : Level := ⟨l.branches, l.branch, some p⟩

/-- The group at the start of one more alternative. -/
def nextBranch (l : Level) : Level := ⟨some l.close, .empty, none⟩

/-- The group with its last item repeated.  A quantifier cannot follow another. -/
def repeated? (l : Level) (least : Nat) (most : Option Nat) : Option Level :=
  l.last.map fun p => ⟨l.branches, l.before.followedBy (.rep p least most), none⟩

end Level

/-- Fold symbols into a pattern: `level` is the innermost open group, `outer` has those around it. -/
def fold (outer : List Level) (level : Level) : List Sign → Except PatternError Pattern
  | [] => if outer.isEmpty then .ok level.close else .error .unclosedGroup
  | .atom k :: rest => fold outer (level.push (.chars k)) rest
  | .opening :: rest => fold (level :: outer) .start rest
  | .closing :: rest =>
    match outer with
    | [] => .error .unopenedGroup
    | up :: outer => fold outer (up.push level.close) rest
  | .bar :: rest => fold outer level.nextBranch rest
  | .times least most :: rest =>
    match level.repeated? least most with
    | none => .error .nothingToRepeat
    | some level => fold outer level rest

/-- Read a written pattern. -/
def ofChars (s : List Char) : Except PatternError Pattern := do fold [] .start (← readSigns s)

/-- Read a written pattern. -/
def ofString (s : String) : Except PatternError Pattern := ofChars s.toList

end Lalr.Pattern
