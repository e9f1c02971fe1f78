import Lalr.Proofs.Code.Datum
import Lalr.Proofs.Code.Reading
import Lalr.Proofs.Code.Rendered

/-!
# Lalr.Proofs.Code.Literal

Literals are read from what they are written as.  A text stands for a thing if the lexemes that it has between
brackets are read as that thing, whatever follows (`Stands`).  Texts, numbers and truth values stand for
themselves, and lists, dictionaries and calls of constructors for what their parts stand for, whatever blanks
and comments are between the parts (`Enclosed`).
-/

namespace Lalr.Code

open Reading

variable {blocks : List Margin} {closers rest w : List Char} {L : List Lexeme} {c d : Char} {n : Nat}

/-! ## numbers -/

theorem hexValue?_eq_digitValue? (h : c.isDigit = true) : Text.hexValue? c = Text.digitValue? c := by
  have hall : ∀ d < 10, Text.hexValue? (Nat.digitChar d) = some d := by decide
  obtain ⟨d, hd, hvalue, rfl⟩ := Text.digit_of_isDigit h
  rw [hall d hd, hvalue]

theorem valueOf_eq_numeral (h : ∀ c ∈ w, c.isDigit = true) : valueOf 10 w = Text.numeral w := by
  refine List.foldl_ext _ _ 0 fun n c hc => ?_
  rw [hexValue?_eq_digitValue? (h c hc)]

theorem readDigits_append (hw : ∀ c ∈ w, c.isDigit = true) (hd : d.isDigit = false) (hunder : d ≠ '_') :
    readDigits Char.isDigit (w ++ d :: rest) = some (w, d :: rest) := by
  induction w with
  | nil =>
      rw [List.nil_append, readDigits]
      · simp [hd, hunder]
      · exact fun c r h => absurd h hunder
  | cons c w ih =>
      obtain ⟨hc, hw⟩ := List.forall_mem_cons.1 hw
      rw [List.cons_append, readDigits, if_pos hc, ih hw]
      · rfl
      · rintro c r rfl
        exact absurd hc (by decide)

theorem value?_ofDigits (h : ∀ c ∈ w, c.isDigit = true) :
    (Number.ofDigits w).value? = some (Text.numeral w) := by
  rw [← valueOf_eq_numeral h]
  unfold Number.ofDigits
  split <;> rfl

theorem readTail_wordEnd (value : Number) (hd : d ∈ wordEnds) :
    readTail value (d :: rest) = some (value, d :: rest) := by
  simp only [wordEnds, List.mem_cons, List.not_mem_nil, or_false] at hd
  rcases hd with rfl | rfl | rfl | rfl | rfl | rfl | rfl | rfl | rfl <;> rfl

theorem readDecimal_canonical (hw : Text.Canonical w) (hd : d ∈ wordEnds) (rest : List Char) :
    readDecimal (w ++ d :: rest) = some (.ofDigits w, d :: rest) := by
  have hends : ∀ d ∈ wordEnds, d.isDigit = false ∧ d ≠ '_' ∧ d ≠ '.' := by decide
  obtain ⟨hdigit, hunder, hpoint⟩ := hends d hd
  have hzeros : w.head? = some '0' → ∀ x ∈ w, x = '0' := fun hzero => by
    rw [hw.leading hzero]
    exact List.forall_mem_singleton.2 rfl
  rw [readDecimal, readDigits_append hw.digits hdigit hunder, Option.bind_eq_bind, Option.bind_some]
  simpa [hpoint, readTail_wordEnd _ hd] using fun _ => hzeros

/-- A number that is written in decimal digits is read as what it is. -/
theorem readNumber_toDigits (n : Nat) (hd : d ∈ wordEnds) (rest : List Char) :
    readNumber (Nat.toDigits 10 n ++ d :: rest) = some (.ofDigits (Nat.toDigits 10 n), d :: rest) := by
  have hcanonical := Text.canonical_toDigits n
  have hdecimal := readDecimal_canonical hcanonical hd rest
  rw [← hdecimal]
  have hends : ∀ d ∈ wordEnds, d ∉ ['x', 'X', 'o', 'O', 'b', 'B'] := by decide
  have hbase := hends d hd
  obtain ⟨c, w, hw⟩ := List.exists_cons_of_ne_nil hcanonical.ne_nil
  rw [hw] at hcanonical ⊢
  by_cases hzero : c = '0'
  · subst hzero
    obtain rfl : w = [] := (List.cons.inj (hcanonical.leading rfl)).2
    simp only [List.mem_cons, List.not_mem_nil, or_false, not_or] at hbase
    simp [readNumber, hbase]
  · have hpoint : c ≠ '.' := by
      rintro rfl
      exact absurd (hcanonical.digits '.' List.mem_cons_self) (by decide)
    unfold readNumber
    split
    · next heq => exact absurd (List.cons.inj heq).1 hpoint
    · next heq => exact absurd (List.cons.inj heq).1 hzero
    · rfl

theorem Lexes.number (n : Nat) (hd : d ∈ wordEnds) (h : Lexes blocks closers false (d :: rest) L) :
    Lexes blocks closers false (Nat.toDigits 10 n ++ d :: rest)
      (.number (.ofDigits (Nat.toDigits 10 n)) :: L) := by
  have hread := readNumber_toDigits n hd rest
  have hdigits := (Text.canonical_toDigits n).digits
  obtain ⟨c, w, hw⟩ := List.exists_cons_of_ne_nil (Text.canonical_toDigits n).ne_nil
  rw [hw] at hread hdigits ⊢
  have hc : c.isDigit = true := hdigits c List.mem_cons_self
  have hclass : ∀ c ∈ special ++ ['\'', '"'], c.isDigit = false := by decide
  have hnot {x : Char} (hx : x ∈ special ++ ['\'', '"']) : c ≠ x := by
    rintro rfl
    exact absurd (hclass c hx) (by simp [hc])
  have hquote : ¬ (c = '\'' ∨ c = '"') := not_or.2 ⟨hnot (by decide), hnot (by decide)⟩
  rw [List.cons_append] at hread ⊢
  refine .lexeme (fun hmem => hnot (List.mem_append_left _ hmem) rfl) ?_ h
  rw [readLexeme_number hquote (by simp [opensNumber, hc]), hread]
  rfl

/-! ## signs -/

theorem Lexes.comma (h : Lexes blocks closers false rest L) :
    Lexes blocks closers false (',' :: rest) (.sign "," :: L) :=
  .lexeme (by decide) rfl h

theorem any_head?_append {p : Char → Bool} (h : w.head?.any p) (s : List Char) : (w ++ s).head?.any p := by
  cases w with
  | nil => contradiction
  | cons => exact h

theorem Lexes.equals (hrest : rest.head?.any (· ≠ '=')) (h : Lexes blocks closers false rest L) :
    Lexes blocks closers false ('=' :: rest) (.sign "=" :: L) := by
  obtain ⟨c, rest, rfl⟩ : ∃ c r, rest = c :: r := by
    cases rest with
    | nil => contradiction
    | cons c rest => exact ⟨c, rest, rfl⟩
  have hc : '=' ≠ c := fun h => absurd hrest (by simp [← h])
  have hsign : readSign ('=' :: c :: rest) = some ['='] := by
    simp [readSign, signs, List.isPrefixOf, hc]
  refine .lexeme (by decide) ?_ h
  rw [readLexeme_sign (by decide) rfl (by decide), hsign]
  rfl

/-! ## names -/

/-- A word that is a name, of the characters that it is written with. -/
structure IsName (w : List Char) : Prop where
  lexeme : wordLexeme w = some (.name (String.ofList w))
  parts : ∀ c ∈ w, isWordPart c = true
  head : w.head?.any (! ·.isDigit)

instance : DecidablePred IsName := fun w =>
  decidable_of_iff (wordLexeme w = some (.name (String.ofList w)) ∧ w.all isWordPart = true ∧
      w.head?.any (! ·.isDigit) = true)
    ⟨fun ⟨hlexeme, hparts, hhead⟩ => ⟨hlexeme, List.all_eq_true.1 hparts, hhead⟩,
      fun h => ⟨h.lexeme, List.all_eq_true.2 h.parts, h.head⟩⟩

theorem IsName.head_append (h : IsName w) (s : List Char) : (w ++ s).head?.any (· ≠ '=') := by
  refine any_head?_append ?_ s
  cases w with
  | nil => exact absurd h.head (by decide)
  | cons c w =>
      have hc : c ≠ '=' := by
        rintro rfl
        exact absurd (h.parts '=' List.mem_cons_self) (by decide)
      simpa using hc

/-! ## layout -/

/-- A text without lexemes between brackets. -/
def Blank (w : List Char) : Prop := ∀ ⦃closers rest : List Char⦄ ⦃L : List Lexeme⦄, closers ≠ [] →
  Lexes [] closers false rest L → Lexes [] closers false (w ++ rest) L

theorem blank_spaces (k : Nat) : Blank (List.replicate k ' ') := fun _ _ _ _ h => h.spaces k

theorem Blank.append {w' : List Char} (hw : Blank w) (hw' : Blank w') : Blank (w ++ w') := by
  intro closers rest L hc h
  rw [List.append_assoc]
  exact hw hc (hw' hc h)

theorem Blank.newline (hw : Blank w) : Blank ('\n' :: w) := fun _ _ _ hc h => .joined hc (hw hc h)

theorem Blank.comment {text : List Char} (htext : '\n' ∉ text) (hw : Blank w) :
    Blank ('#' :: (text ++ '\n' :: w)) := by
  intro closers rest L hc h
  refine .comment ?_
  have hall : ∀ c ∈ text, decide (c ≠ '\n') = true := fun c hc => decide_eq_true fun h => htext (h ▸ hc)
  have hskip : skipComment (text ++ '\n' :: w ++ rest) = '\n' :: (w ++ rest) := by
    rw [List.append_assoc, skipComment, List.dropWhile_append_of_pos hall]
    rfl
  exact hskip ▸ .joined hc (hw hc h)

/-! ## reading -/

namespace Datum

variable {α β : Type} {p : Reading α} {q : Reading β} {M : List Lexeme} {a : α} {b : β} {k fuel : Nat}
  {v : List Char} {as : List α} {close : Char}

/-- Lexemes that a reader takes for a thing, whatever follows.  They do not begin with a closing bracket. -/
structure Takes (p : Reading α) (L : List Lexeme) (a : α) : Prop where
  run : ∀ rest, p.run (L ++ rest) = some (a, rest)
  head : ∃ t M, L = t :: M ∧ ∀ close ∈ closingBrackets, t ≠ .sign (String.ofList [close])

theorem Takes.pair {s : String} (h : Takes p L a) (h' : Takes q M b) :
    Takes (pair p s q) (L ++ .sign s :: M) (a, b) where
  run rest := by
    rw [Datum.pair, List.append_assoc, run_bind_of_eq_some (h.run _), List.cons_append,
      run_bind_of_eq_some run_expect_self, run_bind_of_eq_some (h'.run rest)]
    rfl
  head := by
    obtain ⟨t, L, rfl, ht⟩ := h.head
    exact ⟨t, L ++ .sign s :: M, rfl, ht⟩

theorem takes_name (id : String) : Takes name [.name id] id where
  run _ := rfl
  head := ⟨_, _, rfl, by simp⟩

theorem takes_scalar {t : Lexeme} {d : Datum} (h : scalar? t = some d) (n : Nat) : Takes (read (n + 1)) [t] d where
  run rest := by
    rw [Datum.read, List.singleton_append, run_bind_of_eq_some (run_acceptIf_some h)]
    rfl
  head := by
    refine ⟨t, [], rfl, fun close _ ht => ?_⟩
    rw [ht] at h
    contradiction

/-! ### things with commas between -/

/-- The items of a list, dictionary or call up to its closing bracket, each with its lexemes. -/
inductive Listed (p : Reading α) (close : Char) : List Lexeme → List α → Prop
  | nil : Listed p close [.sign (String.ofList [close])] []
  | last {L : List Lexeme} {a : α} (h : Takes p L a) :
    Listed p close (L ++ [.sign (String.ofList [close])]) [a]
  | cons {L M : List Lexeme} {a : α} {as : List α} (h : Takes p L a) (hrest : Listed p close M as) :
    Listed p close (L ++ .sign "," :: M) (a :: as)

theorem Listed.run_itemsFrom (hclose : close ∈ closingBrackets) (h : Listed p close L as)
    (hfuel : L.length ≤ fuel) (rest : List Lexeme) :
    (itemsFrom p (String.ofList [close]) fuel).run (L ++ rest) = some (as, rest) := by
  have hcomma : Lexeme.sign (String.ofList [close]) ≠ .sign "," := by
    have hall : ∀ close ∈ closingBrackets, Lexeme.sign (String.ofList [close]) ≠ .sign "," := by decide
    exact hall close hclose
  -- An item does not begin with the closing bracket, so it is read.
  have hitem {L : List Lexeme} {a : α} (h : Takes p L a) (rest : List Lexeme) :
      (sign (String.ofList [close])).run (L ++ rest) = some (false, L ++ rest) := by
    obtain ⟨t, M, rfl, ht⟩ := h.head
    refine run_accept_of_ne ?_
    simpa using ht close hclose
  induction h generalizing fuel with
  | nil =>
      obtain ⟨fuel, rfl⟩ : ∃ n, fuel = n + 1 := ⟨fuel - 1, by simp at hfuel; omega⟩
      rw [itemsFrom, sign, List.singleton_append, run_bind_of_eq_some run_accept_self]
      rfl
  | @last L a h =>
      obtain ⟨fuel, rfl⟩ : ∃ n, fuel = n + 1 := ⟨fuel - 1, by simp at hfuel; omega⟩
      have hnot : (Lexeme.sign (String.ofList [close]) :: rest).head? ≠ some (.sign ",") := by simpa using hcomma
      rw [itemsFrom, List.append_assoc, run_bind_of_eq_some (hitem h _), if_neg Bool.false_ne_true,
        run_bind_of_eq_some (h.run _), List.singleton_append, sign, run_bind_of_eq_some (run_accept_of_ne hnot),
        if_neg Bool.false_ne_true, run_bind_of_eq_some run_expect_self]
      rfl
  | @cons L M a as h hrest ih =>
      obtain ⟨fuel, rfl⟩ : ∃ n, fuel = n + 1 := ⟨fuel - 1, by simp at hfuel; omega⟩
      have hlength : M.length ≤ fuel := by
        simp only [List.length_append, List.length_cons] at hfuel
        omega
      rw [itemsFrom, List.append_assoc, run_bind_of_eq_some (hitem h _), if_neg Bool.false_ne_true,
        run_bind_of_eq_some (h.run _), List.cons_append, sign, run_bind_of_eq_some run_accept_self, if_pos rfl,
        run_bind_of_eq_some (ih hlength)]
      rfl

theorem Listed.run_items (hclose : close ∈ closingBrackets) (h : Listed p close L as)
    (rest : List Lexeme) : (items p (String.ofList [close])).run (L ++ rest) = some (as, rest) := by
  rw [items, run_bind_of_eq_some (a := L ++ rest) rfl]
  exact h.run_itemsFrom hclose (by simp) rest

/-! ### literals -/

variable {ds : List Datum} {entries : List (Datum × Datum)} {arguments : List (String × Datum)}

theorem Listed.list (h : Listed (read n) ']' L ds) : Takes (read (n + 1)) (.sign "[" :: L) (.list ds) where
  run rest := by
    rw [Datum.read, List.cons_append, run_bind_of_eq_some (run_acceptIf_none rfl), sign,
      run_bind_of_eq_some run_accept_self, if_pos rfl]
    exact (run_bind_of_eq_some (h.run_items (by decide) rest)).trans rfl
  head := ⟨_, _, rfl, by decide⟩

theorem Listed.dict (h : Listed (Datum.pair (read n) ":" (read n)) '\x7d' L entries) :
    Takes (read (n + 1)) (.sign "\x7b" :: L) (.dict entries) where
  run rest := by
    rw [Datum.read, List.cons_append, run_bind_of_eq_some (run_acceptIf_none rfl), sign,
      run_bind_of_eq_some (run_accept_of_ne (by simp)), if_neg Bool.false_ne_true, sign,
      run_bind_of_eq_some run_accept_self, if_pos rfl]
    exact (run_bind_of_eq_some (h.run_items (by decide) rest)).trans rfl
  head := ⟨_, _, rfl, by decide⟩

theorem Listed.record (h : Listed (Datum.pair name "=" (read n)) ')' L arguments) (constructor : String) :
    Takes (read (n + 1)) (.name constructor :: .sign "(" :: L) (.record constructor arguments) where
  run rest := by
    rw [Datum.read, List.cons_append, List.cons_append, run_bind_of_eq_some (run_acceptIf_none rfl), sign,
      run_bind_of_eq_some (run_accept_of_ne (by simp)), if_neg Bool.false_ne_true, sign,
      run_bind_of_eq_some (run_accept_of_ne (by simp)), if_neg Bool.false_ne_true]
    exact (run_bind_of_eq_some ((takes_name constructor).run _)).trans <|
      (run_bind_of_eq_some run_expect_self).trans <|
      (run_bind_of_eq_some (h.run_items (by decide) rest)).trans rfl
  head := ⟨_, _, rfl, by simp⟩

/-! ## writing -/

/-- A text that stands for a thing where fewer than so many brackets more can be opened: whatever ends it, its
lexemes are read as the thing.  It does not begin with a sign that could be taken together with one before it. -/
structure Stands (k : Nat) (p : Reading α) (w : List Char) (a : α) : Prop where
  head : w.head?.any (· ≠ '=')
  lexed : ∃ L, Takes p L a ∧ ∀ ⦃closers rest : List Char⦄ ⦃d : Char⦄ ⦃M : List Lexeme⦄, closers.length + k ≤ 200 →
    d ∈ wordEnds → Lexes [] closers false (d :: rest) M → Lexes [] closers false (w ++ d :: rest) (L ++ M)

/-- Things with commas between up to a closing bracket, with blanks and comments before each.  Blanks may stand
behind the last one too. -/
inductive Enclosed (k : Nat) (p : Reading α) (close : Char) : List Char → List α → Prop
  | nil {w : List Char} (hw : Blank w) : Enclosed k p close (w ++ [close]) []
  | last {w v u : List Char} {a : α} (hw : Blank w) (h : Stands k p v a) (hu : Blank u)
    (hend : ∀ c ∈ u.head?, c ∈ wordEnds) : Enclosed k p close (w ++ (v ++ (u ++ [close]))) [a]
  | cons {w v u : List Char} {a : α} {as : List α} (hw : Blank w) (h : Stands k p v a)
    (hrest : Enclosed k p close u as) : Enclosed k p close (w ++ (v ++ ',' :: u)) (a :: as)

theorem Enclosed.exists_listed (hclose : close ∈ closingBrackets) (h : Enclosed k p close w as) :
    ∃ L, Listed p close L as ∧ ∀ ⦃closers rest : List Char⦄ ⦃M : List Lexeme⦄, closers.length + (k + 1) ≤ 200 →
      Lexes [] closers false rest M → Lexes [] (close :: closers) false (w ++ rest) (L ++ M) := by
  have hend : close ∈ wordEnds := by
    have hall : ∀ close ∈ closingBrackets, close ∈ wordEnds := by decide
    exact hall close hclose
  induction h with
  | nil hw =>
      refine ⟨_, .nil, fun closers rest M _ h => ?_⟩
      rw [List.append_assoc]
      exact hw (by simp) (.closed hclose h)
  | @last w v u a hw h hu hends =>
      obtain ⟨L, htakes, hlexes⟩ := h.lexed
      refine ⟨_, .last htakes, fun closers rest M hdepth h => ?_⟩
      have hclosed := hu (by simp) (.closed hclose h)
      rw [List.append_assoc, List.append_assoc, List.append_assoc, List.append_assoc]
      refine hw (by simp) ?_
      cases u with
      | nil => exact hlexes (by simp; omega) hend hclosed
      | cons c u => exact hlexes (by simp; omega) (hends c rfl) hclosed
  | cons hw h hrest ih =>
      obtain ⟨L, htakes, hlexes⟩ := h.lexed
      obtain ⟨M, hlisted, hmore⟩ := ih
      refine ⟨_, .cons htakes hlisted, fun closers rest M' hdepth h => ?_⟩
      rw [List.append_assoc, List.append_assoc, List.append_assoc]
      exact hw (by simp) (hlexes (by simp; omega) (by decide) (.comma (hmore hdepth h)))

/-! ### names -/

theorem Stands.named (hw : IsName w) {d : Datum} (h : Stands k (read n) v d) :
    Stands k (Datum.pair name "=" (read n)) (w ++ '=' :: v) (String.ofList w, d) where
  head := hw.head_append _
  lexed := by
    obtain ⟨L, htakes, hlexes⟩ := h.lexed
    refine ⟨_, (takes_name (String.ofList w)).pair htakes, fun closers rest d M hdepth hd h' => ?_⟩
    rw [List.append_assoc, List.cons_append]
    exact .word hw.lexeme hw.parts hw.head (by decide) (.equals (any_head?_append h.head _) (hlexes hdepth hd h'))

/-! ### entries -/

theorem Stands.entry {u : List Char} {d e : Datum} (hkey : Stands k (read n) u d) (h : Stands k (read n) v e) :
    Stands k (Datum.pair (read n) ":" (read n)) (u ++ ':' :: ' ' :: v) (d, e) where
  head := any_head?_append hkey.head _
  lexed := by
    obtain ⟨L, htakes, hlexes⟩ := hkey.lexed
    obtain ⟨M, htakes', hlexes'⟩ := h.lexed
    refine ⟨_, htakes.pair htakes', fun closers rest d N hdepth hd h' => ?_⟩
    have hcolon : Lexes [] closers false (':' :: ' ' :: (v ++ d :: rest)) (.sign ":" :: (M ++ N)) :=
      .lexeme (by decide) rfl (.blank (.inl rfl) (hlexes' hdepth hd h'))
    rw [List.append_assoc, List.append_assoc]
    exact hlexes hdepth (by decide) hcolon

/-! ### literals -/

theorem stands_text (k n : Nat) (s : List Char) :
    Stands k (read (n + 1)) (Text.quoteChars s) (.text (String.ofList s)) where
  head := by
    have hquote : Text.quoteFor s ≠ '=' := by
      rcases Text.quoteFor_eq s with h | h <;> rw [h] <;> decide
    simpa [Text.quoteChars] using hquote
  lexed := ⟨_, takes_scalar rfl n, fun _ _ _ _ _ hd h => .quoted s hd h⟩

theorem stands_number (k n m : Nat) : Stands k (read (n + 1)) (Nat.toDigits 10 m) (.number m) where
  head := by
    have hdigits := (Text.canonical_toDigits m).digits
    obtain ⟨c, w, hw⟩ := List.exists_cons_of_ne_nil (Text.canonical_toDigits m).ne_nil
    rw [hw] at hdigits ⊢
    have hc : c ≠ '=' := by
      rintro rfl
      exact absurd (hdigits '=' List.mem_cons_self) (by decide)
    simpa using hc
  lexed := by
    have hscalar : scalar? (.number (.ofDigits (Nat.toDigits 10 m))) = some (.number m) := by
      rw [scalar?, value?_ofDigits (Text.canonical_toDigits m).digits, Text.numeral_toDigits]
      rfl
    exact ⟨_, takes_scalar hscalar n, fun _ _ _ _ _ hd h => .number m hd h⟩

/-- What a truth value is written as. -/
def truthText : Bool → String
  | true => "True"
  | false => "False"

theorem stands_truth (k n : Nat) (b : Bool) : Stands k (read (n + 1)) (truthText b).toList (.truth b) where
  head := by cases b <;> decide
  lexed := by
    have hword : wordLexeme (truthText b).toList = some (.keyword (truthText b)) := by cases b <;> decide
    have hscalar : scalar? (.keyword (truthText b)) = some (.truth b) := by cases b <;> rfl
    exact ⟨_, takes_scalar hscalar n, fun _ _ _ _ _ hd h =>
      .word hword (by cases b <;> decide) (by cases b <;> decide) hd h⟩

theorem Enclosed.list (h : Enclosed k (read n) ']' w ds) : Stands (k + 1) (read (n + 1)) ('[' :: w) (.list ds) where
  head := rfl
  lexed := by
    obtain ⟨L, hlisted, hlexes⟩ := h.exists_listed (by decide)
    exact ⟨_, hlisted.list, fun _ _ _ _ hdepth _ h => .opened (by decide) (by omega) (hlexes hdepth h)⟩

theorem Enclosed.dict (h : Enclosed k (Datum.pair (read n) ":" (read n)) '\x7d' w entries) :
    Stands (k + 1) (read (n + 1)) ('\x7b' :: w) (.dict entries) where
  head := rfl
  lexed := by
    obtain ⟨L, hlisted, hlexes⟩ := h.exists_listed (by decide)
    exact ⟨_, hlisted.dict, fun _ _ _ _ hdepth _ h => .opened (by decide) (by omega) (hlexes hdepth h)⟩

theorem Enclosed.record (hv : IsName v) (h : Enclosed k (Datum.pair name "=" (read n)) ')' w arguments) :
    Stands (k + 1) (read (n + 1)) (v ++ '(' :: w) (.record (String.ofList v) arguments) where
  head := hv.head_append _
  lexed := by
    obtain ⟨L, hlisted, hlexes⟩ := h.exists_listed (by decide)
    refine ⟨_, hlisted.record _, fun closers rest d M hdepth _ h => ?_⟩
    rw [List.append_assoc]
    exact .word hv.lexeme hv.parts hv.head (by decide) (.opened (by decide) (by omega) (hlexes hdepth h))

/-! ### lists of things -/

/-- Things of which each has a comma behind it, on lines of their own. -/
theorem enclosed_of_forall {γ : Type} {xs : List γ} {layout text : γ → List Char} {value : γ → α}
    (h : ∀ x ∈ xs, Blank (layout x) ∧ Stands k p (text x) (value x)) (hw : Blank w) :
    Enclosed k p close (xs.flatMap (fun x => layout x ++ (text x ++ [','])) ++ (w ++ [close])) (xs.map value) := by
  induction xs with
  | nil => exact .nil hw
  | cons x xs ih =>
      obtain ⟨⟨hlayout, hx⟩, hxs⟩ := List.forall_mem_cons.1 h
      rw [List.flatMap_cons, List.append_assoc, List.append_assoc, List.append_assoc]
      exact .cons hlayout hx (ih hxs)

/-- A named argument: its name, what it is written as, and what that stands for. -/
structure Argument where
  name : String
  text : List Char
  value : Datum

/-- How a named argument is written. -/
def Argument.chars (x : Argument) : List Char := x.name.toList ++ '=' :: x.text

/-- How a call of a constructor is written on one line. -/
def callText (constructor : String) (xs : List Argument) : List Char :=
  constructor.toList ++ '(' :: (List.intercalate [',', ' '] (xs.map Argument.chars) ++ [')'])

/-- What a call of a constructor stands for. -/
def call (constructor : String) (xs : List Argument) : Datum :=
  .record constructor (xs.map fun x => (x.name, x.value))

theorem enclosed_arguments {xs : List Argument}
    (h : ∀ x ∈ xs, IsName x.name.toList ∧ Stands k (read n) x.text x.value) (hw : Blank w) :
    Enclosed k (Datum.pair name "=" (read n)) ')'
      (w ++ (List.intercalate [',', ' '] (xs.map Argument.chars) ++ [')'])) (xs.map fun x => (x.name, x.value)) := by
  induction xs generalizing w with
  | nil => exact .nil hw
  | cons x xs ih =>
      obtain ⟨⟨hname, hx⟩, hxs⟩ := List.forall_mem_cons.1 h
      have hnamed := hx.named hname
      rw [String.ofList_toList] at hnamed
      cases xs with
      | nil =>
          rw [List.map_singleton, List.intercalate_singleton]
          exact .last hw hnamed (blank_spaces 0) (by simp)
      | cons y ys =>
          have hrest := ih hxs (blank_spaces 1)
          rw [List.map_cons, List.map_cons, List.intercalate_cons_cons, List.append_assoc, List.append_assoc]
          exact .cons hw hnamed hrest

theorem stands_call {constructor : String} {xs : List Argument} (hname : IsName constructor.toList)
    (h : ∀ x ∈ xs, IsName x.name.toList ∧ Stands k (read n) x.text x.value) :
    Stands (k + 1) (read (n + 1)) (callText constructor xs) (call constructor xs) := by
  have hcall := (enclosed_arguments h (blank_spaces 0)).record hname
  rwa [String.ofList_toList] at hcall

/-! ## assignments -/

theorem run_assignment {d : Datum} (h : Takes (read n) L d) (id : String) :
    (assignment n).run (.name id :: .sign "=" :: (L ++ [.newline])) = some ((id, d), []) := by
  have hpair := ((takes_name id).pair (s := "=") h).run [.newline]
  simp only [List.cons_append, List.nil_append] at hpair
  rw [assignment, run_bind_of_eq_some hpair]
  rfl

theorem readMargin_of_not_special (hc : c ∉ special) (m : Margin) (s : List Char) :
    readMargin m 0 (c :: s) = (m, c :: s) := by
  simp only [special, List.mem_cons, List.not_mem_nil, or_false, not_or] at hc
  rw [readMargin.eq_def]
  split <;> simp_all

/-- A name at the beginning of a line, outside of blocks. -/
theorem Lexes.first (hw : IsName w) (hd : d ∈ wordEnds) (h : Lexes [] [] false (d :: rest) L) :
    Lexes [] [] true (w ++ d :: rest) (.name (String.ofList w) :: L) := by
  have hname := Lexes.word hw.lexeme hw.parts hw.head hd h
  cases w with
  | nil => exact absurd hw.head (by decide)
  | cons c w =>
      have hclass : ∀ c ∈ special, isWordPart c = false := by decide
      have hc : c ∉ special := fun hmem => absurd (hw.parts c List.mem_cons_self) (by simp [hclass c hmem])
      have hsame : changeBlocks ⟨0, 0⟩ [] = some ([], []) := rfl
      refine .line (readMargin_of_not_special hc _ _) ⟨?_, ?_⟩ hsame hname <;>
      · rintro rfl
        exact hc (by decide)

/-- Code that gives a name to what stands for a literal is read as that. -/
theorem readAssignment_eq {id : String} (hid : IsName id.toList) {code : List Char}
    (hcode : code = id.toList ++ ' ' :: '=' :: ' ' :: v) {d : Datum} (h : Stands k (read code.length) v d)
    (hk : k ≤ 200) (hchars : ∀ c ∈ code, c ≠ '\r' ∧ c ≠ '\x00') (hlast : code.getLast? ≠ some '\n') :
    readAssignment code = some (id, d) := by
  obtain ⟨L, htakes, hlexes⟩ := h.lexed
  have hend : Lexes [] [] false ['\n'] [.newline] := .newline (.done rfl)
  have hvalue := hlexes (by simpa using hk) (by decide) hend
  have hline := Lexes.first hid (by decide) ((Lexes.equals rfl (hvalue.blank (.inl rfl))).blank (.inl rfl))
  have hplain : Text.plainNewlines code = code := by
    have happend := Text.plainNewlines_append (fun hmem => (hchars _ hmem).1 rfl) []
    rwa [List.append_nil, Text.plainNewlines, List.append_nil] at happend
  have hblock : blockLexemes code = some (.name id :: .sign "=" :: (L ++ [.newline])) := by
    rw [blockLexemes, hplain, if_neg hlast, lexemes_eq_some_iff]
    refine ⟨fun hmem => ?_, ?_⟩
    · rcases List.mem_append.1 hmem with hmem | hmem
      · exact (hchars _ hmem).2 rfl
      · exact absurd hmem (by decide)
    · simpa [hcode] using hline
  rw [readAssignment, hblock, Option.bind_eq_bind, Option.bind_some, run_assignment htakes]

end Datum

end Lalr.Code
