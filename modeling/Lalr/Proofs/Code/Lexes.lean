import Lalr.Proofs.Code.Lexeme
import Lalr.Proofs.Text.Indent

/-!
# Lalr.Proofs.Code.Lexes

Lexing as a relation (`Lexes`), without fuel.  Code that is spread over its lines and put inside a bracket has
the lexemes that it has by itself, but for line ends and blocks (`Lexes.inside`).
-/

namespace Lalr.Code

open Text (Plain isLineBoundary Spread)

/-- The characters that `lexemesFrom` treats by itself. -/
def special : List Char := ['\n', '#', '\\', ' ', '\t', '\x0c']

/-- The lexemes of a text at a place: with open blocks and brackets, at the beginning of a line or not. -/
inductive Lexes : List Margin → List Char → Bool → List Char → List Lexeme → Prop
  | done {blocks : List Margin} {m : Margin} {s : List Char} (hm : readMargin ⟨0, 0⟩ 0 s = (m, [])) :
    Lexes blocks [] true s (blocks.map fun _ => .dedent)
  | blankLine {blocks : List Margin} {m : Margin} {s rest : List Char} {L : List Lexeme}
    (hm : readMargin ⟨0, 0⟩ 0 s = (m, '\n' :: rest)) (h : Lexes blocks [] true rest L) :
    Lexes blocks [] true s L
  | commentLine {blocks : List Margin} {m : Margin} {s rest : List Char} {L : List Lexeme}
    (hm : readMargin ⟨0, 0⟩ 0 s = (m, '#' :: rest)) (h : Lexes blocks [] true (skipComment rest) L) :
    Lexes blocks [] true s L
  | line {blocks blocks' : List Margin} {m : Margin} {c : Char} {s rest : List Char}
    {change L : List Lexeme} (hm : readMargin ⟨0, 0⟩ 0 s = (m, c :: rest)) (hc : c ≠ '\n' ∧ c ≠ '#')
    (hchange : changeBlocks m blocks = some (change, blocks'))
    (h : Lexes blocks' [] false (c :: rest) L) : Lexes blocks [] true s (change ++ L)
  | ended {blocks : List Margin} : Lexes blocks [] false [] (blocks.map fun _ => .dedent)
  | newline {blocks : List Margin} {s : List Char} {L : List Lexeme} (h : Lexes blocks [] true s L) :
    Lexes blocks [] false ('\n' :: s) (.newline :: L)
  | joined {blocks : List Margin} {closers s : List Char} {L : List Lexeme} (hc : closers ≠ [])
    (h : Lexes blocks closers false s L) : Lexes blocks closers false ('\n' :: s) L
  | comment {blocks : List Margin} {closers s : List Char} {L : List Lexeme}
    (h : Lexes blocks closers false (skipComment s) L) : Lexes blocks closers false ('#' :: s) L
  | continued {blocks : List Margin} {closers s : List Char} {c : Char} {L : List Lexeme}
    (h : Lexes blocks closers false (c :: s) L) :
    Lexes blocks closers false ('\\' :: '\n' :: c :: s) L
  | blank {blocks : List Margin} {closers s : List Char} {c : Char} {L : List Lexeme}
    (hc : c = ' ' ∨ c = '\t' ∨ c = '\x0c') (h : Lexes blocks closers false s L) :
    Lexes blocks closers false (c :: s) L
  | lexeme {blocks : List Margin} {closers closers' s r : List Char} {c : Char} {t : Lexeme}
    {L : List Lexeme} (hc : c ∉ special) (hread : readLexeme closers c s = some (t, r, closers'))
    (h : Lexes blocks closers' false r L) : Lexes blocks closers false (c :: s) (t :: L)

variable {blocks blocks' : List Margin} {closers : List Char} {fresh : Bool} {c outer : Char}
  {r s s' tail : List Char} {L : List Lexeme} {m m' : Margin}

/-! ## lexing with fuel -/

theorem readLexeme_backslash (closers s : List Char) : readLexeme closers '\\' s = none := by
  have hsign : readSign ('\\' :: s) = none := by
    refine List.find?_eq_none.2 fun sign hsign => ?_
    have hsigns : ∀ sign ∈ signs, sign ≠ [] ∧ sign.head? ≠ some '\\' := by decide
    obtain ⟨hne, hhead⟩ := hsigns sign hsign
    obtain ⟨d, sign, rfl⟩ := List.exists_cons_of_ne_nil hne
    have hd : d ≠ '\\' := by simpa using hhead
    simp [List.isPrefixOf, hd]
  rw [readLexeme_sign (by decide) (by simp [opensNumber]) (by decide), hsign]
  rfl

theorem lexes_of_lexemesFrom {fuel : Nat} (hfresh : fresh = true → closers = [])
    (h : lexemesFrom fuel blocks closers fresh s = some L) : Lexes blocks closers fresh s L := by
  induction fuel generalizing blocks closers fresh s L with
  | zero => contradiction
  | succ fuel ih =>
      cases fresh with
      | true =>
          obtain rfl := hfresh rfl
          unfold lexemesFrom at h
          rw [if_pos (by rfl)] at h
          cases hm : readMargin ⟨0, 0⟩ 0 s with
          | mk m rest =>
          rw [hm] at h
          dsimp only at h
          split at h
          · obtain rfl := Option.some.inj h
            exact .done hm
          · exact .blankLine hm (ih (fun _ => rfl) h)
          · exact .commentLine hm (ih (fun _ => rfl) h)
          · next rest hnil hnewline hhash =>
              obtain ⟨⟨change, blocks'⟩, hchange, h⟩ := Option.bind_eq_some_iff.1 h
              obtain ⟨L', hL, heq⟩ := Option.bind_eq_some_iff.1 h
              obtain rfl := Option.some.inj heq
              obtain ⟨c, rest, rfl⟩ := List.exists_cons_of_ne_nil hnil
              refine .line hm ⟨?_, ?_⟩ hchange (ih nofun hL)
              · rintro rfl
                exact hnewline rest rfl
              · rintro rfl
                exact hhash rest rfl
      | false =>
          unfold lexemesFrom at h
          rw [if_neg (by simp)] at h
          split at h
          · split at h
            · next hempty =>
                obtain rfl := List.isEmpty_iff.1 hempty
                obtain rfl := Option.some.inj h
                exact .ended
            · contradiction
          · split at h
            · next hempty =>
                obtain rfl := List.isEmpty_iff.1 hempty
                obtain ⟨L', hL, heq⟩ := Option.bind_eq_some_iff.1 h
                obtain rfl := Option.some.inj heq
                exact .newline (ih (fun _ => rfl) hL)
            · next hempty => exact .joined (mt List.isEmpty_iff.2 hempty) (ih nofun h)
          · exact .comment (ih nofun h)
          · exact .continued (ih nofun h)
          · next c rest hnewline hhash hcontinued =>
              split at h
              · next hblank => exact .blank (by simpa [or_assoc] using hblank) (ih nofun h)
              · next hblank =>
                  obtain ⟨⟨t, r, closers'⟩, hread, h⟩ := Option.bind_eq_some_iff.1 h
                  obtain ⟨L', hL, heq⟩ := Option.bind_eq_some_iff.1 h
                  obtain rfl := Option.some.inj heq
                  refine .lexeme ?_ hread (ih nofun hL)
                  have hslash : c ≠ '\\' := by
                    rintro rfl
                    rw [readLexeme_backslash] at hread
                    contradiction
                  simp only [Bool.or_eq_true, decide_eq_true_eq, not_or] at hblank
                  simp only [special, List.mem_cons, List.not_mem_nil, or_false, not_or]
                  exact ⟨hnewline, hhash, hslash, hblank.1.1, hblank.1.2, hblank.2⟩

/-- A margin is at the front of a text. -/
theorem length_readMargin (m : Margin) (first : Nat) (s : List Char) :
    (readMargin m first s).2.length ≤ s.length := by
  fun_induction readMargin m first s <;> simp_all <;> omega

theorem Lexes.lexemesFrom_succ (h : Lexes blocks closers fresh s L) {fuel : Nat}
    (hfuel : 2 * s.length + fresh.toNat ≤ fuel) :
    lexemesFrom (fuel + 1) blocks closers fresh s = some L := by
  have hmargin {m : Margin} {s rest : List Char} (hm : readMargin ⟨0, 0⟩ 0 s = (m, rest)) :
      rest.length ≤ s.length := by
    have := length_readMargin ⟨0, 0⟩ 0 s
    rwa [hm] at this
  have hcomment (s : List Char) : (skipComment s).length ≤ s.length :=
    (List.dropWhile_suffix _).length_le
  induction h generalizing fuel with
  | done hm =>
      unfold lexemesFrom
      rw [if_pos (by rfl), hm]
  | blankLine hm h ih =>
      have hlength := hmargin hm
      simp only [List.length_cons, Bool.toNat_true] at hlength hfuel ih
      obtain ⟨fuel, rfl⟩ : ∃ k, fuel = k + 1 := ⟨fuel - 1, by omega⟩
      unfold lexemesFrom
      rw [if_pos (by rfl), hm]
      exact ih (by omega)
  | @commentLine _ _ _ rest _ hm h ih =>
      have hlength := hmargin hm
      have hskip := hcomment rest
      simp only [List.length_cons, Bool.toNat_true] at hlength hfuel ih
      obtain ⟨fuel, rfl⟩ : ∃ k, fuel = k + 1 := ⟨fuel - 1, by omega⟩
      unfold lexemesFrom
      rw [if_pos (by rfl), hm]
      exact ih (by omega)
  | @line _ _ _ c _ rest _ _ hm hc hchange h ih =>
      have hlength := hmargin hm
      simp only [List.length_cons, Bool.toNat_true, Bool.toNat_false] at hlength hfuel ih
      obtain ⟨fuel, rfl⟩ : ∃ k, fuel = k + 1 := ⟨fuel - 1, by omega⟩
      unfold lexemesFrom
      rw [if_pos (by rfl), hm]
      dsimp only
      split
      · contradiction
      · next heq => exact absurd (List.cons.inj heq).1 hc.1
      · next heq => exact absurd (List.cons.inj heq).1 hc.2
      · rw [hchange]
        exact Option.bind_eq_some_iff.2 ⟨_, rfl,
          Option.bind_eq_some_iff.2 ⟨_, @ih fuel (by omega), rfl⟩⟩
  | ended => rfl
  | newline h ih =>
      simp only [List.length_cons, Bool.toNat_true, Bool.toNat_false] at hfuel ih
      obtain ⟨fuel, rfl⟩ : ∃ k, fuel = k + 1 := ⟨fuel - 1, by omega⟩
      unfold lexemesFrom
      rw [if_neg (by simp)]
      exact (if_pos rfl).trans (Option.bind_eq_some_iff.2 ⟨_, @ih fuel (by omega), rfl⟩)
  | joined hc h ih =>
      simp only [List.length_cons, Bool.toNat_false] at hfuel ih
      obtain ⟨fuel, rfl⟩ : ∃ k, fuel = k + 1 := ⟨fuel - 1, by omega⟩
      unfold lexemesFrom
      rw [if_neg (by simp)]
      exact (if_neg (mt List.isEmpty_iff.1 hc)).trans (@ih fuel (by omega))
  | @comment _ _ s _ h ih =>
      have hskip := hcomment s
      simp only [List.length_cons, Bool.toNat_false] at hfuel ih
      obtain ⟨fuel, rfl⟩ : ∃ k, fuel = k + 1 := ⟨fuel - 1, by omega⟩
      unfold lexemesFrom
      rw [if_neg (by simp)]
      exact ih (by omega)
  | continued h ih =>
      simp only [List.length_cons, Bool.toNat_false] at hfuel ih
      obtain ⟨fuel, rfl⟩ : ∃ k, fuel = k + 1 := ⟨fuel - 1, by omega⟩
      unfold lexemesFrom
      rw [if_neg (by simp)]
      exact ih (by omega)
  | blank hc h ih =>
      simp only [List.length_cons, Bool.toNat_false] at hfuel ih
      obtain ⟨fuel, rfl⟩ : ∃ k, fuel = k + 1 := ⟨fuel - 1, by omega⟩
      unfold lexemesFrom
      rw [if_neg (by simp)]
      rcases hc with rfl | rfl | rfl <;> exact ih (by omega)
  | lexeme hc hread h ih =>
      have hlength := length_le_of_readLexeme hread
      simp only [List.length_cons, Bool.toNat_false] at hfuel ih
      obtain ⟨fuel, rfl⟩ : ∃ k, fuel = k + 1 := ⟨fuel - 1, by omega⟩
      simp only [special, List.mem_cons, List.not_mem_nil, or_false, not_or] at hc
      unfold lexemesFrom
      rw [if_neg (by simp)]
      split
      · contradiction
      · next heq => exact absurd (List.cons.inj heq).1 hc.1
      · next heq => exact absurd (List.cons.inj heq).1 hc.2.1
      · next heq => exact absurd (List.cons.inj heq).1 hc.2.2.1
      · next heq =>
          obtain ⟨rfl, rfl⟩ := List.cons.inj heq
          rw [if_neg (by simp [hc]), hread]
          exact Option.bind_eq_some_iff.2 ⟨_, rfl,
            Option.bind_eq_some_iff.2 ⟨_, @ih fuel (by omega), rfl⟩⟩

theorem lexemes_eq_some_iff : lexemes s = some L ↔ '\x00' ∉ s ∧ Lexes [] [] true s L := by
  unfold lexemes
  constructor
  · intro h
    split at h
    · contradiction
    · next hnul => exact ⟨by simpa using hnul, lexes_of_lexemesFrom (fun _ => rfl) h⟩
  · rintro ⟨hnul, h⟩
    rw [if_neg (by simpa using hnul)]
    exact h.lexemesFrom_succ le_rfl

/-! ## brackets and layout -/

/-- Whether a lexeme is about lines and blocks. -/
def Lexeme.isLayout : Lexeme → Bool
  | .newline | .indent | .dedent => true
  | _ => false

/-- How many brackets are open after a lexeme. -/
def openAfter (n : Nat) : Lexeme → Nat
  | .sign s => if s.toList ∈ openers then n + 1 else if s.toList ∈ closings then n - 1 else n
  | _ => n

/-- The most brackets that are open at once. -/
def deepest (n : Nat) : List Lexeme → Nat
  | [] => n
  | t :: ts => max n (deepest (openAfter n t) ts)

theorem le_deepest (n : Nat) (L : List Lexeme) : n ≤ deepest n L := by
  cases L with
  | nil => exact le_rfl
  | cons => exact Nat.le_max_left ..

theorem deepest_layout {change : List Lexeme} (hchange : ∀ t ∈ change, t.isLayout = true) (n : Nat)
    (L : List Lexeme) : deepest n (change ++ L) = deepest n L := by
  induction change with
  | nil => rfl
  | cons t change ih =>
      obtain ⟨ht, hchange⟩ := List.forall_mem_cons.1 hchange
      have hsame : openAfter n t = n := by cases t <;> first | rfl | contradiction
      rw [List.cons_append, deepest, hsame, ih hchange, Nat.max_eq_right (le_deepest n L)]

theorem filter_layout {change : List Lexeme} (hchange : ∀ t ∈ change, t.isLayout = true)
    (L : List Lexeme) : (change ++ L).filter (!·.isLayout) = L.filter (!·.isLayout) := by
  rw [List.filter_append, List.filter_eq_nil_iff.2 fun t ht => by simp [hchange t ht], List.nil_append]

theorem mem_of_closeBlocks {change : List Lexeme} (h : closeBlocks m blocks = some (change, blocks')) :
    ∀ t ∈ change, t = .dedent := by
  induction blocks generalizing change blocks' with
  | nil =>
      unfold closeBlocks at h
      split at h
      · obtain ⟨rfl, -⟩ := Prod.mk.inj (Option.some.inj h)
        exact nofun
      · contradiction
  | cons top outer ih =>
      unfold closeBlocks at h
      split at h
      · obtain ⟨⟨change', blocks''⟩, hclose, heq⟩ := Option.bind_eq_some_iff.1 h
        obtain ⟨rfl, -⟩ := Prod.mk.inj (Option.some.inj heq)
        exact List.forall_mem_cons.2 ⟨rfl, ih hclose⟩
      · split at h
        · obtain ⟨rfl, -⟩ := Prod.mk.inj (Option.some.inj h)
          exact nofun
        · contradiction

theorem mem_of_changeBlocks {change : List Lexeme} (h : changeBlocks m blocks = some (change, blocks')) :
    ∀ t ∈ change, t = .indent ∨ t = .dedent := by
  unfold changeBlocks at h
  dsimp only at h
  split at h
  · split at h
    · obtain ⟨rfl, -⟩ := Prod.mk.inj (Option.some.inj h)
      exact List.forall_mem_singleton.2 (.inl rfl)
    · contradiction
  · exact fun t ht => .inr (mem_of_closeBlocks h t ht)

theorem isLayout_of_changeBlocks {change : List Lexeme} (h : changeBlocks m blocks = some (change, blocks')) :
    ∀ t ∈ change, t.isLayout = true := fun t ht => by
  rcases mem_of_changeBlocks h t ht with rfl | rfl <;> rfl

theorem isText_of_readText {k : Quotation} {q : Char} {t : Lexeme} (h : readText k q s = some (t, r)) :
    ∃ v, t = .text k v := by
  obtain ⟨⟨content, r'⟩, -, h⟩ := Option.bind_eq_some_iff.1 h
  obtain ⟨value, -, h⟩ := Option.bind_eq_some_iff.1 h
  exact ⟨_, (Prod.mk.inj (Option.some.inj h)).1.symm⟩

theorem isWord_of_wordLexeme {w : List Char} {t : Lexeme} (h : wordLexeme w = some t) :
    (∃ id, t = .name id) ∨ ∃ word, t = .keyword word := by
  unfold wordLexeme at h
  dsimp only at h
  split at h
  · exact .inr ⟨_, (Option.some.inj h).symm⟩
  · split at h
    · exact .inl ⟨_, (Option.some.inj h).symm⟩
    · contradiction

/-- Only signs open and close brackets, and they are not about layout. -/
theorem openAfter_of_readWord {t : Lexeme} (h : readWord s = some (t, r)) (n : Nat) :
    openAfter n t = n ∧ t.isLayout = false := by
  unfold readWord at h
  dsimp only at h
  split at h
  · obtain ⟨v, rfl⟩ := isText_of_readText h
    exact ⟨rfl, rfl⟩
  · obtain ⟨v, rfl⟩ := isText_of_readText h
    exact ⟨rfl, rfl⟩
  · obtain ⟨t', ht, heq⟩ := Option.bind_eq_some_iff.1 h
    obtain ⟨rfl, -⟩ := Prod.mk.inj (Option.some.inj heq)
    obtain ⟨id, rfl⟩ | ⟨word, rfl⟩ := isWord_of_wordLexeme ht <;> exact ⟨rfl, rfl⟩

theorem length_of_changeBrackets {closers closers' sign : List Char}
    (h : changeBrackets closers sign = some closers') :
    closers'.length = openAfter closers.length (.sign (String.ofList sign)) := by
  rw [openAfter, String.toList_ofList]
  by_cases hopen : sign ∈ openers
  · obtain ⟨close, hclose⟩ := changeBrackets_of_opener hopen
    rw [hclose] at h
    split at h
    · rw [if_pos hopen, ← Option.some.inj h, List.length_cons]
    · contradiction
  by_cases hclosing : sign ∈ closings
  · obtain ⟨c, rfl⟩ : ∃ c, sign = [c] := by
      simp only [closings, List.mem_cons, List.not_mem_nil, or_false] at hclosing
      rcases hclosing with rfl | rfl | rfl <;> exact ⟨_, rfl⟩
    rw [changeBrackets_of_closing hclosing] at h
    rw [if_neg hopen, if_pos hclosing]
    cases closers with
    | nil => contradiction
    | cons top closers =>
        dsimp only at h
        split at h
        · rw [← Option.some.inj h, List.length_cons, Nat.add_sub_cancel]
        · contradiction
  · rw [changeBrackets_of_other hopen hclosing] at h
    rw [if_neg hopen, if_neg hclosing, Option.some.inj h]

theorem length_of_readLexeme {closers closers' : List Char} {t : Lexeme}
    (h : readLexeme closers c s = some (t, r, closers')) :
    closers'.length = openAfter closers.length t ∧ t.isLayout = false := by
  rcases readLexeme_cases h with ⟨-, hread, rfl⟩ | ⟨-, ⟨-, v, -, rfl, rfl⟩ |
    ⟨-, ⟨-, hread, rfl⟩ | ⟨-, sign, -, -, hclosers, rfl⟩⟩⟩
  · obtain ⟨v, rfl⟩ := isText_of_readText hread
    exact ⟨rfl, rfl⟩
  · exact ⟨rfl, rfl⟩
  · obtain ⟨hopen, hlayout⟩ := openAfter_of_readWord hread _
    exact ⟨hopen.symm, hlayout⟩
  · exact ⟨length_of_changeBrackets hclosers, rfl⟩

/-! ## line ends -/

/-- No line end stands beside another. -/
def Spaced : List Lexeme → Prop
  | [] => True
  | t :: L => (t = .newline → L.head? ≠ some .newline) ∧ Spaced L

theorem Spaced.cons {t : Lexeme} (ht : t ≠ .newline) (h : Spaced L) : Spaced (t :: L) :=
  ⟨fun heq => absurd heq ht, h⟩

theorem Spaced.append {change : List Lexeme} (hchange : ∀ t ∈ change, t ≠ .newline) (h : Spaced L) :
    Spaced (change ++ L) := by
  induction change with
  | nil => exact h
  | cons t change ih =>
      obtain ⟨ht, hchange⟩ := List.forall_mem_cons.1 hchange
      exact .cons ht (ih hchange)

theorem Spaced.le_one {A : List Lexeme} {k : Nat} (h : Spaced (A ++ List.replicate k .newline)) : k ≤ 1 := by
  induction A with
  | nil =>
      match k with
      | 0 | 1 => omega
      | k + 2 => exact absurd rfl (h.1 rfl)
  | cons t A ih => exact ih h.2

/-- A line does not go on with its margin. -/
theorem readMargin_rest {m₀ : Margin} {first : Nat} (hm : readMargin m₀ first s = (m, c :: r)) :
    c ≠ ' ' ∧ c ≠ '\t' ∧ c ≠ '\x0c' ∧ (c = '\\' → ∀ d r', r ≠ '\n' :: d :: r') := by
  fun_induction readMargin m₀ first s with
  | case1 m₀ first rest ih | case2 m₀ first rest ih | case3 m₀ first rest ih => exact ih hm
  | case4 m₀ first c rest ih => exact ih hm
  | case5 m₀ first s hspace htab hfeed hcontinued =>
      obtain ⟨-, rfl⟩ := Prod.mk.inj hm
      refine ⟨?_, ?_, ?_, ?_⟩
      · rintro rfl
        exact hspace _ rfl
      · rintro rfl
        exact htab _ rfl
      · rintro rfl
        exact hfeed _ rfl
      · rintro rfl d r' rfl
        exact hcontinued _ _ rfl

/-- Past its margin a line goes on with a lexeme. -/
theorem Lexes.head?_of_margin {m₀ : Margin} {first : Nat} (h : Lexes blocks [] false (c :: r) L)
    (hm : readMargin m₀ first s = (m, c :: r)) (hc : c ≠ '\n' ∧ c ≠ '#') : L.head? ≠ some .newline := by
  obtain ⟨hspace, htab, hfeed, hcontinued⟩ := readMargin_rest hm
  cases h with
  | newline h => exact absurd rfl hc.1
  | joined hne h => exact absurd rfl hne
  | comment h => exact absurd rfl hc.2
  | continued h => exact absurd rfl (hcontinued rfl _ _)
  | blank hblank h => rcases hblank with rfl | rfl | rfl <;> contradiction
  | lexeme _ hread h =>
      rintro ⟨⟩
      exact absurd (length_of_readLexeme hread).2 (by decide)

/-- A line has a lexeme before it ends, so no line ends stand beside each other. -/
theorem Lexes.spaced (h : Lexes blocks closers fresh s L) :
    Spaced L ∧ (fresh = true → L.head? ≠ some .newline) := by
  have hdedents (blocks : List Margin) : ∀ t ∈ blocks.map fun _ => Lexeme.dedent, t ≠ .newline := by
    intro t ht
    obtain ⟨-, -, rfl⟩ := List.mem_map.1 ht
    exact nofun
  induction h with
  | @done blocks =>
      refine ⟨?_, fun _ hhead => ?_⟩
      · simpa using Spaced.append (L := []) (hdedents blocks) trivial
      · exact hdedents blocks _ (List.mem_of_head? hhead) rfl
  | blankLine hm h ih | commentLine hm h ih => exact ih
  | @line _ _ _ _ _ _ change _ hm hc hchange h ih =>
      have hlayout : ∀ t ∈ change, t ≠ .newline := fun t ht => by
        rcases mem_of_changeBlocks hchange t ht with rfl | rfl <;> exact nofun
      refine ⟨ih.1.append hlayout, fun _ => ?_⟩
      cases change with
      | nil => exact h.head?_of_margin hm hc
      | cons t change => exact fun hhead => hlayout t List.mem_cons_self (Option.some.inj hhead)
  | @ended blocks =>
      refine ⟨?_, nofun⟩
      simpa using Spaced.append (L := []) (hdedents blocks) trivial
  | newline h ih => exact ⟨⟨fun _ => ih.2 rfl, ih.1⟩, nofun⟩
  | joined _ h ih | comment h ih | continued h ih | blank _ h ih => exact ⟨ih.1, nofun⟩
  | lexeme hc hread h ih =>
      refine ⟨ih.1.cons ?_, nofun⟩
      rintro rfl
      exact absurd (length_of_readLexeme hread).2 (by decide)

/-! ## inside a bracket -/

theorem alike_of_spread (h : Spread s s') (tail : List Char) : Alike s (s' ++ '\n' :: tail) := by
  induction h with
  | nil => exact .newline tail
  | @cons c s s' n hn _ ih =>
      rw [List.cons_append]
      cases hc : isLineBoundary c with
      | true => exact .boundary hc ..
      | false =>
          obtain rfl := hn hc
          exact .cons hc ih

theorem Lexes.spaces (n : Nat) (h : Lexes blocks closers false s L) :
    Lexes blocks closers false (List.replicate n ' ' ++ s) L := by
  induction n with
  | zero => exact h
  | succ n ih => exact .blank (.inl rfl) ih

/-- A comment in code that is spread goes as far as it did. -/
theorem spread_skipComment (h : Spread s s') (tail : List Char) :
    ∃ u, skipComment (s' ++ '\n' :: tail) = u ++ '\n' :: tail ∧ Spread (skipComment s) u := by
  have hspaces (n : Nat) (u : List Char) : skipComment (List.replicate n ' ' ++ u) = skipComment u :=
    List.dropWhile_append_of_pos fun c hc => by rw [List.eq_of_mem_replicate hc]; decide
  induction h with
  | nil => exact ⟨[], by simp [skipComment], .nil⟩
  | @cons c s s' n hn h ih =>
      by_cases hc : c = '\n'
      · subst hc
        exact ⟨'\n' :: (List.replicate n ' ' ++ s'), by simp [skipComment], by
          simpa [skipComment] using Spread.cons n hn h⟩
      · obtain ⟨u, hu, hs⟩ := ih
        have hstep (x : List Char) : skipComment (c :: x) = skipComment x := by simp [skipComment, hc]
        refine ⟨u, ?_, hstep s ▸ hs⟩
        rw [List.cons_append, hstep, List.append_assoc, hspaces, hu]

theorem Lexes.continuation (hs : s ≠ []) (h : Lexes blocks closers false s L) :
    Lexes blocks closers false ('\\' :: '\n' :: s) L := by
  obtain ⟨c, s, rfl⟩ := List.exists_cons_of_ne_nil hs
  exact .continued h

theorem quotedTexts_cons (hc : c ∉ marks) (s : List Char) : quotedTexts (c :: s) = quotedTexts s :=
  quotedTexts_append (w := [c]) (List.forall_mem_singleton.2 hc) s

/-- A margin counts for nothing inside brackets. -/
theorem exists_spread_margin {m₀ : Margin} {first : Nat} (hm : readMargin m₀ first s = (m, r))
    (h : Spread s s') : ∃ r', Spread r r' ∧ quotedTexts r = quotedTexts s ∧
      ∀ {blocks closers tail L}, Lexes blocks closers false (r' ++ tail) L →
        Lexes blocks closers false (s' ++ tail) L := by
  fun_induction readMargin m₀ first s generalizing s' with
  | case1 m₀ first rest ih | case2 m₀ first rest ih | case3 m₀ first rest ih =>
      obtain _ | ⟨n, -, h⟩ := h
      obtain ⟨r', hr, hsame, hlex⟩ := ih hm h
      refine ⟨r', hr, hsame.trans (quotedTexts_cons (by decide) rest).symm,
        fun htail => .blank (by decide) ?_⟩
      have := (hlex htail).spaces n
      rwa [← List.append_assoc] at this
  | case4 m₀ first c rest ih =>
      obtain _ | ⟨n, hn, h⟩ := h
      obtain rfl := hn (by decide)
      obtain _ | ⟨n, -, h⟩ := h
      obtain ⟨r', hr, hsame, hlex⟩ := ih hm h
      refine ⟨r', hr, hsame.trans ?_, fun htail => .continuation ?_ ?_⟩
      · exact ((quotedTexts_cons (by decide) _).trans (quotedTexts_cons (by decide) _)).symm
      · cases h
        simp
      · have := (hlex htail).spaces n
        rwa [← List.append_assoc] at this
  | case5 =>
      obtain ⟨-, rfl⟩ := Prod.mk.inj hm
      exact ⟨s', h, rfl, id⟩

/-- Code that is spread over its lines and put inside a bracket has the lexemes that it has by itself,
but for line ends and blocks. -/
theorem Lexes.inside (h : Lexes blocks closers fresh s L) (hs : Spread s s')
    (htexts : ∀ x ∈ quotedTexts s, Plain x) (hdepth : deepest closers.length L < 200)
    (htail : Lexes blocks' [outer] false ('\n' :: tail) Lt) :
    Lexes blocks' (closers ++ [outer]) false (s' ++ '\n' :: tail) (L.filter (!·.isLayout) ++ Lt) := by
  have hdedents (blocks : List Margin) : (blocks.map fun _ => Lexeme.dedent).filter (!·.isLayout) = [] := by
    simp [Lexeme.isLayout]
  induction h generalizing s' with
  | done hm =>
      obtain ⟨r', hr, -, hlex⟩ := exists_spread_margin hm hs
      cases hr
      rw [hdedents]
      exact hlex htail
  | blankLine hm h ih =>
      obtain ⟨r', hr, hsame, hlex⟩ := exists_spread_margin hm hs
      obtain _ | ⟨n, -, hr⟩ := hr
      rw [← hsame, quotedTexts_cons (by decide)] at htexts
      refine hlex (.joined (List.cons_ne_nil _ _) ?_)
      have := (ih hr htexts hdepth).spaces n
      rwa [← List.append_assoc] at this
  | commentLine hm h ih =>
      obtain ⟨r', hr, hsame, hlex⟩ := exists_spread_margin hm hs
      obtain _ | ⟨n, hn, hr⟩ := hr
      obtain rfl := hn (by decide)
      rw [← hsame, quotedTexts_comment] at htexts
      obtain ⟨u, hu, hskip⟩ := spread_skipComment hr tail
      refine hlex (.comment ?_)
      have := ih hskip htexts hdepth
      rwa [← hu] at this
  | line hm hc hchange h ih =>
      obtain ⟨r', hr, hsame, hlex⟩ := exists_spread_margin hm hs
      have hlayout := isLayout_of_changeBlocks hchange
      rw [deepest_layout hlayout] at hdepth
      rw [filter_layout hlayout]
      exact hlex (ih hr (hsame ▸ htexts) hdepth)
  | ended =>
      cases hs
      rw [hdedents]
      exact htail
  | newline h ih =>
      obtain _ | ⟨n, -, hs⟩ := hs
      rw [quotedTexts_cons (by decide)] at htexts
      have := (ih hs htexts hdepth).spaces n
      rw [← List.append_assoc] at this
      exact .joined (List.cons_ne_nil _ _) this
  | joined hc h ih =>
      obtain _ | ⟨n, -, hs⟩ := hs
      rw [quotedTexts_cons (by decide)] at htexts
      have := (ih hs htexts hdepth).spaces n
      rw [← List.append_assoc] at this
      exact .joined (by simp) this
  | comment h ih =>
      obtain _ | ⟨n, hn, hs⟩ := hs
      obtain rfl := hn (by decide)
      rw [quotedTexts_comment] at htexts
      obtain ⟨u, hu, hskip⟩ := spread_skipComment hs tail
      have := ih hskip htexts hdepth
      rw [← hu] at this
      exact .comment this
  | continued h ih =>
      obtain _ | ⟨n, hn, hs⟩ := hs
      obtain rfl := hn (by decide)
      obtain _ | ⟨n, -, hs⟩ := hs
      rw [quotedTexts_cons (by decide), quotedTexts_cons (by decide)] at htexts
      have := (ih hs htexts hdepth).spaces n
      rw [← List.append_assoc] at this
      refine .continuation ?_ this
      simp
  | blank hc h ih =>
      obtain _ | ⟨n, -, hs⟩ := hs
      rw [quotedTexts_cons (by rcases hc with rfl | rfl | rfl <;> decide)] at htexts
      have := (ih hs htexts hdepth).spaces n
      rw [← List.append_assoc] at this
      exact .blank hc this
  | @lexeme _ closers closers' s r c t L hc hread h ih =>
      obtain ⟨hlength, hlayout⟩ := length_of_readLexeme hread
      rw [deepest, ← hlength] at hdepth
      have hdeep : deepest closers'.length L < 200 := (Nat.le_max_right ..).trans_lt hdepth
      obtain ⟨⟨w, r₂, hw, rfl, heq, -, hread₂⟩, hquoted⟩ := readLexeme_alike (alike_of_spread hs tail)
        hread ((le_deepest ..).trans_lt hdeep) htexts outer
      rw [← List.cons_append] at hs
      obtain ⟨u, rfl, hu⟩ := hs.exists_of_plain hw
      obtain rfl : u ++ '\n' :: tail = r₂ := by simpa using heq
      rw [List.filter_cons_of_pos (by simp [hlayout])]
      rw [heq]
      exact .lexeme hc hread₂ (ih hu hquoted hdeep)

end Lalr.Code
