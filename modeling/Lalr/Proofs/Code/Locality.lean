import Lalr.Code.Lexeme
import Lalr.Proofs.Text.Digit
import Lalr.Proofs.Text.Lines

/-!
# Lalr.Proofs.Code.Locality

Lexemes are read within a line.  What is read at the front of a text, and how far it goes, depends on the
text up to the next line boundary only (`Local`), so it is the same in two texts that are alike so far
(`Alike`).
-/

namespace Lalr.Code

open Text (Plain isLineBoundary plain_append plain_nil)

variable {α β : Type} {c b : Char} {r r₂ s s₂ w : List Char}

/-- Two texts that are alike up to the next line boundary; the end of the first may be a newline in the
second. -/
inductive Alike : List Char → List Char → Prop
  | nil : Alike [] []
  | newline (y : List Char) : Alike [] ('\n' :: y)
  | boundary {b : Char} (hb : isLineBoundary b = true) (x y : List Char) : Alike (b :: x) (b :: y)
  | cons {c : Char} {r r₂ : List Char} (hc : isLineBoundary c = false) (h : Alike r r₂) :
    Alike (c :: r) (c :: r₂)

namespace Alike

theorem refl : (s : List Char) → Alike s s
  | [] => nil
  | c :: s =>
    match hc : isLineBoundary c with
    | true => boundary hc s s
    | false => cons hc (refl s)

theorem exists_of_append (hw : Plain w) (h : Alike (w ++ r) s) : ∃ r₂, s = w ++ r₂ ∧ Alike r r₂ := by
  induction w generalizing s with
  | nil => exact ⟨s, rfl, h⟩
  | cons c w ih =>
      obtain ⟨hc, hw⟩ := List.forall_mem_cons.1 hw
      cases h with
      | boundary hb => exact absurd (hb.symm.trans hc) nofun
      | cons _ h =>
          obtain ⟨r₂, rfl, hr⟩ := ih hw h
          exact ⟨r₂, rfl, hr⟩

theorem exists_of_cons (h : Alike (c :: r) s) :
    ∃ r₂, s = c :: r₂ ∧ (isLineBoundary c = false → Alike r r₂) := by
  cases h with
  | boundary hb x y => exact ⟨y, rfl, fun hc => absurd (hb.symm.trans hc) nofun⟩
  | cons hc h => exact ⟨_, rfl, fun _ => h⟩

/-- Alike texts have the same first character as far as a test tells that a newline does not pass. -/
theorem any_head? (h : Alike r r₂) {p : Char → Bool} (hp : p '\n' = false) :
    r₂.head?.any p = r.head?.any p := by
  cases h with
  | newline => exact hp
  | nil | boundary | cons => rfl

/-- Alike texts begin with the same words. -/
theorem isPrefixOf_eq (h : Alike r r₂) (hw : Plain w) : w.isPrefixOf r₂ = w.isPrefixOf r := by
  induction w generalizing r r₂ with
  | nil => simp
  | cons c w ih =>
      obtain ⟨hc, hw⟩ := List.forall_mem_cons.1 hw
      have hne {b : Char} (hb : isLineBoundary b = true) : (c == b) = false :=
        beq_false_of_ne fun h => absurd (h ▸ hc) (by simp [hb])
      cases h with
      | nil => rfl
      | newline y => simp [List.isPrefixOf, hne (by decide : isLineBoundary '\n' = true)]
      | boundary hb x y => simp [List.isPrefixOf, hne hb]
      | cons _ h => simp [List.isPrefixOf, ih h hw]

end Alike

/-- The characters that begin comments and quoted texts. -/
def marks : List Char := ['#', '\'', '"']

/-- A text within a line that no comment and no quoted text begins in. -/
def Bare (w : List Char) : Prop := ∀ c ∈ w, isLineBoundary c = false ∧ c ∉ marks

instance : DecidablePred Bare := fun w => inferInstanceAs (Decidable (∀ c ∈ w, _))

theorem bare_nil : Bare [] := fun _ h => absurd h List.not_mem_nil

theorem bare_append : Bare (s ++ w) ↔ Bare s ∧ Bare w := List.forall_mem_append

theorem Bare.plain (h : Bare w) : Plain w := fun c hc => (h c hc).1

/-- A reader of something within a line that has no quoted text in it. -/
def Local (f : List Char → Option (α × List Char)) : Prop :=
  ∀ ⦃s s₂⦄, Alike s s₂ → ∀ ⦃a r⦄, f s = some (a, r) →
    ∃ w r₂, Bare w ∧ s = w ++ r ∧ s₂ = w ++ r₂ ∧ Alike r r₂ ∧ f s₂ = some (a, r₂)

/-- One thing after the other within a line. -/
theorem Local.bind {f : List Char → Option (α × List Char)}
    {g : α → List Char → Option (β × List Char)} (hf : Local f) (hg : ∀ a, Local (g a)) :
    Local fun s => f s >>= fun t => g t.1 t.2 := by
  intro s s₂ hs b r h
  obtain ⟨⟨a, r₁⟩, hfs, hgs⟩ := Option.bind_eq_some_iff.1 h
  obtain ⟨w, r₂, hw, rfl, rfl, hr, hfs₂⟩ := hf hs hfs
  obtain ⟨w', r₂', hw', rfl, rfl, hr', hgs₂⟩ := hg a hr hgs
  exact ⟨w ++ w', r₂', bare_append.2 ⟨hw, hw'⟩, by simp, by simp, hr',
    Option.bind_eq_some_iff.2 ⟨_, hfs₂, hgs₂⟩⟩

/-- Nothing is read, if what follows does not forbid it. -/
theorem local_unless {p : List Char → Bool} (hp : ∀ r r₂, Alike r r₂ → p r₂ = p r) (a : α) :
    Local fun s => if p s then none else some (a, s) := by
  intro s s₂ hs b r h
  dsimp only at h ⊢
  rw [hp s s₂ hs]
  split at h
  · contradiction
  · next hps =>
      obtain ⟨rfl, rfl⟩ := Prod.mk.inj (Option.some.inj h)
      exact ⟨[], s₂, bare_nil, rfl, rfl, hs, if_neg hps⟩

theorem local_pure (a : α) : Local fun s => some (a, s) := by
  intro s s₂ hs b r h
  obtain ⟨rfl, rfl⟩ := Prod.mk.inj (Option.some.inj h)
  exact ⟨[], s₂, bare_nil, rfl, rfl, hs, rfl⟩

/-- A class of characters without line boundaries and marks. -/
theorem bare_of_class {p : Char → Bool} (hp : ∀ b ∈ Text.boundaries ++ marks, p b = false) (c : Char)
    (hc : p c = true) : isLineBoundary c = false ∧ c ∉ marks := by
  obtain ⟨hboundaries, hmarks⟩ := List.forall_mem_append.1 hp
  exact ⟨Bool.eq_false_iff.2 fun hb => absurd hc (by simp [hboundaries c (Text.mem_boundaries hb)]),
    fun hmem => absurd hc (by simp [hmarks c hmem])⟩

/-- One more character in front of what is read. -/
theorem Local.after {f : List Char → Option (α × List Char)} (hf : Local f)
    (hc : isLineBoundary c = false) (hs : Alike (c :: s) s₂) {a : α} (h : f s = some (a, r)) :
    ∃ w r₂, Bare w ∧ s = w ++ r ∧ s₂ = c :: (w ++ r₂) ∧ Alike r r₂ ∧ f (w ++ r₂) = some (a, r₂) := by
  obtain ⟨s', rfl, hs'⟩ := hs.exists_of_cons
  obtain ⟨w, r₂, hw, rfl, rfl, hr, h₂⟩ := hf (hs' hc) h
  exact ⟨w, r₂, hw, rfl, rfl, hr, h₂⟩

/-! ## numbers -/

theorem local_readDigits {p : Char → Bool} (hp : ∀ b ∈ Text.boundaries ++ marks, p b = false)
    (hunderscore : p '_' = false) : Local (readDigits p) := by
  have hplain := bare_of_class hp
  have hstop {c : Char} (hne : c ≠ '_') (hc : p c = false) (s : List Char) :
      readDigits p (c :: s) = some ([], c :: s) := by
    rw [readDigits, if_neg (by simp [hc]), if_neg hne]
    rintro _ _ rfl
    exact absurd rfl hne
  intro s s₂ hs ds r h
  fun_induction readDigits p s generalizing s₂ ds r with
  | case1 =>
      obtain ⟨rfl, rfl⟩ := Prod.mk.inj (Option.some.inj h)
      refine ⟨[], s₂, bare_nil, rfl, rfl, hs, ?_⟩
      cases hs with
      | nil => rfl
      | newline y => exact hstop (by decide) (hp _ (by decide)) y
  | case2 c rest hc ih =>
      obtain ⟨⟨ds', r'⟩, hread, hds⟩ := Option.bind_eq_some_iff.1 h
      obtain ⟨rfl, rfl⟩ := Prod.mk.inj (Option.some.inj hds)
      obtain ⟨s', rfl, hs'⟩ := hs.exists_of_cons
      obtain ⟨s'', rfl, hs''⟩ := (hs' (by decide)).exists_of_cons
      obtain ⟨w, r₂, hw, rfl, rfl, hr, hagain⟩ := ih (hs'' (hplain c hc).1) hread
      refine ⟨'_' :: c :: w, r₂, List.forall_mem_cons.2 ⟨by decide, List.forall_mem_cons.2
        ⟨hplain c hc, hw⟩⟩, rfl, rfl, hr, ?_⟩
      rw [readDigits, if_pos hc, hagain]
      rfl
  | case3 => contradiction
  | case4 c rest hpattern hc ih =>
      obtain ⟨⟨ds', r'⟩, hread, hds⟩ := Option.bind_eq_some_iff.1 h
      obtain ⟨rfl, rfl⟩ := Prod.mk.inj (Option.some.inj hds)
      obtain ⟨s', rfl, hs'⟩ := hs.exists_of_cons
      obtain ⟨w, r₂, hw, rfl, rfl, hr, hagain⟩ := ih (hs' (hplain c hc).1) hread
      refine ⟨c :: w, r₂, List.forall_mem_cons.2 ⟨hplain c hc, hw⟩, rfl, rfl, hr, ?_⟩
      rw [readDigits, if_pos hc, hagain]
      · rfl
      · rintro _ _ rfl
        exact absurd hc (by simp [hunderscore])
  | case5 => contradiction
  | case6 c rest hpattern hc hne =>
      obtain ⟨rfl, rfl⟩ := Prod.mk.inj (Option.some.inj h)
      obtain ⟨s', rfl, -⟩ := hs.exists_of_cons
      exact ⟨[], _, bare_nil, rfl, rfl, hs, hstop hne (Bool.not_eq_true _ ▸ hc) s'⟩

theorem isLineBoundary_of_isDigit (h : c.isDigit = true) : isLineBoundary c = false :=
  (bare_of_class (by decide) c h).1

theorem local_readDecimalDigits : Local (readDigits Char.isDigit) :=
  local_readDigits (by decide) (by decide)

theorem plain_wordsAfterNumber : ∀ w ∈ wordsAfterNumber, Plain w := by decide

theorem Alike.endsNumber_eq (h : Alike r r₂) : endsNumber r₂ = endsNumber r := by
  have hwords : wordsAfterNumber.any (·.isPrefixOf r₂) = wordsAfterNumber.any (·.isPrefixOf r) := by
    rw [Bool.eq_iff_iff, List.any_eq_true, List.any_eq_true]
    exact exists_congr fun w => and_congr_right fun hw => by
      rw [h.isPrefixOf_eq (plain_wordsAfterNumber w hw)]
  cases h with
  | nil | newline => rfl
  | boundary | cons => rw [endsNumber, hwords, endsNumber]

theorem local_readBased {base : Nat} : Local (readBased base) := by
  have hhex : ∀ b ∈ Text.boundaries ++ marks, Text.hexValue? b = none := by decide
  have hdigits : Local (readDigits fun c => (Text.hexValue? c).any (· < base)) :=
    local_readDigits (fun b hb => by rw [hhex b hb]; rfl) (by simp [Text.hexValue?])
  exact hdigits.bind fun ds => local_unless
    (p := fun rest => ds.isEmpty || !endsNumber rest || rest.head?.any Char.isDigit)
    (fun r r₂ hr => by rw [hr.endsNumber_eq, hr.any_head? (by decide)]) (Number.whole (valueOf base ds))

/-- The sign of an exponent and what follows it. -/
def cutSign : List Char → Bool × List Char
  | '+' :: r => (true, r)
  | '-' :: r => (true, r)
  | r => (false, r)

theorem readExponent_cons (e : Char) (rest : List Char) : readExponent (e :: rest) =
    if e = 'e' || e = 'E' then
      if (cutSign rest).2.head?.any Char.isDigit then
        readDigits Char.isDigit (cutSign rest).2 >>= fun x => some (true, x.2)
      else if (cutSign rest).1 then none
      else some (false, e :: rest)
    else some (false, e :: rest) := by
  rfl

theorem cutSign_of_ne (hplus : s.head? ≠ some '+') (hminus : s.head? ≠ some '-') :
    cutSign s = (false, s) := by
  unfold cutSign
  split
  · exact absurd rfl hplus
  · exact absurd rfl hminus
  · rfl

theorem Alike.cutSign (h : Alike s s₂) : ∃ w, Bare w ∧ s = w ++ (cutSign s).2 ∧
    s₂ = w ++ (Code.cutSign s₂).2 ∧ Alike (Code.cutSign s).2 (Code.cutSign s₂).2 ∧
    (Code.cutSign s₂).1 = (Code.cutSign s).1 := by
  have hsame (hs : s.head? ≠ some '+' ∧ s.head? ≠ some '-') (hs₂ : s₂.head? ≠ some '+' ∧ s₂.head? ≠ some '-') :
      ∃ w, Bare w ∧ s = w ++ (Code.cutSign s).2 ∧ s₂ = w ++ (Code.cutSign s₂).2 ∧
        Alike (Code.cutSign s).2 (Code.cutSign s₂).2 ∧ (Code.cutSign s₂).1 = (Code.cutSign s).1 := by
    rw [cutSign_of_ne hs.1 hs.2, cutSign_of_ne hs₂.1 hs₂.2]
    exact ⟨[], bare_nil, rfl, rfl, h, rfl⟩
  cases h with
  | nil => exact hsame (by simp) (by simp)
  | newline y => exact hsame (by simp) (by simp)
  | @boundary b hb x y =>
      have hne : b ≠ '+' ∧ b ≠ '-' := by constructor <;> (rintro rfl; contradiction)
      exact hsame (by simpa using hne) (by simpa using hne)
  | @cons c r r₂ hc h =>
      by_cases hplus : c = '+'
      · subst hplus
        exact ⟨['+'], by decide, rfl, rfl, h, rfl⟩
      · by_cases hminus : c = '-'
        · subst hminus
          exact ⟨['-'], by decide, rfl, rfl, h, rfl⟩
        · exact hsame (by simp [hplus, hminus]) (by simp [hplus, hminus])

theorem local_readExponent : Local readExponent := by
  intro s s₂ hs v r h
  cases hs with
  | nil => exact local_pure false .nil h
  | newline y =>
      obtain ⟨rfl, rfl⟩ := Prod.mk.inj (Option.some.inj h)
      exact ⟨[], _, bare_nil, rfl, rfl, .newline y, rfl⟩
  | @boundary b hb x y =>
      have hne : ¬(b = 'e' || b = 'E') = true := by
        rw [Bool.or_eq_true, decide_eq_true_eq, decide_eq_true_eq]
        rintro (rfl | rfl) <;> contradiction
      rw [readExponent_cons, if_neg hne] at h
      obtain ⟨rfl, rfl⟩ := Prod.mk.inj (Option.some.inj h)
      refine ⟨[], _, bare_nil, rfl, rfl, .boundary hb x y, ?_⟩
      rw [readExponent_cons, if_neg hne]
  | @cons e rest rest₂ he hrest =>
      obtain ⟨w, hw, hbody, hbody₂, halike, hsigned⟩ := hrest.cutSign
      rw [readExponent_cons] at h
      rw [readExponent_cons, hsigned, halike.any_head? (by decide)]
      split at h
      · split at h
        · next hexp hdigit =>
            obtain ⟨w', r₂, hw', heq, heq₂, hr, hread⟩ :=
              local_readDecimalDigits.bind (fun _ => local_pure true) halike h
            have hbare : isLineBoundary e = false ∧ e ∉ marks := by
              rw [Bool.or_eq_true, decide_eq_true_eq, decide_eq_true_eq] at hexp
              rcases hexp with rfl | rfl <;> decide
            refine ⟨e :: (w ++ w'), r₂, List.forall_mem_cons.2 ⟨hbare, bare_append.2 ⟨hw, hw'⟩⟩, ?_, ?_, hr, ?_⟩
            · rw [hbody, heq]; simp
            · rw [hbody₂, heq₂]; simp
            · rw [if_pos hexp, if_pos hdigit]
              exact hread
        · split at h
          · contradiction
          · next hexp hdigit hs =>
              obtain ⟨rfl, rfl⟩ := Prod.mk.inj (Option.some.inj h)
              rw [if_pos hexp, if_neg hdigit, if_neg hs]
              exact local_pure false (.cons he hrest) rfl
      · next hexp =>
          rw [if_neg hexp]
          exact local_pure _ (.cons he hrest) h

/-- What follows the digits and the exponent of a number. -/
theorem local_readSuffix (value : Number) : Local fun rest => match rest with
    | c :: rest' =>
      if c = 'j' || c = 'J' then if endsNumber rest' then some (.imaginary, rest') else none
      else if endsNumber rest then some (value, rest) else none
    | [] => some (value, []) := by
  intro s s₂ hs v r h
  cases hs with
  | nil => exact local_pure value .nil h
  | newline y =>
      obtain ⟨rfl, rfl⟩ := Prod.mk.inj (Option.some.inj h)
      exact ⟨[], _, bare_nil, rfl, rfl, .newline y, rfl⟩
  | @boundary b hb x y =>
      have hne : ¬(b = 'j' || b = 'J') = true := by
        rw [Bool.or_eq_true, decide_eq_true_eq, decide_eq_true_eq]
        rintro (rfl | rfl) <;> contradiction
      dsimp only at h ⊢
      rw [if_neg hne] at h ⊢
      have halike : Alike (b :: x) (b :: y) := .boundary hb x y
      rw [halike.endsNumber_eq]
      split at h
      · next hends =>
          rw [if_pos hends]
          exact local_pure value halike h
      · contradiction
  | @cons c x y hc hxy =>
      have halike : Alike (c :: x) (c :: y) := .cons hc hxy
      dsimp only at h ⊢
      rw [hxy.endsNumber_eq, halike.endsNumber_eq]
      split at h
      · split at h
        · next himaginary hends =>
            obtain ⟨rfl, rfl⟩ := Prod.mk.inj (Option.some.inj h)
            have hbare : isLineBoundary c = false ∧ c ∉ marks := by
              rw [Bool.or_eq_true, decide_eq_true_eq, decide_eq_true_eq] at himaginary
              rcases himaginary with rfl | rfl <;> decide
            refine ⟨[c], y, List.forall_mem_singleton.2 hbare, rfl, rfl, hxy, ?_⟩
            rw [if_pos himaginary, if_pos hends]
        · contradiction
      · split at h
        · next himaginary hends =>
            rw [if_neg himaginary, if_pos hends]
            exact local_pure value halike h
        · contradiction

theorem local_readTail {value : Number} : Local (readTail value) :=
  local_readExponent.bind fun scaled => local_readSuffix (if scaled then .fraction else value)

theorem local_readFraction : Local readFraction := by
  intro s s₂ hs v r h
  unfold readFraction at h ⊢
  rw [hs.any_head? (by decide)]
  split at h
  · next hd =>
      rw [if_pos hd]
      exact local_readDecimalDigits.bind (fun _ => local_readTail) hs h
  · next hd =>
      rw [if_neg hd]
      exact local_readTail hs h

/-- What follows the first digits of a number. -/
def afterDigits (ds rest : List Char) : Option (Number × List Char) :=
  let padded := ds.head? = some '0' && ds.any (· ≠ '0')
  match rest with
  | '.' :: rest => readFraction rest
  | rest => readTail (.ofDigits ds) rest >>= fun t =>
      if t.1.isWhole && padded then none else some (t.1, t.2)

theorem local_afterDigits (ds : List Char) : Local (afterDigits ds) := by
  have hpadded (value : Number) (padded : Bool) : Local fun rest => readTail value rest >>= fun t =>
      if t.1.isWhole && padded then none else some (t.1, t.2) :=
    local_readTail.bind fun v => local_unless (p := fun _ => v.isWhole && padded) (fun _ _ _ => rfl) v
  intro s s₂ hs v r h
  unfold afterDigits at h ⊢
  dsimp only at h ⊢
  split at h
  · next rest =>
      obtain ⟨w, r₂, hw, rfl, rfl, hr, h₂⟩ := local_readFraction.after (by decide) hs h
      exact ⟨'.' :: w, r₂, List.forall_mem_cons.2 ⟨by decide, hw⟩, rfl, rfl, hr, h₂⟩
  · next hne =>
      have hdot : ∀ rest, s₂ ≠ '.' :: rest := by
        rintro rest rfl
        cases hs with
        | boundary hb => contradiction
        | cons => exact hne _ rfl
      obtain ⟨w, r₂, hw, hs₁, hs₂, hr, h₂⟩ := hpadded _ _ hs h
      refine ⟨w, r₂, hw, hs₁, hs₂, hr, ?_⟩
      split
      · exact absurd rfl (hdot _)
      · exact h₂

theorem local_readDecimal : Local readDecimal := local_readDecimalDigits.bind local_afterDigits

/-- The letters that announce the base of a number. -/
def baseLetters : List Char := ['x', 'X', 'o', 'O', 'b', 'B']

theorem readNumber_eq_readDecimal (hdot : ∀ rest, s ≠ '.' :: rest)
    (hzero : ∀ c rest, s = '0' :: c :: rest → c ∉ baseLetters) : readNumber s = readDecimal s := by
  unfold readNumber
  split
  · exact absurd rfl (hdot _)
  · next c rest =>
      have hc := hzero c rest rfl
      simp only [baseLetters, List.mem_cons, List.not_mem_nil, or_false, not_or] at hc
      simp [hc]
  · rfl

/-- A number that begins with a digit takes at least this digit. -/
theorem readDecimal_cons (hc : c.isDigit = true) {v : Number} (h : readDecimal (c :: s) = some (v, r)) :
    r.length ≤ s.length := by
  have hunderscore : c ≠ '_' := by
    rintro rfl
    contradiction
  obtain ⟨⟨ds, rest⟩, hdigits, hrest⟩ := Option.bind_eq_some_iff.1 h
  rw [readDigits, if_pos hc] at hdigits
  · obtain ⟨⟨ds', rest'⟩, hmore, heq⟩ := Option.bind_eq_some_iff.1 hdigits
    obtain ⟨-, rfl⟩ := Prod.mk.inj (Option.some.inj heq)
    obtain ⟨w, -, -, rfl, -⟩ := local_readDecimalDigits (.refl _) hmore
    obtain ⟨w', -, -, rfl, -⟩ := local_afterDigits ds (.refl _) hrest
    simp only [List.length_append]
    omega
  · rintro _ _ rfl
    exact absurd rfl hunderscore

/-- A number within a line; it begins with a digit or a point, so it is not empty. -/
theorem readNumber_alike (hs : Alike (c :: s) s₂) {v : Number} (hc : c.isDigit = true ∨ c = '.')
    (h : readNumber (c :: s) = some (v, r)) :
    ∃ w r₂, w ≠ [] ∧ Bare w ∧ c :: s = w ++ r ∧ s₂ = w ++ r₂ ∧ Alike r r₂ ∧ readNumber s₂ = some (v, r₂) := by
  have hbare (base : Char) (hbase : base ∈ baseLetters) : isLineBoundary base = false ∧ base ∉ marks := by
    have hall : ∀ c ∈ baseLetters, isLineBoundary c = false ∧ c ∉ marks := by decide
    exact hall base hbase
  by_cases hdot : c = '.'
  · subst hdot
    obtain ⟨w, r₂, hw, rfl, rfl, hr, h₂⟩ := local_readFraction.after (by decide) hs h
    exact ⟨'.' :: w, r₂, List.cons_ne_nil _ _, List.forall_mem_cons.2 ⟨by decide, hw⟩, rfl, rfl, hr, h₂⟩
  by_cases hbase : c = '0' ∧ ∃ base rest, s = base :: rest ∧ base ∈ baseLetters
  · obtain ⟨rfl, base, rest, rfl, hmem⟩ := hbase
    obtain ⟨n, hn⟩ : ∃ n, ∀ rest, readNumber ('0' :: base :: rest) = readBased n rest := by
      simp only [baseLetters, List.mem_cons, List.not_mem_nil, or_false] at hmem
      rcases hmem with rfl | rfl | rfl | rfl | rfl | rfl <;> exact ⟨_, fun _ => rfl⟩
    obtain ⟨s', rfl, hs'⟩ := hs.exists_of_cons
    rw [hn] at h
    obtain ⟨w, r₂, hw, rfl, rfl, hr, h₂⟩ := local_readBased.after (hbare base hmem).1 (hs' (by decide)) h
    exact ⟨'0' :: base :: w, r₂, List.cons_ne_nil _ _,
      List.forall_mem_cons.2 ⟨by decide, List.forall_mem_cons.2 ⟨hbare base hmem, hw⟩⟩, rfl, rfl, hr,
      (hn _).trans h₂⟩
  have hdecimal {s₂ : List Char} (hs₂ : Alike s s₂) : readNumber (c :: s₂) = readDecimal (c :: s₂) := by
    refine readNumber_eq_readDecimal (fun rest heq => hdot (List.cons.inj heq).1) fun base rest heq hmem => ?_
    obtain ⟨rfl, rfl⟩ := List.cons.inj heq
    cases hs₂ with
    | newline => exact absurd hmem (by decide)
    | boundary | cons => exact hbase ⟨rfl, _, _, rfl, hmem⟩
  rw [hdecimal (.refl s)] at h
  obtain ⟨s', rfl, hs'⟩ := hs.exists_of_cons
  have hdigit := hc.resolve_right hdot
  rw [hdecimal (hs' (isLineBoundary_of_isDigit hdigit))]
  obtain ⟨w, r₂, hw, heq, heq₂, hr, h₂⟩ := local_readDecimal hs h
  refine ⟨w, r₂, ?_, hw, heq, heq₂, hr, h₂⟩
  rintro rfl
  have hlength := readDecimal_cons hdigit h
  rw [List.nil_append] at heq
  rw [← heq, List.length_cons] at hlength
  omega

end Lalr.Code
