import Lalr.Pattern.Reader
import Lalr.Proofs.Fallible
import Mathlib.Tactic.SplitIfs

/-!
# Lalr.Proofs.Pattern.Reading

What a written pattern reads as inside a group.  Every part of a pattern that can be read at all is
read alike before a closing bracket (`readSigns_append`), so a group in which a pattern is written
out folds into that pattern (`fold_append`).
-/

namespace Lalr.Pattern

variable {c : Char} {s t rest v : List Char} {item : ClassItem} {items items' : List ClassItem}
  {sign : Sign} {signs signs' : List Sign} {level up : Level} {outer stack : List Level} {p : Pattern}

/-- Before a closing bracket, a text begins with the same characters as without it. -/
theorem append_closing_ne (hc : c ≠ ')') (h : ∀ r, s ≠ c :: r) (r : List Char) :
    s ++ ')' :: t ≠ c :: r := by
  intro heq
  cases s with
  | nil => exact hc (List.cons.inj heq).1.symm
  | cons d s => exact h s (by rw [(List.cons.inj heq).1])

/-- Whatever is cut off at the start of a text, a closing bracket stays behind. -/
theorem takeWhile_append_closing {test : Char → Bool} (htest : test ')' = false) (s t : List Char) :
    (s ++ ')' :: t).takeWhile test = s.takeWhile test ∧
      (s ++ ')' :: t).dropWhile test = s.dropWhile test ++ ')' :: t := by
  induction s with
  | nil => simp [htest]
  | cons c s ih =>
      cases hc : test c <;> simp [hc, ih]

/-! ## escapes and classes -/

theorem readCode_append {width : Nat} (h : readCode width s = .ok (item, rest)) :
    readCode width (s ++ v) = .ok (item, rest ++ v) := by
  simp only [readCode] at h
  split at h
  · next n hn =>
      split at h
      · next hwidth =>
          have hle : width ≤ s.length := by
            rw [← hwidth.1, List.length_take]
            exact Nat.min_le_right _ _
          obtain ⟨rfl, rfl⟩ := Prod.mk.inj (Except.ok.inj h)
          simp only [readCode, List.take_append_of_le_length hle, List.drop_append_of_le_length hle,
            hn, hwidth, and_self, if_true]
      · contradiction
  · contradiction

theorem readEscape_append {inClass : Bool} (h : readEscape inClass c s = .ok (item, rest)) :
    readEscape inClass c (s ++ v) = .ok (item, rest ++ v) := by
  unfold readEscape at h ⊢
  split at h
  · cases h
    rfl
  · cases h
    rfl
  · exact readCode_append h
  · split_ifs at h ⊢
    · cases h
      rfl
    · cases h
      rfl

theorem isPrefixOf_append_closing {w : List Char} (hw : ')' ∉ w) (s t : List Char) :
    w.isPrefixOf (s ++ ')' :: t) = w.isPrefixOf s := by
  induction w generalizing s with
  | nil => rfl
  | cons c w ih =>
      obtain ⟨hc, hw⟩ := not_or.1 (mt List.mem_cons.2 hw)
      cases s with
      | nil => simp [List.isPrefixOf, Ne.symm hc]
      | cons d s => rw [List.cons_append, List.isPrefixOf_cons_cons, List.isPrefixOf_cons_cons, ih hw]

/-- The sign that negates a class is no closing bracket. -/
theorem negation_append (s t : List Char) :
    (if (s ++ ')' :: t).head? = some '^' then (s ++ ')' :: t).tail else s ++ ')' :: t) =
      (if s.head? = some '^' then s.tail else s) ++ ')' :: t := by
  cases s with
  | nil => simp
  | cons d s => split <;> simp_all

/-- The name of a class holds no closing bracket. -/
theorem beginsNamedClass_append (s t : List Char) :
    beginsNamedClass (s ++ ')' :: t) = beginsNamedClass s := by
  have hmark : ')' ∉ ":]".toList := by decide
  cases s with
  | nil => rfl
  | cons c s =>
      by_cases hc : c = ':'
      · subst hc
        simp only [beginsNamedClass, List.cons_append, negation_append,
          (@takeWhile_append_closing isNamePart rfl _ t).2]
        generalize ((if s.head? = some '^' then s.tail else s).dropWhile isNamePart) = after
        cases after with
        | nil => rfl
        | cons d after =>
            have hcut := @takeWhile_append_closing isValuePart rfl after t
            simp only [isPrefixOf_append_closing hmark, List.cons_append, List.head?_cons, List.tail_cons,
              hcut.1, hcut.2]
            rw [← List.cons_append, isPrefixOf_append_closing hmark]
      · unfold beginsNamedClass
        split <;> simp_all

theorem readClassItem_append (h : readClassItem s = .ok (item, rest)) :
    readClassItem (s ++ ')' :: t) = .ok (item, rest ++ ')' :: t) := by
  unfold readClassItem at h
  split at h
  · contradiction
  · contradiction
  · exact readEscape_append h
  · next c s hlone hescape =>
      split_ifs at h with hnamed
      obtain ⟨rfl, rfl⟩ := Prod.mk.inj (Except.ok.inj h)
      rw [← beginsNamedClass_append s t] at hnamed
      have hc : c ≠ '\\' := by
        rintro rfl
        cases s with
        | nil => exact hlone rfl rfl
        | cons d s => exact hescape d s rfl rfl
      unfold readClassItem
      split <;> simp_all

theorem readRange_append {first : ClassItem} {lo : Nat}
    (h : readRange first lo s = .ok (items, rest)) :
    readRange first lo (s ++ ')' :: t) = .ok (items, rest ++ ')' :: t) := by
  unfold readRange at h
  split at h
  · cases h
    rfl
  · next hbracket =>
      obtain ⟨⟨last, rest'⟩, hlast, h⟩ := bind_eq_ok_iff.1 h
      have happend := readClassItem_append (t := t) hlast
      have hne := append_closing_ne (t := t) (by decide) hbracket
      unfold readRange
      split
      · next heq => exact absurd heq (hne _)
      · rw [happend]
        simp only [bind, Except.bind] at h ⊢
        split at h
        · cases h
          rfl
        · split_ifs at h ⊢
          cases h
          rfl

theorem readMember_append (h : readMember s = .ok (items, rest)) :
    readMember (s ++ ')' :: t) = .ok (items, rest ++ ')' :: t) := by
  unfold readMember at h ⊢
  obtain ⟨⟨first, rest'⟩, hfirst, h⟩ := bind_eq_ok_iff.1 h
  refine bind_eq_ok_iff.2 ⟨_, readClassItem_append hfirst, ?_⟩
  simp only at h ⊢
  split at h
  · next lo after hlo =>
      simp only [hlo, List.cons_append]
      exact readRange_append h
  · next hrange =>
      cases h
      split
      · next lo after hlo hafter =>
          exact absurd hafter (append_closing_ne (by decide) (fun r hr => hrange lo r hlo hr) after)
      · rfl

theorem readMembers_append (h : readMembers items s = .ok (items', rest)) :
    readMembers items (s ++ ')' :: t) = .ok (items', rest ++ ')' :: t) := by
  fun_induction readMembers items s with
  | case1 => contradiction
  | case2 items s =>
      cases h
      simp [readMembers]
  | case3 => contradiction
  | case4 items c s hc more after hmember ih =>
      have happend := readMember_append (t := t) hmember
      rw [List.cons_append] at happend ⊢
      rw [readMembers, if_neg hc]
      split
      · next heq => simp [happend] at heq
      · next more' after' heq =>
          obtain ⟨rfl, rfl⟩ : more = more' ∧ after ++ ')' :: t = after' := by
            simpa [happend] using heq
          exact ih h

theorem readClass_append {k : CharClass} (h : readClass s = .ok (k, rest)) :
    readClass (s ++ ')' :: t) = .ok (k, rest ++ ')' :: t) := by
  unfold readClass at h ⊢
  obtain ⟨⟨first, after⟩, hfirst, h⟩ := bind_eq_ok_iff.1 h
  obtain ⟨⟨items, after'⟩, hitems, h⟩ := bind_eq_ok_iff.1 h
  obtain ⟨rfl, rfl⟩ := Prod.mk.inj (Except.ok.inj h)
  have hhead : ((s ++ ')' :: t).head? = some '^') = (s.head? = some '^') := by
    cases s <;> simp
  refine bind_eq_ok_iff.2 ⟨(first, after ++ ')' :: t), ?_, bind_eq_ok_iff.2
    ⟨(items, after' ++ ')' :: t), readMembers_append hitems, ?_⟩⟩
  · simp only [negation_append]
    exact readMember_append hfirst
  · simp only [hhead]
    rfl

/-! ## quantifiers and groups -/

theorem takeDigits_append (s t : List Char) :
    takeDigits (s ++ ')' :: t) = ((takeDigits s).1, (takeDigits s).2 ++ ')' :: t) :=
  Prod.ext (takeWhile_append_closing rfl s t).1 (takeWhile_append_closing rfl s t).2

theorem dropLazy_append (s t : List Char) : dropLazy (s ++ ')' :: t) = dropLazy s ++ ')' :: t := by
  unfold dropLazy
  cases s with
  | nil => rfl
  | cons c s => split <;> simp_all

theorem readBounds_append {bounds : Option ((Nat × Option Nat) × List Char)}
    (h : readBounds s = .ok bounds) :
    readBounds (s ++ ')' :: t) = .ok (bounds.map fun b => (b.1, b.2 ++ ')' :: t)) := by
  unfold readBounds at h ⊢
  rw [takeDigits_append]
  generalize takeDigits s = digits at h ⊢
  obtain ⟨low, after⟩ := digits
  simp only at h ⊢
  split at h
  · next heq =>
      obtain ⟨rfl, rfl⟩ := Prod.mk.inj heq
      simp only [List.cons_append]
      split_ifs at h ⊢
      · cases h
        rfl
      · obtain ⟨b, hb, rfl⟩ := exists_of_map_eq_ok h
        rw [hb]
        rfl
  · next low' more heq =>
      obtain ⟨rfl, rfl⟩ := Prod.mk.inj heq
      simp only [List.cons_append, takeDigits_append]
      generalize takeDigits more = digits at h ⊢
      obtain ⟨high, after⟩ := digits
      simp only at h ⊢
      split at h
      · next heq =>
          obtain ⟨rfl, rfl⟩ := Prod.mk.inj heq
          simp only [List.cons_append]
          obtain ⟨b, hb, rfl⟩ := exists_of_map_eq_ok h
          rw [hb]
          rfl
      · next hbrace =>
          cases h
          split
          · next heq =>
              have hne : ∀ r, after ≠ '\x7d' :: r := fun r hr => hbrace high r (by rw [hr])
              exact absurd (Prod.mk.inj heq).2 (append_closing_ne (by decide) hne _)
          · rfl
  · next hbrace hcomma =>
      cases h
      split
      · next heq =>
          have hne : ∀ r, after ≠ '\x7d' :: r := fun r hr => hbrace low r (by rw [hr])
          exact absurd (Prod.mk.inj heq).2 (append_closing_ne (by decide) hne _)
      · next heq =>
          have hne : ∀ r, after ≠ ',' :: r := fun r hr => hcomma low r (by rw [hr])
          exact absurd (Prod.mk.inj heq).2 (append_closing_ne (by decide) hne _)
      · rfl

theorem readGroupName_append (h : readGroupName s = .ok rest) :
    readGroupName (s ++ ')' :: t) = .ok (rest ++ ')' :: t) := by
  have hcut := @takeWhile_append_closing (fun c => c != '>' && c != ')') rfl s t
  simp only [readGroupName] at h ⊢
  rw [hcut.1, hcut.2]
  split at h
  · next after heq =>
      rw [heq, List.cons_append]
      simp only
      split_ifs at h ⊢
      cases h
      rfl
  · contradiction

theorem readOpening_append (h : readOpening s = .ok rest) :
    readOpening (s ++ ')' :: t) = .ok (rest ++ ')' :: t) := by
  unfold readOpening at h
  split at h
  · cases h
    rfl
  · exact readGroupName_append h
  · exact readGroupName_append h
  · contradiction
  · next _ _ _ hmark =>
      cases h
      have hne := append_closing_ne (t := t) (by decide) hmark
      unfold readOpening
      split
      · next heq => exact absurd heq (hne _)
      · next heq => exact absurd heq (hne _)
      · next heq => exact absurd heq (hne _)
      · next heq => exact absurd heq (hne _)
      · rfl

/-- A constraint on errors holds no closing bracket. -/
theorem beginsFuzzy_append (s t : List Char) : beginsFuzzy (s ++ ')' :: t) = beginsFuzzy s := by
  rw [beginsFuzzy, beginsFuzzy, (takeWhile_append_closing rfl s t).1]

/-! ## symbols -/

theorem readEscapeSign_append (h : readEscapeSign s = .ok (sign, rest)) :
    readEscapeSign (s ++ ')' :: t) = .ok (sign, rest ++ ')' :: t) := by
  cases s with
  | nil => contradiction
  | cons c s =>
      obtain ⟨⟨item, after⟩, hitem, heq⟩ := exists_of_map_eq_ok h
      cases heq
      rw [List.cons_append, readEscapeSign, readEscape_append hitem]
      rfl

theorem readClassSign_append (h : readClassSign s = .ok (sign, rest)) :
    readClassSign (s ++ ')' :: t) = .ok (sign, rest ++ ')' :: t) := by
  obtain ⟨⟨k, after⟩, hclass, heq⟩ := exists_of_map_eq_ok h
  cases heq
  rw [readClassSign, readClass_append hclass]
  rfl

theorem readOpeningSign_append (h : readOpeningSign s = .ok (sign, rest)) :
    readOpeningSign (s ++ ')' :: t) = .ok (sign, rest ++ ')' :: t) := by
  obtain ⟨after, hopening, heq⟩ := exists_of_map_eq_ok h
  cases heq
  rw [readOpeningSign, readOpening_append hopening]
  rfl

theorem readBraceSign_append (h : readBraceSign s = .ok (sign, rest)) :
    readBraceSign (s ++ ')' :: t) = .ok (sign, rest ++ ')' :: t) := by
  unfold readBraceSign at h
  split at h
  · contradiction
  · next hbounds =>
      cases h
      rw [readBraceSign, readBounds_append hbounds]
      simp only [Option.map_some, dropLazy_append]
  · next hbounds =>
      rw [readBraceSign, readBounds_append hbounds, Option.map_none, beginsFuzzy_append]
      split_ifs at h ⊢
      cases h
      rfl

theorem readSign_append (h : readSign c s = .ok (sign, rest)) :
    readSign c (s ++ ')' :: t) = .ok (sign, rest ++ ')' :: t) := by
  unfold readSign at h ⊢
  split at h
  · cases h
    rfl
  · cases h
    rw [dropLazy_append]
  · split_ifs at h ⊢
    · exact readEscapeSign_append h
    · exact readClassSign_append h
    · exact readOpeningSign_append h
    · exact readBraceSign_append h
    · cases h
      rfl

/-- Before a closing bracket, a text is cut into the symbols that it has by itself. -/
theorem readSigns_append (h : readSigns s = .ok signs) (ht : readSigns t = .ok signs') :
    readSigns (s ++ ')' :: t) = .ok (signs ++ .closing :: signs') := by
  fun_induction readSigns s generalizing signs with
  | case1 =>
      cases h
      simp [readSigns, readSign, plainSign?, ht, pure, Except.pure, bind, Except.bind]
  | case2 => contradiction
  | case3 c s sign after hsign ih =>
      obtain ⟨more, hmore, h⟩ := bind_eq_ok_iff.1 h
      cases h
      have happend := readSign_append (t := t) hsign
      rw [List.cons_append, readSigns]
      split
      · next heq => simp [happend] at heq
      · next sign' after' heq =>
          obtain ⟨rfl, rfl⟩ : sign = sign' ∧ after ++ ')' :: t = after' := by
            simpa [happend] using heq
          rw [ih hmore]
          rfl

/-! ## folding -/

/-- A group folds into one item: what its symbols fold into by themselves. -/
theorem fold_append (h : fold stack level signs = .ok p) :
    fold (stack ++ up :: outer) level (signs ++ .closing :: signs') =
      fold outer (up.push p) signs' := by
  induction signs generalizing stack level with
  | nil =>
      rw [fold] at h
      split_ifs at h with hstack
      cases h
      obtain rfl := List.isEmpty_iff.1 hstack
      rfl
  | cons sign signs ih =>
      cases sign with
      | atom k => exact ih h
      | opening =>
          have hrest := ih h
          exact hrest
      | closing =>
          cases stack with
          | nil => contradiction
          | cons inner stack => exact ih h
      | bar => exact ih h
      | times least most =>
          rw [fold] at h
          split at h
          · contradiction
          · next heq =>
              simp only [List.cons_append, fold, heq]
              exact ih h

end Lalr.Pattern
