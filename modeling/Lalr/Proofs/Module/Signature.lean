import Lalr.Proofs.Module.Generated
import Lalr.Proofs.Text.Replace

/-!
# Lalr.Proofs.Module.Signature

How signatures are found in a text.  A signature is read exactly where its text stands after the mark
(`readSignature_eq_some_iff`).  None reaches over a character that can at most begin one, and no line
ending is part of one, so a text has the signatures of its lines, however these end
(`signatures_eq_flatMap`).
-/

namespace Lalr.Module

variable {cs rest : List Char} {s : Signature}

/-- The mark that a signature follows, up to its version. -/
def heading : List Char := signingMark ++ " Signed<<v".toList

/-- A version in digits of any script and sixty-four hexadecimal digits spell a signature. -/
structure Spelled (v : List Char) (s : Signature) : Prop where
  ne_nil : v ≠ []
  isDigit : ∀ c ∈ v, Text.isDigit c = true
  version : s.version = Text.numeral v
  length : s.digest.length = 64
  isHexDigit : ∀ c ∈ s.digest, Module.isHexDigit c = true

/-- The text of a signature with its mark. -/
def marked (v : List Char) (s : Signature) : List Char :=
  heading ++ (v ++ ':' :: (s.digest ++ ['>', '>']))

theorem readSignature_eq (cs : List Char) : readSignature cs =
    (after? heading cs).bind fun rest => (after? [':'] (rest.dropWhile Text.isDigit)).bind fun rest' =>
      (after? ['>', '>'] (rest'.drop 64)).bind fun rest'' =>
        if (rest.takeWhile Text.isDigit).isEmpty || (rest'.take 64).length ≠ 64 ||
            !(rest'.take 64).all isHexDigit then none
        else some (⟨Text.numeral (rest.takeWhile Text.isDigit), rest'.take 64⟩, rest'') := rfl

theorem takeWhile_isDigit_append {v : List Char} (h : ∀ c ∈ v, Text.isDigit c = true) (cs : List Char) :
    (v ++ ':' :: cs).takeWhile Text.isDigit = v ∧ (v ++ ':' :: cs).dropWhile Text.isDigit = ':' :: cs := by
  have hcolon : Text.isDigit ':' = false := by decide
  rw [List.takeWhile_append_of_pos h, List.dropWhile_append_of_pos h]
  simp [hcolon]

/-- What is read as a signature is the text of one. -/
theorem readSignature_eq_some_iff : readSignature cs = some (s, rest) ↔
    ∃ v, Spelled v s ∧ cs = marked v s ++ rest := by
  rw [readSignature_eq]
  constructor
  · intro h
    obtain ⟨rest₁, h₁, h⟩ := Option.bind_eq_some_iff.1 h
    obtain ⟨rest₂, h₂, h⟩ := Option.bind_eq_some_iff.1 h
    obtain ⟨rest₃, h₃, h⟩ := Option.bind_eq_some_iff.1 h
    split at h
    · cases h
    · next hcheck =>
        obtain ⟨rfl, rfl⟩ := Prod.mk.inj (Option.some.inj h)
        rw [after?_eq_some_iff] at h₁ h₂ h₃
        simp only [Bool.or_eq_true, decide_eq_true_eq, not_or, Bool.not_eq_true, List.isEmpty_eq_false_iff,
          Bool.not_eq_false', List.all_eq_true, ne_eq, Decidable.not_not] at hcheck
        obtain ⟨⟨hne, hlength⟩, hhex⟩ := hcheck
        refine ⟨rest₁.takeWhile Text.isDigit,
          ⟨hne, fun c hc => List.all_eq_true.1 List.all_takeWhile c hc, rfl, hlength, hhex⟩, ?_⟩
        have hcode : rest₂.take 64 ++ (['>', '>'] ++ rest₃) = rest₂ := by
          rw [← h₃, List.take_append_drop]
        have hrest : rest₁.takeWhile Text.isDigit ++ ([':'] ++ rest₂) = rest₁ := by
          rw [← h₂, List.takeWhile_append_dropWhile]
        calc cs = heading ++ (rest₁.takeWhile Text.isDigit ++
              ([':'] ++ (rest₂.take 64 ++ (['>', '>'] ++ rest₃)))) := by rw [hcode, hrest, h₁]
          _ = _ := by simp [marked]
  · rintro ⟨v, hv, rfl⟩
    have hcs : marked v s ++ rest = heading ++ (v ++ ':' :: (s.digest ++ (['>', '>'] ++ rest))) := by
      simp [marked]
    obtain ⟨htake, hdrop⟩ := takeWhile_isDigit_append hv.isDigit (s.digest ++ (['>', '>'] ++ rest))
    have hcolon : ':' :: (s.digest ++ (['>', '>'] ++ rest)) =
        [':'] ++ (s.digest ++ (['>', '>'] ++ rest)) := rfl
    rw [hcs, after?_append, Option.bind_some, htake, hdrop, hcolon, after?_append, Option.bind_some,
      List.take_left' hv.length, List.drop_left' hv.length, after?_append, Option.bind_some, if_neg]
    · rw [← hv.version]
    · simp [hv.ne_nil, hv.length, List.all_eq_true.2 hv.isHexDigit]

/-! ## signatures one after the other -/

theorem signaturesFrom_eq_drop (skip : Nat) (cs : List Char) :
    signaturesFrom skip cs = signatures (cs.drop skip) := by
  induction cs generalizing skip with
  | nil => rw [List.drop_nil, signatures, signaturesFrom, signaturesFrom]
  | cons c cs ih =>
      cases skip with
      | zero => rfl
      | succ skip => rw [signaturesFrom, ih, List.drop_succ_cons]

theorem signatures_nil : signatures [] = [] := by rw [signatures, signaturesFrom]

theorem signatures_cons {c : Char} (h : readSignature (c :: cs) = none) :
    signatures (c :: cs) = signatures cs := by
  rw [signatures, signaturesFrom, h]
  rfl

variable {v : List Char}

theorem exists_marked_eq (v : List Char) (s : Signature) : ∃ body, marked v s = '@' :: body := ⟨_, rfl⟩

theorem signatures_marked_append (hv : Spelled v s) (cs : List Char) :
    signatures (marked v s ++ cs) = s :: signatures cs := by
  have hread : readSignature (marked v s ++ cs) = some (s, cs) :=
    readSignature_eq_some_iff.2 ⟨v, hv, rfl⟩
  obtain ⟨body, hbody⟩ := exists_marked_eq v s
  rw [hbody, List.cons_append] at hread ⊢
  simp only [signatures, signaturesFrom, hread]
  rw [signaturesFrom_eq_drop, List.length_append, Nat.add_sub_cancel, List.drop_left]
  rfl

/-- Going over a text from one signature to the next. -/
theorem signatures_induction {motive : List Char → Prop} (hnil : motive [])
    (hmarked : ∀ v s cs, Spelled v s → motive cs → motive (marked v s ++ cs))
    (hcons : ∀ c cs, readSignature (c :: cs) = none → motive cs → motive (c :: cs))
    (cs : List Char) : motive cs := by
  induction hn : cs.length using Nat.strongRecOn generalizing cs with
  | ind n ih =>
      cases cs with
      | nil => exact hnil
      | cons c cs =>
          cases hread : readSignature (c :: cs) with
          | none => exact hcons c cs hread (ih _ (by rw [← hn]; exact Nat.lt_succ_self _) cs rfl)
          | some found =>
              obtain ⟨v, hv, hcs⟩ := readSignature_eq_some_iff.1 (hread.trans rfl)
              obtain ⟨body, hbody⟩ := exists_marked_eq v found.1
              rw [hcs] at hn ⊢
              refine hmarked v found.1 found.2 hv (ih _ ?_ found.2 rfl)
              rw [← hn, List.length_append, hbody, List.length_cons]
              omega

/-- A character that does not occur in a signature, but may begin one. -/
def Apart (c : Char) : Prop := c = '@' ∨ Text.isLineBoundary c = true

theorem Apart.not_mem {c : Char} (h : Apart c) (hv : Spelled v s) : c ∉ (marked v s).tail := by
  have hall : ('@' :: Text.boundaries).all fun c => c ∉ heading.tail ∧ Text.isDigit c = false ∧ c ≠ ':' ∧
      isHexDigit c = false ∧ c ≠ '>' := by decide
  have hmem : c ∈ '@' :: Text.boundaries :=
    List.mem_cons.2 (h.imp id fun hc => Text.mem_boundaries hc)
  obtain ⟨hheading, hdigit, hcolon, hhex, hangle⟩ := of_decide_eq_true (List.all_eq_true.1 hall c hmem)
  have htail : (marked v s).tail = heading.tail ++ (v ++ ':' :: (s.digest ++ ['>', '>'])) := rfl
  rw [htail]
  simp only [List.mem_append, List.mem_cons, List.not_mem_nil, or_false, not_or]
  refine ⟨hheading, fun hc => ?_, hcolon, fun hc => ?_, hangle, hangle⟩
  · rw [hv.isDigit c hc] at hdigit
    contradiction
  · rw [hv.isHexDigit c hc] at hhex
    contradiction

/-- No signature reaches over a character that does not occur in one. -/
theorem signatures_append_cons {c : Char} (hc : Apart c) (as bs : List Char) :
    signatures (as ++ c :: bs) = signatures as ++ signatures (c :: bs) := by
  induction as using signatures_induction with
  | hnil => rw [signatures_nil, List.nil_append, List.nil_append]
  | hmarked v s as hv ih =>
      rw [List.append_assoc, signatures_marked_append hv, signatures_marked_append hv, ih,
        List.cons_append]
  | hcons a as hnone ih =>
      have hnone' : readSignature (a :: (as ++ c :: bs)) = none := by
        refine Option.eq_none_iff_forall_ne_some.2 fun found hread => ?_
        obtain ⟨v, hv, hstart⟩ := readSignature_eq_some_iff.1 (hread.trans rfl)
        obtain ⟨rest, hrest⟩ := Text.prefix_of_prefix_append_cons (hc.not_mem hv)
          (List.cons_ne_nil a as) ⟨found.2, hstart.symm⟩
        rw [readSignature_eq_some_iff.2 ⟨v, hv, hrest.symm⟩] at hnone
        contradiction
      rw [List.cons_append, signatures_cons hnone', signatures_cons hnone, ih]

theorem signatures_boundary {c : Char} (hc : Text.isLineBoundary c = true) (as bs : List Char) :
    signatures (as ++ c :: bs) = signatures as ++ signatures bs := by
  rw [signatures_append_cons (.inr hc), signatures_cons]
  refine Option.eq_none_iff_forall_ne_some.2 fun found hread => ?_
  obtain ⟨v, -, hcs⟩ := readSignature_eq_some_iff.1 (hread.trans rfl)
  obtain ⟨body, hbody⟩ := exists_marked_eq v found.1
  rw [hbody] at hcs
  rw [(List.cons.inj hcs).1] at hc
  contradiction

/-! ## signatures line by line -/

/-- A text that ends where a line ends, if it is not empty. -/
def Ended (cs : List Char) : Prop := ∀ c, cs.getLast? = some c → Text.isLineBoundary c = true

theorem Ended.signatures_append {as : List Char} (h : Ended as) (bs : List Char) :
    signatures (as ++ bs) = signatures as ++ signatures bs := by
  rcases List.eq_nil_or_concat as with rfl | ⟨as, c, rfl⟩
  · rw [signatures_nil, List.nil_append, List.nil_append]
  · have hc : Text.isLineBoundary c = true := h c (by simp)
    rw [List.concat_eq_append, List.append_assoc, List.singleton_append, signatures_boundary hc,
      signatures_boundary hc, signatures_nil, List.append_nil]

theorem ended_of_complete {l : List Char} (h : Text.Complete l) : Ended l := by
  obtain ⟨d, hlast, hd⟩ := h.exists_boundary
  exact fun c hc => Option.some.inj (hlast.symm.trans hc) ▸ hd

/-- The signatures of complete lines come before those of what follows. -/
theorem signatures_flatten_append {ls : List (List Char)} (h : ∀ l ∈ ls, Text.Complete l) (rest : List Char) :
    signatures (ls.flatten ++ rest) = ls.flatMap signatures ++ signatures rest := by
  induction ls with
  | nil => rfl
  | cons l ls ih =>
      obtain ⟨hl, hls⟩ := List.forall_mem_cons.1 h
      rw [List.flatten_cons, List.append_assoc, (ended_of_complete hl).signatures_append, ih hls,
        List.flatMap_cons, List.append_assoc]

theorem signatures_flatten {ls : List (List Char)} (h : Text.WellCut ls) :
    signatures ls.flatten = ls.flatMap signatures := by
  induction h with
  | nil => exact signatures_nil
  | last => simp
  | cons hl _ _ ih =>
      rw [List.flatten_cons, (ended_of_complete hl).signatures_append, ih, List.flatMap_cons]

theorem signatures_withoutEnding (l : List Char) : signatures (withoutEnding l) = signatures l := by
  refine apply_withoutEnding (fun l c hc => ?_) l
  rw [signatures_boundary (isLineBoundary_of_isLineEnd hc), signatures_nil, List.append_nil]

/-- A text has the signatures of its lines. -/
theorem signatures_eq_flatMap (cs : List Char) :
    signatures cs = ((Text.lines cs).map withoutEnding).flatMap signatures := by
  calc signatures cs = signatures (Text.lines cs).flatten := by rw [Text.flatten_lines]
    _ = (Text.lines cs).flatMap signatures := signatures_flatten (Text.wellCut_lines cs)
    _ = _ := by simp only [List.flatMap_map, signatures_withoutEnding]

/-! ## texts without a signature -/

/-- What every signature begins with. -/
def tokenStart : List Char := "Signed<<".toList

theorem not_occurs_of_not_mem (h : '<' ∉ cs) : ¬ tokenStart <:+: cs :=
  fun hoccurs => h (hoccurs.subset (by decide))

theorem signatures_of_not_occurs (h : ¬ tokenStart <:+: cs) : signatures cs = [] := by
  induction cs using signatures_induction with
  | hnil => exact signatures_nil
  | hmarked v s cs hv ih =>
      have hheading : heading = signingMark ++ ' ' :: (tokenStart ++ ['v']) := by decide
      refine absurd ⟨signingMark ++ [' '], 'v' :: (v ++ ':' :: (s.digest ++ ['>', '>'])) ++ cs, ?_⟩ h
      rw [marked, hheading]
      simp
  | hcons c cs hnone ih =>
      rw [signatures_cons hnone]
      exact ih fun hoccurs => h (hoccurs.trans (List.suffix_cons c cs).isInfix)

end Lalr.Module
