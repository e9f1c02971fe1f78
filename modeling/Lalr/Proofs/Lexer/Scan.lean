import Lalr.Lexer.Basic
import Mathlib.Data.List.Basic

/-!
# Lalr.Proofs.Lexer.Scan

What a scan finds.  It depends on nothing but the text that is ahead (`scan_gathered`): how much of
the text is pending and how much is still unread makes no difference, and a failed read stops the
scan without losing a character.  On a text the scan goes on as long as what it has read may begin a
match, and remembers the last place where it was one (`Scanned`).
-/

namespace Lalr

open Pattern (Residue)

/-! ## what a source holds -/

namespace Source

/-- The characters that a source gives, whatever fails in between. -/
def text : Source → List Char
  | [] => []
  | .char c :: rest => c :: text rest
  | .failure _ :: rest => text rest
  | .finish :: _ => []

theorem length_text_le (s : Source) : s.text.length ≤ s.length := by
  induction s with
  | nil => exact Nat.le_refl _
  | cons r rest ih =>
      cases r with
      | char c => exact Nat.succ_le_succ ih
      | failure reason => exact Nat.le_succ_of_le ih
      | finish => exact Nat.zero_le _

/-- The failures of a source up to its end. -/
def failures : Source → List String
  | [] => []
  | .char _ :: rest => failures rest
  | .failure reason :: rest => reason :: failures rest
  | .finish :: _ => []

/-- The source without its failures. -/
def withoutFailures (s : Source) : Source :=
  s.filter fun
    | .failure _ => false
    | _ => true

@[simp] theorem text_withoutFailures (s : Source) : s.withoutFailures.text = s.text := by
  induction s with
  | nil => rfl
  | cons r rest ih =>
      cases r with
      | char c => exact congrArg (c :: ·) ih
      | failure reason => exact ih
      | finish => rfl

@[simp] theorem failures_withoutFailures (s : Source) : s.withoutFailures.failures = [] := by
  induction s with
  | nil => rfl
  | cons r rest ih =>
      cases r with
      | char c => exact ih
      | failure reason => exact ih
      | finish => rfl

@[simp] theorem text_map_char (cs : List Char) : text (cs.map .char) = cs := by
  induction cs with
  | nil => rfl
  | cons c cs ih => exact congrArg (c :: ·) ih

@[simp] theorem failures_map_char (cs : List Char) : failures (cs.map .char) = [] := by
  induction cs with
  | nil => rfl
  | cons c cs ih => exact ih

end Source

variable {residue : Residue} {seen ahead text : List Char} {length longest n k : Nat}
  {unread : Source}

/-! ## scans of a text -/

/-- What is known of a text when its first `n` characters have been scanned and the last match seen ends
after `k` of them. -/
structure Scanned (start : Residue) (text : List Char) (n k : Nat) : Prop where
  le : n ≤ text.length
  alive : ∀ j, 0 < j → j ≤ n → (start.run (text.take j)).alive = true
  longest_le : k ≤ n
  accepts : k ≠ 0 → (start.run (text.take k)).accepts = true
  last : ∀ j, k < j → j ≤ n → (start.run (text.take j)).accepts = false

namespace Scanned

variable {start : Residue} {c : Char}

theorem initial (start : Residue) (text : List Char) : Scanned start text 0 0 where
  le := Nat.zero_le _
  alive j hpos hle := by omega
  longest_le := Nat.le_refl _
  accepts h := absurd rfl h
  last j hlt hle := by omega

/-- One more character can be scanned if the text may still begin a match after it. -/
theorem extend (h : Scanned start text n k) (hlt : n < text.length)
    (halive : (start.run (text.take (n + 1))).alive = true) :
    Scanned start text (n + 1)
      (if (start.run (text.take (n + 1))).accepts = true then n + 1 else k) where
  le := hlt
  alive j hpos hle := by
    rcases Nat.le_succ_iff.1 hle with hle | rfl
    · exact h.alive j hpos hle
    · exact halive
  longest_le := by
    have := h.longest_le
    split <;> omega
  accepts hne := by
    split
    · assumption
    · next hno =>
        rw [if_neg hno] at hne
        exact h.accepts hne
  last j hlt' hle := by
    split at hlt'
    · omega
    · next hno =>
        rcases Nat.le_succ_iff.1 hle with hle | rfl
        · exact h.last j hlt' hle
        · exact Bool.eq_false_iff.2 hno

theorem take_ne_nil (h : Scanned start text n k) (hk : k ≠ 0) : text.take k ≠ [] := by
  have := h.longest_le
  have := h.le
  rw [← List.length_pos_iff, List.length_take]
  omega

end Scanned

/-- How a scan of a text ends after `n` characters: with the text, or with a character after which it may
begin no match. -/
def EndsAt (start : Residue) (text : List Char) (n : Nat) : ScanEnd → Prop
  | .blocked c => text[n]? = some c ∧ (start.run (text.take (n + 1))).alive = false
  | .finished => n = text.length
  | .failed _ => False

theorem EndsAt.ne_failed {start : Residue} {ended : ScanEnd} (h : EndsAt start text n ended)
    (reason : String) : ended ≠ .failed reason :=
  fun hfailed => by rwa [hfailed] at h

/-- The residue after one more character of a text. -/
theorem run_take_succ {start : Residue} {c : Char} {rest : List Char} :
    start.run ((seen.reverse ++ c :: rest).take (seen.length + 1)) =
      (start.run seen.reverse).step c := by
  have htake : (seen.reverse ++ c :: rest).take (seen.length + 1) = seen.reverse ++ [c] := by
    rw [List.take_append, List.length_reverse, Nat.add_sub_cancel_left,
      List.take_of_length_le (by simp)]
    rfl
  rw [htake, Residue.run, List.foldl_append]
  rfl

/-- A scan of a text without reading gets as far as the text may begin a match. -/
theorem scan_text {start : Residue} (htext : text = seen.reverse ++ ahead)
    (hresidue : residue = start.run seen.reverse) (hlength : length = seen.length)
    (h : Scanned start text length longest) :
    ∃ n, (scan residue seen length longest ahead []).text = text.take n ∧
      (scan residue seen length longest ahead []).pending = text ∧
      (scan residue seen length longest ahead []).unread = [] ∧
      Scanned start text n (scan residue seen length longest ahead []).longest ∧
      EndsAt start text n (scan residue seen length longest ahead []).ended := by
  induction ahead generalizing residue seen length longest with
  | nil =>
      subst htext hlength
      have htake : (seen.reverse ++ []).take seen.length = seen.reverse := by
        rw [← List.length_reverse, List.take_left]
      rw [scan]
      exact ⟨seen.length, htake.symm, (List.append_nil _).symm, rfl, h, by simp [EndsAt]⟩
  | cons c ahead ih =>
      have hrun : start.run (text.take (length + 1)) = residue.step c := by
        rw [htext, hlength, run_take_succ, hresidue]
      have hlt : length < text.length := by
        rw [htext, hlength]
        simp
      rw [scan]
      split
      · next halive =>
          refine ih (by simpa using htext) ?_ (by simp [hlength]) ?_
          · rw [hresidue, List.reverse_cons, Residue.run, Residue.run, List.foldl_append]
            rfl
          · rw [← hrun] at halive ⊢
            exact h.extend hlt halive
      · next halive =>
          refine ⟨length, ?_, htext.symm, rfl, h, ?_, ?_⟩
          · rw [htext, hlength, ← List.length_reverse, List.take_left]
          · rw [htext, hlength, ← List.length_reverse, List.getElem?_append_right (Nat.le_refl _)]
            simp
          · rw [hrun]
            exact Bool.eq_false_iff.2 halive

/-! ## scans that read -/

/-- A scan loses no character. -/
theorem scan_conserves (residue : Residue) (seen : List Char) (length longest : Nat)
    (ahead : List Char) (unread : Source) :
    (scan residue seen length longest ahead unread).pending ++
        (scan residue seen length longest ahead unread).unread.text =
      seen.reverse ++ (ahead ++ unread.text) := by
  fun_induction scan residue seen length longest ahead unread <;>
    simp_all [Source.text]

/-- What a scan that reads has to do with one of the whole text ahead: a failed read stopped it, or no
read failed and it found the same. -/
def Scan.Answers (s whole : Scan) (unread : Source) : Prop :=
  (∃ reason, s.ended = .failed reason ∧ unread.failures = reason :: s.unread.failures) ∨
    s.text = whole.text ∧ s.longest = whole.longest ∧ s.ended = whole.ended ∧
      s.unread.failures = unread.failures

theorem scan_gathered (residue : Residue) (seen : List Char) (length longest : Nat)
    (ahead : List Char) (unread : Source) :
    (scan residue seen length longest ahead unread).Answers
      (scan residue seen length longest (ahead ++ unread.text) []) unread := by
  fun_induction scan residue seen length longest ahead unread with
  | case1 residue seen length longest c ahead unread next halive ih =>
      rwa [List.cons_append, scan, if_pos halive]
  | case2 residue seen length longest c ahead unread next halive =>
      rw [List.cons_append, scan, if_neg halive]
      exact .inr ⟨rfl, rfl, rfl, rfl⟩
  | case3 residue seen length longest c unread next halive ih =>
      rwa [Source.text, List.nil_append, scan, if_pos halive]
  | case4 residue seen length longest c unread next halive =>
      rw [Source.text, List.nil_append, scan, if_neg halive]
      exact .inr ⟨rfl, rfl, rfl, rfl⟩
  | case5 residue seen length longest reason unread => exact .inl ⟨reason, rfl, rfl⟩
  | case6 residue seen length longest unread =>
      rw [Source.text, List.nil_append, scan]
      exact .inr ⟨rfl, rfl, rfl, rfl⟩
  | case7 residue seen length longest =>
      rw [Source.text, List.nil_append, scan]
      exact .inr ⟨rfl, rfl, rfl, rfl⟩

/-- A scan that no read stops finds the same again, and reads no more, in what it has left. -/
theorem scan_again (residue : Residue) (seen : List Char) (length longest : Nat) (ahead : List Char)
    (unread : Source)
    (h : ∀ reason, (scan residue seen length longest ahead unread).ended ≠ .failed reason) :
    ∃ rest, (scan residue seen length longest ahead unread).pending = seen.reverse ++ rest ∧
      scan residue seen length longest rest (scan residue seen length longest ahead unread).unread =
        scan residue seen length longest ahead unread := by
  fun_induction scan residue seen length longest ahead unread with
  | case1 residue seen length longest c ahead unread next halive ih =>
      obtain ⟨rest, hpending, hscan⟩ := ih h
      refine ⟨c :: rest, by simpa using hpending, ?_⟩
      rwa [scan, if_pos halive]
  | case2 residue seen length longest c ahead unread next halive =>
      exact ⟨c :: ahead, rfl, by rw [scan, if_neg halive]⟩
  | case3 residue seen length longest c unread next halive ih =>
      obtain ⟨rest, hpending, hscan⟩ := ih h
      refine ⟨c :: rest, by simpa using hpending, ?_⟩
      rwa [scan, if_pos halive]
  | case4 residue seen length longest c unread next halive =>
      exact ⟨[c], rfl, by rw [scan, if_neg halive]⟩
  | case5 residue seen length longest reason unread => exact absurd rfl (h reason)
  | case6 residue seen length longest unread => exact ⟨[], by simp, by rw [scan]⟩
  | case7 residue seen length longest => exact ⟨[], by simp, by rw [scan]⟩

end Lalr
