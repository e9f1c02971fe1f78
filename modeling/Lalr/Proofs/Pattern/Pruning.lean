import Lalr.Proofs.Pattern.CharClass
import Lalr.Proofs.Pattern.Residual

/-!
# Lalr.Proofs.Pattern.Pruning

A pruned pattern has no part that matches no text (`Live`), and neither have its residuals.  So a
residue of pruned patterns has patterns left exactly as long as the text can go on to a match, which
is what makes partial matching exact (`partialMatch_iff`): it succeeds on the beginnings of what the
pattern matches.
-/

namespace Lalr.Pattern

variable {a b p q : Pattern} {c : Char} {u v : List Char} {r : Residue}

/-- No part of a pattern is void. -/
def Live : Pattern → Prop
  | .empty => True
  | .chars k => ∃ c, k.contains c = true
  | .seq a b => a.Live ∧ b.Live
  | .alt a b => a.Live ∧ b.Live
  | .rep body least most => body.Live ∧ ∀ n, most = some n → least ≤ n

/-- A pattern without void parts matches some text. -/
theorem Live.exists_matches (h : p.Live) : ∃ u, p.Matches u := by
  induction p with
  | empty => exact ⟨[], .empty⟩
  | chars k =>
      obtain ⟨c, hc⟩ := h
      exact ⟨[c], .chars hc⟩
  | seq a b iha ihb =>
      obtain ⟨u, hu⟩ := iha h.1
      obtain ⟨v, hv⟩ := ihb h.2
      exact ⟨u ++ v, .seq hu hv⟩
  | alt a b iha _ =>
      obtain ⟨u, hu⟩ := iha h.1
      exact ⟨u, .altLeft hu⟩
  | rep body least most ih =>
      obtain ⟨u, hu⟩ := ih h.1
      have hall : ∀ v ∈ List.replicate least u, body.Matches v :=
        fun v hv => (List.mem_replicate.1 hv).2 ▸ hu
      exact ⟨_, .rep hall (by simp) fun n hn => by simpa using h.2 n hn⟩

theorem Live.followedBy (ha : a.Live) (hb : b.Live) : (a.followedBy b).Live := by
  unfold Pattern.followedBy
  split
  · exact hb
  · split
    · exact ha
    · exact ⟨ha, hb⟩

theorem Live.of_mem_map_followedBy {ps : List Pattern} (hps : ∀ p ∈ ps, p.Live) (hb : b.Live)
    (hq : q ∈ ps.map (·.followedBy b)) : q.Live := by
  obtain ⟨p, hp, rfl⟩ := List.mem_map.1 hq
  exact (hps p hp).followedBy hb

/-- Residuals have no void parts if the pattern has none. -/
theorem Live.of_mem_residuals (h : p.Live) (hq : q ∈ residuals c p) : q.Live := by
  induction p generalizing q with
  | empty => cases hq
  | chars k =>
      rw [residuals] at hq
      split at hq
      · obtain rfl := List.mem_singleton.1 hq
        trivial
      · cases hq
  | seq a b iha ihb =>
      rcases List.mem_append.1 hq with hq | hq
      · exact .of_mem_map_followedBy (fun p hp => iha h.1 hp) h.2 hq
      · split at hq
        · exact ihb h.2 hq
        · cases hq
  | alt a b iha ihb => exact (List.mem_append.1 hq).elim (iha h.1) (ihb h.2)
  | rep body least most ih =>
      rw [residuals] at hq
      split at hq
      · cases hq
      · have hrest : (rep body (least - 1) (most.map (· - 1))).Live := by
          refine ⟨h.1, fun n hn => ?_⟩
          obtain ⟨m, hm, rfl⟩ := Option.map_eq_some_iff.1 hn
          exact Nat.sub_le_sub_right (h.2 m hm) 1
        exact .of_mem_map_followedBy (fun p hp => ih h.1 hp) hrest hq

/-! ## pruning -/

/-- What is pruned away matches no text; what is left is live and matches the same texts. -/
def PrunesTo (p : Pattern) : Option Pattern → Prop
  | none => ∀ u, ¬ p.Matches u
  | some q => q.Live ∧ ∀ u, q.Matches u ↔ p.Matches u

theorem prunesTo_seq (ha : a.PrunesTo a.prune) (hb : b.PrunesTo b.prune) :
    (seq a b).PrunesTo (seq a b).prune := by
  simp only [prune]
  cases hpa : a.prune with
  | none =>
      rw [hpa] at ha
      intro u hu
      obtain ⟨v, w, hv, -, -⟩ := matches_seq_iff.1 hu
      exact ha v hv
  | some a' =>
      cases hpb : b.prune with
      | none =>
          rw [hpb] at hb
          intro u hu
          obtain ⟨v, w, -, hw, -⟩ := matches_seq_iff.1 hu
          exact hb w hw
      | some b' =>
          rw [hpa] at ha
          rw [hpb] at hb
          exact ⟨⟨ha.1, hb.1⟩, fun u => by simp only [matches_seq_iff, ha.2, hb.2]⟩

theorem prunesTo_alt (ha : a.PrunesTo a.prune) (hb : b.PrunesTo b.prune) :
    (alt a b).PrunesTo (alt a b).prune := by
  simp only [prune]
  cases hpa : a.prune with
  | none =>
      rw [hpa] at ha
      cases hpb : b.prune with
      | none =>
          rw [hpb] at hb
          exact fun u hu => (matches_alt_iff.1 hu).elim (ha u) (hb u)
      | some b' =>
          rw [hpb] at hb
          exact ⟨hb.1, fun u => by simp only [matches_alt_iff, hb.2, ha u, false_or]⟩
  | some a' =>
      rw [hpa] at ha
      cases hpb : b.prune with
      | none =>
          rw [hpb] at hb
          exact ⟨ha.1, fun u => by simp only [matches_alt_iff, ha.2, hb u, or_false]⟩
      | some b' =>
          rw [hpb] at hb
          exact ⟨⟨ha.1, hb.1⟩, fun u => by simp only [matches_alt_iff, ha.2, hb.2]⟩

theorem prunesTo_rep {body : Pattern} {least : Nat} {most : Option Nat}
    (h : body.PrunesTo body.prune) : (rep body least most).PrunesTo (rep body least most).prune := by
  simp only [prune]
  split
  · next hbounds =>
      -- There is no number of rounds between the bounds.
      intro u hu
      obtain ⟨us, -, hl, hm, -⟩ := matches_rep_iff.1 hu
      obtain ⟨n, rfl, hn⟩ := (Option.any_eq_true _ _).1 hbounds
      have := hm n rfl
      have := of_decide_eq_true hn
      omega
  · next hbounds =>
      have hmost (n : Nat) (hn : most = some n) : least ≤ n := by
        simpa [hn] using hbounds
      cases hp : body.prune with
      | none =>
          rw [hp] at h
          -- Rounds of a void body cannot be had, so the only text is that of no rounds.
          have hnone {u : List Char} (hu : (rep body least most).Matches u) : least = 0 ∧ u = [] := by
            obtain ⟨us, hus, hl, -, rfl⟩ := matches_rep_iff.1 hu
            obtain rfl := List.eq_nil_iff_forall_not_mem.2 fun v hv => h v (hus v hv)
            exact ⟨Nat.le_zero.1 hl, rfl⟩
          by_cases hleast : least = 0
          · rw [if_pos hleast]
            refine ⟨trivial, fun u => ⟨fun hu => ?_, fun hu => (hnone hu).2 ▸ .empty⟩⟩
            rw [matches_empty_iff.1 hu]
            exact matches_rep_iff.2 ⟨[], by simp, Nat.le_of_eq hleast, by simp, rfl⟩
          · rw [if_neg hleast]
            exact fun u hu => hleast (hnone hu).1
      | some body' =>
          rw [hp] at h
          exact ⟨⟨h.1, hmost⟩, fun u => by simp only [matches_rep_iff, h.2]⟩

/-- Pruning takes away what matches no text, and nothing else. -/
theorem prunesTo_prune (p : Pattern) : p.PrunesTo p.prune := by
  induction p with
  | empty => exact ⟨trivial, fun _ => Iff.rfl⟩
  | chars k =>
      simp only [prune]
      split
      · next h =>
          intro u hu
          obtain ⟨c, hc, -⟩ := matches_chars_iff.1 hu
          simp [CharClass.isVoid_iff.1 h c] at hc
      · next h => exact ⟨by simpa [CharClass.isVoid_iff, Live] using h, fun _ => Iff.rfl⟩
  | seq a b iha ihb => exact prunesTo_seq iha ihb
  | alt a b iha ihb => exact prunesTo_alt iha ihb
  | rep body least most ih => exact prunesTo_rep ih

/-! ## residues without void patterns -/

namespace Residue

/-- No pattern of a residue has void parts. -/
def Live (r : Residue) : Prop := ∀ p ∈ r.patterns, p.Live

theorem live_ofPruned (p : Pattern) : (ofPruned p).Live := by
  have h := prunesTo_prune p
  intro q hq
  rw [ofPruned, Option.mem_toList] at hq
  rw [Option.mem_def.1 hq] at h
  exact h.1

theorem admits_ofPruned_iff : (ofPruned p).Admits u ↔ p.Matches u := by
  have h := prunesTo_prune p
  rw [ofPruned, Admits]
  cases hp : p.prune with
  | none =>
      rw [hp] at h
      simp [h u]
  | some q =>
      rw [hp] at h
      simp [h.2 u]

theorem Live.step (h : r.Live) (c : Char) : (r.step c).Live := by
  intro q hq
  obtain ⟨p, hp, hq⟩ := List.mem_flatMap.1 (List.mem_eraseDups.1 hq)
  exact (h p hp).of_mem_residuals hq

theorem Live.run (h : r.Live) (u : List Char) : (r.run u).Live := by
  induction u generalizing r with
  | nil => exact h
  | cons c u ih => exact ih (h.step c)

/-- A residue without void patterns has patterns left if there is a way to go on. -/
theorem Live.alive_iff (h : r.Live) : r.alive = true ↔ ∃ u, r.Admits u := by
  simp only [alive, Bool.not_eq_true', List.isEmpty_eq_false_iff_exists_mem]
  constructor
  · rintro ⟨p, hp⟩
    obtain ⟨u, hu⟩ := (h p hp).exists_matches
    exact ⟨u, p, hp, hu⟩
  · rintro ⟨u, p, hp, -⟩
    exact ⟨p, hp⟩

end Residue

/-- Partial matching succeeds on the beginnings of what the pattern matches. -/
theorem partialMatch_iff : p.partialMatch u = true ↔ ∃ v, p.Matches (u ++ v) := by
  rw [partialMatch, ((Residue.live_ofPruned p).run u).alive_iff]
  simp only [Residue.admits_run_iff, Residue.admits_ofPruned_iff]

end Lalr.Pattern
