import Lalr.Proofs.First
import Mathlib

/-!
# Lalr.Proofs.First.Exact

FIRST sets say what can be derived (`firsts_exact`).  The set of a string of symbols has a terminal
exactly if the string derives one that begins with it, and the marker of emptiness exactly if all of
the string can vanish.

The rounds stop because one of them changes nothing and not because the fuel is spent: with more fuel
the sets are the same (`saturate_of_le`).
-/

namespace Lalr.FirstSets

variable {ps : Productions} {terminals : List Symbol} {f g : FirstSets} {X t : Symbol}
  {w : List Symbol} {S : SymbolSet} {n fuel : Nat}

/-! ## fuel -/

/-- Sets that a round does not change are left as they are. -/
theorem saturate_eq_self (hf : round ps f = .ok f) : saturate ps fuel f = .ok f := by
  cases fuel with
  | zero => rfl
  | succ fuel => exact bind_eq_ok_iff.2 ⟨f, hf, if_pos rfl⟩

/-- When the last round changes nothing, more fuel makes no difference. -/
theorem saturate_of_le (h : saturate ps n f = .ok g) (hg : round ps g = .ok g) (hn : n ≤ fuel) :
    saturate ps fuel f = .ok g := by
  induction n generalizing f fuel with
  | zero =>
      obtain rfl : f = g := Except.ok.inj h
      exact saturate_eq_self hg
  | succ n ih =>
      obtain ⟨fuel, rfl⟩ : ∃ k, fuel = k + 1 := ⟨fuel - 1, by omega⟩
      rw [saturate, bind_eq_ok_iff] at h ⊢
      obtain ⟨f', hf', h⟩ := h
      refine ⟨f', hf', ?_⟩
      split at h
      · next heq =>
          rw [if_pos heq]
          exact h
      · next hne =>
          rw [if_neg hne]
          exact ih h (Nat.le_of_succ_le_succ hn)

/-! ## strings -/

/-- The set of a symbol is that of the string which is just the symbol. -/
theorem ofSequence_singleton (h : f.get? X = some S) : f.ofSequence [X] = .ok S := by
  rw [ofSequence, ofSymbol_eq_ok_iff.2 h]
  by_cases hε : epsilon ∈ S
  · have hset : (S.erase epsilon).union (SymbolSet.ofList [epsilon]) = S := by
      refine SymbolSet.ext_mem fun t => ?_
      by_cases ht : t = epsilon
      · simp [ht, hε]
      · simp [ht]
    simp [ofSequence, hε, hset, bind, Except.bind, pure, Except.pure]
  · simp [hε, bind, Except.bind, pure, Except.pure]

/-- A terminal is shown by the strings that derive one beginning with it. -/
theorem shows_terminal_iff (hε : epsilon ∉ terminals) (ht : t ∈ terminals) :
    ps.Produces.Shows terminals w t ↔ ∃ rest, ps.Produces.Derives w (t :: rest) := by
  have hne : t ≠ epsilon := fun e => hε (e ▸ ht)
  simp [RuleSet.Shows, hne, ht, RuleSet.begins_iff]

/-- The marker of emptiness is shown by the strings that can vanish. -/
theorem shows_epsilon_iff : ps.Produces.Shows terminals w epsilon ↔ ps.Produces.Derives w [] := by
  simp [RuleSet.Shows]

/-! ## exactness -/

/-- FIRST sets are exact.  If terminals and nonterminals have different names, productions use no
others, and no terminal is the marker of emptiness, the rounds come to an end.  Then every string of
symbols has a set: the terminals that can begin what the string derives, and the marker of emptiness if
the string can vanish.  The set of a symbol is that of the symbol as a string. -/
theorem firsts_exact (hdisj : ∀ t ∈ terminals, t ∉ ps.keys) (hε : epsilon ∉ terminals)
    (hsymbols : ∀ X p, ps.Lists X p → ∀ s ∈ p.symbols, s ∈ ps.keys ∨ s ∈ terminals) :
    ∃ f, ofGrammar ps terminals = .ok f ∧
      (∀ fuel, ps.size * (terminals.length + 1) < fuel →
        saturate ps fuel (initial ps terminals) = .ok f) ∧
      (∀ w, (∀ s ∈ w, s ∈ ps.keys ∨ s ∈ terminals) → ∃ S, f.ofSequence w = .ok S ∧
        (∀ t ∈ terminals, t ∈ S ↔ ∃ rest, ps.Produces.Derives w (t :: rest)) ∧
        (epsilon ∈ S ↔ ps.Produces.Derives w []) ∧ ∀ t ∈ S, t ∈ terminals ∨ t = epsilon) ∧
      ∀ X, X ∈ ps.keys ∨ X ∈ terminals → ∃ S, f.get? X = some S ∧ f.ofSequence [X] = .ok S := by
  obtain ⟨f, hf, hkeys⟩ := exists_ofGrammar ps terminals hsymbols
  obtain ⟨hround, -, -⟩ := sound_closed_of_ofGrammar hε hdisj hf
  refine ⟨f, hf, fun fuel hfuel => saturate_of_le hf hround hfuel, fun w hw => ?_, fun X hX => ?_⟩
  · obtain ⟨S, hS⟩ := exists_ofSequence fun s hs => hkeys s (hw s hs)
    have hmem (t : Symbol) : t ∈ S ↔ ps.Produces.Shows terminals w t := by
      rw [mem_ofSequence hS, sequenceHas_iff hε hdisj hf]
    refine ⟨S, hS, fun t ht => ?_, ?_, fun t ht => ?_⟩
    · rw [hmem, shows_terminal_iff hε ht]
    · rw [hmem, shows_epsilon_iff]
    · rcases (hmem t).1 ht with ⟨rfl, -⟩ | ⟨ht, -⟩
      · exact .inr rfl
      · exact .inl ht
  · obtain ⟨S, hS⟩ := Keyed.mem_keys_iff.1 (hkeys X hX)
    exact ⟨S, hS, ofSequence_singleton hS⟩

/-- A nonterminal that begins with another one, which can vanish and may begin with the first. -/
def mutualProductions : Productions := Keyed.ofList
  [("x", [⟨"x", ["y", "A"]⟩]), ("y", [⟨"y", ["x", "B"]⟩, ⟨"y", []⟩, ⟨"y", ["z"]⟩]),
    ("z", [⟨"z", ["C"]⟩])]

/-- What the first nonterminal derives begins with `A` where the second one vanishes, and with `C`
where it does not; it never begins with `B`, and does not vanish. -/
theorem firsts_exact_mutual :
    (∀ t ∈ ["A", "B", "C"], t ∉ mutualProductions.keys) ∧ epsilon ∉ ["A", "B", "C"] ∧
    (∀ X p, mutualProductions.Lists X p →
      ∀ s ∈ p.symbols, s ∈ mutualProductions.keys ∨ s ∈ ["A", "B", "C"]) ∧
    (∃ rest, mutualProductions.Produces.Derives ["x"] ("A" :: rest)) ∧
    (¬ ∃ rest, mutualProductions.Produces.Derives ["x"] ("B" :: rest)) ∧
    ¬ mutualProductions.Produces.Derives ["x"] [] := by
  have hdisj : ∀ t ∈ ["A", "B", "C"], t ∉ mutualProductions.keys := by decide
  have hε : epsilon ∉ ["A", "B", "C"] := by decide
  have hsymbols : ∀ X p, mutualProductions.Lists X p →
      ∀ s ∈ p.symbols, s ∈ mutualProductions.keys ∨ s ∈ ["A", "B", "C"] := by
    have hlisting : ∀ e ∈ listing mutualProductions,
        ∀ s ∈ e.2.symbols, s ∈ mutualProductions.keys ∨ s ∈ ["A", "B", "C"] := by decide
    exact fun X p hp => hlisting (X, p) (mem_listing_iff.2 hp)
  obtain ⟨f, hf, -, hstrings, -⟩ := firsts_exact hdisj hε hsymbols
  obtain ⟨S, hS, hterminal, hempty, -⟩ := hstrings ["x"] (by decide)
  have heval : (ofGrammar mutualProductions ["A", "B", "C"] >>= (·.ofSequence ["x"])) =
      .ok (SymbolSet.ofList ["A", "C"]) := by cbv
  obtain rfl : S = SymbolSet.ofList ["A", "C"] := by
    rw [hf] at heval
    exact Except.ok.inj (hS.symm.trans heval)
  refine ⟨hdisj, hε, hsymbols, ?_, ?_, ?_⟩
  · rw [← hterminal "A" (by decide)]
    decide
  · rw [← hterminal "B" (by decide)]
    decide
  · rw [← hempty]
    decide

end Lalr.FirstSets
