import Lalr.Proofs.Parser.Fuel
import Lalr.Proofs.Parser.Stack

/-!
# Lalr.Proofs.Parser.Value

The tokens that a parse is about, with the end that it adds to them, and where its value comes from:
it was made for the start symbol from the tokens before the first end (`value_of_parseTokens`).
-/

namespace Lalr

namespace Parser

variable {α : Type} {g : Grammar} {c : Construction} {t : Table} {sem : Semantics Id α}
  {s : List (Frame α) × List Token} {tokens rest y : List Token} {token : Token} {v : α}

/-! ## the tokens of a parse -/

/-- The tokens before the first end are those of the list. -/
theorem takeWhile_terminated (p : Position) (tokens : List Token) :
    (Supply.terminated p tokens).takeWhile (·.name ≠ endMarker) =
      tokens.takeWhile (·.name ≠ endMarker) := by
  induction tokens generalizing p with
  | nil => simp [Supply.terminated, Token.ending]
  | cons token rest ih =>
      rw [Supply.terminated]
      split
      · next h => simp [h]
      · next h =>
          rw [List.takeWhile_cons_of_pos (by simp [h]), List.takeWhile_cons_of_pos (by simp [h]), ih]

/-- Tokens without an end get one. -/
theorem exists_terminated_eq (h : ∀ token ∈ tokens, token.name ≠ endMarker) (p : Position) :
    ∃ ending, ending.name = endMarker ∧ Supply.terminated p tokens = tokens ++ [ending] := by
  induction tokens generalizing p with
  | nil => exact ⟨_, rfl, rfl⟩
  | cons token tokens ih =>
      obtain ⟨ending, hending, heq⟩ :=
        ih (fun tok htok => h tok (List.mem_cons_of_mem token htok)) token.position
      exact ⟨ending, hending, by rw [Supply.terminated, if_neg (h token List.mem_cons_self), heq]; rfl⟩

/-- Nothing behind the first end is looked at. -/
theorem terminated_append_ending (h : ∀ token ∈ tokens, token.name ≠ endMarker) {ending : Token}
    (hending : ending.name = endMarker) (rest : List Token) (p : Position) :
    Supply.terminated p (tokens ++ ending :: rest) = tokens ++ [ending] := by
  induction tokens generalizing p with
  | nil => rw [List.nil_append, Supply.terminated, if_pos hending]; rfl
  | cons token tokens ih =>
      rw [List.cons_append, Supply.terminated, if_neg (h token List.mem_cons_self),
        ih fun tok htok => h tok (List.mem_cons_of_mem token htok)]
      rfl

theorem eq_takeWhile_of_terminated (hg : g.WellFormed)
    (h : Supply.terminated .start tokens = y ++ token :: rest) (htoken : token.name = endMarker)
    (hy : ∀ tok ∈ y, tok.name ∈ g.terminalNames) : y = tokens.takeWhile (·.name ≠ endMarker) := by
  have hall : ∀ tok ∈ y, decide (tok.name ≠ endMarker) = true := fun tok htok =>
    decide_eq_true (hg.ne_end (.inl (hy tok htok)))
  rw [← takeWhile_terminated .start, h, List.takeWhile_append_of_pos hall,
    List.takeWhile_cons_of_neg (by simp [htoken]), List.append_nil]

/-! ## how a parse stops with a value -/

/-- A parse stops with a value only by accepting. -/
theorem Stops.accept (h : Stops t sem s (.ok v)) : ∃ f token rest, s = ([f], token :: rest) ∧
    f.value = v ∧ t.action? f.state token.name = some .accept := by
  cases h with
  | @ended stack token rest _ h =>
      have hout := outcome_step t sem stack token
      rw [h] at hout
      generalize hr : Step.ended (.ok v) = result at hout
      cases hout with
      | shift => contradiction
      | reduce => contradiction
      | unexpected => exact absurd (Step.ended.inj hr) (by simp)
      | fault => exact absurd (Step.ended.inj hr) (by simp)
      | accept haction =>
          replace hr := Step.ended.inj hr
          unfold Parser.accept at hr
          split at hr
          · next f hstack =>
              obtain rfl : stack = [f] := hstack
              exact ⟨f, token, rest, rfl, (Except.ok.inj hr).symm, haction⟩
          · contradiction

/-- The value of a parse was made for the start symbol from the tokens before the first end. -/
theorem value_of_parseTokens {V : Symbol → α → List Token → Prop} (hc : Construction.Built g c)
    (hV : Respects g sem V) (h : parseTokens c.table sem tokens = some (.ok v)) :
    V g.start v (tokens.takeWhile (·.name ≠ endMarker)) := by
  obtain ⟨n, hend⟩ := parseTokens_eq_some_iff.1 h
  obtain ⟨s, hmoves, hstop⟩ := hend.exists_stops
  obtain ⟨f, token, rest, rfl, rfl, haction⟩ := hstop.accept
  have hsensible := (sensible_initial _).of_moves hc hV hmoves
  obtain ⟨f', y, hf, hv, htotal, htoken, hy⟩ := hsensible.of_accept hc haction
  obtain rfl : f = f' := by simpa using hf
  rwa [eq_takeWhile_of_terminated hc.wellFormed htotal htoken hy] at hv

end Lalr.Parser
