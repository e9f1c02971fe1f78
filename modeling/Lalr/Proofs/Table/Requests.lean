import Lalr.Proofs.Automaton.Path
import Lalr.Proofs.Automaton.Numbering
import Lalr.Proofs.Table

/-!
# Lalr.Proofs.Table.Requests

Sequences of calls on a table builder, in any order and with failing calls among them.  A cell holds
the first action that was ever asked for in it (`TableBuilder.recorded_perform`), and a call fails
exactly if its cell holds another one (`TableBuilder.Recorded.request_cases`).

So a sequence of calls meets a conflict exactly if two of them ask for different actions in one cell
(`TableBuilder.meetsConflict_iff`).  That does not depend on their order.
-/

namespace Lalr

open Transitions (targets pathTo?)

/-- Every transition leads to a state, and every state can be reached from state 0. -/
structure Automaton.Connected (a : Automaton) : Prop where
  leads : ∀ t ∈ targets a.transitions, t < a.transitions.length
  reachable : ∀ q < a.transitions.length, ∃ γ, a.walk? 0 γ = some q

/-! ## calls -/

/-- A call on a table builder. -/
inductive Request where
  | shift (state : Nat) (symbol : Symbol) (target : Nat)
  | goto (state : Nat) (symbol : Symbol) (target : Nat)
  | accept (state : Nat)
  | reduce (state : Nat) (symbol : Symbol) (rule : Nat)
deriving DecidableEq, Repr

namespace Request

/-- The cell that a call is about. -/
def cell : Request → Nat × Symbol
  | .shift q s _ => (q, s)
  | .goto q s _ => (q, s)
  | .accept q => (q, endMarker)
  | .reduce q s _ => (q, s)

/-- The action that a call asks for, if it names a production that there is. -/
def action? (rules : List Production) : Request → Option Action
  | .shift _ _ t => some (.shift t)
  | .goto _ _ t => some (.goto t)
  | .accept _ => some .accept
  | .reduce _ _ k => rules[k]?.map fun p => .reduce k p.name p.length

/-- The call is about a state that there is, and a reduction is by a production that there is. -/
def Valid (states : Nat) (rules : List Production) : Request → Prop
  | .shift q _ _ => q < states
  | .goto q _ _ => q < states
  | .accept q => q < states
  | .reduce q _ k => q < states ∧ k < rules.length

instance (states : Nat) (rules : List Production) : DecidablePred (Valid states rules)
  | .shift .. => inferInstanceAs (Decidable (_ < _))
  | .goto .. => inferInstanceAs (Decidable (_ < _))
  | .accept _ => inferInstanceAs (Decidable (_ < _))
  | .reduce .. => inferInstanceAs (Decidable (_ ∧ _))

variable {states : Nat} {rules : List Production} {calls calls' : List Request} {r : Request}
  {cell : Nat × Symbol} {action : Action}

theorem Valid.state (h : r.Valid states rules) : r.cell.1 < states := by
  cases r with
  | reduce q s k => exact h.1
  | _ => exact h

theorem Valid.exists_action (h : r.Valid states rules) : ∃ action, r.action? rules = some action := by
  cases r with
  | reduce q s k => exact ⟨_, by rw [action?, List.getElem?_eq_getElem h.2]; rfl⟩
  | _ => exact ⟨_, rfl⟩

/-- What a call asks for can be described. -/
theorem exists_describe (h : r.action? rules = some action) :
    ∃ text, TableBuilder.describe rules action = .ok text := by
  cases r with
  | reduce q s k =>
      obtain ⟨p, hp, rfl⟩ := Option.map_eq_some_iff.1 h
      exact ⟨_, by rw [TableBuilder.describe, hp]⟩
  | _ =>
      obtain rfl := Option.some.inj h
      exact ⟨_, rfl⟩

/-- The action that a call asks for in a cell. -/
def actionAt? (rules : List Production) (cell : Nat × Symbol) (r : Request) : Option Action :=
  if r.cell = cell then r.action? rules else none

theorem actionAt?_eq_some_iff :
    r.actionAt? rules cell = some action ↔ r.cell = cell ∧ r.action? rules = some action := by
  unfold actionAt?
  split <;> simp [*]

/-- The first action that any of the calls asks for in a cell. -/
def firstAction? (rules : List Production) (calls : List Request) (cell : Nat × Symbol) :
    Option Action :=
  calls.findSome? (actionAt? rules cell)

theorem firstAction?_append :
    firstAction? rules (calls ++ calls') cell =
      (firstAction? rules calls cell).or (firstAction? rules calls' cell) :=
  List.findSome?_append

theorem firstAction?_singleton : firstAction? rules [r] cell = r.actionAt? rules cell := by
  cases h : r.actionAt? rules cell <;> simp [firstAction?, h]

theorem exists_of_firstAction? (h : firstAction? rules calls cell = some action) :
    ∃ r ∈ calls, r.cell = cell ∧ r.action? rules = some action := by
  obtain ⟨r, hr, haction⟩ := List.exists_of_findSome?_eq_some h
  exact ⟨r, hr, actionAt?_eq_some_iff.1 haction⟩

/-- If all calls for a cell ask for the same action, that is the first one. -/
theorem firstAction?_eq_some_iff
    (hsame : ∀ r ∈ calls, ∀ r' ∈ calls, r.cell = r'.cell → r.action? rules = r'.action? rules) :
    firstAction? rules calls cell = some action ↔
      ∃ r ∈ calls, r.cell = cell ∧ r.action? rules = some action := by
  refine ⟨exists_of_firstAction?, ?_⟩
  rintro ⟨r, hr, hcell, haction⟩
  have hsome : (firstAction? rules calls cell).isSome :=
    List.findSome?_isSome_iff.2 ⟨r, hr, by rw [actionAt?_eq_some_iff.2 ⟨hcell, haction⟩]; rfl⟩
  obtain ⟨first, hfirst⟩ := Option.isSome_iff_exists.1 hsome
  obtain ⟨r', hr', hcell', haction'⟩ := exists_of_firstAction? hfirst
  rw [hfirst, ← haction', ← haction]
  exact hsame r' hr' r hr (hcell'.trans hcell.symm)

/-- If two calls ask for different actions in one cell, one of the calls comes after another that was
the first for its cell, and asks for another action than that one. -/
theorem exists_late (hactions : ∀ r ∈ calls, ∃ action, r.action? rules = some action)
    {r r' : Request} (hr : r ∈ calls) (hr' : r' ∈ calls) (hcell : r.cell = r'.cell)
    (hne : r.action? rules ≠ r'.action? rules) :
    ∃ before late after existing, calls = before ++ late :: after ∧
      firstAction? rules before late.cell = some existing ∧ late.action? rules ≠ some existing := by
  -- One of the two asks for another action than the first call for the cell.
  obtain ⟨late, hlate, hlateCell, hdiffers⟩ : ∃ late ∈ calls, late.cell = r.cell ∧
      firstAction? rules calls late.cell ≠ late.action? rules := by
    by_cases h : firstAction? rules calls r.cell = r.action? rules
    · exact ⟨r', hr', hcell.symm, by rwa [← hcell, h]⟩
    · exact ⟨r, hr, rfl, h⟩
  obtain ⟨action, haction⟩ := hactions late hlate
  obtain ⟨before, after, rfl⟩ := List.append_of_mem hlate
  have hfirst : firstAction? rules (before ++ late :: after) late.cell =
      (firstAction? rules before late.cell).or (late.action? rules) := by
    rw [firstAction?_append, firstAction?, firstAction?, List.findSome?_cons, actionAt?, if_pos rfl,
      haction]
  cases hbefore : firstAction? rules before late.cell with
  | none =>
      rw [hbefore, Option.none_or] at hfirst
      exact absurd hfirst hdiffers
  | some existing =>
      rw [hbefore, Option.some_or] at hfirst
      exact ⟨before, late, after, existing, rfl, hbefore, fun h => hdiffers (hfirst.trans h.symm)⟩

end Request

namespace TableBuilder

open Request (firstAction?)

variable {a : Automaton} {rules : List Production} {b b' : TableBuilder} {q : Nat} {s : Symbol}
  {action existing : Action} {calls calls' : List Request} {r : Request}

/-- Serve a call. -/
def request (b : TableBuilder) : Request → Except TableError TableBuilder
  | .shift q s t => b.setShift q s t
  | .goto q s t => b.setGoto q s t
  | .accept q => b.setAccept q
  | .reduce q s k => b.setReduce q s k

/-- The builder after a call.  If the call fails, it is as it was. -/
def attempt (b : TableBuilder) (r : Request) : TableBuilder :=
  match b.request r with
  | .ok b' => b'
  | .error _ => b

/-- The builder after some calls, whichever of them fail. -/
def perform (b : TableBuilder) (calls : List Request) : TableBuilder := calls.foldl attempt b

/-- One of the calls fails when its turn comes, because of a conflict. -/
def MeetsConflict (b : TableBuilder) (calls : List Request) : Prop :=
  ∃ before r after, calls = before ++ r :: after ∧
    ∃ c, (b.perform before).request r = .error (.conflict c)

theorem attempt_of_error {e : TableError} (h : b.request r = .error e) : b.attempt r = b := by
  rw [attempt, h]

theorem perform_snoc : b.perform (calls ++ [r]) = (b.perform calls).attempt r := by
  simp [perform]

/-! ## one call -/

/-- A call installs the action it asks for. -/
theorem request_eq_install (h : r.action? b.rules = some action) :
    b.request r = b.install r.cell.1 r.cell.2 action := by
  cases r with
  | reduce q s k =>
      obtain ⟨p, hp, rfl⟩ := Option.map_eq_some_iff.1 h
      rw [request, setReduce, hp]
      rfl
  | _ =>
      obtain rfl := Option.some.inj h
      rfl

theorem action?_eq_get? {row : Row} (hrow : b.rows[q]? = some row) :
    b.table.action? q s = row.get? s := by
  rw [Table.action?, table, hrow]
  rfl

theorem install_of_empty (hq : q < b.rows.length) (h : b.table.action? q s = none) :
    ∃ b', b.install q s action = .ok b' := by
  have hrow := List.getElem?_eq_getElem hq
  rw [action?_eq_get? hrow] at h
  simp [install, hrow, h]

theorem install_of_some (hq : q < b.rows.length) (h : b.table.action? q s = some existing) :
    b.install q s action =
      if existing = action then .ok b else .error (b.conflictError q s existing action) := by
  have hrow := List.getElem?_eq_getElem hq
  rw [action?_eq_get? hrow] at h
  simp [install, hrow, h]

/-- The error about two actions is a conflict, with a path that leads to the state, if both actions
can be described. -/
theorem exists_conflict (ha : a.Connected) (hq : q < a.transitions.length)
    (htransitions : b.transitions = a.transitions)
    (hexisting : ∃ text, describe b.rules existing = .ok text)
    (haction : ∃ text, describe b.rules action = .ok text) :
    ∃ c, b.conflictError q s existing action = .conflict c ∧ a.walk? 0 c.path = some q := by
  obtain ⟨γ, hγ⟩ := ha.reachable q hq
  obtain ⟨path, hpath, hleads⟩ := Transitions.pathTo?_eq_ok
    (fun q X t ht => ha.leads t (Transitions.mem_targets_of_target? ht)) hq hγ
  obtain ⟨existingText, hexisting⟩ := hexisting
  obtain ⟨incomingText, haction⟩ := haction
  rw [conflictError, htransitions, hpath, hexisting, haction]
  exact ⟨_, rfl, hleads⟩

/-- The invariant of a sequence of calls on an empty builder: a cell holds the first action that was
asked for in it. -/
structure Recorded (a : Automaton) (ps : List Production) (calls : List Request)
    (b : TableBuilder) : Prop where
  transitions : b.transitions = a.transitions
  rules : b.rules = ps
  size : b.rows.length = a.transitions.length
  cell : ∀ q s, b.table.action? q s = firstAction? ps calls (q, s)

namespace Recorded

/-- What one call does: it fills an empty cell, or repeats the action that the cell holds, or fails
with a conflict. -/
theorem request_cases (h : Recorded a rules calls b) (ha : a.Connected)
    (hr : r.Valid a.transitions.length rules) (haction : r.action? rules = some action) :
    (b.table.action? r.cell.1 r.cell.2 = none ∧ ∃ b', b.request r = .ok b' ∧
      Gains (fun q s action' => q = r.cell.1 ∧ s = r.cell.2 ∧ action' = action) b b') ∨
    (b.table.action? r.cell.1 r.cell.2 = some action ∧ b.request r = .ok b) ∨
    ∃ existing c, b.table.action? r.cell.1 r.cell.2 = some existing ∧ existing ≠ action ∧
      b.request r = .error (.conflict c) ∧ a.walk? 0 c.path = some r.cell.1 := by
  have hq : r.cell.1 < b.rows.length := h.size ▸ hr.state
  have hinstall := request_eq_install (b := b) (h.rules ▸ haction)
  cases hcell : b.table.action? r.cell.1 r.cell.2 with
  | none =>
      obtain ⟨b', hb'⟩ : ∃ b', b.install r.cell.1 r.cell.2 action = .ok b' :=
        install_of_empty hq hcell
      exact .inl ⟨rfl, b', hinstall.trans hb', gains_install hb'⟩
  | some existing =>
      have hsome : b.install r.cell.1 r.cell.2 action = if existing = action then .ok b
          else .error (b.conflictError r.cell.1 r.cell.2 existing action) :=
        install_of_some hq hcell
      by_cases heq : existing = action
      · subst heq
        rw [if_pos rfl] at hsome
        exact .inr (.inl ⟨rfl, hinstall.trans hsome⟩)
      · -- What the cell holds was asked for by an earlier call, so it can be described.
        obtain ⟨r', -, -, hexisting⟩ := Request.exists_of_firstAction? ((h.cell ..).symm.trans hcell)
        obtain ⟨c, hc, hpath⟩ := exists_conflict (s := r.cell.2) ha hr.state h.transitions
          (h.rules ▸ Request.exists_describe hexisting) (h.rules ▸ Request.exists_describe haction)
        rw [if_neg heq, hc] at hsome
        exact .inr (.inr ⟨existing, c, rfl, heq, hinstall.trans hsome, hpath⟩)

/-- A call fails with a conflict exactly if its cell holds another action. -/
theorem fails_iff (h : Recorded a rules calls b) (ha : a.Connected)
    (hr : r.Valid a.transitions.length rules) (haction : r.action? rules = some action) :
    (∃ c, b.request r = .error (.conflict c)) ↔
      ∃ existing, b.table.action? r.cell.1 r.cell.2 = some existing ∧ existing ≠ action := by
  rcases h.request_cases ha hr haction with ⟨hcell, b', hb', -⟩ | ⟨hcell, hb⟩ |
    ⟨existing, c, hcell, hne, hc, -⟩
  · simp [hcell, hb']
  · simp [hcell, hb]
  · simp [hcell, hne, hc]

/-- A call that fails meets a conflict. -/
theorem exists_conflict_of_error (h : Recorded a rules calls b) (ha : a.Connected)
    (hr : r.Valid a.transitions.length rules) {e : TableError} (he : b.request r = .error e) :
    ∃ c, e = .conflict c := by
  obtain ⟨action, haction⟩ := hr.exists_action
  rcases h.request_cases ha hr haction with ⟨-, b', hb', -⟩ | ⟨-, hb⟩ | ⟨-, c, -, -, hc, -⟩
  · simp [hb'] at he
  · simp [hb] at he
  · exact ⟨c, Except.error.inj (he.symm.trans hc)⟩

/-- A call for the action that its cell holds changes nothing. -/
theorem request_of_held (h : Recorded a rules calls b) (ha : a.Connected)
    (hr : r.Valid a.transitions.length rules) (haction : r.action? rules = some action)
    (hcell : b.table.action? r.cell.1 r.cell.2 = some action) : b.request r = .ok b := by
  rcases h.request_cases ha hr haction with ⟨hnone, -⟩ | ⟨-, hb⟩ | ⟨existing, -, hheld, hne, -⟩
  · simp [hcell] at hnone
  · exact hb
  · exact absurd (Option.some.inj (hheld.symm.trans hcell)) hne

theorem start (a : Automaton) (rules : List Production) :
    Recorded a rules [] (TableBuilder.start a.transitions rules) where
  transitions := rfl
  rules := rfl
  size := List.length_map _
  cell q s := Construction.action?_start a.transitions rules q s

/-- A call keeps the invariant, whether it fails or not. -/
theorem attempt (h : Recorded a rules calls b) (ha : a.Connected)
    (hr : r.Valid a.transitions.length rules) : Recorded a rules (calls ++ [r]) (b.attempt r) := by
  obtain ⟨action, haction⟩ := hr.exists_action
  have hfirst (q : Nat) (s : Symbol) : firstAction? rules (calls ++ [r]) (q, s) =
      (b.table.action? q s).or (if r.cell = (q, s) then some action else none) := by
    rw [Request.firstAction?_append, Request.firstAction?_singleton, ← h.cell, Request.actionAt?,
      haction]
  -- A call to which the cell answers already leaves the builder as it is.
  have hkept {held : Action} (hcell : b.table.action? r.cell.1 r.cell.2 = some held) :
      Recorded a rules (calls ++ [r]) b := by
    refine ⟨h.transitions, h.rules, h.size, fun q s => ?_⟩
    rw [hfirst]
    split
    · next heq =>
        rw [heq] at hcell
        rw [hcell, Option.some_or]
    · rw [Option.or_none]
  rcases h.request_cases ha hr haction with ⟨hnone, b', hb', hgains⟩ | ⟨hcell, hb'⟩ |
    ⟨existing, c, hcell, -, hc, -⟩
  · rw [TableBuilder.attempt, hb']
    refine ⟨hgains.transitions.trans h.transitions, hgains.rules.trans h.rules,
      hgains.size.trans h.size, fun q s => ?_⟩
    rw [hfirst]
    refine Option.ext fun action' => ?_
    rw [hgains.cell, Option.or_eq_some_iff]
    by_cases heq : r.cell = (q, s)
    · rw [heq] at hnone ⊢
      simp [hnone, eq_comm]
    · have hother : ¬ (q = r.cell.1 ∧ s = r.cell.2 ∧ action' = action) := fun h =>
        heq (Prod.ext h.1.symm h.2.1.symm)
      simp [heq, hother]
  · rw [TableBuilder.attempt, hb']
    exact hkept hcell
  · rw [TableBuilder.attempt, hc]
    exact hkept hcell

end Recorded

/-- After any valid calls on an empty builder, each cell holds the first action that was asked for
in it. -/
theorem recorded_perform (ha : a.Connected)
    (hvalid : ∀ r ∈ calls, r.Valid a.transitions.length rules) :
    Recorded a rules calls ((start a.transitions rules).perform calls) := by
  induction calls using List.reverseRecOn with
  | nil => exact .start a rules
  | append_singleton calls r ih =>
      rw [perform_snoc]
      have hcalls := ih fun r' hr' => hvalid r' (List.mem_append_left _ hr')
      exact hcalls.attempt ha (hvalid r (by simp))

/-! ## the order of the calls -/

/-- Some call meets a conflict exactly if two of the calls ask for different actions in one cell. -/
theorem meetsConflict_iff (ha : a.Connected)
    (hvalid : ∀ r ∈ calls, r.Valid a.transitions.length rules) :
    (start a.transitions rules).MeetsConflict calls ↔
      ∃ r ∈ calls, ∃ r' ∈ calls, r.cell = r'.cell ∧ r.action? rules ≠ r'.action? rules := by
  constructor
  · rintro ⟨before, r, after, rfl, hconflict⟩
    have hr := hvalid r (by simp)
    obtain ⟨action, haction⟩ := hr.exists_action
    have hbefore := recorded_perform ha fun r' hr' => hvalid r' (List.mem_append_left _ hr')
    obtain ⟨existing, hcell, hne⟩ := (hbefore.fails_iff ha hr haction).1 hconflict
    rw [hbefore.cell] at hcell
    obtain ⟨r', hr', hcell', hexisting⟩ := Request.exists_of_firstAction? hcell
    refine ⟨r', List.mem_append_left _ hr', r, by simp, hcell', ?_⟩
    rw [hexisting, haction]
    exact fun e => hne (Option.some.inj e)
  · rintro ⟨r, hr, r', hr', hcell, hne⟩
    obtain ⟨before, late, after, existing, rfl, hfirst, hlate⟩ :=
      Request.exists_late (fun r hr => (hvalid r hr).exists_action) hr hr' hcell hne
    have hvalidLate := hvalid late (by simp)
    obtain ⟨action, haction⟩ := hvalidLate.exists_action
    have hbefore := recorded_perform ha fun r hr => hvalid r (List.mem_append_left _ hr)
    refine ⟨before, late, after, rfl, (hbefore.fails_iff ha hvalidLate haction).2 ⟨existing, ?_, ?_⟩⟩
    · rw [hbefore.cell, hfirst]
    · rintro rfl
      exact hlate haction

/-- Calls that ask for the same action wherever they meet fill the cells alike in every order. -/
theorem firstAction?_perm (hperm : calls.Perm calls')
    (hsame : ∀ r ∈ calls, ∀ r' ∈ calls, r.cell = r'.cell → r.action? rules = r'.action? rules)
    (cell : Nat × Symbol) : firstAction? rules calls cell = firstAction? rules calls' cell := by
  have hsame' : ∀ r ∈ calls', ∀ r' ∈ calls', r.cell = r'.cell →
      r.action? rules = r'.action? rules := fun r hr r' hr' =>
    hsame r (hperm.mem_iff.2 hr) r' (hperm.mem_iff.2 hr')
  refine Option.ext fun action => ?_
  rw [Request.firstAction?_eq_some_iff hsame, Request.firstAction?_eq_some_iff hsame']
  simp only [hperm.mem_iff]

/-- A call leaves all cells but its own as they are. -/
theorem Recorded.action?_attempt (h : Recorded a rules calls b) (ha : a.Connected)
    (hr : r.Valid a.transitions.length rules) (hne : (q, s) ≠ r.cell) :
    (b.attempt r).table.action? q s = b.table.action? q s := by
  have hnone : r.actionAt? rules (q, s) = none := if_neg fun heq => hne heq.symm
  rw [(h.attempt ha hr).cell, h.cell, Request.firstAction?_append, Request.firstAction?_singleton,
    hnone, Option.or_none]

/-- After any valid calls on an empty builder, with failing calls among them, every cell holds the first
action that was asked for in it.  One more call fails exactly if its cell holds another action; it fails
with a conflict and changes nothing, just as a call for the action that the cell holds does, and no call
changes another cell than its own.  Whether calls meet a conflict does not depend on their order, nor do
the cells if none does. -/
theorem first_actions_stay (ha : a.Connected)
    (hvalid : ∀ r ∈ calls, r.Valid a.transitions.length rules) :
    (∀ q s, ((start a.transitions rules).perform calls).table.action? q s =
      firstAction? rules calls (q, s)) ∧
    (∀ r action, r.Valid a.transitions.length rules → r.action? rules = some action →
      let b := (start a.transitions rules).perform calls
      ((∃ c, b.request r = .error (.conflict c)) ↔
        ∃ existing, b.table.action? r.cell.1 r.cell.2 = some existing ∧ existing ≠ action) ∧
      (∀ e, b.request r = .error e → (∃ c, e = .conflict c) ∧ b.attempt r = b) ∧
      (b.table.action? r.cell.1 r.cell.2 = some action → b.request r = .ok b) ∧
      ∀ q s, (q, s) ≠ r.cell → (b.attempt r).table.action? q s = b.table.action? q s) ∧
    ∀ calls', calls.Perm calls' →
      ((start a.transitions rules).MeetsConflict calls ↔
        (start a.transitions rules).MeetsConflict calls') ∧
      (¬ (start a.transitions rules).MeetsConflict calls → ∀ q s,
        ((start a.transitions rules).perform calls).table.action? q s =
          ((start a.transitions rules).perform calls').table.action? q s) := by
  have hrecorded := recorded_perform ha hvalid
  refine ⟨hrecorded.cell, fun r action hr haction => ⟨hrecorded.fails_iff ha hr haction,
    fun e he => ⟨hrecorded.exists_conflict_of_error ha hr he, attempt_of_error he⟩,
    hrecorded.request_of_held ha hr haction, fun q s => hrecorded.action?_attempt ha hr⟩,
    fun calls' hperm => ?_⟩
  have hvalid' : ∀ r ∈ calls', r.Valid a.transitions.length rules := fun r hr =>
    hvalid r (hperm.mem_iff.2 hr)
  rw [meetsConflict_iff ha hvalid, meetsConflict_iff ha hvalid']
  refine ⟨by simp only [hperm.mem_iff], fun hnone q s => ?_⟩
  rw [hrecorded.cell, (recorded_perform ha hvalid').cell]
  refine firstAction?_perm hperm (fun r hr r' hr' hcell => ?_) (q, s)
  exact of_not_not fun hne => hnone ⟨r, hr, r', hr', hcell, hne⟩

/-- Two states that lead to each other, a call that is repeated, a reduction that meets a shift, and
the same calls in another order. -/
theorem first_actions_stay_meeting :
    let a : Automaton := ⟨[], [.ofList [("x", 1)], .ofList [("y", 0)]]⟩
    let rules : List Production := [⟨"S", ["x"]⟩, ⟨"S", []⟩]
    let calls : List Request :=
      [.shift 0 "x" 1, .accept 1, .shift 0 "x" 1, .reduce 0 "x" 1, .goto 1 "S" 0, .reduce 1 "y" 0]
    a.Connected ∧ (∀ r ∈ calls, r.Valid a.transitions.length rules) ∧
      ((start a.transitions rules).perform calls).table.action? 0 "x" = some (.shift 1) ∧
      ((start a.transitions rules).MeetsConflict calls ↔
        (start a.transitions rules).MeetsConflict calls.reverse) := by
  intro a rules calls
  have ha : a.Connected := by
    refine ⟨by decide +zetaReduce, fun q hq => ?_⟩
    obtain rfl | rfl : q = 0 ∨ q = 1 := by
      have hsize : a.transitions.length = 2 := rfl
      omega
    · exact ⟨[], rfl⟩
    · exact ⟨["x"], by decide +zetaReduce⟩
  have hvalid : ∀ r ∈ calls, r.Valid a.transitions.length rules := by decide +zetaReduce
  have hstay := first_actions_stay ha hvalid
  refine ⟨ha, hvalid, (hstay.1 0 "x").trans (by decide +zetaReduce), ?_⟩
  exact (hstay.2.2 calls.reverse calls.reverse_perm.symm).1

end TableBuilder

end Lalr
