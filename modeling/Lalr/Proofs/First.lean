import Lalr.First
import Lalr.Proofs.Fallible
import Lalr.Proofs.Grammar.Productions
import Mathlib.Algebra.GroupWithZero.Nat
import Mathlib.Data.List.Perm.Subperm
import Mathlib.Tactic.Tauto

/-!
# Lalr.Proofs.First

FIRST sets are exact: the set of a string holds a terminal if the string derives one that begins
with it, the marker of emptiness if the string can vanish, and nothing else
(`FirstSets.sequenceHas_iff`).

Soundness is kept by every update.  Completeness comes from the last round, which changes nothing:
each production had its turn in it.  That there is such a round within the fuel is a matter of
counting, since every other round adds a member to the set of some nonterminal.
-/

namespace Lalr

/-- The replacements listed in a map of productions. -/
def Productions.Produces (ps : Productions) : RuleSet := fun X w =>
  ∃ p, ps.Lists X p ∧ p.symbols = w

/-- What the FIRST set of a string is to hold: the marker of emptiness if the string can vanish, and
the terminals it can begin with. -/
def RuleSet.Shows (R : RuleSet) (terminals : List Symbol) (w : List Symbol) (t : Symbol) : Prop :=
  (t = epsilon ∧ R.Derives w []) ∨ (t ∈ terminals ∧ t ≠ epsilon ∧ R.Begins w [t])

namespace FirstSets

variable {ps : Productions} {terminals : List Symbol} {f g : FirstSets} {R : RuleSet}
  {X t name : Symbol} {v w : List Symbol} {p : Production} {S : SymbolSet}

/-! ## membership -/

/-- The set of a string has a member: a member of the set of its first symbol, or of what follows if
that symbol can vanish. -/
def SequenceHas (f : FirstSets) : List Symbol → Symbol → Prop
  | [], t => t = epsilon
  | X :: w, t => (t ≠ epsilon ∧ f.Has X t) ∨ (f.Has X epsilon ∧ f.SequenceHas w t)

theorem ofSymbol_eq_ok_iff : f.ofSymbol X = .ok S ↔ f.get? X = some S := by
  unfold ofSymbol
  split <;> simp_all

theorem mem_ofSequence (h : f.ofSequence w = .ok S) : t ∈ S ↔ f.SequenceHas w t := by
  induction w generalizing S with
  | nil =>
      obtain rfl : SymbolSet.ofList [epsilon] = S := by simpa [ofSequence] using h
      simp [SequenceHas]
  | cons X w ih =>
      rw [ofSequence, bind_eq_ok_iff] at h
      obtain ⟨first, hfirst, h⟩ := h
      rw [ofSymbol_eq_ok_iff] at hfirst
      simp only [SequenceHas, Keyed.has_iff hfirst]
      split at h
      · next hε =>
          obtain ⟨S', hS', h⟩ := bind_eq_ok_iff.1 h
          obtain rfl : (first.erase epsilon).union S' = S := by simpa [pure, Except.pure] using h
          rw [SymbolSet.mem_union, SymbolSet.mem_erase, ih hS', and_comm]
          exact or_congr_right (and_iff_right hε).symm
      · next hε =>
          obtain rfl : first = S := by simpa [pure, Except.pure] using h
          have hne : t ∈ first → t ≠ epsilon := fun ht e => hε (e ▸ ht)
          exact ⟨fun ht => .inl ⟨hne ht, ht⟩, fun h => h.elim And.right fun h => absurd h.1 hε⟩

theorem sequenceHas_append :
    f.SequenceHas (v ++ w) t ↔
      (t ≠ epsilon ∧ f.SequenceHas v t) ∨ (f.SequenceHas v epsilon ∧ f.SequenceHas w t) := by
  induction v with
  | nil =>
      simp only [List.nil_append, SequenceHas, true_and]
      exact ⟨.inr, fun h => h.elim (fun h => absurd h.2 h.1) id⟩
  | cons X v ih =>
      simp only [List.cons_append, SequenceHas, ih, ne_eq, not_true, false_and, false_or]
      tauto

theorem SequenceHas.mono (hfg : ∀ X t, f.Has X t → g.Has X t) (h : f.SequenceHas w t) :
    g.SequenceHas w t := by
  induction w with
  | nil => exact h
  | cons X w ih => exact h.imp (fun h => ⟨h.1, hfg X t h.2⟩) fun h => ⟨hfg X _ h.1, ih h.2⟩

/-! ## one round -/

/-- A production adds the FIRST set of its symbols to the set of its nonterminal. -/
theorem has_addProduction (h : addProduction name f p = .ok g) :
    g.Has X t ↔ f.Has X t ∨ (X = name ∧ f.SequenceHas p.symbols t) := by
  rw [addProduction, bind_eq_ok_iff] at h
  obtain ⟨first, hfirst, h⟩ := h
  obtain rfl : f.update name ∅ (·.union first) = g := by simpa [pure, Except.pure] using h
  rw [← mem_ofSequence hfirst]
  exact Keyed.has_update_union

theorem keys_addProduction (h : addProduction name f p = .ok g) (hname : name ∈ f.keys) :
    g.keys = f.keys := by
  rw [addProduction, bind_eq_ok_iff] at h
  obtain ⟨first, -, h⟩ := h
  obtain rfl : f.update name ∅ (·.union first) = g := by simpa [pure, Except.pure] using h
  exact (Keyed.keys_set f name _).trans (if_pos hname)

/-- The productions of a map, each with the nonterminal that it is listed under, in order. -/
def listing (ps : Productions) : List (Symbol × Production) :=
  ps.entries.flatMap fun e => e.2.map fun p => (e.1, p)

theorem mem_listing_iff : (X, p) ∈ listing ps ↔ ps.Lists X p := by
  simp only [listing, List.mem_flatMap, List.mem_map, Prod.mk.injEq]
  constructor
  · rintro ⟨⟨Y, rules⟩, he, p', hp, rfl, rfl⟩
    exact ⟨rules, Keyed.mem_entries_iff.1 he, hp⟩
  · rintro ⟨rules, hr, hp⟩
    exact ⟨(X, rules), Keyed.mem_entries_iff.2 hr, p, hp, rfl, rfl⟩

/-- A round goes through the productions one after the other. -/
theorem round_eq (ps : Productions) (f : FirstSets) :
    round ps f = (listing ps).foldlM (fun f e => addProduction e.1 f e.2) f := by
  rw [round, listing]
  generalize ps.entries = es
  induction es generalizing f with
  | nil => rfl
  | cons e es ih =>
      simp only [List.foldlM_cons, List.flatMap_cons, List.foldlM_append, List.foldlM_map, ih]

/-- What a round does, as far as it has gone: nothing is lost, no set outside the listed
nonterminals changes, and the sets of the productions that had their turn are in place. -/
structure Progress (ps : Productions) (f : FirstSets) (done : List (Symbol × Production))
    (g : FirstSets) : Prop where
  mono : ∀ X t, f.Has X t → g.Has X t
  keys : g.keys = f.keys
  frame : ∀ X t, X ∉ ps.keys → (g.Has X t ↔ f.Has X t)
  turn : ∀ e ∈ done, ∀ t, f.SequenceHas e.2.symbols t → g.Has e.1 t

theorem progress_round (hkeys : ∀ X ∈ ps.keys, X ∈ f.keys) (h : round ps f = .ok g) :
    Progress ps f (listing ps) g := by
  rw [round_eq] at h
  have hstep : ∀ done e g g', ((∀ e' ∈ done ++ [e], e' ∈ listing ps) → Progress ps f done g) →
      addProduction e.1 g e.2 = .ok g' →
      (∀ e' ∈ done ++ [e], e' ∈ listing ps) → Progress ps f (done ++ [e]) g' := by
    intro done e g g' hg hadd hlisted
    obtain ⟨hmono, hk, hframe, hturn⟩ := hg hlisted
    obtain ⟨rules, hr, -⟩ : ps.Lists e.1 e.2 := mem_listing_iff.1 (hlisted e (by simp))
    have hmem : e.1 ∈ ps.keys := Keyed.mem_keys_iff.2 ⟨rules, hr⟩
    refine ⟨fun X t ht => (has_addProduction hadd).2 (.inl (hmono X t ht)), ?_, ?_, ?_⟩
    · rw [keys_addProduction hadd (hk ▸ hkeys _ hmem), hk]
    · intro X t hX
      rw [has_addProduction hadd, hframe X t hX]
      exact ⟨fun h => h.elim id fun h => absurd (h.1 ▸ hmem) hX, .inl⟩
    · intro e' he' t ht
      rw [has_addProduction hadd]
      rcases List.mem_append.1 he' with he' | he'
      · exact .inl (hturn e' he' t ht)
      · obtain rfl := List.mem_singleton.1 he'
        exact .inr ⟨rfl, ht.mono hmono⟩
  have hinit : Progress ps f [] f :=
    ⟨fun _ _ => id, rfl, fun _ _ _ => .rfl, by simp⟩
  have hrun := foldlM_induction
    (P := fun done g => (∀ e ∈ done, e ∈ listing ps) → Progress ps f done g)
    (fun done e g g' hg hadd hlisted => hstep done e g g'
      (fun h => hg fun e' he' => h e' (List.mem_append_left _ he')) hadd hlisted)
    (fun _ => hinit) h
  exact hrun fun _ => id

/-! ## soundness -/

/-- Every member is justified by a derivation. -/
def Sound (R : RuleSet) (terminals : List Symbol) (f : FirstSets) : Prop :=
  ∀ X t, f.Has X t → R.Shows terminals [X] t

theorem shows_of_sequenceHas (hf : f.Sound R terminals) (h : f.SequenceHas w t) :
    R.Shows terminals w t := by
  induction w generalizing t with
  | nil => exact .inl ⟨h, .refl _⟩
  | cons X w ih =>
      rcases h with ⟨hne, hX⟩ | ⟨hX, hw⟩
      · obtain ⟨rfl, -⟩ | ⟨ht, -, hbegins⟩ := hf X t hX
        · exact absurd rfl hne
        · exact .inr ⟨ht, hne, RuleSet.begins_append_singleton_iff.2 (.inl hbegins)⟩
      · have hnil : R.Derives [X] [] := by
          obtain ⟨-, hnil⟩ | ⟨-, hne, -⟩ := hf X epsilon hX
          · exact hnil
          · exact absurd rfl hne
        obtain ⟨rfl, hderives⟩ | ⟨ht, hne, hbegins⟩ := ih hw
        · exact .inl ⟨rfl, by simpa using hnil.append hderives⟩
        · exact .inr ⟨ht, hne, RuleSet.begins_append_singleton_iff.2 (.inr ⟨hnil, hbegins⟩)⟩

theorem shows_of_rule (hR : R X w) (h : R.Shows terminals w t) : R.Shows terminals [X] t := by
  obtain ⟨ht, hnil⟩ | ⟨ht, hne, hbegins⟩ := h
  · exact .inl ⟨ht, (RuleSet.Derives.of_rule hR).trans hnil⟩
  · exact .inr ⟨ht, hne, .of_derives (.of_rule hR) hbegins⟩

theorem Sound.round (hf : f.Sound ps.Produces terminals) (h : round ps f = .ok g) :
    g.Sound ps.Produces terminals := by
  rw [round_eq] at h
  have hrun := foldlM_induction
    (P := fun done g => (∀ e ∈ done, e ∈ listing ps) → Sound ps.Produces terminals g)
    (fun done e g g' hg hadd hlisted X t ht => by
      have hg := hg fun e' he' => hlisted e' (List.mem_append_left _ he')
      rcases (has_addProduction hadd).1 ht with hold | ⟨rfl, hnew⟩
      · exact hg X t hold
      · have hlists := mem_listing_iff.1 (hlisted e (by simp))
        exact shows_of_rule ⟨e.2, hlists, rfl⟩ (shows_of_sequenceHas hg hnew))
    (fun _ => hf) h
  exact hrun fun _ => id

/-! ## completeness -/

/-- A terminal has itself, and a nonterminal what each of its productions has. -/
structure Closed (R : RuleSet) (terminals : List Symbol) (f : FirstSets) : Prop where
  terminal : ∀ t ∈ terminals, f.Has t t
  rule : ∀ X w t, R X w → f.SequenceHas w t → f.Has X t

theorem Closed.sequenceHas_of_derives_nil (hf : f.Closed R terminals) (h : R.Derives w []) :
    f.SequenceHas w epsilon := by
  induction h using Relation.ReflTransGen.head_induction_on with
  | refl => rfl
  | head hstep _ ih =>
      obtain ⟨x, y, hA⟩ := hstep
      simp only [List.append_assoc, sequenceHas_append, ne_eq, not_true, false_and, false_or] at ih
      obtain ⟨hx, hv, hy⟩ := ih
      exact sequenceHas_append.2 (.inr ⟨hx, .inr ⟨hf.rule _ _ _ hA hv, hy⟩⟩)

theorem Closed.sequenceHas_of_begins (hf : f.Closed R terminals) (ht : t ∈ terminals)
    (hne : t ≠ epsilon) (h : R.Begins w [t]) : f.SequenceHas w t := by
  generalize hu : [t] = u at h
  induction h with
  | done => simp at hu
  | keep _ _ =>
      obtain ⟨rfl, -⟩ : t = _ ∧ _ := by simpa using hu
      exact .inl ⟨hne, hf.terminal t ht⟩
  | expand hA _ ih =>
      -- What the replacement shows comes from the replacement or, if that vanishes, from behind it.
      rcases sequenceHas_append.1 (ih hu) with ⟨-, hv⟩ | ⟨hv, hα⟩
      · exact .inl ⟨hne, hf.rule _ _ _ hA hv⟩
      · exact .inr ⟨hf.rule _ _ _ hA hv, hα⟩

/-- A round that changes nothing leaves every production in place. -/
theorem closed_of_round_eq (hterm : ∀ t ∈ terminals, f.Has t t)
    (hkeys : ∀ X ∈ ps.keys, X ∈ f.keys) (h : round ps f = .ok f) :
    f.Closed ps.Produces terminals where
  terminal := hterm
  rule := by
    rintro X w t ⟨p, hp, rfl⟩ ht
    exact (progress_round hkeys h).turn (X, p) (mem_listing_iff.2 hp) t ht

/-! ## the rounds end -/

theorem nodup_toList (S : SymbolSet) : S.toList.Nodup := by
  refine S.ascending.imp ?_
  rintro a b hlt rfl
  exact String.lt_irrefl a hlt

theorem size_le_of_subset {S T : SymbolSet} (h : ∀ t, t ∈ S → t ∈ T) : S.size ≤ T.size :=
  (List.subperm_of_subset (nodup_toList S) h).length_le

theorem eq_of_subset_of_size_le {S T : SymbolSet} (h : ∀ t, t ∈ S → t ∈ T)
    (hsize : T.size ≤ S.size) : S = T :=
  SymbolSet.ext_mem fun _ =>
    ((List.subperm_of_subset (nodup_toList S) h).perm_of_length_le hsize).mem_iff

/-- The set of a symbol; one that has none counts as empty. -/
def setOf (f : FirstSets) (X : Symbol) : SymbolSet := (f.get? X).getD ∅

theorem mem_setOf_iff : t ∈ f.setOf X ↔ f.Has X t := by
  unfold setOf Keyed.Has
  cases f.get? X <;> simp

/-- The number of members of the sets of the nonterminals. -/
def weight (ps : Productions) (f : FirstSets) : Nat := (ps.keys.map fun X => (f.setOf X).size).sum

theorem sum_map_le {α : Type} {xs : List α} {a b : α → Nat} (h : ∀ x ∈ xs, a x ≤ b x) :
    (xs.map a).sum ≤ (xs.map b).sum := by
  induction xs with
  | nil => simp
  | cons x xs ih =>
      have hx := h x List.mem_cons_self
      have := ih fun y hy => h y (List.mem_cons_of_mem x hy)
      simp only [List.map_cons, List.sum_cons]
      omega

theorem eq_of_sum_map_le {α : Type} {xs : List α} {a b : α → Nat} (h : ∀ x ∈ xs, a x ≤ b x)
    (hsum : (xs.map b).sum ≤ (xs.map a).sum) : ∀ x ∈ xs, a x = b x := by
  induction xs with
  | nil => simp
  | cons x xs ih =>
      have hx := h x List.mem_cons_self
      have hxs := sum_map_le fun y hy => h y (List.mem_cons_of_mem x hy)
      simp only [List.map_cons, List.sum_cons] at hsum
      intro y hy
      rcases List.mem_cons.1 hy with rfl | hy
      · omega
      · exact ih (fun y hy => h y (List.mem_cons_of_mem x hy)) (by omega) y hy

/-- A round that does not change the weight changes nothing. -/
theorem eq_of_round_of_weight_le (hkeys : ∀ X ∈ ps.keys, X ∈ f.keys) (h : round ps f = .ok g)
    (hweight : weight ps g ≤ weight ps f) : g = f := by
  have hp := progress_round hkeys h
  have hsub : ∀ X t, t ∈ f.setOf X → t ∈ g.setOf X := fun X t ht =>
    mem_setOf_iff.2 (hp.mono X t (mem_setOf_iff.1 ht))
  have hsame := eq_of_sum_map_le (fun X _ => size_le_of_subset (hsub X)) hweight
  have hset (X : Symbol) : f.setOf X = g.setOf X := by
    by_cases hX : X ∈ ps.keys
    · exact eq_of_subset_of_size_le (hsub X) (Nat.le_of_eq (hsame X hX).symm)
    · exact SymbolSet.ext_mem fun t => by
        rw [mem_setOf_iff, mem_setOf_iff, hp.frame X t hX]
  refine Keyed.ext_get? hp.keys fun X => ?_
  have hX := hset X
  have hmem : X ∈ g.keys ↔ X ∈ f.keys := by rw [hp.keys]
  rw [Keyed.mem_keys_iff, Keyed.mem_keys_iff] at hmem
  unfold setOf at hX
  cases hf : f.get? X <;> cases hg : g.get? X <;> simp_all

theorem weight_le (hf : f.Sound R terminals) :
    weight ps f ≤ ps.size * (terminals.length + 1) := by
  have hset (X : Symbol) : (f.setOf X).size ≤ terminals.length + 1 := by
    have hsub : (f.setOf X).toList ⊆ epsilon :: terminals := by
      intro t ht
      obtain ⟨rfl, -⟩ | ⟨ht, -, -⟩ := hf X t (mem_setOf_iff.1 ht)
      · exact List.mem_cons_self
      · exact List.mem_cons_of_mem _ ht
    exact (List.subperm_of_subset (nodup_toList (f.setOf X)) hsub).length_le
  calc weight ps f ≤ (ps.keys.map fun _ => terminals.length + 1).sum :=
        sum_map_le fun X _ => hset X
    _ = ps.size * (terminals.length + 1) := by
        simp [Keyed.keys, Keyed.size, Function.comp_def]

/-- The sets after enough rounds are sound and closed, and one more round would not change them. -/
theorem sound_closed_of_saturate {fuel : Nat} (hkeys : ∀ X ∈ ps.keys, X ∈ f.keys)
    (hterm : ∀ t ∈ terminals, f.Has t t) (hf : f.Sound ps.Produces terminals)
    (hfuel : ps.size * (terminals.length + 1) < weight ps f + fuel)
    (h : saturate ps fuel f = .ok g) : round ps g = .ok g ∧
      g.Sound ps.Produces terminals ∧ g.Closed ps.Produces terminals := by
  induction fuel generalizing f with
  | zero => exact absurd (weight_le hf) (Nat.not_le_of_lt hfuel)
  | succ fuel ih =>
      rw [saturate, bind_eq_ok_iff] at h
      obtain ⟨f', hf', h⟩ := h
      split at h
      · next heq =>
          subst heq
          obtain rfl : f' = g := by simpa [pure, Except.pure] using h
          exact ⟨hf', hf, closed_of_round_eq hterm hkeys hf'⟩
      · next hne =>
          have hp := progress_round hkeys hf'
          have hgrow : weight ps f < weight ps f' :=
            Nat.lt_of_not_le fun hle => hne (eq_of_round_of_weight_le hkeys hf' hle)
          exact ih (fun X hX => hp.keys ▸ hkeys X hX) (fun t ht => hp.mono t t (hterm t ht))
            (hf.round hf') (by omega) h

/-! ## the sets of a grammar -/

theorem get?_foldl_empty (names : List Symbol) (f : FirstSets) :
    (names.foldl (fun f name => f.set name ∅) f).get? X =
      if X ∈ names then some ∅ else f.get? X := by
  induction names generalizing f with
  | nil => simp
  | cons Y names ih =>
      rw [List.foldl_cons, ih, Keyed.get?_set]
      by_cases hX : X ∈ names
      · simp [hX]
      · by_cases hY : Y = X
        · simp [hY]
        · have hY' : ¬ X = Y := fun e => hY e.symm
          simp [hX, hY, hY']

theorem get?_foldl_self (ts : List Symbol) (f : FirstSets) :
    (ts.foldl (fun f t => f.set t (SymbolSet.ofList [t])) f).get? X =
      if X ∈ ts then some (SymbolSet.ofList [X]) else f.get? X := by
  induction ts generalizing f with
  | nil => simp
  | cons Y ts ih =>
      rw [List.foldl_cons, ih, Keyed.get?_set]
      by_cases hX : X ∈ ts
      · simp [hX]
      · by_cases hY : Y = X
        · simp [hY]
        · have hY' : ¬ X = Y := fun e => hY e.symm
          simp [hX, hY, hY']

theorem get?_initial (ps : Productions) (terminals : List Symbol) (X : Symbol) :
    (initial ps terminals).get? X =
      if X ∈ ps.keys then some ∅ else if X ∈ terminals then some (SymbolSet.ofList [X]) else none := by
  rw [initial, get?_foldl_empty, Keyed.ofList, List.foldl_map, get?_foldl_self]
  simp

theorem sound_closed_of_ofGrammar (hε : epsilon ∉ terminals)
    (hdisj : ∀ t ∈ terminals, t ∉ ps.keys) (h : ofGrammar ps terminals = .ok f) :
    round ps f = .ok f ∧ f.Sound ps.Produces terminals ∧ f.Closed ps.Produces terminals := by
  refine sound_closed_of_saturate ?_ ?_ ?_ ?_ h
  · intro X hX
    exact Keyed.mem_keys_iff.2 ⟨∅, by rw [get?_initial, if_pos hX]⟩
  · intro t ht
    refine ⟨SymbolSet.ofList [t], ?_, by simp⟩
    rw [get?_initial, if_neg (hdisj t ht), if_pos ht]
  · rintro X t ⟨S, hS, ht⟩
    rw [get?_initial] at hS
    split at hS
    · obtain rfl : ∅ = S := by simpa using hS
      exact absurd ht (SymbolSet.not_mem_empty t)
    · split at hS
      · next hX =>
          obtain rfl : SymbolSet.ofList [X] = S := by simpa using hS
          obtain rfl : t = X := by simpa using ht
          exact .inr ⟨hX, fun e => hε (e ▸ hX), .keep (.done _)⟩
      · contradiction
  · omega

/-- FIRST sets are exact. -/
theorem sequenceHas_iff (hε : epsilon ∉ terminals) (hdisj : ∀ t ∈ terminals, t ∉ ps.keys)
    (h : ofGrammar ps terminals = .ok f) :
    f.SequenceHas w t ↔ ps.Produces.Shows terminals w t := by
  obtain ⟨-, hsound, hclosed⟩ := sound_closed_of_ofGrammar hε hdisj h
  refine ⟨shows_of_sequenceHas hsound, ?_⟩
  rintro (⟨rfl, hnil⟩ | ⟨ht, hne, hbegins⟩)
  · exact hclosed.sequenceHas_of_derives_nil hnil
  · exact hclosed.sequenceHas_of_begins ht hne hbegins

/-! ## no symbol is without a set -/

theorem exists_ofSequence (h : ∀ s ∈ w, s ∈ f.keys) : ∃ S, f.ofSequence w = .ok S := by
  induction w with
  | nil => exact ⟨_, rfl⟩
  | cons X w ih =>
      obtain ⟨first, hfirst⟩ := Keyed.mem_keys_iff.1 (h X List.mem_cons_self)
      obtain ⟨S, hS⟩ := ih fun s hs => h s (List.mem_cons_of_mem X hs)
      rw [ofSequence, ofSymbol_eq_ok_iff.2 hfirst]
      by_cases hε : epsilon ∈ first
      · exact ⟨(first.erase epsilon).union S, by simp [hε, hS, bind, Except.bind, pure, Except.pure]⟩
      · exact ⟨first, by simp [hε, bind, Except.bind, pure, Except.pure]⟩

theorem exists_round (hkeys : ∀ X ∈ ps.keys, X ∈ f.keys)
    (hsymbols : ∀ X p, ps.Lists X p → ∀ s ∈ p.symbols, s ∈ f.keys) :
    ∃ g, round ps f = .ok g ∧ g.keys = f.keys := by
  rw [round_eq]
  refine exists_foldlM_eq_ok (P := fun g : FirstSets => g.keys = f.keys) rfl ?_
  rintro ⟨X, p⟩ he g hg
  have hlists := mem_listing_iff.1 he
  obtain ⟨S, hS⟩ := exists_ofSequence (f := g) fun s hs => hg ▸ hsymbols X p hlists s hs
  have hadd : addProduction X g p = .ok (g.update X ∅ (·.union S)) := bind_eq_ok_iff.2 ⟨S, hS, rfl⟩
  obtain ⟨rules, hr, -⟩ := hlists
  have hX : X ∈ g.keys := hg ▸ hkeys X (Keyed.mem_keys_iff.2 ⟨rules, hr⟩)
  exact ⟨_, hadd, (keys_addProduction hadd hX).trans hg⟩

theorem exists_saturate (fuel : Nat) (hkeys : ∀ X ∈ ps.keys, X ∈ f.keys)
    (hsymbols : ∀ X p, ps.Lists X p → ∀ s ∈ p.symbols, s ∈ f.keys) :
    ∃ g, saturate ps fuel f = .ok g ∧ g.keys = f.keys := by
  induction fuel generalizing f with
  | zero => exact ⟨f, rfl, rfl⟩
  | succ fuel ih =>
      obtain ⟨f', hf', hsame⟩ := exists_round hkeys hsymbols
      obtain ⟨g, hg, hsame'⟩ := ih (f := f') (hsame ▸ hkeys) (hsame ▸ hsymbols)
      by_cases heq : f' = f
      · exact ⟨f, bind_eq_ok_iff.2 ⟨f', hf', if_pos heq⟩, rfl⟩
      · exact ⟨g, bind_eq_ok_iff.2 ⟨f', hf', (if_neg heq).trans hg⟩, hsame'.trans hsame⟩

/-- There are FIRST sets if every symbol of a production is a nonterminal or a terminal, and then all
of these have one. -/
theorem exists_ofGrammar (ps : Productions) (terminals : List Symbol)
    (hsymbols : ∀ X p, ps.Lists X p → ∀ s ∈ p.symbols, s ∈ ps.keys ∨ s ∈ terminals) :
    ∃ f, ofGrammar ps terminals = .ok f ∧ ∀ s, s ∈ ps.keys ∨ s ∈ terminals → s ∈ f.keys := by
  have hmem (s : Symbol) (hs : s ∈ ps.keys ∨ s ∈ terminals) : s ∈ (initial ps terminals).keys := by
    rw [Keyed.mem_keys_iff, get?_initial]
    by_cases hkey : s ∈ ps.keys
    · exact ⟨∅, if_pos hkey⟩
    · exact ⟨_, by rw [if_neg hkey, if_pos (hs.resolve_left hkey)]⟩
  obtain ⟨f, hf, hkeys⟩ := exists_saturate (ps.size * (terminals.length + 1) + 1)
    (fun X hX => hmem X (.inl hX)) fun X p hp s hs => hmem s (hsymbols X p hp s hs)
  exact ⟨f, hf, fun s hs => hkeys ▸ hmem s hs⟩

end FirstSets

end Lalr
