import Lalr.Grammar.Basic

/-!
# Lalr.Automaton.Closure

Closing a set of items: whenever a pointer stands before a symbol, every item that is listed under
that symbol belongs to the set too.  What is listed under a nonterminal of a grammar is its
productions, with nothing seen.

Items come out in the order of their discovery, first come first served.  The same item may wait in
the queue more than once, but is looked at only when it first comes up; that is why the closure ends.
-/

namespace Lalr

/-- The items that belong to a set with every item that points at a symbol, by that symbol. -/
abbrev Expansions := Keyed Symbol (List Item)

/-- Every nonterminal brings in its productions, with nothing seen. -/
def Productions.expansions (ps : Productions) : Expansions :=
  ps.mapValues fun _ rules => rules.map Item.fresh

namespace Expansions

/-- The items listed under a symbol. -/
def under (es : Expansions) (symbol : Symbol) : List Item := (es.get? symbol).getD []

/-- The items that an item brings in: those listed under the symbol it points at. -/
def broughtBy (es : Expansions) (item : Item) : List Item := (item.next?.map es.under).getD []

/-- All items that are listed, symbol by symbol. -/
def listed (es : Expansions) : List Item := es.values.flatten

/-- What a symbol has listed under it is part of all that is listed. -/
theorem under_sublist_listed (es : Expansions) (symbol : Symbol) :
    (es.under symbol).Sublist es.listed := by
  obtain ⟨entries, hn⟩ := es
  simp only [under, Keyed.get?, listed, Keyed.values]
  clear hn
  induction entries with
  | nil => simp [Keyed.find?]
  | cons e rest ih =>
    by_cases he : e.1 = symbol
    · simp [Keyed.find?, he]
    · simpa [Keyed.find?, he] using ih.trans (List.sublist_append_right _ _)

theorem broughtBy_sublist_listed (es : Expansions) (item : Item) :
    (es.broughtBy item).Sublist es.listed := by
  cases h : item.next? with
  | none => simp [broughtBy, h]
  | some symbol => simpa [broughtBy, h] using es.under_sublist_listed symbol

/-- The number of items that may still be closed: the listed items that are not closed, and the
queued ones that are not listed. -/
def unsettled (es : Expansions) (closed queue : List Item) : Nat :=
  (es.listed.filter (· ∉ closed)).length + (queue.filter (· ∉ es.listed)).length

/-- The number of turns that a search may still take.  A turn that closes an item queues no more
items than are listed. -/
def turns (es : Expansions) (closed queue : List Item) : Nat :=
  es.unsettled closed queue * (es.listed.length + 1) + queue.length

/-- Closing an item that was not closed settles it, whichever listed items are queued for it. -/
theorem unsettled_close_lt (es : Expansions) {closed rest more : List Item} {item : Item}
    (hitem : item ∉ closed) (hmore : more ⊆ es.listed) :
    es.unsettled (closed ++ [item]) (rest ++ more) < es.unsettled closed (item :: rest) := by
  have hnone : more.filter (· ∉ es.listed) = [] :=
    List.filter_eq_nil_iff.2 fun i hi => by simpa using hmore hi
  have hfilter : es.listed.filter (· ∉ closed ++ [item]) =
      (es.listed.filter (· ∉ closed)).filter (· ≠ item) := by
    simp [List.filter_filter, and_comm]
  rw [unsettled, unsettled, List.filter_append, hnone, List.append_nil, hfilter]
  by_cases hlisted : item ∈ es.listed
  · have hmem : item ∈ es.listed.filter (· ∉ closed) := by simp [hlisted, hitem]
    have hlt : ((es.listed.filter (· ∉ closed)).filter (· ≠ item)).length <
        (es.listed.filter (· ∉ closed)).length :=
      List.length_filter_lt_length_iff_exists.2 ⟨item, hmem, by simp⟩
    simp only [List.filter_cons, hlisted, not_true_eq_false, decide_false, Bool.false_eq_true,
      if_false]
    omega
  · have hle := List.length_filter_le (· ≠ item) (es.listed.filter (· ∉ closed))
    simp only [List.filter_cons, hlisted, not_false_eq_true, decide_true, if_true,
      List.length_cons]
    omega

theorem turns_skip_lt (es : Expansions) (closed rest : List Item) (item : Item) :
    es.turns closed rest < es.turns closed (item :: rest) := by
  have hsub : (rest.filter (· ∉ es.listed)).Sublist ((item :: rest).filter (· ∉ es.listed)) :=
    (List.sublist_cons_self item rest).filter _
  have hle : es.unsettled closed rest ≤ es.unsettled closed (item :: rest) :=
    Nat.add_le_add_left hsub.length_le _
  have hmul := Nat.mul_le_mul_right (es.listed.length + 1) hle
  simp only [turns, List.length_cons]
  omega

theorem turns_close_lt (es : Expansions) {closed rest more : List Item} {item : Item}
    (hitem : item ∉ closed) (hmore : more.Sublist es.listed) :
    es.turns (closed ++ [item]) (rest ++ more) < es.turns closed (item :: rest) := by
  have hlt : es.unsettled (closed ++ [item]) (rest ++ more) < es.unsettled closed (item :: rest) :=
    es.unsettled_close_lt hitem hmore.subset
  have hmul := Nat.mul_le_mul_right (es.listed.length + 1) (Nat.succ_le_of_lt hlt)
  have hlen := hmore.length_le
  rw [Nat.succ_mul] at hmul
  simp only [turns, List.length_append, List.length_cons]
  omega

end Expansions

namespace Item

/-- Close a set of items: `closed` holds the items found so far, and `queue` those still to be
looked at. -/
def closeFrom (es : Expansions) (closed queue : List Item) : List Item :=
  match queue with
  | [] => closed
  | item :: rest =>
    if item ∈ closed then closeFrom es closed rest
    else
      closeFrom es (closed ++ [item])
        (rest ++ (es.broughtBy item).filter (· ∉ closed ++ [item]))
termination_by es.turns closed queue
decreasing_by
  · exact es.turns_skip_lt closed rest item
  · exact es.turns_close_lt ‹_› (List.filter_sublist.trans (es.broughtBy_sublist_listed item))

/-- The closure of some seed items under what is listed, in order of discovery. -/
def closureIn (es : Expansions) (seeds : List Item) : List Item := closeFrom es [] seeds

/-- The closure of seed items when no pointer has been checked: the search gives up at the first
item of which the pointer lies beyond the end. -/
def closureIn? (es : Expansions) (seeds : List Item) : Except PointerError (List Item) :=
  match (closureIn es seeds).find? (fun i => ¬ i.WellFormed) with
  | some i => .error (.beyondEnd i)
  | none => .ok (closureIn es seeds)

/-- The closure of some seed items under the productions of a grammar. -/
def closure (ps : Productions) (seeds : List Item) : List Item := closureIn ps.expansions seeds

/-- The closure under productions of seed items of which the pointers have not been checked. -/
def closure? (ps : Productions) (seeds : List Item) : Except PointerError (List Item) :=
  closureIn? ps.expansions seeds

/-- Whether two closures have the same items.  A closure lists no item twice, so counting settles
one half of it. -/
def sameItems (a b : List Item) : Bool := a.length == b.length && a.all (b.contains ·)

/-- The items grouped by the symbol after their pointer, each moved past it.  Symbols come in the
order of their first item. -/
def successors (items : List Item) : Keyed Symbol (List Item) :=
  items.foldl (fun m i => match i.next? with
    | none => m
    | some s => m.update s [] (· ++ [i.shifted])) ∅

/-- The items of which everything has been seen. -/
def completed (items : List Item) : List Item := items.filter (·.atEnd)

end Item

end Lalr
