import Mathlib.Data.List.Basic
import Mathlib.Data.List.Induction
import Mathlib.Logic.Function.Basic
import Mathlib.Tactic.Common

/-!
# Stores written through aliases

A store keeps a value in each cell. It is written through names: `cell` says which cell a
name resolves to, several names may resolve to one cell, and a name may resolve to none,
in which case a write through it is dropped. After any sequence of writes a cell holds
what was last written through one of its names, and what it held before if nothing was
(`writeAll_apply`).

Who looks at a store through names need not know its cells: all that matters is what each
name shows (`view`) and which names show what is written through which (`Affects`).
`writeView` is a write in these terms, and `view_write` says that the store performs it.
-/

universe u v w

namespace AliasedStore

variable {α : Type u} {κ : Type v} {β : Type w} [DecidableEq κ] (cell : α → Option κ)

/-- A write through a name. -/
def write (store : κ → β) (entry : α × β) : κ → β :=
  match cell entry.1 with
  | some k => Function.update store k entry.2
  | none => store

/-- A sequence of writes, in order. -/
def writeAll (store : κ → β) (entries : List (α × β)) : κ → β :=
  entries.foldl (write cell) store

/-- The value of the last write through a name of a cell. -/
def lastWrite (k : κ) (entries : List (α × β)) : Option β :=
  (entries.reverse.find? fun entry => cell entry.1 = some k).map Prod.snd

theorem write_apply (store : κ → β) (entry : α × β) (k : κ) :
    write cell store entry k = if cell entry.1 = some k then entry.2 else store k := by
  rw [write]
  cases h : cell entry.1 with
  | none => simp
  | some k' =>
    simp only [Function.update_apply, Option.some.injEq]
    by_cases hk : k = k'
    · rw [if_pos hk, if_pos hk.symm]
    · rw [if_neg hk, if_neg (Ne.symm hk)]

/-- A write through a name of the cell is the last one, any other is not seen. -/
theorem lastWrite_concat (k : κ) (entries : List (α × β)) (entry : α × β) :
    lastWrite cell k (entries ++ [entry]) =
      if cell entry.1 = some k then some entry.2 else lastWrite cell k entries := by
  rw [lastWrite, List.reverse_append, List.reverse_singleton, List.singleton_append,
    List.find?_cons]
  by_cases h : cell entry.1 = some k <;> simp [h, lastWrite]

/-- **A cell holds the value last written to it.** -/
theorem writeAll_apply (store : κ → β) (entries : List (α × β)) (k : κ) :
    writeAll cell store entries k = (lastWrite cell k entries).getD (store k) := by
  -- the last write decides, so writes are peeled off the end
  induction entries using List.reverseRecOn with
  | nil => rfl
  | append_singleton entries entry ih =>
    rw [writeAll, List.foldl_append, List.foldl_cons, List.foldl_nil, write_apply,
      lastWrite_concat]
    by_cases h : cell entry.1 = some k
    · rw [if_pos h, if_pos h, Option.getD_some]
    · rw [if_neg h, if_neg h]
      exact ih

/-- Two resolutions that agree on which names name a cell see the same last write. -/
theorem lastWrite_congr {κ' : Type*} [DecidableEq κ'] {cell' : α → Option κ'} {k : κ} {k' : κ'}
    (h : ∀ a, cell a = some k ↔ cell' a = some k') (entries : List (α × β)) :
    lastWrite cell k entries = lastWrite cell' k' entries := by
  simp only [lastWrite, h]

/-- A cell no name of a sequence of writes resolves to is unchanged. -/
theorem writeAll_apply_of_forall_ne {store : κ → β} {entries : List (α × β)} {k : κ}
    (h : ∀ entry ∈ entries, cell entry.1 ≠ some k) :
    writeAll cell store entries k = store k := by
  have hnone : lastWrite cell k entries = none := by
    rw [lastWrite, Option.map_eq_none_iff, List.find?_eq_none]
    simpa using h
  rw [writeAll_apply, hnone, Option.getD_none]

/-! ### What the names show -/

omit [DecidableEq κ] in
/-- What a name shows: the content of the cell it looks at, or a default. -/
def view (source : α → Option κ) (default : β) (store : κ → β) (a : α) : β :=
  ((source a).map store).getD default

/-- What is written through the first name is seen through the second. -/
def Affects (source : α → Option κ) (a b : α) : Prop := cell a ≠ none ∧ cell a = source b

instance (source : α → Option κ) (a b : α) : Decidable (Affects cell source a b) :=
  inferInstanceAs (Decidable (_ ∧ _))

/-- A write on what the names show. -/
def writeView (affects : α → α → Prop) [DecidableRel affects] (shown : α → β) (entry : α × β) :
    α → β :=
  fun b => if affects entry.1 b then entry.2 else shown b

/-- **A write changes what the affected names show, and nothing else.** -/
theorem view_write (source : α → Option κ) (default : β) (store : κ → β) (entry : α × β) :
    view source default (write cell store entry) =
      writeView (Affects cell source) (view source default store) entry := by
  funext b
  rw [writeView, view, view]
  cases hb : source b with
  | none =>
    have hnot : ¬ Affects cell source entry.1 b := fun h => h.1 (h.2.trans hb)
    rw [if_neg hnot]
    rfl
  | some k =>
    have haffects : Affects cell source entry.1 b ↔ cell entry.1 = some k := by
      rw [Affects, hb]
      exact ⟨fun h => h.2, fun h => ⟨by rw [h]; exact Option.some_ne_none k, h⟩⟩
    simp only [Option.map_some, Option.getD_some, write_apply, haffects]

/-- A name that no write affects shows what it did. -/
theorem foldl_writeView_of_not_affects (affects : α → α → Prop) [DecidableRel affects]
    (shown : α → β) {entries : List (α × β)} {b : α} (h : ∀ entry ∈ entries, ¬ affects entry.1 b) :
    entries.foldl (writeView affects) shown b = shown b := by
  induction entries generalizing shown with
  | nil => rfl
  | cons entry entries ih =>
    rw [List.foldl_cons, ih _ fun e he => h e (List.mem_cons_of_mem _ he)]
    exact if_neg (h entry List.mem_cons_self)

/-- A name that a write affects shows a written value, whatever was there. -/
theorem foldl_writeView_of_affects (affects : α → α → Prop) [DecidableRel affects]
    (shown shown' : α → β) {entries : List (α × β)} {b : α}
    (h : ∃ entry ∈ entries, affects entry.1 b) :
    entries.foldl (writeView affects) shown b = entries.foldl (writeView affects) shown' b := by
  induction entries generalizing shown shown' with
  | nil => simp at h
  | cons entry entries ih =>
    by_cases hlater : ∃ e ∈ entries, affects e.1 b
    · exact ih _ _ hlater
    · have hnot : ∀ e ∈ entries, ¬ affects e.1 b := fun e he ha => hlater ⟨e, he, ha⟩
      have hentry : affects entry.1 b := by
        obtain ⟨e, he, ha⟩ := h
        rcases List.mem_cons.mp he with rfl | he
        · exact ha
        · exact absurd ha (hnot e he)
      rw [List.foldl_cons, List.foldl_cons, foldl_writeView_of_not_affects affects _ hnot,
        foldl_writeView_of_not_affects affects _ hnot, writeView, writeView, if_pos hentry,
        if_pos hentry]

/-- The same writes on two views overwrite a name's value in both or in neither. -/
theorem foldl_writeView_cases (affects : α → α → Prop) [DecidableRel affects] (shown shown' : α → β)
    (entries : List (α × β)) (b : α) :
    entries.foldl (writeView affects) shown b = entries.foldl (writeView affects) shown' b ∨
      entries.foldl (writeView affects) shown b = shown b ∧
        entries.foldl (writeView affects) shown' b = shown' b := by
  by_cases h : ∃ entry ∈ entries, affects entry.1 b
  · exact .inl (foldl_writeView_of_affects affects shown shown' h)
  · have hnot : ∀ e ∈ entries, ¬ affects e.1 b := fun e he ha => h ⟨e, he, ha⟩
    exact .inr ⟨foldl_writeView_of_not_affects affects shown hnot,
      foldl_writeView_of_not_affects affects shown' hnot⟩

end AliasedStore
