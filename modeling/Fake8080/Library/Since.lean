import Mathlib.Data.List.Basic
import Mathlib.Tactic.Common

/-!
# The past operator `since` on finite histories

`Since hold trigger h` says of a history `h`, oldest event first, that some event of it
is a `trigger` and every later one satisfies `hold`. It is the past-time temporal
operator in which statements such as "a request was made after the last acceptance" are
written. A history grows at its end, and `since_concat` is the recursion there.
-/

variable {β : Type*}

/-- Some event of the history satisfies `trigger` and every later one `hold`. -/
def Since (hold trigger : β → Prop) (h : List β) : Prop :=
  ∃ older e newer, h = older ++ e :: newer ∧ trigger e ∧ ∀ x ∈ newer, hold x

variable {hold trigger : β → Prop}

@[simp]
theorem not_since_nil : ¬ Since hold trigger [] := by
  rintro ⟨older, e, newer, h, -, -⟩
  simp at h

/-- A new event either triggers or must keep what an earlier one triggered. -/
@[simp]
theorem since_concat (h : List β) (e : β) :
    Since hold trigger (h ++ [e]) ↔ trigger e ∨ hold e ∧ Since hold trigger h := by
  constructor
  · rintro ⟨older, x, newer, heq, hx, hnewer⟩
    -- the trigger is the new event itself, or the new event is the last of those after it
    rcases List.eq_nil_or_concat newer with rfl | ⟨newer', y, rfl⟩
    · obtain ⟨-, rfl⟩ : h = older ∧ e = x := by simpa using heq
      exact .inl hx
    · obtain ⟨rfl, rfl⟩ : h = older ++ x :: newer' ∧ e = y := by
        have hsplit : h ++ [e] = (older ++ x :: newer') ++ [y] := by simpa using heq
        simpa using List.append_inj' hsplit rfl
      exact .inr ⟨hnewer e (by simp), older, x, newer', rfl, hx, fun z hz =>
        hnewer z (by simp [hz])⟩
  · rintro (he | ⟨he, older, x, newer, rfl, hx, hnewer⟩)
    · exact ⟨h, e, [], rfl, he, by simp⟩
    · refine ⟨older, x, newer ++ [e], by simp, hx, fun z hz => ?_⟩
      rcases List.mem_append.mp hz with hz | hz
      · exact hnewer z hz
      · rwa [List.mem_singleton.mp hz]

/-- Weaker conditions hold since a weaker trigger. -/
theorem Since.mono {hold' trigger' : β → Prop} {h : List β} (hs : Since hold trigger h)
    (hhold : ∀ x, hold x → hold' x) (htrigger : ∀ x, trigger x → trigger' x) :
    Since hold' trigger' h := by
  obtain ⟨older, e, newer, rfl, he, hnewer⟩ := hs
  exact ⟨older, e, newer, rfl, htrigger e he, fun x hx => hhold x (hnewer x hx)⟩

theorem Since.exists_trigger {h : List β} (hs : Since hold trigger h) : ∃ e ∈ h, trigger e := by
  obtain ⟨older, e, newer, rfl, he, -⟩ := hs
  exact ⟨e, by simp, he⟩
