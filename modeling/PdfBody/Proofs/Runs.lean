import Mathlib.Data.List.Induction

/-! Runs, given by the list of their steps, and the states that they pass through. -/
namespace PdfBody

variable {α : Type} {shows : List α → Prop} {breaks : List α → α → Prop}

/-- An invariant holds all along a run up to the first step that breaks it, and there it shows. -/
theorem everyPrefixWithin (holds : List α → Prop) (start : holds []) {steps : List α}
    (step : ∀ earlier next, earlier ++ [next] <+: steps → holds earlier →
      ¬ breaks earlier next ∧ holds (earlier ++ [next]) ∨
        breaks earlier next ∧ ¬ shows (earlier ++ [next]))
    (seen : ∀ earlier, holds earlier → shows earlier) :
    (∀ earlier, earlier <+: steps → shows earlier) ↔
      ∀ earlier next, earlier ++ [next] <+: steps → ¬ breaks earlier next := by
  constructor
  · intro all
    have stays : ∀ earlier next, earlier ++ [next] <+: steps → holds earlier →
        ¬ breaks earlier next ∧ holds (earlier ++ [next]) := by
      intro earlier next within before
      rcases step earlier next within before with kept | ⟨-, lost⟩
      · exact kept
      · exact absurd (all _ within) lost
    have held : ∀ earlier, earlier <+: steps → holds earlier := by
      intro earlier within
      induction earlier using List.reverseRecOn with
      | nil => exact start
      | append_singleton earlier next ih =>
        exact (stays _ _ within (ih ((List.prefix_append ..).trans within))).2
    intro earlier next within
    exact (stays _ _ within (held _ ((List.prefix_append ..).trans within))).1
  · intro calm earlier within
    apply seen
    induction earlier using List.reverseRecOn with
    | nil => exact start
    | append_singleton earlier next ih =>
      rcases step earlier next within (ih ((List.prefix_append ..).trans within)) with
        ⟨-, kept⟩ | ⟨broken, -⟩
      · exact kept
      · exact absurd broken (calm earlier next within)

theorem everyPrefix (holds : List α → Prop) (start : holds [])
    (step : ∀ earlier next, holds earlier →
      ¬ breaks earlier next ∧ holds (earlier ++ [next]) ∨
        breaks earlier next ∧ ¬ shows (earlier ++ [next]))
    (seen : ∀ earlier, holds earlier → shows earlier) (steps : List α) :
    (∀ earlier, earlier <+: steps → shows earlier) ↔
      ∀ earlier next, earlier ++ [next] <+: steps → ¬ breaks earlier next :=
  everyPrefixWithin holds start (fun earlier next _ => step earlier next) seen

end PdfBody
