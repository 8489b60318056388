import Mathlib.Logic.Function.Basic
import Mathlib.Data.Option.Basic
import Mathlib.Tactic.Common

/-!
# Painting in layers

A layer gives some cells of a canvas a value, and painting it leaves the other cells as
they were.  Layers that are painted one after the other make one layer, and a layer hides
everything below it that it covers.
-/

namespace Layers

variable {κ β : Type*}

/-- The value that the layer gives to a cell, if it gives one. -/
abbrev Layer (κ β : Type*) := κ → Option β

def paint (layer : Layer κ β) (canvas : κ → β) : κ → β := fun k ↦ (layer k).getD (canvas k)

def paintAll (layers : List (Layer κ β)) (canvas : κ → β) : κ → β :=
  layers.foldl (fun canvas layer ↦ paint layer canvas) canvas

/-- `upper` gives a value to all cells to which `lower` gives one. -/
def Covers (upper lower : Layer κ β) : Prop := ∀ k, (lower k).isSome → (upper k).isSome

@[simp] theorem paintAll_nil (canvas : κ → β) : paintAll [] canvas = canvas := rfl

@[simp] theorem paintAll_cons (layer : Layer κ β) (layers : List (Layer κ β))
    (canvas : κ → β) : paintAll (layer :: layers) canvas = paintAll layers (paint layer canvas) :=
  rfl

theorem paintAll_append (below above : List (Layer κ β)) (canvas : κ → β) :
    paintAll (below ++ above) canvas = paintAll above (paintAll below canvas) :=
  List.foldl_append

/-- Layers that give a cell no value leave it as it was. -/
theorem paintAll_of_none {layers : List (Layer κ β)} {k : κ}
    (h : ∀ layer ∈ layers, layer k = none) (canvas : κ → β) :
    paintAll layers canvas k = canvas k := by
  induction layers generalizing canvas with
  | nil => rfl
  | cons layer layers ih =>
      obtain ⟨hlayer, hrest⟩ := List.forall_mem_cons.mp h
      rw [paintAll_cons, ih hrest, paint, hlayer, Option.getD_none]

/-- A cell gets its value from the layers and from what it was itself. -/
theorem paintAll_congr (layers : List (Layer κ β)) {canvas canvas' : κ → β} {k : κ}
    (h : canvas k = canvas' k) : paintAll layers canvas k = paintAll layers canvas' k := by
  induction layers generalizing canvas canvas' with
  | nil => exact h
  | cons layer layers ih => exact ih (by simp [paint, h])

theorem Covers.refl (layer : Layer κ β) : Covers layer layer := fun _ h ↦ h

theorem paint_paint_of_covers {upper lower : Layer κ β} (h : Covers upper lower)
    (canvas : κ → β) : paint upper (paint lower canvas) = paint upper canvas := by
  funext k
  cases hupper : upper k with
  | some value => simp [paint, hupper]
  | none =>
      have hlower : lower k = none := by
        by_contra hsome
        have hcovered := h k (Option.isSome_iff_ne_none.mpr hsome)
        simp [hupper] at hcovered
      simp [paint, hupper, hlower]

theorem paint_paintAll_of_covers {upper : Layer κ β} {below : List (Layer κ β)}
    (h : ∀ lower ∈ below, Covers upper lower) (canvas : κ → β) :
    paint upper (paintAll below canvas) = paint upper canvas := by
  induction below generalizing canvas with
  | nil => rfl
  | cons lower below ih =>
      have hrest : ∀ lower ∈ below, Covers upper lower :=
        fun l hl ↦ h l (List.mem_cons_of_mem lower hl)
      rw [paintAll_cons, ih hrest, paint_paint_of_covers (h lower List.mem_cons_self)]

/-- What was painted below a layer that covers it makes no difference. -/
theorem paintAll_of_covers {upper : Layer κ β} {below : List (Layer κ β)}
    (h : ∀ lower ∈ below, Covers upper lower) (above : List (Layer κ β)) (canvas : κ → β) :
    paintAll (below ++ upper :: above) canvas = paintAll (upper :: above) canvas := by
  rw [paintAll_append, paintAll_cons, paintAll_cons, paint_paintAll_of_covers h]

end Layers
