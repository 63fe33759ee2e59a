import Acromegaly.Found.Machine
import Mathlib.Data.List.NodupEquivFin

/-!
# Histories

What a machine comes to along a run is its `trace`. Somebody who looks on sees less of it, and some of
it more than once: `Follows told seen` says that all of `seen` was told, and in this order.
-/

namespace Acromegaly.Found

/-! ## Traces -/

namespace Machine

variable {S E : Type*} {M : Machine S E}

/-- The states a run comes to, one for each event, up to the first event that cannot occur. -/
def trace (M : Machine S E) : S → List E → List S
  | _, [] => []
  | s, e :: es =>
      match M.step s e with
      | none => []
      | some s' => s' :: trace M s' es

theorem trace_cons_of_some {s s' : S} {e : E} (h : M.step s e = some s') (es : List E) :
    M.trace s (e :: es) = s' :: M.trace s' es := by
  simp only [trace, h]

end Machine

/-! ## Seen in order -/

variable {α : Type*} {told all seen : List α}

/-- Everything in `seen` is found in `told`, nothing before the place of what was seen earlier. -/
def Follows (told seen : List α) : Prop :=
  ∃ places : List (Fin told.length), places.Pairwise (· ≤ ·) ∧ seen = places.map told.get

theorem Follows.nil (told : List α) : Follows told [] := ⟨[], .nil, rfl⟩

/-- It is found in whatever the list is a part of. -/
theorem Follows.sublist (h : Follows told seen) (hsub : told.Sublist all) : Follows all seen := by
  obtain ⟨places, hle, rfl⟩ := h
  obtain ⟨f, hf⟩ := List.sublist_iff_exists_fin_orderEmbedding_get_eq.mp hsub
  refine ⟨places.map f, ?_, ?_⟩
  · apply List.pairwise_map.mpr
    exact hle.imp fun hij => f.monotone hij
  · rw [List.map_map]
    exact List.map_congr_left fun i _ => hf i

/-- What was told last can be seen again. -/
theorem Follows.again (h : Follows told seen) {a : α} (ha : told.getLast? = some a) :
    Follows told (seen ++ [a]) := by
  obtain ⟨places, hle, rfl⟩ := h
  rw [List.getLast?_eq_getElem?] at ha
  obtain ⟨hlt, hget⟩ := List.getElem?_eq_some_iff.mp ha
  refine ⟨places ++ [⟨told.length - 1, hlt⟩], ?_, ?_⟩
  · apply List.pairwise_append.mpr
    refine ⟨hle, List.pairwise_singleton _ _, ?_⟩
    intro i _ j hj
    rw [List.mem_singleton.mp hj]
    have hi := i.isLt
    show i.val ≤ told.length - 1
    omega
  · rw [List.map_append, ← hget]
    rfl

end Acromegaly.Found
