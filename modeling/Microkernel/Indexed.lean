/-!
# Tables and their positions

The tables of the kernel have a fixed length, and a position in one of them is a number below that
length.  Looking at a position leaves no bound to be proved.
-/

namespace Microkernel

variable {α : Type} {length : Nat}

instance instGetElemPosition : GetElem (Vector α length) (Fin length) α fun _ _ => True where
  getElem elements position _ := elements.get position

theorem getElem_position (elements : Vector α length) (position : Fin length) :
    elements[position] = getElem elements position.val position.isLt :=
  rfl

theorem eq_of_getElem {elements others : Vector α length}
    (same : ∀ position : Fin length, elements[position] = others[position]) :
    elements = others := by
  apply Vector.ext
  intro place inside
  exact same ⟨place, inside⟩

@[simp] theorem getElem_replicate (element : α) (position : Fin length) :
    (Vector.replicate length element)[position] = element := by
  simp only [getElem_position, Vector.getElem_replicate]

@[simp] theorem getElem_mem (elements : Vector α length) (position : Fin length) :
    elements[position] ∈ elements :=
  Vector.getElem_mem position.isLt

theorem getElem_set (elements : Vector α length) (position other : Fin length) (element : α) :
    (elements.set position element position.isLt)[other] =
      if position = other then element else elements[other] := by
  simp only [getElem_position, Vector.getElem_set, Fin.ext_iff]

@[simp] theorem getElem_set_self (elements : Vector α length) (position : Fin length)
    (element : α) : (elements.set position element position.isLt)[position] = element := by
  rw [getElem_set, if_pos rfl]

@[simp] theorem getElem_map {β : Type} (elements : Vector α length) (change : α → β)
    (position : Fin length) : (elements.map change)[position] = change elements[position] := by
  simp only [getElem_position, Vector.getElem_map]

end Microkernel
