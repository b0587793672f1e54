import Microkernel.Teardown

/-!
# Handles and references

A pipe counts the handles that all processes together have on it.  This file counts the handles
themselves, and says what each change of a handle table or of the pipe table does to the count.
-/

namespace Microkernel

theorem findFinIdx?_eq_some_iff {α : Type} {size : Nat} {elements : Vector α size}
    {holds : α → Bool} {position : Fin size} :
    elements.findFinIdx? holds = some position ↔ holds elements[position] = true ∧
      ∀ earlier : Fin size, earlier < position → holds elements[earlier] = false := by
  rcases elements with ⟨elements, rfl⟩
  simp only [Vector.findFinIdx?, Option.map_eq_some_iff]
  constructor
  · rintro ⟨place, found, rfl⟩
    obtain ⟨here, before⟩ := Array.findFinIdx?_eq_some_iff.1 found
    exact ⟨here, fun earlier less => Bool.eq_false_iff.2 (before earlier less)⟩
  · rintro ⟨here, before⟩
    refine ⟨position, Array.findFinIdx?_eq_some_iff.2 ⟨here, fun earlier less => ?_⟩, rfl⟩
    exact Bool.eq_false_iff.1 (before ⟨earlier, earlier.isLt⟩ less)

theorem of_findFinIdx?_eq_some {α : Type} {size : Nat} {elements : Vector α size}
    {holds : α → Bool} {position : Fin size}
    (found : elements.findFinIdx? holds = some position) : holds elements[position] = true :=
  (findFinIdx?_eq_some_iff.1 found).1

private theorem setIfInBounds_eq_set {α : Type} {size : Nat} (elements : Vector α size)
    {position : Nat} (inside : position < size) (element : α) :
    elements.setIfInBounds position element = elements.set position element inside := by
  apply Vector.ext
  intro place small
  simp only [Vector.getElem_setIfInBounds, Vector.getElem_set]

namespace Process

/-- Whether the process has a handle on a pipe. -/
def Holds (process : Process) (id : PipeId) : Prop :=
  some id ∈ process.handles

/-- The number of handles that the process has on a pipe. -/
def handlesOn (process : Process) (id : PipeId) : Nat :=
  process.handles.count (some id)

theorem holds_iff (process : Process) (id : PipeId) :
    process.Holds id ↔ ∃ position : Fin Config.maxHandles,
      process.handles[position] = some id := by
  rw [Holds, Vector.mem_iff_getElem]
  constructor
  · rintro ⟨position, inside, here⟩
    exact ⟨⟨position, inside⟩, here⟩
  · rintro ⟨position, here⟩
    exact ⟨position, position.isLt, here⟩

theorem handlesOn_pos_iff (process : Process) (id : PipeId) :
    0 < process.handlesOn id ↔ process.Holds id :=
  Vector.count_pos_iff

@[simp] theorem handlesOn_noHandles {process : Process} (none_left : process.handles = noHandles)
    (id : PipeId) : process.handlesOn id = 0 := by
  rw [handlesOn, none_left]
  exact Vector.count_eq_zero.2 (by simp [noHandles])

/-- A change at one position of the handle table counts for the pipes that the handle named before
and names afterwards. -/
theorem handlesOn_set (process : Process) (position : Fin Config.maxHandles)
    (handle : Option PipeId) (id : PipeId) :
    { process with handles := process.handles.set position handle position.isLt }.handlesOn id +
        (if process.handles[position] = some id then 1 else 0) =
      process.handlesOn id + (if handle = some id then 1 else 0) := by
  have counted : (if process.handles[position] == some id then 1 else 0) ≤
      process.handles.count (some id) := Vector.boole_getElem_le_count position.isLt
  simp only [handlesOn, Vector.count_set, beq_iff_eq, getElem_position] at *
  omega

theorem handlesOn_set_of_free {process : Process} {position : Fin Config.maxHandles}
    (free : process.handles[position] = none) (named id : PipeId) :
    { process with
      handles := process.handles.set position (some named) position.isLt }.handlesOn id =
        process.handlesOn id + if named = id then 1 else 0 := by
  have counted := handlesOn_set process position (some named) id
  simpa only [free, reduceCtorEq, if_false, Nat.add_zero, Option.some.injEq] using counted

theorem eq_of_handlesOn_le_one {process : Process} {id : PipeId}
    (single : process.handlesOn id ≤ 1) {position other : Fin Config.maxHandles}
    (here : process.handles[position] = some id)
    (there : process.handles[other] = some id) : position = other := by
  apply Classical.byContradiction
  intro different
  have without := handlesOn_set process position none id
  have left : 0 < { process with
      handles := process.handles.set position none position.isLt }.handlesOn id := by
    refine (handlesOn_pos_iff _ id).2 ((holds_iff _ id).2 ⟨other, ?_⟩)
    rw [getElem_set, if_neg different]
    exact there
  simp only [here, if_true, reduceCtorEq, if_false, Nat.add_zero] at without
  omega

theorem pipeOf?_holds {process : Process} {handle : PipeHandle} {id : PipeId}
    (found : process.pipeOf? handle = some id) : process.Holds id := by
  simp only [pipeOf?, Option.bind_eq_bind, Option.bind_eq_some_iff, Option.join_eq_some_iff,
    Vector.getElem?_eq_some_iff] at found
  obtain ⟨_, _, inside, here⟩ := found
  exact (holds_iff process id).2 ⟨⟨_, inside⟩, here⟩

theorem not_holds_of_handleOn?_eq_none {process : Process} {id : PipeId}
    (unheld : process.handleOn? id = none) : ¬ process.Holds id := by
  rw [holds_iff]
  rintro ⟨position, here⟩
  rw [handleOn?, Option.map_eq_none_iff, Vector.findFinIdx?_eq_none_iff] at unheld
  exact unheld _ (Vector.getElem_mem position.isLt) (beq_iff_eq.2 here)

theorem addHandle?_eq_some {process changed : Process} {id : PipeId} {handle : PipeHandle}
    (added : process.addHandle? id = some (changed, handle)) :
    ∃ position : Fin Config.maxHandles, process.handles[position] = none ∧
      changed =
        { process with handles := process.handles.set position (some id) position.isLt } := by
  simp only [addHandle?, freeHandle?, Option.bind_eq_bind, Option.bind_eq_some_iff,
    Option.pure_def, Option.some.injEq, Prod.mk.injEq] at added
  obtain ⟨position, found, rfl, _⟩ := added
  exact ⟨position, Option.isNone_iff_eq_none.1 (of_findFinIdx?_eq_some found), rfl⟩

theorem addHandle?_isSome {process : Process} {id : PipeId}
    (room : ∃ position : Fin Config.maxHandles, process.handles[position] = none) :
    (process.addHandle? id).isSome := by
  cases found : process.freeHandle? with
  | some position =>
      simp only [addHandle?, found, Option.bind_eq_bind, Option.bind_some]
      rfl
  | none =>
      obtain ⟨position, free⟩ := room
      rw [freeHandle?, Vector.findFinIdx?_eq_none_iff] at found
      refine absurd ?_ (found _ (Vector.getElem_mem position.isLt))
      exact Option.isNone_iff_eq_none.2 free

theorem pipeOf?_ofSlot {process : Process} {id : PipeId} {position : Fin Config.maxHandles}
    (named : process.handles[position] = some id) :
    process.pipeOf? (.ofSlot position.val) = some id := by
  simp only [pipeOf?, PipeHandle.slot?_ofSlot, Option.bind_eq_bind, Option.bind_some,
    Vector.getElem?_eq_getElem position.isLt]
  exact congrArg Option.join (congrArg some named)

theorem pipeOf?_of_handleOn? {process : Process} {id : PipeId} {handle : PipeHandle}
    (found : process.handleOn? id = some handle) :
    process.pipeOf? handle = some id ∧ handle.word ≤ Config.maxHandles := by
  rw [handleOn?, Option.map_eq_some_iff] at found
  obtain ⟨position, found, rfl⟩ := found
  exact ⟨pipeOf?_ofSlot (beq_iff_eq.1 (of_findFinIdx?_eq_some found)), position.isLt⟩

theorem pipeOf?_of_addHandle? {process changed : Process} {id : PipeId} {handle : PipeHandle}
    (added : process.addHandle? id = some (changed, handle)) :
    changed.pipeOf? handle = some id ∧ handle.word ≤ Config.maxHandles := by
  simp only [addHandle?, freeHandle?, Option.bind_eq_bind, Option.bind_eq_some_iff,
    Option.pure_def, Option.some.injEq, Prod.mk.injEq] at added
  obtain ⟨position, _, rfl, rfl⟩ := added
  exact ⟨pipeOf?_ofSlot (getElem_set_self _ _ _), position.isLt⟩

theorem removeHandle?_eq_some {process changed : Process} {id : PipeId} {handle : PipeHandle}
    (removed : process.removeHandle? handle = some (changed, id)) :
    ∃ position : Fin Config.maxHandles, process.handles[position] = some id ∧
      changed = { process with handles := process.handles.set position none position.isLt } := by
  simp only [removeHandle?, Option.bind_eq_bind, Option.bind_eq_some_iff, Option.pure_def,
    Option.join_eq_some_iff, Option.some.injEq, Prod.mk.injEq, Vector.getElem?_eq_some_iff]
    at removed
  obtain ⟨slot, _, _, ⟨inside, here⟩, rfl, rfl⟩ := removed
  refine ⟨⟨slot, inside⟩, here, ?_⟩
  rw [setIfInBounds_eq_set _ inside]

end Process

namespace ProcessTable

variable {slots : Nat}

theorem pid_mem_map (processes : ProcessTable slots) (slot : Fin slots) :
    processes[slot].pid ∈ processes.toList.map (·.pid) :=
  List.mem_map_of_mem (Vector.mem_toList_iff.2 (getElem_mem _ _))

/-- The number of handles that all processes together have on a pipe. -/
def holders (processes : ProcessTable slots) (id : PipeId) : Nat :=
  processes.toList.foldr (fun process total => process.handlesOn id + total) 0

private theorem foldr_set {α : Type} (weight : α → Nat) (elements : List α) (position : Nat)
    (inside : position < elements.length) (element : α) :
    (elements.set position element).foldr (fun element total => weight element + total) 0 +
        weight elements[position] =
      elements.foldr (fun element total => weight element + total) 0 + weight element := by
  induction elements generalizing position with
  | nil => exact absurd inside (Nat.not_lt_zero _)
  | cons first rest induction =>
      cases position with
      | zero =>
          simp only [List.set_cons_zero, List.foldr_cons, List.getElem_cons_zero]
          omega
      | succ position =>
          have := induction position (Nat.lt_of_succ_lt_succ inside)
          simp only [List.set_cons_succ, List.foldr_cons, List.getElem_cons_succ]
          omega

private theorem foldr_eq_zero {α : Type} {weight : α → Nat} {elements : List α}
    (nothing : ∀ element ∈ elements, weight element = 0) :
    elements.foldr (fun element total => weight element + total) 0 = 0 := by
  induction elements with
  | nil => rfl
  | cons first rest induction =>
      obtain ⟨here, later⟩ := List.forall_mem_cons.1 nothing
      rw [List.foldr_cons, here, induction later]

theorem holders_set (processes : ProcessTable slots) (slot : Fin slots) (process : Process)
    (id : PipeId) :
    holders (processes.set slot process slot.isLt) id + processes[slot].handlesOn id =
      holders processes id + process.handlesOn id := by
  have total := foldr_set (·.handlesOn id) processes.toList slot (by simp) process
  rw [holders, Vector.toList_set]
  exact total

theorem handlesOn_le_holders (processes : ProcessTable slots) (slot : Fin slots) (id : PipeId) :
    processes[slot].handlesOn id ≤ holders processes id := by
  have without := holders_set processes slot
    { processes[slot] with handles := Process.noHandles } id
  have empty : { processes[slot] with handles := Process.noHandles }.handlesOn id = 0 :=
    Process.handlesOn_noHandles rfl id
  omega

theorem holders_eq_zero {processes : ProcessTable slots} {id : PipeId}
    (none_held : ∀ slot : Fin slots, processes[slot].handlesOn id = 0) :
    holders processes id = 0 := by
  refine foldr_eq_zero fun process inside => ?_
  rw [Vector.mem_toList_iff, Vector.mem_iff_getElem] at inside
  obtain ⟨slot, small, rfl⟩ := inside
  exact none_held ⟨slot, small⟩

theorem holders_congr {processes others : ProcessTable slots}
    (same : ∀ slot : Fin slots, others[slot].handles = processes[slot].handles) (id : PipeId) :
    holders others id = holders processes id := by
  have lists : others.toList.map (·.handles) = processes.toList.map (·.handles) := by
    apply List.ext_getElem
    · simp
    · intro slot small _
      simp only [List.length_map, Vector.length_toList] at small
      simp only [List.getElem_map, Vector.getElem_toList]
      exact same ⟨slot, small⟩
  have count (processes : ProcessTable slots) : holders processes id =
      (processes.toList.map (·.handles)).foldr (fun handles total =>
        handles.count (some id) + total) 0 := by
    rw [List.foldr_map]
    rfl
  rw [count, count, lists]

end ProcessTable

namespace PipeTable

variable {table : PipeTable} {id : PipeId}

theorem index_lt_of_get?_eq_some {pipe : Pipe} (found : table.get? id = some pipe) :
    id.index < Config.maxPipes := by
  rw [get?, Option.join_eq_some_iff, Vector.getElem?_eq_some_iff] at found
  exact found.1

theorem get?_put (pipe : Option Pipe) (inside : id.index < Config.maxPipes) (other : PipeId) :
    (table.put id pipe).get? other = if other = id then pipe else table.get? other := by
  simp only [get?, put, Vector.getElem?_setIfInBounds]
  by_cases same : other = id
  · subst same
    simp [inside]
  · have distinct : id.index ≠ other.index := by
      rcases id with ⟨index⟩
      rcases other with ⟨place⟩
      simpa [eq_comm] using same
    rw [if_neg distinct, if_neg same]

theorem create?_eq_some {larger : PipeTable} {owner : Pid} {name : List UInt8}
    (created : table.create? owner name = some (larger, id)) :
    table.get? id = none ∧
      id.index < Config.maxPipes ∧ larger = table.put id (some (.create owner name)) := by
  simp only [create?, Option.bind_eq_bind, Option.bind_eq_some_iff, Option.pure_def,
    Option.some.injEq, Prod.mk.injEq] at created
  obtain ⟨slot, found, rfl, rfl⟩ := created
  have free := Option.isNone_iff_eq_none.1 (of_findFinIdx?_eq_some found)
  refine ⟨?_, slot.isLt, ?_⟩
  · rw [get?, Vector.getElem?_eq_getElem slot.isLt]
    exact free
  · rw [put, setIfInBounds_eq_set _ slot.isLt]

/-- Whether a pipe is open, and a process has given it a name. -/
def Names (table : PipeTable) (id : PipeId) (owner : Pid) (name : List UInt8) : Prop :=
  ∃ pipe, table.get? id = some pipe ∧ pipe.hungUp = false ∧ pipe.owner = owner ∧ pipe.name = name

theorem lookup?_eq_some {owner : Pid} {name : List UInt8}
    (found : table.lookup? owner name = some id) : table.Names id owner name := by
  simp only [lookup?, Option.map_eq_some_iff] at found
  obtain ⟨slot, found, rfl⟩ := found
  have named := of_findFinIdx?_eq_some found
  simp only [Option.any_eq_true, Pipe.isNamed, Bool.and_eq_true, Bool.not_eq_true', beq_iff_eq]
    at named
  obtain ⟨pipe, here, ⟨hungUp, owned⟩, same⟩ := named
  refine ⟨pipe, ?_, hungUp, owned, same⟩
  rw [get?, Vector.getElem?_eq_getElem slot.isLt]
  exact here ▸ rfl

theorem not_names_of_lookup?_eq_none {owner : Pid} {name : List UInt8}
    (absent : table.lookup? owner name = none) : ¬ table.Names id owner name := by
  rintro ⟨pipe, found, hungUp, rfl, rfl⟩
  rw [get?, Option.join_eq_some_iff, Vector.getElem?_eq_some_iff] at found
  obtain ⟨inside, here⟩ := found
  rw [lookup?, Option.map_eq_none_iff, Vector.findFinIdx?_eq_none_iff] at absent
  refine absent _ (Vector.getElem_mem inside) ?_
  simp [here, Pipe.isNamed, hungUp]

end PipeTable
end Microkernel
