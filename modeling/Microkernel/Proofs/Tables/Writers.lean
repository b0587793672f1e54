import Microkernel.Proofs.Tables.LettingGo
import Microkernel.Proofs.Tables.Obtain
import Mathlib.Data.List.Perm.Basic

/-!
# One handle per pipe, and the writers of a pipe

A process has at most one handle on a pipe, and a pipe lists each process that has written to it
once, as long as the process holds it.  This is `Tables.Tidy`.  Each change of the tables that the
kernel makes keeps it.
-/

namespace Microkernel

namespace Pipe

/-- Removing an element whose place the last one takes leaves the others. -/
theorem cons_swapRemove_perm {writers : List Pid} {position : Nat}
    (inside : position < writers.length) :
    (writers[position] :: swapRemove writers position).Perm writers := by
  obtain rfl | ⟨front, last, rfl⟩ := writers.eq_nil_or_concat'
  · exact absurd inside (Nat.not_lt_zero _)
  · simp only [swapRemove, List.getLast?_concat, List.set_append]
    split
    next early =>
        rw [List.dropLast_concat, List.getElem_append_left early]
        calc (front[position] :: front.set position last).Perm
              (front[position] :: last :: front.eraseIdx position) :=
              (List.set_perm_cons_eraseIdx early last).cons _
          _ |>.Perm (last :: front[position] :: front.eraseIdx position) := .swap ..
          _ |>.Perm (last :: front) := (List.getElem_cons_eraseIdx_perm early).cons _
          _ |>.Perm (front ++ [last]) := (List.perm_append_singleton _ _).symm
    next late =>
        have here : position = front.length := by
          simp only [List.length_append, List.length_singleton] at inside
          omega
        subst here
        rw [Nat.sub_self, List.set_cons_zero, List.dropLast_concat,
          List.getElem_append_right (Nat.le_refl _)]
        simpa using (List.perm_append_singleton last front).symm

variable {pipe : Pipe}

theorem dropWriter_cases (pipe : Pipe) (writer : Pid) :
    (writer ∉ pipe.writers ∧ pipe.dropWriter writer = (pipe, false)) ∨
    ((writer :: (pipe.dropWriter writer).1.writers).Perm pipe.writers ∧
      (pipe.dropWriter writer).2 = (pipe.dropWriter writer).1.writers.isEmpty) := by
  rw [dropWriter]
  split
  next position found =>
      obtain ⟨inside, here, _⟩ := List.findIdx?_eq_some_iff_getElem.1 found
      have perm := cons_swapRemove_perm inside
      rw [beq_iff_eq.1 here] at perm
      exact .inr ⟨perm, rfl⟩
  next unlisted =>
      rw [List.findIdx?_eq_none_iff] at unlisted
      exact .inl ⟨fun listed => by simpa using unlisted writer listed, rfl⟩

/-- A writer that is dropped is gone if it was listed once, and the others are left. -/
theorem mem_dropWriter_iff (distinct : pipe.writers.Nodup) (writer other : Pid) :
    other ∈ (pipe.dropWriter writer).1.writers ↔ other ∈ pipe.writers ∧ other ≠ writer := by
  rcases pipe.dropWriter_cases writer with ⟨unlisted, same⟩ | ⟨perm, _⟩
  · rw [same]
    refine ⟨fun listed => ⟨listed, ?_⟩, And.left⟩
    rintro rfl
    exact unlisted listed
  · have gone := (List.nodup_cons.1 (perm.nodup_iff.2 distinct)).1
    rw [← perm.mem_iff, List.mem_cons]
    constructor
    · intro listed
      refine ⟨.inr listed, ?_⟩
      rintro rfl
      exact gone listed
    · rintro ⟨rfl | listed, different⟩
      · exact absurd rfl different
      · exact listed

/-- Dropping a writer leaves none just if it was the only one. -/
theorem dropWriter_last_iff (distinct : pipe.writers.Nodup) (writer : Pid) :
    (pipe.dropWriter writer).2 = true ↔
      writer ∈ pipe.writers ∧ ∀ other ∈ pipe.writers, other = writer := by
  rcases pipe.dropWriter_cases writer with ⟨unlisted, same⟩ | ⟨perm, last⟩
  · rw [same]
    exact iff_of_false Bool.false_ne_true fun listed => unlisted listed.1
  · have listed : writer ∈ pipe.writers := perm.mem_iff.1 List.mem_cons_self
    rw [last, List.isEmpty_iff, List.eq_nil_iff_forall_not_mem]
    simp only [mem_dropWriter_iff distinct, not_and, ne_eq, Classical.not_not, listed, true_and]

theorem dropWriter_listed (distinct : pipe.writers.Nodup) (writer : Pid) :
    (pipe.dropWriter writer).1.writers.Nodup ∧
      (pipe.dropWriter writer).1.writers.length ≤ pipe.writers.length := by
  rcases pipe.dropWriter_cases writer with ⟨_, same⟩ | ⟨perm, _⟩
  · rw [same]
    exact ⟨distinct, Nat.le_refl _⟩
  · refine ⟨(List.nodup_cons.1 (perm.nodup_iff.2 distinct)).2, ?_⟩
    have lengths := perm.length_eq
    rw [List.length_cons] at lengths
    exact Nat.le_of_succ_le (Nat.le_of_eq lengths)

theorem noteWriter_named (pipe : Pipe) (writer : Pid) :
    (pipe.noteWriter writer).owner = pipe.owner ∧ (pipe.noteWriter writer).name = pipe.name := by
  rw [noteWriter]
  split
  · exact ⟨rfl, rfl⟩
  · exact ⟨rfl, rfl⟩

theorem noteWriter_eq {writer : Pid}
    (room : writer ∉ pipe.writers → pipe.writers.length < Config.maxProcesses) :
    pipe.noteWriter writer = { pipe with
      writers := if writer ∈ pipe.writers then pipe.writers else pipe.writers ++ [writer] } := by
  by_cases listed : writer ∈ pipe.writers
  · rw [noteWriter, if_pos listed, if_pos]
    simp [listed]
  · have fits := room listed
    rw [noteWriter, if_neg listed, if_neg]
    simp only [Bool.or_eq_true, List.contains_iff_mem, decide_eq_true_eq, not_or, Nat.not_le]
    exact ⟨listed, fits⟩

theorem mem_noteWriter_iff {writer : Pid}
    (room : writer ∉ pipe.writers → pipe.writers.length < Config.maxProcesses) (other : Pid) :
    other ∈ (pipe.noteWriter writer).writers ↔ other ∈ pipe.writers ∨ other = writer := by
  rw [noteWriter_eq room]
  split
  next listed =>
      refine ⟨.inl, ?_⟩
      rintro (here | rfl)
      · exact here
      · exact listed
  next => simp

/-- A writer that is noted is listed once, if it fits on the list. -/
theorem noteWriter_listed (distinct : pipe.writers.Nodup)
    (few : pipe.writers.length ≤ Config.maxProcesses) (writer : Pid) :
    (pipe.noteWriter writer).writers.Nodup ∧
      (pipe.noteWriter writer).writers.length ≤ Config.maxProcesses ∧
      ∀ other ∈ (pipe.noteWriter writer).writers, other ∈ pipe.writers ∨ other = writer := by
  rw [noteWriter]
  split
  next => exact ⟨distinct, few, fun other member => .inl member⟩
  next unlisted =>
      simp only [Bool.or_eq_true, List.contains_iff_mem, decide_eq_true_eq, not_or, Nat.not_le]
        at unlisted
      refine ⟨?_, ?_, fun other member => ?_⟩
      · rw [List.nodup_append]
        refine ⟨distinct, List.pairwise_singleton _ _, fun one member another alone => ?_⟩
        rw [List.mem_singleton.1 alone]
        rintro rfl
        exact unlisted.1 member
      · rw [List.length_append, List.length_singleton]
        exact unlisted.2
      · simpa using member

end Pipe

variable {slots : Nat}

/-- Whether a list of writers is one that a pipe can have: every process on it holds the pipe and is
listed once. -/
structure ProcessTable.Lists (processes : ProcessTable slots) (id : PipeId)
    (writers : List Pid) : Prop where
  /-- Nobody is listed twice. -/
  distinct : writers.Nodup
  /-- The list has room for its writers. -/
  few : writers.length ≤ Config.maxProcesses
  /-- Whoever is listed holds the pipe. -/
  hold : ∀ writer ∈ writers, ∃ slot : Fin slots,
    processes[slot].pid = writer ∧ processes[slot].Holds id

namespace ProcessTable

variable {processes others : ProcessTable slots} {id : PipeId} {writers : List Pid}

theorem Lists.mono (lists : processes.Lists id writers)
    (keeps : ∀ slot : Fin slots, processes[slot].Holds id →
      others[slot].Holds id ∧ others[slot].pid = processes[slot].pid) :
    others.Lists id writers where
  distinct := lists.distinct
  few := lists.few
  hold writer listed := by
    obtain ⟨slot, named, holds⟩ := lists.hold writer listed
    obtain ⟨still_holds, same⟩ := keeps slot holds
    exact ⟨slot, same.trans named, still_holds⟩

theorem Lists.subset (lists : processes.Lists id writers) :
    writers ⊆ processes.toList.map (·.pid) := by
  intro writer listed
  obtain ⟨slot, rfl, _⟩ := lists.hold writer listed
  exact processes.pid_mem_map slot

theorem Lists.length_le (lists : processes.Lists id writers) : writers.length ≤ slots := by
  simpa using (List.subperm_of_subset lists.distinct lists.subset).length_le

theorem Lists.length_lt (lists : processes.Lists id writers) {slot : Fin slots}
    (unlisted : processes[slot].pid ∉ writers) : writers.length < slots := by
  have distinct := List.nodup_cons.2 ⟨unlisted, lists.distinct⟩
  have among := List.cons_subset.2 ⟨processes.pid_mem_map slot, lists.subset⟩
  have lengths := (List.subperm_of_subset distinct among).length_le
  simp only [List.length_cons, List.length_map, Vector.length_toList] at lengths
  exact lengths

end ProcessTable

namespace Tables

/-- Whether no process has two handles on one pipe, and every pipe lists as writers processes that
hold it, each of them once. -/
structure Tidy (tables : Tables slots) : Prop where
  /-- Nobody has two handles on one pipe. -/
  single : ∀ (slot : Fin slots) (id : PipeId), tables.processes[slot].handlesOn id ≤ 1
  /-- Every pipe lists its writers. -/
  listed : ∀ id pipe, tables.pipes.get? id = some pipe →
    tables.processes.Lists id pipe.writers

variable {tables after reaped : Tables slots} {holder caller slot : Fin slots}
  {id : PipeId} {pipe : Pipe} {position : Fin Config.maxHandles} {hint : Hint}

/-! ## Changes of processes and of pipes -/

/-- Processes can change in all that is not their name or a handle. -/
theorem Tidy.congr (tidy : tables.Tidy) {processes : ProcessTable slots}
    (same : ∀ slot : Fin slots, processes[slot].handles = tables.processes[slot].handles ∧
      processes[slot].pid = tables.processes[slot].pid) :
    Tidy { tables with processes } where
  single slot id := by
    rw [Process.handlesOn, (same slot).1]
    exact tidy.single slot id
  listed id pipe found := (tidy.listed id pipe found).mono fun slot holds => by
    rw [Process.Holds, (same slot).1]
    exact ⟨holds, (same slot).2⟩

theorem Tidy.set (tidy : tables.Tidy) (slot : Fin slots) (process : Process)
    (single : ∀ id, process.handlesOn id ≤ 1)
    (keeps : ∀ id, tables.processes[slot].Holds id →
      process.Holds id ∧ process.pid = tables.processes[slot].pid) :
    Tidy { tables with processes := tables.processes.set slot process slot.isLt } where
  single other id := by
    rw [getElem_set]
    split
    · exact single id
    · exact tidy.single other id
  listed id pipe found := (tidy.listed id pipe found).mono fun other holds => by
    rw [getElem_set]
    split
    next same =>
        subst same
        exact keeps id holds
    next => exact ⟨holds, rfl⟩

theorem Tidy.retain (tidy : tables.Tidy) (slot : Fin slots) (process : Process)
    (handles : process.handles = tables.processes[slot].handles)
    (pid : process.pid = tables.processes[slot].pid) :
    Tidy { tables with processes := tables.processes.set slot process slot.isLt } := by
  refine tidy.set slot _ (fun id => ?_) fun id holds => ⟨?_, pid⟩
  · rw [Process.handlesOn, handles]
    exact tidy.single slot id
  · rw [Process.Holds, handles]
    exact holds

theorem Tidy.wake (tidy : tables.Tidy) (blocked : ProcessState → Bool) :
    Tidy { tables with processes := tables.processes.map (·.wakeIf blocked) } := by
  refine tidy.congr fun slot => ?_
  rw [getElem_map]
  exact ⟨Process.wakeIf_handles .., Process.wakeIf_pid ..⟩

theorem Tidy.rousedTo (tidy : tables.Tidy) {woken : ProcessTable slots}
    (roused : tables.processes.RousedTo woken) : Tidy { tables with processes := woken } := by
  refine tidy.congr fun slot => ?_
  rcases roused slot with same | ⟨_, same⟩
  · rw [same]
    exact ⟨rfl, rfl⟩
  · rw [same]
    exact ⟨rfl, rfl⟩

theorem Tidy.put (tidy : tables.Tidy) (inside : id.index < Config.maxPipes) {left : Option Pipe}
    (lists : ∀ kept, left = some kept → tables.processes.Lists id kept.writers) :
    Tidy { tables with pipes := tables.pipes.put id left } where
  single := tidy.single
  listed other kept found := by
    rw [PipeTable.get?_put _ inside] at found
    split at found
    next same => exact same ▸ lists kept found
    next => exact tidy.listed other kept found

theorem Tidy.exchange (tidy : tables.Tidy) (found : tables.pipes.get? id = some pipe)
    {changed : Pipe} (writers : changed.writers = pipe.writers) :
    Tidy { tables with pipes := tables.pipes.put id (some changed) } := by
  refine tidy.put (PipeTable.index_lt_of_get?_eq_some found) ?_
  rintro _ ⟨⟩
  rw [writers]
  exact tidy.listed id pipe found

theorem Tidy.note (tidy : tables.Tidy) (found : tables.pipes.get? id = some pipe)
    (holds : tables.processes[caller].Holds id) (changed : Pipe)
    (writers : changed.writers = (pipe.noteWriter tables.processes[caller].pid).writers) :
    Tidy { tables with pipes := tables.pipes.put id (some changed) } := by
  refine tidy.put (PipeTable.index_lt_of_get?_eq_some found) ?_
  rintro _ ⟨⟩
  have lists := tidy.listed id pipe found
  obtain ⟨distinct, few, among⟩ :=
    Pipe.noteWriter_listed lists.distinct lists.few tables.processes[caller].pid
  rw [writers]
  refine ⟨distinct, few, fun writer listed => ?_⟩
  rcases among writer listed with known | rfl
  · exact lists.hold writer known
  · exact ⟨caller, rfl, holds⟩

/-! ## Obtaining a pipe -/

theorem Tidy.addHandle (tidy : tables.Tidy)
    (free : tables.processes[caller].handles[position] = none)
    (unheld : ¬ tables.processes[caller].Holds id) (inside : id.index < Config.maxPipes)
    (writers : pipe.writers = [] ∨
      ∃ shared, tables.pipes.get? id = some shared ∧ pipe.writers = shared.writers) :
    (tables.addHandle caller position id pipe).Tidy := by
  have count := Process.handlesOn_set_of_free free id
  have none_before : tables.processes[caller].handlesOn id = 0 :=
    Nat.eq_zero_of_not_pos fun some_handle =>
      unheld ((Process.handlesOn_pos_iff _ _).1 some_handle)
  have tidied : Tidy { tables with
      processes := tables.processes.set caller { tables.processes[caller] with
        handles := tables.processes[caller].handles.set position (some id) position.isLt } } := by
    refine tidy.set caller _ (fun other => ?_) fun other holds => ⟨?_, rfl⟩
    · have one := tidy.single caller other
      rw [count]
      split
      next same =>
          subst same
          omega
      next => omega
    · rw [← Process.handlesOn_pos_iff] at holds ⊢
      rw [count]
      omega
  refine tidied.put inside ?_
  rintro _ ⟨⟩
  rcases writers with none_listed | ⟨shared, found, same⟩
  · rw [none_listed]
    exact ⟨List.nodup_nil, Nat.zero_le _, fun _ listed => absurd listed List.not_mem_nil⟩
  · rw [same]
    exact tidied.listed id shared found

/-! ## Letting go -/

theorem pid_dropHandle (slot : Fin slots) :
    (tables.dropHandle holder position).processes[slot].pid = tables.processes[slot].pid := by
  rw [getElem_dropHandle]
  split
  · rfl
  · rfl

theorem handlesOn_dropHandle_le (slot : Fin slots) (other : PipeId) :
    (tables.dropHandle holder position).processes[slot].handlesOn other ≤
      tables.processes[slot].handlesOn other := by
  rw [getElem_dropHandle]
  split
  · have counted := Process.handlesOn_set tables.processes[slot] position none other
    change (tables.processes[slot].dropHandle position).handlesOn other + _ = _ at counted
    simp only [reduceCtorEq, if_false, Nat.add_zero] at counted
    omega
  · exact Nat.le_refl _

/-- When a process drops a handle, the handles of all others are kept, and those on other pipes. -/
theorem holds_dropHandle (named : tables.processes[holder].handles[position] = some id)
    {slot : Fin slots} {other : PipeId} (apart : slot ≠ holder ∨ other ≠ id)
    (holds : tables.processes[slot].Holds other) :
    (tables.dropHandle holder position).processes[slot].Holds other := by
  rw [getElem_dropHandle]
  split
  next same =>
      subst same
      have different := apart.resolve_left fun differs => differs rfl
      rw [Process.holds_iff] at holds ⊢
      obtain ⟨place, here⟩ := holds
      refine ⟨place, ?_⟩
      rw [Process.dropHandle, getElem_set, if_neg, here]
      rintro rfl
      rw [here] at named
      cases named
      exact different rfl
  next => exact holds

theorem listed_dropHandle (named : tables.processes[holder].handles[position] = some id)
    (lists : tables.processes.Lists id pipe.writers) :
    (tables.dropHandle holder position).processes.Lists id
      (pipe.dropWriter tables.processes[holder].pid).1.writers := by
  obtain ⟨distinct, shorter⟩ :=
    Pipe.dropWriter_listed lists.distinct tables.processes[holder].pid
  refine ⟨distinct, Nat.le_trans shorter lists.few, fun writer listed => ?_⟩
  obtain ⟨was_listed, different⟩ := (Pipe.mem_dropWriter_iff lists.distinct _ _).1 listed
  obtain ⟨slot, rfl, holds⟩ := lists.hold writer was_listed
  have other_slot : slot ≠ holder := by
    rintro rfl
    exact different rfl
  exact ⟨slot, pid_dropHandle slot, holds_dropHandle named (.inl other_slot) holds⟩

/-- A process that lets go of a pipe is no longer listed as one of its writers. -/
theorem Tidy.released (tidy : tables.Tidy)
    (named : tables.processes[holder].handles[position] = some id)
    (found : tables.pipes.get? id = some pipe)
    (leaves : Released (tables.dropHandle holder position) holder id pipe after hint) :
    after.Tidy := by
  have left_tidy : Tidy { tables.dropHandle holder position with
      pipes := (tables.dropHandle holder position).pipes.put id
        (pipe.letGo (tables.dropHandle holder position).processes[holder].pid) } := by
    constructor
    · exact fun slot other =>
        Nat.le_trans (handlesOn_dropHandle_le slot other) (tidy.single slot other)
    · intro other kept here
      change PipeTable.get? (tables.pipes.put id _) other = some kept at here
      rw [PipeTable.get?_put _ (PipeTable.index_lt_of_get?_eq_some found)] at here
      split at here
      next same =>
          rw [same, Pipe.letGo_eq_some here, pid_dropHandle]
          exact listed_dropHandle named (tidy.listed id pipe found)
      next different =>
          exact (tidy.listed other kept here).mono fun slot holds =>
            ⟨holds_dropHandle named (.inr different) holds, pid_dropHandle slot⟩
  cases leaves with
  | hungUp => exact left_tidy.wake _
  | quiet => exact left_tidy

theorem Tidy.reap (tidy : tables.Tidy) (run : tables.reap slot = .ok (reaped, hint)) :
    reaped.Tidy := by
  obtain ⟨released, released_tidy, rfl⟩ := reap_ok (fun released _ => released.Tidy) run tidy
    fun _ _ _ _ _ _ _ before_tidy named found leaves => before_tidy.released named found leaves
  exact released_tidy.retain slot _ rfl rfl

end Tables
end Microkernel
