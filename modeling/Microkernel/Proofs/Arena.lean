import Microkernel.Arena

/-!
# What an arena hands out

An arena hands out the pages behind those that it has handed out before, if they end before its
bound.  Arithmetic never gets in the way of this as long as the bound is a word.
-/

namespace Microkernel
namespace Arena

variable {space : AddressSpace} {arena after : Arena space} {first : Address space} {pages : Nat}

theorem pagesAfter?_eq_some_iff (address pages stop : Nat) :
    pagesAfter? address pages = some stop ↔
      address + pages * Config.pageSize < Word.limit ∧
        address + pages * Config.pageSize = stop := by
  simp only [pagesAfter?, Option.bind_eq_bind, Option.bind_eq_some_iff,
    Word.product?_eq_some_iff, Word.sum?_eq_some_iff]
  constructor
  · rintro ⟨_, ⟨_, rfl⟩, fits, same⟩
    exact ⟨fits, same⟩
  · rintro ⟨fits, same⟩
    exact ⟨_, ⟨by omega, rfl⟩, fits, same⟩

theorem of_allocate?_eq_some (found : arena.allocate? pages = some (after, first)) :
    after = { arena with allocated := arena.allocated + pages } ∧
      first = ⟨arena.base.value + arena.allocated * Config.pageSize⟩ ∧
        arena.base.value + arena.allocated * Config.pageSize + pages * Config.pageSize <
          arena.bound.value := by
  simp only [allocate?, Option.bind_eq_bind, Option.bind_eq_some_iff, pagesAfter?_eq_some_iff,
    Option.ite_none_left_eq_some, Option.pure_def, Option.some.injEq, Prod.mk.injEq] at found
  obtain ⟨_, ⟨_, rfl⟩, _, ⟨_, rfl⟩, room, rfl, rfl⟩ := found
  exact ⟨rfl, rfl, Nat.lt_of_not_le room⟩

/-- An arena hands out its next pages exactly if they end before its bound. -/
theorem allocate?_eq (arena : Arena space) (pages : Nat)
    (word : arena.bound.value ≤ Word.limit) :
    arena.allocate? pages =
      if arena.base.value + arena.allocated * Config.pageSize + pages * Config.pageSize <
          arena.bound.value then
        some ({ arena with allocated := arena.allocated + pages },
          ⟨arena.base.value + arena.allocated * Config.pageSize⟩)
      else none := by
  by_cases fits : arena.base.value + arena.allocated * Config.pageSize + pages * Config.pageSize <
      arena.bound.value
  case pos =>
    have start := (pagesAfter?_eq_some_iff arena.base.value arena.allocated _).2
      ⟨by omega, rfl⟩
    have stop := (pagesAfter?_eq_some_iff
      (arena.base.value + arena.allocated * Config.pageSize) pages _).2 ⟨by omega, rfl⟩
    simp only [allocate?, start, stop, Option.bind_eq_bind, Option.bind_some,
      if_neg (Nat.not_le.2 fits), if_pos fits]
    rfl
  case neg =>
    rw [if_neg fits, Option.eq_none_iff_forall_ne_some]
    rintro ⟨_, _⟩ found
    exact fits (of_allocate?_eq_some found).2.2

/-! ## Where an arena stands -/

/-- The number of the address from which an arena hands out pages. -/
def cursor (arena : Arena space) : Nat :=
  arena.base.value + arena.allocated * Config.pageSize

theorem stop_eq (inside : arena.cursor < Word.limit) : arena.stop = .ok ⟨arena.cursor⟩ := by
  rw [cursor] at inside
  have product : Word.product arena.allocated Config.pageSize =
      .ok (arena.allocated * Config.pageSize) :=
    (Word.product_eq_ok_iff _ _ _).2 ⟨by omega, rfl⟩
  have sum : Word.sum arena.base.value (arena.allocated * Config.pageSize) =
      .ok (arena.base.value + arena.allocated * Config.pageSize) :=
    (Word.sum_eq_ok_iff _ _ _).2 ⟨inside, rfl⟩
  simp only [stop, product, sum, bind, Except.bind]
  rfl

/-- Whether an arena has handed out no more than it holds, and its bound is a word. -/
structure Sound (arena : Arena space) : Prop where
  cursor_le : arena.cursor ≤ arena.bound.value
  bound_lt : arena.bound.value < Word.limit

/-- No product or sum leaves the words while an arena decides on a request: what it hands out
depends on the numbers alone. -/
theorem Sound.allocate?_eq (sound : arena.Sound) (pages : Nat) :
    arena.allocate? pages =
      if arena.bound.value ≤ arena.base.value + (arena.allocated + pages) * Config.pageSize then
        none
      else some ({ arena with allocated := arena.allocated + pages }, ⟨arena.cursor⟩) := by
  rw [Arena.allocate?_eq arena pages (Nat.le_of_lt sound.bound_lt), Nat.add_mul, ← Nat.add_assoc]
  by_cases full : arena.bound.value ≤
      arena.base.value + arena.allocated * Config.pageSize + pages * Config.pageSize
  case pos => rw [if_pos full, if_neg (Nat.not_lt.2 full)]
  case neg => rw [if_neg full, if_pos (Nat.lt_of_not_le full), cursor]

/-! ## Requests in turn -/

/-- A run of pages that was handed out. -/
structure Grant where
  /-- The number of its first address. -/
  first : Nat
  pages : Nat
  deriving DecidableEq, Repr

/-- The number of the first address behind a run. -/
def Grant.stop (grant : Grant) : Nat :=
  grant.first + grant.pages * Config.pageSize

/-- The number of pages in some runs. -/
def pagesIn : List Grant → Nat
  | [] => 0
  | grant :: rest => grant.pages + pagesIn rest

theorem pagesIn_append (grants rest : List Grant) :
    pagesIn (grants ++ rest) = pagesIn grants + pagesIn rest := by
  induction grants with
  | nil => rw [List.nil_append, pagesIn, Nat.zero_add]
  | cons grant others ih => rw [List.cons_append, pagesIn, ih, pagesIn, Nat.add_assoc]

/-- Whether runs follow one another without a gap from one address to another. -/
def InRow : (start : Nat) → List Grant → (stop : Nat) → Prop
  | start, [], stop => start = stop
  | start, grant :: rest, stop => grant.first = start ∧ InRow grant.stop rest stop

theorem InRow.append {start middle stop : Nat} {grants rest : List Grant}
    (before : InRow start grants middle) (behind : InRow middle rest stop) :
    InRow start (grants ++ rest) stop := by
  induction grants generalizing start with
  | nil =>
      cases before
      exact behind
  | cons grant grants ih => exact ⟨before.1, ih before.2⟩

theorem InRow.start_le {start stop : Nat} {grants : List Grant} (row : InRow start grants stop)
    {grant : Grant} (member : grant ∈ grants) : start ≤ grant.first := by
  induction grants generalizing start with
  | nil => cases member
  | cons head rest ih =>
      cases member with
      | head => exact Nat.le_of_eq row.1.symm
      | tail _ later =>
          have behind : head.first + head.pages * Config.pageSize ≤ grant.first := ih row.2 later
          have begins := row.1
          omega

theorem InRow.pairwise {start stop : Nat} {grants : List Grant} (row : InRow start grants stop) :
    grants.Pairwise (·.stop ≤ ·.first) := by
  induction grants generalizing start with
  | nil => exact .nil
  | cons grant rest ih => exact .cons (fun _ later => row.2.start_le later) (ih row.2)

/-- An arena and the address space that it is in. -/
structure Located where
  space : AddressSpace
  arena : Arena space
  deriving Repr

/-- What can be asked of an arena. -/
inductive Request where
  /-- A run of pages. -/
  | allocate (pages : Nat)
  /-- The same range in another address space. -/
  | relocate (target : AddressSpace)
  deriving DecidableEq, Repr

namespace Located

/-- What an arena becomes by a request, and what it hands out. -/
def serve (located : Located) : Request → Located × Option Grant
  | .allocate pages =>
      match located.arena.allocate? pages with
      | some (after, first) => (⟨located.space, after⟩, some ⟨first.value, pages⟩)
      | none => (located, none)
  | .relocate target =>
      (⟨target, located.arena.relocate fun address => ⟨address.value⟩⟩, none)

/-- What an arena becomes by requests in turn, and what it hands out. -/
def serveAll (located : Located) : List Request → Located × List Grant
  | [] => (located, [])
  | request :: rest =>
      let (next, grant) := located.serve request
      let (last, grants) := next.serveAll rest
      (last, grant.toList ++ grants)

/-- Whether an arena is another one after it has handed out some runs: the runs lie in a row between
the two, inside the range and before the bound, and their pages are counted. -/
structure Advances (before : Located) (grants : List Grant) (after : Located) : Prop where
  base_eq : after.arena.base.value = before.arena.base.value
  bound_eq : after.arena.bound.value = before.arena.bound.value
  allocated_eq : after.arena.allocated = before.arena.allocated + pagesIn grants
  row : InRow before.arena.cursor grants after.arena.cursor
  within : ∀ grant ∈ grants, before.arena.base.value ≤ grant.first ∧
    grant.stop < before.arena.bound.value

variable {before between after : Located} {grants rest : List Grant}

theorem Advances.refl (located : Located) : located.Advances [] located where
  base_eq := rfl
  bound_eq := rfl
  allocated_eq := rfl
  row := rfl
  within := nofun

theorem Advances.trans (first : before.Advances grants between)
    (second : between.Advances rest after) : before.Advances (grants ++ rest) after where
  base_eq := second.base_eq.trans first.base_eq
  bound_eq := second.bound_eq.trans first.bound_eq
  allocated_eq := by
    rw [second.allocated_eq, first.allocated_eq, pagesIn_append, Nat.add_assoc]
  row := first.row.append second.row
  within grant member := by
    rcases List.mem_append.1 member with early | late
    · exact first.within grant early
    · rw [← first.base_eq, ← first.bound_eq]
      exact second.within grant late

/-- A request for pages is refused exactly if they would reach the bound as numbers. -/
theorem serve_allocate {located : Located} (sound : located.arena.Sound) (pages : Nat) :
    located.serve (.allocate pages) =
      if located.arena.bound.value ≤
          located.arena.base.value + (located.arena.allocated + pages) * Config.pageSize then
        (located, none)
      else
        (⟨located.space,
            { located.arena with allocated := located.arena.allocated + pages }⟩,
          some ⟨located.arena.cursor, pages⟩) := by
  rw [serve, sound.allocate?_eq]
  by_cases full : located.arena.bound.value ≤
      located.arena.base.value + (located.arena.allocated + pages) * Config.pageSize
  case pos => rw [if_pos full, if_pos full]
  case neg => rw [if_neg full, if_neg full]

/-- One request advances the arena by what it is answered with, and leaves it sound. -/
theorem advances_serve (sound : before.arena.Sound) (request : Request) :
    before.Advances (before.serve request).2.toList (before.serve request).1 ∧
      (before.serve request).1.arena.Sound := by
  cases request with
  | allocate pages =>
      rw [serve_allocate sound]
      by_cases full : before.arena.bound.value ≤
          before.arena.base.value + (before.arena.allocated + pages) * Config.pageSize
      case pos =>
        rw [if_pos full]
        exact ⟨.refl before, sound⟩
      case neg =>
        rw [if_neg full]
        have fits := Nat.lt_of_not_le full
        have grown : before.arena.cursor + pages * Config.pageSize =
            before.arena.base.value + (before.arena.allocated + pages) * Config.pageSize := by
          rw [cursor, Nat.add_mul, Nat.add_assoc]
        constructor
        case left =>
          exact {
            base_eq := rfl
            bound_eq := rfl
            allocated_eq := rfl
            row := ⟨rfl, grown⟩
            within := by
              intro grant member
              cases List.mem_singleton.1 member
              exact ⟨Nat.le_add_right _ _, by rwa [Grant.stop, grown]⟩ }
        case right => exact ⟨Nat.le_of_lt fits, sound.bound_lt⟩
  | relocate target => exact ⟨⟨rfl, rfl, rfl, rfl, nofun⟩, sound.cursor_le, sound.bound_lt⟩

theorem advances_serveAll (sound : before.arena.Sound) (requests : List Request) :
    before.Advances (before.serveAll requests).2 (before.serveAll requests).1 ∧
      (before.serveAll requests).1.arena.Sound := by
  induction requests generalizing before with
  | nil => exact ⟨.refl before, sound⟩
  | cons request rest ih =>
      have ⟨step, sound_next⟩ := advances_serve sound request
      have ⟨steps, sound_last⟩ := ih sound_next
      exact ⟨step.trans steps, sound_last⟩

/-- An arena hands out its range once and never leaves it, whatever it is asked for in turn and
however often it moves to another address space.  The runs follow one another from where the arena
stood, so no two of them meet, and end before the bound.  At every time the arena can tell where it
stands, its count is a word, and a request is refused exactly if the pages would reach the bound as
numbers. -/
theorem serves_in_row (start : Located) (requests : List Request)
    (room : start.arena.base.value + start.arena.allocated * Config.pageSize ≤
      start.arena.bound.value)
    (word : start.arena.bound.value < Word.limit) :
    let (after, grants) := start.serveAll requests
    let stop := after.arena.base.value + after.arena.allocated * Config.pageSize
    start.Advances grants after ∧
      grants.Pairwise (·.stop ≤ ·.first) ∧
      stop ≤ after.arena.bound.value ∧
      after.arena.allocated < Word.limit ∧
      after.arena.stop = .ok ⟨stop⟩ ∧
      ∀ pages, after.serve (.allocate pages) =
        if after.arena.bound.value ≤
            after.arena.base.value + (after.arena.allocated + pages) * Config.pageSize then
          (after, none)
        else
          (⟨after.space, { after.arena with allocated := after.arena.allocated + pages }⟩,
            some ⟨stop, pages⟩) := by
  have ⟨advances, sound⟩ := advances_serveAll ⟨room, word⟩ requests
  have cursor_lt := Nat.lt_of_le_of_lt sound.cursor_le sound.bound_lt
  have count_le : (start.serveAll requests).1.arena.allocated ≤
      (start.serveAll requests).1.arena.cursor := by
    rw [cursor, Config.pageSize]
    omega
  exact ⟨advances, advances.row.pairwise, sound.cursor_le, Nat.lt_of_le_of_lt count_le cursor_lt,
    stop_eq cursor_lt, serve_allocate sound⟩

/-- Of five pages that are left, two are handed out before and two after the arena becomes virtual;
the last one is never handed out. -/
theorem serves_in_row_across :
    let start : Located :=
      ⟨.physical, { base := ⟨0x1000⟩, allocated := 3, bound := ⟨0x9000⟩ }⟩
    let requests : List Request :=
      [.allocate 2, .allocate (Word.limit - 1), .allocate 0, .relocate .virtual, .allocate 3,
        .allocate 2]
    (start.serveAll requests).2 = [⟨0x4000, 2⟩, ⟨0x6000, 0⟩, ⟨0x6000, 2⟩] ∧
      start.Advances (start.serveAll requests).2 (start.serveAll requests).1 := by
  constructor
  · decide
  · exact (serves_in_row _ _ (by decide) (by decide)).1

end Located

end Arena
end Microkernel
