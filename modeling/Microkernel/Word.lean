import Microkernel.Crash

/-!
# Machine words

Addresses, sizes and counts are natural numbers below `Word.limit`.  Sums, differences and
products come in two forms: an optional one for code that looks at the failure, and a checked one
for code in which leaving the range is a crash.  Code that knows that it stays in the range lets
sums and products wrap.
-/

namespace Microkernel

namespace Word

/-- The number of values of a machine word. -/
def limit : Nat := 0x10000000000000000

def largest : Nat := limit - 1

/-- A number, if it is a machine word. -/
def ofNat? (number : Nat) : Option Nat :=
  if number < limit then some number else none

/-- The sum of two words, if it is a word. -/
def sum? (left right : Nat) : Option Nat :=
  ofNat? (left + right)

/-- The product of two words, if it is a word. -/
def product? (left right : Nat) : Option Nat :=
  ofNat? (left * right)

/-- The difference of two words, if it is a word. -/
def difference? (left right : Nat) : Option Nat :=
  if right ≤ left then some (left - right) else none

/-- The word at a signed distance from a word, if it is a word. -/
def shift? (word : Nat) (distance : Int) : Option Nat :=
  if 0 ≤ distance then sum? word distance.toNat else difference? word distance.natAbs

/-- An optional word whose absence is an overflow. -/
def orOverflow : Option Nat → Checked Nat
  | some number => .ok number
  | none => .error .overflow

/-- The sum of two words, which the caller takes to be a word. -/
def sum (left right : Nat) : Checked Nat :=
  orOverflow (sum? left right)

/-- The product of two words, which the caller takes to be a word. -/
def product (left right : Nat) : Checked Nat :=
  orOverflow (product? left right)

/-- The difference of two words, which the caller takes to be a word. -/
def difference (left right : Nat) : Checked Nat :=
  orOverflow (difference? left right)

/-- The sum of two words, without what does not fit into a word. -/
def wrappingSum (left right : Nat) : Nat :=
  (left + right) % limit

/-- The product of two words, without what does not fit into a word. -/
def wrappingProduct (left right : Nat) : Nat :=
  (left * right) % limit

/-- The sum of two words, or the largest word if the sum is not a word. -/
def saturatingSum (left right : Nat) : Nat :=
  min (left + right) largest

/-- The signed number whose two's complement is a word. -/
def signed (word : Nat) : Int :=
  if word < limit / 2 then word else (word : Int) - limit

/-- The digits of a number in base sixteen, in lower case. -/
def hexDigits (number : Nat) : String :=
  String.ofList (Nat.toDigits 16 number)

/-- A number in base sixteen, marked as such. -/
def hexText (number : Nat) : String :=
  "0x" ++ hexDigits number

/-- A number in base sixteen, marked as such and filled with zeros up to all sixteen digits. -/
def wideHexText (number : Nat) : String :=
  let digits := Nat.toDigits 16 number
  "0x" ++ String.ofList (List.replicate (16 - digits.length) '0' ++ digits)

/-- The eight bytes of a word, the least significant one first. -/
def bytes (word : UInt64) : List UInt8 :=
  (List.range 8).map fun place => (word >>> (8 * place).toUInt64).toUInt8

/-- The number whose bytes are given, the least significant one first. -/
def ofBytes : List UInt8 → Nat
  | [] => 0
  | byte :: rest => byte.toNat + 256 * ofBytes rest

@[simp] theorem sum?_eq_some_iff (left right total : Nat) :
    sum? left right = some total ↔ left + right < limit ∧ left + right = total := by
  simp only [sum?, ofNat?]
  split <;> simp <;> omega

@[simp] theorem product?_eq_some_iff (left right total : Nat) :
    product? left right = some total ↔ left * right < limit ∧ left * right = total := by
  simp only [product?, ofNat?]
  split <;> simp <;> omega

/-- A shift is a sum over the integers. -/
theorem shift?_eq_some_iff (word moved : Nat) (distance : Int) :
    shift? word distance = some moved ↔
      (moved : Int) = word + distance ∧ (0 ≤ distance → moved < limit) := by
  rw [shift?]
  split
  next forth =>
      rw [sum?_eq_some_iff]
      constructor
      · rintro ⟨small, rfl⟩
        exact ⟨by omega, fun _ => small⟩
      · rintro ⟨sum, small⟩
        have same : word + distance.toNat = moved := by omega
        exact ⟨same ▸ small forth, same⟩
  next back =>
      simp only [difference?, Option.ite_none_right_eq_some, Option.some.injEq]
      constructor
      · rintro ⟨above, rfl⟩
        exact ⟨by omega, fun forth => absurd forth back⟩
      · rintro ⟨sum, _⟩
        exact ⟨by omega, by omega⟩

theorem wrappingSum_eq {left right : Nat} (fits : left + right ≤ largest) :
    wrappingSum left right = left + right :=
  Nat.mod_eq_of_lt (Nat.lt_of_le_of_lt fits (by decide))

theorem wrappingProduct_eq {left right : Nat} (fits : left * right ≤ largest) :
    wrappingProduct left right = left * right :=
  Nat.mod_eq_of_lt (Nat.lt_of_le_of_lt fits (by decide))

@[simp] theorem sum_eq_ok_iff (left right total : Nat) :
    sum left right = .ok total ↔ left + right < limit ∧ left + right = total := by
  simp only [sum, sum?, ofNat?]
  split <;> simp [orOverflow] <;> omega

@[simp] theorem product_eq_ok_iff (left right total : Nat) :
    product left right = .ok total ↔ left * right < limit ∧ left * right = total := by
  simp only [product, product?, ofNat?]
  split <;> simp [orOverflow] <;> omega

@[simp] theorem difference_eq_ok_iff (left right rest : Nat) :
    difference left right = .ok rest ↔ right ≤ left ∧ left - right = rest := by
  simp only [difference, difference?]
  split <;> simp [orOverflow] <;> omega

end Word

end Microkernel
