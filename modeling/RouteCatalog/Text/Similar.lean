import RouteCatalog.Text.Split

/-!
# Similar words

Two words are compared by the blocks of characters that they share: the longest block first, then in
the same way what stands before it in both, and what stands after it in both. Words are similar when
these blocks make up three fifths of their characters or more.
-/

namespace RouteCatalog.Text

/-- The number of characters with which two texts both start. -/
def sharedStart : Text → Text → Nat
  | a :: s, b :: t => if a = b then sharedStart s t + 1 else 0
  | _, _ => 0

/-- A block of characters that stands in two texts. -/
structure SharedBlock where
  first : Nat
  second : Nat
  length : Nat

/-- The longest block that stands in two texts, the earliest of several. -/
def longestShared (s t : Text) : SharedBlock :=
  (List.range s.length).foldl (fun best i ↦
    (List.range t.length).foldl (fun best j ↦
      let length := sharedStart (s.drop i) (t.drop j)
      if best.length < length then ⟨i, j, length⟩ else best) best) ⟨0, 0, 0⟩

/-- The number of characters in shared blocks; each block takes one unit of `fuel`. -/
def sharedWithin : (fuel : Nat) → Text → Text → Nat
  | 0, _, _ => 0
  | fuel + 1, s, t =>
    let b := longestShared s t
    if b.length = 0 then 0
    else sharedWithin fuel (s.take b.first) (t.take b.second) + b.length +
      sharedWithin fuel (s.drop (b.first + b.length)) (t.drop (b.second + b.length))

/-- The number of characters in the blocks that two texts share. -/
def shared (s t : Text) : Nat := sharedWithin s.length s t

/-- How alike two texts are, as a fraction: the characters in shared blocks of both, and all
characters of both. -/
def likeness (s t : Text) : Nat × Nat := (2 * shared s t, s.length + t.length)

/-- The fraction `a` is `b` or less. -/
def fractionLe (a b : Nat × Nat) : Bool := a.1 * b.2 ≤ b.1 * a.2

/-- How alike words have to be to count as similar. -/
def leastLikeness : Nat × Nat := (3, 5)

def mostSimilar : Nat := 3

/-- The words most similar to a text, in alphabetical order. -/
def similarTo (t : Text) (words : List Text) : List Text :=
  let rated := words.map fun word ↦ (likeness word t, word)
  let close := rated.filter fun (rating, _) ↦ fractionLe leastLikeness rating
  let best := close.mergeSort fun a b ↦
    fractionLe b.1 a.1 && (!fractionLe a.1 b.1 || le b.2 a.2)
  ((best.take mostSimilar).map Prod.snd).mergeSort le

end RouteCatalog.Text
