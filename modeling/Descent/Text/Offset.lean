import Descent.Text.Cut

/-!
# Offsets

Where a text is to be cut is found by going through its characters and adding up their
bytes: up to the first one that fails a test (`offsetWhile`), or past so many of them
(`offsetAfter`). A text cannot be cut at every offset, only at a boundary between two
characters (`IsBoundary`), and whoever cuts it has to know that the offset is one
(`sliceTo`, `splitAt`). The offsets that are found are boundaries, and the cuts there are
those of `takeWhile` and `dropWhile`, and of `take` (`splitWhile_eq`,
`sliceTo_offsetAfter`).
-/

namespace Descent

namespace Text

variable {s t u : Text} {n : Nat}

/-! ### Boundaries -/

/-- The offset is a boundary: the bytes in front of it are those of a front part. -/
def IsBoundary (s : Text) (n : Nat) : Prop := ∃ t u, s = t ++ u ∧ t.size = n

theorem isSome_takeBytes? : (s.takeBytes? n).isSome = true ↔ s.IsBoundary n := by
  rw [Option.isSome_iff_exists]
  constructor
  · rintro ⟨t, ht⟩
    obtain ⟨hn, u, hs⟩ := takeBytes?_eq_some.mp ht
    exact ⟨t, u, hs, hn⟩
  · rintro ⟨t, u, hs, hn⟩
    exact ⟨t, takeBytes?_eq_some.mpr ⟨hn, u, hs⟩⟩

/-- The part in front of a boundary. -/
def sliceTo (s : Text) (n : Nat) (h : s.IsBoundary n) : Text :=
  (s.takeBytes? n).get (isSome_takeBytes?.mpr h)

/-- The part in front of a boundary, and the part behind it. -/
def splitAt (s : Text) (n : Nat) (h : s.IsBoundary n) : Text × Text :=
  let front := s.sliceTo n h
  (front, s.drop front.length)

theorem sliceTo_eq (h : s.IsBoundary n) (hs : s = t ++ u) (hn : t.size = n) :
    s.sliceTo n h = t :=
  Option.get_of_eq_some _ (takeBytes?_eq_some.mpr ⟨hn, u, hs⟩)

theorem splitAt_eq (h : s.IsBoundary n) (hs : s = t ++ u) (hn : t.size = n) :
    s.splitAt n h = (t, u) := by
  have hdrop : s.drop t.length = u := ext (by rw [hs]; exact List.drop_left)
  rw [splitAt, sliceTo_eq h hs hn, hdrop]

/-! ### In front of the first character that fails a test -/

/-- The offset `n`, and the bytes of the characters at the front of `cs` that satisfy `p`. -/
def scanWhile (p : Char → Bool) (n : Nat) : List Char → Nat
  | [] => n
  | c :: cs => if p c then scanWhile p (n + c.utf8Size) cs else n

/-- The offset of the first character that does not satisfy `p`, or that of the end if there
is none. -/
def offsetWhile (p : Char → Bool) (s : Text) : Nat := scanWhile p 0 s.chars

theorem scanWhile_eq (p : Char → Bool) (n : Nat) (cs : List Char) :
    scanWhile p n cs = n + byteSize (cs.takeWhile p) := by
  induction cs generalizing n with
  | nil => rfl
  | cons c cs ih =>
    rw [scanWhile]
    split
    · next hc => rw [ih, List.takeWhile_cons_of_pos hc, byteSize_cons, Nat.add_assoc]
    · next hc => rw [List.takeWhile_cons_of_neg hc, byteSize_nil, Nat.add_zero]

theorem offsetWhile_eq (p : Char → Bool) (s : Text) : s.offsetWhile p = (s.takeWhile p).size :=
  (scanWhile_eq p 0 s.chars).trans (Nat.zero_add _)

theorem isBoundary_offsetWhile (p : Char → Bool) (s : Text) : s.IsBoundary (s.offsetWhile p) :=
  ⟨_, _, (s.takeWhile_append_dropWhile p).symm, (s.offsetWhile_eq p).symm⟩

/-- The text cut behind the longest front part whose characters all satisfy `p`. -/
def splitWhile (p : Char → Bool) (s : Text) : Text × Text :=
  s.splitAt (s.offsetWhile p) (s.isBoundary_offsetWhile p)

theorem splitWhile_eq (p : Char → Bool) (s : Text) :
    s.splitWhile p = (s.takeWhile p, s.dropWhile p) :=
  splitAt_eq _ (s.takeWhile_append_dropWhile p).symm (s.offsetWhile_eq p).symm

/-! ### After characters -/

/-- The offset `n`, and the bytes of the first `k` characters of `cs`. -/
def scanPast : Nat → Nat → List Char → Nat
  | 0, n, _ => n
  | _ + 1, n, [] => n
  | k + 1, n, c :: cs => scanPast k (n + c.utf8Size) cs

/-- The offset of the character that has `k` characters in front of it, or that of the end if
there is none. -/
def offsetAfter (k : Nat) (s : Text) : Nat := scanPast k 0 s.chars

theorem scanPast_eq (k n : Nat) (cs : List Char) :
    scanPast k n cs = n + byteSize (cs.take k) := by
  induction cs generalizing k n with
  | nil => cases k <;> rfl
  | cons c cs ih =>
    cases k with
    | zero => rfl
    | succ k => rw [scanPast, ih, List.take_succ_cons, byteSize_cons, Nat.add_assoc]

theorem offsetAfter_eq (k : Nat) (s : Text) : s.offsetAfter k = (s.take k).size :=
  (scanPast_eq k 0 s.chars).trans (Nat.zero_add _)

theorem isBoundary_offsetAfter (k : Nat) (s : Text) : s.IsBoundary (s.offsetAfter k) :=
  ⟨_, _, (s.take_append_drop k).symm, (s.offsetAfter_eq k).symm⟩

theorem sliceTo_offsetAfter (k : Nat) (s : Text) :
    s.sliceTo (s.offsetAfter k) (s.isBoundary_offsetAfter k) = s.take k :=
  sliceTo_eq _ (s.take_append_drop k).symm (s.offsetAfter_eq k).symm

end Text

end Descent
