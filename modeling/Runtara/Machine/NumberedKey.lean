/-
  Keys that end in a number.

  Checkpoint keys and signal ids put a counter in decimal after a last dot, possibly with more
  text of the scope behind it. The number can be read back, whatever stands before the dot.
-/
import Mathlib.Data.List.Basic
import Mathlib.Data.Nat.Digits.Defs

namespace NumberedKey

theorem repr_inj {m n : ℕ} (h : m.repr = n.repr) : m = n := by
  have hdigits : Nat.toDigits 10 m = Nat.toDigits 10 n := by
    rw [← Nat.toList_repr, h, Nat.toList_repr]
  have hvalue (k : ℕ) : Nat.ofDigitChars 10 (Nat.toDigits 10 k) 0 = k :=
    Nat.ofDigitChars_toDigits (by decide) (by decide)
  rw [← hvalue m, hdigits, hvalue]

theorem dot_notMem_repr (n : ℕ) : '.' ∉ n.repr.toList := by
  rw [Nat.toList_repr]
  intro hmem
  have hdigit := Nat.isDigit_of_mem_toDigits (by decide) (Nat.le_refl 10) hmem
  exact absurd hdigit (by decide)

theorem takeWhile_reverse_dot (before : List Char) {digits : List Char} (h : '.' ∉ digits) :
    (before ++ '.' :: digits).reverse.takeWhile (· ≠ '.') = digits.reverse := by
  rw [List.reverse_append, List.reverse_cons, List.append_assoc, List.takeWhile_append_of_pos]
  · simp
  · intro c hc
    have hne : c ≠ '.' := fun heq => h (heq ▸ List.mem_reverse.mp hc)
    simp [hne]

/-- **The number of a key.** Two equal keys with the same text behind their numbers have the same
number. -/
theorem number_inj {a b suffix : String} {m n : ℕ}
    (h : a ++ "." ++ m.repr ++ suffix = b ++ "." ++ n.repr ++ suffix) : m = n := by
  have hlist : a.toList ++ '.' :: m.repr.toList = b.toList ++ '.' :: n.repr.toList := by
    have hkey := congrArg String.toList (String.append_left_inj _ |>.mp h)
    simpa [String.toList_append] using hkey
  have hdigits := congrArg (fun text => text.reverse.takeWhile (· ≠ '.')) hlist
  simp only [takeWhile_reverse_dot _ (dot_notMem_repr _)] at hdigits
  exact repr_inj (String.toList_inj.mp (List.reverse_injective hdigits))

end NumberedKey
