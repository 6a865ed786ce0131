/-
  The keys of compilation requests.

  A key is read back as the request it was made of, without its flag, and it identifies the target
  of the request, as long as the ids of the tenant and the workflow have no colon in them
  (`fromUniqueKey_uniqueKey`, `sameTarget_of_uniqueKey_eq`).
-/
import Runtara.Compilation.Queue
import Mathlib.Data.List.TakeWhile
import Mathlib.Data.Nat.Digits.Defs

namespace Runtara.Compilation.CompilationRequest

/-- The ids have no colon in them. -/
def plain (r : CompilationRequest) : Bool :=
  ':' ∉ r.tenantId.toList ∧ ':' ∉ r.workflowId.toList

theorem splitColon_append {text rest : List Char} (h : ':' ∉ text) :
    splitColon (text ++ ':' :: rest) = some (text, rest) := by
  have hall : ∀ c ∈ text, decide (c ≠ ':') = true := by
    intro c hc
    have hne : c ≠ ':' := fun heq => h (heq ▸ hc)
    exact decide_eq_true hne
  unfold splitColon
  rw [List.dropWhile_append_of_pos hall, List.takeWhile_append_of_pos hall]
  simp

theorem toDigits_all_isDigit (n : ℕ) : (Nat.toDigits 10 n).all Char.isDigit = true :=
  List.all_eq_true.mpr fun _ hc => Nat.isDigit_of_mem_toDigits (by decide) (by decide) hc

theorem sign_toDigits (n : ℕ) : sign (Nat.toDigits 10 n) = (false, Nat.toDigits 10 n) := by
  have hdigits := List.all_eq_true.mp (toDigits_all_isDigit n)
  unfold sign
  split
  · rename_i digits heq
    have hminus := hdigits '-' (heq ▸ List.mem_cons_self)
    cases hminus
  · rename_i digits heq
    have hplus := hdigits '+' (heq ▸ List.mem_cons_self)
    cases hplus
  · rfl

theorem parseI32_of_sign {text : List Char} {negative : Bool} {n : ℕ} {v : Int32}
    (hsign : sign text = (negative, Nat.toDigits 10 n))
    (hv : v.toInt = if negative then -(n : ℤ) else n) : parseI32 text = some v := by
  have hempty : (Nat.toDigits 10 n).isEmpty = false := by
    rw [List.isEmpty_eq_false_iff]
    exact Nat.toDigits_ne_nil
  have hvalue : Nat.ofDigitChars 10 (Nat.toDigits 10 n) 0 = n :=
    Nat.ofDigitChars_toDigits (by decide) (by decide)
  have hrange : Int32.minValue.toInt ≤ v.toInt ∧ v.toInt ≤ Int32.maxValue.toInt :=
    ⟨Int32.minValue_le_toInt v, Int32.toInt_le v⟩
  simp only [parseI32, hsign, hempty, toDigits_all_isDigit, hvalue, ← hv, hrange, Bool.not_true,
    Bool.or_self, Bool.false_eq_true, if_false, and_self, if_true, Int32.ofInt_toInt]

theorem parseI32_toString (v : Int32) : parseI32 (toString v).toList = some v := by
  cases hv : v.toInt with
  | ofNat n =>
    have htext : (toString v).toList = Nat.toDigits 10 n := by
      show (toString v.toInt).toList = _
      rw [hv]
      exact Nat.toList_repr
    rw [htext]
    exact parseI32_of_sign (sign_toDigits n) hv
  | negSucc n =>
    have htext : (toString v).toList = '-' :: Nat.toDigits 10 (n + 1) := by
      show (toString v.toInt).toList = _
      rw [hv]
      show ("-" ++ (n + 1).repr).toList = _
      rw [String.toList_append, Nat.toList_repr]
      rfl
    rw [htext]
    exact @parseI32_of_sign _ true (n + 1) v rfl hv

theorem uniqueKey_toList (r : CompilationRequest) : r.uniqueKey.toList =
    r.tenantId.toList ++ ':' :: (r.workflowId.toList ++ ':' :: (toString r.version).toList) := by
  simp [uniqueKey, String.toList_append]

/-- **A key is read back as the request it was made of, without its flag.** -/
theorem fromUniqueKey_uniqueKey {r : CompilationRequest} (h : r.plain = true) :
    fromUniqueKey r.uniqueKey = some { r with forceRecompile := false } := by
  obtain ⟨htenant, hworkflow⟩ := of_decide_eq_true h
  simp [fromUniqueKey, uniqueKey_toList, splitColon_append htenant, splitColon_append hworkflow,
    parseI32_toString]

/-- Requests with one key are requests for one target. -/
theorem sameTarget_of_uniqueKey_eq {r s : CompilationRequest} (hr : r.plain = true)
    (hs : s.plain = true) (h : r.uniqueKey = s.uniqueKey) : r.sameTarget s = true := by
  have hparsed := fromUniqueKey_uniqueKey hr
  rw [h, fromUniqueKey_uniqueKey hs] at hparsed
  obtain ⟨htenant, hworkflow, hversion, -⟩ := CompilationRequest.mk.inj (Option.some.inj hparsed)
  exact decide_eq_true ⟨htenant.symm, hworkflow.symm, hversion.symm⟩

end Runtara.Compilation.CompilationRequest
