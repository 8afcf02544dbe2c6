import Mathlib.Data.Nat.Digits

/-! Go's `%d` verb on signed integers, as `fmt.Sprintf` renders the pool-id text and the
`known_hosts` target. `fmt.fmtInteger` writes a `-` for a negative value and then the decimal digits
of the magnitude, most significant first, which is what core's `Nat.toDigits 10` computes. Reading
the digits back with `digitsVal` recovers the magnitude, so the rendering is injective and is made
of digits and at most a leading `-`. -/

namespace Sshx.Fmt

/-- `fmt.fmtInteger` in base 10 for a signed value: a `-` for a negative value, then the digits of
its magnitude (Go negates through `uint64`, so the most negative value has its true magnitude). -/
def fmtInteger (i : Int) : List Char :=
  if i < 0 then '-' :: Nat.toDigits 10 i.natAbs else Nat.toDigits 10 i.natAbs

/-- The value of a string of decimal digits. -/
def digitsVal (l : List Char) : Nat :=
  l.foldl (fun acc c => 10 * acc + (c.toNat - '0'.toNat)) 0

theorem toDigitsCore_append (f n : Nat) (ds : List Char) (hf : n < f) :
    Nat.toDigitsCore 10 f n ds = Nat.toDigitsCore 10 f n [] ++ ds := by
  induction f generalizing n ds with
  | zero => omega
  | succ f ih =>
      simp only [Nat.toDigitsCore]
      split
      · rfl
      · rw [ih _ _ (by omega), ih (n / 10) [_] (by omega), List.append_assoc]
        rfl

theorem toDigitsCore_fuel (f g n : Nat) (ds : List Char) (hf : n < f) (hg : n < g) :
    Nat.toDigitsCore 10 f n ds = Nat.toDigitsCore 10 g n ds := by
  induction f generalizing g n ds with
  | zero => omega
  | succ f ih =>
      cases g with
      | zero => omega
      | succ g =>
          simp only [Nat.toDigitsCore]
          split
          · rfl
          · exact ih g _ _ (by omega) (by omega)

/-- The loop of `fmtInteger`: the last digit is `n % 10`, the others are those of `n / 10`. -/
theorem toDigits_eq (n : Nat) : Nat.toDigits 10 n =
    if n < 10 then [n.digitChar] else Nat.toDigits 10 (n / 10) ++ [(n % 10).digitChar] := by
  rw [Nat.toDigits, Nat.toDigitsCore]
  split
  · rw [if_pos (by omega), Nat.mod_eq_of_lt (by omega)]
  · rw [if_neg (by omega), toDigitsCore_append _ _ _ (by omega), Nat.toDigits,
      toDigitsCore_fuel n (n / 10 + 1) _ _ (by omega) (by omega)]

theorem digitChar_toNat (d : Nat) (h : d < 10) : d.digitChar.toNat = 48 + d := by
  interval_cases d <;> rfl

theorem digitsVal_append (l : List Char) (c : Char) :
    digitsVal (l ++ [c]) = 10 * digitsVal l + (c.toNat - 48) := by
  simp [digitsVal, List.foldl_append]

theorem digitsVal_toDigits (n : Nat) : digitsVal (Nat.toDigits 10 n) = n := by
  induction n using Nat.strong_induction_on with
  | _ n ih =>
      rw [toDigits_eq]
      split
      · simp [digitsVal, digitChar_toNat n ‹_›]
      · rw [digitsVal_append, ih _ (by omega), digitChar_toNat _ (Nat.mod_lt _ (by omega))]
        omega

theorem toDigits_injective {m n : Nat} (h : Nat.toDigits 10 m = Nat.toDigits 10 n) : m = n := by
  rw [← digitsVal_toDigits m, h, digitsVal_toDigits]

/-- Every character `Nat.toDigits 10` writes is a decimal digit. -/
theorem isDigit_of_mem_toDigits {n : Nat} {c : Char} (hc : c ∈ Nat.toDigits 10 n) :
    c.isDigit := by
  induction n using Nat.strong_induction_on with
  | _ n ih =>
      have hd : ∀ d < 10, (Nat.digitChar d).isDigit := by decide
      rw [toDigits_eq] at hc
      split at hc
      · rw [List.mem_singleton.mp hc]
        exact hd n ‹_›
      · rcases List.mem_append.mp hc with hc | hc
        · exact ih _ (by omega) hc
        · rw [List.mem_singleton.mp hc]
          exact hd _ (Nat.mod_lt _ (by omega))

theorem fmtInteger_injective {i j : Int} (h : fmtInteger i = fmtInteger j) : i = j := by
  have hminus : ∀ n, '-' ∉ Nat.toDigits 10 n := fun n hm => by
    simpa using isDigit_of_mem_toDigits hm
  unfold fmtInteger at h
  split at h <;> split at h
  · have := toDigits_injective (List.cons.inj h).2
    omega
  · exact absurd (h ▸ List.mem_cons_self _ _) (hminus _)
  · exact absurd (h ▸ List.mem_cons_self _ _) (hminus _)
  · have := toDigits_injective h
    omega

/-- The rendering is made of digits and a leading `-`: no separator a format string puts around it
can occur inside it. -/
theorem mem_fmtInteger {i : Int} {c : Char} (hc : c ∈ fmtInteger i) : c = '-' ∨ c.isDigit := by
  unfold fmtInteger at hc
  split at hc
  · rcases List.mem_cons.mp hc with rfl | hc
    · exact .inl rfl
    · exact .inr (isDigit_of_mem_toDigits hc)
  · exact .inr (isDigit_of_mem_toDigits hc)

end Sshx.Fmt
