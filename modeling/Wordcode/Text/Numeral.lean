/-
# Numerals

Numbers in base ten and sixteen, written and read over lists of characters.
Writing is positional notation with the most significant digit first, padded
on the left with zeros where a fixed width is asked for; reading takes any
number of leading zeros and either case of the hexadecimal letters.
`ofDigits_toDigits` is the reason why a written number reads back.

A number that is read has no bound; `uint16?` and `int32?` narrow it to a width,
and `uint16?_eq_some_iff` and `int32?_eq_some_iff` say that they never change
its value.
-/
namespace Wordcode.Text

/-! ## Writing -/

/-- A signed number in base ten, with a sign only if it is negative. -/
def signed (n : Int) : List Char :=
  if n < 0 then '-' :: Nat.toDigits 10 n.natAbs else Nat.toDigits 10 n.natAbs

/-- A number in base ten, at least `width` digits wide. -/
def decimal (width n : Nat) : String :=
  String.ofList ((Nat.toDigits 10 n).leftpad width '0')

/-- A number in base sixteen with lower-case letters, at least `width` digits
wide. -/
def hex (width n : Nat) : String :=
  String.ofList ((Nat.toDigits 16 n).leftpad width '0')

/-- A number in base sixteen with capital letters, at least `width` digits
wide. -/
def hexCapital (width n : Nat) : String :=
  String.ofList (((Nat.toDigits 16 n).leftpad width '0').map Char.toUpper)

/-! ## Reading -/

/-- The value of a decimal or hexadecimal digit of either case. -/
def digitValue (c : Char) : Nat :=
  if c.isDigit then c.toNat - '0'.toNat else c.toLower.toNat - 'a'.toNat + 10

/-- The number that a sequence of digits denotes, most significant first. -/
def ofDigits (base : Nat) (cs : List Char) : Nat :=
  cs.foldl (fun n c => base * n + digitValue c) 0

theorem digitValue_digitChar {d : Nat} (h : d < 16) : digitValue (Nat.digitChar d) = d := by
  have hall : ∀ i : Fin 16, digitValue (Nat.digitChar i.val) = i.val := by decide
  exact hall ⟨d, h⟩

theorem ofDigits_append_singleton (base : Nat) (cs : List Char) (c : Char) :
    ofDigits base (cs ++ [c]) = base * ofDigits base cs + digitValue c := by
  simp [ofDigits]

/-- A written number reads back. -/
theorem ofDigits_toDigits {base : Nat} (hlo : 1 < base) (hhi : base ≤ 16) (n : Nat) :
    ofDigits base (Nat.toDigits base n) = n := by
  induction n using Nat.strongRecOn with
  | ind n ih =>
      rw [Nat.toDigits_eq_if hlo]
      by_cases hn : n < base
      · rw [if_pos hn]
        simp [ofDigits, digitValue_digitChar (Nat.lt_of_lt_of_le hn hhi)]
      · rw [if_neg hn, ofDigits_append_singleton,
          ih (n / base) (Nat.div_lt_self (by omega) hlo),
          digitValue_digitChar (Nat.lt_of_lt_of_le (Nat.mod_lt n (by omega)) hhi)]
        exact Nat.div_add_mod n base

/-! ## Narrowing -/

/-- The 16-bit number with the given value, if there is one. -/
def uint16? (n : Int) : Option UInt16 :=
  if 0 ≤ n ∧ n < 65536 then some (UInt16.ofNat n.toNat) else none

/-- The 32-bit number with a sign and the given value, if there is one. -/
def int32? (n : Int) : Option Int32 :=
  if -2147483648 ≤ n ∧ n < 2147483648 then some (Int32.ofInt n) else none

/-- Whether a number fits 64 bits with a sign. -/
def fitsInt64 (n : Int) : Bool := -9223372036854775808 ≤ n && n < 9223372036854775808

theorem uint16?_eq_some_iff {n : Int} {v : UInt16} : uint16? n = some v ↔ n = v.toNat := by
  have hv : v.toNat < 65536 := v.toNat_lt_size
  unfold uint16?
  constructor
  · intro h
    split at h
    · next hn =>
        rw [← Option.some.inj h, UInt16.toNat_ofNat_of_lt' (by show n.toNat < 65536; omega)]
        omega
    · cases h
  · intro h
    rw [if_pos (by omega), h, Int.toNat_natCast, UInt16.ofNat_toNat]

/-- Only a number out of range is refused. -/
theorem uint16?_eq_none_iff {n : Int} : uint16? n = none ↔ ¬ (0 ≤ n ∧ n ≤ 65535) := by
  rw [uint16?, ite_eq_right_iff, imp_iff_not (Option.some_ne_none _)]
  omega

theorem int32?_eq_some_iff {n : Int} {v : Int32} : int32? n = some v ↔ n = v.toInt := by
  have hlo := v.le_toInt
  have hhi := v.toInt_lt
  unfold int32?
  constructor
  · intro h
    split at h
    · next hn =>
        rw [← Option.some.inj h, Int32.toInt_ofInt_of_le hn.1 hn.2]
    · cases h
  · intro h
    rw [if_pos (by omega), h, Int32.ofInt_toInt]

end Wordcode.Text
