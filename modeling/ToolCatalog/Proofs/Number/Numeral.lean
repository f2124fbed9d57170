import ToolCatalog.Number.Integer

/-!
# Reading back what is written in decimal

An integer written in decimal is a numeral with a minus sign or none, nothing around it and nothing
between its digits.  It is read back as the integer, unless it has more digits than a numeral may
have.

* `integer?_toString`: which integers are read back.
-/

namespace ToolCatalog.Numeral

theorem toNat_of_isDigit {c : Char} (h : c.isDigit = true) : 48 ≤ c.toNat ∧ c.toNat ≤ 57 := by
  simpa [Char.isDigit, UInt32.le_iff_toNat_le] using h

/-- The value of a decimal digit of ASCII. -/
theorem digit_of_isDigit {c : Char} (h : c.isDigit = true) :
    digits?.digit 10 c = some (c.toNat - '0'.toNat) := by
  have hrange := toNat_of_isDigit h
  have hlower : ¬ ('a' ≤ c ∧ c ≤ 'z') := by
    intro hc
    have : 97 ≤ c.toNat := UInt32.le_iff_toNat_le.1 hc.1
    omega
  have hupper : ¬ ('A' ≤ c ∧ c ≤ 'Z') := by
    intro hc
    have : 65 ≤ c.toNat := UInt32.le_iff_toNat_le.1 hc.1
    omega
  have hfound : Text.digitZeros.find? (fun start => start ≤ c.toNat && c.toNat < start + 10) =
      some 48 := by
    rw [Text.digitZeros, List.find?_cons_of_pos]
    simp
    omega
  have hvalue : Text.alphanumericValue? c = some (c.toNat - 48) := by
    rw [Text.alphanumericValue?, if_neg hlower, if_neg hupper, Text.digitValue?, hfound]
    rfl
  show (Text.alphanumericValue? c).filter (· < 10) = some (c.toNat - 48)
  rw [hvalue, Option.filter_some, if_pos (by simp; omega)]

/-- The digits of a numeral without underscores. -/
theorem digits?_of_isDigit {c : Char} {cs : List Char} (hc : c.isDigit = true)
    (hcs : ∀ d ∈ cs, d.isDigit = true) :
    digits? 10 (c :: cs) = some ((c :: cs).map fun d => d.toNat - '0'.toNat) := by
  induction cs generalizing c with
  | nil =>
    rw [digits?, digit_of_isDigit hc]
    rfl
  | cons d rest ih =>
    have hd : d.isDigit = true := hcs d List.mem_cons_self
    have hplain : d ≠ '_' := by
      rintro rfl
      exact absurd hd (by decide)
    rw [digits?, digit_of_isDigit hc, ih hd fun e he => hcs e (List.mem_cons_of_mem _ he)]
    · rfl
    · simp
    · intro rest' heq
      exact hplain (List.cons.inj heq).1

/-- Nothing is trimmed off a text none of whose characters may go. -/
theorem trimBoth_eq_self {p : Char → Bool} {cs : List Char} (h : ∀ c ∈ cs, p c = false) :
    Text.trimBoth p cs = cs := by
  have hdrop : ∀ ds : List Char, (∀ c ∈ ds, p c = false) → ds.dropWhile p = ds := by
    intro ds hds
    cases ds with
    | nil => rfl
    | cons d rest => rw [List.dropWhile_cons_of_neg (by simp [hds d List.mem_cons_self])]
  rw [Text.trimBoth, hdrop cs h, hdrop cs.reverse fun c hc => h c (List.mem_reverse.1 hc),
    List.reverse_reverse]

theorem isNumeralBlank_of_isDigit {c : Char} (h : c.isDigit = true) :
    Text.isNumeralBlank c = false := by
  have hrange := toNat_of_isDigit h
  have hspace : c ≠ ' ' := by
    rintro rfl
    exact absurd h (by decide)
  simp [Text.isNumeralBlank, Text.wideBlanks, hspace]
  omega

/-- In decimal no mark of the base is dropped. -/
theorem dropBaseMark_ten (cs : List Char) : dropBaseMark 10 cs = cs := by
  unfold dropBaseMark
  split
  · rfl
  · rfl

/-- The digits of a natural number, read back. -/
theorem digits?_toDigits (n : Nat) : ∃ ds, digits? 10 (Nat.toDigits 10 n) = some ds ∧
    ds.length = (Nat.toDigits 10 n).length ∧ ofDigits 10 ds = n := by
  have hdigits : ∀ c ∈ Nat.toDigits 10 n, c.isDigit = true :=
    fun c hc => Nat.isDigit_of_mem_toDigits (by decide) (by decide) hc
  refine ⟨(Nat.toDigits 10 n).map fun d => d.toNat - '0'.toNat, ?_, List.length_map _, ?_⟩
  · cases hcs : Nat.toDigits 10 n with
    | nil => exact absurd hcs Nat.toDigits_ne_nil
    | cons c cs =>
      rw [hcs] at hdigits
      exact digits?_of_isDigit (hdigits c List.mem_cons_self)
        fun d hd => hdigits d (List.mem_cons_of_mem _ hd)
  · calc ofDigits 10 ((Nat.toDigits 10 n).map fun d => d.toNat - '0'.toNat)
        = Nat.ofDigitChars 10 (Nat.toDigits 10 n) 0 := by
          rw [ofDigits, List.foldl_map, Nat.ofDigitChars_eq_foldl]
      _ = n := Nat.ofDigitChars_ten_toDigits

/-- A number is moderate exactly if its numeral is not too long. -/
theorem isModerate_iff (n : Nat) :
    isModerate n = true ↔ (Nat.toDigits 10 n).length ≤ maxDecimalDigits := by
  have hpositive : 0 < maxDecimalDigits := by decide
  unfold isModerate
  -- The power itself is never computed.
  generalize maxDecimalDigits = most at hpositive ⊢
  rw [Nat.length_toDigits_le_iff (by decide) hpositive]
  exact decide_eq_true_iff

/-- Smaller numbers have no more digits. -/
theorem isModerate_of_le {m n : Nat} (hle : n ≤ m) (hm : isModerate m = true) :
    isModerate n = true := by
  unfold isModerate at hm ⊢
  generalize Nat.pow 10 maxDecimalDigits = bound at hm ⊢
  exact decide_eq_true (Nat.lt_of_le_of_lt hle (of_decide_eq_true hm))

/-- What an integer reader makes of a numeral with a sign split off. -/
theorem integer?_of_split {cs : List Char} {isNegative : Bool} {n : Nat}
    (hblank : ∀ c ∈ cs, Text.isNumeralBlank c = false)
    (hsign : splitSign cs = (isNegative, Nat.toDigits 10 n)) :
    integer? 10 cs =
      if isModerate n then some (if isNegative then -(n : Int) else n) else none := by
  obtain ⟨ds, hds, hlength, hvalue⟩ := digits?_toDigits n
  rw [integer?, trimBoth_eq_self hblank, hsign]
  simp only [dropBaseMark_ten, hds, Option.bind_eq_bind, Option.bind_some, hlength, true_and,
    hvalue]
  by_cases hn : isModerate n = true
  · have hshort : ¬ maxDecimalDigits < (Nat.toDigits 10 n).length :=
      Nat.not_lt.2 ((isModerate_iff n).1 hn)
    rw [if_neg hshort, if_pos hn]
    rfl
  · have hlong : maxDecimalDigits < (Nat.toDigits 10 n).length :=
      Nat.not_le.1 fun h => hn ((isModerate_iff n).2 h)
    rw [if_pos hlong, if_neg hn]

/-- **An integer written in decimal is read back**, unless it has too many digits. -/
theorem integer?_toString (i : Int) :
    integer? 10 (toString i).toList = if isModerate i.natAbs then some i else none := by
  have hdigits : ∀ n, ∀ c ∈ Nat.toDigits 10 n, c.isDigit = true :=
    fun n c hc => Nat.isDigit_of_mem_toDigits (by decide) (by decide) hc
  rw [Int.toString_eq_repr, Int.repr_eq_if]
  split
  · next hi =>
    have hsign : splitSign (Nat.toDigits 10 i.toNat) = (false, Nat.toDigits 10 i.toNat) := by
      unfold splitSign
      split
      · next rest heq =>
        exact absurd (hdigits i.toNat '-' (by rw [heq]; exact List.mem_cons_self)) (by decide)
      · next rest heq =>
        exact absurd (hdigits i.toNat '+' (by rw [heq]; exact List.mem_cons_self)) (by decide)
      · rfl
    have habs : i.natAbs = i.toNat := by omega
    have hvalue : ((i.toNat : Nat) : Int) = i := Int.toNat_of_nonneg hi
    rw [Nat.toList_repr,
      integer?_of_split (fun c hc => isNumeralBlank_of_isDigit (hdigits _ c hc)) hsign, habs]
    simp only [Bool.false_eq_true, if_false, hvalue]
  · next hi =>
    have hsign : splitSign ('-' :: Nat.toDigits 10 (-i).toNat) =
        (true, Nat.toDigits 10 (-i).toNat) := rfl
    have hblank : ∀ c ∈ '-' :: Nat.toDigits 10 (-i).toNat, Text.isNumeralBlank c = false := by
      intro c hc
      rcases List.mem_cons.1 hc with rfl | hc
      · decide
      · exact isNumeralBlank_of_isDigit (hdigits _ c hc)
    have habs : i.natAbs = (-i).toNat := by omega
    have hvalue : -(((-i).toNat : Nat) : Int) = i := by omega
    have hspelled : ("-" ++ (-i).toNat.repr).toList = '-' :: Nat.toDigits 10 (-i).toNat := by
      rw [String.toList_append, Nat.toList_repr]
      rfl
    rw [hspelled, integer?_of_split hblank hsign, habs]
    simp only [if_true, hvalue]

/-- The only characters of an integer written in decimal are digits and the minus sign. -/
theorem not_mem_toString {c : Char} (hdigit : c.isDigit = false) (hminus : c ≠ '-') (i : Int) :
    c ∉ (toString i).toList := by
  have hdigits : ∀ n, c ∉ Nat.toDigits 10 n := by
    intro n hc
    rw [Nat.isDigit_of_mem_toDigits (by decide) (by decide) hc] at hdigit
    cases hdigit
  rw [Int.toString_eq_repr, Int.repr_eq_if]
  split
  · rw [Nat.toList_repr]
    exact hdigits _
  · rw [String.toList_append, Nat.toList_repr, List.mem_append, not_or]
    exact ⟨by simpa using hminus, hdigits _⟩

end ToolCatalog.Numeral
