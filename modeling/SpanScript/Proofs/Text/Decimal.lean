import SpanScript.Builtin.Convert
import SpanScript.Proofs.Syntax.Grammar
import SpanScript.Value.Form

/-!
# Decimal texts of integers

The text of an integer is a minus sign, if the integer is negative, and the decimal digits of its
magnitude.  Two readers take such a text back to the integer: the one of literals, which counts the
digits only, and the one of `INT`, which knows the digits of all scripts and leaves out white space.
Both read as many digits as can be printed.

* `toList_toString`: the characters of the text.
* `Numeral.integer?_toString`: the reader of `INT`.
* `Grammar.integerOf_toString`, `Grammar.fitsDigits_toString`: the reader of literals.
-/

namespace SpanScript

def signOf (n : Int) : List Char := if n < 0 then ['-'] else []

def digitsOf (n : Int) : List Char := Nat.toDigits 10 n.natAbs

theorem toList_toString (n : Int) : (toString n).toList = signOf n ++ digitsOf n := by
  rw [Int.toString_eq_repr, Int.repr_eq_if, signOf, digitsOf]
  by_cases h : 0 ≤ n
  · have hnat : n.toNat = n.natAbs := by omega
    rw [if_pos h, if_neg (by omega), Nat.toList_repr, hnat]
    rfl
  · have hnat : (-n).toNat = n.natAbs := by omega
    rw [if_neg h, if_pos (by omega), String.toList_append, Nat.toList_repr, hnat]
    rfl

theorem digitsOf_ne_nil (n : Int) : digitsOf n ≠ [] := Nat.toDigits_ne_nil

theorem isDigit_of_mem_digitsOf {n : Int} {c : Char} (h : c ∈ digitsOf n) : c.isDigit = true :=
  Nat.isDigit_of_mem_toDigits (by decide) (by decide) h

/-- A digit is one of the ten characters from `0` on. -/
theorem toNat_of_isDigit {c : Char} (h : c.isDigit = true) : 48 ≤ c.toNat ∧ c.toNat ≤ 57 := by
  rw [Char.isDigit, Bool.and_eq_true, decide_eq_true_eq, decide_eq_true_eq] at h
  exact ⟨UInt32.le_iff_toNat_le.mp h.1, UInt32.le_iff_toNat_le.mp h.2⟩

/-- As many digits can be printed as can be read. -/
theorem length_digitsOf_le {n : Int} : (digitsOf n).length ≤ Numeral.digitLimit ↔
    n.natAbs < printLimit := by
  have hpos : 0 < Numeral.digitLimit := by decide
  unfold printLimit
  generalize Numeral.digitLimit = limit at hpos
  exact Nat.length_toDigits_le_iff (by decide) hpos

theorem integerText_eq_ok_iff {n : Int} {t : String} :
    integerText n = .ok t ↔ n.natAbs < printLimit ∧ toString n = t := by
  unfold integerText
  by_cases h : printLimit ≤ n.natAbs
  · rw [if_pos h]
    exact ⟨nofun, fun h' => absurd h (Nat.not_le.mpr h'.1)⟩
  · rw [if_neg h, Except.ok.injEq]
    exact ⟨fun h' => ⟨Nat.not_le.mp h, h'⟩, fun h' => h'.2⟩

/-! ## Reading digits -/

namespace Numeral

theorem ofDigits_digitsOf (n : Int) : ofDigits ((digitsOf n).map Reader.digitOf) = n.natAbs := by
  have hread := Nat.ofDigitChars_toDigits (b := 10) (n := n.natAbs) (by decide) (by decide)
  rw [Nat.ofDigitChars_eq_foldl] at hread
  rw [ofDigits, List.foldl_map]
  simp only [Nat.mul_comm _ 10]
  exact hread

/-- The sign of the text of an integer is found, and its digits are left. -/
theorem sign_toString (n : Int) : sign (toString n).toList = (decide (n < 0), digitsOf n) := by
  rw [toList_toString, signOf]
  by_cases h : n < 0
  · rw [if_pos h, decide_eq_true h]
    rfl
  · rw [if_neg h, decide_eq_false h, List.nil_append]
    obtain ⟨c, cs, hcs⟩ := List.exists_cons_of_ne_nil (digitsOf_ne_nil n)
    obtain ⟨hlow, hhigh⟩ := toNat_of_isDigit (isDigit_of_mem_digitsOf (hcs ▸ List.mem_cons_self))
    have hminus : c ≠ '-' := fun hc => by subst hc; exact absurd hlow (by decide)
    have hplus : c ≠ '+' := fun hc => by subst hc; exact absurd hlow (by decide)
    rw [hcs, sign, if_neg (by simpa using hminus), if_neg (by simpa using hplus)]

theorem value?_of_isDigit {c : Char} (h : c.isDigit = true) :
    Digit.value? c = some (Reader.digitOf c) := by
  obtain ⟨hlow, hhigh⟩ := toNat_of_isDigit h
  have hfind : Digit.zeros.find? (fun z => z ≤ c.toNat && c.toNat ≤ z + 9) = some 0x30 :=
    List.find?_cons_of_pos (by simp; omega)
  rw [Digit.value?, hfind]
  rfl

/-- Digits without underscores are read one by one. -/
theorem digits?_of_isDigit : ∀ {cs : List Char}, (∀ c ∈ cs, c.isDigit = true) →
    digits? false cs = some (cs.map Reader.digitOf) ∧
      (cs ≠ [] → digits? true cs = some (cs.map Reader.digitOf)) := by
  intro cs
  induction cs with
  | nil => exact fun _ => ⟨rfl, fun h => absurd rfl h⟩
  | cons c cs ih =>
    intro h
    have hc := h c List.mem_cons_self
    have hscore : c ≠ '_' := fun he => by subst he; exact absurd hc (by decide)
    have hcons (due : Bool) : digits? due (c :: cs) = some ((c :: cs).map Reader.digitOf) := by
      rw [digits?, if_neg (by simpa using hscore), value?_of_isDigit hc,
        (ih fun d hd => h d (List.mem_cons_of_mem _ hd)).1]
      rfl
    exact ⟨hcons false, fun _ => hcons true⟩

/-- The sign and the magnitude of an integer make the integer. -/
theorem sign_natAbs (n : Int) :
    (if decide (n < 0) = true then -(n.natAbs : Int) else n.natAbs) = n := by
  by_cases h : n < 0
  · rw [if_pos (decide_eq_true h)]
    omega
  · rw [if_neg (by simpa using h)]
    omega

/-- **The text of an integer is read back**, if it can be printed. -/
theorem integer?_toString {n : Int} (h : n.natAbs < printLimit) :
    integer? (toString n).toList = some n := by
  have hdigits := (digits?_of_isDigit fun c => isDigit_of_mem_digitsOf (n := n)).2
    (digitsOf_ne_nil n)
  unfold integer?
  rw [sign_toString]
  show ((digits? true (digitsOf n)).bind fun ds => _) = _
  rw [hdigits, Option.bind_some, if_neg (by
    rw [List.length_map]
    exact Nat.not_lt.mpr (length_digitsOf_le.mpr h)), ofDigits_digitsOf, sign_natAbs]

end Numeral

/-! ## White space -/

namespace Blank

theorem dropWhile_isBlank {cs : List Char} (h : ∀ c ∈ cs, isBlank c = false) :
    cs.dropWhile isBlank = cs := by
  cases cs with
  | nil => rfl
  | cons c cs => exact List.dropWhile_cons_of_neg (by simp [h c List.mem_cons_self])

theorem strip_of_no_blank {cs : List Char} (h : ∀ c ∈ cs, isBlank c = false) : strip cs = cs := by
  have hreverse : ∀ c ∈ cs.reverse, isBlank c = false := fun c hc => h c (List.mem_reverse.mp hc)
  rw [strip, dropWhile_isBlank h, dropWhile_isBlank hreverse, List.reverse_reverse]

/-- There is no white space in the text of an integer. -/
theorem isBlank_of_mem_toString {n : Int} {c : Char} (h : c ∈ (toString n).toList) :
    isBlank c = false := by
  rw [toList_toString] at h
  rcases List.mem_append.mp h with h | h
  · rw [signOf] at h
    split at h
    · rw [List.mem_singleton.mp h]
      decide
    · cases h
  · obtain ⟨hlow, hhigh⟩ := toNat_of_isDigit (isDigit_of_mem_digitsOf h)
    simp only [isBlank, ranges, List.any_cons, List.any_nil, Bool.or_false, Bool.or_eq_false_iff,
      Bool.and_eq_false_iff, decide_eq_false_iff_not]
    omega

end Blank

/-- `INT` reads the text of an integer back. -/
theorem Builtin.toInt?_toString {n : Int} (h : n.natAbs < printLimit) :
    Builtin.toInt? (.str (toString n)) = some n := by
  rw [Builtin.toInt?, Blank.strip_of_no_blank fun c => Blank.isBlank_of_mem_toString,
    Numeral.integer?_toString h]

/-! ## Literals -/

namespace Grammar

theorem digitCount_toString (n : Int) : digitCount (toString n) = (digitsOf n).length := by
  rw [digitCount, Numeral.sign_toString]

theorem fitsDigits_toString {n : Int} (h : n.natAbs < printLimit) : FitsDigits (toString n) := by
  rw [FitsDigits, digitCount_toString]
  exact length_digitsOf_le.mpr h

/-- **The text of an integer is a literal for it.** -/
theorem integerOf_toString (n : Int) : integerOf (toString n) = .int n := by
  unfold integerOf
  rw [Numeral.sign_toString]
  show Literal.int (if decide (n < 0) = true
    then -(Numeral.ofDigits ((digitsOf n).map Reader.digitOf) : Int)
    else Numeral.ofDigits ((digitsOf n).map Reader.digitOf)) = _
  rw [Numeral.ofDigits_digitsOf, Numeral.sign_natAbs]

end Grammar

end SpanScript
