import HttpFile.Json.Reader
import HttpFile.Json.Writer
import HttpFile.Proofs.Number.Written
import HttpFile.Proofs.Text.Wide

/-!
# `HttpFile.Proofs.Json.Scalar` — words and numbers

A word or a number is read up to a character that it cannot go on with, whatever stands behind that. What is
written for a word or a number reads back: a number with a point is written with a decimal that rounds to it,
and where the point stands does not matter.

## Contents
- **Extent.** `Quits`, `scalar?_append`: what stands behind a scalar is no part of it.
- **Parts of numbers.** `number?_written`: a number is read from its parts.
- **Numbers.** `Parts`, for each notation; `scalar?_ofInt`, `scalar?_write`: what is written reads back.
- **What is read.** `Goes`, `scalar?_spec`.
- **Scalars.** `Scalar`, with `Scalar.text`; `Scalar.reads`, `Scalar.isScalarChar_of_mem`.
-/

namespace HttpFile.Json

open Text Binary64

/-! ## Extent -/

/-- A character that stands in a word or a number. -/
def isScalarChar (c : Char) : Bool := c.isAlphanum || c == '+' || c == '-' || c == '.'

/-- No word or number goes on into the text. -/
def Quits (t : Text) : Prop := ∀ c ∈ t.head?, isScalarChar c = false

theorem Quits.nil : Quits [] := by simp [Quits]

theorem quits_cons {c : Char} {t : Text} : Quits (c :: t) ↔ isScalarChar c = false := by simp [Quits]

theorem quits_dropWhile (t : Text) : Quits (t.dropWhile isScalarChar) := by
  intro c hc
  have := List.head?_dropWhile_not isScalarChar t
  rw [Option.mem_def.mp hc] at this
  simpa using this

theorem isScalarChar_of_isDigit {c : Char} (h : c.isDigit = true) : isScalarChar c = true := by
  simp [isScalarChar, Char.isAlphanum, h]

section
variable {q : Text}

theorem takeWhile_append_quits (hq : Quits q) (p : Text) :
    (p ++ q).takeWhile Char.isDigit = p.takeWhile Char.isDigit ∧
      (p ++ q).dropWhile Char.isDigit = p.dropWhile Char.isDigit ++ q := by
  induction p with
  | nil =>
      cases q with
      | nil => exact ⟨rfl, rfl⟩
      | cons c q =>
          have hc : c.isDigit = false := by
            rw [Bool.eq_false_iff]
            intro hd
            rw [quits_cons, isScalarChar_of_isDigit hd] at hq
            exact absurd hq (by decide)
          simp [hc]
  | cons c p ih =>
      by_cases hc : c.isDigit = true
      · simp [hc, ih]
      · simp [hc]

theorem digits?_append (hq : Quits q) (p : Text) :
    digits? (p ++ q) = (digits? p).map fun (ds, r) => (ds, r ++ q) := by
  obtain ⟨htake, hdrop⟩ := takeWhile_append_quits hq p
  unfold digits?
  rw [htake, hdrop]
  cases p.takeWhile Char.isDigit <;> rfl

theorem integerPart?_append (hq : Quits q) (p : Text) :
    integerPart? (p ++ q) = (integerPart? p).map fun (ds, r) => (ds, r ++ q) := by
  have hplain : ∀ t : Text, t.head? ≠ some '0' → integerPart? t = digits? t := by
    intro t ht
    unfold integerPart?
    split
    · exact absurd rfl ht
    · rfl
  cases p with
  | nil =>
      have hhead : q.head? ≠ some '0' := fun he => absurd (hq '0' he) (by decide)
      rw [List.nil_append, hplain q hhead]
      exact digits?_append hq []
  | cons c p =>
      by_cases hc : c = '0'
      · subst hc
        rfl
      · rw [hplain (c :: p) (by simpa using hc), hplain (c :: p ++ q) (by simpa using hc)]
        exact digits?_append hq (c :: p)

theorem fraction_point (rest : Text) :
    fraction ('.' :: rest) = match digits? rest with
      | some (ds, after) => (some ds, after)
      | none => (none, '.' :: rest) := rfl

theorem fraction_append (hq : Quits q) (p : Text) :
    fraction (p ++ q) = ((fraction p).1, (fraction p).2 ++ q) := by
  have hplain : ∀ t : Text, t.head? ≠ some '.' → fraction t = (none, t) := by
    intro t ht
    unfold fraction
    split
    · exact absurd rfl ht
    · rfl
  cases p with
  | nil =>
      have hhead : q.head? ≠ some '.' := fun he => absurd (hq '.' he) (by decide)
      rw [List.nil_append, hplain q hhead]
      rfl
  | cons c p =>
      by_cases hc : c = '.'
      · subst hc
        rw [List.cons_append, fraction_point, fraction_point, digits?_append hq p]
        cases digits? p <;> rfl
      · rw [hplain (c :: p) (by simpa using hc), hplain (c :: p ++ q) (by simpa using hc)]

/-- The sign of an exponent, and the text after it. -/
def exponentSign : Text → Bool × Text
  | '-' :: r => (true, r)
  | '+' :: r => (false, r)
  | r => (false, r)

theorem exponentSign_append (hq : Quits q) (p : Text) :
    exponentSign (p ++ q) = ((exponentSign p).1, (exponentSign p).2 ++ q) := by
  cases p with
  | nil =>
      cases q with
      | nil => rfl
      | cons c q =>
          rw [List.nil_append]
          unfold exponentSign
          split
          · next he =>
              injection he with hc _
              subst hc
              exact absurd (quits_cons.mp hq) (by decide)
          · next he =>
              injection he with hc _
              subst hc
              exact absurd (quits_cons.mp hq) (by decide)
          · rfl
  | cons c p =>
      rw [List.cons_append]
      unfold exponentSign
      split <;> simp_all

theorem exponent_cons (mark : Char) (rest : Text) :
    exponent (mark :: rest) =
      if mark = 'e' || mark = 'E' then
        match digits? (exponentSign rest).2 with
        | some (ds, after) =>
          (some (if (exponentSign rest).1 then -(digitsValue ds : Int) else digitsValue ds), after)
        | none => (none, mark :: rest)
      else (none, mark :: rest) := rfl

theorem exponent_append (hq : Quits q) (p : Text) :
    exponent (p ++ q) = ((exponent p).1, (exponent p).2 ++ q) := by
  cases p with
  | nil =>
      cases q with
      | nil => rfl
      | cons c q =>
          rw [quits_cons] at hq
          have hc : (decide (c = 'e') || decide (c = 'E')) = false := by
            rw [Bool.eq_false_iff]
            intro he
            simp only [Bool.or_eq_true, decide_eq_true_eq] at he
            rcases he with rfl | rfl <;> exact absurd hq (by decide)
          rw [List.nil_append, exponent_cons, hc]
          rfl
  | cons c p =>
      rw [List.cons_append, exponent_cons, exponent_cons]
      split
      · rw [exponentSign_append hq p]
        dsimp only
        rw [digits?_append hq]
        cases digits? (exponentSign p).2 <;> rfl
      · rfl

/-- The sign of a number, and the text after it. -/
def numberSign : Text → Bool × Text
  | '-' :: r => (true, r)
  | r => (false, r)

/-- The value of a number by its parts. -/
def assemble (negative : Bool) (whole : Text) (frac : Option Text) (power : Option Int) : Value :=
  match frac, power with
  | none, none => .int (if negative then -(digitsValue whole : Int) else digitsValue whole)
  | _, _ =>
    .float (ofDecimal negative (digitsValue (whole ++ frac.getD [])) (power.getD 0 - (frac.getD []).length))

/-- The number at the start of a text behind its sign. -/
def numberBehind? (negative : Bool) (t : Text) : Option (Value × Text) :=
  match integerPart? t with
  | none => none
  | some (whole, rest) =>
    some (assemble negative whole (fraction rest).1 (exponent (fraction rest).2).1,
      (exponent (fraction rest).2).2)

theorem number?_eq (t : Text) : number? t = numberBehind? (numberSign t).1 (numberSign t).2 := by
  unfold number?
  split
  next negative unsigned hsign =>
    have hsign : numberSign t = (negative, unsigned) := hsign
    rw [hsign]
    unfold numberBehind? assemble
    dsimp only
    cases integerPart? unsigned with
    | none => rfl
    | some found =>
        obtain ⟨whole, rest⟩ := found
        dsimp only
        cases (fraction rest).1 <;> cases (exponent (fraction rest).2).1 <;> rfl

theorem numberSign_append (hq : Quits q) (p : Text) :
    numberSign (p ++ q) = ((numberSign p).1, (numberSign p).2 ++ q) := by
  have hplain : ∀ t : Text, t.head? ≠ some '-' → numberSign t = (false, t) := by
    intro t ht
    unfold numberSign
    split
    · exact absurd rfl ht
    · rfl
  cases p with
  | nil =>
      have hhead : q.head? ≠ some '-' := fun he => absurd (hq '-' he) (by decide)
      rw [List.nil_append, hplain q hhead]
      rfl
  | cons c p =>
      by_cases hc : c = '-'
      · subst hc
        rfl
      · rw [hplain (c :: p) (by simpa using hc), hplain (c :: p ++ q) (by simpa using hc)]

theorem number?_append (hq : Quits q) (p : Text) :
    number? (p ++ q) = (number? p).map fun (v, r) => (v, r ++ q) := by
  rw [number?_eq, number?_eq, numberSign_append hq]
  unfold numberBehind?
  rw [integerPart?_append hq]
  cases integerPart? (numberSign p).2 with
  | none => rfl
  | some found =>
      obtain ⟨whole, rest⟩ := found
      simp only [Option.map_some]
      rw [fraction_append hq]
      dsimp only
      rw [exponent_append hq]

theorem isPrefixOf?_append {word : Text} (hw : ∀ c ∈ word, isScalarChar c = true) (hq : Quits q) (p : Text) :
    word.isPrefixOf? (p ++ q) = (word.isPrefixOf? p).map (· ++ q) := by
  induction word generalizing p with
  | nil => rfl
  | cons a word ih =>
      cases p with
      | nil =>
          cases q with
          | nil => rfl
          | cons c q =>
              have hne : (a == c) = false := by
                rw [beq_eq_false_iff_ne]
                rintro rfl
                rw [quits_cons, hw a List.mem_cons_self] at hq
                exact absurd hq (by decide)
              simp [List.isPrefixOf?, hne]
      | cons c p =>
          rw [List.cons_append, List.isPrefixOf?, List.isPrefixOf?]
          split
          · exact ih (fun x hx => hw x (List.mem_cons_of_mem _ hx)) p
          · rfl

/-- The word at the start of a text. -/
def constant? (t : Text) : Option (Value × Text) :=
  constants.findSome? fun (word, v) => (word.toList.isPrefixOf? t).map fun r => (v, r)

theorem scalar?_eq (t : Text) : scalar? t = (constant? t).or (number? t) := by
  unfold scalar? constant?
  split
  · next h => rw [h]; rfl
  · next h => rw [h]; rfl

theorem constant?_append (hq : Quits q) (p : Text) :
    constant? (p ++ q) = (constant? p).map fun (v, r) => (v, r ++ q) := by
  have hwords : ∀ entry ∈ constants, ∀ c ∈ entry.1.toList, isScalarChar c = true := by decide
  unfold constant?
  generalize constants = entries at hwords
  induction entries with
  | nil => rfl
  | cons entry more ih =>
      rw [List.findSome?_cons, List.findSome?_cons]
      dsimp only
      rw [isPrefixOf?_append (hwords entry List.mem_cons_self) hq]
      cases entry.1.toList.isPrefixOf? p with
      | none => exact ih fun e he => hwords e (List.mem_cons_of_mem _ he)
      | some r => rfl

/-- **A scalar is read up to a character that it cannot go on with**, and what stands behind is left alone. -/
theorem scalar?_append (hq : Quits q) (p : Text) :
    scalar? (p ++ q) = (scalar? p).map fun (v, r) => (v, r ++ q) := by
  rw [scalar?_eq, scalar?_eq, constant?_append hq, number?_append hq]
  cases constant? p <;> rfl

end

/-! ## Parts of numbers -/

/-- Digits, at least one. -/
def Digits (ds : Text) : Prop := ds ≠ [] ∧ ∀ c ∈ ds, c.isDigit = true

/-- A text that does not start with a digit. -/
def NoDigit (t : Text) : Prop := ∀ c ∈ t.head?, c.isDigit = false

theorem digits?_eq {ds rest : Text} (hds : Digits ds) (hrest : NoDigit rest) :
    digits? (ds ++ rest) = some (ds, rest) := by
  have hstop : rest.takeWhile Char.isDigit = [] ∧ rest.dropWhile Char.isDigit = rest := by
    cases rest with
    | nil => exact ⟨rfl, rfl⟩
    | cons c rest =>
        have hc : c.isDigit = false := hrest c rfl
        simp [hc]
  unfold digits?
  rw [List.takeWhile_append_of_pos hds.2, List.dropWhile_append_of_pos hds.2, hstop.1, hstop.2,
    List.append_nil]
  cases ds with
  | nil => exact absurd rfl hds.1
  | cons c ds => rfl

theorem integerPart?_eq {c : Char} {ds rest : Text} (hds : Digits (c :: ds)) (hfirst : c ≠ '0' ∨ ds = [])
    (hrest : NoDigit rest) : integerPart? (c :: ds ++ rest) = some (c :: ds, rest) := by
  by_cases hc : c = '0'
  · obtain rfl : ds = [] := hfirst.resolve_left (not_not_intro hc)
    subst hc
    rfl
  · rw [← digits?_eq hds hrest]
    unfold integerPart?
    split
    · next he => exact absurd (List.cons.inj he).1 hc
    · rfl

/-- The fraction of a number as it is written. -/
def fractionText : Option Text → Text
  | none => []
  | some ds => '.' :: ds

theorem fraction_eq {frac : Option Text} {rest : Text} (hfrac : ∀ ds ∈ frac, Digits ds)
    (hrest : NoDigit rest) (hpoint : '.' ∉ rest.head?) : fraction (fractionText frac ++ rest) = (frac, rest) := by
  cases frac with
  | none =>
      cases rest with
      | nil => rfl
      | cons c rest =>
          have hc : c ≠ '.' := fun he => hpoint (by simp [he])
          unfold fraction fractionText
          split
          · next he => exact absurd (List.cons.inj he).1 hc
          · rfl
  | some ds =>
      show fraction ('.' :: (ds ++ rest)) = _
      rw [fraction_point, digits?_eq (hfrac ds rfl) hrest]

/-- The power of ten of a number as it is written, with its sign. -/
def powerText : Option (Bool × Text) → Text
  | none => []
  | some (negative, ds) => 'e' :: (if negative then '-' else '+') :: ds

/-- The number that a written power of ten is. -/
def powerValue (power : Bool × Text) : Int :=
  if power.1 then -(digitsValue power.2 : Int) else digitsValue power.2

theorem exponent_eq {power : Option (Bool × Text)} (hpower : ∀ p ∈ power, Digits p.2) :
    exponent (powerText power) = (power.map powerValue, []) := by
  cases power with
  | none => rfl
  | some p =>
      obtain ⟨negative, ds⟩ := p
      have hsign : exponentSign ((if negative then '-' else '+') :: ds) = (negative, ds) := by
        cases negative <;> rfl
      have hdigits : digits? (ds ++ []) = some (ds, []) := digits?_eq (hpower _ rfl) (by simp [NoDigit])
      rw [List.append_nil] at hdigits
      unfold powerText
      rw [exponent_cons, hsign]
      dsimp only
      rw [hdigits]
      rfl

/-- The sign of a number as it is written. -/
def signText (negative : Bool) : Text := if negative then "-".toList else []

theorem numberSign_eq (negative : Bool) {c : Char} (hc : c.isDigit = true) (t : Text) :
    numberSign (signText negative ++ c :: t) = (negative, c :: t) := by
  cases negative with
  | true => rfl
  | false =>
      show numberSign (c :: t) = _
      unfold numberSign
      split
      · next he =>
          rw [(List.cons.inj he).1] at hc
          exact absurd hc (by decide)
      · rfl

/-- **A number is read from its parts.** -/
theorem number?_written (negative : Bool) {c : Char} {ds : Text} {frac : Option Text}
    {power : Option (Bool × Text)} (hds : Digits (c :: ds)) (hfirst : c ≠ '0' ∨ ds = [])
    (hfrac : ∀ fs ∈ frac, Digits fs) (hpower : ∀ p ∈ power, Digits p.2) :
    number? (signText negative ++ (c :: ds ++ (fractionText frac ++ powerText power))) =
      some (assemble negative (c :: ds) frac (power.map powerValue), []) := by
  have hbehind : NoDigit (powerText power) ∧ '.' ∉ (powerText power).head? := by
    cases power with
    | none => simp [powerText, NoDigit]
    | some p => simp [powerText, NoDigit, Char.isDigit]
  have hrest : NoDigit (fractionText frac ++ powerText power) := by
    cases frac with
    | none => exact hbehind.1
    | some fs => simp [fractionText, NoDigit, Char.isDigit]
  rw [number?_eq, List.cons_append, numberSign_eq negative (hds.2 c List.mem_cons_self)]
  dsimp only
  unfold numberBehind?
  rw [← List.cons_append, integerPart?_eq hds hfirst hrest]
  dsimp only
  rw [fraction_eq hfrac hbehind.1 hbehind.2]
  dsimp only
  rw [exponent_eq hpower]

/-- No word starts with a digit, with or without a sign. -/
theorem constant?_number (negative : Bool) {c : Char} (hc : c.isDigit = true) (t : Text) :
    constant? (signText negative ++ c :: t) = none := by
  have hwords : ∀ entry ∈ constants, 2 ≤ entry.1.toList.length ∧
      ∀ x ∈ entry.1.toList.take 2, x.isDigit = false := by decide
  have hne : ∀ x : Char, x.isDigit = false → (x == c) = false := by
    intro x hx
    rw [beq_eq_false_iff_ne]
    rintro rfl
    rw [hc] at hx
    exact absurd hx (by decide)
  unfold constant?
  rw [List.findSome?_eq_none_iff]
  rintro ⟨word, v⟩ hentry
  obtain ⟨hlength, hletters⟩ := hwords _ hentry
  dsimp only at hlength hletters ⊢
  rw [Option.map_eq_none_iff]
  match word.toList, hlength, hletters with
  | a :: b :: u, _, hletters =>
      have ha := hne a (hletters a (by simp))
      have hb := hne b (hletters b (by simp))
      cases negative <;> simp [signText, List.isPrefixOf?, ha, hb]

/-! ## Numbers -/

theorem scalar?_number {negative : Bool} {c : Char} (hc : c.isDigit = true) {t : Text} {found : Value × Text}
    (h : number? (signText negative ++ c :: t) = some found) : scalar? (signText negative ++ c :: t) = some found := by
  rw [scalar?_eq, constant?_number negative hc, h]
  rfl

theorem digits_ofNat (n : Nat) : Digits (ofNat n) :=
  ⟨ofNat_ne_nil n, fun _ hc => isDigit_of_mem_ofNat hc⟩

/-- The numeral of a number starts with a nought only if it is nothing else. -/
theorem ofNat_first (n : Nat) : ∃ c ds, ofNat n = c :: ds ∧ (c ≠ '0' ∨ ds = []) := by
  rcases Nat.eq_zero_or_pos n with rfl | hn
  · exact ⟨'0', [], rfl, Or.inr rfl⟩
  · obtain ⟨c, ds, heq, hc⟩ := ofNat_eq_cons hn
    exact ⟨c, ds, heq, Or.inl hc⟩

theorem scalar?_ofNat (negative : Bool) (n : Nat) :
    scalar? (signText negative ++ ofNat n) = some (.int (if negative then -(n : Int) else n), []) := by
  obtain ⟨c, ds, heq, hfirst⟩ := ofNat_first n
  have hdigits := digits_ofNat n
  have hvalue := digitsValue_ofNat n
  rw [heq] at hdigits hvalue ⊢
  have hread := @number?_written negative c ds none none hdigits hfirst (by simp) (by simp)
  rw [show c :: ds ++ (fractionText none ++ powerText none) = c :: ds by simp [fractionText, powerText]] at hread
  rw [scalar?_number (hdigits.2 c List.mem_cons_self) hread]
  unfold assemble
  rw [Option.map_none, hvalue]

/-- **An integer reads back.** -/
theorem scalar?_ofInt (n : Int) : scalar? (ofInt n) = some (.int n, []) := by
  cases n with
  | ofNat n => exact scalar?_ofNat false n
  | negSucc n => exact scalar?_ofNat true (n + 1)

/-- The parts of a number with a point, in any notation of a layout, and what their digits say about the digits
    that are written. -/
structure Parts (digits : Text) (power : Int) (written : Text) where
  first : Char
  more : Text
  frac : Option Text
  exponent : Option (Bool × Text)
  /-- The zeros that are written behind the digits. -/
  zeros : Nat
  text : written = first :: more ++ (fractionText frac ++ powerText exponent)
  whole_digits : Digits (first :: more)
  whole_first : first ≠ '0' ∨ more = []
  frac_digits : ∀ ds ∈ frac, Digits ds
  exponent_digits : ∀ p ∈ exponent, Digits p.2
  pointed : frac ≠ none ∨ exponent ≠ none
  value : digitsValue (first :: more ++ frac.getD []) = digitsValue digits * 10 ^ zeros
  scale : (exponent.map powerValue).getD 0 - (frac.getD []).length + zeros = power + 1 - digits.length

section
variable {c : Char} {ds : Text}

theorem digits_append_zeros (hds : Digits (c :: ds)) (k : Nat) :
    Digits (c :: (ds ++ List.replicate k '0')) := by
  refine ⟨List.cons_ne_nil _ _, fun x hx => ?_⟩
  rcases List.mem_append.mp (show x ∈ (c :: ds) ++ List.replicate k '0' from hx) with hx | hx
  · exact hds.2 x hx
  · rw [List.eq_of_mem_replicate hx]
    rfl

/-- Digits whose first one is behind the point. -/
def smallParts (hds : Digits (c :: ds)) {power : Int} (hpower : power < 0) :
    Parts (c :: ds) power (positional (c :: ds) power) where
  first := '0'
  more := []
  frac := some (List.replicate ((-power).toNat - 1) '0' ++ c :: ds)
  exponent := none
  zeros := 0
  text := by
    unfold positional
    rw [if_pos hpower, List.append_assoc]
    simp [fractionText, powerText]
  whole_digits := by simp [Digits, Char.isDigit]
  whole_first := Or.inr rfl
  frac_digits := by
    rintro fs ⟨⟩
    refine ⟨by simp, fun x hx => ?_⟩
    rcases List.mem_append.mp hx with hx | hx
    · rw [List.eq_of_mem_replicate hx]
      rfl
    · exact hds.2 x hx
  exponent_digits := by simp
  pointed := Or.inl (by simp)
  value := by
    show digitsValue ('0' :: List.replicate ((-power).toNat - 1) '0' ++ c :: ds) = _
    rw [← List.replicate_succ, digitsValue_append, digitsValue_zeros, Nat.zero_mul, Nat.zero_add, Nat.pow_zero,
      Nat.mul_one]
  scale := by
    simp only [Option.map_none, Option.getD_none, Option.getD_some, List.length_append, List.length_replicate]
    omega

/-- Digits that all stand before the point. -/
def wholeParts (hds : Digits (c :: ds)) (hfirst : c ≠ '0') {power : Int} (hpower : 0 ≤ power)
    (hlength : ds.length ≤ power) : Parts (c :: ds) power (positional (c :: ds) power) where
  first := c
  more := ds ++ List.replicate (power.toNat - ds.length) '0'
  frac := some ['0']
  exponent := none
  zeros := power.toNat - ds.length + 1
  text := by
    have htake : (c :: ds).length ≤ power.toNat + 1 := by simp; omega
    have hzeros : power.toNat + 1 - (c :: ds).length = power.toNat - ds.length := by simp
    unfold positional
    rw [if_neg (not_lt.mpr hpower)]
    dsimp only
    rw [List.take_of_length_le htake, List.drop_of_length_le htake, hzeros]
    simp [fractionText, powerText]
  whole_digits := digits_append_zeros hds _
  whole_first := Or.inl hfirst
  frac_digits := by
    rintro fs ⟨⟩
    simp [Digits, Char.isDigit]
  exponent_digits := by simp
  pointed := Or.inl (by simp)
  value := by
    show digitsValue (c :: (ds ++ List.replicate (power.toNat - ds.length) '0') ++ ['0']) = _
    rw [← List.cons_append, List.append_assoc, ← List.replicate_succ', digitsValue_append, digitsValue_zeros,
      List.length_replicate, Nat.add_zero]
  scale := by
    simp only [Option.map_none, Option.getD_none, Option.getD_some, List.length_cons, List.length_nil]
    omega

/-- Digits on both sides of the point. -/
def mixedParts (hds : Digits (c :: ds)) (hfirst : c ≠ '0') {power : Int} (hpower : 0 ≤ power)
    (hlength : power < ds.length) : Parts (c :: ds) power (positional (c :: ds) power) where
  first := c
  more := ds.take power.toNat
  frac := some (ds.drop power.toNat)
  exponent := none
  zeros := 0
  text := by
    have hlong : power.toNat + 1 - (c :: ds).length = 0 := by simp; omega
    have hafter : (ds.drop power.toNat).isEmpty = false := by
      rw [List.isEmpty_eq_false_iff, Ne, List.drop_eq_nil_iff]
      omega
    unfold positional
    rw [if_neg (not_lt.mpr hpower)]
    dsimp only
    rw [List.take_succ_cons, List.drop_succ_cons, hlong, hafter]
    simp [fractionText, powerText]
  whole_digits :=
    ⟨List.cons_ne_nil _ _, fun x hx => hds.2 x (List.cons_subset_cons c (List.take_subset _ _) hx)⟩
  whole_first := Or.inl hfirst
  frac_digits := by
    rintro fs ⟨⟩
    refine ⟨?_, fun x hx => hds.2 x (List.mem_cons_of_mem c (List.drop_subset _ _ hx))⟩
    rw [Ne, List.drop_eq_nil_iff]
    omega
  exponent_digits := by simp
  pointed := Or.inl (by simp)
  value := by
    show digitsValue (c :: ds.take power.toNat ++ ds.drop power.toNat) = _
    rw [List.cons_append, List.take_append_drop, Nat.pow_zero, Nat.mul_one]
  scale := by
    simp only [Option.map_none, Option.getD_none, Option.getD_some, List.length_cons, List.length_drop]
    omega

/-- Digits with an exponent, part by part. -/
theorem scientific_cons (c : Char) (ds : Text) (power : Int) :
    scientific (c :: ds) power = [c] ++ (fractionText (if ds.isEmpty then none else some ds) ++
      powerText (some (decide (power < 0),
        if (ofNat power.natAbs).length < 2 then '0' :: ofNat power.natAbs else ofNat power.natAbs))) := by
  unfold scientific
  cases ds <;> by_cases hpower : power < 0 <;> simp [fractionText, powerText, hpower]

/-- An exponent is written with two digits at least. -/
theorem digits_exponent (power : Int) :
    Digits (if (ofNat power.natAbs).length < 2 then '0' :: ofNat power.natAbs else ofNat power.natAbs) := by
  split
  · refine ⟨List.cons_ne_nil _ _, fun x hx => ?_⟩
    rcases List.mem_cons.mp hx with rfl | hx
    · rfl
    · exact isDigit_of_mem_ofNat hx
  · exact digits_ofNat _

theorem powerValue_exponent (power : Int) :
    powerValue (decide (power < 0),
      if (ofNat power.natAbs).length < 2 then '0' :: ofNat power.natAbs else ofNat power.natAbs) = power := by
  have hvalue : digitsValue (if (ofNat power.natAbs).length < 2 then '0' :: ofNat power.natAbs
      else ofNat power.natAbs) = power.natAbs := by
    split
    · rw [← List.singleton_append, digitsValue_append, digitsValue_ofNat]
      simp [digitsValue]
    · exact digitsValue_ofNat _
  simp only [powerValue, hvalue, decide_eq_true_eq]
  split <;> omega

theorem fraction_getD (ds : Text) : (if ds.isEmpty then none else some ds).getD [] = ds := by
  cases ds <;> rfl

theorem digits_fraction (hds : Digits (c :: ds)) :
    ∀ fs ∈ (if ds.isEmpty then none else some ds : Option Text), Digits fs := by
  intro fs hfs
  cases ds with
  | nil => simp at hfs
  | cons d more =>
      obtain rfl : d :: more = fs := by simpa using hfs
      exact ⟨List.cons_ne_nil _ _, fun x hx => hds.2 x (List.mem_cons_of_mem c hx)⟩

/-- Digits with an exponent. -/
def scientificParts (hds : Digits (c :: ds)) (hfirst : c ≠ '0') (power : Int) :
    Parts (c :: ds) power (scientific (c :: ds) power) where
  first := c
  more := []
  frac := if ds.isEmpty then none else some ds
  exponent := some (decide (power < 0),
    if (ofNat power.natAbs).length < 2 then '0' :: ofNat power.natAbs else ofNat power.natAbs)
  zeros := 0
  text := scientific_cons c ds power
  whole_digits :=
    ⟨List.cons_ne_nil _ _, fun x hx => hds.2 x (List.mem_singleton.mp hx ▸ List.mem_cons_self)⟩
  whole_first := Or.inl hfirst
  frac_digits := digits_fraction hds
  exponent_digits := by
    rintro p ⟨⟩
    exact digits_exponent power
  pointed := Or.inr (by simp)
  value := by
    rw [fraction_getD, Nat.pow_zero, Nat.mul_one]
    rfl
  scale := by
    simp only [Option.map_some, Option.getD_some, powerValue_exponent, fraction_getD, List.length_cons]
    omega

/-- The parts of a number in the notation that its power of ten asks for. -/
theorem parts_written (hds : Digits (c :: ds)) (hfirst : c ≠ '0') (power : Int) :
    Nonempty (Parts (c :: ds) power (positional (c :: ds) power)) ∧
      Nonempty (Parts (c :: ds) power (scientific (c :: ds) power)) := by
  refine ⟨?_, ⟨scientificParts hds hfirst power⟩⟩
  rcases lt_or_ge power 0 with hneg | hpos
  · exact ⟨smallParts hds hneg⟩
  · rcases le_or_gt (ds.length : Int) power with hle | hlt
    · exact ⟨wholeParts hds hfirst hpos hle⟩
    · exact ⟨mixedParts hds hfirst hpos hlt⟩

/-- What is read from parts: a number with the value of the digits. -/
theorem Parts.reads {digits written : Text} {power : Int} (w : Parts digits power written) (negative : Bool) :
    ∃ (d : Nat) (x : Int), scalar? (signText negative ++ written) = some (.float (ofDecimal negative d x), []) ∧
      d = digitsValue digits * 10 ^ w.zeros ∧ x + w.zeros = power + 1 - digits.length := by
  have hread := number?_written negative w.whole_digits w.whole_first w.frac_digits w.exponent_digits
  have hfloat : assemble negative (w.first :: w.more) w.frac (w.exponent.map powerValue) =
      .float (ofDecimal negative (digitsValue (w.first :: w.more ++ w.frac.getD []))
        ((w.exponent.map powerValue).getD 0 - (w.frac.getD []).length)) := by
    unfold assemble
    split
    · next hfrac hexponent => exact absurd w.pointed (by simp_all)
    · rfl
  rw [List.cons_append] at hread
  have hscalar := scalar?_number (w.whole_digits.2 _ List.mem_cons_self) hread
  rw [← List.cons_append, ← w.text, hfloat] at hscalar
  exact ⟨_, _, hscalar, w.value, w.scale⟩

/-- **A number with a point reads back.** -/
theorem scalar?_write {x : Binary64} (hx : Readable x) : scalar? (layout.write x) = some (.float x, []) := by
  cases x with
  | nan p =>
      obtain rfl : p = 0 := hx
      rfl
  | infinite s => cases s <;> rfl
  | finite s m e =>
      rcases Nat.eq_zero_or_pos m with rfl | hm
      · obtain rfl : e = minExponent := by
          obtain ⟨-, -, -, hleast | he⟩ := hx
          · exact absurd leastMantissa_pos (not_lt.mpr hleast)
          · exact he
        cases s <;> rfl
      · obtain ⟨hdigits, hreads⟩ := decimal_reads hx hm s
        obtain ⟨c, ds, z, hsignificant, hc, hds, hvalue⟩ := significant_spec hdigits
        have hds : Digits (c :: ds) := ⟨List.cons_ne_nil _ _, hds⟩
        have hpos := digitsValue_pos ds (hds.2 c List.mem_cons_self) hc
        obtain ⟨⟨small⟩, ⟨large⟩⟩ := parts_written hds hc ((decimal m e).exponent + ds.length + z)
        -- either notation is read as a decimal with the value of the digits
        have hparts : ∀ {written : Text}, Parts (c :: ds) ((decimal m e).exponent + ds.length + z) written →
            scalar? (signText s ++ written) = some (.float (.finite s m e), []) := by
          intro written w
          obtain ⟨d, x, hread, hd, hx⟩ := w.reads s
          have hdpos : 0 < d := hd ▸ Nat.mul_pos hpos (Nat.pow_pos (by decide))
          have hx : x = (decimal m e).exponent + z - w.zeros := by
            rw [List.length_cons] at hx
            omega
          rw [hread, ← hreads, ofDecimal_congr hdpos hdigits ?_ s]
          rw [hvalue, hd, hx, zpow_sub₀ (by norm_num : (10 : ℚ) ≠ 0), zpow_add₀ (by norm_num : (10 : ℚ) ≠ 0)]
          push_cast
          rw [zpow_natCast, zpow_natCast]
          field_simp
        unfold Layout.write
        dsimp only
        rw [if_neg hm.ne', hsignificant]
        dsimp only
        split
        · exact hparts small
        · exact hparts large

end

/-! ## What is read -/

/-- A text with a part of a scalar taken from its start. -/
def Goes (t r : Text) : Prop := ∃ p, t = p ++ r ∧ ∀ c ∈ p, isScalarChar c = true

theorem Goes.refl (t : Text) : Goes t t := ⟨[], rfl, by simp⟩

theorem Goes.trans {t u r : Text} (h₁ : Goes t u) (h₂ : Goes u r) : Goes t r := by
  obtain ⟨p, rfl, hp⟩ := h₁
  obtain ⟨q, rfl, hq⟩ := h₂
  refine ⟨p ++ q, (List.append_assoc p q r).symm, fun c hc => ?_⟩
  exact (List.mem_append.mp hc).elim (hp c) (hq c)

theorem Goes.cons {c : Char} {t r : Text} (hc : isScalarChar c = true) (h : Goes t r) : Goes (c :: t) r :=
  Goes.trans ⟨[c], rfl, by simpa using hc⟩ h

theorem digits?_goes {t ds r : Text} (h : digits? t = some (ds, r)) : Goes t r ∧ r.length < t.length := by
  have hsplit := List.takeWhile_append_dropWhile (p := Char.isDigit) (l := t)
  unfold digits? at h
  split at h
  · simp at h
  · next htake =>
      injection h with h
      injection h with _ hr
      rw [hr] at hsplit
      refine ⟨⟨_, hsplit.symm, fun c hc => isScalarChar_of_isDigit (List.mem_takeWhile_imp hc)⟩, ?_⟩
      rw [← hsplit, List.length_append]
      exact Nat.lt_add_of_pos_left (List.length_pos_of_ne_nil htake)

theorem integerPart?_goes {t ds r : Text} (h : integerPart? t = some (ds, r)) : Goes t r ∧ r.length < t.length := by
  unfold integerPart? at h
  split at h
  · injection h with h
    injection h with _ hr
    subst hr
    exact ⟨Goes.cons (by decide) (Goes.refl _), by simp⟩
  · exact digits?_goes h

theorem fraction_goes (t : Text) : Goes t (fraction t).2 := by
  unfold fraction
  split
  · split
    · next h => exact Goes.cons (by decide) (digits?_goes h).1
    · exact Goes.refl _
  · exact Goes.refl _

theorem exponentSign_goes (t : Text) : Goes t (exponentSign t).2 := by
  unfold exponentSign
  split
  · exact Goes.cons (by decide) (Goes.refl _)
  · exact Goes.cons (by decide) (Goes.refl _)
  · exact Goes.refl _

theorem exponent_goes (t : Text) : Goes t (exponent t).2 := by
  cases t with
  | nil => exact Goes.refl _
  | cons mark rest =>
      rw [exponent_cons]
      split
      · next hmark =>
          have hmark : isScalarChar mark = true := by
            simp only [Bool.or_eq_true, decide_eq_true_eq] at hmark
            rcases hmark with rfl | rfl <;> decide
          split
          · next h => exact Goes.cons hmark ((exponentSign_goes rest).trans (digits?_goes h).1)
          · exact Goes.refl _
      · exact Goes.refl _

theorem Goes.length_le {t r : Text} (h : Goes t r) : r.length ≤ t.length := by
  obtain ⟨p, rfl, -⟩ := h
  simp

theorem numberSign_goes (t : Text) : Goes t (numberSign t).2 := by
  unfold numberSign
  split
  · exact Goes.cons (by decide) (Goes.refl _)
  · exact Goes.refl _

theorem number?_spec {t r : Text} {v : Value} (h : number? t = some (v, r)) :
    Goes t r ∧ r.length < t.length ∧ ((∃ n, v = .int n) ∨ ∃ x, Readable x ∧ v = .float x) := by
  rw [number?_eq] at h
  unfold numberBehind? at h
  split at h
  · simp at h
  · next whole rest hwhole =>
      injection h with h
      injection h with hv hr
      have hsign := numberSign_goes t
      have hinteger := integerPart?_goes hwhole
      have hbehind := (fraction_goes rest).trans (exponent_goes (fraction rest).2)
      rw [hr] at hbehind
      refine ⟨(hsign.trans hinteger.1).trans hbehind, ?_, ?_⟩
      · exact Nat.lt_of_le_of_lt hbehind.length_le (Nat.lt_of_lt_of_le hinteger.2 hsign.length_le)
      · unfold assemble at hv
        split at hv
        · exact Or.inl ⟨_, hv.symm⟩
        · exact Or.inr ⟨_, readable_ofDecimal _ _ _, hv.symm⟩

theorem isPrefixOf?_eq_some {word t r : Text} (h : word.isPrefixOf? t = some r) : t = word ++ r := by
  induction word generalizing t with
  | nil => simpa [List.isPrefixOf?] using h
  | cons a word ih =>
      cases t with
      | nil => simp [List.isPrefixOf?] at h
      | cons c t =>
          rw [List.isPrefixOf?] at h
          split at h
          · next hac => rw [eq_of_beq hac, List.cons_append, ih h]
          · simp at h

theorem constant?_spec {t r : Text} {v : Value} (h : constant? t = some (v, r)) :
    ∃ word, (word, v) ∈ constants ∧ t = word.toList ++ r := by
  unfold constant? at h
  obtain ⟨⟨word, v'⟩, hmem, hfound⟩ := List.exists_of_findSome?_eq_some h
  obtain ⟨r', hr', heq⟩ := Option.map_eq_some_iff.mp hfound
  injection heq with hv hr
  subst hv hr
  exact ⟨word, hmem, isPrefixOf?_eq_some hr'⟩

/-- What a scalar can be, and what its text consists of. -/
theorem scalar?_spec {t r : Text} {v : Value} (h : scalar? t = some (v, r)) :
    Goes t r ∧ r.length < t.length ∧
      (v = .null ∨ (∃ b, v = .bool b) ∨ (∃ n, v = .int n) ∨ ∃ x, Readable x ∧ v = .float x) := by
  rw [scalar?_eq, Option.or_eq_some_iff] at h
  rcases h with h | ⟨-, h⟩
  · obtain ⟨word, hmem, rfl⟩ := constant?_spec h
    have hletters : ∀ entry ∈ constants, entry.1.toList ≠ [] ∧ ∀ c ∈ entry.1.toList, isScalarChar c = true := by
      decide
    obtain ⟨hne, hword⟩ := hletters _ hmem
    refine ⟨⟨_, rfl, hword⟩, ?_, ?_⟩
    · rw [List.length_append]
      exact Nat.lt_add_of_pos_left (List.length_pos_of_ne_nil hne)
    · simp only [constants, List.mem_cons, Prod.mk.injEq, List.not_mem_nil, or_false] at hmem
      rcases hmem with ⟨-, rfl⟩ | ⟨-, rfl⟩ | ⟨-, rfl⟩ | ⟨-, rfl⟩ | ⟨-, rfl⟩ | ⟨-, rfl⟩ <;> simp [Readable]
  · obtain ⟨hgoes, hlength, hkind⟩ := number?_spec h
    exact ⟨hgoes, hlength, Or.inr (Or.inr hkind)⟩

/-! ## Scalars -/

/-- A word or a number: a value that is read from the start of some text, and no integer with too many
    digits. -/
def Scalar : Type := { v : Value // isShort v = true ∧ ∃ t r, scalar? t = some (v, r) }

namespace Scalar

/-- A scalar that was read. -/
def ofRead {t r : Text} {v : Value} (hshort : isShort v = true) (h : scalar? t = some (v, r)) : Scalar :=
  ⟨v, hshort, t, r, h⟩

/-- The text of a scalar. -/
def text (s : Scalar) : Text := ((writeAt? .indented 0 s.val).bind Word.text?).getD []

/-- A scalar is written the same way everywhere, and reads back. -/
theorem written (s : Scalar) : (∀ style depth, writeAt? style depth s.val = some (letters s.text)) ∧
    scalar? s.text = some (s.val, []) := by
  -- what is written everywhere is the text, so it is enough to say what that is
  have hspec : ∀ {s : Scalar} (t : Text), (∀ style depth, writeAt? style depth s.val = some (letters t)) →
      scalar? t = some (s.val, []) → (∀ style depth, writeAt? style depth s.val = some (letters s.text)) ∧
        scalar? s.text = some (s.val, []) := by
    intro s t hwritten hread
    have htext : s.text = t := by
      unfold text
      rw [hwritten, Option.bind_some, text?_letters]
      rfl
    rw [htext]
    exact ⟨hwritten, hread⟩
  obtain ⟨v, hshort, t, r, h⟩ := s
  obtain ⟨-, -, rfl | ⟨b, rfl⟩ | ⟨n, rfl⟩ | ⟨x, hx, rfl⟩⟩ := scalar?_spec h
  · exact hspec "null" (fun _ _ => by rw [writeAt?]) rfl
  · exact hspec (truthWord b) (fun _ _ => by rw [writeAt?]) (by cases b <;> rfl)
  · exact hspec (ofInt n) (fun _ _ => by rw [writeAt?, integerText?, if_pos hshort]; rfl) (scalar?_ofInt n)
  · exact hspec (layout.write x) (fun _ _ => by rw [writeAt?]) (scalar?_write hx)

theorem writeAt?_eq (s : Scalar) (style : Style) (depth : Nat) :
    writeAt? style depth s.val = some (letters s.text) :=
  s.written.1 style depth

/-- **A scalar reads back.** -/
theorem reads (s : Scalar) : scalar? s.text = some (s.val, []) := s.written.2

theorem isScalarChar_of_mem (s : Scalar) {c : Char} (hc : c ∈ s.text) : isScalarChar c = true := by
  obtain ⟨⟨p, hp, hchars⟩, -, -⟩ := scalar?_spec s.reads
  rw [hp, List.append_nil] at hc
  exact hchars c hc

end Scalar

end HttpFile.Json
