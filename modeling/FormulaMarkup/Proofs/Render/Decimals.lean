import FormulaMarkup.Formula.Skew
import Mathlib.Algebra.Order.Ring.Rat
import Mathlib.Data.List.DropRight
import Mathlib.Tactic.Linarith
import Mathlib.Tactic.NormNum
import Mathlib.Tactic.Ring

/-!
Widths of skews. A width is a multiple of a ten-thousandth of an em, written as a decimal number: with the
digits behind the point that it needs, and without a point if it needs none. A number has one such decimal, and
the number can be read back from it. Main statement: the width of a skew is the decimal of its ems, and the
opposite width is that of the opposite number.
-/
namespace FormulaMarkup.Skew

variable {c : Char} {cs ds : List Char}

/-! ## Digits -/

/-- What digits behind a point stand for. -/
def fraction : List Char → ℚ
  | [] => 0
  | c :: cs => ((c.toNat - '0'.toNat : Nat) + fraction cs) / 10

theorem natural?_digits (filled : cs ≠ []) (digits : ∀ c ∈ cs, c.isDigit = true) :
    natural? cs = some (Nat.ofDigitChars 10 cs 0) := by
  have none : cs.any (! Char.isDigit ·) = false := by simpa using digits
  rw [natural?, none, List.isEmpty_eq_false_iff.mpr filled, Nat.ofDigitChars_eq_foldl]
  rfl

theorem natural?_toDigits (n : Nat) : natural? (Nat.toDigits 10 n) = some n := by
  rw [natural?_digits Nat.toDigits_ne_nil fun c mem => Nat.isDigit_of_mem_toDigits (by decide) (by decide) mem,
    Nat.ofDigitChars_ten_toDigits]

theorem digit_le (digit : c.isDigit = true) : c.toNat - '0'.toNat ≤ 9 := by
  have bounds := Char.isDigit_iff_toNat.mp digit
  have zero : '0'.toNat = 48 := rfl
  have nine : '9'.toNat = 57 := rfl
  omega

theorem eq_of_digit {d : Char} (digit : c.isDigit = true) (digit' : d.isDigit = true)
    (same : c.toNat - '0'.toNat = d.toNat - '0'.toNat) : c = d := by
  have bounds := Char.isDigit_iff_toNat.mp digit
  have bounds' := Char.isDigit_iff_toNat.mp digit'
  have zero : '0'.toNat = 48 := rfl
  exact Char.toNat_inj.mp (by omega)

theorem fraction_bounds (digits : ∀ c ∈ cs, c.isDigit = true) : 0 ≤ fraction cs ∧ fraction cs < 1 := by
  induction cs with
  | nil => norm_num [fraction]
  | cons c cs ih =>
    obtain ⟨digit, digits⟩ := List.forall_mem_cons.mp digits
    obtain ⟨least, most⟩ := ih digits
    have bound : ((c.toNat - '0'.toNat : Nat) : ℚ) ≤ 9 := by exact_mod_cast digit_le digit
    have positive : (0 : ℚ) ≤ (c.toNat - '0'.toNat : Nat) := Nat.cast_nonneg _
    rw [fraction]
    constructor <;> linarith

theorem fraction_concat_zero (cs : List Char) : fraction (cs ++ ['0']) = fraction cs := by
  induction cs with
  | nil => norm_num [fraction]
  | cons c cs ih => rw [List.cons_append, fraction, fraction, ih]

/-- Zeros at the end make no difference. -/
theorem fraction_trimmed (cs : List Char) : fraction (cs.rdropWhile (· = '0')) = fraction cs := by
  induction cs using List.reverseRecOn with
  | nil => rfl
  | append_singleton cs c ih =>
    rw [List.rdropWhile_concat]
    split
    · rename_i zero
      obtain rfl : c = '0' := by simpa using zero
      rw [ih, fraction_concat_zero]
    · rfl

theorem fraction_pos (filled : cs ≠ []) (digits : ∀ c ∈ cs, c.isDigit = true)
    (trimmed : cs.getLast? ≠ some '0') : 0 < fraction cs := by
  induction cs with
  | nil => contradiction
  | cons c cs ih =>
    obtain ⟨digit, digits⟩ := List.forall_mem_cons.mp digits
    rw [fraction]
    cases cs with
    | nil =>
      have other : c ≠ '0' := by simpa using trimmed
      have positive : 0 < c.toNat - '0'.toNat := by
        by_contra zero
        exact other (eq_of_digit digit rfl (by omega))
      have cast : (0 : ℚ) < (c.toNat - '0'.toNat : Nat) := by exact_mod_cast positive
      rw [fraction]
      linarith
    | cons d ds =>
      have behind := ih (List.cons_ne_nil _ _) digits (by simpa using trimmed)
      have positive : (0 : ℚ) ≤ (c.toNat - '0'.toNat : Nat) := Nat.cast_nonneg _
      linarith

/-- Whole numbers are told apart by what is less than one behind them. -/
theorem parts_unique {m n : Nat} {x y : ℚ} (bounds : 0 ≤ x ∧ x < 1) (bounds' : 0 ≤ y ∧ y < 1)
    (same : (m : ℚ) + x = n + y) : m = n ∧ x = y := by
  have wholes : m = n := by
    have below : (m : ℚ) < (n + 1 : Nat) := by push_cast; linarith
    have above : (n : ℚ) < (m + 1 : Nat) := by push_cast; linarith
    have := Nat.cast_lt.mp below
    have := Nat.cast_lt.mp above
    omega
  subst wholes
  exact ⟨rfl, by linarith⟩

theorem fraction_injective (digits : ∀ c ∈ cs, c.isDigit = true) (digits' : ∀ c ∈ ds, c.isDigit = true)
    (trimmed : cs.getLast? ≠ some '0') (trimmed' : ds.getLast? ≠ some '0') (same : fraction cs = fraction ds) :
    cs = ds := by
  induction cs generalizing ds with
  | nil =>
    by_contra other
    have positive := fraction_pos (Ne.symm other) digits' trimmed'
    rw [← same] at positive
    exact lt_irrefl _ positive
  | cons c cs ih =>
    cases ds with
    | nil =>
      have positive := fraction_pos (List.cons_ne_nil _ _) digits trimmed
      rw [same] at positive
      exact absurd positive (lt_irrefl _)
    | cons d ds =>
      obtain ⟨digit, digits⟩ := List.forall_mem_cons.mp digits
      obtain ⟨digit', digits'⟩ := List.forall_mem_cons.mp digits'
      have tail {c : Char} {cs : List Char} (trimmed : (c :: cs).getLast? ≠ some '0') :
          cs.getLast? ≠ some '0' := by
        cases cs with
        | nil => simp
        | cons d ds => simpa using trimmed
      rw [fraction, fraction] at same
      have sums : ((c.toNat - '0'.toNat : Nat) : ℚ) + fraction cs =
          (d.toNat - '0'.toNat : Nat) + fraction ds := by
        linarith
      obtain ⟨heads, tails⟩ := parts_unique (fraction_bounds digits) (fraction_bounds digits') sums
      rw [eq_of_digit digit digit' heads, ih digits digits' (tail trimmed) (tail trimmed') tails]

/-! ## Decimals -/

/-- A decimal, and the number that it stands for. There is a point only if there are digits behind it, and the
last of them is no zero. -/
inductive Decimal : List Char → ℚ → Prop
  | whole (n : Nat) : Decimal (toString n).toList n
  | pointed (n : Nat) {places : List Char} (filled : places ≠ []) (digits : ∀ c ∈ places, c.isDigit = true)
      (trimmed : places.getLast? ≠ some '0') :
      Decimal ((toString n).toList ++ '.' :: places) (n + fraction places)

/-- What stands behind the digits of a whole number. -/
def point (places : List Char) : List Char := if places = [] then [] else '.' :: places

theorem decimal_point (n : Nat) {places : List Char} (digits : ∀ c ∈ places, c.isDigit = true)
    (trimmed : places.getLast? ≠ some '0') :
    Decimal ((toString n).toList ++ point places) (n + fraction places) := by
  by_cases filled : places = []
  · rw [point, if_pos filled, filled, fraction, List.append_nil, add_zero]
    exact .whole n
  · rw [point, if_neg filled]
    exact .pointed n filled digits trimmed

theorem Decimal.parts {x : ℚ} (decimal : Decimal cs x) : ∃ (n : Nat) (places : List Char),
    (∀ c ∈ places, c.isDigit = true) ∧ places.getLast? ≠ some '0' ∧ cs = (toString n).toList ++ point places ∧
      x = n + fraction places := by
  cases decimal with
  | whole n => exact ⟨n, [], nofun, nofun, (List.append_nil _).symm, (add_zero _).symm⟩
  | pointed n filled digits trimmed => exact ⟨n, _, digits, trimmed, by rw [point, if_neg filled], rfl⟩

/-- A number has one decimal. -/
theorem Decimal.unique {x : ℚ} (first : Decimal cs x) (second : Decimal ds x) : cs = ds := by
  obtain ⟨m, places, digits, trimmed, rfl, rfl⟩ := first.parts
  obtain ⟨n, places', digits', trimmed', rfl, same⟩ := second.parts
  obtain ⟨rfl, fractions⟩ := parts_unique (fraction_bounds digits) (fraction_bounds digits') same
  rw [fraction_injective digits digits' trimmed trimmed' fractions]

/-! ## Reading -/

/-- Reads a decimal number without a sign. -/
def value? (cs : List Char) : Option ℚ :=
  match cs.dropWhile Char.isDigit with
  | [] => (natural? cs).map fun n => (n : ℚ)
  | '.' :: places =>
    if places.isEmpty || places.any (! Char.isDigit ·) then none
    else (natural? (cs.takeWhile Char.isDigit)).map fun n => n + fraction places
  | _ => none

/-- Reads a number of ems without a sign. -/
def unsigned? (cs : List Char) : Option ℚ :=
  match cs.reverse with
  | 'm' :: 'e' :: rest => value? rest.reverse
  | _ => none

/-- Reads a width in ems. -/
def ems? (width : String) : Option ℚ :=
  match width.toList with
  | '-' :: cs => (unsigned? cs).map (- ·)
  | cs => unsigned? cs

theorem toList_toString (n : Nat) : (toString n).toList = Nat.toDigits 10 n := by
  rw [Nat.toString_eq_ofList_toDigits, String.toList_ofList]

theorem Decimal.read {x : ℚ} (decimal : Decimal cs x) : value? cs = some x := by
  obtain ⟨n, places, digits, trimmed, rfl, rfl⟩ := decimal.parts
  have all : ∀ c ∈ Nat.toDigits 10 n, c.isDigit = true :=
    fun c mem => Nat.isDigit_of_mem_toDigits (by decide) (by decide) mem
  have ends : (point places).takeWhile Char.isDigit = [] ∧
      (point places).dropWhile Char.isDigit = point places := by
    rw [point]
    split <;> exact ⟨rfl, rfl⟩
  rw [value?, toList_toString, List.dropWhile_append_of_pos all, ends.2, List.takeWhile_append_of_pos all, ends.1,
    List.append_nil]
  by_cases filled : places = []
  · simp [point, filled, fraction, natural?_toDigits]
  · have none : places.any (! Char.isDigit ·) = false := by simpa using digits
    simp [point, filled, none, natural?_toDigits]

/-! ## Whole numbers -/

theorem natural?_chars {n : Nat} (given : natural? cs = some n) : ∀ c ∈ cs, c.isDigit = true := by
  rw [natural?] at given
  split at given
  · cases given
  · rename_i all
    simpa using (not_or.mp (mt Bool.or_eq_true_iff.mpr all)).2

theorem integer?_chars {text : String} {v : Int} (given : integer? text = some v) :
    ∀ c ∈ text.toList, c.isDigit = true ∨ c = '-' ∨ c = '+' := by
  have unsigned {cs : List Char} {f : Nat → Option Int} (given : (natural? cs).bind f = some v) :
      ∀ c ∈ cs, c.isDigit = true := by
    obtain ⟨n, natural, -⟩ := Option.bind_eq_some_iff.mp given
    exact natural?_chars natural
  rw [integer?] at given
  split at given
  · rename_i cs minus
    rw [minus]
    exact List.forall_mem_cons.mpr ⟨.inr (.inl rfl), fun c mem => .inl (unsigned given c mem)⟩
  · rename_i cs plus
    rw [plus]
    exact List.forall_mem_cons.mpr ⟨.inr (.inr rfl), fun c mem => .inl (unsigned given c mem)⟩
  · exact fun c mem => .inl (unsigned given c mem)

/-- A decimal does not start with a sign. -/
theorem toDigits_unsigned (n : Nat) : ∃ c rest, Nat.toDigits 10 n = c :: rest ∧ c ≠ '-' ∧ c ≠ '+' := by
  obtain ⟨c, rest, digits⟩ := List.exists_cons_of_ne_nil (@Nat.toDigits_ne_nil n 10)
  have digit := @Nat.isDigit_of_mem_toDigits 10 n c (by decide) (by decide) (by simp [digits])
  refine ⟨c, rest, digits, ?_, ?_⟩ <;>
    · rintro rfl
      cases digit

/-- The numbers of 64 bits are read as they are written. -/
theorem integer?_toString {v : Int} (least : -2 ^ 63 ≤ v) (most : v < 2 ^ 63) :
    integer? (toString v) = some v := by
  cases v with
  | ofNat n =>
    have text : (toString (Int.ofNat n)).toList = Nat.toDigits 10 n := toList_toString n
    have small : n < Nat.pow 2 63 := by
      change n < 2 ^ 63
      have cast : (n : Int) < 2 ^ 63 := most
      omega
    have read := natural?_toDigits n
    obtain ⟨c, rest, digits, minus, plus⟩ := toDigits_unsigned n
    rw [digits] at text read
    rw [integer?, text]
    split
    · rename_i same
      exact absurd (List.cons.inj same).1 minus
    · rename_i same
      exact absurd (List.cons.inj same).1 plus
    · rw [read, Option.bind_some, if_pos small]
      rfl
  | negSucc n =>
    have text : (toString (Int.negSucc n)).toList = '-' :: Nat.toDigits 10 (n + 1) := by
      change ("-" ++ toString (n + 1)).toList = _
      rw [String.toList_append, toList_toString]
      rfl
    have small : n + 1 ≤ Nat.pow 2 63 := by
      change n + 1 ≤ 2 ^ 63
      have cast : -2 ^ 63 ≤ Int.negSucc n := least
      omega
    rw [integer?, text]
    change (natural? (Nat.toDigits 10 (n + 1))).bind _ = _
    rw [natural?_toDigits, Option.bind_some, if_pos small]
    rfl

/-! ## Widths -/

theorem places_eq (n : Nat) : places n =
    ([n / 1000 % 10, n / 100 % 10, n / 10 % 10, n % 10].map Nat.digitChar).rdropWhile (· = '0') :=
  rfl

theorem digits_places (n : Nat) : ∀ c ∈ places n, c.isDigit = true := by
  intro c mem
  have among : c ∈ [n / 1000 % 10, n / 100 % 10, n / 10 % 10, n % 10].map Nat.digitChar :=
    (List.rdropWhile_prefix (· = '0') _).subset mem
  obtain ⟨d, listed, rfl⟩ := List.mem_map.mp among
  simp only [List.mem_cons, List.not_mem_nil, or_false] at listed
  rw [Nat.isDigit_digitChar, decide_eq_true_eq]
  omega

theorem trimmed_places (n : Nat) : (places n).getLast? ≠ some '0' := by
  intro zero
  have filled : places n ≠ [] := by
    intro empty
    rw [empty] at zero
    cases zero
  have last : (places n).getLast filled = '0' :=
    Option.some.inj ((List.getLast?_eq_some_getLast filled).symm.trans zero)
  exact List.rdropWhile_last_not (· = '0') _ filled (decide_eq_true last)

theorem fraction_places {n : Nat} (small : n < 10000) : fraction (places n) = n / 10000 := by
  have value (d : Nat) (digit : d < 10) : d.digitChar.toNat - '0'.toNat = d :=
    Nat.toNat_digitChar_sub_48_of_lt_ten digit
  have whole : n = 1000 * (n / 1000 % 10) + 100 * (n / 100 % 10) + 10 * (n / 10 % 10) + n % 10 := by omega
  have cast : (n : ℚ) = 1000 * (n / 1000 % 10 : Nat) + 100 * (n / 100 % 10 : Nat) + 10 * (n / 10 % 10 : Nat) +
      (n % 10 : Nat) := by
    exact_mod_cast whole
  have bound (m : Nat) : m % 10 < 10 := Nat.mod_lt _ (by decide)
  rw [places_eq, fraction_trimmed]
  simp only [List.map_cons, List.map_nil, fraction, value _ (bound _)]
  rw [cast]
  ring

theorem decimal_eq (units : Nat) :
    (decimal units).toList = (toString (units / 10000)).toList ++ point (places (units % 10000)) := by
  rw [decimal]
  by_cases none : units % 10000 = 0
  · simp only [none, if_true]
    simp [point, show places 0 = [] by decide]
  · have filled : places (units % 10000) ≠ [] := by
      intro empty
      have zero := fraction_places (Nat.mod_lt units (by decide : 0 < 10000))
      rw [empty, fraction] at zero
      have cast : ((units % 10000 : Nat) : ℚ) = 0 := by linarith
      exact none (Nat.cast_eq_zero.mp cast)
    simp [point, none, filled]

/-- Ten-thousandths are written as the decimal of their sum. -/
theorem decimal_decimal (units : Nat) : Decimal (decimal units).toList (units / 10000) := by
  have sum : (units : ℚ) / 10000 = (units / 10000 : Nat) + fraction (places (units % 10000)) := by
    have cast : (units : ℚ) = 10000 * (units / 10000 : Nat) + (units % 10000 : Nat) := by
      exact_mod_cast (Nat.div_add_mod units 10000).symm
    rw [fraction_places (Nat.mod_lt _ (by decide))]
    linarith
  rw [decimal_eq, sum]
  exact decimal_point _ (digits_places _) (trimmed_places _)

/-- A width, and the ems that it stands for. -/
inductive Width : String → ℚ → Prop
  | plain {cs : List Char} {x : ℚ} (decimal : Decimal cs x) : Width (String.ofList (cs ++ "em".toList)) x
  | minus {cs : List Char} {x : ℚ} (decimal : Decimal cs x) :
      Width (String.ofList ('-' :: (cs ++ "em".toList))) (-x)

theorem Decimal.unsigned {x : ℚ} (decimal : Decimal cs x) : ∃ c rest, cs = c :: rest ∧ c ≠ '-' := by
  obtain ⟨n, places, -, -, rfl, -⟩ := decimal.parts
  obtain ⟨c, rest, digits, minus, -⟩ := toDigits_unsigned n
  exact ⟨c, rest ++ point places, by rw [toList_toString, digits]; rfl, minus⟩

theorem Decimal.read_ems {x : ℚ} (decimal : Decimal cs x) : unsigned? (cs ++ "em".toList) = some x := by
  have reverse : (cs ++ "em".toList).reverse = 'm' :: 'e' :: cs.reverse := List.reverse_append
  rw [unsigned?, reverse]
  change value? cs.reverse.reverse = some x
  rw [List.reverse_reverse, decimal.read]

/-- A width is read back as the ems that it stands for. -/
theorem Width.read {width : String} {x : ℚ} (written : Width width x) : ems? width = some x := by
  cases written with
  | plain decimal =>
    have number := decimal.read_ems
    obtain ⟨c, rest, rfl, other⟩ := decimal.unsigned
    rw [ems?, String.toList_ofList]
    split
    · rename_i same
      exact absurd (List.cons.inj same).1 other
    · exact number
  | minus decimal =>
    rw [ems?, String.toList_ofList]
    change (unsigned? _).map _ = _
    rw [decimal.read_ems]
    rfl

theorem Width.opposite {width : String} {x : ℚ} (written : Width width x) : Width (opposite width) (-x) := by
  cases written with
  | @plain cs x decimal =>
    have same : Skew.opposite (String.ofList (cs ++ "em".toList)) =
        String.ofList ('-' :: (cs ++ "em".toList)) := by
      obtain ⟨c, rest, rfl, other⟩ := decimal.unsigned
      rw [Skew.opposite, String.toList_ofList]
      split
      · rename_i same
        exact absurd (List.cons.inj same).1 other
      · rfl
    rw [same]
    exact .minus decimal
  | minus decimal =>
    rw [neg_neg, Skew.opposite, String.toList_ofList]
    exact .plain decimal

/-- The width of a skew, unless it is too large. -/
theorem width?_eq (v : Int) : ∃ digits, Decimal digits (|(v : ℚ)| * 555 / 10000) ∧
    width? v = if v.natAbs * 555 < 2 ^ 64 then some ((if v < 0 then "-" else "") ++ String.ofList digits ++ "em")
      else none := by
  have units : |(v : ℚ)| * 555 / 10000 = ((v.natAbs * 555 : Nat) : ℚ) / 10000 := by
    push_cast [Nat.cast_natAbs]
    rfl
  refine ⟨_, units ▸ decimal_decimal (v.natAbs * 555), ?_⟩
  rw [String.ofList_toList]
  rfl

theorem width_of_width? {v : Int} {width : String} (given : width? v = some width) :
    Width width (v * 555 / 10000) := by
  obtain ⟨digits, decimal, same⟩ := width?_eq v
  rw [given] at same
  split at same
  · obtain rfl := Option.some.inj same
    split
    · rename_i negative
      have value : (v : ℚ) * 555 / 10000 = -(|(v : ℚ)| * 555 / 10000) := by
        rw [abs_of_neg (by exact_mod_cast negative)]
        ring
      have text : "-" ++ String.ofList digits ++ "em" = String.ofList ('-' :: (digits ++ "em".toList)) := by
        rw [← String.toList_inj]
        simp
      rw [value, text]
      exact .minus decimal
    · rename_i positive
      have value : (v : ℚ) * 555 / 10000 = |(v : ℚ)| * 555 / 10000 := by
        rw [abs_of_nonneg (by exact_mod_cast not_lt.mp positive)]
      have text : "" ++ String.ofList digits ++ "em" = String.ofList (digits ++ "em".toList) := by
        rw [← String.toList_inj]
        simp
      rw [value, text]
      exact .plain decimal
  · cases same

/-- Skews that are not alike do not have the same width. -/
theorem width?_injective {v other : Int} {width : String} (given : width? v = some width)
    (given' : width? other = some width) : v = other := by
  have same := Option.some.inj ((width_of_width? given).read.symm.trans (width_of_width? given').read)
  have cast : (v : ℚ) = other := by linarith
  exact_mod_cast cast

end FormulaMarkup.Skew
