import RecordFlow.Proofs.Key
import RecordFlow.Proofs.Value.Order

/-!
# Values that compare as equal

Comparing and taking keys find the same values equal, as long as their numbers are told apart by
comparing exactly where they differ (`Number.Faithful`, `Value.order_eq_iff_ofValue_eq`). Two kinds
of numbers are not: numbers that share a nearest float and are not both signed 64-bit integers
compare as equal though they differ (`Number.Coincide`), and `-0.0` comes before the other zeros
though it is the same number (`Number.OppositeZeros`).
-/

namespace RecordFlow

/-! ## Numbers -/

namespace Number

variable {m n : Number}

/-- Two different numbers, not both signed 64-bit integers, have one nearest float. -/
structure Coincide (m n : Number) : Prop where
  inexact : m.toInt64? = none ∨ n.toInt64? = none
  ne : m.value ≠ n.value
  eq : m.toBinary64 = n.toBinary64

/-- Two zeros of which one is `-0.0` and the other is not. -/
structure OppositeZeros (m n : Number) : Prop where
  left : m.value = 0
  right : n.value = 0
  signs : ¬ (m = .float .negativeZero ↔ n = .float .negativeZero)

theorem value_of_toInt64? {i : Int} (h : n.toInt64? = some i) : n.value = i := by
  cases n with
  | float x => cases h
  | int j hj =>
    simp only [toInt64?] at h
    split_ifs at h
    cases h
    rfl

/-- Signed 64-bit integers compare as equal if they are. -/
theorem order_eq_iff_of_exact {i j : Int} (hm : m.toInt64? = some i) (hn : n.toInt64? = some j) :
    m.order n = .eq ↔ m.value = n.value := by
  have horder : m.order n = compare i j := by
    unfold order
    rw [hm, hn]
  rw [horder, Std.LawfulEqOrd.compare_eq_iff_eq, value_of_toInt64? hm, value_of_toInt64? hn,
    Int.cast_inj]

/-- Unless both are signed 64-bit integers, numbers compare as equal if they have one nearest
float. -/
theorem order_eq_iff_of_inexact (h : m.toInt64? = none ∨ n.toInt64? = none) :
    m.order n = .eq ↔ m.toBinary64 = n.toBinary64 := by
  have horder : m.order n = compare m.toBinary64.orderKey n.toBinary64.orderKey := by
    unfold order
    rcases h with h | h
    · rw [h]
    · rw [h]
      cases m.toInt64? <;> rfl
  rw [horder, Std.LawfulEqOrd.compare_eq_iff_eq]
  exact Binary64.orderKey_injective.eq_iff

theorem toBinary64_of_zero (h : n.value = 0) :
    n.toBinary64 = if n = .float .negativeZero then .negativeZero else .zero := by
  cases n with
  | int i hi =>
    cases Int.cast_eq_zero.1 (show (i : ℚ) = 0 from h)
    exact Binary64.ofInt_zero
  | float x =>
    rcases Binary64.eq_zero_or_negativeZero h with rfl | rfl
    · exact (if_neg (by decide)).symm
    · exact (if_pos rfl).symm

/-- An integer and a float that are one number other than zero have one nearest float. -/
theorem toBinary64_eq_of_float {i : Int} {x : Binary64}
    (hi : -0x8000000000000000 ≤ i ∧ i < 0x10000000000000000) (h : x.value = i)
    (hne : x.value ≠ 0) : (int i hi).toBinary64 = x := by
  refine Binary64.ofInt_of_value h (by omega) ?_
  rintro rfl
  exact hne (by simpa using h)

/-- Of one number other than zero there is one nearest float. -/
theorem toBinary64_eq_of_value_eq (h : m.value = n.value) (hne : m.value ≠ 0) :
    m.toBinary64 = n.toBinary64 := by
  cases m with
  | int i hi =>
    cases n with
    | int j hj =>
      cases Int.cast_inj.1 (show (i : ℚ) = j from h)
      rfl
    | float x => exact toBinary64_eq_of_float hi h.symm fun hzero => hne (h.trans hzero)
  | float x =>
    cases n with
    | int j hj => exact (toBinary64_eq_of_float hj h hne).symm
    | float y => exact Binary64.eq_of_value_eq h hne

theorem toBinary64_eq_iff_of_value_eq (h : m.value = n.value) :
    m.toBinary64 = n.toBinary64 ↔ ¬ m.OppositeZeros n := by
  by_cases hzero : m.value = 0
  · have hsigns : m.OppositeZeros n ↔
        ¬ (m = .float .negativeZero ↔ n = .float .negativeZero) :=
      ⟨fun hopposite => hopposite.signs, fun hsigns => ⟨hzero, h ▸ hzero, hsigns⟩⟩
    rw [hsigns, not_not, toBinary64_of_zero hzero, toBinary64_of_zero (h ▸ hzero)]
    by_cases hm : m = .float .negativeZero <;> by_cases hn : n = .float .negativeZero <;>
      simp [hm, hn] <;> decide
  · exact iff_of_true (toBinary64_eq_of_value_eq h hzero) fun hopposite => hzero hopposite.left

/-- **Numbers that compare as equal.** Those are the numbers that are equal, but for `-0.0` and
another zero, and those that coincide. -/
theorem order_eq_iff :
    m.order n = .eq ↔ m.value = n.value ∧ ¬ m.OppositeZeros n ∨ m.Coincide n := by
  by_cases hinexact : m.toInt64? = none ∨ n.toInt64? = none
  · rw [order_eq_iff_of_inexact hinexact]
    by_cases hvalue : m.value = n.value
    · have hcoincide : ¬ m.Coincide n := fun hcoincide => hcoincide.ne hvalue
      rw [toBinary64_eq_iff_of_value_eq hvalue]
      simp [hvalue, hcoincide]
    · constructor
      · exact fun heq => .inr ⟨hinexact, hvalue, heq⟩
      · rintro (⟨heq, -⟩ | hcoincide)
        · exact absurd heq hvalue
        · exact hcoincide.eq
  · obtain ⟨hm, hn⟩ := not_or.1 hinexact
    obtain ⟨i, hi⟩ := Option.ne_none_iff_exists'.1 hm
    obtain ⟨j, hj⟩ := Option.ne_none_iff_exists'.1 hn
    have hcoincide : ¬ m.Coincide n := fun hcoincide => hinexact hcoincide.inexact
    have hopposite : ¬ m.OppositeZeros n := by
      refine fun hopposite => hopposite.signs (iff_of_false ?_ ?_)
      · rintro rfl
        cases hi
      · rintro rfl
        cases hj
    rw [order_eq_iff_of_exact hi hj]
    simp [hcoincide, hopposite]

/-- Comparing tells these numbers apart exactly where they differ. -/
def Faithful (numbers : Number → Prop) : Prop :=
  ∀ m n, numbers m → numbers n → ¬ m.Coincide n ∧ ¬ m.OppositeZeros n

namespace Faithful

variable {numbers : Number → Prop} (h : Faithful numbers)

include h

theorem order_eq_iff (hm : numbers m) (hn : numbers n) : m.order n = .eq ↔ m.value = n.value := by
  obtain ⟨hcoincide, hopposite⟩ := h m n hm hn
  rw [Number.order_eq_iff]
  simp [hcoincide, hopposite]

/-- A number that passes for two integers coincides with one of them. -/
theorem sharp : Sharp numbers := by
  intro n a b hn ha hb hblurs
  obtain ⟨i, hi⟩ := Option.ne_none_iff_exists'.1 hblurs.left
  obtain ⟨j, hj⟩ := Option.ne_none_iff_exists'.1 hblurs.right
  by_cases hvalue : n.value = a.value
  · refine (h n b hn hb).1 ⟨.inl hblurs.inexact, fun heq => ?_, hblurs.right_eq.symm⟩
    have hij : (i : ℚ) = j := by
      rw [← value_of_toInt64? hi, ← value_of_toInt64? hj, ← hvalue, heq]
    cases Int.cast_inj.1 hij
    exact hblurs.ne (toInt64?_injective hi hj)
  · exact (h n a hn ha).1 ⟨.inl hblurs.inexact, hvalue, hblurs.left_eq.symm⟩

end Faithful

/-- Integers of 53 bits and floats other than `-0.0` are told apart exactly. -/
theorem faithful_of_small {numbers : Number → Prop}
    (hsmall : ∀ i inRange, numbers (.int i inRange) → i.natAbs ≤ 2 ^ 53)
    (hzero : ¬ numbers (.float .negativeZero)) : Faithful numbers := by
  have hvalue : ∀ n, numbers n → n.toBinary64.value = n.value := by
    intro n hn
    cases n with
    | int i hi => exact Binary64.value_ofInt (hsmall i hi hn)
    | float x => rfl
  intro m n hm hn
  constructor
  · intro hcoincide
    exact hcoincide.ne ((hvalue m hm).symm.trans (hcoincide.eq ▸ hvalue n hn))
  · intro hopposite
    refine hopposite.signs (iff_of_false ?_ ?_)
    · rintro rfl
      exact hzero hm
    · rintro rfl
      exact hzero hn

end Number

/-! ## Values -/

namespace Value

variable {allowed : Number → Prop}

mutual

/-- Values whose numbers are told apart exactly compare as equal if they have one key. -/
theorem order_eq_iff_ofValue_eq (h : Number.Faithful allowed) (a b : Value)
    (ha : ∀ n ∈ a.numbers, allowed n) (hb : ∀ n ∈ b.numbers, allowed n) :
    a.order b = .eq ↔ Key.ofValue a = Key.ofValue b := by
  by_cases hkind : a.kind = b.kind
  · cases a with
    | null =>
      cases b with
      | null => exact iff_of_true rfl rfl
      | _ => cases hkind
    | bool a =>
      cases b with
      | bool b =>
        rw [Key.ofValue, Key.ofValue, Key.bool.injEq]
        exact Std.LawfulEqOrd.compare_eq_iff_eq
      | _ => cases hkind
    | number m =>
      cases b with
      | number n =>
        rw [Key.ofValue, Key.ofValue, Key.ofNumber_eq_iff]
        exact h.order_eq_iff (ha m (.head _)) (hb n (.head _))
      | _ => cases hkind
    | string a =>
      cases b with
      | string b =>
        rw [Key.ofValue, Key.ofValue, Key.string.injEq]
        exact Std.LawfulEqOrd.compare_eq_iff_eq
      | _ => cases hkind
    | array as =>
      cases b with
      | array bs =>
        rw [Key.ofValue, Key.ofValue, Key.list.injEq]
        exact orderItems_eq_iff_ofItems_eq h as bs ha hb
      | _ => cases hkind
    | object as =>
      cases b with
      | object bs =>
        rw [Key.ofValue, Key.ofValue, Key.map.injEq]
        exact orderFields_eq_iff_ofFields_eq h as bs ha hb
      | _ => cases hkind
  · refine iff_of_false (fun horder => hkind ?_) fun hkey => hkind ?_
    · rw [order_of_kind_ne hkind] at horder
      exact Kind.rank_injective (Std.LawfulEqOrd.eq_of_compare horder)
    · rw [← Key.kind_ofValue a, hkey, Key.kind_ofValue b]

theorem orderItems_eq_iff_ofItems_eq (h : Number.Faithful allowed) (as bs : List Value)
    (ha : ∀ n ∈ numbersOfItems as, allowed n) (hb : ∀ n ∈ numbersOfItems bs, allowed n) :
    orderItems as bs = .eq ↔ Key.ofItems as = Key.ofItems bs := by
  match as, bs with
  | [], [] => exact iff_of_true rfl rfl
  | [], _ :: _ => exact iff_of_false nofun nofun
  | _ :: _, [] => exact iff_of_false nofun nofun
  | a :: as, b :: bs =>
    obtain ⟨ha, has⟩ := List.forall_mem_append.1 ha
    obtain ⟨hb, hbs⟩ := List.forall_mem_append.1 hb
    rw [orderItems, Ordering.then_eq_eq, Key.ofItems, Key.ofItems, List.cons_eq_cons,
      order_eq_iff_ofValue_eq h a b ha hb, orderItems_eq_iff_ofItems_eq h as bs has hbs]

theorem orderFields_eq_iff_ofFields_eq (h : Number.Faithful allowed)
    (as bs : List (String × Value)) (ha : ∀ n ∈ numbersOfFields as, allowed n)
    (hb : ∀ n ∈ numbersOfFields bs, allowed n) :
    orderFields as bs = .eq ↔ Key.ofFields as = Key.ofFields bs := by
  match as, bs with
  | [], [] => exact iff_of_true rfl rfl
  | [], _ :: _ => exact iff_of_false nofun nofun
  | _ :: _, [] => exact iff_of_false nofun nofun
  | (l, a) :: as, (m, b) :: bs =>
    obtain ⟨ha, has⟩ := List.forall_mem_append.1 ha
    obtain ⟨hb, hbs⟩ := List.forall_mem_append.1 hb
    rw [orderFields, Ordering.then_eq_eq, Ordering.then_eq_eq, Std.LawfulEqOrd.compare_eq_iff_eq,
      Key.ofFields, Key.ofFields, List.cons_eq_cons, Prod.mk.injEq,
      order_eq_iff_ofValue_eq h a b ha hb, orderFields_eq_iff_ofFields_eq h as bs has hbs]

end

/-- Comparing values made of some numbers finds those equal that have one key exactly if it tells
the numbers apart. -/
theorem order_agrees_iff :
    (∀ a b : Value, (∀ n ∈ a.numbers, allowed n) → (∀ n ∈ b.numbers, allowed n) →
        (a.order b = .eq ↔ Key.ofValue a = Key.ofValue b)) ↔ Number.Faithful allowed := by
  constructor
  · intro hagree m n hm hn
    have hnumbers : m.order n = .eq ↔ m.value = n.value := by
      rw [← Key.ofNumber_eq_iff]
      have hkeys := hagree (.number m) (.number n) (fun k hk => by rwa [List.mem_singleton.1 hk])
        fun k hk => by rwa [List.mem_singleton.1 hk]
      simpa [order, Key.ofValue] using hkeys
    constructor
    · intro hcoincide
      exact hcoincide.ne (hnumbers.1 (Number.order_eq_iff.2 (.inr hcoincide)))
    · intro hopposite
      have hvalue := hopposite.left.trans hopposite.right.symm
      rcases Number.order_eq_iff.1 (hnumbers.2 hvalue) with ⟨-, hne⟩ | hcoincide
      · exact hne hopposite
      · exact hcoincide.ne hvalue
  · exact fun h a b => order_eq_iff_ofValue_eq h a b

end Value

end RecordFlow
