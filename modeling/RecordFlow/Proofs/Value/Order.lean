import RecordFlow.Proofs.Binary64
import RecordFlow.Value.Order

/-!
# How far the order of values is total

Comparing values is reflexive, and comparing them the other way round gives the reverse. It is
transitive on values whose numbers do not blur integers (`Number.Blurs`): signed 64-bit integers
are told apart exactly, but any other number is compared with the float nearest to an integer,
which several integers may share.
-/

namespace RecordFlow

/-! ## Comparisons in a row -/

/-- Of three things of which none comes after the next, the first and the last compare as the two
comparisons in between say. -/
def Composes (ab bc ac : Ordering) : Prop := ab ≠ .gt → bc ≠ .gt → ac = ab.then bc

namespace Composes

variable {ab bc ac ab' bc' ac' : Ordering}

theorem ne_gt (h : Composes ab bc ac) (hab : ab ≠ .gt) (hbc : bc ≠ .gt) : ac ≠ .gt := by
  rw [h hab hbc]
  cases ab <;> simp_all

/-- Comparisons that break ties have to compose only where there are ties. -/
theorem andThen (h : Composes ab bc ac) (h' : ab = .eq → bc = .eq → Composes ab' bc' ac') :
    Composes (ab.then ab') (bc.then bc') (ac.then ac') := by
  intro hab hbc
  cases ab with
  | gt => exact absurd rfl hab
  | lt =>
    have hac : ac = .lt := by
      rw [h (by decide) fun hgt => hbc (by rw [hgt]; rfl)]
      rfl
    rw [hac]
    rfl
  | eq =>
    cases bc with
    | gt => exact absurd rfl hbc
    | lt =>
      rw [h (by decide) (by decide)]
      cases ab' with
      | gt => exact absurd rfl hab
      | _ => rfl
    | eq =>
      rw [h (by decide) (by decide)]
      exact h' rfl rfl hab hbc

theorem compare {α : Type} [Ord α] [Std.TransOrd α] (a b c : α) :
    Composes (compare a b) (compare b c) (compare a c) := by
  intro hab hbc
  cases h : Ord.compare a b with
  | gt => exact absurd h hab
  | lt => exact Std.TransCmp.lt_of_lt_of_isLE h (Ordering.isLE_iff_ne_gt.2 hbc)
  | eq => exact Std.TransCmp.congr_left h

end Composes

/-! ## Numbers -/

namespace Number

variable {a b c : Number}

/-- The order of two signed 64-bit integers. Any other numbers count as equal. -/
def exactOrder (a b : Number) : Ordering :=
  match a.toInt64?, b.toInt64? with
  | some m, some n => compare m n
  | _, _ => .eq

/-- A number that is no signed 64-bit integer is nearest to two different ones. -/
structure Blurs (blur a b : Number) : Prop where
  inexact : blur.toInt64? = none
  left : a.toInt64? ≠ none
  right : b.toInt64? ≠ none
  ne : a ≠ b
  left_eq : a.toBinary64 = blur.toBinary64
  right_eq : b.toBinary64 = blur.toBinary64

theorem toInt64?_injective {n : Int} (ha : a.toInt64? = some n) (hb : b.toInt64? = some n) :
    a = b := by
  cases a with
  | float x => cases ha
  | int i hi =>
    cases b with
    | float x => cases hb
    | int j hj =>
      simp only [toInt64?] at ha hb
      split_ifs at ha hb
      cases ha
      cases hb
      rfl

theorem exactOrder_self (a : Number) : a.exactOrder a = .eq := by
  unfold exactOrder
  cases a.toInt64? <;> simp

theorem exactOrder_swap (a b : Number) : b.exactOrder a = (a.exactOrder b).swap := by
  unfold exactOrder
  cases a.toInt64? with
  | none => cases b.toInt64? <;> rfl
  | some m =>
    cases b.toInt64? with
    | none => rfl
    | some n => exact Std.OrientedOrd.eq_swap

theorem orderKey_mono {m n : Int} (ha : a.toInt64? = some m) (hb : b.toInt64? = some n)
    (h : m ≤ n) : a.toBinary64.orderKey ≤ b.toBinary64.orderKey := by
  cases a with
  | float x => cases ha
  | int a hra =>
    cases b with
    | float x => cases hb
    | int b hrb =>
      simp only [toInt64?] at ha hb
      split_ifs at ha hb
      cases ha
      cases hb
      exact Binary64.orderKey_ofInt_mono (by omega) (by omega) h

/-- Numbers are ordered as the nearest floats, and integers that share one as integers. -/
theorem order_eq (a b : Number) :
    a.order b =
      (compare a.toBinary64.orderKey b.toBinary64.orderKey).then (a.exactOrder b) := by
  unfold order exactOrder
  cases ha : a.toInt64? with
  | none => simp
  | some m =>
    cases hb : b.toInt64? with
    | none => simp
    | some n =>
      show compare m n = (compare a.toBinary64.orderKey b.toBinary64.orderKey).then (compare m n)
      cases hkey : compare a.toBinary64.orderKey b.toBinary64.orderKey with
      | eq => rfl
      | lt =>
        have hmn : m < n := by
          by_contra hle
          exact (orderKey_mono hb ha (by omega)).not_gt (Int.compare_eq_lt.1 hkey)
        exact Int.compare_eq_lt.2 hmn
      | gt =>
        have hmn : n < m := by
          by_contra hle
          exact (orderKey_mono ha hb (by omega)).not_gt (Int.compare_eq_gt.1 hkey)
        exact Int.compare_eq_gt.2 hmn

theorem order_self (a : Number) : a.order a = .eq := by
  rw [order_eq, exactOrder_self]
  simp

theorem order_swap (a b : Number) : b.order a = (a.order b).swap := by
  have hkey : compare b.toBinary64.orderKey a.toBinary64.orderKey =
      (compare a.toBinary64.orderKey b.toBinary64.orderKey).swap := Std.OrientedOrd.eq_swap
  rw [order_eq, order_eq a b, hkey, exactOrder_swap a b, Ordering.swap_then]

namespace Blurs

variable {blur : Number} (h : blur.Blurs a b)

include h

theorem symm : blur.Blurs b a :=
  ⟨h.inexact, h.right, h.left, h.ne.symm, h.right_eq, h.left_eq⟩

theorem order_left : a.order blur = .eq := by
  unfold order
  rw [h.inexact, h.left_eq]
  cases a.toInt64? <;> exact Std.ReflOrd.compare_self

theorem order_right : blur.order b = .eq := by
  rw [order_swap, h.symm.order_left]
  rfl

theorem order_ne : a.order b ≠ .eq := by
  obtain ⟨m, hm⟩ := Option.ne_none_iff_exists'.1 h.left
  obtain ⟨n, hn⟩ := Option.ne_none_iff_exists'.1 h.right
  intro heq
  unfold order at heq
  rw [hm, hn] at heq
  cases Std.LawfulEqOrd.eq_of_compare heq
  exact h.ne (toInt64?_injective hm hn)

end Blurs

/-- None of these numbers blurs two others. -/
def Sharp (numbers : Number → Prop) : Prop :=
  ∀ n a b, numbers n → numbers a → numbers b → ¬ n.Blurs a b

namespace Sharp

variable {numbers : Number → Prop} {n : Number} (h : Sharp numbers) (hn : numbers n)
  (ha : numbers a) (hb : numbers b) (hc : numbers c)

include h hn ha hb in
/-- Integers whose nearest float is another of the numbers are the same. -/
theorem exactOrder_eq (hinexact : n.toInt64? = none) (hleft : a.toBinary64 = n.toBinary64)
    (hright : b.toBinary64 = n.toBinary64) : a.exactOrder b = .eq := by
  by_cases heq : a = b
  · rw [heq]
    exact exactOrder_self b
  · unfold exactOrder
    cases hia : a.toInt64? with
    | none => rfl
    | some i =>
      cases hib : b.toInt64? with
      | none => rfl
      | some j =>
        refine absurd ⟨hinexact, ?_, ?_, heq, hleft, hright⟩ (h n a b hn ha hb)
        · simp [hia]
        · simp [hib]

include h ha hb hc in
theorem order_composes : Composes (a.order b) (b.order c) (a.order c) := by
  rw [order_eq, order_eq b c, order_eq a c]
  refine (Composes.compare _ _ _).andThen fun hab hbc => ?_
  have hab : a.toBinary64 = b.toBinary64 :=
    Binary64.orderKey_injective (Std.LawfulEqOrd.eq_of_compare hab)
  have hbc : b.toBinary64 = c.toBinary64 :=
    Binary64.orderKey_injective (Std.LawfulEqOrd.eq_of_compare hbc)
  -- one number that is no integer makes all three count as equal
  by_cases hinexact : ∃ n, (n = a ∨ n = b ∨ n = c) ∧ n.toInt64? = none
  · obtain ⟨n, hn, hinexact⟩ := hinexact
    have hmem : numbers n := by rcases hn with rfl | rfl | rfl <;> assumption
    have hshared : a.toBinary64 = n.toBinary64 := by
      rcases hn with rfl | rfl | rfl
      · rfl
      · exact hab
      · exact hab.trans hbc
    rw [h.exactOrder_eq hmem ha hb hinexact hshared (hab ▸ hshared),
      h.exactOrder_eq hmem hb hc hinexact (hab ▸ hshared) (hbc ▸ hab ▸ hshared),
      h.exactOrder_eq hmem ha hc hinexact hshared (hbc ▸ hab ▸ hshared)]
    exact fun _ _ => rfl
  · have hexact : ∀ n, n = a ∨ n = b ∨ n = c → ∃ i, n.toInt64? = some i := fun n hn =>
      Option.ne_none_iff_exists'.1 fun hnone => hinexact ⟨n, hn, hnone⟩
    obtain ⟨i, hi⟩ := hexact a (.inl rfl)
    obtain ⟨j, hj⟩ := hexact b (.inr (.inl rfl))
    obtain ⟨k, hk⟩ := hexact c (.inr (.inr rfl))
    unfold exactOrder
    rw [hi, hj, hk]
    exact Composes.compare i j k

end Sharp

end Number

/-! ## Values -/

theorem Kind.rank_injective : Function.Injective Kind.rank := by
  intro j k h
  cases j <;> cases k <;> first | rfl | cases h

namespace Value

mutual

/-- The numbers that occur anywhere in a value. -/
def numbers : Value → List Number
  | .number n => [n]
  | .array items => numbersOfItems items
  | .object fields => numbersOfFields fields
  | _ => []

/-- The numbers that occur anywhere in the items of an array. -/
def numbersOfItems : List Value → List Number
  | [] => []
  | v :: rest => numbers v ++ numbersOfItems rest

/-- The numbers that occur anywhere in the fields of an object. -/
def numbersOfFields : List (String × Value) → List Number
  | [] => []
  | (_, v) :: rest => numbers v ++ numbersOfFields rest

end

theorem mem_numbersOfItems {items : List Value} {n : Number} :
    n ∈ numbersOfItems items ↔ ∃ v ∈ items, n ∈ v.numbers := by
  induction items with
  | nil => exact iff_of_false nofun nofun
  | cons v rest ih => rw [numbersOfItems, List.mem_append, List.exists_mem_cons_iff, ih]

theorem order_of_kind_ne {a b : Value} (h : a.kind ≠ b.kind) :
    a.order b = compare a.kind.rank b.kind.rank := by
  cases a <;> cases b <;> first | rfl | exact absurd rfl h

/-- Kinds decide first. -/
theorem order_eq_kind_then (a b : Value) :
    a.order b = (compare a.kind.rank b.kind.rank).then (a.order b) := by
  by_cases h : a.kind = b.kind
  · rw [h, Std.ReflOrd.compare_self]
    rfl
  · rw [order_of_kind_ne h]
    cases compare a.kind.rank b.kind.rank <;> rfl

/-! ### Reflexivity -/

mutual

theorem order_self : ∀ a : Value, a.order a = .eq
  | .null => rfl
  | .bool _ => Std.ReflOrd.compare_self
  | .number n => n.order_self
  | .string _ => Std.ReflOrd.compare_self
  | .array items => orderItems_self items
  | .object fields => orderFields_self fields

theorem orderItems_self : ∀ as : List Value, orderItems as as = .eq
  | [] => rfl
  | a :: as => by
    rw [orderItems, order_self a, orderItems_self as]
    rfl

theorem orderFields_self : ∀ as : List (String × Value), orderFields as as = .eq
  | [] => rfl
  | (m, a) :: as => by
    rw [orderFields, Std.ReflOrd.compare_self, order_self a, orderFields_self as]
    rfl

end

/-! ### Reversal -/

theorem swap_of_kind {a b : Value} (h : a.kind = b.kind → b.order a = (a.order b).swap) :
    b.order a = (a.order b).swap := by
  by_cases hkind : a.kind = b.kind
  · exact h hkind
  · rw [order_of_kind_ne hkind, order_of_kind_ne (Ne.symm hkind)]
    exact Std.OrientedOrd.eq_swap

mutual

theorem order_swap (a b : Value) : b.order a = (a.order b).swap := by
  refine swap_of_kind fun hkind => ?_
  cases a with
  | null =>
    cases b with
    | null => rfl
    | _ => cases hkind
  | bool a =>
    cases b with
    | bool b => exact Std.OrientedOrd.eq_swap
    | _ => cases hkind
  | number a =>
    cases b with
    | number b => exact a.order_swap b
    | _ => cases hkind
  | string a =>
    cases b with
    | string b => exact Std.OrientedOrd.eq_swap
    | _ => cases hkind
  | array as =>
    cases b with
    | array bs => exact orderItems_swap as bs
    | _ => cases hkind
  | object as =>
    cases b with
    | object bs => exact orderFields_swap as bs
    | _ => cases hkind

theorem orderItems_swap : ∀ as bs : List Value, orderItems bs as = (orderItems as bs).swap
  | [], [] => rfl
  | [], _ :: _ => rfl
  | _ :: _, [] => rfl
  | a :: as, b :: bs => by
    rw [orderItems, orderItems, order_swap a b, orderItems_swap as bs, Ordering.swap_then]

theorem orderFields_swap :
    ∀ as bs : List (String × Value), orderFields bs as = (orderFields as bs).swap
  | [], [] => rfl
  | [], _ :: _ => rfl
  | _ :: _, [] => rfl
  | (m, a) :: as, (n, b) :: bs => by
    have hname : compare n m = (compare m n).swap := Std.OrientedOrd.eq_swap
    rw [orderFields, orderFields, hname, order_swap a b, orderFields_swap as bs,
      Ordering.swap_then, Ordering.swap_then]

end

/-! ### Transitivity -/

theorem composes_of_kind {a b c : Value}
    (h : a.kind = b.kind → b.kind = c.kind → Composes (a.order b) (b.order c) (a.order c)) :
    Composes (a.order b) (b.order c) (a.order c) := by
  rw [order_eq_kind_then a b, order_eq_kind_then b c, order_eq_kind_then a c]
  refine (Composes.compare _ _ _).andThen fun hab hbc => h ?_ ?_
  · exact Kind.rank_injective (Std.LawfulEqOrd.eq_of_compare hab)
  · exact Kind.rank_injective (Std.LawfulEqOrd.eq_of_compare hbc)

variable {sharp : Number → Prop}

mutual

/-- Where no number blurs integers, comparisons of values compose. -/
theorem order_composes (h : Number.Sharp sharp) (a b c : Value) (ha : ∀ n ∈ a.numbers, sharp n)
    (hb : ∀ n ∈ b.numbers, sharp n) (hc : ∀ n ∈ c.numbers, sharp n) :
    Composes (a.order b) (b.order c) (a.order c) := by
  refine composes_of_kind fun hab hbc => ?_
  cases a with
  | null =>
    cases b with
    | null =>
      cases c with
      | null => exact fun _ _ => rfl
      | _ => cases hbc
    | _ => cases hab
  | bool a =>
    cases b with
    | bool b =>
      cases c with
      | bool c => exact Composes.compare a b c
      | _ => cases hbc
    | _ => cases hab
  | number a =>
    cases b with
    | number b =>
      cases c with
      | number c => exact h.order_composes (ha a (.head _)) (hb b (.head _)) (hc c (.head _))
      | _ => cases hbc
    | _ => cases hab
  | string a =>
    cases b with
    | string b =>
      cases c with
      | string c => exact Composes.compare a b c
      | _ => cases hbc
    | _ => cases hab
  | array as =>
    cases b with
    | array bs =>
      cases c with
      | array cs => exact orderItems_composes h as bs cs ha hb hc
      | _ => cases hbc
    | _ => cases hab
  | object as =>
    cases b with
    | object bs =>
      cases c with
      | object cs => exact orderFields_composes h as bs cs ha hb hc
      | _ => cases hbc
    | _ => cases hab

theorem orderItems_composes (h : Number.Sharp sharp) (as bs cs : List Value)
    (ha : ∀ n ∈ numbersOfItems as, sharp n) (hb : ∀ n ∈ numbersOfItems bs, sharp n)
    (hc : ∀ n ∈ numbersOfItems cs, sharp n) :
    Composes (orderItems as bs) (orderItems bs cs) (orderItems as cs) := by
  match as, bs, cs with
  | [], [], [] => exact fun _ _ => rfl
  | [], [], _ :: _ => exact fun _ _ => rfl
  | [], _ :: _, [] => exact fun _ hgt => absurd rfl hgt
  | [], _ :: _, _ :: _ => exact fun _ _ => rfl
  | _ :: _, [], _ => exact fun hgt => absurd rfl hgt
  | _ :: _, _ :: _, [] => exact fun _ hgt => absurd rfl hgt
  | a :: as, b :: bs, c :: cs =>
    obtain ⟨ha, has⟩ := List.forall_mem_append.1 ha
    obtain ⟨hb, hbs⟩ := List.forall_mem_append.1 hb
    obtain ⟨hc, hcs⟩ := List.forall_mem_append.1 hc
    exact (order_composes h a b c ha hb hc).andThen fun _ _ =>
      orderItems_composes h as bs cs has hbs hcs

theorem orderFields_composes (h : Number.Sharp sharp) (as bs cs : List (String × Value))
    (ha : ∀ n ∈ numbersOfFields as, sharp n) (hb : ∀ n ∈ numbersOfFields bs, sharp n)
    (hc : ∀ n ∈ numbersOfFields cs, sharp n) :
    Composes (orderFields as bs) (orderFields bs cs) (orderFields as cs) := by
  match as, bs, cs with
  | [], [], [] => exact fun _ _ => rfl
  | [], [], _ :: _ => exact fun _ _ => rfl
  | [], _ :: _, [] => exact fun _ hgt => absurd rfl hgt
  | [], _ :: _, _ :: _ => exact fun _ _ => rfl
  | _ :: _, [], _ => exact fun hgt => absurd rfl hgt
  | _ :: _, _ :: _, [] => exact fun _ hgt => absurd rfl hgt
  | (l, a) :: as, (m, b) :: bs, (n, c) :: cs =>
    obtain ⟨ha, has⟩ := List.forall_mem_append.1 ha
    obtain ⟨hb, hbs⟩ := List.forall_mem_append.1 hb
    obtain ⟨hc, hcs⟩ := List.forall_mem_append.1 hc
    have hhead := (Composes.compare l m n).andThen fun _ _ => order_composes h a b c ha hb hc
    exact hhead.andThen fun _ _ => orderFields_composes h as bs cs has hbs hcs

end

/-! ### The total preorder -/

/-- **When the order is a total preorder.** Comparing values is reflexive, and comparing them the
other way round gives the reverse. It is transitive on the values made of some numbers exactly when
none of the numbers blurs two others. -/
theorem order_preorder_iff (allowed : Number → Prop) :
    (∀ a : Value, a.order a = .eq) ∧ (∀ a b : Value, b.order a = (a.order b).swap) ∧
      ((∀ a b c : Value, (∀ n ∈ a.numbers, allowed n) → (∀ n ∈ b.numbers, allowed n) →
          (∀ n ∈ c.numbers, allowed n) →
          a.order b ≠ .gt → b.order c ≠ .gt → a.order c ≠ .gt) ↔
        Number.Sharp allowed) := by
  refine ⟨order_self, order_swap, ?_, ?_⟩
  · intro htrans n a b hn ha hb hblurs
    have hnumber : ∀ x y z, allowed x → allowed y → allowed z →
        x.order y ≠ .gt → y.order z ≠ .gt → x.order z ≠ .gt := by
      intro x y z hx hy hz
      refine htrans (.number x) (.number y) (.number z) ?_ ?_ ?_ <;>
        · intro m hm
          rw [List.mem_singleton.1 hm]
          assumption
    -- the number between the two integers lets the greater one pass for the lesser
    have hle := hnumber a n b ha hn hb (by simp [hblurs.order_left])
      (by simp [hblurs.order_right])
    have hge := hnumber b n a hb hn ha (by simp [hblurs.symm.order_left])
      (by simp [hblurs.symm.order_right])
    rw [Number.order_swap] at hge
    cases horder : a.order b with
    | lt => exact hge (by rw [horder]; rfl)
    | eq => exact hblurs.order_ne horder
    | gt => exact hle horder
  · intro hsharp a b c ha hb hc hab hbc
    exact (order_composes hsharp a b c ha hb hc).ne_gt hab hbc

/-- The float `2 ^ 53` passes for `2 ^ 53 + 1` and for `2 ^ 53`, of which the first is greater. -/
theorem order_not_transitive :
    let next : Value := .number (.int 9007199254740993 (by decide))
    let float : Value := .number (.float ⟨0x4340000000000000, by decide⟩)
    let power : Value := .number (.int 9007199254740992 (by decide))
    next.order float ≠ .gt ∧ float.order power ≠ .gt ∧ ¬ next.order power ≠ .gt := by
  decide +kernel

end Value

end RecordFlow
