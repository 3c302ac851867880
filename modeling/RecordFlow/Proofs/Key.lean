import RecordFlow.Key
import RecordFlow.Proofs.Value.Same

/-!
# Keys and values

Two values have one key exactly when they are the same value (`Key.ofValue_eq_iff`): no two numbers
that differ share a key, however large or small they are, and no number has two keys.
-/

namespace RecordFlow.Key

/-! ## Numbers -/

/-- The integers that a signed or an unsigned 64-bit integer can hold. -/
def Fits (n : Int) : Prop := -0x8000000000000000 ≤ n ∧ n < 0x10000000000000000

variable {m n : Number} {i : Int} {x : Binary64}

theorem ofNumber_float_of_value (hx : x.value = i) (hfits : Fits i) :
    ofNumber (.float x) = .int i := by
  simp only [ofNumber]
  rw [Binary64.toInt?_eq_some_iff.2 hx]
  exact if_pos hfits

theorem ofNumber_float_of_ne (h : ∀ i : Int, x.value = i → ¬ Fits i) :
    ofNumber (.float x) = .float x := by
  simp only [ofNumber]
  cases hx : x.toInt? with
  | none => rfl
  | some i => exact if_neg (h i (Binary64.toInt?_eq_some_iff.1 hx))

/-- The key of a number is an integer or a float, as the number is one that fits or not. -/
theorem ofNumber_cases (n : Number) :
    (∃ i : Int, n.value = i ∧ Fits i ∧ ofNumber n = .int i) ∨
      ∃ x, n = .float x ∧ (∀ i : Int, x.value = i → ¬ Fits i) ∧ ofNumber n = .float x := by
  cases n with
  | int i hfits => exact .inl ⟨i, rfl, hfits, rfl⟩
  | float x =>
    by_cases hx : ∃ i : Int, x.value = i ∧ Fits i
    · obtain ⟨i, hi, hfits⟩ := hx
      exact .inl ⟨i, hi, hfits, ofNumber_float_of_value hi hfits⟩
    · have hne : ∀ i : Int, x.value = i → ¬ Fits i := fun i hi hfits => hx ⟨i, hi, hfits⟩
      exact .inr ⟨x, rfl, hne, ofNumber_float_of_ne hne⟩

/-- **Numbers share a key exactly when they are one rational number.** -/
theorem ofNumber_eq_iff : ofNumber m = ofNumber n ↔ m.value = n.value := by
  rcases ofNumber_cases m with ⟨i, hi, hifits, hm⟩ | ⟨x, rfl, hx, hm⟩ <;>
    rcases ofNumber_cases n with ⟨j, hj, hjfits, hn⟩ | ⟨y, rfl, hy, hn⟩ <;> rw [hm, hn]
  · rw [hi, hj, Int.cast_inj, int.injEq]
  · refine iff_of_false nofun fun h => ?_
    exact hy i (h.symm.trans hi) hifits
  · refine iff_of_false nofun fun h => ?_
    exact hx j (h.trans hj) hjfits
  · rw [float.injEq]
    refine ⟨fun h => congrArg Binary64.value h, fun h => Binary64.eq_of_value_eq h ?_⟩
    -- zero of either sign fits
    intro hzero
    exact hx 0 (by simpa using hzero) ⟨by decide, by decide⟩

/-! ## Values -/

/-- The kind of the values that have a key. -/
def kind : Key → Kind
  | .null => .null
  | .bool _ => .bool
  | .int _ => .number
  | .float _ => .number
  | .string _ => .string
  | .list _ => .array
  | .map _ => .object

theorem kind_ofValue (v : Value) : (ofValue v).kind = v.kind := by
  cases v with
  | number n =>
    rcases ofNumber_cases n with ⟨i, -, -, hn⟩ | ⟨x, -, -, hn⟩ <;>
      · show (ofNumber n).kind = .number
        rw [hn]
        rfl
  | _ => rfl

mutual

theorem ofValue_eq_iff (a b : Value) (ha : a.Valid) (hb : b.Valid) :
    ofValue a = ofValue b ↔ a.Same b := by
  by_cases hkind : a.kind = b.kind
  · cases a with
    | null =>
      cases b with
      | null => exact iff_of_true rfl .null
      | _ => cases hkind
    | bool a =>
      cases b with
      | bool b =>
        constructor
        · rintro ⟨⟩
          exact .bool a
        · rintro ⟨⟩
          rfl
      | _ => cases hkind
    | number m =>
      cases b with
      | number n =>
        constructor
        · intro h
          exact .number (ofNumber_eq_iff.1 h)
        · rintro ⟨⟩
          rename_i h
          exact ofNumber_eq_iff.2 h
      | _ => cases hkind
    | string a =>
      cases b with
      | string b =>
        constructor
        · rintro ⟨⟩
          exact .string a
        · rintro ⟨⟩
          rfl
      | _ => cases hkind
    | array as =>
      cases b with
      | array bs =>
        rw [Value.same_array_iff, ← ofItems_eq_iff as bs ha hb]
        simp [ofValue]
      | _ => cases hkind
    | object as =>
      cases b with
      | object bs =>
        rw [Value.same_object_iff ha.1 hb.1, ← ofFields_eq_iff as bs ha.2 hb.2]
        simp [ofValue]
      | _ => cases hkind
  · refine iff_of_false (fun h => hkind ?_) fun h => hkind h.kind_eq
    rw [← kind_ofValue a, h, kind_ofValue b]

theorem ofItems_eq_iff : ∀ (as bs : List Value), Value.ValidItems as → Value.ValidItems bs →
    (ofItems as = ofItems bs ↔ List.Forall₂ Value.Same as bs)
  | [], [], _, _ => iff_of_true rfl .nil
  | [], _ :: _, _, _ => iff_of_false nofun nofun
  | _ :: _, [], _, _ => iff_of_false nofun nofun
  | a :: as, b :: bs, ha, hb => by
    rw [List.forall₂_cons, ← ofValue_eq_iff a b ha.1 hb.1, ← ofItems_eq_iff as bs ha.2 hb.2]
    exact List.cons_eq_cons

theorem ofFields_eq_iff : ∀ (as bs : List (String × Value)),
    Value.ValidFields as → Value.ValidFields bs →
    (ofFields as = ofFields bs ↔ List.Forall₂ Value.SameField as bs)
  | [], [], _, _ => iff_of_true rfl .nil
  | [], _ :: _, _, _ => iff_of_false nofun nofun
  | _ :: _, [], _, _ => iff_of_false nofun nofun
  | (l, a) :: as, (m, b) :: bs, ha, hb => by
    rw [List.forall₂_cons, ← ofFields_eq_iff as bs ha.2 hb.2]
    unfold Value.SameField
    rw [← ofValue_eq_iff a b ha.1 hb.1]
    simp [ofFields]

end

/-- **Equal keys are equal values.** The keys of two values pass the test of equality exactly when
the values are the same, numbers by the rational number that they are. -/
theorem beq_ofValue_iff {a b : Value} (ha : a.Valid) (hb : b.Valid) :
    (ofValue a == ofValue b) = true ↔ a.Same b := by
  rw [beq_iff_eq]
  exact ofValue_eq_iff a b ha hb

/-- The float `2 ^ 63` is the integer and not the greatest signed one, and `-0.0` is zero. -/
theorem beq_ofValue_iff_at_bounds :
    let record := fun m n : Number =>
      Value.object [("bound", .number m), ("zero", .array [.number n])]
    let floats := record (.float ⟨0x43e0000000000000, by decide⟩)
      (.float ⟨0x8000000000000000, by decide⟩)
    let integers := record (.int 0x8000000000000000 (by decide)) (.int 0 (by decide))
    let greatest := record (.int 0x7fffffffffffffff (by decide)) (.int 0 (by decide))
    floats.Valid ∧ integers.Valid ∧ greatest.Valid ∧
      floats.Same integers ∧ ¬ floats.Same greatest := by
  intro record floats integers greatest
  have hvalid : ∀ m n, (record m n).Valid := by
    intro m n
    refine ⟨?_, trivial, ⟨trivial, trivial⟩, trivial⟩
    show ["bound", "zero"].Pairwise (· < ·)
    decide
  refine ⟨hvalid _ _, hvalid _ _, hvalid _ _, ?_, ?_⟩
  · exact (beq_ofValue_iff (hvalid _ _) (hvalid _ _)).1 (by decide +kernel)
  · intro h
    have hbeq := (beq_ofValue_iff (hvalid _ _) (hvalid _ _)).2 h
    revert hbeq
    decide +kernel

end RecordFlow.Key
