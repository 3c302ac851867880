import RecordFlow.Proofs.Dataset.Nesting

/-!
# Arrays at positions

A position leads into nested arrays by one index for each array on the way, so positions in
ascending order are the values depth first. Data nested to a level are read from a value exactly if
whatever stands less deep than the level is an array; otherwise the first value in the way is
reported (`Node.ofValue?_inverse_toValue`).
-/

namespace RecordFlow

namespace Value

variable {v w u : Value} {vs : List Value} {level i : Nat} {position : List Nat}

/-! ## Positions -/

/-- The value at a position of nested arrays, as deep as the position is long. -/
def at? : Value → List Nat → Option Value
  | v, [] => some v
  | .array vs, i :: position => vs[i]?.bind fun v => v.at? position
  | _, _ :: _ => none

@[simp] theorem at?_nil (v : Value) : v.at? [] = some v := by
  cases v <;> rfl

theorem at?_cons_eq_some_iff :
    (array vs).at? (i :: position) = some u ↔ ∃ w, vs[i]? = some w ∧ w.at? position = some u := by
  rw [at?, Option.bind_eq_some_iff]

theorem exists_array_of_kind (h : v.kind = .array) : ∃ vs, v = array vs := by
  cases v with
  | array vs => exact ⟨vs, rfl⟩
  | _ => cases h

/-- A value stands less deep than a level and is no array. -/
def Breaks (v : Value) (level : Nat) (position : List Nat) (u : Value) : Prop :=
  position.length < level ∧ v.at? position = some u ∧ u.kind ≠ .array

/-- Depth first, no value before this one is in the way. -/
def BreaksFirst (v : Value) (level : Nat) (position : List Nat) (u : Value) : Prop :=
  v.Breaks level position u ∧ ∀ earlier < position, ∀ w, ¬ v.Breaks level earlier w

theorem not_breaks_zero : ¬ v.Breaks 0 position u := fun h => Nat.not_lt_zero _ h.1

theorem not_breaks_array_nil : ¬ (array vs).Breaks level [] u := by
  rintro ⟨-, hu, hkind⟩
  cases hu
  exact hkind rfl

theorem breaks_array_cons_iff :
    (array vs).Breaks (level + 1) (i :: position) u ↔
      ∃ w, vs[i]? = some w ∧ w.Breaks level position u := by
  unfold Breaks
  rw [at?_cons_eq_some_iff, List.length_cons, Nat.succ_lt_succ_iff]
  constructor
  · rintro ⟨hlength, ⟨w, hw, hu⟩, hkind⟩
    exact ⟨w, hw, hlength, hu, hkind⟩
  · rintro ⟨w, hw, hlength, hu, hkind⟩
    exact ⟨hlength, ⟨w, hw, hu⟩, hkind⟩

/-- What is no array is itself in the way, before all inside it. -/
theorem breaksFirst_iff_of_kind (hv : v.kind ≠ .array) :
    v.BreaksFirst (level + 1) position u ↔ position = [] ∧ u = v := by
  have hroot : v.Breaks (level + 1) [] v := ⟨Nat.succ_pos level, at?_nil v, hv⟩
  constructor
  · rintro ⟨⟨-, hu, -⟩, hfirst⟩
    cases position with
    | nil => exact ⟨rfl, (Option.some.inj ((at?_nil v).symm.trans hu)).symm⟩
    | cons i position => exact absurd hroot (hfirst [] (List.nil_lt_cons i position) v)
  · rintro ⟨rfl, rfl⟩
    exact ⟨hroot, fun earlier hlt => absurd hlt (List.not_lt_nil earlier)⟩

/-- In an array, what is in the way is inside the first element that has such a value. -/
theorem breaksFirst_array_iff :
    (array vs).BreaksFirst (level + 1) position u ↔
      ∃ i w inner, position = i :: inner ∧ vs[i]? = some w ∧ w.BreaksFirst level inner u ∧
        ∀ j x, j < i → vs[j]? = some x → ∀ earlier y, ¬ x.Breaks level earlier y := by
  constructor
  · rintro ⟨hbreaks, hfirst⟩
    cases position with
    | nil => exact absurd hbreaks not_breaks_array_nil
    | cons i inner =>
      obtain ⟨w, hw, hinner⟩ := breaks_array_cons_iff.1 hbreaks
      refine ⟨i, w, inner, rfl, hw, ⟨hinner, fun earlier hlt y hy => ?_⟩,
        fun j x hj hx earlier y hy => ?_⟩
      · exact hfirst (i :: earlier) (List.cons_lt_cons_iff.2 (.inr ⟨rfl, hlt⟩)) y
          (breaks_array_cons_iff.2 ⟨w, hw, hy⟩)
      · exact hfirst (j :: earlier) (List.cons_lt_cons_iff.2 (.inl hj)) y
          (breaks_array_cons_iff.2 ⟨x, hx, hy⟩)
  · rintro ⟨i, w, inner, rfl, hw, ⟨hinner, hfirst⟩, hbefore⟩
    refine ⟨breaks_array_cons_iff.2 ⟨w, hw, hinner⟩, fun earlier hlt y hy => ?_⟩
    cases earlier with
    | nil => exact not_breaks_array_nil hy
    | cons j earlier =>
      obtain ⟨x, hx, hy⟩ := breaks_array_cons_iff.1 hy
      rcases List.cons_lt_cons_iff.1 hlt with hj | ⟨rfl, hinside⟩
      · exact hbefore j x hj hx earlier y hy
      · cases hx.symm.trans hw
        exact hfirst earlier hinside y hy

end Value

/-! ## Reading -/

namespace Node

variable {level : Nat} {v : Value} {vs : List Value} {e : Error}

theorem ofValue?_array (level : Nat) (vs : List Value) :
    ofValue? (level + 1) (.array vs) = (vs.mapM (ofValue? level)).map group := by
  rw [ofValue?]
  cases vs.mapM (ofValue? level) <;> rfl

theorem ofValue?_of_kind (hv : v.kind ≠ .array) :
    ofValue? (level + 1) v = .error (.shapeMismatch (.notArray (level + 1) v.kind)) := by
  cases v with
  | array vs => exact absurd rfl hv
  | _ => rfl

/-- A value is read unless something is in the way. -/
theorem exists_ofValue?_iff :
    (∃ node, ofValue? level v = .ok node) ↔ ∀ position u, ¬ v.Breaks level position u := by
  induction level generalizing v with
  | zero => exact iff_of_true ⟨.record v, rfl⟩ fun _ _ => Value.not_breaks_zero
  | succ level ih =>
    by_cases hv : v.kind = .array
    · obtain ⟨vs, rfl⟩ := Value.exists_array_of_kind hv
      have hitems : (∃ node, ofValue? (level + 1) (.array vs) = .ok node) ↔
          ∃ items, vs.mapM (ofValue? level) = .ok items := by
        simp only [ofValue?_array, map_eq_ok_iff]
        exact ⟨fun ⟨_, items, h, _⟩ => ⟨items, h⟩, fun ⟨items, h⟩ => ⟨_, items, h, rfl⟩⟩
      rw [hitems, exists_mapM_eq_ok_iff]
      simp only [ih]
      constructor
      · intro h position u hbreaks
        cases position with
        | nil => exact Value.not_breaks_array_nil hbreaks
        | cons i position =>
          obtain ⟨w, hw, hbreaks⟩ := Value.breaks_array_cons_iff.1 hbreaks
          exact h w (List.mem_of_getElem? hw) position u hbreaks
      · intro h w hw position u hbreaks
        obtain ⟨i, hi⟩ := List.mem_iff_getElem?.1 hw
        exact h (i :: position) u (Value.breaks_array_cons_iff.2 ⟨w, hi, hbreaks⟩)
    · refine iff_of_false ?_ fun h => h [] v ⟨Nat.succ_pos level, Value.at?_nil v, hv⟩
      rw [ofValue?_of_kind hv]
      rintro ⟨node, ⟨⟩⟩

/-- A value that is not read is refused for the first value in the way. -/
theorem ofValue?_eq_error_iff :
    ofValue? level v = .error e ↔
      ∃ position u, v.BreaksFirst level position u ∧
        e = .shapeMismatch (.notArray (level - position.length) u.kind) := by
  induction level generalizing v with
  | zero => exact iff_of_false nofun fun ⟨_, _, h, _⟩ => Value.not_breaks_zero h.1
  | succ level ih =>
    by_cases hv : v.kind = .array
    · obtain ⟨vs, rfl⟩ := Value.exists_array_of_kind hv
      rw [ofValue?_array, map_eq_error_iff, mapM_eq_error_iff_getElem?]
      simp only [ih, exists_ofValue?_iff, Value.breaksFirst_array_iff]
      constructor
      · rintro ⟨i, w, hw, hbefore, position, u, hfirst, rfl⟩
        exact ⟨i :: position, u, ⟨i, w, position, rfl, hw, hfirst, hbefore⟩, by simp⟩
      · rintro ⟨_, u, ⟨i, w, position, rfl, hw, hfirst, hbefore⟩, rfl⟩
        exact ⟨i, w, hw, hbefore, position, u, hfirst, by simp⟩
    · simp only [ofValue?_of_kind hv, Value.breaksFirst_iff_of_kind hv]
      constructor
      · rintro ⟨⟩
        exact ⟨[], v, ⟨rfl, rfl⟩, rfl⟩
      · rintro ⟨_, _, ⟨rfl, rfl⟩, rfl⟩
        rfl

/-- **Reading nested data and writing them are inverse.** A value is read to a level exactly if
every value less deep is an array, and the data read are the ones that are written as it, also if
these are still to be pulled. Otherwise the error names the level and the kind of the first value,
depth first, that is no array. -/
theorem ofValue?_inverse_toValue (level : Nat) (v : Value) :
    ((∃ node, ofValue? level v = .ok node) ↔
        ∀ position u, position.length < level → v.at? position = some u → u.kind = .array) ∧
      (∀ node, ofValue? level v = .ok node ↔ node.toValue level = .ok v) ∧
      (∀ data : Data, ofValue? level v = .ok data.toNode ↔ (data.toValue level).2 = .ok v) ∧
      ∀ e, ofValue? level v = .error e ↔
        ∃ position u, v.BreaksFirst level position u ∧
          e = .shapeMismatch (.notArray (level - position.length) u.kind) ∧
          e.message = "shape mismatch: " ++ ("expected an array at nesting level " ++
            toString (level - position.length) ++ ", found " ++ u.kind.name) := by
  refine ⟨?_, fun node => ofValue?_eq_ok_iff, fun data => ?_, fun e => ?_⟩
  · simp only [exists_ofValue?_iff, Value.Breaks, not_and, not_not]
  · rw [Data.toValue_snd]
    exact ofValue?_eq_ok_iff
  · rw [ofValue?_eq_error_iff]
    constructor
    · rintro ⟨position, u, hfirst, rfl⟩
      exact ⟨position, u, hfirst, rfl, rfl⟩
    · rintro ⟨position, u, hfirst, he, -⟩
      exact ⟨position, u, hfirst, he⟩

/-- One of the base records is an array itself, so one level deeper the other is in the way. -/
theorem ofValue?_inverse_toValue_of_array_records :
    let v : Value := .array [.array [.array [.string "x"], .null], .array []]
    let node := group [group [.record (.array [.string "x"]), .record .null], group []]
    node.toValue 2 = .ok v ∧ ofValue? 2 v = .ok node ∧ v.BreaksFirst 3 [0, 1] .null ∧
      ofValue? 3 v = .error (.shapeMismatch (.notArray 1 .null)) := by
  intro v node
  have hwritten : node.toValue 2 = .ok v := rfl
  have hbefore : ∀ position u, ¬ (Value.array [.string "x"]).Breaks 1 position u :=
    exists_ofValue?_iff.1 ⟨group [.record (.string "x")], rfl⟩
  have hinner : (Value.array [.array [.string "x"], .null]).BreaksFirst 2 [1] .null := by
    refine Value.breaksFirst_array_iff.2 ⟨1, .null, [], rfl, rfl,
      (Value.breaksFirst_iff_of_kind (by decide)).2 ⟨rfl, rfl⟩, fun j x hj hx => ?_⟩
    obtain rfl : j = 0 := by omega
    cases hx
    exact hbefore
  have hfirst : v.BreaksFirst 3 [0, 1] .null :=
    Value.breaksFirst_array_iff.2
      ⟨0, _, [1], rfl, rfl, hinner, fun j _ hj => absurd hj (Nat.not_lt_zero j)⟩
  exact ⟨hwritten, ((ofValue?_inverse_toValue 2 v).2.1 node).2 hwritten, hfirst,
    ((ofValue?_inverse_toValue 3 v).2.2.2 _).2 ⟨[0, 1], .null, hfirst, rfl, rfl⟩⟩

end Node

end RecordFlow
