import RecordFlow.Proofs.Value.Presence

/-!
# Paths after paths

The segments of a path, a dot and a further path are those of the two paths one after the other, so
the further path is walked from where the first one ends (`Value.atPath_append`). A walk that leads
nowhere has met a segment that names nothing (`Value.DeadEnd`), and no longer path leads it on.
-/

namespace RecordFlow

namespace Path

variable {p q : String}

theorem toList_append_dot (p q : String) :
    (p ++ "." ++ q).toList = p.toList ++ '.' :: q.toList := by
  rw [String.toList_append, String.toList_append, List.append_assoc]
  rfl

/-- What is behind a path and a dot is cut by itself, also if it is empty. -/
theorem segments_append_dot (hp : p ≠ "") (q : String) :
    segments (p ++ "." ++ q) = segments p ++ Text.splitOn '.' q.toList := by
  rw [segments_of_ne (ne_of_toList_append (toList_append_dot p q)), toList_append_dot,
    Text.splitOn_append_cons, segments_of_ne hp]

theorem segments_append (hp : p ≠ "") (hq : q ≠ "") :
    segments (p ++ "." ++ q) = segments p ++ segments q := by
  rw [segments_append_dot hp, segments_of_ne hq]

end Path

namespace Value

variable {v w record : Value} {segment : List Char} {segments : List (List Char)} {p q : String}

/-! ## Dead ends -/

/-- A segment that names nothing in a value: no field of an object, no position or one behind the
last element of an array, or whatever it is in any other value. -/
inductive DeadEnd : Value → List Char → Prop where
  | missing {fields : Fields Value} {segment : List Char}
    (h : Fields.get? fields (String.ofList segment) = none) : DeadEnd (.object fields) segment
  | noPosition {items : List Value} {segment : List Char} (h : Path.position? segment = none) :
    DeadEnd (.array items) segment
  | outside {items : List Value} {segment : List Char} {i : Nat}
    (hposition : Path.position? segment = some i) (h : items.length ≤ i) :
    DeadEnd (.array items) segment
  | scalar {v : Value} {segment : List Char} (hobject : v.kind ≠ .object)
    (harray : v.kind ≠ .array) : DeadEnd v segment

/-- Segments lead up to a value in which the next of them names nothing. -/
def Strays (segments : List (List Char)) (v : Value) : Prop :=
  ∃ before segment after u, segments = before ++ segment :: after ∧ Leads before v u ∧
    DeadEnd u segment

theorem DeadEnd.not_leads (h : DeadEnd v segment) : ¬ Leads (segment :: segments) v w := by
  intro hleads
  cases hleads with
  | field hget _ =>
    cases h with
    | missing hnone => cases hnone.symm.trans hget
    | scalar hobject _ => exact hobject rfl
  | element hposition hget _ =>
    cases h with
    | noPosition hnone => cases hnone.symm.trans hposition
    | outside hother hlength =>
      cases hother.symm.trans hposition
      cases (List.getElem?_eq_none hlength).symm.trans hget
    | scalar _ harray => exact harray rfl

/-- A segment leads on or is a dead end. -/
theorem leads_or_deadEnd (v : Value) (segment : List Char) :
    (∃ w, Leads [segment] v w) ∨ DeadEnd v segment := by
  cases v with
  | object fields =>
    cases hget : Fields.get? fields (String.ofList segment) with
    | none => exact .inr (.missing hget)
    | some w => exact .inl ⟨w, .field hget (.here w)⟩
  | array items =>
    cases hposition : Path.position? segment with
    | none => exact .inr (.noPosition hposition)
    | some i =>
      cases hget : items[i]? with
      | none => exact .inr (.outside hposition (List.getElem?_eq_none_iff.1 hget))
      | some w => exact .inl ⟨w, .element hposition hget (.here w)⟩
  | _ => exact .inr (.scalar nofun nofun)

/-- A walk leads nowhere exactly if it meets a dead end. -/
theorem strays_iff : Strays segments v ↔ ∀ w, ¬ Leads segments v w := by
  constructor
  · rintro ⟨before, segment, after, u, rfl, hu, hdead⟩ w hw
    obtain ⟨u', hu', hafter⟩ := leads_append_iff.1 hw
    cases hu.unique hu'
    exact hdead.not_leads hafter
  · intro h
    induction segments generalizing v with
    | nil => exact absurd (.here v) (h v)
    | cons segment segments ih =>
      rcases leads_or_deadEnd v segment with ⟨w, hw⟩ | hdead
      · have hrest : ∀ x, ¬ Leads segments w x := fun x hx => h x (leads_append_iff.2 ⟨w, hw, hx⟩)
        obtain ⟨before, dead, after, u, rfl, hu, hdead⟩ := ih hrest
        exact ⟨segment :: before, dead, after, u, rfl, leads_append_iff.2 ⟨w, hw, hu⟩, hdead⟩
      · exact ⟨[], segment, segments, v, rfl, .here v, hdead⟩

/-- What follows a dead end does not matter. -/
theorem Strays.append (h : Strays segments v) (more : List (List Char)) :
    Strays (segments ++ more) v := by
  obtain ⟨before, segment, after, u, rfl, hu, hdead⟩ := h
  exact ⟨before, segment, after ++ more, u, by simp, hu, hdead⟩

/-! ## Longer paths -/

theorem atPath_of_strays (h : Strays (Path.segments p) record) : record.atPath p = .null :=
  atPath_of_leads_nowhere (strays_iff.1 h)

/-- **Dot paths compose.** A path behind a path and a dot is walked from the value at the first.
Once a segment names nothing, the value there is null and that at every longer path too, and it is
for no other reason that a path leads nowhere. -/
theorem atPath_append (record : Value) (hp : p ≠ "") (hq : q ≠ "") :
    record.atPath (p ++ "." ++ q) = (record.atPath p).atPath q ∧
      (Strays (Path.segments p) record →
        record.atPath p = .null ∧ ∀ rest, record.atPath (p ++ "." ++ rest) = .null) ∧
      (Strays (Path.segments p) record ↔ ∀ v, ¬ Leads (Path.segments p) record v) := by
  refine ⟨?_, fun h => ⟨atPath_of_strays h, fun rest => ?_⟩, strays_iff⟩
  · unfold atPath
    rw [Path.segments_append hp hq, List.foldl_append]
  · refine atPath_of_strays ?_
    rw [Path.segments_append_dot hp]
    exact h.append _

/-- A signed position, an empty segment and a position that is no number. -/
theorem atPath_append_of_odd_segments :
    let record := object [("a", .array [.object [("", .object [("b", .string "x")])]])]
    record.atPath ("a.+0" ++ "." ++ ".b") = .string "x" ∧
      Strays (Path.segments "a.-0") record ∧ record.atPath ("a.-0" ++ "." ++ ".b") = .null := by
  intro record
  have hstrays : Strays (Path.segments "a.-0") record :=
    ⟨[['a']], ['-', '0'], [], _, rfl, .field rfl (.here _), .noPosition rfl⟩
  have hsigned := atPath_append record (p := "a.+0") (q := ".b") (by decide) (by decide)
  have hnamed := atPath_append record (p := "a.-0") (q := ".b") (by decide) (by decide)
  exact ⟨hsigned.1.trans rfl, hstrays, (hnamed.2.1 hstrays).2 ".b"⟩

end Value

end RecordFlow
