import Mathlib.Data.List.Forall2
import RecordFlow.Proofs.Binary64
import RecordFlow.Value

/-!
# Equality of values

Two values are the same (`Value.Same`) when they differ at most in how their numbers are stored:
numbers are equal as rational numbers, arrays item by item, and objects field by field. For objects
whose names ascend that is equality entry by entry (`Value.same_object_iff`).
-/

namespace RecordFlow

/-- The rational number that a number is. -/
def Number.value : Number → ℚ
  | .int n _ => n
  | .float x => x.value

/-! ## Fields -/

namespace Fields

variable {α : Type} {fields : Fields α} {name : String} {entry : α}

theorem contains_iff : contains fields name = true ↔ name ∈ fields.map Prod.fst := by
  simp [contains]

theorem get?_cons (field : String × α) (fields : Fields α) (name : String) :
    get? (field :: fields) name = if field.1 = name then some field.2 else get? fields name := by
  unfold get?
  by_cases h : field.1 = name <;> simp [h]

theorem get?_insert (fields : Fields α) (name other : String) (entry : α) :
    get? (insert fields name entry) other = if name = other then some entry else get? fields other := by
  induction fields with
  | nil => exact get?_cons (name, entry) [] other
  | cons field fields ih =>
    obtain ⟨key, old⟩ := field
    unfold insert
    by_cases hlt : name < key
    · rw [if_pos hlt, get?_cons]
    · rw [if_neg hlt]
      by_cases heq : name = key
      · rw [if_pos heq, get?_cons, get?_cons, ← heq]
        split_ifs <;> rfl
      · rw [if_neg heq, get?_cons, get?_cons, ih]
        by_cases hkey : key = other
        · rw [if_pos hkey, if_pos hkey, if_neg fun hname => heq (hname.trans hkey.symm)]
        · rw [if_neg hkey, if_neg hkey]

/-- Names that ascend stand once each. -/
theorem get?_eq_some_of_mem (h : Ascending fields) (hmem : (name, entry) ∈ fields) :
    get? fields name = some entry := by
  induction fields with
  | nil => cases hmem
  | cons field fields ih =>
    obtain ⟨hfirst, hrest⟩ := List.pairwise_cons.1 h
    rw [get?_cons]
    rcases List.mem_cons.1 hmem with rfl | hmem
    · exact if_pos rfl
    · have hlt : field.1 < name := hfirst name (List.mem_map_of_mem hmem)
      rw [if_neg (String.ne_of_lt hlt)]
      exact ih hrest hmem

/-- Names that ascend are fixed by which names there are. -/
theorem names_eq {other : Fields α} (h : Ascending fields) (hother : Ascending other)
    (hnames : ∀ name, contains fields name = contains other name) :
    fields.map Prod.fst = other.map Prod.fst := by
  refine List.Perm.eq_of_pairwise ?_ h hother ?_
  · intro m n _ _ hmn hnm
    exact absurd hmn (String.lt_asymm hnm)
  · refine (List.perm_ext_iff_of_nodup ?_ ?_).2 fun name => ?_
    · exact h.imp String.ne_of_lt
    · exact hother.imp String.ne_of_lt
    · rw [← contains_iff, ← contains_iff, hnames]

end Fields

/-! ## Values -/

namespace Value

/-- Two values are equal, numbers by the number that they are. -/
inductive Same : Value → Value → Prop where
  | null : Same .null .null
  | bool (b : Bool) : Same (.bool b) (.bool b)
  | number {m n : Number} (h : m.value = n.value) : Same (.number m) (.number n)
  | string (s : String) : Same (.string s) (.string s)
  | array {as bs : List Value} (hlength : as.length = bs.length)
    (h : ∀ (i : Nat) a b, as[i]? = some a → bs[i]? = some b → Same a b) : Same (.array as) (.array bs)
  | object {as bs : Fields Value}
    (hnames : ∀ name, Fields.contains as name = Fields.contains bs name)
    (h : ∀ name a b, Fields.get? as name = some a → Fields.get? bs name = some b → Same a b) :
    Same (.object as) (.object bs)

theorem Same.kind_eq {a b : Value} (h : Same a b) : a.kind = b.kind := by
  cases h <;> rfl

theorem same_array_iff {as bs : List Value} :
    Same (.array as) (.array bs) ↔ List.Forall₂ Same as bs := by
  constructor
  · intro h
    cases h with
    | array hlength h =>
      refine List.forall₂_iff_get.2 ⟨hlength, fun i hi hj => h i _ _ ?_ ?_⟩ <;> simp
  · intro h
    obtain ⟨hlength, hget⟩ := List.forall₂_iff_get.1 h
    refine .array hlength fun i a b ha hb => ?_
    obtain ⟨hi, rfl⟩ := List.getElem?_eq_some_iff.1 ha
    obtain ⟨hj, rfl⟩ := List.getElem?_eq_some_iff.1 hb
    exact hget i hi hj

/-- Two fields have one name and values that are the same. -/
def SameField (a b : String × Value) : Prop := a.1 = b.1 ∧ Same a.2 b.2

theorem same_object_iff {as bs : Fields Value} (ha : Fields.Ascending as)
    (hb : Fields.Ascending bs) :
    Same (.object as) (.object bs) ↔ List.Forall₂ SameField as bs := by
  constructor
  · intro h
    cases h with
    | object hnames h =>
      have hfst := Fields.names_eq ha hb hnames
      have hlength : as.length = bs.length := by
        simpa using congrArg List.length hfst
      refine List.forall₂_iff_get.2 ⟨hlength, fun i hi hj => ?_⟩
      have hname : as[i].1 = bs[i].1 := by
        have hget : (as.map Prod.fst)[i]? = (bs.map Prod.fst)[i]? := by rw [hfst]
        simpa [hi, hj] using hget
      refine ⟨hname, h as[i].1 _ _ ?_ ?_⟩
      · exact Fields.get?_eq_some_of_mem ha (List.getElem_mem hi)
      · rw [hname]
        exact Fields.get?_eq_some_of_mem hb (List.getElem_mem hj)
  · intro h
    induction h with
    | nil => exact .object (fun _ => rfl) nofun
    | @cons a b as bs hfield hfields ih =>
      obtain ⟨hname, hvalue⟩ := hfield
      cases ih ha.of_cons hb.of_cons with
      | object hnames hvalues =>
        refine .object (fun name => ?_) fun name v w hv hw => ?_
        · show (a.1 == name || Fields.contains as name) = (b.1 == name || Fields.contains bs name)
          rw [hname, hnames name]
        · rw [Fields.get?_cons] at hv hw
          rw [hname] at hv
          split_ifs at hv hw with heq
          · cases hv
            cases hw
            exact hvalue
          · exact hvalues name v w hv hw

end Value

end RecordFlow
