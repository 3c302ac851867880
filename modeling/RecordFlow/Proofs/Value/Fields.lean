import Mathlib.Data.List.Induction
import Mathlib.Data.List.Nodup
import RecordFlow.Proofs.Value.Same

/-!
# Fields made from entries

Entries set one after another make fields whose names ascend, and the entry of a name is the last
one that was set (`Fields.get?_ofList_eq_some_iff`). Fields are fixed by what is found at each name
(`Fields.eq_of_get?`).
-/

namespace RecordFlow.Fields

variable {α : Type} {fields other : Fields α} {entries : List (String × α)} {name : String}
  {entry : α}

/-! ## Names -/

theorem mem_insert {p : String × α} (h : p ∈ insert fields name entry) :
    p = (name, entry) ∨ p ∈ fields := by
  induction fields with
  | nil => exact .inl (List.mem_singleton.1 h)
  | cons field fields ih =>
    unfold insert at h
    split_ifs at h
    · exact List.mem_cons.1 h
    · exact (List.mem_cons.1 h).imp_right (List.mem_cons_of_mem field)
    · rcases List.mem_cons.1 h with rfl | h
      · exact .inr List.mem_cons_self
      · exact (ih h).imp_right (List.mem_cons_of_mem field)

theorem ascending_insert (h : Ascending fields) (name : String) (entry : α) :
    Ascending (insert fields name entry) := by
  induction fields with
  | nil => exact List.pairwise_singleton _ _
  | cons field fields ih =>
    obtain ⟨hfirst, hrest⟩ := List.pairwise_cons.1 h
    unfold insert
    split_ifs with hlt heq
    · refine List.pairwise_cons.2 ⟨fun other hother => ?_, h⟩
      rcases List.mem_cons.1 hother with rfl | hother
      · exact hlt
      · exact String.lt_trans hlt (hfirst other hother)
    · exact List.pairwise_cons.2 ⟨heq ▸ hfirst, hrest⟩
    · refine List.pairwise_cons.2 ⟨fun other hother => ?_, ih hrest⟩
      obtain ⟨p, hp, rfl⟩ := List.mem_map.1 hother
      rcases mem_insert hp with rfl | hp
      · exact Std.lt_of_le_of_ne hlt (Ne.symm heq)
      · exact hfirst p.1 (List.mem_map_of_mem hp)

/-! ## Entries one after another -/

theorem ofList_concat (entries : List (String × α)) (name : String) (entry : α) :
    ofList (entries ++ [(name, entry)]) = insert (ofList entries) name entry :=
  List.foldl_concat ..

theorem ascending_ofList (entries : List (String × α)) : Ascending (ofList entries) := by
  induction entries using List.reverseRecOn with
  | nil => exact List.Pairwise.nil
  | append_singleton entries last ih =>
    rw [ofList_concat]
    exact ascending_insert ih last.1 last.2

theorem getElem?_concat_eq_some_iff {xs : List α} {x y : α} {i : Nat} :
    (xs ++ [x])[i]? = some y ↔ xs[i]? = some y ∨ i = xs.length ∧ x = y := by
  grind

/-- The entry at a name is the last one of the name. -/
theorem get?_ofList_eq_some_iff :
    get? (ofList entries) name = some entry ↔
      ∃ i : Nat, entries[i]? = some (name, entry) ∧
        ∀ (j : Nat) p, i < j → entries[j]? = some p → p.1 ≠ name := by
  induction entries using List.reverseRecOn with
  | nil => exact iff_of_false nofun fun ⟨i, hi, _⟩ => nomatch hi
  | append_singleton entries last ih =>
    rw [ofList_concat, get?_insert]
    simp only [getElem?_concat_eq_some_iff]
    split_ifs with hlast
    · constructor
      · rintro ⟨⟩
        refine ⟨entries.length, .inr ⟨rfl, Prod.ext hlast rfl⟩, fun j p hj hp => ?_⟩
        rcases hp with hp | ⟨rfl, -⟩
        · have hlt := (List.getElem?_eq_some_iff.1 hp).1
          omega
        · exact absurd hj (Nat.lt_irrefl _)
      · rintro ⟨i, hi | ⟨-, rfl⟩, hlater⟩
        · have hlt := (List.getElem?_eq_some_iff.1 hi).1
          exact absurd hlast (hlater entries.length last hlt (.inr ⟨rfl, rfl⟩))
        · rfl
    · rw [ih]
      constructor
      · rintro ⟨i, hi, hlater⟩
        refine ⟨i, .inl hi, fun j p hj hp => ?_⟩
        rcases hp with hp | ⟨-, rfl⟩
        · exact hlater j p hj hp
        · exact hlast
      · rintro ⟨i, hi | ⟨-, rfl⟩, hlater⟩
        · exact ⟨i, hi, fun j p hj hp => hlater j p hj (.inl hp)⟩
        · exact absurd rfl hlast

/-- Each of several entries whose names differ is found at its name. -/
theorem get?_ofList (h : (entries.map Prod.fst).Nodup) (hmem : (name, entry) ∈ entries) :
    get? (ofList entries) name = some entry := by
  obtain ⟨i, hi⟩ := List.mem_iff_getElem?.1 hmem
  refine get?_ofList_eq_some_iff.2 ⟨i, hi, fun j p hj hp hname => ?_⟩
  have hnamei : (entries.map Prod.fst)[i]? = some name := by
    rw [List.getElem?_map, hi]
    rfl
  have hnamej : (entries.map Prod.fst)[j]? = some name := by
    rw [List.getElem?_map, hp, ← hname]
    rfl
  have hlength : i < (entries.map Prod.fst).length := (List.getElem?_eq_some_iff.1 hnamei).1
  exact Nat.ne_of_lt hj ((List.getElem?_inj hlength h).1 (hnamei.trans hnamej.symm))

/-! ## Looking up every name -/

/-- Fields are fixed by what is found at each name. -/
theorem eq_of_get? (h : Ascending fields) (hother : Ascending other)
    (hget : ∀ name, get? fields name = get? other name) : fields = other := by
  have hmem : ∀ {a b : Fields α}, Ascending a → (∀ name, get? a name = get? b name) →
      ∀ p ∈ a, p ∈ b := by
    intro a b ha hab p hp
    have hp' := (hab p.1).symm.trans (get?_eq_some_of_mem ha hp)
    obtain ⟨q, hq, hqp⟩ := Option.map_eq_some_iff.1 hp'
    have hname : q.1 = p.1 := by simpa using List.find?_some hq
    exact (Prod.ext hname hqp : q = p) ▸ List.mem_of_find?_eq_some hq
  have hpairs : ∀ {a : Fields α}, Ascending a → a.Pairwise (·.1 < ·.1) :=
    fun ha => List.pairwise_map.1 ha
  refine List.Perm.eq_of_pairwise ?_ (hpairs h) (hpairs hother) ?_
  · intro p q _ _ hpq hqp
    exact absurd hpq (String.lt_asymm hqp)
  · refine (List.perm_ext_iff_of_nodup ?_ ?_).2 fun p => ⟨?_, ?_⟩
    · exact (hpairs h).imp fun hlt heq => String.ne_of_lt hlt (congrArg Prod.fst heq)
    · exact (hpairs hother).imp fun hlt heq => String.ne_of_lt hlt (congrArg Prod.fst heq)
    · exact hmem h hget p
    · exact hmem hother (fun name => (hget name).symm) p

end RecordFlow.Fields
