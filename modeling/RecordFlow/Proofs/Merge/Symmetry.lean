import RecordFlow.Proofs.Merge.Matches
import RecordFlow.Proofs.Merge.Run

/-!
# Merging the other way round

A method that names the sides has a counterpart with the sides exchanged (`Method.exchange`).
Merging right rows into left rows by a method, and left rows into right rows by its counterpart,
delivers the same rows, but for their order (`records_exchange`). The two runs gather different
sides and look up in different orders, so the argument is about their combinations.
-/

namespace RecordFlow.Merge

/-! ## Exchanged methods -/

/-- The token that does to the right row what this one does to the left row. -/
def Token.exchange : Token → Token
  | .both => .thob
  | .thob => .both
  | .left => .right
  | .right => .left
  | .null => .null
  | .stack => .stack

theorem Token.exchange_ne_stack {t : Token} (h : t ≠ .stack) : t.exchange ≠ .stack := by
  cases t with
  | stack => exact absurd rfl h
  | _ => nofun

/-- The method that does to right rows what this one does to left rows. -/
def Method.exchange (m : Method) : Method :=
  ⟨m.onMatched.exchange, m.onUnmatched.exchange, Token.exchange_ne_stack m.onUnmatched_ne_stack⟩

theorem Method.combineMatched_exchange {t : Token} (h : t ≠ .stack) (l r : Value) :
    combineMatched t.exchange r l = combineMatched t l r := by
  cases t with
  | stack => exact absurd rfl h
  | _ => rfl

theorem Method.combineUnmatched_exchange (t : Token) {l r : Option Value}
    (h : l = none ∨ r = none) :
    combineUnmatched t.exchange r l = combineUnmatched t l r := by
  have hor : l.or r = r.or l := by rcases h with rfl | rfl <;> simp
  cases t with
  | both => exact hor.symm
  | thob => exact hor.symm
  | _ => rfl

/-- A method that stacks nothing and its counterpart make the same row of a combination and of the
combination turned round. -/
theorem Method.combine_exchange {m : Method} (hm : m.onMatched ≠ .stack) (l r : Option Value) :
    m.exchange.combine r l = m.combine l r := by
  cases l with
  | none => cases r <;> exact combineUnmatched_exchange m.onUnmatched (.inl rfl)
  | some l =>
    cases r with
    | none => exact combineUnmatched_exchange m.onUnmatched (.inr rfl)
    | some r => exact combineMatched_exchange hm l r

/-! ## Exchanged sides -/

/-- A merge of two lists of records delivers the rows of its plan. -/
theorem records_of_plan {matcher : Matcher} {options : Options} {plan : Plan}
    (h : Plan.make matcher options = .ok plan) (left right : List Value) :
    records left right matcher options = .ok (plan.rows left right) := by
  refine bind_eq_ok_iff.2 ⟨plan, h, ?_⟩
  dsimp only
  rw [items_feeds, rowsOf_ofList, rowsOf_ofList, Node.filterMap_record?]
  rfl

/-- The rows of two plans that combine alike, one with the sides exchanged, are the same but for
their order. -/
theorem Plan.rows_perm_of_exchange {p q : Plan} (hleft : q.selectors.left = p.selectors.right)
    (hright : q.selectors.right = p.selectors.left) (hdistinct : q.distinct = p.distinct)
    (houtput : ∀ l r, q.output r l = p.output l r) (left right : List Value) :
    (p.rows left right).Perm (q.rows right left) := by
  -- the rows that one run gathers are those that the other looks up
  have hstored : q.stored right = p.probed right := by
    unfold Plan.stored Plan.probed
    rw [hleft, hdistinct]
  have hprobed : q.probed left = p.stored left := by
    unfold Plan.stored Plan.probed
    rw [hright, hdistinct]
  have hswap := (combinations_swap p.selectors.left p.selectors.right (p.stored left)
    (p.probed right)).symm.filterMap fun c => p.output c.1 c.2
  rw [List.filterMap_map] at hswap
  unfold Plan.rows Plan.outputs
  rw [allMade_eq_combinations, allMade_eq_combinations, hstored, hprobed, hleft, hright]
  simpa only [Function.comp_def, Prod.fst_swap, Prod.snd_swap, houtput] using hswap

/-- **Merging is symmetric up to the order of rows.** Exchanging the two lists, the selectors of the
two sides and the method for its counterpart changes nothing but the order of the rows, also if each
key counts once. -/
theorem records_exchange {selectors exchanged : Selectors}
    (hleft : exchanged.left = selectors.right) (hright : exchanged.right = selectors.left)
    {m : Method} (hm : m.onMatched ≠ .stack) (distinct : Bool) (left right : List Value) :
    ∃ rows rows' : List Value,
      records left right (.on selectors) { combiner := some (.method m), distinct } = .ok rows ∧
        records right left (.on exchanged)
          { combiner := some (.method m.exchange), distinct } = .ok rows' ∧
        rows.Perm rows' := by
  have hplan : Plan.make (.on selectors) { combiner := some (.method m), distinct } =
      .ok ⟨selectors, .method m, none, distinct⟩ := rfl
  have hplan' : Plan.make (.on exchanged) { combiner := some (.method m.exchange), distinct } =
      .ok ⟨exchanged, .method m.exchange, none, distinct⟩ := rfl
  refine ⟨_, _, records_of_plan hplan left right, records_of_plan hplan' right left, ?_⟩
  refine Plan.rows_perm_of_exchange ?_ ?_ ?_ (fun l r => ?_) left right
  · exact hleft
  · exact hright
  · rfl
  · exact congrArg (Option.map _) (Method.combine_exchange hm l r)

/-- The sides have their keys at two paths. One of two left rows of one key is left out, and rows
match, come alone from the left and come alone from the right. -/
theorem records_exchange_of_duplicates :
    let selectors := Selectors.ofPairs [⟨"k", "id"⟩]
    let exchanged := Selectors.ofPairs [⟨"id", "k"⟩]
    let row := fun path k : String => Value.object [(path, .string k)]
    let left := [row "k" "a", row "k" "a", row "k" "b"]
    let right := [row "id" "c", row "id" "a"]
    let m : Method := ⟨.both, .left, by decide⟩
    exchanged.left = selectors.right ∧ exchanged.right = selectors.left ∧ m.onMatched ≠ .stack ∧
      m.exchange = ⟨.thob, .right, by decide⟩ ∧
      ∃ rows rows' : List Value,
        records left right (.on selectors) { combiner := some (.method m), distinct := true } =
            .ok rows ∧
          records right left (.on exchanged)
            { combiner := some (.method m.exchange), distinct := true } = .ok rows' ∧
          rows.Perm rows' := by
  intro selectors exchanged row left right m
  exact ⟨rfl, rfl, by decide, rfl, records_exchange rfl rfl (by decide) true left right⟩

end RecordFlow.Merge
