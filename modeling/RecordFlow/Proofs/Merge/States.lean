import Mathlib.Logic.Relation
import RecordFlow.Proofs.Merge.Run

/-!
# States of a merge

The first pull of a merge gathers the left rows, and from there on the index stays as it is, with
one mark for each bucket. Turn by turn the phase moves on, and a bucket that no right row has looked
up is offered to the combiner when its turn comes and at no other time (`Run.Inv.of_turns`). Every
pull comes back after a bounded number of turns, and past the end nothing happens any more
(`Run.states_consistent`).
-/

namespace RecordFlow.Merge

/-! ## Phases -/

namespace Phase

/-- The phase that comes after a phase of a merge with so many buckets of left rows. -/
inductive Next (buckets : Nat) : Phase → Phase → Prop where
  | exhaust : Next buckets .probing (.leftOnly 0)
  | offer {i : Nat} (hi : i < buckets) : Next buckets (.leftOnly i) (.leftOnly (i + 1))
  | close : Next buckets (.leftOnly buckets) .done

/-- How many buckets were passed. -/
def passed (buckets : Nat) : Phase → Nat
  | .probing => 0
  | .leftOnly i => i
  | .done => buckets

end Phase

namespace Run

/-! ## Turns and pulls -/

/-- The bucket whose left rows the next turn gives to the combiner, without a right row. -/
def offering (r : Run) : List Nat :=
  match r.pending, r.phase with
  | [], .leftOnly i => if r.matched[i]? = some false then [i] else []
  | _, _ => []

/-- Turns lead from a run to a later one and offer some buckets on the way. -/
inductive Turns (r : Run) : List Nat → Run → Prop where
  | none : Turns r [] r
  | row {offered : List Nat} {last next : Run} {v : Value} (h : Turns r offered last)
    (ht : last.turn = .row v next) : Turns r offered next
  | silent {offered : List Nat} {last next : Run} {es : List Emission} (h : Turns r offered last)
    (ht : last.turn = .silent es next) : Turns r (offered ++ last.offering) next

/-- A pull comes back after so many turns, with what it delivers. -/
inductive Returns : Nat → Run → Option Value → Run → Prop where
  | row {r next : Run} {v : Value} (ht : r.turn = .row v next) : Returns 1 r (some v) next
  | ended {r : Run} (ht : r.turn = .over) : Returns 1 r none r
  | silent {n : Nat} {r next last : Run} {es : List Emission} {v : Option Value}
    (ht : r.turn = .silent es next) (h : Returns n next v last) : Returns (n + 1) r v last

/-- The run after some pulls. -/
def after (r : Run) : Nat → Run
  | 0 => r
  | n + 1 => (r.after n).pull.2.2

variable {r next last : Run} {v : Value} {es : List Emission} {offered more : List Nat}

theorem pull_of_row (ht : r.turn = .row v next) : r.pull = ([], some v, next) := by
  rw [pull]
  split <;> simp_all

theorem pull_of_silent (ht : r.turn = .silent es next) : r.pull.2 = next.pull.2 := by
  rw [pull]
  split <;> simp_all

theorem pull_of_over (ht : r.turn = .over) : r.pull = ([], none, r) := by
  rw [pull]
  split <;> simp_all

theorem after_succ (r : Run) (n : Nat) : r.after (n + 1) = r.pull.2.2.after n := by
  induction n with
  | zero => rfl
  | succ n ih => exact congrArg (fun s : Run => s.pull.2.2) ih

theorem after_congr (h : r.pull.2 = next.pull.2) (n : Nat) :
    r.after (n + 1) = next.after (n + 1) := by
  rw [after_succ, after_succ, h]

theorem Turns.trans (h : Turns r offered last) (hmore : Turns last more next) :
    Turns r (offered ++ more) next := by
  induction hmore with
  | none => exact (List.append_nil offered).symm ▸ h
  | row _ ht ih => exact ih.row ht
  | silent _ ht ih => exact List.append_assoc offered _ _ ▸ ih.silent ht

/-- A pull is a number of turns. -/
theorem exists_turns_pull (r : Run) : ∃ offered, Turns r offered r.pull.2.2 := by
  induction r using Run.output.induct with
  | case1 r v next ht _ => exact ⟨[], by rw [pull_of_row ht]; exact Turns.none.row ht⟩
  | case2 r es next ht ih =>
    obtain ⟨offered, h⟩ := ih
    exact ⟨_, by rw [pull_of_silent ht]; exact (Turns.none.silent ht).trans h⟩
  | case3 r ht => exact ⟨[], by rw [pull_of_over ht]; exact .none⟩

theorem exists_turns_after (r : Run) (n : Nat) : ∃ offered, Turns r offered (r.after n) := by
  induction n with
  | zero => exact ⟨[], .none⟩
  | succ n ih =>
    obtain ⟨offered, h⟩ := ih
    obtain ⟨more, hmore⟩ := exists_turns_pull (r.after n)
    exact ⟨offered ++ more, h.trans hmore⟩

/-! ## Buckets passed and offered -/

/-- The buckets offered so far are those passed that no right row had looked up. -/
structure Passing (offered : List Nat) (r : Run) : Prop where
  passed_le : r.phase.passed r.matched.length ≤ r.matched.length
  offered_eq : offered =
    (List.range (r.phase.passed r.matched.length)).filter fun i => r.matched[i]? = some false
  halted : r.phase = .done → r.pending = []

theorem offering_of_probing (hphase : r.phase = .probing) : r.offering = [] := by
  unfold offering
  rw [hphase]
  split <;> first | rfl | contradiction

theorem offering_of_leftOnly (hp : r.pending = []) {i : Nat} (hphase : r.phase = .leftOnly i) :
    r.offering = [i].filter fun i => r.matched[i]? = some false := by
  unfold offering
  rw [hp, hphase]
  by_cases hi : r.matched[i]? = some false <;> simp [hi]

namespace Passing

theorem of_probing (hphase : r.phase = .probing) : Passing [] r where
  passed_le := by
    rw [hphase]
    exact Nat.zero_le _
  offered_eq := by
    rw [hphase]
    rfl
  halted hdone := nomatch hphase.symm.trans hdone

/-- While right rows are left, no bucket was offered and none is. -/
theorem offered_of_probing (h : Passing offered r) (hphase : r.phase = .probing) :
    offered ++ r.offering = [] := by
  rw [h.offered_eq, hphase, offering_of_probing hphase]
  rfl

theorem deliver (h : Passing offered r) (hr : Rule r (.row v next)) : Passing offered next := by
  cases hr with
  | deliver hp => exact { h with halted := fun hdone => nomatch hp.symm.trans (h.halted hdone) }

/-- A bucket that is passed joins those offered unless a row had looked it up. -/
theorem offer (h : Passing offered r) (hp : r.pending = []) {i : Nat}
    (hphase : r.phase = .leftOnly i) (hi : i < r.matched.length) :
    Passing (offered ++ r.offering) { r.offerLeftOnly i with phase := .leftOnly (i + 1) } where
  passed_le := by
    rw [offerLeftOnly_matched]
    exact hi
  offered_eq := by
    rw [h.offered_eq, offering_of_leftOnly hp hphase, hphase, offerLeftOnly_matched]
    show _ = (List.range (i + 1)).filter _
    rw [List.range_succ, List.filter_append]
    rfl
  halted := nofun

theorem close (h : Passing offered r) (hp : r.pending = [])
    (hphase : r.phase = .leftOnly r.matched.length) :
    Passing (offered ++ r.offering) { r with phase := .done } where
  passed_le := Nat.le_refl _
  offered_eq := by
    rw [h.offered_eq, offering_of_leftOnly hp hphase, hphase]
    simp [Phase.passed]
  halted _ := hp

/-- A silent turn passes a bucket or none, and the phase follows or stays. -/
theorem of_silent (h : Passing offered r) (hr : Rule r (.silent es next)) :
    Passing (offered ++ r.offering) next ∧
      (next.phase = r.phase ∨ Phase.Next r.matched.length r.phase next.phase) := by
  cases hr with
  | @probe es row right hp hphase hright =>
    have hnext : ({ r with right := right }.probe row).phase = .probing :=
      (probe_phase _ row).trans hphase
    rw [h.offered_of_probing hphase]
    exact ⟨of_probing hnext, .inl (hnext.trans hphase.symm)⟩
  | pass hp hphase hright =>
    rw [h.offered_of_probing hphase]
    exact ⟨of_probing hphase, .inl rfl⟩
  | exhaust hp hphase hright =>
    rw [h.offered_of_probing hphase, hphase]
    exact ⟨{ passed_le := Nat.zero_le _, offered_eq := rfl, halted := nofun }, .inr .exhaust⟩
  | offer hp hphase hi =>
    refine ⟨h.offer hp hphase hi, .inr ?_⟩
    rw [hphase]
    exact .offer hi
  | @close i hp hphase hi =>
    have hle := h.passed_le
    rw [hphase] at hle
    obtain rfl : i = r.matched.length := Nat.le_antisymm hle hi
    refine ⟨h.close hp hphase, .inr ?_⟩
    rw [hphase]
    exact .close

end Passing

/-! ## Numbers of turns -/

/-- More turns than this are not made before a row is delivered or the end is found. -/
def turnsLeft (r : Run) : Nat :=
  match r.phase with
  | .probing => r.right.length + r.matched.length + 2
  | .leftOnly i => r.matched.length - i + 1
  | .done => 0

theorem turnsLeft_le (r : Run) : r.turnsLeft ≤ r.right.length + r.matched.length + 2 := by
  unfold turnsLeft
  split <;> omega

theorem turnsLeft_of_silent (hmatched : next.matched.length = r.matched.length)
    (hr : Rule r (.silent es next)) : next.turnsLeft < r.turnsLeft := by
  unfold turnsLeft
  rw [hmatched]
  cases hr with
  | probe hp hphase hright =>
    rw [probe_phase, probe_right, hphase, hright]
    simp only [Feed.length]
    omega
  | pass hp hphase hright =>
    rw [hphase, hright]
    simp only [Feed.length]
    omega
  | exhaust hp hphase hright =>
    rw [hphase]
    dsimp only
    omega
  | offer hp hphase hi =>
    rw [hphase]
    dsimp only
    omega
  | close hp hphase hi =>
    rw [hphase]
    exact Nat.succ_pos _

namespace Inv

variable {plan : Plan} {observer : Option Observer} {left seen delivered : List Value}

theorem length_of_silent (h : Inv plan observer left seen delivered r)
    (hr : Rule r (.silent es next)) : next.matched.length = r.matched.length := by
  obtain ⟨rows, hnext, -⟩ := h.of_silent hr
  rw [hnext.size_eq, h.size_eq]

/-- A pull comes back. -/
theorem exists_returns (h : Inv plan observer left seen delivered r) :
    ∃ n ≤ r.turnsLeft + 1, Returns n r r.pull.2.1 r.pull.2.2 := by
  induction r using Run.output.induct generalizing seen with
  | case1 r v next ht _ =>
    refine ⟨1, Nat.le_add_left 1 _, ?_⟩
    rw [pull_of_row ht]
    exact .row ht
  | case2 r es next ht ih =>
    have hr := ht ▸ rule_turn h.gathered
    obtain ⟨rows, hnext, -⟩ := h.of_silent hr
    obtain ⟨n, hn, hreturns⟩ := ih hnext
    have hlt := turnsLeft_of_silent (h.length_of_silent hr) hr
    refine ⟨n + 1, by omega, ?_⟩
    rw [pull_of_silent ht]
    exact .silent ht hreturns
  | case3 r ht =>
    refine ⟨1, Nat.le_add_left 1 _, ?_⟩
    rw [pull_of_over ht]
    exact .ended ht

/-- Turn by turn, more right rows are seen, more rows delivered and more buckets passed. -/
theorem of_turns (h : Inv plan observer left seen delivered r) (hpassing : Passing offered r)
    (hturns : Turns r more last) :
    ∃ rows ready, Inv plan observer left (seen ++ rows) (delivered ++ ready) last ∧
      r.remaining = rows ++ last.remaining ∧ Passing (offered ++ more) last ∧
      Relation.ReflTransGen (Phase.Next r.matched.length) r.phase last.phase := by
  induction hturns with
  | none => exact ⟨[], [], by simpa using h, rfl, by simpa using hpassing, .refl⟩
  | @row more last next v _ ht ih =>
    obtain ⟨rows, ready, hlast, hremaining, hpassed, hphase⟩ := ih
    have hr := ht ▸ rule_turn hlast.gathered
    obtain ⟨hnext, hright, hsame⟩ := hlast.of_row hr
    refine ⟨rows, ready ++ [v], List.append_assoc delivered _ _ ▸ hnext, ?_, hpassed.deliver hr,
      hsame.symm ▸ hphase⟩
    rw [hremaining]
    unfold remaining
    rw [hright]
  | @silent more last next es _ ht ih =>
    obtain ⟨rows, ready, hlast, hremaining, hpassed, hphase⟩ := ih
    have hr := ht ▸ rule_turn hlast.gathered
    obtain ⟨rows', hnext, hremaining'⟩ := hlast.of_silent hr
    obtain ⟨hoffered, hfollows⟩ := hpassed.of_silent hr
    rw [hlast.size_eq, ← h.size_eq] at hfollows
    refine ⟨rows ++ rows', ready, List.append_assoc seen _ _ ▸ hnext, ?_,
      List.append_assoc offered _ _ ▸ hoffered, ?_⟩
    · rw [hremaining, hremaining', List.append_assoc]
    · rcases hfollows with hsame | hnext
      · exact hsame.symm ▸ hphase
      · exact hphase.tail hnext

end Inv

/-! ## From the start -/

section First

variable (hp : r.pending = []) (hphase : r.phase = .probing)

include hp hphase

/-- Nothing is delivered by the turn that gathers the left rows. -/
theorem exists_silent_of_probing :
    ∃ es next, r.gatherLeft.2.turn = .silent es next ∧
      r.turn = .silent (r.gatherLeft.1 ++ es) next := by
  have hr := rule_turn (gatherLeft_left r)
  match ht : r.gatherLeft.2.turn with
  | .silent es next => exact ⟨es, next, rfl, turn_of_gatherLeft hp hphase ht⟩
  | .row v next =>
    rw [ht] at hr
    cases hr with
    | deliver hp' => exact nomatch hp'.symm.trans ((gatherLeft_pending r).trans hp)
  | .over =>
    rw [ht] at hr
    cases hr with
    | halt _ hphase' => exact nomatch hphase'.symm.trans ((gatherLeft_phase r).trans hphase)

theorem pull_gatherLeft : r.pull.2 = r.gatherLeft.2.pull.2 := by
  obtain ⟨es, next, hgathered, ht⟩ := exists_silent_of_probing hp hphase
  rw [pull_of_silent ht, pull_of_silent hgathered]

theorem Returns.of_gatherLeft {n : Nat} {v : Option Value} (h : Returns n r.gatherLeft.2 v last) :
    Returns n r v last := by
  obtain ⟨es, next, hgathered, ht⟩ := exists_silent_of_probing hp hphase
  cases h with
  | row hrow => cases hrow.symm.trans hgathered
  | ended hover => cases hover.symm.trans hgathered
  | silent hsilent hrest =>
    cases hsilent.symm.trans hgathered
    exact .silent ht hrest

end First

theorem after_of_over (ht : r.turn = .over) (n : Nat) : r.after n = r := by
  induction n with
  | zero => rfl
  | succ n ih =>
    show (r.after n).pull.2.2 = r
    rw [ih, pull_of_over ht]

/-- As soon as the end was found, all is done. -/
theorem Inv.phase_after {plan : Plan} {observer : Option Observer}
    {left seen delivered : List Value} (h : Inv plan observer left seen delivered r) {n : Nat}
    (hn : r.output.length < n) : (r.after n).phase = .done := by
  obtain ⟨n, rfl⟩ := Nat.exists_eq_succ_of_ne_zero (Nat.ne_zero_of_lt hn)
  induction r using Run.output.induct generalizing seen delivered n with
  | case1 r v next ht ih =>
    have hlength : r.output.length = next.output.length + 1 := by
      rw [output_of_row ht]
      rfl
    obtain ⟨n, rfl⟩ := Nat.exists_eq_succ_of_ne_zero (n := n) (by omega)
    rw [after_succ, pull_of_row ht]
    exact ih (h.of_row (ht ▸ rule_turn h.gathered)).1 n (by omega)
  | case2 r es next ht ih =>
    have hlength : r.output.length = next.output.length := by
      rw [output_of_silent ht, Feed.length_delay]
    obtain ⟨rows, hnext, -⟩ := h.of_silent (ht ▸ rule_turn h.gathered)
    rw [after_congr (pull_of_silent ht)]
    exact ih hnext n (by omega)
  | case3 r ht =>
    have hr := ht ▸ rule_turn h.gathered
    rw [after_of_over ht]
    cases hr with
    | halt _ hphase => exact hphase

/-! ## Consistent states -/

/-- What holds of a run between two turns of a merge once the left rows are gathered, when some
buckets were offered on the way to it. -/
structure Consistent (plan : Plan) (left right : List Value) (offered : List Nat) (r : Run) :
    Prop where
  store_eq : r.store = .ofList plan.selectors.left plan.distinct left
  length_matched : r.matched.length = r.store.size
  /-- A bucket is marked if a right row with its key was looked up. -/
  matched_iff : ∃ seen, right = seen ++ rowsOf r.right ∧
    ∀ (i : Nat) k bucket, r.store.entries[i]? = some (k, bucket) →
      (r.matched[i]? = some true ↔ ∃ row ∈ plan.probed seen, plan.selectors.right row = k)
  /-- A look-up never marks a bucket that there is no mark for. -/
  index_lt : ∀ key i, r.store.index? key = some i → i < r.matched.length
  phase_forward : ∀ more last, Turns r more last →
    Relation.ReflTransGen (Phase.Next r.store.size) r.phase last.phase
  offered_eq : offered =
    (List.range (r.phase.passed r.store.size)).filter fun i => r.matched[i]? = some false
  offered_once : r.phase = .done → ∀ i : Nat, r.matched[i]? = some false → offered.count i = 1
  /-- The combiner makes what is ready after a bucket was passed: all rows of one that is offered,
  and nothing of any other. -/
  pending_eq : ∀ i es next, r.phase = .leftOnly i → r.turn = .silent es next →
    next.pending = (r.offering.flatMap fun j => (r.store.bucketAt? j).getD []).filterMap fun l =>
      plan.output (some l) none
  returns : ∃ turns ≤ r.right.length + r.matched.length + 3,
    Returns turns r r.pull.2.1 r.pull.2.2
  halted : r.phase = .done → r.pull = ([], none, r)

section Consistent

variable {plan : Plan} {observer : Option Observer} {left seen delivered : List Value}

theorem Inv.matched_getElem? (h : Inv plan observer left seen delivered r) {i : Nat} {k : Key}
    {bucket : List Value} (hentry : r.store.entries[i]? = some (k, bucket)) :
    r.matched[i]? = some true ↔ ∃ row ∈ plan.probed seen, plan.selectors.right row = k := by
  have hkey : (plan.leftKeys left)[i]? = some k := by
    rw [h.store_eq, Buckets.ofList_eq] at hentry
    unfold Buckets.history at hentry
    rw [List.getElem?_map] at hentry
    obtain ⟨j, hj, heq⟩ := Option.map_eq_some_iff.1 hentry
    cases heq
    exact hj
  rw [h.matched_eq, List.getElem?_map, hkey, Option.map_some, Option.some_inj, decide_eq_true_iff,
    ← List.mem_map]
  exact (key_mem_map_kept plan.selectors.right).symm

theorem Inv.index_lt (h : Inv plan observer left seen delivered r) {key : Key} {i : Nat}
    (hi : r.store.index? key = some i) : i < r.matched.length := by
  rw [h.store_eq, Buckets.index?_ofList] at hi
  rw [h.size_eq]
  exact (List.findIdx?_eq_some_iff_getElem.1 hi).1

theorem Inv.size_store (h : Inv plan observer left seen delivered r) :
    r.matched.length = r.store.size := by
  rw [h.size_eq, h.store_eq, Buckets.size_ofList]
  rfl

theorem Inv.pending_of_leftOnly (h : Inv plan observer left seen delivered r) {i : Nat}
    (hphase : r.phase = .leftOnly i) (ht : r.turn = .silent es next) :
    next.pending = (r.offering.flatMap fun j => (r.store.bucketAt? j).getD []).filterMap fun l =>
      plan.output (some l) none := by
  have hr := ht ▸ rule_turn h.gathered
  cases hr with
  | probe _ hphase' => cases hphase.symm.trans hphase'
  | pass _ hphase' => cases hphase.symm.trans hphase'
  | exhaust _ hphase' => cases hphase.symm.trans hphase'
  | offer hp hphase' hi =>
    cases hphase.symm.trans hphase'
    obtain ⟨mark, hmark⟩ : ∃ mark, r.matched[i]? = some mark := ⟨_, List.getElem?_eq_getElem hi⟩
    rw [offering_of_leftOnly hp hphase, ← h.plan_eq]
    unfold offerLeftOnly
    cases mark <;> simp [hmark, hp]
  | close hp hphase' hi =>
    cases hphase.symm.trans hphase'
    rw [offering_of_leftOnly hp hphase]
    simp [hi, hp]

theorem Passing.offered_once (h : Passing offered r) (hphase : r.phase = .done) {i : Nat}
    (hi : r.matched[i]? = some false) : offered.count i = 1 := by
  obtain ⟨hlt, -⟩ := List.getElem?_eq_some_iff.1 hi
  rw [h.offered_eq, hphase, List.count_filter (by simpa using hi)]
  exact List.count_eq_one_of_mem List.nodup_range (List.mem_range.2 hlt)

theorem Inv.consistent {right : List Value} (h : Inv plan observer left seen delivered r)
    (hseen : right = seen ++ r.remaining) (hpassing : Passing offered r) :
    Consistent plan left right offered r where
  store_eq := h.store_eq
  length_matched := h.size_store
  matched_iff := ⟨seen, hseen, fun _ _ _ hentry => h.matched_getElem? hentry⟩
  index_lt _ _ hi := h.index_lt hi
  phase_forward more last hturns := by
    obtain ⟨rows, ready, -, -, -, hphase⟩ := h.of_turns hpassing hturns
    exact h.size_store ▸ hphase
  offered_eq := h.size_store ▸ hpassing.offered_eq
  offered_once hphase _ hi := hpassing.offered_once hphase hi
  pending_eq _ _ _ hphase ht := h.pending_of_leftOnly hphase ht
  returns := by
    obtain ⟨turns, hturns, hreturns⟩ := h.exists_returns
    exact ⟨turns, hturns.trans (Nat.succ_le_succ r.turnsLeft_le), hreturns⟩
  halted hphase := pull_of_over (turn_of_done (hpassing.halted hphase) hphase)

end Consistent

/-- **The states of a merge stay consistent.** After the first pull a merge is in a state that turns
lead to from the gathering of the left rows, and every such state is consistent, also between two
pulls. The first pull comes back as the others do, and once the end was found all is done. -/
theorem states_consistent (plan : Plan) (observer : Option Observer) (left right : Feed Node) :
    let start := start plan observer left right
    (∀ n, ∃ offered, Turns start.gatherLeft.2 offered (start.after (n + 1))) ∧
      (∀ offered r, Turns start.gatherLeft.2 offered r →
        Consistent plan (rowsOf left) (rowsOf right) offered r) ∧
      (∃ turns ≤ right.length + start.gatherLeft.2.matched.length + 3,
        Returns turns start start.pull.2.1 start.pull.2.2) ∧
      ∀ n, (feeds plan observer left right).length < n → (start.after n).phase = .done := by
  intro start
  have hinv : Inv plan observer (rowsOf left) [] [] start.gatherLeft.2 :=
    inv_gatherLeft plan observer left right
  have hpull : start.pull.2 = start.gatherLeft.2.pull.2 := pull_gatherLeft rfl rfl
  refine ⟨fun n => ?_, fun offered r hturns => ?_, ?_, fun n hn => ?_⟩
  · rw [after_congr hpull]
    exact exists_turns_after _ _
  · obtain ⟨rows, ready, hr, hremaining, hpassing, -⟩ := hinv.of_turns (.of_probing rfl) hturns
    exact hr.consistent hremaining hpassing
  · obtain ⟨turns, hturns, hreturns⟩ := hinv.exists_returns
    rw [hpull]
    exact ⟨turns, hturns.trans (Nat.succ_le_succ (turnsLeft_le _)), .of_gatherLeft rfl rfl hreturns⟩
  · have hlength : (feeds plan observer left right).length = start.gatherLeft.2.output.length := by
      unfold feeds
      rw [output_eq_delay rfl rfl, Feed.length_delay]
    obtain ⟨n, rfl⟩ := Nat.exists_eq_succ_of_ne_zero (Nat.ne_zero_of_lt hn)
    rw [after_congr hpull]
    exact hinv.phase_after (hlength ▸ hn)

/-- The second of two left rows is never looked up, and the combiner drops all rows. -/
theorem states_consistent_of_unmatched_row :
    let plan : Plan := ⟨.wholeRecord, .custom fun _ _ => none, none, false⟩
    let left := Feed.ofList [Node.record (.string "a"), .record (.string "b")]
    let right := Feed.ofList [Node.record (.string "a")]
    let first := (start plan none left right).gatherLeft.2
    let last := { first with
      right := .finish [], matched := [true, false], phase := .done,
      stats := { leftRows := 2, probes := 1, matchedPairs := 1, leftOnly := 1 } }
    Turns first [1] last ∧ [1].count 1 = 1 ∧ last.pull = ([], none, last) := by
  intro plan left right first last
  let state (phase : Phase) (stats : MergeStats) : Run :=
    { last with phase := phase, stats := stats }
  let looked : MergeStats := { leftRows := 2, probes := 1, matchedPairs := 1 }
  have hprobe : first.turn = .silent [] (state .probing looked) := rfl
  have hexhaust : (state .probing looked).turn = .silent [] (state (.leftOnly 0) looked) := rfl
  have hmarked : (state (.leftOnly 0) looked).turn = .silent [] (state (.leftOnly 1) looked) := rfl
  have hoffer : (state (.leftOnly 1) looked).turn = .silent [] (state (.leftOnly 2) last.stats) :=
    rfl
  have hclose : (state (.leftOnly 2) last.stats).turn =
    .silent (state (.leftOnly 2) last.stats).farewell last := rfl
  have hturns : Turns first [1] last :=
    ((((Turns.none.silent hprobe).silent hexhaust).silent hmarked).silent hoffer).silent hclose
  have hlast := (states_consistent plan none left right).2.1 [1] last hturns
  exact ⟨hturns, hlast.offered_once rfl 1 rfl, hlast.halted rfl⟩

end Run

end RecordFlow.Merge
