import Mathlib.Order.Monotone.Basic
import RecordFlow.Feed

/-!
# Pulling feeds

How many pulls set what free: a feed that is pulled on and on (`Feed.pulls`), one that is pulled to
its end, and one whose items are made by pulling another (`Feed.Reads`).
-/

namespace RecordFlow.Feed

variable {α β γ : Type}

@[simp] theorem take_zero (feed : Feed α) : feed.take 0 = ([], []) := rfl

@[simp] theorem take_finish_nil (n : Nat) : (take n (finish [] : Feed α)).1 = [] := by
  cases n <;> rfl

@[simp] theorem delay_delay (es fs : List Emission) (feed : Feed α) :
    delay es (delay fs feed) = delay (es ++ fs) feed := by
  cases feed <;> simp [delay]

@[simp] theorem length_delay (es : List Emission) (feed : Feed α) :
    (delay es feed).length = feed.length := by
  cases feed <;> rfl

theorem take_delay (es : List Emission) (feed : Feed α) (n : Nat) :
    ((delay es feed).take (n + 1)).1 = es ++ (feed.take (n + 1)).1 := by
  cases feed with
  | finish fs => rfl
  | yield fs x rest => simp [delay, take]

/-- Pulling beyond the last item sets everything free. -/
theorem take_of_length_lt {feed : Feed α} {n : Nat} (h : feed.length < n) :
    (feed.take n).1 = feed.released := by
  induction feed generalizing n with
  | finish es =>
    obtain ⟨m, rfl⟩ := Nat.exists_eq_add_of_lt h
    rfl
  | yield es x rest ih =>
    cases n with
    | zero => exact absurd h (Nat.not_lt_zero _)
    | succ n =>
      rw [take, released, ← ih (Nat.lt_of_succ_lt_succ h)]

/-- A traversal that succeeds pulls to the end. -/
theorem traverse_fst {ε : Type} {f : α → Except ε β} {feed : Feed α}
    (h : ∀ x ∈ feed.items, ∃ y, f x = .ok y) : (feed.traverse f).1 = feed.released := by
  induction feed with
  | finish es => rfl
  | yield es x rest ih =>
    obtain ⟨y, hy⟩ := h x List.mem_cons_self
    rw [traverse, hy, released, ← ih fun z hz => h z (List.mem_cons_of_mem x hz)]

/-! ## Pulls in a row -/

/-- Pulls in a row, also past the end: what they set free, and what is left. -/
def pulls : Nat → Feed α → List Emission × Feed α
  | 0, feed => ([], feed)
  | n + 1, feed =>
    let (es, _, rest) := feed.pull
    let (more, last) := rest.pulls n
    (es ++ more, last)

/-- Pulls past the end set nothing free. -/
theorem pulls_finish_nil (n : Nat) : (pulls n (finish [] : Feed α)).1 = [] := by
  induction n with
  | zero => rfl
  | succ n ih => exact ih

theorem pulls_fst (n : Nat) (feed : Feed α) : (feed.pulls n).1 = (feed.take n).1 := by
  induction feed generalizing n with
  | finish es =>
    cases n with
    | zero => rfl
    | succ n =>
      show es ++ (pulls n (finish [])).1 = es
      rw [pulls_finish_nil, List.append_nil]
  | yield es x rest ih =>
    cases n with
    | zero => rfl
    | succ n => exact congrArg (es ++ ·) (ih n)

theorem take_ofListAfter (es : List Emission) (xs : List α) (n : Nat) :
    ((ofListAfter es xs).take (n + 1)).1 = es := by
  induction xs generalizing es n with
  | nil => rfl
  | cons x xs ih =>
    show es ++ ((ofListAfter [] xs).take n).1 = es
    cases n with
    | zero => exact List.append_nil es
    | succ n => rw [ih, List.append_nil]

/-- A feed that sets nothing free in all sets nothing free on the way. -/
theorem take_of_released_nil {feed : Feed α} (h : feed.released = []) (n : Nat) :
    (feed.take n).1 = [] := by
  induction feed generalizing n with
  | finish es =>
    cases n with
    | zero => rfl
    | succ n => exact h
  | yield es x rest ih =>
    obtain ⟨hes, hrest⟩ := List.append_eq_nil_iff.1 h
    cases n with
    | zero => rfl
    | succ n =>
      show es ++ (rest.take n).1 = []
      rw [hes, ih hrest, List.append_nil]

/-! ## Feeds that read others -/

/-- One feed is made by pulling another. After any pulls of the one, the other has been pulled some
number of times, which set the same free, and the end of the one is found after the other's. -/
def Reads (out : Feed β) (feed : Feed α) : Prop :=
  ∃ pulled : Nat → Nat, pulled 0 = 0 ∧ Monotone pulled ∧
    ∀ n, (out.take n).1 = (feed.take (pulled n)).1 ∧
      (out.length < n → feed.length < pulled n)

namespace Reads

variable {out : Feed β} {feed rest : Feed α}

theorem refl (feed : Feed α) : feed.Reads feed := ⟨id, rfl, monotone_id, fun _ => ⟨rfl, id⟩⟩

/-- Nothing is pulled before the first pull. -/
theorem of_succ (pulled : Nat → Nat) (hmono : Monotone pulled)
    (h : ∀ n, (out.take (n + 1)).1 = (feed.take (pulled n)).1 ∧
      (out.length < n + 1 → feed.length < pulled n)) : out.Reads feed := by
  refine ⟨fun n => n.casesOn 0 pulled, rfl, monotone_nat_of_le_succ fun n => ?_, fun n => ?_⟩
  · cases n with
    | zero => exact Nat.zero_le _
    | succ n => exact hmono n.le_succ
  · cases n with
    | zero => exact ⟨rfl, nofun⟩
    | succ n => exact h n

theorem yield (h : out.Reads rest) (es : List Emission) (y : β) (x : α) :
    (yield es y out).Reads (yield es x rest) := by
  obtain ⟨pulled, -, hmono, h⟩ := h
  refine of_succ (fun n => pulled n + 1) (fun m n hmn => Nat.succ_le_succ (hmono hmn)) ?_
  intro n
  refine ⟨congrArg (es ++ ·) (h n).1, fun hn => ?_⟩
  exact Nat.succ_lt_succ ((h n).2 (Nat.lt_of_succ_lt_succ hn))

/-- An item that is dropped leaves what its pull sets free to the next pull. -/
theorem delay (h : out.Reads rest) (es : List Emission) (x : α) :
    (delay es out).Reads (Feed.yield es x rest) := by
  obtain ⟨pulled, -, hmono, h⟩ := h
  refine of_succ (fun n => pulled (n + 1) + 1)
    (fun m n hmn => Nat.succ_le_succ (hmono (Nat.succ_le_succ hmn))) ?_
  intro n
  rw [take_delay, length_delay]
  exact ⟨congrArg (es ++ ·) (h (n + 1)).1, fun hn => Nat.succ_lt_succ ((h (n + 1)).2 hn)⟩

/-- Items that are at hand need no pull. -/
theorem appendList (h : out.Reads rest) (ys : List β) : (appendList ys out).Reads rest := by
  induction ys with
  | nil => exact h
  | cons y ys ih =>
    obtain ⟨pulled, -, hmono, h⟩ := ih
    exact of_succ pulled hmono fun n => ⟨(h n).1, fun hn => (h n).2 (Nat.lt_of_succ_lt_succ hn)⟩

end Reads

theorem reads_map (f : α → β) (feed : Feed α) : (feed.map f).Reads feed := by
  induction feed with
  | finish es => exact ⟨id, rfl, monotone_id, fun n => ⟨by cases n <;> rfl, id⟩⟩
  | yield es x rest ih => exact ih.yield es (f x) x

theorem reads_filter (p : α → Bool) (feed : Feed α) : (feed.filter p).Reads feed := by
  induction feed with
  | finish es => exact .refl _
  | yield es x rest ih =>
    by_cases hx : p x
    · rw [filter, if_pos hx]
      exact ih.yield es x x
    · rw [filter, if_neg hx]
      exact ih.delay es x

theorem reads_flatMap (f : α → List β) (feed : Feed α) : (feed.flatMap f).Reads feed := by
  induction feed with
  | finish es => exact ⟨id, rfl, monotone_id, fun n => ⟨by cases n <;> rfl, id⟩⟩
  | yield es x rest ih =>
    unfold flatMap
    cases f x with
    | nil => exact ih.delay es x
    | cons y ys =>
      -- the first of several items comes with the pull, the others are at hand
      have hdelay : delay es (appendList (y :: ys) (rest.flatMap f)) =
          yield es y (appendList ys (rest.flatMap f)) := by simp [appendList, delay]
      rw [hdelay]
      exact (ih.appendList ys).yield es y x

/-- Gathering pulls to the end at once. -/
theorem reads_gather (f : List α → List β) (feed : Feed α) : (feed.gather f).Reads feed := by
  refine Reads.of_succ (fun _ => feed.length + 1) monotone_const fun n => ?_
  rw [take_of_length_lt (Nat.lt_succ_self _)]
  exact ⟨take_ofListAfter _ _ n, fun _ => Nat.lt_succ_self _⟩

theorem reads_of_released_nil {out : Feed β} {feed : Feed α} (hout : out.released = [])
    (hfeed : feed.released = []) : out.Reads feed := by
  refine Reads.of_succ (fun _ => feed.length + 1) monotone_const fun n => ?_
  rw [take_of_released_nil hout, take_of_released_nil hfeed]
  exact ⟨rfl, fun _ => Nat.lt_succ_self _⟩

end RecordFlow.Feed
