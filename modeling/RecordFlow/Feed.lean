import RecordFlow.Observer

/-!
# Feeds

A `Feed` is a sequence that is pulled item by item. Every pull may set emissions free, also the
one that finds the end, and the feed says which. Transforming a feed never pulls it: the emissions
of items that a transformation drops or gathers move to the next pull that delivers something or
finds the end (`delay`).
-/

namespace RecordFlow

/-- A sequence and what each pull of it sets free. -/
inductive Feed (α : Type) where
  | finish (released : List Emission)
  | yield (released : List Emission) (item : α) (rest : Feed α)

namespace Feed

variable {α β : Type}

/-! ## Views -/

/-- The items, in order. -/
def items : Feed α → List α
  | finish _ => []
  | yield _ x rest => x :: rest.items

/-- All that pulling the feed to its end sets free, in order. -/
def released : Feed α → List Emission
  | finish es => es
  | yield es _ rest => es ++ rest.released

/-- The number of items. -/
def length : Feed α → Nat
  | finish _ => 0
  | yield _ _ rest => rest.length + 1

/-! ## Pulling -/

/-- One pull: what it sets free, the item unless the end was found, and what is left. Past the end
nothing is set free any more. -/
def pull : Feed α → List Emission × Option α × Feed α
  | finish es => (es, none, finish [])
  | yield es x rest => (es, some x, rest)

/-- At most so many pulls, ending early when the end is found: what they set free and the items. -/
def take : Nat → Feed α → List Emission × List α
  | 0, _ => ([], [])
  | _ + 1, finish es => (es, [])
  | n + 1, yield es x rest =>
    let (more, xs) := rest.take n
    (es ++ more, x :: xs)

/-! ## Building and transforming -/

/-- Items that set nothing free, but for the first pull. -/
def ofListAfter (es : List Emission) : List α → Feed α
  | [] => finish es
  | x :: xs => yield es x (ofListAfter [] xs)

/-- Items that set nothing free. -/
def ofList (xs : List α) : Feed α := ofListAfter [] xs

/-- The first pull sets more free, before all else. -/
def delay (es : List Emission) : Feed α → Feed α
  | finish fs => finish (es ++ fs)
  | yield fs x rest => yield (es ++ fs) x rest

/-- Transform every item. -/
def map (f : α → β) : Feed α → Feed β
  | finish es => finish es
  | yield es x rest => yield es (f x) (rest.map f)

/-- Keep the items that pass a test. -/
def filter (p : α → Bool) : Feed α → Feed α
  | finish es => finish es
  | yield es x rest => if p x then yield es x (rest.filter p) else delay es (rest.filter p)

/-- Items that set nothing free, before a feed. -/
def appendList : List α → Feed α → Feed α
  | [], feed => feed
  | x :: xs, feed => yield [] x (appendList xs feed)

/-- Replace every item by the items of a list. -/
def flatMap (f : α → List β) : Feed α → Feed β
  | finish es => finish es
  | yield es x rest => delay es (appendList (f x) (rest.flatMap f))

/-- Gather all items at the first pull and go on with a list made of them. -/
def gather (f : List α → List β) (feed : Feed α) : Feed β :=
  ofListAfter feed.released (f feed.items)

/-- Transform the items until one fails: what the pulls up to there set free, and the results. -/
def traverse {ε : Type} (f : α → Except ε β) : Feed α → List Emission × Except ε (List β)
  | finish es => (es, .ok [])
  | yield es x rest =>
    match f x with
    | .error e => (es, .error e)
    | .ok y =>
      let (more, ys) := rest.traverse f
      (es ++ more, ys.map (y :: ·))

/-! ## Items and emissions of transformed feeds -/

theorem length_eq (feed : Feed α) : feed.length = feed.items.length := by
  induction feed with
  | finish => rfl
  | yield _ _ _ ih => simp [length, items, ih]

@[simp] theorem items_ofListAfter (es : List Emission) (xs : List α) :
    (ofListAfter es xs).items = xs := by
  induction xs generalizing es with
  | nil => rfl
  | cons _ _ ih => simp [ofListAfter, items, ih]

@[simp] theorem released_ofListAfter (es : List Emission) (xs : List α) :
    (ofListAfter es xs).released = es := by
  induction xs generalizing es with
  | nil => rfl
  | cons _ _ ih => simp [ofListAfter, released, ih]

@[simp] theorem items_ofList (xs : List α) : (ofList xs).items = xs := items_ofListAfter [] xs

@[simp] theorem released_ofList (xs : List α) : (ofList xs).released = [] :=
  released_ofListAfter [] xs

@[simp] theorem items_delay (es : List Emission) (feed : Feed α) :
    (delay es feed).items = feed.items := by
  cases feed <;> rfl

@[simp] theorem released_delay (es : List Emission) (feed : Feed α) :
    (delay es feed).released = es ++ feed.released := by
  cases feed <;> simp [delay, released]

@[simp] theorem items_map (f : α → β) (feed : Feed α) :
    (feed.map f).items = feed.items.map f := by
  induction feed with
  | finish => rfl
  | yield _ _ _ ih => simp [map, items, ih]

@[simp] theorem released_map (f : α → β) (feed : Feed α) :
    (feed.map f).released = feed.released := by
  induction feed with
  | finish => rfl
  | yield _ _ _ ih => simp [map, released, ih]

@[simp] theorem items_filter (p : α → Bool) (feed : Feed α) :
    (feed.filter p).items = feed.items.filter p := by
  induction feed with
  | finish => rfl
  | yield _ x _ ih => cases h : p x <;> simp [filter, items, h, ih]

/-- Dropped items leave their emissions to the next pull. -/
@[simp] theorem released_filter (p : α → Bool) (feed : Feed α) :
    (feed.filter p).released = feed.released := by
  induction feed with
  | finish => rfl
  | yield _ x _ ih => cases h : p x <;> simp [filter, released, h, ih]

@[simp] theorem items_appendList (xs : List α) (feed : Feed α) :
    (appendList xs feed).items = xs ++ feed.items := by
  induction xs with
  | nil => rfl
  | cons _ _ ih => simp [appendList, items, ih]

@[simp] theorem released_appendList (xs : List α) (feed : Feed α) :
    (appendList xs feed).released = feed.released := by
  induction xs with
  | nil => rfl
  | cons _ _ ih => simp [appendList, released, ih]

@[simp] theorem items_flatMap (f : α → List β) (feed : Feed α) :
    (feed.flatMap f).items = feed.items.flatMap f := by
  induction feed with
  | finish => rfl
  | yield _ _ _ ih => simp [flatMap, items, ih]

@[simp] theorem released_flatMap (f : α → List β) (feed : Feed α) :
    (feed.flatMap f).released = feed.released := by
  induction feed with
  | finish => rfl
  | yield _ _ _ ih => simp [flatMap, released, ih]

@[simp] theorem items_gather (f : List α → List β) (feed : Feed α) :
    (feed.gather f).items = f feed.items := items_ofListAfter _ _

/-- Gathering sets free at the first pull what all pulls would have. -/
@[simp] theorem released_gather (f : List α → List β) (feed : Feed α) :
    (feed.gather f).released = feed.released := released_ofListAfter _ _

/-- Pulls deliver the first items. -/
@[simp] theorem take_snd (n : Nat) (feed : Feed α) : (feed.take n).2 = feed.items.take n := by
  induction feed generalizing n with
  | finish => cases n <;> simp [take, items]
  | yield _ _ _ ih => cases n <;> simp [take, items, ih]

/-- The results are those of the list of items. -/
@[simp] theorem traverse_snd {ε : Type} (f : α → Except ε β) (feed : Feed α) :
    (feed.traverse f).2 = feed.items.mapM f := by
  induction feed with
  | finish => rfl
  | yield _ x _ ih =>
    rw [items, List.mapM_cons, ← ih, traverse]
    cases f x with
    | error => rfl
    | ok => dsimp only; cases (traverse f _).2 <;> rfl

end Feed

end RecordFlow
