import VgiMask.Common.Outcome

/-!
# Row loops into a bounded buffer

A loop makes one call per row and appends each result to a buffer of bounded size. Its
result is that of calling every row in order, unless the results returned before the first
failing row outgrow the buffer. Calling rows in order reports the first failing row, and
can be cut into consecutive pieces.
-/

namespace Common

variable {α β ε : Type} {size : β → ℕ} {cap : ℕ}

/-- A buffer whose items have a total size of at most `cap`. -/
structure Buffer (size : β → ℕ) (cap : ℕ) where
  items : List β
  fits : (items.map size).sum ≤ cap

/-- The buffer without items. -/
def Buffer.empty : Buffer size cap := ⟨[], Nat.zero_le _⟩

/-- Appending panics when the item does not fit. -/
def Buffer.push (b : Buffer size cap) (item : β) : Outcome ε (Buffer size cap) :=
  if h : ((b.items ++ [item]).map size).sum ≤ cap then .ok ⟨b.items ++ [item], h⟩ else .panic

/-- Call every row in order and append its result. -/
def fillLoop (f : α → Outcome ε β) (xs : List α) (b : Buffer size cap) :
    Outcome ε (Buffer size cap) :=
  xs.foldlM (fun b x => f x >>= b.push) b

/-- The results returned before the first row that returns none. -/
def returned (f : α → Outcome ε β) : List α → List β
  | [] => []
  | x :: xs =>
    match f x with
    | .ok y => y :: returned f xs
    | _ => []

/-- Some row fails with an error, and every row before it returns a result. -/
def FirstFailure (f : α → Outcome ε β) (xs : List α) (e : ε) : Prop :=
  ∃ (i : ℕ) (x : α), xs[i]? = some x ∧ f x = .err e ∧
    ∀ j < i, ∀ x', xs[j]? = some x' → ∃ y, f x' = .ok y

/-- The offsets and sizes of consecutive pieces. -/
def pieces (start : ℕ) : List ℕ → List (ℕ × ℕ)
  | [] => []
  | n :: ns => (start, n) :: pieces (start + n) ns

/-- A loop depends on its steps for the rows it visits. -/
theorem foldlM_congr_mem {γ : Type} {f g : γ → α → Outcome ε γ} {xs : List α}
    (h : ∀ x ∈ xs, ∀ c, f c x = g c x) (c : γ) : xs.foldlM f c = xs.foldlM g c := by
  induction xs generalizing c with
  | nil => rfl
  | cons x xs ih =>
    obtain ⟨hx, hxs⟩ := List.forall_mem_cons.mp h
    rw [List.foldlM_cons, List.foldlM_cons, hx c, funext (ih hxs)]

/-- Calling rows depends on the calls of these rows. -/
theorem mapM_congr_mem {f g : α → Outcome ε β} {xs : List α} (h : ∀ x ∈ xs, f x = g x) :
    xs.mapM f = xs.mapM g := by
  induction xs with
  | nil => rfl
  | cons x xs ih =>
    obtain ⟨hx, hxs⟩ := List.forall_mem_cons.mp h
    rw [List.mapM_cons, List.mapM_cons, hx, ih hxs]

/-- Pieces lie inside the range they cut. -/
theorem mem_pieces {start : ℕ} {sizes : List ℕ} {p : ℕ × ℕ} (h : p ∈ pieces start sizes) :
    p.1 + p.2 ≤ start + sizes.sum := by
  induction sizes generalizing start with
  | nil => cases h
  | cons n sizes ih =>
    rw [List.sum_cons]
    rcases List.mem_cons.mp h with rfl | h
    · exact Nat.add_le_add_left (Nat.le_add_right n _) _
    · have hrest := ih h
      omega

/-- The loop calls every row in order, unless the returned results outgrow the buffer. -/
theorem fillLoop_eq (f : α → Outcome ε β) (xs : List α) (b : Buffer size cap) :
    Buffer.items <$> fillLoop f xs b =
      if ((b.items ++ returned f xs).map size).sum ≤ cap then (b.items ++ ·) <$> xs.mapM f
      else .panic := by
  induction xs generalizing b with
  | nil =>
    have hfits : ((b.items ++ returned f []).map size).sum ≤ cap := by
      rw [returned, List.append_nil]
      exact b.fits
    rw [if_pos hfits, List.mapM_nil]
    change Outcome.ok b.items = Outcome.ok (b.items ++ [])
    rw [List.append_nil]
  | cons x xs ih =>
    have hstep : fillLoop f (x :: xs) b = (f x >>= b.push) >>= fillLoop f xs := rfl
    rw [hstep, List.mapM_cons]
    cases hx : f x with
    | ok y =>
      have htail : returned f (x :: xs) = y :: returned f xs := by rw [returned, hx]
      rw [htail, Outcome.ok_bind, Outcome.ok_bind, Buffer.push]
      split
      · rename_i hfits
        rw [Outcome.ok_bind, ih, List.append_assoc, List.singleton_append]
        congr 1
        cases xs.mapM f with
        | ok ys => simp
        | _ => rfl
      · rename_i hfull
        have hover : ¬ ((b.items ++ y :: returned f xs).map size).sum ≤ cap := by
          simp only [List.map_append, List.sum_append, List.map_cons, List.sum_cons, List.map_nil,
            List.sum_nil] at hfull ⊢
          omega
        rw [if_neg hover]
        rfl
    | _ =>
      have hfits : ((b.items ++ returned f (x :: xs)).map size).sum ≤ cap := by
        rw [returned, hx, List.append_nil]
        exact b.fits
      rw [if_pos hfits]
      rfl

/-- Reading the cells of a column in order gives the column. -/
theorem map_range_getElem?_join (cells : List (Option β)) :
    (List.range cells.length).map (fun i => cells[i]?.join) = cells := by
  apply List.ext_getElem?
  intro i
  rw [List.getElem?_map]
  by_cases hi : i < cells.length
  · rw [List.getElem?_range hi, Option.map_some, List.getElem?_eq_getElem hi]
    rfl
  · rw [List.getElem?_eq_none (by simpa using hi), List.getElem?_eq_none (Nat.le_of_not_lt hi)]
    rfl

/-- Where every row returns a result, the returned results are all of them. -/
theorem returned_of_mapM_eq_ok {f : α → Outcome ε β} {xs : List α} {ys : List β}
    (h : xs.mapM f = .ok ys) : returned f xs = ys := by
  induction xs generalizing ys with
  | nil =>
    rw [List.mapM_nil] at h
    exact Outcome.ok.inj h
  | cons x xs ih =>
    rw [List.mapM_cons] at h
    obtain ⟨y, hy, hrest⟩ := (Outcome.bind_eq_ok_iff _ _ _).mp h
    obtain ⟨zs, hzs, hcons⟩ := (Outcome.bind_eq_ok_iff _ _ _).mp hrest
    rw [returned, hy, ih hzs]
    exact Outcome.ok.inj hcons

/-- All rows can be called exactly when each returns some result. -/
theorem exists_mapM_eq_ok_iff (f : α → Outcome ε β) (xs : List α) :
    (∃ ys, xs.mapM f = .ok ys) ↔ ∀ x ∈ xs, ∃ y, f x = .ok y := by
  induction xs with
  | nil => exact ⟨nofun, fun _ => ⟨[], rfl⟩⟩
  | cons x xs ih =>
    rw [List.forall_mem_cons, ← ih, List.mapM_cons]
    constructor
    · intro ⟨ys, hys⟩
      obtain ⟨y, hy, hrest⟩ := (Outcome.bind_eq_ok_iff _ _ _).mp hys
      obtain ⟨zs, hzs, -⟩ := (Outcome.bind_eq_ok_iff _ _ _).mp hrest
      exact ⟨⟨y, hy⟩, zs, hzs⟩
    · intro ⟨⟨y, hy⟩, ys, hys⟩
      exact ⟨y :: ys, by rw [hy, Outcome.ok_bind, hys]; rfl⟩

/-- The results are those of the rows, place by place. -/
theorem getElem?_of_mapM_eq_ok {f : α → Outcome ε β} {xs : List α} {ys : List β}
    (h : xs.mapM f = .ok ys) :
    ys.length = xs.length ∧ ∀ (i : ℕ) (x : α), xs[i]? = some x → ∃ y, ys[i]? = some y ∧ f x = .ok y := by
  induction xs generalizing ys with
  | nil =>
    rw [List.mapM_nil] at h
    obtain rfl := Outcome.ok.inj h
    exact ⟨rfl, nofun⟩
  | cons x xs ih =>
    rw [List.mapM_cons] at h
    obtain ⟨y, hy, hrest⟩ := (Outcome.bind_eq_ok_iff _ _ _).mp h
    obtain ⟨zs, hzs, hcons⟩ := (Outcome.bind_eq_ok_iff _ _ _).mp hrest
    obtain rfl := Outcome.ok.inj hcons
    obtain ⟨hlen, hall⟩ := ih hzs
    refine ⟨congrArg (· + 1) hlen, fun i x' hx' => ?_⟩
    cases i with
    | zero => exact ⟨y, rfl, Option.some.inj hx' ▸ hy⟩
    | succ i => exact hall i x' hx'

/-- The results are exactly those of the rows, place by place. -/
theorem mapM_eq_ok_iff {f : α → Outcome ε β} {xs : List α} {ys : List β} :
    xs.mapM f = .ok ys ↔
      ys.length = xs.length ∧
        ∀ (i : ℕ) (x : α), xs[i]? = some x → ∃ y, ys[i]? = some y ∧ f x = .ok y := by
  refine ⟨getElem?_of_mapM_eq_ok, fun ⟨hlen, hrows⟩ => ?_⟩
  have hreturn : ∀ x ∈ xs, ∃ y, f x = .ok y := by
    intro x hx
    obtain ⟨i, hi, hget⟩ := List.getElem_of_mem hx
    obtain ⟨y, -, hy⟩ := hrows i x (by rw [List.getElem?_eq_getElem hi, hget])
    exact ⟨y, hy⟩
  obtain ⟨ys', hys'⟩ := (exists_mapM_eq_ok_iff f xs).mpr hreturn
  obtain ⟨hlen', hrows'⟩ := getElem?_of_mapM_eq_ok hys'
  have hsame : ys' = ys := by
    apply List.ext_getElem (hlen'.trans hlen.symm)
    intro i hi' hi
    have hx := List.getElem?_eq_getElem (hlen ▸ hi)
    obtain ⟨y, hy, hfy⟩ := hrows i _ hx
    obtain ⟨y', hy', hfy'⟩ := hrows' i _ hx
    rw [List.getElem?_eq_getElem hi, Option.some.injEq] at hy
    rw [List.getElem?_eq_getElem hi', Option.some.injEq] at hy'
    rw [hy, hy']
    exact Outcome.ok.inj (hfy'.symm.trans hfy)
  rw [hys', hsame]

/-- Sizes that are known for every row add up. -/
theorem sum_map_of_mapM_eq_ok {f : α → Outcome ε β} {xs : List α} {ys : List β}
    (h : xs.mapM f = .ok ys) {size : β → ℕ} {known : α → ℕ}
    (hrow : ∀ x ∈ xs, ∀ y, f x = .ok y → size y = known x) :
    (ys.map size).sum = (xs.map known).sum := by
  induction xs generalizing ys with
  | nil =>
    rw [List.mapM_nil] at h
    exact Outcome.ok.inj h ▸ rfl
  | cons x xs ih =>
    rw [List.mapM_cons] at h
    obtain ⟨y, hy, hrest⟩ := (Outcome.bind_eq_ok_iff _ _ _).mp h
    obtain ⟨zs, hzs, hcons⟩ := (Outcome.bind_eq_ok_iff _ _ _).mp hrest
    obtain rfl := Outcome.ok.inj hcons
    obtain ⟨hx, hxs⟩ := List.forall_mem_cons.mp hrow
    rw [List.map_cons, List.sum_cons, List.map_cons, List.sum_cons, hx y hy, ih hzs hxs]

/-- The returned results are no larger than bounds that hold for every row. -/
theorem sum_returned_le {f : α → Outcome ε β} {bound : α → ℕ} (xs : List α)
    (hrow : ∀ x ∈ xs, ∀ y, f x = .ok y → size y ≤ bound x) :
    ((returned f xs).map size).sum ≤ (xs.map bound).sum := by
  induction xs with
  | nil => exact Nat.zero_le _
  | cons x xs ih =>
    obtain ⟨hx, hxs⟩ := List.forall_mem_cons.mp hrow
    rw [List.map_cons, List.sum_cons, returned]
    cases hy : f x with
    | ok y =>
      rw [List.map_cons, List.sum_cons]
      exact Nat.add_le_add (hx y hy) (ih hxs)
    | _ => exact Nat.zero_le _

/-- Behind a row that returns a result, the first failing row is that of the rest. -/
theorem firstFailure_cons_of_ok {f : α → Outcome ε β} {x : α} {y : β} (hx : f x = .ok y)
    (xs : List α) (e : ε) : FirstFailure f (x :: xs) e ↔ FirstFailure f xs e := by
  constructor
  · intro ⟨i, x', hx', he, hbefore⟩
    cases i with
    | zero =>
      rw [← Option.some.inj hx', hx] at he
      cases he
    | succ i => exact ⟨i, x', hx', he, fun j hj z hz => hbefore (j + 1) (Nat.succ_lt_succ hj) z hz⟩
  · intro ⟨i, x', hx', he, hbefore⟩
    refine ⟨i + 1, x', hx', he, fun j hj z hz => ?_⟩
    cases j with
    | zero => exact ⟨y, Option.some.inj hz ▸ hx⟩
    | succ j => exact hbefore j (Nat.lt_of_succ_lt_succ hj) z hz

/-- A row that returns no result is the first failing row. -/
theorem firstFailure_cons_of_ne_ok {f : α → Outcome ε β} {x : α} (hx : ∀ y, f x ≠ .ok y)
    (xs : List α) (e : ε) : FirstFailure f (x :: xs) e ↔ f x = .err e := by
  constructor
  · intro ⟨i, x', hx', he, hbefore⟩
    cases i with
    | zero => exact Option.some.inj hx' ▸ he
    | succ i =>
      obtain ⟨y, hy⟩ := hbefore 0 (Nat.succ_pos i) x rfl
      exact absurd hy (hx y)
  · intro he
    exact ⟨0, x, rfl, he, nofun⟩

/-- A failure is that of the first row that returns no result. -/
theorem mapM_eq_err_iff (f : α → Outcome ε β) (xs : List α) (e : ε) :
    xs.mapM f = .err e ↔ FirstFailure f xs e := by
  induction xs with
  | nil =>
    have hnone : ¬ FirstFailure f [] e := fun ⟨i, x, hx, _⟩ => nomatch hx
    exact iff_of_false nofun hnone
  | cons x xs ih =>
    rw [List.mapM_cons]
    cases hx : f x with
    | ok y =>
      rw [firstFailure_cons_of_ok hx, ← ih, Outcome.ok_bind]
      cases xs.mapM f <;> simp
    | err e' =>
      rw [firstFailure_cons_of_ne_ok (by rw [hx]; nofun), hx, Outcome.err_bind, Outcome.err.injEq,
        Outcome.err.injEq]
    | _ =>
      rw [firstFailure_cons_of_ne_ok (by rw [hx]; nofun), hx]
      exact iff_of_false nofun nofun

/-- A failure over a range is that of the first index that returns no result. -/
theorem mapM_range_eq_err_iff (f : ℕ → Outcome ε β) (n : ℕ) (e : ε) :
    (List.range n).mapM f = .err e ↔ ∃ i < n, f i = .err e ∧ ∀ j < i, ∃ y, f j = .ok y := by
  rw [mapM_eq_err_iff]
  constructor
  · intro ⟨i, x, hx, he, hbefore⟩
    obtain ⟨hi, rfl⟩ := List.getElem?_eq_some_iff.mp hx
    rw [List.length_range] at hi
    rw [List.getElem_range] at he
    exact ⟨i, hi, he, fun j hj => hbefore j hj j (List.getElem?_range (Nat.lt_trans hj hi))⟩
  · intro ⟨i, hi, he, hbefore⟩
    refine ⟨i, i, List.getElem?_range hi, he, fun j hj x hx => ?_⟩
    rw [List.getElem?_range (Nat.lt_trans hj hi)] at hx
    exact Option.some.inj hx ▸ hbefore j hj

/-- Rows that all answer are called with an answer. -/
theorem answers_mapM {f : α → Outcome ε β} {xs : List α} (h : ∀ x ∈ xs, (f x).Answers) :
    (xs.mapM f).Answers := by
  induction xs with
  | nil => exact ⟨nofun, nofun⟩
  | cons x xs ih =>
    obtain ⟨hx, hxs⟩ := List.forall_mem_cons.mp h
    rw [List.mapM_cons]
    exact Outcome.Answers.bind hx fun y => Outcome.Answers.bind (ih hxs) fun ys => ⟨nofun, nofun⟩

/-- The first report over a range is that of the least index that has one. -/
theorem findSome?_range_eq_some_iff (f : ℕ → Option β) (n : ℕ) (b : β) :
    (List.range n).findSome? f = some b ↔ ∃ i < n, f i = some b ∧ ∀ j < i, f j = none := by
  induction n with
  | zero => simp
  | succ n ih =>
    rw [List.range_succ, List.findSome?_append]
    cases hfirst : (List.range n).findSome? f with
    | some b' =>
      rw [hfirst] at ih
      rw [Option.some_or, ih]
      constructor
      · intro ⟨i, hi, hrest⟩
        exact ⟨i, Nat.lt_succ_of_lt hi, hrest⟩
      · intro ⟨i, hi, hib, hbefore⟩
        refine ⟨i, ?_, hib, hbefore⟩
        by_contra hlast
        have hnone : (List.range n).findSome? f = none := by
          rw [List.findSome?_eq_none_iff]
          intro j hj
          have hj := List.mem_range.mp hj
          exact hbefore j (by omega)
        rw [hfirst] at hnone
        cases hnone
    | none =>
      have hnone : ∀ j < n, f j = none := fun j hj =>
        List.findSome?_eq_none_iff.mp hfirst j (List.mem_range.mpr hj)
      rw [Option.none_or, List.findSome?_singleton]
      constructor
      · intro hn
        exact ⟨n, Nat.lt_succ_self n, hn, hnone⟩
      · intro ⟨i, hi, hib, hbefore⟩
        obtain hlt | rfl := Nat.lt_succ_iff_lt_or_eq.mp hi
        · rw [hnone i hlt] at hib
          cases hib
        · exact hib

/-- Behind rows that all return results, the returned results are continued. -/
theorem returned_append_of_ok {f : α → Outcome ε β} {xs : List α} {ys : List β}
    (h : xs.mapM f = .ok ys) (xs' : List α) : returned f (xs ++ xs') = ys ++ returned f xs' := by
  induction xs generalizing ys with
  | nil =>
    rw [List.mapM_nil] at h
    exact Outcome.ok.inj h ▸ rfl
  | cons x xs ih =>
    rw [List.mapM_cons] at h
    obtain ⟨y, hy, hrest⟩ := (Outcome.bind_eq_ok_iff _ _ _).mp h
    obtain ⟨zs, hzs, hcons⟩ := (Outcome.bind_eq_ok_iff _ _ _).mp hrest
    obtain rfl := Outcome.ok.inj hcons
    rw [List.cons_append, returned, hy, ih hzs]
    rfl

/-- Behind a row that returns no result, no further results are returned. -/
theorem returned_append_of_ne_ok {f : α → Outcome ε β} {xs : List α}
    (h : ∀ ys, xs.mapM f ≠ .ok ys) (xs' : List α) : returned f (xs ++ xs') = returned f xs := by
  induction xs with
  | nil => exact absurd rfl (h [])
  | cons x xs ih =>
    rw [List.cons_append, returned, returned]
    cases hx : f x with
    | ok y =>
      have htail : ∀ ys, xs.mapM f ≠ .ok ys := by
        intro ys hys
        apply h (y :: ys)
        rw [List.mapM_cons, hx, Outcome.ok_bind, hys]
        rfl
      rw [ih htail]
    | _ => rfl

/-- A loop over consecutive pieces, each into a buffer of its own, gives what one loop gives
into one buffer that holds the results. -/
theorem fillLoop_pieces (f : ℕ → Outcome ε β) (start : ℕ) (sizes : List ℕ)
    (hfits : ((returned f (List.range' start sizes.sum)).map size).sum ≤ cap) :
    (pieces start sizes).mapM (fun p =>
        Buffer.items <$> fillLoop f (List.range' p.1 p.2) (Buffer.empty : Buffer size cap)) =
      (pieces start sizes).mapM fun p => (List.range' p.1 p.2).mapM f := by
  induction sizes generalizing start with
  | nil => rfl
  | cons n sizes ih =>
    rw [List.sum_cons, ← List.range'_append_1] at hfits
    rw [pieces, List.mapM_cons, List.mapM_cons, fillLoop_eq]
    change ((if ((returned f (List.range' start n)).map size).sum ≤ cap then
      ([] ++ ·) <$> (List.range' start n).mapM f else Outcome.panic) >>= _) = _
    cases hhead : (List.range' start n).mapM f with
    | ok ys =>
      rw [returned_append_of_ok hhead, List.map_append, List.sum_append] at hfits
      rw [returned_of_mapM_eq_ok hhead, if_pos (by omega), Outcome.map_ok, Outcome.ok_bind,
        Outcome.ok_bind, ih (start + n) (by omega), List.nil_append]
    | _ =>
      rw [returned_append_of_ne_ok (by rw [hhead]; nofun)] at hfits
      rw [if_pos hfits]
      rfl

/-- Calling rows in order can be cut into consecutive pieces. -/
theorem mapM_range_pieces (f : ℕ → Outcome ε β) (start : ℕ) (sizes : List ℕ) :
    (List.range' start sizes.sum).mapM f =
      List.flatten <$> (pieces start sizes).mapM fun p => (List.range' p.1 p.2).mapM f := by
  induction sizes generalizing start with
  | nil => rfl
  | cons n sizes ih =>
    rw [List.sum_cons, ← List.range'_append_1, List.mapM_append, ih, pieces, List.mapM_cons]
    cases (List.range' start n).mapM f with
    | ok ys =>
      cases (pieces (start + n) sizes).mapM fun p => (List.range' p.1 p.2).mapM f with
      | ok yss => rfl
      | _ => rfl
    | _ => rfl

end Common
