import Esq.Infra.Chain

/-!
# 両端つきの列

head と tail を持つ列を二つ扱う。

* `IsQueue` — `next` だけを持つ列。末尾に足し、先頭から取る
* `IsDll` — `prev` と `next` を持つ列。両端に足し、途中から抜く

どちらも cell の側にリンクがあるので、同じ cell が二つの列に同時に入ることはできない。
そこで添字つきの列の族（`IsFamily`）を考え、一つの列への操作が他の列を壊さないことを示す。
-/

namespace Infra

variable {α ι : Type*}

structure Ends (α : Type*) where
  head : Option α := none
  tail : Option α := none
deriving DecidableEq

structure Links (α : Type*) where
  prev : α → Option α
  next : α → Option α

/-! ## 片方向の列 -/

/-- `head` から `next` を辿ると `xs` になり、`tail` がその末尾を指す。 -/
def IsQueue (next : α → Option α) (d : Ends α) (xs : List α) : Prop :=
  Linked next d.head xs ∧ (xs ≠ [] → d.tail = xs.getLast?)

section Queue

variable {next : α → Option α} {d : Ends α} {xs : List α} {x t : α}

theorem isQueue_empty : IsQueue next {} [] := ⟨rfl, by simp⟩

theorem IsQueue.congr {next' : α → Option α} (h : IsQueue next d xs)
    (hn : ∀ y ∈ xs, next' y = next y) : IsQueue next' d xs := ⟨h.1.congr hn, h.2⟩

/-- 先頭から一つ取る。最後の一つを取ると両端が空になる。 -/
def popEnds (next : α → Option α) (d : Ends α) (x : α) : Ends α :=
  match next x with
  | some n => { d with head := some n }
  | none => { head := none, tail := none }

theorem IsQueue.pop (h : IsQueue next d (x :: xs)) : IsQueue next (popEnds next d x) xs := by
  obtain ⟨⟨-, hl⟩, htail⟩ := h
  unfold popEnds
  cases xs with
  | nil =>
    rw [linked_nil.mp hl]
    exact isQueue_empty
  | cons y ys =>
    rw [hl.1]
    refine ⟨⟨rfl, hl.2⟩, fun _ => ?_⟩
    rw [show ({ d with head := some y } : Ends α).tail = d.tail from rfl, htail (by simp)]
    simp

theorem IsQueue.advance (h : IsQueue next d (x :: xs)) :
    IsQueue next { d with head := next x } xs := by
  refine ⟨h.1.2, fun hne => ?_⟩
  rw [show ({ d with head := next x } : Ends α).tail = d.tail from rfl, h.2 (by simp),
    List.getLast?_cons_of_ne_nil hne]

variable [DecidableEq α]

def pushTail (next : α → Option α) (d : Ends α) (t x : α) : (α → Option α) × Ends α :=
  (Function.update (Function.update next t (some x)) x none, { d with tail := some x })

def pushFirst (next : α → Option α) (x : α) : (α → Option α) × Ends α :=
  (Function.update next x none, { head := some x, tail := some x })

theorem isQueue_pushFirst : IsQueue (pushFirst next x).1 (pushFirst next x).2 [x] :=
  ⟨⟨rfl, Function.update_self ..⟩, fun _ => rfl⟩

theorem IsQueue.pushTail (h : IsQueue next d xs) (ht : d.tail = some t) (hne : xs ≠ [])
    (hx : x ∉ xs) : IsQueue (pushTail next d t x).1 (pushTail next d t x).2 (xs ++ [x]) := by
  obtain ⟨hl, htail⟩ := h
  have hlast : xs.getLast? = some t := (htail hne).symm.trans ht
  obtain ⟨ys, rfl⟩ := List.getLast?_eq_some_iff.mp hlast
  have htx : t ≠ x := fun he => hx (by simp [he])
  refine ⟨?_, fun _ => by simp [Infra.pushTail]⟩
  -- `x` の `next` を先に NULL にしてから繋いだのと同じである
  have hcomm : (Infra.pushTail next d t x).1
      = Function.update (Function.update next x none) t (some x) :=
    Function.update_comm htx _ _ _
  rw [hcomm]
  refine Linked.join (hl.update_of_notMem hx none) ?_ (by simpa using htx)
  exact ⟨rfl, Function.update_self ..⟩

theorem pushTail_next_of_ne {y : α} (hy : y ≠ x) (hyt : y ≠ t) :
    (pushTail next d t x).1 y = next y := by
  simp [pushTail, Function.update_of_ne hy, Function.update_of_ne hyt]

theorem pushFirst_next_of_ne {y : α} (hy : y ≠ x) : (pushFirst next x).1 y = next y :=
  Function.update_of_ne hy _ _

/--
head があれば tail の後ろに、無ければ先頭として足す。

tail を見ずに辿るので、head があって tail が無ければ `none` になる。
-/
def push (next : α → Option α) (d : Ends α) (x : α) : Option ((α → Option α) × Ends α) :=
  match d.head with
  | none => some (pushFirst next x)
  | some _ => match d.tail with
    | none => none
    | some t => some (pushTail next d t x)

/-- **列が正しければ `push` は落ちず、末尾に足す。** -/
theorem IsQueue.push (h : IsQueue next d xs) (hx : x ∉ xs) :
    ∃ next' d', Infra.push next d x = some (next', d') ∧ IsQueue next' d' (xs ++ [x]) ∧
      ∀ y, y ∉ xs → y ≠ x → next' y = next y := by
  unfold Infra.push
  cases hh : d.head with
  | none =>
    have hxs : xs = [] := h.1.eq_none_iff.mp hh
    subst hxs
    exact ⟨_, _, rfl, isQueue_pushFirst, fun y _ hy => pushFirst_next_of_ne hy⟩
  | some a =>
    have hne : xs ≠ [] := fun he => by simp [h.1.eq_none_iff.mpr he] at hh
    obtain ⟨t, ht⟩ : ∃ t, d.tail = some t :=
      ⟨_, (h.2 hne).trans (List.getLast?_eq_some_getLast hne)⟩
    have htmem : t ∈ xs := List.mem_of_getLast? ((h.2 hne).symm.trans ht)
    simp only [ht]
    refine ⟨_, _, rfl, h.pushTail ht hne hx, fun y hy hyx => ?_⟩
    exact pushTail_next_of_ne (d := d) hyx fun he => hy (he ▸ htmem)

end Queue

/-- 添字ごとの片方向の列。同じ cell が二つの列に入ることはない。 -/
structure IsQueueFamily (next : α → Option α) (ends : ι → Ends α) (m : ι → List α) : Prop where
  queue : ∀ i, IsQueue next (ends i) (m i)
  disjoint : ∀ {i j x}, x ∈ m i → x ∈ m j → i = j

section QueueFamily

variable {next next' : α → Option α} {ends : ι → Ends α} {m : ι → List α} {i : ι} {x : α}

theorem IsQueueFamily.nodup (h : IsQueueFamily next ends m) (i : ι) : (m i).Nodup :=
  (h.queue i).1.nodup

theorem IsQueueFamily.congr (h : IsQueueFamily next ends m)
    (hn : ∀ i, ∀ y ∈ m i, next' y = next y) : IsQueueFamily next' ends m :=
  ⟨fun i => (h.queue i).congr (hn i), h.disjoint⟩

variable [DecidableEq ι]

theorem IsQueueFamily.replace (h : IsQueueFamily next ends m) {e : Ends α} {xs : List α}
    (hq : IsQueue next' e xs) (hframe : ∀ j y, j ≠ i → y ∈ m j → next' y = next y)
    (hdis : ∀ j y, j ≠ i → y ∈ xs → y ∉ m j) :
    IsQueueFamily next' (Function.update ends i e) (Function.update m i xs) where
  queue := by
    intro j
    by_cases hj : j = i
    · subst hj
      rw [Function.update_self, Function.update_self]
      exact hq
    · rw [Function.update_of_ne hj, Function.update_of_ne hj]
      exact (h.queue j).congr fun y hy => hframe j y hj hy
  disjoint := by
    intro j k y hy hz
    by_cases hj : j = i <;> by_cases hk : k = i
    · rw [hj, hk]
    · subst hj
      rw [Function.update_self] at hy
      rw [Function.update_of_ne hk] at hz
      exact absurd hz (hdis k y hk hy)
    · subst hk
      rw [Function.update_self] at hz
      rw [Function.update_of_ne hj] at hy
      exact absurd hy (hdis j y hj hz)
    · rw [Function.update_of_ne hj] at hy
      rw [Function.update_of_ne hk] at hz
      exact h.disjoint hy hz

theorem IsQueueFamily.push [DecidableEq α] (h : IsQueueFamily next ends m)
    (hx : ∀ j, x ∉ m j) : ∃ next' d', Infra.push next (ends i) x = some (next', d') ∧
      IsQueueFamily next' (Function.update ends i d') (Function.update m i (m i ++ [x])) := by
  obtain ⟨next', d', hp, hq, hframe⟩ := (h.queue i).push (hx i)
  refine ⟨next', d', hp, h.replace hq ?_ ?_⟩
  · intro j y hj hy
    refine hframe y (fun hm => hj (h.disjoint hy hm)) ?_
    rintro rfl
    exact hx j hy
  · intro j y hj hy
    rcases List.mem_append.mp hy with hy | hy
    · exact fun hm => hj (h.disjoint hm hy)
    · rw [List.mem_singleton] at hy
      exact hy ▸ hx j

theorem IsQueueFamily.pop (h : IsQueueFamily next ends m) {xs : List α} (hm : m i = x :: xs) :
    IsQueueFamily next (Function.update ends i (popEnds next (ends i) x))
      (Function.update m i xs) := by
  refine h.replace ((hm ▸ h.queue i).pop) (fun _ _ _ _ => rfl) ?_
  intro j y hj hy hmem
  exact hj (h.disjoint hmem (hm ▸ List.mem_cons_of_mem x hy))

end QueueFamily

/-! ## 双方向の列 -/

/-- `head` から `next` を辿ると `xs`、`tail` から `prev` を辿るとその逆順になる。 -/
def IsDll (L : Links α) (d : Ends α) (xs : List α) : Prop :=
  Linked L.next d.head xs ∧ Linked L.prev d.tail xs.reverse

section Dll

variable {L L' : Links α} {d : Ends α} {xs ys : List α} {x y : α}

theorem IsDll.nodup (h : IsDll L d xs) : xs.Nodup := h.1.nodup

theorem isDll_empty : IsDll L {} [] := ⟨rfl, rfl⟩

theorem IsDll.congr (h : IsDll L d xs) (hn : ∀ y ∈ xs, L'.next y = L.next y)
    (hp : ∀ y ∈ xs, L'.prev y = L.prev y) : IsDll L' d xs :=
  ⟨h.1.congr hn, h.2.congr fun y hy => hp y (List.mem_reverse.mp hy)⟩

theorem IsDll.links_of_split {as bs : List α} (h : IsDll L d (as ++ x :: bs)) :
    L.prev x = as.getLast? ∧ L.next x = bs.head? := by
  refine ⟨?_, h.1.next_eq⟩
  have hp := h.2
  rw [List.reverse_append, List.reverse_cons, List.append_assoc, List.singleton_append] at hp
  rw [hp.next_eq, List.head?_reverse]

def Links.flip (L : Links α) : Links α := { prev := L.next, next := L.prev }

def Ends.flip (d : Ends α) : Ends α := { head := d.tail, tail := d.head }

theorem isDll_flip : IsDll L.flip d.flip xs.reverse ↔ IsDll L d xs := by
  unfold IsDll Links.flip Ends.flip
  rw [List.reverse_reverse]
  exact And.comm

variable [DecidableEq α]

def joinHead (L : Links α) (d : Ends α) (x : α) : Links α × Ends α :=
  match d.head with
  | some h =>
    ({ prev := Function.update (Function.update L.prev x none) h (some x)
       next := Function.update L.next x (some h) }, { d with head := some x })
  | none =>
    ({ prev := Function.update L.prev x none
       next := Function.update L.next x none }, { head := some x, tail := some x })

def joinTail (L : Links α) (d : Ends α) (x : α) : Links α × Ends α :=
  match d.tail with
  | some t =>
    ({ prev := Function.update L.prev x (some t)
       next := Function.update (Function.update L.next x none) t (some x) },
      { d with tail := some x })
  | none =>
    ({ prev := Function.update L.prev x none
       next := Function.update L.next x none }, { head := some x, tail := some x })

/-- `x` を抜く。`x` 自身の `prev` と `next` はそのまま残る。 -/
def left (L : Links α) (d : Ends α) (x : α) : Links α × Ends α :=
  match L.prev x, L.next x with
  | some p, some n =>
    ({ prev := Function.update L.prev n (some p)
       next := Function.update L.next p (some n) }, d)
  | some p, none =>
    ({ L with next := Function.update L.next p none }, { d with tail := some p })
  | none, some n =>
    ({ L with prev := Function.update L.prev n none }, { d with head := some n })
  | none, none => (L, { head := none, tail := none })

theorem IsDll.joinHead (h : IsDll L d xs) (hx : x ∉ xs) :
    IsDll (joinHead L d x).1 (joinHead L d x).2 (x :: xs) := by
  obtain ⟨hn, hp⟩ := h
  unfold Infra.joinHead
  cases hh : d.head with
  | none =>
    rw [hh] at hn
    have : xs = [] := hn.eq_none_iff.mp rfl
    subst this
    simp [IsDll]
  | some a =>
    rw [hh] at hn
    obtain ⟨t, rfl⟩ : ∃ t, xs = a :: t := List.head?_eq_some_iff.mp hn.head_eq.symm
    have hxa : a ≠ x := fun he => hx (by simp [he])
    refine ⟨⟨rfl, ?_⟩, ?_⟩
    · show Linked _ (Function.update L.next x (some a) x) (a :: t)
      rw [Function.update_self]
      exact hn.update_of_notMem hx _
    · rw [List.reverse_cons, List.reverse_cons] at *
      refine Linked.join (hp.update_of_notMem (by simpa [and_comm] using hx) none) ?_
        (by simpa using hxa)
      exact ⟨rfl, Function.update_self ..⟩

theorem joinTail_eq_flip (L : Links α) (d : Ends α) (x : α) :
    joinTail L d x
      = ((joinHead L.flip d.flip x).1.flip, (joinHead L.flip d.flip x).2.flip) := by
  unfold joinTail joinHead Links.flip Ends.flip
  cases d.tail <;> rfl

theorem IsDll.joinTail (h : IsDll L d xs) (hx : x ∉ xs) :
    IsDll (joinTail L d x).1 (joinTail L d x).2 (xs ++ [x]) := by
  have hf := (isDll_flip.mpr h).joinHead (x := x) (by simpa using hx)
  rw [joinTail_eq_flip]
  have := isDll_flip.mpr hf
  rwa [List.reverse_cons, List.reverse_reverse] at this

/-! ### 途中から抜く -/

/-- 抜く cell の手前のリンクを繋ぎ替える。手前が無ければ何もしない。 -/
def bypass (next : α → Option α) (before after : Option α) : α → Option α :=
  match before with
  | some p => Function.update next p after
  | none => next

/-- 抜く cell の手前が無ければ、端が繋ぎ替わる。 -/
def bypassEnd (e before after : Option α) : Option α :=
  match before with
  | some _ => e
  | none => after

theorem left_eq_bypass (L : Links α) (d : Ends α) (x : α) :
    left L d x =
      ({ prev := bypass L.prev (L.next x) (L.prev x), next := bypass L.next (L.prev x) (L.next x) },
        { head := bypassEnd d.head (L.prev x) (L.next x)
          tail := bypassEnd d.tail (L.next x) (L.prev x) }) := by
  unfold left bypass bypassEnd
  cases hp : L.prev x <;> cases hn : L.next x <;> simp

theorem Linked.bypass {next : α → Option α} {p : Option α} {as bs : List α}
    (h : Linked next p (as ++ x :: bs)) :
    Linked (bypass next as.getLast? bs.head?) (bypassEnd p as.getLast? bs.head?) (as ++ bs) := by
  have hnd := h.nodup
  obtain ⟨r, hseg, rfl, htail⟩ := linked_append.mp h
  have hb : Linked next bs.head? bs := by
    rw [← Linked.head_eq htail]
    exact htail
  cases hl : as.getLast? with
  | none =>
    rw [List.getLast?_eq_none_iff] at hl
    subst hl
    exact hb
  | some z =>
    obtain ⟨cs, rfl⟩ := List.getLast?_eq_some_iff.mp hl
    have hz : z ∉ cs ∧ z ∉ bs := by
      simp only [List.append_assoc, List.singleton_append, List.nodup_append,
        List.nodup_cons, List.mem_cons] at hnd
      refine ⟨fun hm => hnd.2.2 z hm z (Or.inl rfl) rfl, fun hm => hnd.2.1.1 (Or.inr hm)⟩
    exact linked_append.mpr ⟨_, hseg.update_last hz.1 _, hb.update_of_notMem hz.2 _⟩

theorem IsQueue.unlink {next : α → Option α} {as bs : List α} {z : α}
    (h : IsQueue next d (as ++ x :: bs)) (ha : as.getLast? = some z) (hb : bs ≠ []) :
    IsQueue (Function.update next z (next x)) d (as ++ bs) := by
  have hl := h.1.bypass
  rw [ha] at hl
  refine ⟨?_, fun _ => ?_⟩
  · rw [h.1.next_eq]
    exact hl
  · rw [h.2 (by simp), List.getLast?_append_of_ne_nil _ (by simp),
      List.getLast?_append_of_ne_nil _ hb, List.getLast?_cons_of_ne_nil hb]

/-- **抜いた後の列は、抜いた cell だけが消えた列である。** -/
theorem IsDll.left (h : IsDll L d xs) (hx : x ∈ xs) :
    IsDll (left L d x).1 (left L d x).2 (xs.erase x) := by
  have hnd := h.nodup
  obtain ⟨as, bs, rfl⟩ := List.append_of_mem hx
  obtain ⟨hprev, hnext⟩ := h.links_of_split
  have hxa : x ∉ as := fun hm => (List.nodup_append.mp hnd).2.2 x hm x List.mem_cons_self rfl
  have herase : (as ++ x :: bs).erase x = as ++ bs := by
    rw [List.erase_append_right _ hxa, List.erase_cons_head]
  rw [herase, left_eq_bypass, hprev, hnext]
  refine ⟨h.1.bypass, ?_⟩
  have hp := h.2
  rw [List.reverse_append, List.reverse_cons, List.append_assoc, List.singleton_append] at hp
  have := hp.bypass
  rw [List.getLast?_reverse, List.head?_reverse] at this
  rwa [List.reverse_append]

/-! ### 抜き差しが触る cell -/

theorem joinHead_links_of_notMem (h : IsDll L d xs) (hy : y ∉ xs) (hyx : y ≠ x) :
    (joinHead L d x).1.next y = L.next y ∧ (joinHead L d x).1.prev y = L.prev y := by
  unfold joinHead
  cases hh : d.head with
  | none => simp [Function.update_of_ne hyx]
  | some a =>
    have ha : a ∈ xs := List.mem_of_head? (h.1.head_eq.symm.trans hh)
    have hya : y ≠ a := fun he => hy (he ▸ ha)
    simp [Function.update_of_ne hyx, Function.update_of_ne hya]

theorem joinTail_links_of_notMem (h : IsDll L d xs) (hy : y ∉ xs) (hyx : y ≠ x) :
    (joinTail L d x).1.next y = L.next y ∧ (joinTail L d x).1.prev y = L.prev y := by
  rw [joinTail_eq_flip]
  exact (joinHead_links_of_notMem (isDll_flip.mpr h) (by simpa using hy) hyx).symm

theorem left_links_of_notMem (h : IsDll L d xs) (hx : x ∈ xs) (hy : y ∉ xs) :
    (left L d x).1.next y = L.next y ∧ (left L d x).1.prev y = L.prev y := by
  obtain ⟨as, bs, rfl⟩ := List.append_of_mem hx
  obtain ⟨hprev, hnext⟩ := h.links_of_split
  have hout : ∀ (e : Option α), (∀ z, e = some z → z ∈ as ++ x :: bs) → e ≠ some y :=
    fun e he hey => hy (he y hey)
  have hpy := hout as.getLast? fun z hz => by simp [List.mem_of_getLast? hz]
  have hny := hout bs.head? fun z hz => by simp [List.mem_of_head? hz]
  rw [left_eq_bypass, hprev, hnext]
  constructor
  · cases hl : as.getLast? with
    | none => rfl
    | some z => exact Function.update_of_ne (fun he => hpy (by rw [hl, he])) _ _
  · cases hb : bs.head? with
    | none => rfl
    | some z => exact Function.update_of_ne (fun he => hny (by rw [hb, he])) _ _

end Dll

/-! ## 列の族 -/

/-- 添字ごとの列。同じ cell が二つの列に入ることはない。 -/
structure IsFamily (L : Links α) (ends : ι → Ends α) (m : ι → List α) : Prop where
  dll : ∀ i, IsDll L (ends i) (m i)
  disjoint : ∀ {i j x}, x ∈ m i → x ∈ m j → i = j

section Family

variable {L L' : Links α} {ends : ι → Ends α} {m : ι → List α} {i : ι} {x : α}

theorem IsFamily.notMem_of_ne (h : IsFamily L ends m) {j : ι} {y : α} (hj : j ≠ i)
    (hy : y ∈ m j) : y ∉ m i := fun hm => hj (h.disjoint hy hm)

variable [DecidableEq ι]

/--
一つの列を差し替える。

差し替える列の外にある cell のリンクが変わらなければ、他の列はそのまま残る。
-/
theorem IsFamily.replace (h : IsFamily L ends m) {e : Ends α} {xs : List α}
    (hd : IsDll L' e xs)
    (hframe : ∀ j y, j ≠ i → y ∈ m j → L'.next y = L.next y ∧ L'.prev y = L.prev y)
    (hdis : ∀ j y, j ≠ i → y ∈ xs → y ∉ m j) :
    IsFamily L' (Function.update ends i e) (Function.update m i xs) where
  dll := by
    intro j
    by_cases hj : j = i
    · subst hj
      rw [Function.update_self, Function.update_self]
      exact hd
    · rw [Function.update_of_ne hj, Function.update_of_ne hj]
      exact (h.dll j).congr (fun y hy => (hframe j y hj hy).1) fun y hy => (hframe j y hj hy).2
  disjoint := by
    intro j k y hy hz
    by_cases hj : j = i <;> by_cases hk : k = i
    · rw [hj, hk]
    · subst hj
      rw [Function.update_self] at hy
      rw [Function.update_of_ne hk] at hz
      exact absurd hz (hdis k y hk hy)
    · subst hk
      rw [Function.update_self] at hz
      rw [Function.update_of_ne hj] at hy
      exact absurd hy (hdis j y hj hz)
    · rw [Function.update_of_ne hj] at hy
      rw [Function.update_of_ne hk] at hz
      exact h.disjoint hy hz

variable [DecidableEq α]

theorem IsFamily.joinHead (h : IsFamily L ends m) (hx : ∀ j, x ∉ m j) :
    IsFamily (Infra.joinHead L (ends i) x).1
      (Function.update ends i (Infra.joinHead L (ends i) x).2)
      (Function.update m i (x :: m i)) := by
  refine h.replace ((h.dll i).joinHead (hx i)) ?_ ?_
  · intro j y hj hy
    exact joinHead_links_of_notMem (h.dll i) (h.notMem_of_ne hj hy) fun he => hx j (he ▸ hy)
  · intro j y hj hy
    rcases List.mem_cons.mp hy with rfl | hy
    · exact hx j
    · exact h.notMem_of_ne hj.symm hy

theorem IsFamily.joinTail (h : IsFamily L ends m) (hx : ∀ j, x ∉ m j) :
    IsFamily (Infra.joinTail L (ends i) x).1
      (Function.update ends i (Infra.joinTail L (ends i) x).2)
      (Function.update m i (m i ++ [x])) := by
  refine h.replace ((h.dll i).joinTail (hx i)) ?_ ?_
  · intro j y hj hy
    exact joinTail_links_of_notMem (h.dll i) (h.notMem_of_ne hj hy) fun he => hx j (he ▸ hy)
  · intro j y hj hy
    rcases List.mem_append.mp hy with hy | hy
    · exact h.notMem_of_ne hj.symm hy
    · rw [List.mem_singleton] at hy
      exact hy ▸ hx j

theorem IsFamily.left (h : IsFamily L ends m) (hx : x ∈ m i) :
    IsFamily (Infra.left L (ends i) x).1
      (Function.update ends i (Infra.left L (ends i) x).2)
      (Function.update m i ((m i).erase x)) := by
  refine h.replace ((h.dll i).left hx) ?_ ?_
  · intro j y hj hy
    exact left_links_of_notMem (h.dll i) hx (h.notMem_of_ne hj hy)
  · intro j y hj hy
    exact h.notMem_of_ne hj.symm (List.mem_of_mem_erase hy)

end Family

end Infra
