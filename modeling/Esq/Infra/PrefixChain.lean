import Esq.Infra.Chain
import Mathlib.Data.List.Infix

/-!
# prefix ごとの列を繋いだ chain

cell は key（文字の列）を一つ持つ。同じ key の cell は一本の列（`group`）になっていて、
その末尾は、一つ短い方へ探して最初に見つかった group の先頭を指す（`shorter`）。
こうして後ろの列を多くの key が共有しても、列 `h` から辿った chain は、
key が `h` の prefix である cell を key の長い順に丁度一度ずつ通る（`Threaded.linked`）。

index は `find`（key から group の先頭を引く関数）としてだけ現れ、実装は問わない。
-/

namespace Infra

variable {α β : Type*} [DecidableEq β] {hash : α → List β} {next : α → Option α}
  {find : List β → Option α} {xs ys : List α} {x p t : α} {h k : List β} {l m : Nat}

def group (hash : α → List β) (xs : List α) (k : List β) : List α := xs.filter fun x => hash x = k

def search (find : List β → Option α) (h : List β) : Nat → Option α
  | 0 => find (h.take 0)
  | l + 1 => (find (h.take (l + 1))).or (search find h l)

def shorter (find : List β → Option α) (k : List β) : Option α :=
  match k.length with
  | 0 => none
  | m + 1 => search find k m

def chainFrom (hash : α → List β) (xs : List α) (h : List β) : Nat → List α
  | 0 => group hash xs (h.take 0)
  | l + 1 => group hash xs (h.take (l + 1)) ++ chainFrom hash xs h l

/-! ## group -/

@[simp] theorem mem_group : x ∈ group hash xs k ↔ x ∈ xs ∧ hash x = k := by simp [group]

theorem group_append_singleton : group hash (xs ++ [p]) k
    = if hash p = k then group hash xs k ++ [p] else group hash xs k := by
  unfold group
  by_cases hk : hash p = k <;> simp [hk]

theorem group_group : group hash (group hash xs k) k = group hash xs k := by
  simp only [group, List.filter_filter, Bool.and_self]

theorem group_pairwise :
    (group hash xs k).Pairwise fun a b => (hash b).length ≤ (hash a).length := by
  refine List.Pairwise.imp_of_mem (R := fun _ _ => True) ?_ (List.pairwise_of_forall fun _ _ => trivial)
  intro a b ha hb _
  rw [(mem_group.mp ha).2, (mem_group.mp hb).2]

omit [DecidableEq β] in
theorem search_take : ∀ {l m : Nat}, l ≤ m → search find (h.take m) l = search find h l
  | 0, m, _ => by simp [search]
  | l + 1, m, hm => by
    rw [search, search, search_take (Nat.le_of_succ_le hm), List.take_take,
      Nat.min_eq_left hm]

/-! ## 読み込み -/

/-- どの key でも、`find` は group の先頭を返し、group は一本の列になっている。 -/
structure GroupIndex (hash : α → List β) (next : α → Option α) (find : List β → Option α)
    (xs : List α) : Prop where
  find_eq : ∀ k, find k = (group hash xs k).head?
  linked : ∀ k, Linked next (find k) (group hash xs k)

theorem groupIndex_nil : GroupIndex hash next (fun _ => none) [] :=
  ⟨fun _ => rfl, fun _ => rfl⟩

theorem GroupIndex.append [DecidableEq α] (hi : GroupIndex hash next find xs) (hp : p ∉ xs)
    (hnext : next p = none) (hg : group hash xs (hash p) = ys ++ [t]) :
    GroupIndex hash (Function.update next t (some p)) find (xs ++ [p]) := by
  have ht : t ∈ xs ∧ hash t = hash p := mem_group.mp (hg ▸ List.mem_append_right ys List.mem_cons_self)
  have htp : t ≠ p := fun he => hp (he ▸ ht.1)
  refine ⟨fun k => ?_, fun k => ?_⟩
  · rw [group_append_singleton, hi.find_eq]
    split
    · next hk =>
      subst hk
      rw [hg]
      cases ys <;> rfl
    · rfl
  · have hl := hi.linked k
    rw [group_append_singleton]
    split
    · next hk =>
      subst hk
      rw [hg] at hl ⊢
      have hsingle : Linked next (some p) [p] := ⟨rfl, hnext⟩
      exact hl.join hsingle (by simpa using htp)
    · next hk =>
      refine hl.update_of_notMem ?_ _
      intro hm
      exact hk (ht.2.symm.trans (mem_group.mp hm).2)

theorem GroupIndex.insert (hi : GroupIndex hash next find xs) (hnext : next p = none)
    (hg : group hash xs (hash p) = []) :
    GroupIndex hash next (Function.update find (hash p) (some p)) (xs ++ [p]) := by
  refine ⟨fun k => ?_, fun k => ?_⟩
  · rw [group_append_singleton]
    by_cases hk : hash p = k
    · subst hk
      rw [Function.update_self, if_pos rfl, hg]
      rfl
    · rw [Function.update_of_ne (Ne.symm hk), if_neg hk, hi.find_eq]
  · rw [group_append_singleton]
    by_cases hk : hash p = k
    · subst hk
      rw [Function.update_self, if_pos rfl, hg]
      exact ⟨rfl, hnext⟩
    · rw [Function.update_of_ne (Ne.symm hk), if_neg hk]
      exact hi.linked k

/-! ## 短い prefix へ繋ぐ -/

/-- `done` の key の group は、末尾が短い prefix の group の先頭を指す。 -/
structure Threaded (hash : α → List β) (next : α → Option α) (find : List β → Option α)
    (xs : List α) (done : List β → Prop) : Prop where
  find_eq : ∀ k, find k = (group hash xs k).head?
  linked : ∀ k, ¬ done k → Linked next (find k) (group hash xs k)
  seg : ∀ k, done k → group hash xs k ≠ [] → Seg next (find k) (group hash xs k) (shorter find k)

theorem GroupIndex.threaded (hi : GroupIndex hash next find xs) :
    Threaded hash next find xs fun _ => False :=
  ⟨hi.find_eq, fun k _ => hi.linked k, fun _ h => h.elim⟩

theorem Threaded.mono {d d' : List β → Prop} (ht : Threaded hash next find xs d)
    (h : ∀ k, group hash xs k ≠ [] → (d k ↔ d' k)) : Threaded hash next find xs d' := by
  refine ⟨ht.find_eq, fun k hk => ?_, fun k hk hg => ht.seg k ((h k hg).mpr hk) hg⟩
  by_cases hg : group hash xs k = []
  · rw [ht.find_eq, hg]
    exact rfl
  · exact ht.linked k fun hd => hk ((h k hg).mp hd)

theorem Threaded.link [DecidableEq α] {done : List β → Prop}
    (ht : Threaded hash next find xs done) (hk : ¬ done k)
    (hg : group hash xs k = ys ++ [t]) :
    Threaded hash (Function.update next t (shorter find k)) find xs fun j => done j ∨ j = k := by
  have htk : t ∈ xs ∧ hash t = k := mem_group.mp (hg ▸ List.mem_append_right ys List.mem_cons_self)
  have hother : ∀ j, j ≠ k → t ∉ group hash xs j := by
    intro j hj hm
    exact hj ((mem_group.mp hm).2.symm.trans htk.2)
  refine ⟨ht.find_eq, fun j hj => ?_, fun j hj hne => ?_⟩
  · rw [not_or] at hj
    exact (ht.linked j hj.1).update_of_notMem (hother j hj.2) _
  · by_cases hjk : j = k
    · subst hjk
      have hl := ht.linked j hk
      rw [hg] at hl ⊢
      refine Seg.update_last hl ?_ _
      have := List.nodup_append.mp hl.nodup
      exact fun hm => this.2.2 t hm t List.mem_cons_self rfl
    · exact (ht.seg j (hj.resolve_right hjk) hne).update_of_notMem (hother j hjk) _

/-- **すべて繋ぎ終えると、`h` から辿る chain は長い prefix から順に group を並べたものになる。** -/
theorem Threaded.linked_chainFrom (ht : Threaded hash next find xs fun _ => True) :
    ∀ {l : Nat}, l ≤ h.length → Linked next (search find h l) (chainFrom hash xs h l)
  | 0, _ => by
    rw [search, chainFrom, List.take_zero]
    by_cases hg : group hash xs [] = []
    · rw [ht.find_eq, hg]
      exact rfl
    · exact ht.seg [] trivial hg
  | l + 1, hl => by
    have ih := ht.linked_chainFrom (Nat.le_of_succ_le hl)
    rw [search, chainFrom]
    by_cases hg : group hash xs (h.take (l + 1)) = []
    · rw [ht.find_eq, hg]
      exact ih
    · have hs := ht.seg _ trivial hg
      have hlen : (h.take (l + 1)).length = l + 1 := by
        rw [List.length_take, Nat.min_eq_left hl]
      have hshort : shorter find (h.take (l + 1)) = search find h l := by
        rw [shorter, hlen]
        exact search_take (Nat.le_succ l)
      rw [hshort] at hs
      have hfound : (find (h.take (l + 1))).or (search find h l) = find (h.take (l + 1)) := by
        rw [ht.find_eq]
        obtain ⟨y, ys, hy⟩ := List.exists_cons_of_ne_nil hg
        rw [hy]
        rfl
      rw [hfound]
      exact linked_append.mpr ⟨_, hs, ih⟩

omit [DecidableEq β] in
theorem exists_find_of_search : ∀ {l : Nat}, search find h l = some x → ∃ k, find k = some x
  | 0, hs => ⟨_, hs⟩
  | l + 1, hs => by
    rw [search, Option.or_eq_some_iff] at hs
    rcases hs with hs | ⟨-, hs⟩
    · exact ⟨_, hs⟩
    · exact exists_find_of_search hs

theorem Threaded.next_mem (ht : Threaded hash next find xs fun _ => True) {y : α} (hx : x ∈ xs)
    (hy : next x = some y) : y ∈ xs := by
  have hg : group hash xs (hash x) ≠ [] := List.ne_nil_of_mem (mem_group.mpr ⟨hx, rfl⟩)
  have hmem : ∀ {k z}, find k = some z → z ∈ xs := by
    intro k z hz
    rw [ht.find_eq] at hz
    exact (mem_group.mp (List.mem_of_head? hz)).1
  rcases (ht.seg (hash x) trivial hg).next_mem (mem_group.mpr ⟨hx, rfl⟩) hy with hm | hm
  · exact (mem_group.mp hm).1
  · unfold shorter at hm
    split at hm
    · cases hm
    · obtain ⟨k, hk⟩ := exists_find_of_search hm
      exact hmem hk

theorem Threaded.congr {hash' : α → List β} {next' : α → Option α} {find' : List β → Option α}
    {done : List β → Prop} (ht : Threaded hash next find xs done)
    (hhash : ∀ x ∈ xs, hash' x = hash x) (hnext : ∀ x ∈ xs, next' x = next x)
    (hfind : find' = find) : Threaded hash' next' find' xs done := by
  have hgroup : ∀ k, group hash' xs k = group hash xs k := by
    intro k
    refine List.filter_congr fun x hx => ?_
    rw [hhash x hx]
  subst hfind
  refine ⟨fun k => ?_, fun k hk => ?_, fun k hk hg => ?_⟩
  · rw [hgroup]
    exact ht.find_eq k
  · rw [hgroup]
    exact (ht.linked k hk).congr fun x hx => hnext x (mem_group.mp hx).1
  · rw [hgroup] at hg ⊢
    exact (ht.seg k hk hg).congr fun x hx => hnext x (mem_group.mp hx).1

/-! ## chain の中身 -/

theorem chainFrom_congr {hash' : α → List β} (h0 : ∀ x ∈ xs, hash' x = hash x) (l : Nat) :
    chainFrom hash' xs h l = chainFrom hash xs h l := by
  have hgroup : ∀ k, group hash' xs k = group hash xs k := by
    intro k
    refine List.filter_congr fun x hx => ?_
    rw [h0 x hx]
  induction l with
  | zero => exact hgroup _
  | succ l ih => rw [chainFrom, chainFrom, hgroup, ih]

theorem mem_chainFrom : ∀ {l : Nat}, l ≤ h.length →
    (x ∈ chainFrom hash xs h l ↔ x ∈ xs ∧ hash x <+: h ∧ (hash x).length ≤ l)
  | 0, _ => by
    simp only [chainFrom, mem_group, List.take_zero, Nat.le_zero, List.length_eq_zero_iff]
    constructor
    · rintro ⟨hx, he⟩
      exact ⟨hx, by rw [he]; exact List.nil_prefix, he⟩
    · rintro ⟨hx, -, he⟩
      exact ⟨hx, he⟩
  | l + 1, hl => by
    have htake : ∀ y : α, hash y = h.take (l + 1) ↔ hash y <+: h ∧ (hash y).length = l + 1 := by
      intro y
      constructor
      · intro he
        refine ⟨he ▸ List.take_prefix _ _, ?_⟩
        rw [he, List.length_take, Nat.min_eq_left hl]
      · rintro ⟨hp, hlen⟩
        rw [List.prefix_iff_eq_take.mp hp, hlen]
    rw [chainFrom, List.mem_append, mem_group, mem_chainFrom (Nat.le_of_succ_le hl), htake]
    constructor
    · rintro (⟨hx, hp, hlen⟩ | ⟨hx, hp, hlen⟩)
      · exact ⟨hx, hp, hlen.le⟩
      · exact ⟨hx, hp, Nat.le_succ_of_le hlen⟩
    · rintro ⟨hx, hp, hlen⟩
      rcases Nat.lt_or_eq_of_le hlen with hlt | heq
      · exact Or.inr ⟨hx, hp, Nat.le_of_lt_succ hlt⟩
      · exact Or.inl ⟨hx, hp, heq⟩

theorem chainFrom_pairwise : ∀ {l : Nat}, l ≤ h.length →
    (chainFrom hash xs h l).Pairwise fun a b => (hash b).length ≤ (hash a).length
  | 0, _ => by
    rw [chainFrom]
    exact group_pairwise
  | l + 1, hl => by
    rw [chainFrom, List.pairwise_append]
    refine ⟨group_pairwise, chainFrom_pairwise (Nat.le_of_succ_le hl), fun a ha b hb => ?_⟩
    have hlen := ((mem_chainFrom (Nat.le_of_succ_le hl)).mp hb).2.2
    rw [(mem_group.mp ha).2, List.length_take, Nat.min_eq_left hl]
    omega

theorem group_chainFrom : ∀ {l : Nat}, l ≤ h.length → k <+: h → k.length ≤ l →
    group hash (chainFrom hash xs h l) k = group hash xs k
  | 0, _, hp, hk => by
    have : k = [] := List.length_eq_zero_iff.mp (Nat.le_zero.mp hk)
    subst this
    exact group_group
  | l + 1, hl, hp, hk => by
    have hkt : k = h.take k.length := List.prefix_iff_eq_take.mp hp
    have happ : group hash (chainFrom hash xs h (l + 1)) k
        = group hash (group hash xs (h.take (l + 1))) k
          ++ group hash (chainFrom hash xs h l) k := by simp [chainFrom, group]
    rw [happ]
    rcases Nat.lt_or_eq_of_le hk with hlt | heq
    · have hnil : group hash (group hash xs (h.take (l + 1))) k = [] := by
        refine List.eq_nil_iff_forall_not_mem.mpr fun y hy => ?_
        obtain ⟨hy, he⟩ := mem_group.mp hy
        have hlen := congrArg List.length ((mem_group.mp hy).2.symm.trans he)
        rw [List.length_take, Nat.min_eq_left hl] at hlen
        omega
      rw [hnil, List.nil_append]
      exact group_chainFrom (Nat.le_of_succ_le hl) hp (Nat.le_of_lt_succ hlt)
    · have hnil : group hash (chainFrom hash xs h l) k = [] := by
        refine List.eq_nil_iff_forall_not_mem.mpr fun y hy => ?_
        obtain ⟨hy, he⟩ := mem_group.mp hy
        have hlen := ((mem_chainFrom (Nat.le_of_succ_le hl)).mp hy).2.2
        rw [he] at hlen
        omega
      rw [hnil, List.append_nil, ← heq, ← hkt]
      exact group_group

end Infra
