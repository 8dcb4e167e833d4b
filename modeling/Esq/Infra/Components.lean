import Mathlib.Data.List.TakeWhile

/-!
# 区切りで分けた部分

列を区切りで分けた、空でない部分の列（`components`）。区切りの数には依らないから、連なる区切りを
一つにまとめても変わらない（`components_squeeze`）。
-/

namespace Infra

variable {α : Type*} {p : α → Bool} {a b c : α} {s t : List α}

/-! ## 部分 -/

/-- `p` を満たす要素を区切りとした、空でない部分。 -/
def components (p : α → Bool) (s : List α) : List (List α) := (s.splitOnP p).filter (!·.isEmpty)

@[simp] theorem components_nil : components p [] = [] := rfl

theorem components_append_cons (s t : List α) (hc : p c = true) :
    components p (s ++ c :: t) = components p s ++ components p t := by
  unfold components
  rw [List.splitOnP_append_cons s t hc, List.filter_append]

theorem components_cons (t : List α) (hc : p c = true) : components p (c :: t) = components p t :=
  components_append_cons [] t hc

theorem components_of_forall (hne : s ≠ []) (h : ∀ x ∈ s, p x = false) : components p s = [s] := by
  unfold components
  rw [List.splitOnP_eq_singleton h]
  cases s with
  | nil => exact absurd rfl hne
  | cons x s => rfl

theorem mem_components {x : List α} : ∀ {s : List α}, x ∈ components p s →
    x ≠ [] ∧ ∀ y ∈ x, p y = false ∧ y ∈ s := by
  intro s
  -- 初めの部分も含めて、分けたすべてについて言う
  suffices h : ∀ x ∈ s.splitOnP p, ∀ y ∈ x, p y = false ∧ y ∈ s by
    intro hx
    obtain ⟨hm, hne⟩ := List.mem_filter.mp hx
    exact ⟨by simpa using hne, h x hm⟩
  induction s with
  | nil =>
    intro x hx y hy
    rw [List.splitOnP_nil, List.mem_singleton] at hx
    rw [hx] at hy
    cases hy
  | cons c s ih =>
    intro x hx y hy
    rw [List.splitOnP_cons_eq_if_modifyHead] at hx
    split at hx
    · rcases List.mem_cons.mp hx with rfl | hx
      · cases hy
      · obtain ⟨h1, h2⟩ := ih x hx y hy
        exact ⟨h1, List.mem_cons_of_mem c h2⟩
    · next hc =>
      obtain ⟨z, zs, hz⟩ := List.exists_cons_of_ne_nil (List.splitOnP_ne_nil p s)
      rw [hz] at hx ih
      rw [List.modifyHead_cons] at hx
      rcases List.mem_cons.mp hx with rfl | hx
      · rcases List.mem_cons.mp hy with rfl | hy
        · exact ⟨by simpa using hc, List.mem_cons_self⟩
        · obtain ⟨h1, h2⟩ := ih z List.mem_cons_self y hy
          exact ⟨h1, List.mem_cons_of_mem c h2⟩
      · obtain ⟨h1, h2⟩ := ih x (List.mem_cons_of_mem z hx) y hy
        exact ⟨h1, List.mem_cons_of_mem c h2⟩

theorem exists_mem_components {x : α} (hp : p x = false) : ∀ {s : List α}, x ∈ s →
    ∃ y ∈ components p s, x ∈ y := by
  intro s hx
  suffices h : ∃ y ∈ s.splitOnP p, x ∈ y by
    obtain ⟨y, hy, hxy⟩ := h
    refine ⟨y, List.mem_filter.mpr ⟨hy, ?_⟩, hxy⟩
    cases y with
    | nil => cases hxy
    | cons z y => rfl
  induction s with
  | nil => cases hx
  | cons c s ih =>
    rw [List.splitOnP_cons_eq_if_modifyHead]
    split
    · next hc =>
      have hne : x ≠ c := fun he => by
        rw [he, hc] at hp
        exact Bool.noConfusion hp
      obtain ⟨y, hy, hxy⟩ := ih ((List.mem_cons.mp hx).resolve_left hne)
      exact ⟨y, List.mem_cons_of_mem [] hy, hxy⟩
    · obtain ⟨z, zs, hz⟩ := List.exists_cons_of_ne_nil (List.splitOnP_ne_nil p s)
      rw [hz] at ih ⊢
      rw [List.modifyHead_cons]
      rcases List.mem_cons.mp hx with rfl | hx
      · exact ⟨x :: z, List.mem_cons_self, List.mem_cons_self⟩
      · obtain ⟨y, hy, hxy⟩ := ih hx
        rcases List.mem_cons.mp hy with rfl | hy
        · exact ⟨c :: y, List.mem_cons_self, List.mem_cons_of_mem c hxy⟩
        · exact ⟨y, List.mem_cons_of_mem _ hy, hxy⟩

theorem components_congr {q : α → Bool} (h : ∀ x ∈ s, p x = q x) :
    components p s = components q s := by
  have hsplit : s.splitOnP p = s.splitOnP q := by
    induction s with
    | nil => rfl
    | cons c s ih =>
      rw [List.splitOnP_cons_eq_if_modifyHead, List.splitOnP_cons_eq_if_modifyHead,
        h c List.mem_cons_self, ih fun x hx => h x (List.mem_cons_of_mem c hx)]
  unfold components
  rw [hsplit]

theorem components_append (h : (∀ c ∈ s.getLast?, p c = true) ∨ ∀ c ∈ t.head?, p c = true) :
    components p (s ++ t) = components p s ++ components p t := by
  rcases h with h | h
  · rcases List.eq_nil_or_concat s with rfl | ⟨u, c, rfl⟩
    · rfl
    · have hc : p c = true := h c (by simp)
      rw [List.concat_eq_append, List.append_assoc, List.singleton_append,
        components_append_cons u t hc, components_append_cons u [] hc, components_nil,
          List.append_nil]
  · cases t with
    | nil => rw [List.append_nil, components_nil, List.append_nil]
    | cons c t =>
      have hc : p c = true := h c rfl
      rw [components_append_cons s t hc, components_cons t hc]

theorem exists_last_word (p : α → Bool) (s : List α) :
    ∃ u w, s = u ++ w ∧ (∀ x ∈ w, p x = false) ∧ ∀ c ∈ u.getLast?, p c = true := by
  induction s with
  | nil =>
    refine ⟨[], [], rfl, ?_, ?_⟩
    · intro x hx
      cases hx
    · intro c hc
      cases hc
  | cons c s ih =>
    obtain ⟨u, w, rfl, hw, hu⟩ := ih
    by_cases hc : p c = true
    · refine ⟨c :: u, w, rfl, hw, fun d hd => ?_⟩
      cases u with
      | nil =>
        obtain rfl : c = d := Option.some.inj hd
        exact hc
      | cons e u => exact hu d (by rwa [List.getLast?_cons_cons] at hd)
    · cases u with
      | nil =>
        refine ⟨[], c :: w, rfl, fun x hx => ?_, fun d hd => by cases hd⟩
        rcases List.mem_cons.mp hx with rfl | hx
        · simpa using hc
        · exact hw x hx
      | cons e u =>
        refine ⟨c :: e :: u, w, rfl, hw, fun d hd => hu d ?_⟩
        rwa [List.getLast?_cons_cons] at hd

/-- **継ぎ目に区切りが無ければ、前の終わりの部分は元のままでない。** -/
theorem components_append_ne (hs : ∃ c ∈ s.getLast?, p c = false) (ht : ∃ c ∈ t.head?, p c = false)
    (us : List (List α)) : components p (s ++ t) ≠ components p s ++ us := by
  obtain ⟨u, w, rfl, hw, hu⟩ := exists_last_word p s
  have hwne : w ≠ [] := by
    rintro rfl
    obtain ⟨c, hc, hfalse⟩ := hs
    rw [List.append_nil] at hc
    rw [hu c hc] at hfalse
    exact Bool.noConfusion hfalse
  obtain ⟨d, hd, hdfalse⟩ := ht
  obtain ⟨t, rfl⟩ : ∃ t', t = d :: t' := by
    cases t with
    | nil => cases hd
    | cons e t =>
      obtain rfl : e = d := Option.some.inj hd
      exact ⟨t, rfl⟩
  -- `t` の初めの部分が `w` に続く
  have hfirst : (d :: t).takeWhile (fun c => !p c) = d :: t.takeWhile (fun c => !p c) :=
    List.takeWhile_cons_of_pos (by simp [hdfalse])
  have hword : ∀ x ∈ w ++ d :: t.takeWhile (fun c => !p c), p x = false := by
    intro x hx
    rcases List.mem_append.mp hx with hx | hx
    · exact hw x hx
    · rw [← hfirst] at hx
      simpa using List.mem_takeWhile_imp hx
  have hsplit : w ++ d :: t
      = (w ++ d :: t.takeWhile (fun c => !p c)) ++ t.dropWhile (fun c => !p c) := by
    rw [List.append_assoc, List.cons_append, List.takeWhile_append_dropWhile]
  have hdrop : ∀ c ∈ (t.dropWhile (fun c => !p c)).head?, p c = true := by
    intro c hc
    have := List.head?_dropWhile_not (fun c => !p c) t
    rw [hc] at this
    simpa using this
  rw [List.append_assoc, components_append (Or.inl hu), components_append (Or.inl hu), hsplit,
    components_append (Or.inr hdrop), components_of_forall (by simp) hword,
      components_of_forall hwne hw,
    List.append_assoc]
  intro heq
  have hhead := List.append_cancel_left heq
  simp at hhead

theorem head_ne_of_append {w : List α} (hw : ∀ x ∈ w, p x = false) (hhead : w.head? ≠ some b) :
    ∀ (s u : List α), (∀ x ∈ u, p x = false) → (∀ x ∈ components p (u ++ s), x.head? ≠ some b) →
      ∀ x ∈ components p (u ++ s ++ w), x.head? ≠ some b := by
  intro s
  induction s with
  | nil =>
    intro u hu h
    rw [List.append_nil] at h ⊢
    by_cases hne : u ++ w = []
    · rw [hne]
      intro x hx
      cases hx
    · have hall : ∀ x ∈ u ++ w, p x = false := fun x hx =>
        (List.mem_append.mp hx).elim (hu x) (hw x)
      rw [components_of_forall hne hall]
      intro x hx
      rw [List.mem_singleton.mp hx]
      cases u with
      | nil => exact hhead
      | cons y u =>
        have hself := h (y :: u) (by
          rw [components_of_forall (List.cons_ne_nil y u) hu]
          exact List.mem_singleton_self _)
        exact hself
  | cons c s ih =>
    intro u hu h
    by_cases hc : p c = true
    · rw [components_append_cons u s hc] at h
      rw [List.append_assoc, List.cons_append, components_append_cons u _ hc]
      intro x hx
      rcases List.mem_append.mp hx with hx | hx
      · exact h x (List.mem_append_left _ hx)
      · refine ih [] (fun x hx => by cases hx) (fun x hx => ?_) x hx
        exact h x (List.mem_append_right _ hx)
    · have hc' : p c = false := by simpa using hc
      have hu' : ∀ x ∈ u ++ [c], p x = false := fun x hx => by
        rcases List.mem_append.mp hx with hx | hx
        · exact hu x hx
        · rw [List.mem_singleton.mp hx]
          exact hc'
      have h' := ih (u ++ [c]) hu'
      simp only [List.append_assoc, List.singleton_append] at h' h ⊢
      exact h' h

/-! ## 区切りをまとめる -/

/-- 連なる区切りを一つの `a` にし、終わりの区切りを除く。`after` は、区切りの直後であること。 -/
def squeeze (p : α → Bool) (a : α) : Bool → List α → List α
  | _, [] => []
  | after, c :: s =>
    if p c then squeeze p a true s
    else if after then a :: c :: squeeze p a false s
    else c :: squeeze p a false s

theorem mem_squeeze {x : α} : ∀ {s : List α} {k : Bool},
    x ∈ squeeze p a k s → x = a ∨ (x ∈ s ∧ p x = false)
  | [], _, hx => by cases hx
  | c :: s, k, hx => by
    unfold squeeze at hx
    split at hx
    · exact (mem_squeeze hx).imp_right fun h => ⟨List.mem_cons_of_mem c h.1, h.2⟩
    · next hc =>
      have hcons : x ∈ c :: squeeze p a false s → x = a ∨ (x ∈ c :: s ∧ p x = false) := by
        intro hx
        rcases List.mem_cons.mp hx with rfl | hx
        · exact Or.inr ⟨List.mem_cons_self, by simpa using hc⟩
        · exact (mem_squeeze hx).imp_right fun h => ⟨List.mem_cons_of_mem c h.1, h.2⟩
      split at hx
      · rcases List.mem_cons.mp hx with rfl | hx
        · exact Or.inl rfl
        · exact hcons hx
      · exact hcons hx

theorem length_squeeze_le : ∀ (s : List α) (k : Bool),
    (squeeze p a k s).length ≤ s.length + if k then 1 else 0
  | [], _ => Nat.zero_le _
  | c :: s, k => by
    have h := length_squeeze_le s
    unfold squeeze
    split
    · have := h true
      simp only [List.length_cons, if_true] at this ⊢
      split <;> omega
    · have := h false
      simp only [Bool.false_eq_true, if_false, Nat.add_zero] at this
      split
      · simp only [List.length_cons]
        omega
      · simp only [List.length_cons]
        omega

theorem head_squeeze_true (p : α → Bool) (a : α) (s : List α) :
    squeeze p a true s = [] ∨ (squeeze p a true s).head? = some a := by
  induction s with
  | nil => exact Or.inl rfl
  | cons c s ih =>
    unfold squeeze
    split
    · exact ih
    · exact Or.inr rfl

theorem getLast?_squeeze : ∀ {s : List α} {k : Bool}, ∀ x ∈ (squeeze p a k s).getLast?, p x = false
  | [], _, x, hx => by cases hx
  | c :: s, k, x, hx => by
    unfold squeeze at hx
    split at hx
    · exact getLast?_squeeze x hx
    · next hc =>
      have hcons : x ∈ (c :: squeeze p a false s).getLast? → p x = false := by
        intro hx
        cases hs : squeeze p a false s with
        | nil =>
          rw [hs] at hx
          obtain rfl : c = x := Option.some.inj hx
          simpa using hc
        | cons d u =>
          rw [hs, List.getLast?_cons_cons, ← hs] at hx
          exact getLast?_squeeze x hx
      split at hx
      · rw [List.getLast?_cons_cons] at hx
        exact hcons hx
      · exact hcons hx

theorem squeeze_squeeze (ha : p a = true) : ∀ (s : List α) (k : Bool),
    squeeze p a false (squeeze p a k s) = squeeze p a k s
  | [], _ => rfl
  | c :: s, k => by
    by_cases hc : p c = true
    · rw [squeeze, if_pos hc, squeeze_squeeze ha s true]
    · have hnext : squeeze p a false (c :: squeeze p a false s) = c :: squeeze p a false s := by
        rw [squeeze, if_neg hc, if_neg Bool.false_ne_true, squeeze_squeeze ha s false]
      cases k with
      | false => rw [squeeze, if_neg hc, if_neg Bool.false_ne_true, hnext]
      | true =>
        rw [squeeze, if_neg hc, if_pos rfl, squeeze, if_pos ha, squeeze, if_neg hc, if_pos rfl,
          squeeze_squeeze ha s false]

theorem intercalate_cons (a : α) (w : List α) (ws : List (List α)) :
    [a].intercalate (w :: ws) = w ++ ws.flatMap (a :: ·) := by
  induction ws generalizing w with
  | nil => simp
  | cons v ws ih => rw [List.intercalate_cons_cons, ih, List.flatMap_cons, List.append_assoc]; rfl

theorem squeeze_eq_intercalate_aux (a : α) : ∀ s : List α,
    squeeze p a true s = (components p s).flatMap (a :: ·) ∧
      ∀ u, u ≠ [] → (∀ x ∈ u, p x = false) →
        u ++ squeeze p a false s = [a].intercalate (components p (u ++ s)) := by
  intro s
  induction s with
  | nil =>
    refine ⟨rfl, fun u hne hu => ?_⟩
    rw [List.append_nil, components_of_forall hne hu, intercalate_cons]
    rfl
  | cons c s ih =>
    obtain ⟨ih1, ih2⟩ := ih
    by_cases hc : p c = true
    · simp only [squeeze, hc, if_true]
      refine ⟨by rw [components_cons s hc, ih1], fun u hne hu => ?_⟩
      rw [components_append_cons u s hc, components_of_forall hne hu, List.singleton_append,
        intercalate_cons, ih1]
    · have hc' : p c = false := by simpa using hc
      have hword := ih2 [c] (List.cons_ne_nil c []) fun x hx => by
        rw [List.mem_singleton.mp hx]
        exact hc'
      simp only [squeeze, hc', Bool.false_eq_true, if_false, if_true]
      refine ⟨?_, fun u hne hu => ?_⟩
      · obtain ⟨w, hw, -⟩ := exists_mem_components hc' (List.mem_cons_self (a := c) (l := s))
        obtain ⟨v, vs, hv⟩ := List.exists_cons_of_ne_nil (List.ne_nil_of_mem hw)
        rw [List.singleton_append, List.singleton_append, hv, intercalate_cons] at hword
        rw [hv, List.flatMap_cons, hword]
        rfl
      · have hmore := ih2 (u ++ [c]) (by simp) fun x hx => by
          rcases List.mem_append.mp hx with hx | hx
          · exact hu x hx
          · rw [List.mem_singleton.mp hx]
            exact hc'
        rwa [List.append_assoc, List.append_assoc] at hmore

/-- **まとめた列は、部分を一つの `a` で繋いだものであり、区切りで始まり部分があれば `a` が前に付く。** -/
theorem squeeze_eq_intercalate (a : α) (s : List α) : squeeze p a false s =
    (if s.head?.any p = true ∧ components p s ≠ [] then [a] else []) ++
      [a].intercalate (components p s) := by
  cases s with
  | nil => rfl
  | cons c s =>
    rw [List.head?_cons, Option.any_some]
    by_cases hc : p c = true
    · rw [squeeze, if_pos hc, (squeeze_eq_intercalate_aux a s).1, components_cons s hc]
      cases hv : components p s with
      | nil => rw [if_neg fun h => h.2 rfl]; rfl
      | cons v vs =>
        rw [if_pos ⟨hc, List.cons_ne_nil v vs⟩, intercalate_cons]
        rfl
    · rw [if_neg fun h => hc h.1, List.nil_append, squeeze, if_neg hc, if_neg Bool.false_ne_true]
      exact (squeeze_eq_intercalate_aux a s).2 [c] (List.cons_ne_nil c []) fun x hx => by
        rw [List.mem_singleton.mp hx]
        simpa using hc

section

variable [DecidableEq α]

theorem components_squeeze_aux (ha : p a = true) : ∀ (s u : List α), (∀ x ∈ u, p x = false) →
    components (· == a) (u ++ squeeze p a false s) = components p (u ++ s) ∧
      components (· == a) (u ++ squeeze p a true s) = components p u ++ components p s := by
  have hword : ∀ u : List α, (∀ x ∈ u, p x = false) → components (· == a) u = components p u := by
    intro u hu
    by_cases hne : u = []
    · rw [hne]
      rfl
    · rw [components_of_forall hne hu, components_of_forall hne fun x hx => ?_]
      rw [beq_eq_false_iff_ne]
      intro he
      have := hu x hx
      rw [he, ha] at this
      exact Bool.noConfusion this
  intro s
  induction s with
  | nil =>
    intro u hu
    simp only [squeeze, List.append_nil, components_nil]
    exact ⟨hword u hu, hword u hu⟩
  | cons c s ih =>
    intro u hu
    by_cases hc : p c = true
    · simp only [squeeze, hc, if_true]
      rw [components_append_cons u s hc, components_cons s hc]
      exact ⟨(ih u hu).2, (ih u hu).2⟩
    · have hc' : p c = false := by simpa using hc
      simp only [squeeze, hc', Bool.false_eq_true, if_false, if_true]
      refine ⟨?_, ?_⟩
      · have hu' : ∀ x ∈ u ++ [c], p x = false := fun x hx => by
          rcases List.mem_append.mp hx with hx | hx
          · exact hu x hx
          · rw [List.mem_singleton.mp hx]
            exact hc'
        have h := (ih (u ++ [c]) hu').1
        rw [List.append_assoc, List.append_assoc] at h
        exact h
      · have h := (ih [c] (fun x hx => by rw [List.mem_singleton.mp hx]; exact hc')).1
        rw [components_append_cons u _ (c := a) (by simp), hword u hu]
        exact congrArg (components p u ++ ·) h

/-- **区切りをまとめても、部分は変わらない。** -/
theorem components_squeeze (ha : p a = true) (after : Bool) (s : List α) :
    components (· == a) (squeeze p a after s) = components p s := by
  obtain ⟨h1, h2⟩ := components_squeeze_aux ha s [] (fun x hx => by cases hx)
  cases after with
  | false => exact h1
  | true => exact h2

end

end Infra
