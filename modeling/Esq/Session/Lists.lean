import Esq.Session.Place

/-!
# worker の list の書き換え

一つの worker の list の中身を `m`（双方向の list）と `n`（new list）に写し、
正しい移動（`Place.moves`）が list を正しく書き換えることを示す。

どの補題も「`x` の他の session は動かない」（`Others`）を合わせて言う。
-/

namespace Esq

open Infra

/-! ## worker の list -/

/-- `m` は双方向の list の、`n` は new list の中身である。 -/
structure ListInv (w : Worker) (m : WorkerList → List Nat) (n : NewList → List Nat) : Prop where
  lists : IsFamily w.links w.ends m
  news : IsQueueFamily w.links.next w.newEnds n
  newTail : ∀ k, n k = [] → (w.newEnds k).tail = none
  apart : ∀ {l k x}, x ∈ m l → x ∉ n k
  lefts : ∀ e ∈ w.lefts, e.Sound

def At (m : WorkerList → List Nat) (n : NewList → List Nat) (x : Nat) : Place → Prop
  | .nowhere => (∀ l, x ∉ m l) ∧ ∀ k, x ∉ n k
  | .newList => ∃ k, x ∈ n k
  | .list l => x ∈ m l
  | .anywhere => True

def Others (m m' : WorkerList → List Nat) (n n' : NewList → List Nat) (x : Nat) : Prop :=
  ∀ y, y ≠ x → ∀ p, At m n y p → At m' n' y p

section

variable {w : Worker} {m m' m'' : WorkerList → List Nat} {n n' n'' : NewList → List Nat} {x : Nat}

theorem Others.refl : Others m m n n x := fun _ _ _ h => h

theorem Others.trans (h : Others m m' n n' x) (h' : Others m' m'' n' n'' x) :
    Others m m'' n n'' x := fun y hy p hp => h' y hy p (h y hy p hp)

theorem others_of_mem (hm : ∀ y, y ≠ x → ∀ l, y ∈ m' l ↔ y ∈ m l)
    (hn : ∀ y, y ≠ x → ∀ k, y ∈ n' k ↔ y ∈ n k) : Others m m' n n' x := by
  intro y hy p hp
  cases p with
  | nowhere => exact ⟨fun l => by rw [hm y hy]; exact hp.1 l, fun k => by rw [hn y hy]; exact hp.2 k⟩
  | newList =>
    obtain ⟨k, hk⟩ := hp
    exact ⟨k, (hn y hy k).mpr hk⟩
  | list l => exact (hm y hy l).mpr hp
  | anywhere => trivial

theorem mem_update_cons_iff {l : WorkerList} {y : Nat} (hy : y ≠ x) (l' : WorkerList) :
    y ∈ Function.update m l (x :: m l) l' ↔ y ∈ m l' := by
  by_cases hl : l' = l
  · subst hl
    simp [hy]
  · rw [Function.update_of_ne hl]

theorem mem_update_append_iff {ι : Type} [DecidableEq ι] {f : ι → List Nat} {i : ι} {y : Nat}
    (hy : y ≠ x) (j : ι) : y ∈ Function.update f i (f i ++ [x]) j ↔ y ∈ f j := by
  by_cases hj : j = i
  · subst hj
    simp [hy]
  · rw [Function.update_of_ne hj]

theorem mem_update_erase_iff {l : WorkerList} {y : Nat} (hy : y ≠ x) (l' : WorkerList) :
    y ∈ Function.update m l ((m l).erase x) l' ↔ y ∈ m l' := by
  by_cases hl : l' = l
  · subst hl
    rw [Function.update_self]
    exact List.mem_erase_of_ne hy
  · rw [Function.update_of_ne hl]

theorem ListInv.setList {l : WorkerList} {r : Links Nat × Ends Nat} (h : ListInv w m n)
    (hfam : IsFamily r.1 (Function.update w.ends l r.2) m')
    (hlinks : ∀ k, ∀ y ∈ n k, r.1.next y = w.links.next y)
    (hapart : ∀ {l k x}, x ∈ m' l → x ∉ n k) : ListInv (w.setList l r) m' n where
  lists := hfam
  news := h.news.congr hlinks
  newTail := h.newTail
  apart := hapart
  lefts := h.lefts

/-- **正しい操作一つは、list を正しく書き換える。** -/
theorem ListInv.execEffect {e : Effect} {p q : Place} (h : ListInv w m n) (hat : At m n x p)
    (hmove : p.move e = some q) :
    ∃ m', ListInv (w.execEffect x e) m' n ∧ At m' n x q ∧ Others m m' n n x := by
  have hnews : ∀ k, ∀ y ∈ n k, ∀ l, y ∉ m l := fun k y hy l hm => h.apart hm hy
  cases e with
  | joinHead l =>
    cases p with
    | nowhere =>
      cases hmove
      have hfam := h.lists.joinHead (i := l) hat.1
      refine ⟨_, h.setList hfam (fun k y hy => ?_) (fun {l' k y} hy => ?_), ?_, ?_⟩
      · refine (joinHead_links_of_notMem (h.lists.dll l) (hnews k y hy l) ?_).1
        rintro rfl
        exact hat.2 k hy
      · by_cases hyx : y = x
        · exact hyx ▸ hat.2 k
        · exact h.apart ((mem_update_cons_iff hyx l').mp hy)
      · show x ∈ Function.update m l (x :: m l) l
        simp
      · exact others_of_mem (fun y hy l' => mem_update_cons_iff hy l') fun _ _ _ => Iff.rfl
    | newList => cases hmove
    | list l' => cases hmove
    | anywhere => cases hmove
  | joinTail l =>
    cases p with
    | nowhere =>
      cases hmove
      have hfam := h.lists.joinTail (i := l) hat.1
      refine ⟨_, h.setList hfam (fun k y hy => ?_) (fun {l' k y} hy => ?_), ?_, ?_⟩
      · refine (joinTail_links_of_notMem (h.lists.dll l) (hnews k y hy l) ?_).1
        rintro rfl
        exact hat.2 k hy
      · by_cases hyx : y = x
        · exact hyx ▸ hat.2 k
        · exact h.apart ((mem_update_append_iff hyx l').mp hy)
      · show x ∈ Function.update m l (m l ++ [x]) l
        simp
      · exact others_of_mem (fun y hy l' => mem_update_append_iff hy l') fun _ _ _ => Iff.rfl
    | newList => cases hmove
    | list l' => cases hmove
    | anywhere => cases hmove
  | left l =>
    cases p with
    | list l' =>
      simp only [Place.move] at hmove
      split at hmove
      · next heq =>
        subst heq
        cases hmove
        have hfam := h.lists.left hat
        refine ⟨_, ⟨hfam, h.news.congr fun k y hy => ?_, h.newTail, fun {l k y} hy => ?_, ?_⟩,
          ⟨fun l => ?_, fun k => h.apart hat⟩, ?_⟩
        · exact (left_links_of_notMem (h.lists.dll l') hat (hnews k y hy l')).1
        · by_cases hyx : y = x
          · exact hyx ▸ h.apart hat
          · exact h.apart ((mem_update_erase_iff hyx l).mp hy)
        · -- 抜く直前に `x` は `l'` にいた
          intro e he
          rcases List.mem_cons.mp he with rfl | he
          · exact ⟨m l', (h.lists.dll l').1, hat⟩
          · exact h.lefts e he
        · by_cases hl : l = l'
          · subst hl
            rw [Function.update_self]
            exact (h.lists.dll l).nodup.not_mem_erase
          · rw [Function.update_of_ne hl]
            exact fun hm => hl (h.lists.disjoint hm hat)
        · exact others_of_mem (fun y hy l => mem_update_erase_iff hy l) fun _ _ _ => Iff.rfl
      · cases hmove
    | nowhere => cases hmove
    | newList => cases hmove
    | anywhere => cases hmove
  | addSocketFd fd bits =>
    have hq : p = q := by cases p <;> exact Option.some.inj hmove
    exact ⟨m, ⟨h.lists, h.news, h.newTail, h.apart, h.lefts⟩, hq ▸ hat, .refl⟩
  | addSocketFdMultishot fd bits =>
    have hq : p = q := by cases p <;> exact Option.some.inj hmove
    exact ⟨m, ⟨h.lists, h.news, h.newTail, h.apart, h.lefts⟩, hq ▸ hat, .refl⟩
  | removeSocketFd =>
    have hq : p = q := by cases p <;> exact Option.some.inj hmove
    refine ⟨m, ?_, hq ▸ hat, .refl⟩
    unfold Worker.execEffect
    cases w.poll x <;> exact ⟨h.lists, h.news, h.newTail, h.apart, h.lefts⟩

theorem ListInv.execEffects : ∀ (es : List Effect) {w : Worker} {m : WorkerList → List Nat}
    {p q : Place}, ListInv w m n → At m n x p → p.moves es = some q →
    ∃ m', ListInv (w.execEffects x es) m' n ∧ At m' n x q ∧ Others m m' n n x
  | [], w, m, p, q, h, hat, hmoves => by
    cases hmoves
    exact ⟨m, h, hat, .refl⟩
  | e :: es, w, m, p, q, h, hat, hmoves => by
    rw [Place.moves] at hmoves
    cases hmove : p.move e with
    | none => simp [hmove] at hmoves
    | some r =>
      simp only [hmove] at hmoves
      obtain ⟨m', h', hat', ho⟩ := h.execEffect hat hmove
      obtain ⟨m'', h'', hat'', ho'⟩ := ListInv.execEffects es h' hat' hmoves
      exact ⟨m'', h'', hat'', ho.trans ho'⟩

theorem execEffects_session : ∀ (es : List Effect) (w : Worker),
    (w.execEffects x es).session = w.session
  | [], _ => rfl
  | e :: es, w => by
    refine (execEffects_session es (w.execEffect x e)).trans ?_
    cases e with
    | removeSocketFd =>
      unfold Worker.execEffect
      cases w.poll x <;> rfl
    | _ => rfl

theorem ListInv.setSession (h : ListInv w m n) (s : Session) : ListInv (w.setSession x s) m n :=
  ⟨h.lists, h.news, h.newTail, h.apart, h.lefts⟩

theorem joinNewList_session (w : Worker) (k : NewList) (x : Nat) :
    (w.joinNewList k x).session = w.session := by
  unfold Worker.joinNewList
  split <;> rfl

theorem ListInv.joinNewList (h : ListInv w m n) (hat : At m n x .nowhere) (k : NewList) :
    ∃ n', ListInv (w.joinNewList k x) m n' ∧ At m n' x .newList ∧ Others m m n n' x := by
  refine ⟨Function.update n k (n k ++ [x]), ?_, ⟨k, by simp⟩,
    others_of_mem (fun _ _ _ => Iff.rfl) fun y hy k' => mem_update_append_iff hy k'⟩
  obtain ⟨hm, hn⟩ := hat
  have hout : ∀ l, ∀ y ∈ m l, y ≠ x := by
    rintro l y hy rfl
    exact hm l hy
  have hapart : ∀ {l k' y}, y ∈ m l → y ∉ Function.update n k (n k ++ [x]) k' := by
    intro l k' y hy
    rw [mem_update_append_iff (hout l y hy)]
    exact h.apart hy
  have htail' : ∀ e : Ends Nat, e.tail = some x → ∀ k',
      Function.update n k (n k ++ [x]) k' = [] → (Function.update w.newEnds k e k').tail = none := by
    intro e he k' hk'
    by_cases hkk : k' = k
    · subst hkk
      simp at hk'
    · rw [Function.update_of_ne hkk] at hk' ⊢
      exact h.newTail k' hk'
  unfold Worker.joinNewList
  cases ht : (w.newEnds k).tail with
  | none =>
    have hnil : n k = [] := by
      by_contra hne
      have := (h.news.queue k).2 hne
      rw [ht] at this
      exact hne (List.getLast?_eq_none_iff.mp this.symm)
    refine ⟨?_, ?_, htail' _ rfl, hapart, h.lefts⟩
    · refine ⟨fun l => (h.lists.dll l).congr (fun y hy => ?_) fun y hy => ?_, h.lists.disjoint⟩
      · exact Function.update_of_ne (hout l y hy) _ _
      · exact Function.update_of_ne (hout l y hy) _ _
    · rw [hnil]
      refine h.news.replace isQueue_pushFirst (fun j y _ hy => ?_) fun j y _ hy => ?_
      · refine Function.update_of_ne ?_ _ _
        rintro rfl
        exact hn j hy
      · rw [List.mem_singleton.mp hy]
        exact hn j
  | some t =>
    have hne : n k ≠ [] := fun he => by simp [h.newTail k he] at ht
    have htmem : t ∈ n k := List.mem_of_getLast? (((h.news.queue k).2 hne).symm.trans ht)
    have htx : t ≠ x := fun he => hn k (he ▸ htmem)
    have hcomm : Function.update (Function.update w.links.next x none) t (some x)
        = (pushTail w.links.next (w.newEnds k) t x).1 := (Function.update_comm htx _ _ _).symm
    refine ⟨?_, ?_, htail' _ rfl, hapart, h.lefts⟩
    · refine ⟨fun l => (h.lists.dll l).congr (fun y hy => ?_) fun y hy => ?_, h.lists.disjoint⟩
      · have hyt : y ≠ t := by
          rintro rfl
          exact h.apart hy htmem
        show Function.update (Function.update w.links.next x none) t (some x) y = _
        rw [Function.update_of_ne hyt, Function.update_of_ne (hout l y hy)]
      · exact Function.update_of_ne (hout l y hy) _ _
    · show IsQueueFamily (Function.update (Function.update w.links.next x none) t (some x)) _ _
      rw [hcomm]
      refine h.news.replace ((h.news.queue k).pushTail ht hne (hn k)) (fun j y hj hy => ?_)
        fun j y hj hy => ?_
      · refine pushTail_next_of_ne (d := w.newEnds k) ?_ ?_
        · rintro rfl
          exact hn j hy
        · rintro rfl
          exact hj (h.news.disjoint hy htmem)
      · rcases List.mem_append.mp hy with hy | hy
        · exact fun hm => hj (h.news.disjoint hm hy)
        · rw [List.mem_singleton.mp hy]
          exact hn j

theorem ListInv.popNewList {k : NewList} {w' : Worker} (h : ListInv w m n)
    (hpop : w.popNewList k = some (x, w')) :
    ∃ n', ListInv w' m n' ∧ At m n' x .nowhere ∧ Others m m n n' x ∧ w'.session = w.session ∧
      x ∈ n k := by
  unfold Worker.popNewList at hpop
  have hhead := (h.news.queue k).1.head_eq
  cases hk : n k with
  | nil =>
    rw [hk] at hhead
    simp [hhead] at hpop
  | cons y rest =>
    rw [hk] at hhead
    simp only [hhead, List.head?_cons] at hpop
    obtain ⟨rfl, rfl⟩ := Prod.mk.inj (Option.some.inj hpop)
    have hnd := h.news.nodup k
    rw [hk] at hnd
    refine ⟨Function.update n k rest, ⟨h.lists, h.news.pop hk, ?_, ?_, h.lefts⟩, ⟨?_, ?_⟩, ?_, rfl,
      List.mem_cons_self⟩
    · intro k' hk'
      show (Function.update w.newEnds k _ k').tail = none
      by_cases hkk : k' = k
      · subst hkk
        rw [Function.update_self] at hk' ⊢
        subst hk'
        have hl := (h.news.queue k').1
        rw [hk] at hl
        unfold popEnds
        rw [linked_nil.mp hl.2]
      · rw [Function.update_of_ne hkk] at hk' ⊢
        exact h.newTail k' hk'
    · intro l k' z hz hmem
      by_cases hkk : k' = k
      · subst hkk
        rw [Function.update_self] at hmem
        exact h.apart hz (hk ▸ List.mem_cons_of_mem y hmem)
      · rw [Function.update_of_ne hkk] at hmem
        exact h.apart hz hmem
    · intro l hmem
      exact h.apart hmem (hk ▸ List.mem_cons_self : y ∈ n k)
    · intro k' hmem
      by_cases hkk : k' = k
      · subst hkk
        rw [Function.update_self] at hmem
        exact (List.nodup_cons.mp hnd).1 hmem
      · rw [Function.update_of_ne hkk] at hmem
        exact hkk (h.news.disjoint hmem (hk ▸ List.mem_cons_self))
    · refine others_of_mem (fun _ _ _ => Iff.rfl) fun z hz k' => ?_
      by_cases hkk : k' = k
      · subst hkk
        rw [Function.update_self, hk]
        simp [hz]
      · rw [Function.update_of_ne hkk]

end

end Esq
