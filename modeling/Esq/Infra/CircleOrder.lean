import Esq.Infra.LittleEndian
import Esq.Infra.SearchTree

/-!
# 差の符号による比較

二つの値の差を 32 bit に収め、その符号で大小を決める比較。差があふれると符号が逆になるので、
順序になるのは、値がどれも円周の半分に収まるとき（`InArc`）に限る。

key の欄を順に比べる比較は、欄ごとの比較に分けて考える（`OrderedOn.lex_iff`）。
-/

namespace Infra

/-! ## 欄ごとの比較 -/

section

variable {α β : Type*} {cmp g : α → α → Int} {d : β → β → Int} {f : α → β} {xs : List α} {a b : α}

/-- 欄 `f` が違えば `d` で、同じなら `g` で比べる。 -/
def lexCmp [DecidableEq β] (f : α → β) (d : β → β → Int) (g : α → α → Int) (a b : α) : Int :=
  if f a ≠ f b then d (f a) (f b) else g a b

theorem OrderedOn.asymm (h : OrderedOn cmp xs) (ha : a ∈ xs) (hb : b ∈ xs)
    (hlt : cmp a b < 0) : ¬ cmp b a < 0 := fun hgt =>
  h.irrefl a ha (h.trans a ha b hb a ha hlt hgt)

theorem OrderedOn.of_antisymm (ha : ∀ a ∈ xs, ∀ b ∈ xs, cmp a b < 0 ↔ 0 < cmp b a)
    (ht : ∀ a ∈ xs, ∀ b ∈ xs, ∀ c ∈ xs, cmp a b < 0 → cmp b c < 0 → cmp a c < 0) :
    OrderedOn cmp xs := by
  refine ⟨fun a hm hlt => ?_, fun a hm b hm' => (ha b hm' a hm).mpr, ht⟩
  have := (ha a hm a hm).mp hlt
  omega

theorem OrderedOn.antisymm (h : OrderedOn cmp xs) (hz : ∀ a b, cmp b a = 0 → cmp a b = 0)
    (ha : a ∈ xs) (hb : b ∈ xs) : cmp a b < 0 ↔ 0 < cmp b a := by
  refine ⟨fun hlt => ?_, h.symm b hb a ha⟩
  have hge := h.asymm ha hb hlt
  have hne : cmp b a ≠ 0 := fun he => by
    have := hz a b he
    omega
  omega

theorem OrderedOn.map_iff :
    OrderedOn d (xs.map f) ↔ OrderedOn (fun a b => d (f a) (f b)) xs := by
  constructor
  · intro h
    have hm : ∀ a ∈ xs, f a ∈ xs.map f := fun a ha => List.mem_map_of_mem ha
    exact ⟨fun a ha => h.irrefl _ (hm a ha), fun a ha b hb => h.symm _ (hm a ha) _ (hm b hb),
      fun a ha b hb c hc => h.trans _ (hm a ha) _ (hm b hb) _ (hm c hc)⟩
  · intro h
    constructor
    · rintro _ hx
      obtain ⟨a, ha, rfl⟩ := List.mem_map.mp hx
      exact h.irrefl a ha
    · rintro _ hx _ hy
      obtain ⟨a, ha, rfl⟩ := List.mem_map.mp hx
      obtain ⟨b, hb, rfl⟩ := List.mem_map.mp hy
      exact h.symm a ha b hb
    · rintro _ hx _ hy _ hz
      obtain ⟨a, ha, rfl⟩ := List.mem_map.mp hx
      obtain ⟨b, hb, rfl⟩ := List.mem_map.mp hy
      obtain ⟨c, hc, rfl⟩ := List.mem_map.mp hz
      exact h.trans a ha b hb c hc

/--
**欄ごとの比較が順序になるのは、その欄の比較が順序になり、欄の等しいものどうしの上で
残りの比較が順序になるときである。**
-/
theorem OrderedOn.lex_iff [DecidableEq β]
    (hz : ∀ a ∈ xs, ∀ b ∈ xs, d (f a) (f b) = 0 ↔ f a = f b) :
    OrderedOn (lexCmp f d g) xs ↔ OrderedOn (fun a b => d (f a) (f b)) xs ∧
      ∀ c ∈ xs, OrderedOn g (xs.filter fun a => f a = f c) := by
  have hne : ∀ {a b}, f a ≠ f b → lexCmp f d g a b = d (f a) (f b) := fun h => if_pos h
  have heq : ∀ {a b}, f a = f b → lexCmp f d g a b = g a b := fun h => if_neg (not_not.mpr h)
  -- 欄の比較が 0 でなければ、欄は違う
  have hdne : ∀ a ∈ xs, ∀ b ∈ xs, d (f a) (f b) ≠ 0 → f a ≠ f b := fun a ha b hb h he =>
    h ((hz a ha b hb).mpr he)
  constructor
  · intro h
    refine ⟨⟨fun a ha => ?_, fun a ha b hb hgt => ?_, fun a ha b hb c hc hab hbc => ?_⟩,
      fun c hc => ?_⟩
    · have := (hz a ha a ha).mpr rfl
      omega
    · have hfab := hdne a ha b hb (by omega)
      rw [← hne hfab.symm]
      exact h.symm a ha b hb (by rw [hne hfab]; exact hgt)
    · have hfab := hdne a ha b hb (by omega)
      have hfbc := hdne b hb c hc (by omega)
      have hltab : lexCmp f d g a b < 0 := by
        rw [hne hfab]
        exact hab
      by_cases hac : f a = f c
      · -- 両端の欄が同じなら、`a` と `b` は両向きに負になってしまう
        rw [← hac] at hbc
        exact absurd (by rw [hne hfab.symm]; exact hbc) (h.asymm ha hb hltab)
      · rw [← hne hac]
        exact h.trans a ha b hb c hc hltab (by rw [hne hfbc]; exact hbc)
    · refine (h.mono fun a ha => List.mem_of_mem_filter ha).congr fun a ha b hb => ?_
      have hfa := of_decide_eq_true (List.mem_filter.mp ha).2
      have hfb := of_decide_eq_true (List.mem_filter.mp hb).2
      exact (heq (hfa.trans hfb.symm)).symm
  · rintro ⟨hd, hg⟩
    have hmem : ∀ a ∈ xs, ∀ c, f a = f c → a ∈ xs.filter fun a => f a = f c := fun a ha c h =>
      List.mem_filter.mpr ⟨ha, decide_eq_true h⟩
    refine ⟨fun a ha => ?_, fun a ha b hb hgt => ?_, fun a ha b hb c hc hab hbc => ?_⟩
    · rw [heq rfl]
      exact (hg a ha).irrefl a (hmem a ha a rfl)
    · by_cases hfab : f a = f b
      · rw [heq hfab] at hgt
        rw [heq hfab.symm]
        exact (hg b hb).symm a (hmem a ha b hfab) b (hmem b hb b rfl) hgt
      · rw [hne hfab] at hgt
        rw [hne (Ne.symm hfab)]
        exact hd.symm a ha b hb hgt
    · by_cases hfab : f a = f b
      · by_cases hfbc : f b = f c
        · rw [heq hfab] at hab
          rw [heq hfbc] at hbc
          rw [heq (hfab.trans hfbc)]
          exact (hg c hc).trans a (hmem a ha c (hfab.trans hfbc)) b (hmem b hb c hfbc) c
            (hmem c hc c rfl) hab hbc
        · rw [hne hfbc] at hbc
          rw [hne (hfab ▸ hfbc), hfab]
          exact hbc
      · rw [hne hfab] at hab
        by_cases hfbc : f b = f c
        · rw [hne (hfbc ▸ hfab), ← hfbc]
          exact hab
        · rw [hne hfbc] at hbc
          have hac := hd.trans a ha b hb c hc hab hbc
          rw [hne (hdne a ha c hc (by omega))]
          exact hac

theorem OrderedOn.sub (f : α → Int) (xs : List α) : OrderedOn (fun a b => f a - f b) xs where
  irrefl a _ := by omega
  symm a _ b _ h := by omega
  trans a _ b _ c _ h h' := by omega

end

/-! ## 32 bit の円周 -/

def InArc (xs : List Int) : Prop := ∃ r, ∀ x ∈ xs, (x - r) % 2 ^ 32 < 2 ^ 31

section

variable {xs : List Int} {x y : Int}

theorem InArc.orderedOn (h : InArc xs) : OrderedOn (fun x y => toInt32 (x - y)) xs := by
  obtain ⟨r, hr⟩ := h
  have hdiff : ∀ x ∈ xs, ∀ y ∈ xs,
      toInt32 (x - y) = (x - r) % 2 ^ 32 - (y - r) % 2 ^ 32 := fun x hx y hy => by
    have h1 := hr x hx
    have h2 := hr y hy
    rw [toInt32_eq]
    omega
  exact (OrderedOn.sub (fun x => (x - r) % 2 ^ 32) xs).congr hdiff

theorem OrderedOn.exists_least (h : OrderedOn (fun x y => toInt32 (x - y)) xs) (hx : xs ≠ []) :
    ∃ m ∈ xs, ∀ x ∈ xs, toInt32 (m - x) ≤ 0 := by
  induction xs with
  | nil => exact absurd rfl hx
  | cons y ys ih =>
    by_cases hys : ys = []
    · subst hys
      exact ⟨y, List.mem_cons_self, fun x hx => by
        rw [List.mem_singleton.mp hx, Int.sub_self]
        exact le_refl _⟩
    · obtain ⟨m, hm, hmin⟩ := ih (h.mono fun a ha => List.mem_cons_of_mem y ha) hys
      have hmy := List.mem_cons_of_mem y hm
      by_cases hle : toInt32 (m - y) ≤ 0
      · refine ⟨m, hmy, fun x hx => ?_⟩
        rcases List.mem_cons.mp hx with rfl | hx
        · exact hle
        · exact hmin x hx
      · have hlt : toInt32 (y - m) < 0 := h.symm m hmy y List.mem_cons_self (by omega)
        refine ⟨y, List.mem_cons_self, fun x hx => ?_⟩
        rcases List.mem_cons.mp hx with rfl | hx
        · rw [Int.sub_self]
          exact le_refl _
        · have hmx := hmin x hx
          by_cases hz : toInt32 (m - x) = 0
          · rw [toInt32_eq] at hz hlt ⊢
            omega
          · exact le_of_lt (h.trans y List.mem_cons_self m hmy x (List.mem_cons_of_mem y hx) hlt
              (by omega))

/-- **差の符号が順序になるのは、値が円周の半分に収まるときである。** -/
theorem orderedOn_circle_iff : OrderedOn (fun x y => toInt32 (x - y)) xs ↔ InArc xs := by
  refine ⟨fun h => ?_, InArc.orderedOn⟩
  by_cases hxs : xs = []
  · subst hxs
    exact ⟨0, fun x hx => absurd hx List.not_mem_nil⟩
  obtain ⟨m, hm, hmin⟩ := h.exists_least hxs
  refine ⟨m, fun x hx => ?_⟩
  have hle := hmin x hx
  by_cases hlt : toInt32 (m - x) < 0
  · have hge := h.asymm hm hx hlt
    rw [toInt32_eq] at hle hge
    omega
  · have hz : toInt32 (m - x) = 0 := by omega
    rw [toInt32_eq] at hz
    omega

/--
**hash の差、長さの差、残りの順に比べる比較が順序になるのは、hash が円周の半分に収まるときである。**
-/
theorem orderedOn_hash_length_iff {α : Type*} {hash : α → Int} {len : α → Nat} {g : α → α → Int}
    (hz : ∀ a b, toInt32 (hash a - hash b) = 0 ↔ hash a = hash b)
    (hg : ∀ T : List α, OrderedOn g T) (S : List α) :
    OrderedOn (lexCmp hash (fun x y => toInt32 (x - y))
      (lexCmp len (fun x y => (x : Int) - y) g)) S ↔ InArc (S.map hash) := by
  have hlen : ∀ T : List α, ∀ a ∈ T, ∀ b ∈ T, (len a : Int) - len b = 0 ↔ len a = len b := by
    intro T a _ b _
    omega
  rw [OrderedOn.lex_iff fun a _ b _ => hz a b, ← orderedOn_circle_iff, OrderedOn.map_iff]
  refine and_iff_left_of_imp fun _ c _ => (OrderedOn.lex_iff (hlen _)).mpr ⟨?_, fun c _ => hg _⟩
  exact OrderedOn.sub (fun a => (len a : Int)) _

end

end Infra
